/-!
# Uniform resource identifiers

A document is named by the normalized text of its URL. Two names are equal when their texts are, and they are sorted
by their texts. `LgLang.Url` reads and combines URLs.
-/

namespace LgLang

/-- The normalized text of a URL. -/
structure Uri where
  text : String
  deriving DecidableEq, Repr, Inhabited, Hashable

namespace Uri

instance : Ord Uri where
  compare u v := compare u.text v.text

instance : Std.TransOrd Uri where
  eq_swap {u v} := Std.OrientedOrd.eq_swap (a := u.text) (b := v.text)
  isLE_trans {u v w} := Std.TransOrd.isLE_trans (a := u.text) (b := v.text) (c := w.text)

instance : Std.LawfulEqOrd Uri where
  eq_of_compare {u v} h := by
    have : u.text = v.text := Std.LawfulEqOrd.eq_of_compare (α := String) h
    cases u
    cases v
    simp_all

instance : ToString Uri := ⟨Uri.text⟩

end Uri

end LgLang
