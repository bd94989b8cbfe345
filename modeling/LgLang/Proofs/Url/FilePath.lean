import LgLang.Url.FilePath
import Mathlib.Data.List.TakeWhile

/-!
# File paths and their URLs

The URL of an absolute path names the file at that path (`filePath?_ofFilePath`): whatever has a meaning in a URL is
encoded in the names, so that the text of the URL is taken apart where it was put together, and decoding gives the names
back. A path that ends in a drive letter is the exception; it comes back with a slash behind it.
-/

namespace LgLang.Url

/-! ## Percent encoding -/

theorem hexValue?_hexDigit {n : Nat} (h : n < 16) : hexValue? (hexDigit n) = some n := by
  have hall : ∀ k : Fin 16, hexValue? (hexDigit k) = some k.val := by decide
  exact hall ⟨n, h⟩

theorem decode_encodeByte (b : UInt8) (cs : List Char) : decode (encodeByte b ++ cs) = b :: decode cs := by
  have hhigh : b.toNat / 16 < 16 := by
    have hb := b.toNat_lt
    omega
  have hlow : b.toNat % 16 < 16 := Nat.mod_lt _ (by decide)
  have hvalue : 16 * (b.toNat / 16) + b.toNat % 16 = b.toNat := Nat.div_add_mod _ _
  simp only [encodeByte, List.cons_append, List.nil_append]
  rw [decode, hexValue?_hexDigit hhigh, hexValue?_hexDigit hlow]
  simp [hvalue]

theorem decode_encodeBytes (bs : List UInt8) (cs : List Char) :
    decode (bs.flatMap encodeByte ++ cs) = bs ++ decode cs := by
  induction bs with
  | nil => rfl
  | cons b bs ih => rw [List.flatMap_cons, List.append_assoc, decode_encodeByte, ih, List.cons_append]

theorem decode_cons {c : Char} (hc : c ≠ '%') (cs : List Char) :
    decode (c :: cs) = String.utf8EncodeChar c ++ decode cs := by
  rw [decode]
  intro a b rest h _
  exact hc h

/-- Decoding gives back what was encoded, if percent signs were encoded too. -/
theorem decode_encode {reserved : List Char} (hreserved : '%' ∈ reserved) (cs : List Char) :
    decode (encode reserved cs) = cs.flatMap String.utf8EncodeChar := by
  induction cs with
  | nil => rw [encode, List.flatMap_nil, decode, List.flatMap_nil]
  | cons c cs ih =>
    unfold encode at ih ⊢
    rw [List.flatMap_cons, List.flatMap_cons, ← ih]
    by_cases hc : (isUnsafe c || reserved.contains c) = true
    · rw [if_pos hc, decode_encodeBytes]
    · rw [if_neg hc]
      have hpercent : c ≠ '%' := by
        rintro rfl
        simp [hreserved] at hc
      exact decode_cons hpercent _

/-- The bytes of a text are the bytes of its characters. -/
theorem textOfBytes_flatMap (cs : List Char) : textOfBytes (cs.flatMap String.utf8EncodeChar) = String.ofList cs := by
  have hbytes : (⟨(cs.flatMap String.utf8EncodeChar).toArray⟩ : ByteArray) = (String.ofList cs).toByteArray := by
    apply ByteArray.ext
    rw [String.toByteArray_ofList, List.utf8Encode, List.data_toByteArray]
  have hvalid : (String.ofList cs).toByteArray.IsValidUTF8 := (String.ofList cs).isValidUTF8
  rw [textOfBytes, textOfBytes?, hbytes, String.fromUTF8?, dif_pos hvalid]
  rfl

/-- A reserved mark does not stand in an encoded text. -/
theorem not_mem_encode {reserved : List Char} {mark : Char} (hmark : mark ∈ reserved)
    (hdigits : ∀ b : UInt8, mark ∉ encodeByte b) (cs : List Char) : mark ∉ encode reserved cs := by
  intro h
  obtain ⟨c, _, hc⟩ := List.mem_flatMap.1 h
  split at hc
  · obtain ⟨b, _, hb⟩ := List.mem_flatMap.1 hc
    exact hdigits b hb
  · next hplain =>
    obtain rfl := List.mem_singleton.1 hc
    simp [hmark] at hplain

/-- The marks of a URL are none of the characters that encode a byte. -/
theorem not_mem_encodeByte {mark : Char} (hpercent : mark ≠ '%') (hdigits : ∀ k : Fin 16, hexDigit k ≠ mark)
    (b : UInt8) : mark ∉ encodeByte b := by
  have hhigh : b.toNat / 16 < 16 := by
    have hb := b.toNat_lt
    omega
  have hlow : b.toNat % 16 < 16 := Nat.mod_lt _ (by decide)
  intro h
  simp only [encodeByte, List.mem_cons, List.not_mem_nil, or_false] at h
  rcases h with h | h | h
  · exact hpercent h
  · exact hdigits ⟨_, hhigh⟩ h.symm
  · exact hdigits ⟨_, hlow⟩ h.symm

/-! ## Taking texts apart -/

theorem forall_ne_of_not_mem {mark : Char} {cs : List Char} (h : mark ∉ cs) : ∀ c ∈ cs, (c != mark) = true :=
  fun _ hc => bne_iff_ne.2 fun heq => h (heq ▸ hc)

theorem splitMark_of_not_mem {mark : Char} {cs : List Char} (h : mark ∉ cs) : splitMark mark cs = (cs, none) := by
  rw [splitMark, List.dropWhile_eq_nil_iff.2 (forall_ne_of_not_mem h)]

theorem splitAt_of_not_mem {mark : Char} {cs : List Char} (h : mark ∉ cs) : splitAt (· == mark) cs = [cs] := by
  have hall : ∀ c ∈ cs, (!(c == mark)) = true := forall_ne_of_not_mem h
  rw [splitAt]
  split
  · rw [List.takeWhile_eq_self_iff.2 hall]
  · next hdrop =>
    rw [List.dropWhile_eq_nil_iff.2 hall] at hdrop
    cases hdrop

theorem splitAt_append {mark : Char} {cs : List Char} (h : mark ∉ cs) (rest : List Char) :
    splitAt (· == mark) (cs ++ mark :: rest) = cs :: splitAt (· == mark) rest := by
  have hall : ∀ c ∈ cs, (!(c == mark)) = true := forall_ne_of_not_mem h
  rw [splitAt]
  split
  · next hdrop =>
    rw [List.dropWhile_append_of_pos hall] at hdrop
    simp at hdrop
  · next hdrop =>
    rw [List.dropWhile_append_of_pos hall] at hdrop
    rw [List.takeWhile_append_of_pos hall]
    simp at hdrop
    simp [hdrop]

/-- The characters of names with a slash before each. -/
def slashed (names : List (List Char)) : List Char :=
  names.flatMap ('/' :: ·)

/-- Names without slashes are found again between the slashes. -/
theorem splitAt_slashed {name : List Char} {names : List (List Char)} (h : ∀ n ∈ name :: names, '/' ∉ n) :
    splitAt (· == '/') (name ++ slashed names) = name :: names := by
  induction names generalizing name with
  | nil =>
    rw [slashed, List.flatMap_nil, List.append_nil]
    exact splitAt_of_not_mem (h name List.mem_cons_self)
  | cons next names ih =>
    rw [slashed, List.flatMap_cons, List.cons_append, splitAt_append (h name List.mem_cons_self)]
    exact congrArg _ (ih fun n hn => h n (List.mem_cons_of_mem _ hn))

/-! ## Paths -/

/-- An absolute path that is made of names only. -/
def IsPlainPath (path : String) : Prop :=
  ∃ names : List String, names ≠ [] ∧ (∀ n ∈ names, n ≠ "" ∧ n ≠ "." ∧ '/' ∉ n.toList) ∧
    path = String.join (names.map ("/" ++ ·))

theorem toList_join (names : List String) :
    (String.join (names.map ("/" ++ ·))).toList = slashed (names.map String.toList) := by
  induction names with
  | nil => rfl
  | cons n names ih =>
    rw [List.map_cons, String.join_cons, String.toList_append, ih]
    simp [slashed]

/-- The URL of a path with these names. -/
theorem ofFilePath_join {names : List String} (hne : names ≠ [])
    (hnames : ∀ n ∈ names, n ≠ "" ∧ n ≠ "." ∧ '/' ∉ n.toList) :
    ofFilePath (String.join (names.map ("/" ++ ·))) =
      { scheme := "file", authority := some ""
        path := .segments ((names.map fun n => encode fileNameSet n.toList).map String.ofList)
        query := none, fragment := none } := by
  have hslash : ∀ n ∈ names.map String.toList, '/' ∉ n := by
    intro cs hcs
    obtain ⟨n, hn, rfl⟩ := List.mem_map.1 hcs
    exact (hnames n hn).2.2
  have hkeep : ∀ n ∈ names.map String.toList, (!n.isEmpty && n != ['.']) = true := by
    intro cs hcs
    obtain ⟨n, hn, rfl⟩ := List.mem_map.1 hcs
    obtain ⟨hempty, hdot, _⟩ := hnames n hn
    have hdot' : n.toList ≠ ['.'] := fun h => hdot (String.toList_injective h)
    simp [hempty, hdot']
  have hcomponents : (splitAt (· == '/') (slashed (names.map String.toList))).filter
      (fun c => !c.isEmpty && c != ['.']) = names.map String.toList := by
    cases names with
    | nil => exact absurd rfl hne
    | cons n names =>
      -- The path begins with a slash, before which nothing stands.
      have hsplit : splitAt (· == '/') (slashed ((n :: names).map String.toList)) =
          [] :: (n :: names).map String.toList :=
        (@splitAt_append '/' [] List.not_mem_nil _).trans (congrArg _ (splitAt_slashed hslash))
      rw [hsplit, List.filter_cons_of_neg (by simp)]
      exact List.filter_eq_self.2 hkeep
  have hsome : (names.map String.toList).isEmpty = false := by
    cases names with
    | nil => exact absurd rfl hne
    | cons n names => rfl
  simp only [ofFilePath, toList_join, hcomponents, hsome, Bool.false_eq_true, if_false, List.map_map]
  rfl

/-- The text of a file URL is taken apart where it was put together. -/
theorem ofHref_file {segments : List (List Char)} (hne : segments ≠ []) (hslash : ∀ s ∈ segments, '/' ∉ s)
    (hquery : ∀ s ∈ segments, '?' ∉ s) (hfragment : ∀ s ∈ segments, '#' ∉ s) :
    ofHref (String.ofList ("file://".toList ++ slashed segments)) =
      { scheme := "file", authority := some "", path := .segments (segments.map String.ofList)
        query := none, fragment := none } := by
  have hnot : ∀ {mark : Char}, mark ∉ "file://".toList → mark ≠ '/' → (∀ s ∈ segments, mark ∉ s) →
      mark ∉ "file://".toList ++ slashed segments := by
    intro mark hscheme hmark hsegments h
    rcases List.mem_append.1 h with h | h
    · exact hscheme h
    · obtain ⟨s, hs, h⟩ := List.mem_flatMap.1 h
      rcases List.mem_cons.1 h with h | h
      · exact hmark h
      · exact hsegments s hs h
  have hscheme : splitMark ':' ("file://".toList ++ slashed segments) =
      ("file".toList, some ('/' :: '/' :: slashed segments)) := rfl
  have hpath : pathOfText (slashed segments) = .segments (segments.map String.ofList) := by
    cases segments with
    | nil => exact absurd rfl hne
    | cons s segments => exact congrArg (fun ss => Path.segments (ss.map String.ofList)) (splitAt_slashed hslash)
  have hauthority : (slashed segments).takeWhile (· != '/') = [] ∧
      (slashed segments).dropWhile (· != '/') = slashed segments := by
    cases segments with
    | nil => exact absurd rfl hne
    | cons s segments => exact ⟨rfl, rfl⟩
  rw [ofHref, String.toList_ofList]
  simp only [splitMark_of_not_mem (hnot (by decide) (by decide) hfragment),
    splitMark_of_not_mem (hnot (by decide) (by decide) hquery), hscheme, Option.getD_some, hauthority.1, hauthority.2,
    hpath]
  rfl

/-- The file that a URL without a host names. -/
theorem filePath?_segments {segments : List String} (hne : segments ≠ []) {scheme : String}
    {query fragment : Option String} :
    filePath? { scheme, authority := some "", path := .segments segments, query, fragment } =
      some (if endsInDriveLetter (String.join (segments.map fun s => "/" ++ textOfBytes (decode s.toList)))
        then String.join (segments.map fun s => "/" ++ textOfBytes (decode s.toList)) ++ "/"
        else String.join (segments.map fun s => "/" ++ textOfBytes (decode s.toList))) := by
  cases segments with
  | nil => exact absurd rfl hne
  | cons s segments => rfl

/-- **The URL of a path names the file at this path**, unless the path ends in a drive letter. -/
theorem filePath?_ofFilePath {path : String} (hpath : IsPlainPath path) (hdrive : endsInDriveLetter path = false) :
    (ofFilePath path).toUri.url.filePath? = some path := by
  obtain ⟨names, hne, hnames, rfl⟩ := hpath
  have hhref : (ofFilePath (String.join (names.map ("/" ++ ·)))).href =
      String.ofList ("file://".toList ++ slashed (names.map fun n => encode fileNameSet n.toList)) := by
    have hpath := toList_join ((names.map fun n => encode fileNameSet n.toList).map String.ofList)
    apply String.toList_injective
    rw [ofFilePath_join hne hnames]
    simp only [href, pathMark, Path.text, Option.map_some, Option.map_none, Option.getD_some, Option.getD_none,
      String.append_empty, String.toList_append, String.toList_ofList, hpath]
    simp [Function.comp_def]
  have hmark : ∀ {mark : Char}, mark ∈ fileNameSet → mark ≠ '%' → (∀ k : Fin 16, hexDigit k ≠ mark) →
      ∀ s ∈ names.map fun n => encode fileNameSet n.toList, mark ∉ s := by
    intro mark hmark hpercent hdigits s hs
    obtain ⟨n, _, rfl⟩ := List.mem_map.1 hs
    exact not_mem_encode hmark (not_mem_encodeByte hpercent hdigits) n.toList
  have hsegments : (names.map fun n => encode fileNameSet n.toList) ≠ [] := by simpa using hne
  have hurl := ofHref_file hsegments
    (hmark (by decide) (by decide) (by decide)) (hmark (by decide) (by decide) (by decide))
    (hmark (by decide) (by decide) (by decide))
  -- Decoding the segments gives the names, with a slash before each as they stand in the path.
  have hdecode : String.join (((names.map fun n => encode fileNameSet n.toList).map String.ofList).map fun s =>
      "/" ++ textOfBytes (decode s.toList)) = String.join (names.map ("/" ++ ·)) := by
    simp only [List.map_map]
    refine congrArg String.join (List.map_congr_left fun n _ => ?_)
    have hpercent : '%' ∈ fileNameSet := by decide
    simp [decode_encode hpercent, textOfBytes_flatMap]
  show (ofHref (ofFilePath _).href).filePath? = _
  rw [hhref, hurl]
  rw [filePath?_segments (by simpa using hne), hdecode, hdrive]
  rfl

end LgLang.Url
