import LgLang.Text.Blank
import LgLang.Text.Line

/-!
# Names in template files

Identifiers are made of ASCII letters, digits and underscores and do not start with a digit. Names of templates, types
and properties may also have dots and hyphens behind their first character.
-/

namespace LgLang.Syntax

/-- Letters and underscores start names. -/
def isNameStart (c : Char) : Bool :=
  c.isAlpha || c == '_'

/-- Characters of identifiers behind the first. -/
def isIdentifierRest (c : Char) : Bool :=
  c.isAlphanum || c == '_'

/-- Characters of template names behind the first. -/
def isNameRest (c : Char) : Bool :=
  c.isAlphanum || c == '_' || c == '.' || c == '-'

/-- Whether a text is a name whose characters behind the first satisfy `rest`. -/
def isNameOf (rest : Char → Bool) : List Char → Bool
  | [] => false
  | c :: cs => isNameStart c && cs.all rest

/-- The names of parameters and aliases. -/
def isIdentifier (cs : List Char) : Bool :=
  isNameOf isIdentifierRest cs

/-- The names of templates. -/
def isTemplateName (cs : List Char) : Bool :=
  isNameOf isNameRest cs

/-- Splits the longest name off the beginning of a text. -/
def splitName? (rest : Char → Bool) : List Char → Option (List Char × List Char)
  | [] => none
  | c :: cs => if isNameStart c then some (c :: cs.takeWhile rest, cs.dropWhile rest) else none

theorem append_of_splitName? {rest : Char → Bool} {cs name after : List Char}
    (h : splitName? rest cs = some (name, after)) : name ++ after = cs := by
  cases cs with
  | nil => simp [splitName?] at h
  | cons c cs =>
    simp only [splitName?] at h
    split at h
    · obtain ⟨rfl, rfl⟩ := Prod.mk.inj (Option.some.inj h)
      simp
    · simp at h

/-- Splits the blanks off the beginning of a text. -/
def splitBlanks (cs : List Char) : List Char × List Char :=
  (cs.takeWhile Text.isBlank, cs.dropWhile Text.isBlank)

end LgLang.Syntax
