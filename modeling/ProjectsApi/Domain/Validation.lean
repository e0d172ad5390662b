import Mathlib.Computability.RegularExpressions
import Mathlib.Data.List.DropRight

/-!
# Name rules

`validation.py`: the display name of a project is the client's text with outer
whitespace removed and inner whitespace collapsed, accepted if it has 3 to 63
characters and matches `NAME_PATTERN`; two names are the same name when their
keys, the lower-cased display names, are equal.
-/

namespace ProjectsApi

/-- Lower-casing as Python's Unicode tables define it.  Only its effect on ASCII
is fixed here; no result about stored names depends on the rest. -/
class CaseTables where
  lower : String → String
  lower_ascii : ∀ s : String, (∀ c ∈ s.toList, c.toNat < 128) →
    lower s = s.map Char.toLower

/-- Lower-casing of ASCII letters only. -/
abbrev CaseTables.ascii : CaseTables where
  lower s := s.map Char.toLower
  lower_ascii _ _ := rfl

/-! ## Whitespace -/

/-- `str.isspace` on one character, which is also what `\s` matches. -/
def isSpace (c : Char) : Bool :=
  let n := c.toNat
  (0x09 ≤ n && n ≤ 0x0D) || (0x1C ≤ n && n ≤ 0x20) || n == 0x85 || n == 0xA0 ||
    n == 0x1680 || (0x2000 ≤ n && n ≤ 0x200A) || n == 0x2028 || n == 0x2029 ||
    n == 0x202F || n == 0x205F || n == 0x3000

/-- `str.strip()`. -/
def strip (cs : List Char) : List Char :=
  (cs.dropWhile isSpace).rdropWhile isSpace

/-- `re.sub(r"\s+", " ", ...)`; `inRun` says that the run of whitespace being
read has already been replaced. -/
def subWhitespace (inRun : Bool) : List Char → List Char
  | [] => []
  | c :: cs =>
      if isSpace c then
        if inRun then subWhitespace true cs else ' ' :: subWhitespace true cs
      else c :: subWhitespace false cs

/-- Trim and collapse internal whitespace. Preserves case for display. -/
def normaliseName (raw : String) : String :=
  String.ofList (subWhitespace false (strip raw.toList))

/-! ## Accepted names -/

def nameMinLength : Nat := 3

def nameMaxLength : Nat := 63

/-- A character class of a regular expression. -/
def oneOf (chars : List Char) : RegularExpression Char :=
  (chars.map RegularExpression.char).foldr (· + ·) 0

/-- `[A-Za-z0-9]` -/
def alphanumerics : List Char :=
  "ABCDEFGHIJKLMNOPQRSTUVWXYZabcdefghijklmnopqrstuvwxyz0123456789".toList

/-- `^[A-Za-z0-9](?:[A-Za-z0-9 _-]*[A-Za-z0-9])?$`, for a full match. -/
def namePattern : RegularExpression Char :=
  oneOf alphanumerics *
    (1 + RegularExpression.star (oneOf (alphanumerics ++ " _-".toList)) * oneOf alphanumerics)

/-- The normalised display name, or the message of the `ValueError`. -/
def validateName (raw : String) : Except String String :=
  let name := normaliseName raw
  if name.length < nameMinLength then
    .error s!"Project name must be at least {nameMinLength} characters."
  else if name.length > nameMaxLength then
    .error s!"Project name must be at most {nameMaxLength} characters."
  else if !namePattern.rmatch name.toList then
    .error ("Project name may only contain letters, digits, spaces, hyphens and underscores, " ++
      "and must start and end with a letter or digit.")
  else .ok name

/-- An accepted name is its raw text normalised. -/
theorem validateName_ok {raw name : String} (h : validateName raw = .ok name) :
    name = normaliseName raw := by
  unfold validateName at h
  dsimp only at h
  split_ifs at h
  exact (Except.ok.inj h).symm

/-- Canonical uniqueness key: lower-cased, whitespace-collapsed name. -/
def nameKey [CaseTables] (name : String) : String :=
  CaseTables.lower (normaliseName name)

example : validateName "  My   App " = .ok "My App" := by decide +kernel

end ProjectsApi
