import Mathlib.Data.List.Lex
import Mathlib.Data.List.Sort
import ProjectsApi.Foundation.Unicode

/-!
# JSON as Python's `json` reads and writes it

The writer is `json.dumps(value, separators=(",", ":"), sort_keys=True)`: compact,
members sorted by key, every character outside printable ASCII escaped.  The
reader is `json.loads` on bytes: it guesses the encoding from the first bytes,
skips whitespace, accepts `NaN` and the infinities, joins escaped surrogate pairs
and lets a later member of an object replace an earlier one of the same key.
Numbers are kept as their literals.
-/

namespace Foundation

/-- A JSON value; an object is a Python dictionary, its members in insertion order. -/
inductive Json where
  | null
  | bool (value : Bool)
  | number (literal : CodePoints)
  | string (value : CodePoints)
  | array (elements : List Json)
  | object (members : List (CodePoints × Json))

namespace Json

/-! ## Writing -/

/-- A lower-case hexadecimal digit. -/
def hexDigit (n : Nat) : Nat :=
  if n < 10 then 0x30 + n else 0x61 + (n - 10)

/-- `\uXXXX` -/
def unicodeEscape (u : Nat) : CodePoints :=
  [0x5C, 0x75, hexDigit (u / 0x1000), hexDigit (u / 0x100 % 16), hexDigit (u / 16 % 16),
    hexDigit (u % 16)]

/-- The short escapes `\"`, `\\`, `\n`, `\r`, `\t`, `\f` and `\b`. -/
def shortEscape (c : Nat) : Option Nat :=
  if c = 0x22 then some 0x22
  else if c = 0x5C then some 0x5C
  else if c = 0x0A then some 0x6E
  else if c = 0x0D then some 0x72
  else if c = 0x09 then some 0x74
  else if c = 0x0C then some 0x66
  else if c = 0x08 then some 0x62
  else none

def highSurrogate (c : Nat) : Nat := 0xD800 + (c - 0x10000) / 0x400

def lowSurrogate (c : Nat) : Nat := 0xDC00 + (c - 0x10000) % 0x400

/-- One character of `py_encode_basestring_ascii`. -/
def escapeChar (c : Nat) : CodePoints :=
  match shortEscape c with
  | some e => [0x5C, e]
  | none =>
      if 0x20 ≤ c ∧ c ≤ 0x7E then [c]
      else if c < 0x10000 then unicodeEscape c
      else unicodeEscape (highSurrogate c) ++ unicodeEscape (lowSurrogate c)

/-- The text between the quotation marks of an ASCII-escaped string. -/
def escape (s : CodePoints) : CodePoints := s.flatMap escapeChar

def quote (s : CodePoints) : CodePoints := 0x22 :: (escape s ++ [0x22])

/-- `separator.join(parts)` with a comma. -/
def joinComma (parts : List CodePoints) : CodePoints :=
  (parts.intersperse [0x2C]).flatten

mutual

/-- `json.dumps(value, separators=(",", ":"), sort_keys=True)`. -/
def dumps : Json → CodePoints
  | .null => codePoints "null"
  | .bool true => codePoints "true"
  | .bool false => codePoints "false"
  | .number literal => literal
  | .string value => quote value
  | .array elements => 0x5B :: (joinComma (dumpsElements elements) ++ [0x5D])
  | .object members =>
      0x7B :: (joinComma (((dumpsMembers members).insertionSort fun a b => a.1 ≤ b.1).map
        fun member => quote member.1 ++ 0x3A :: member.2) ++ [0x7D])

def dumpsElements : List Json → List CodePoints
  | [] => []
  | element :: elements => dumps element :: dumpsElements elements

def dumpsMembers : List (CodePoints × Json) → List (CodePoints × CodePoints)
  | [] => []
  | (key, value) :: members => (key, dumps value) :: dumpsMembers members

end

/-! ## Reading -/

/-- `detect_encoding` and the decoding it selects. -/
def decodeText (bytes : List Nat) : Option CodePoints :=
  if [0x00, 0x00, 0xFE, 0xFF].isPrefixOf bytes then utf32Decode true (bytes.drop 4)
  else if [0xFF, 0xFE, 0x00, 0x00].isPrefixOf bytes then utf32Decode false (bytes.drop 4)
  else if [0xFE, 0xFF].isPrefixOf bytes then utf16Decode true (bytes.drop 2)
  else if [0xFF, 0xFE].isPrefixOf bytes then utf16Decode false (bytes.drop 2)
  else if [0xEF, 0xBB, 0xBF].isPrefixOf bytes then utf8Decode (bytes.drop 3)
  else
    match bytes with
    | b₀ :: b₁ :: b₂ :: b₃ :: _ =>
        if b₀ = 0 then
          if b₁ = 0 then utf32Decode true bytes else utf16Decode true bytes
        else if b₁ = 0 then
          if b₂ = 0 ∧ b₃ = 0 then utf32Decode false bytes else utf16Decode false bytes
        else utf8Decode bytes
    | [b₀, b₁] =>
        if b₀ = 0 then utf16Decode true bytes
        else if b₁ = 0 then utf16Decode false bytes
        else utf8Decode bytes
    | _ => utf8Decode bytes

def isWhitespace (c : Nat) : Bool :=
  c == 0x20 || c == 0x09 || c == 0x0A || c == 0x0D

def skipWhitespace (text : CodePoints) : CodePoints := text.dropWhile isWhitespace

/-- The value of a hexadecimal digit of either case. -/
def hexValue (c : Nat) : Option Nat :=
  if 0x30 ≤ c ∧ c ≤ 0x39 then some (c - 0x30)
  else if 0x61 ≤ c ∧ c ≤ 0x66 then some (c - 0x61 + 10)
  else if 0x41 ≤ c ∧ c ≤ 0x46 then some (c - 0x41 + 10)
  else none

def hex4 (a b c d : Nat) : Option Nat := do
  let a ← hexValue a
  let b ← hexValue b
  let c ← hexValue c
  let d ← hexValue d
  return a * 0x1000 + b * 0x100 + c * 16 + d

/-- What a backslash makes of the next character. -/
def unescape (e : Nat) : Option Nat :=
  if e = 0x22 then some 0x22
  else if e = 0x5C then some 0x5C
  else if e = 0x2F then some 0x2F
  else if e = 0x62 then some 0x08
  else if e = 0x66 then some 0x0C
  else if e = 0x6E then some 0x0A
  else if e = 0x72 then some 0x0D
  else if e = 0x74 then some 0x09
  else none

/-- Read a string up to its closing quotation mark.  A unit is a code point and
whether it was written `\uXXXX`. -/
def scanUnits : CodePoints → Option (List (Bool × Nat) × CodePoints)
  | [] => none
  | c :: text =>
      if c = 0x22 then some ([], text)
      else if c = 0x5C then
        match text with
        | [] => none
        | e :: text =>
            if e = 0x75 then
              match text with
              | h₁ :: h₂ :: h₃ :: h₄ :: text =>
                  match hex4 h₁ h₂ h₃ h₄ with
                  | some u => (scanUnits text).map fun r => ((true, u) :: r.1, r.2)
                  | none => none
              | _ => none
            else
              match unescape e with
              | some u => (scanUnits text).map fun r => ((false, u) :: r.1, r.2)
              | none => none
      else if c < 0x20 then none
      else (scanUnits text).map fun r => ((false, c) :: r.1, r.2)

/-- Join each escaped high surrogate with an escaped low surrogate right after it. -/
def joinSurrogates : List (Bool × Nat) → CodePoints
  | [] => []
  | [(_, u)] => [u]
  | (a, u) :: (b, v) :: rest =>
      if a && b && isHighSurrogate u && isLowSurrogate v then
        joinPair u v :: joinSurrogates rest
      else u :: joinSurrogates ((b, v) :: rest)

def scanString (text : CodePoints) : Option (CodePoints × CodePoints) :=
  (scanUnits text).map fun r => (joinSurrogates r.1, r.2)

def isDigit (c : Nat) : Bool := 0x30 ≤ c && c ≤ 0x39

/-- `(-?(?:0|[1-9]\d*))(\.\d+)?([eE][-+]?\d+)?`, as literal and rest. -/
def scanNumber (text : CodePoints) : Option (CodePoints × CodePoints) :=
  let (sign, rest) := if text.head? = some 0x2D then ([0x2D], text.tail) else ([], text)
  let digits :=
    if rest.head? = some 0x30 then [0x30] else rest.takeWhile isDigit
  if digits = [] then none
  else
    let rest := rest.drop digits.length
    let fraction :=
      let ds := rest.tail.takeWhile isDigit
      if rest.head? = some 0x2E ∧ ds ≠ [] then 0x2E :: ds else []
    let rest := rest.drop fraction.length
    let exponent :=
      let sign := (rest.tail.take 1).filter fun c => c == 0x2B || c == 0x2D
      let ds := (rest.tail.drop sign.length).takeWhile isDigit
      if (rest.head? = some 0x65 ∨ rest.head? = some 0x45) ∧ ds ≠ [] then
        rest.take 1 ++ sign ++ ds
      else []
    let rest := rest.drop exponent.length
    some (sign ++ digits ++ fraction ++ exponent, rest)

/-- The words the scanner knows, with their values. -/
def constants : List (CodePoints × Json) :=
  [(codePoints "null", .null), (codePoints "true", .bool true),
    (codePoints "false", .bool false), (codePoints "NaN", .number (codePoints "NaN")),
    (codePoints "Infinity", .number (codePoints "Infinity")),
    (codePoints "-Infinity", .number (codePoints "-Infinity"))]

/-- A word, or else a number. -/
def scanPlain (text : CodePoints) : Option (Json × CodePoints) :=
  match constants.find? fun constant => constant.1.isPrefixOf text with
  | some (word, value) => some (value, text.drop word.length)
  | none => (scanNumber text).map fun r => (.number r.1, r.2)

/-- `dict[key] = value`. -/
def dictInsert (members : List (CodePoints × Json)) (member : CodePoints × Json) :
    List (CodePoints × Json) :=
  if members.any fun m => m.1 == member.1 then
    members.map fun m => if m.1 == member.1 then member else m
  else members ++ [member]

/-- The dictionary of the members of an object, read from the left. -/
def dictOf (members : List (CodePoints × Json)) : List (CodePoints × Json) :=
  members.foldl dictInsert []

mutual

/-- One value at the start of the text, and the text after it.  Every nested call
has read a character, so `fuel` beyond the length of the text is never used up. -/
def scanValue : (fuel : Nat) → CodePoints → Option (Json × CodePoints)
  | 0, _ => none
  | _ + 1, [] => none
  | fuel + 1, c :: text =>
      if c = 0x22 then (scanString text).map fun r => (.string r.1, r.2)
      else if c = 0x7B then
        let text := skipWhitespace text
        if text.head? = some 0x7D then some (.object [], text.tail)
        else (scanMembers fuel text).map fun r => (.object (dictOf r.1), r.2)
      else if c = 0x5B then
        let text := skipWhitespace text
        if text.head? = some 0x5D then some (.array [], text.tail)
        else (scanElements fuel text).map fun r => (.array r.1, r.2)
      else scanPlain (c :: text)

/-- The members of an object up to its closing brace. -/
def scanMembers : (fuel : Nat) → CodePoints →
    Option (List (CodePoints × Json) × CodePoints)
  | 0, _ => none
  | fuel + 1, text =>
      if text.head? = some 0x22 then
        (scanString text.tail).bind fun key =>
          let text := skipWhitespace key.2
          if text.head? = some 0x3A then
            (scanValue fuel (skipWhitespace text.tail)).bind fun value =>
              let text := skipWhitespace value.2
              if text.head? = some 0x7D then some ([(key.1, value.1)], text.tail)
              else if text.head? = some 0x2C then
                (scanMembers fuel (skipWhitespace text.tail)).map fun r =>
                  ((key.1, value.1) :: r.1, r.2)
              else none
          else none
      else none

/-- The elements of an array up to its closing bracket. -/
def scanElements : (fuel : Nat) → CodePoints → Option (List Json × CodePoints)
  | 0, _ => none
  | fuel + 1, text =>
      (scanValue fuel text).bind fun value =>
        let text := skipWhitespace value.2
        if text.head? = some 0x5D then some ([value.1], text.tail)
        else if text.head? = some 0x2C then
          (scanElements fuel (skipWhitespace text.tail)).map fun r => (value.1 :: r.1, r.2)
        else none

end

/-- `json.loads(bytes)`; `none` is a `ValueError`. -/
def loads (bytes : List Nat) : Option Json := do
  let text ← decodeText bytes
  let (value, rest) ← scanValue (text.length + 1) (skipWhitespace text)
  if skipWhitespace rest = [] then some value else none

end Json

end Foundation
