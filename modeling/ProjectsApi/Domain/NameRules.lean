import ProjectsApi.Domain.Models
import ProjectsApi.Foundation.Unicode
import ProjectsApi.Foundation.Words

/-!
# The language of names

`validate_name` in terms of words: a name is accepted if its words, joined by single spaces,
are a text of 3 to 63 letters, digits, spaces, hyphens and underscores that begins and ends
with a letter or a digit, and the result is that text.
-/

namespace ProjectsApi

open Foundation

/-! ## Normal forms -/

/-- `str.split()`: the maximal runs of characters that are no whitespace. -/
def nameWords (raw : String) : List (List Char) := words isSpace raw.toList

/-- `" ".join(raw.split())` -/
def joinedName (raw : String) : String := String.ofList (joinWords ' ' (nameWords raw))

theorem isSpace_space : isSpace ' ' = true := by decide

/-- Collapsing joins the words of a text that does not end in whitespace. -/
theorem subWhitespace_eq {cs : List Char} (hlast : ∀ c ∈ cs.getLast?, isSpace c = false) :
    subWhitespace true cs = joinWords ' ' (words isSpace cs) ∧
      ((∀ c ∈ cs.head?, isSpace c = false) →
        subWhitespace false cs = joinWords ' ' (words isSpace cs)) := by
  -- both states of the loop at once, since whitespace switches between them
  induction cs with
  | nil => exact ⟨rfl, fun _ => rfl⟩
  | cons c cs ih =>
      cases cs with
      | nil =>
          have hc : isSpace c = false := hlast c rfl
          have hword : words isSpace [c] = [[c]] := words_of_forall (by simp) (by simpa using hc)
          simp [subWhitespace, hc, hword]
      | cons d cs =>
          have ih := ih (by simpa [List.getLast?_cons_cons] using hlast)
          cases hc : isSpace c with
          | true =>
              refine ⟨?_, fun hhead => absurd (hhead c rfl) (by simp [hc])⟩
              rw [subWhitespace, if_pos hc, if_pos rfl, ih.1, words_cons_sep hc]
          | false =>
              -- the run of whitespace after the letter, if there is one, becomes one space
              have hnext : c :: subWhitespace false (d :: cs) =
                  joinWords ' ' (words isSpace (c :: d :: cs)) := by
                cases hd : isSpace d with
                | true =>
                    -- the text does not end in this run of whitespace
                    have hne : words isSpace cs ≠ [] := by
                      intro hnil
                      obtain ⟨e, he⟩ := List.getLast?_isSome.mpr (show d :: cs ≠ [] by simp) |>
                        Option.isSome_iff_exists.mp
                      have hspace : ∀ x ∈ d :: cs, isSpace x = true :=
                        List.forall_mem_cons.mpr ⟨hd, words_eq_nil_iff.mp hnil⟩
                      have hlast := hlast e (by simpa [List.getLast?_cons_cons] using he)
                      rw [hspace e (List.mem_of_getLast? he)] at hlast
                      cases hlast
                    have ih := ih.1
                    rw [subWhitespace, if_pos hd, if_pos rfl, words_cons_sep hd] at ih
                    rw [subWhitespace, if_pos hd, if_neg Bool.false_ne_true, ih,
                      words_cons_cons_sep hc hd, joinWords_cons_of_ne_nil _ _ hne,
                      List.singleton_append]
                | false =>
                    have hne : words isSpace (d :: cs) ≠ [] := by
                      rw [ne_eq, words_eq_nil_iff]
                      simp [hd]
                    rw [ih.2 (by simpa using hd), words_cons_cons hc hd,
                      joinWords_modifyHead _ _ hne]
              constructor
              · rw [subWhitespace, if_neg (by simp [hc]), hnext]
              · intro _
                rw [subWhitespace, if_neg (by simp [hc]), hnext]

/-- Normalising joins the words of the raw text. -/
theorem normaliseName_eq (raw : String) : normaliseName raw = joinedName raw := by
  have hlast : ∀ c ∈ (strip raw.toList).getLast?, isSpace c = false := by
    intro c hc
    have hne : strip raw.toList ≠ [] := by
      rintro hnil
      rw [hnil] at hc
      cases hc
    rw [List.getLast?_eq_some_getLast hne, Option.mem_some_iff] at hc
    have hstop := List.rdropWhile_last_not isSpace (raw.toList.dropWhile isSpace) hne
    rw [← hc]
    simpa [strip] using hstop
  have hhead : ∀ c ∈ (strip raw.toList).head?, isSpace c = false := by
    intro c hc
    obtain ⟨rest, hrest⟩ := List.rdropWhile_prefix isSpace (raw.toList.dropWhile isSpace)
    have hhead : (raw.toList.dropWhile isSpace).head? = some c := by
      rw [← hrest, List.head?_append]
      exact Option.or_eq_some_iff.mpr (Or.inl hc)
    have hstop := List.head?_dropWhile_not isSpace raw.toList
    rw [hhead] at hstop
    simpa using hstop
  rw [normaliseName, (subWhitespace_eq hlast).2 hhead, strip, words_trim fun _ h => h]
  rfl

/-! ## The pattern -/

theorem oneOf_rmatch_iff {chars cs : List Char} :
    (oneOf chars).rmatch cs = true ↔ ∃ c ∈ chars, cs = [c] := by
  rw [oneOf]
  induction chars with
  | nil => simp
  | cons c chars ih =>
      rw [List.map_cons, List.foldr_cons, RegularExpression.add_rmatch_iff,
        RegularExpression.char_rmatch_iff, ih]
      simp

theorem star_oneOf_rmatch_iff {chars cs : List Char} :
    (RegularExpression.star (oneOf chars)).rmatch cs = true ↔ ∀ c ∈ cs, c ∈ chars := by
  rw [RegularExpression.star_rmatch_iff]
  constructor
  · intro h
    obtain ⟨parts, rfl, hparts⟩ := h
    intro c hc
    obtain ⟨part, hpart, hc⟩ := List.mem_flatten.mp hc
    obtain ⟨d, hd, rfl⟩ := oneOf_rmatch_iff.mp (hparts part hpart).2
    rwa [List.mem_singleton.mp hc]
  · intro h
    refine ⟨cs.map fun c => [c], ?_, ?_⟩
    · rw [← List.flatMap_def, List.flatMap_singleton']
    · intro part hpart
      obtain ⟨c, hc, rfl⟩ := List.mem_map.mp hpart
      exact ⟨by simp, oneOf_rmatch_iff.mpr ⟨c, h c hc, rfl⟩⟩

theorem mem_alphanumerics {c : Char} : c ∈ alphanumerics ↔ c.isAlphanum = true := by
  have htable : ∀ n : Fin 128, (Char.ofNat n).isAlphanum = true → Char.ofNat n ∈ alphanumerics := by
    decide +kernel
  constructor
  · intro h
    have hletters : alphanumerics.all Char.isAlphanum = true := by decide +kernel
    exact List.all_eq_true.mp hletters c h
  · intro h
    exact forall_ascii (p := fun c => c.isAlphanum = true → c ∈ alphanumerics) htable
      (toNat_lt_of_isAlphanum h) h

/-- An ASCII letter, digit, space, hyphen or underscore. -/
def isNameChar (c : Char) : Bool := c.isAlphanum || c == ' ' || c == '_' || c == '-'

theorem mem_nameChars {c : Char} : c ∈ alphanumerics ++ " _-".toList ↔ isNameChar c = true := by
  rw [List.mem_append, mem_alphanumerics]
  simp [isNameChar, or_assoc]

/-- The documented language of names. -/
structure IsName (name : String) : Prop where
  length_ge : 3 ≤ name.length
  length_le : name.length ≤ 63
  chars : ∀ c ∈ name.toList, isNameChar c = true
  first : ∀ c ∈ name.toList.head?, c.isAlphanum = true
  last : ∀ c ∈ name.toList.getLast?, c.isAlphanum = true

theorem namePattern_rmatch_iff {cs : List Char} :
    namePattern.rmatch cs = true ↔ cs ≠ [] ∧ (∀ c ∈ cs, isNameChar c = true) ∧
      (∀ c ∈ cs.head?, c.isAlphanum = true) ∧ ∀ c ∈ cs.getLast?, c.isAlphanum = true := by
  have hchar : ∀ {c : Char}, c.isAlphanum = true → isNameChar c = true := by
    intro c hc
    simp [isNameChar, hc]
  rw [namePattern, RegularExpression.mul_rmatch_iff]
  constructor
  · intro h
    obtain ⟨t, u, rfl, ht, hu⟩ := h
    obtain ⟨c, hc, rfl⟩ := oneOf_rmatch_iff.mp ht
    rw [mem_alphanumerics] at hc
    obtain hu | hu := (RegularExpression.add_rmatch_iff _ _ _).mp hu
    -- a name of one character
    · rw [RegularExpression.one_rmatch_iff] at hu
      subst hu
      simp [hc, hchar hc]
    -- a first and a last character with name characters between
    · obtain ⟨inner, v, rfl, hinner, hv⟩ := (RegularExpression.mul_rmatch_iff _ _ _).mp hu
      obtain ⟨d, hd, rfl⟩ := oneOf_rmatch_iff.mp hv
      rw [mem_alphanumerics] at hd
      have hinner := star_oneOf_rmatch_iff.mp hinner
      refine ⟨by simp, ?_, by simpa using hc, ?_⟩
      · intro x hx
        simp only [List.mem_append, List.mem_singleton] at hx
        obtain rfl | hx | rfl := hx
        · exact hchar hc
        · exact mem_nameChars.mp (hinner x hx)
        · exact hchar hd
      · rw [← List.append_assoc, List.getLast?_append]
        simpa using hd
  · intro h
    obtain ⟨hne, hchars, hfirst, hlast⟩ := h
    obtain ⟨c, cs, rfl⟩ := List.exists_cons_of_ne_nil hne
    refine ⟨[c], cs, rfl, oneOf_rmatch_iff.mpr ⟨c, mem_alphanumerics.mpr (hfirst c rfl), rfl⟩, ?_⟩
    rw [RegularExpression.add_rmatch_iff]
    -- the last character is the second part of the pattern
    cases cs using List.reverseRecOn with
    | nil => exact Or.inl ((RegularExpression.one_rmatch_iff _).mpr rfl)
    | append_singleton cs d =>
        refine Or.inr ((RegularExpression.mul_rmatch_iff _ _ _).mpr
          ⟨cs, [d], rfl, star_oneOf_rmatch_iff.mpr ?_, oneOf_rmatch_iff.mpr ⟨d, ?_, rfl⟩⟩)
        · intro x hx
          exact mem_nameChars.mpr (hchars x (by simp [hx]))
        · refine mem_alphanumerics.mpr (hlast d ?_)
          rw [← List.cons_append, List.getLast?_append]
          rfl

/-! ## Accepted names -/

theorem validateName_of_isName {raw : String} (h : IsName (normaliseName raw)) :
    validateName raw = .ok (normaliseName raw) := by
  have hge : ¬ (normaliseName raw).length < nameMinLength := not_lt.mpr h.length_ge
  have hle : ¬ (normaliseName raw).length > nameMaxLength := not_lt.mpr h.length_le
  have hne : (normaliseName raw).toList ≠ [] := by
    intro hnil
    have hlength := h.length_ge
    rw [← String.length_toList, hnil] at hlength
    simp at hlength
  have hmatch := namePattern_rmatch_iff.mpr ⟨hne, h.chars, h.first, h.last⟩
  simp [validateName, hge, hle, hmatch]

theorem isName_of_validateName {raw name : String} (h : validateName raw = .ok name) :
    IsName name := by
  unfold validateName at h
  dsimp only at h
  split_ifs at h with hge hle hmatch
  obtain rfl := Except.ok.inj h
  have hmatch : namePattern.rmatch (normaliseName raw).toList = true := by simpa using hmatch
  obtain ⟨-, hchars, hfirst, hlast⟩ := namePattern_rmatch_iff.mp hmatch
  exact ⟨not_lt.mp hge, not_lt.mp hle, hchars, hfirst, hlast⟩

/-- Texts with the same words have the same normal form. -/
theorem normaliseName_congr {a b : String} (h : nameWords a = nameWords b) :
    normaliseName a = normaliseName b := by
  rw [normaliseName_eq, normaliseName_eq, joinedName, joinedName, h]

theorem nameWords_joinedName (raw : String) : nameWords (joinedName raw) = nameWords raw := by
  rw [nameWords, joinedName, String.toList_ofList]
  exact words_joinWords isSpace_space fun w hw => mem_words hw

/-- A normal form is its own normal form. -/
theorem normaliseName_idempotent (raw : String) :
    normaliseName (normaliseName raw) = normaliseName raw := by
  rw [normaliseName_eq raw]
  refine (normaliseName_congr (nameWords_joinedName raw)).trans (normaliseName_eq raw)

theorem validateName_joinedName {raw : String} (h : IsName (joinedName raw)) :
    validateName raw = .ok (joinedName raw) := by
  rw [← normaliseName_eq] at h ⊢
  exact validateName_of_isName h

theorem validateName_error {raw : String} (h : ¬ IsName (joinedName raw)) :
    ∃ message, validateName raw = .error message := by
  cases hresult : validateName raw with
  | error message => exact ⟨message, rfl⟩
  | ok name =>
      have hname := isName_of_validateName hresult
      rw [validateName_ok hresult, normaliseName_eq] at hname
      exact absurd hname h

/-! ## The request body -/

/-- `str_strip_whitespace`: trim the characters that the framework takes for whitespace. -/
def stripWhitespace (trimmed : Char → Bool) (value : String) : String :=
  String.ofList ((value.toList.dropWhile trimmed).rdropWhile trimmed)

/-- The body of a create request: its name is a name of the documented language. -/
structure CreateProjectRequest where
  name : String
  type : ProjectType
  isName : IsName name

/-- `CreateProjectRequest(name=..., type=...)`; the error is the one of the field `name`. -/
def CreateProjectRequest.create (trimmed : Char → Bool) (name : String) (type : ProjectType) :
    Except String CreateProjectRequest :=
  match hname : validateName (stripWhitespace trimmed name) with
  | .error message => .error message
  | .ok validated => .ok { name := validated, type := type, isName := isName_of_validateName hname }

theorem CreateProjectRequest.map_name_create (trimmed : Char → Bool) (name : String)
    (type : ProjectType) : (create trimmed name type).map CreateProjectRequest.name =
      validateName (stripWhitespace trimmed name) := by
  unfold create
  split
  · rename_i hname
    exact hname.symm
  · rename_i hname
    exact hname.symm

/-- Trimming some of the whitespace beforehand leaves the words. -/
theorem nameWords_stripWhitespace {trimmed : Char → Bool}
    (h : ∀ c, trimmed c = true → isSpace c = true) (name : String) :
    nameWords (stripWhitespace trimmed name) = nameWords name := by
  rw [nameWords, stripWhitespace, String.toList_ofList]
  exact words_trim h name.toList

theorem validateName_congr {a b : String} (h : nameWords a = nameWords b) :
    validateName a = validateName b := by
  rw [validateName, validateName, normaliseName_congr h]

/-- `validate_name` accepts the documented language, and returns the words joined by single
spaces.  It accepts its results again, does not see how the words are separated, and so has
the same outcome behind a request model that trims some of the whitespace first. -/
theorem validate_name_language {trimmed : Char → Bool}
    (htrimmed : ∀ c, trimmed c = true → isSpace c = true) (raw : String) :
    (IsName (joinedName raw) → validateName raw = .ok (joinedName raw)) ∧
      (¬ IsName (joinedName raw) → ∃ message, validateName raw = .error message) ∧
      (∀ name, validateName raw = .ok name → validateName name = .ok name) ∧
      (∀ other, nameWords raw = nameWords other → validateName raw = validateName other) ∧
      ∀ type, (CreateProjectRequest.create trimmed raw type).map CreateProjectRequest.name =
        validateName raw := by
  refine ⟨validateName_joinedName, validateName_error, ?_, fun _ => validateName_congr, ?_⟩
  · intro name hname
    have hisName := isName_of_validateName hname
    have hsame : normaliseName name = name := by
      rw [validateName_ok hname, normaliseName_idempotent]
    rw [← hsame] at hisName
    rw [validateName_of_isName hisName, hsame]
  · intro type
    rw [CreateProjectRequest.map_name_create]
    exact validateName_congr (nameWords_stripWhitespace htrimmed raw)

/-- `str.trim` of the framework: whitespace without the four information separators. -/
def trimsSpace (c : Char) : Bool := isSpace c && !(0x1C ≤ c.toNat && c.toNat ≤ 0x1F)

theorem validate_name_language_trimsSpace :
    validateName "\u001c My \t App\u3000" = .ok "My App" ∧
      (CreateProjectRequest.create trimsSpace "\u001c My \t App\u3000" .web).map
        CreateProjectRequest.name = validateName "\u001c My \t App\u3000" := by
  have htrims : ∀ c, trimsSpace c = true → isSpace c = true := by
    intro c hc
    rw [trimsSpace, Bool.and_eq_true] at hc
    exact hc.1
  have hjoined : joinedName "\u001c My \t App\u3000" = "My App" := by decide +kernel
  have hchars : "My App".toList.all isNameChar = true := by decide +kernel
  have hisName : IsName "My App" :=
    ⟨by decide, by decide, List.all_eq_true.mp hchars, by simp, by simp⟩
  obtain ⟨haccepted, -, -, -, hrequest⟩ :=
    validate_name_language htrims "\u001c My \t App\u3000"
  rw [hjoined] at haccepted
  exact ⟨haccepted hisName, hrequest .web⟩

end ProjectsApi
