import ProjectsApi.Foundation.JsonPath

/-!
# The leaves of a document

A property of the keys, strings and numbers of a document, wherever they stand.  A change keeps
it if what is put in has it.  A text that begins with `#` stands between quotation marks in what
the default writer writes exactly if a key or a string is the text, or ends with a quotation mark
and the text (`quoted_infix_dumpsSpaced_iff`).
-/

namespace Foundation.Json

/-- A key, a string with the key whose value it is, or a number. -/
inductive Leaf where
  | key (key : CodePoints)
  | string (key? : Option CodePoints) (text : CodePoints)
  | number (literal : CodePoints)

mutual

/-- Every leaf of a value satisfies `P`; `key?` is the key of the value. -/
def AllLeaves (P : Leaf → Prop) (key? : Option CodePoints) : Json → Prop
  | .null => True
  | .bool _ => True
  | .number literal => P (.number literal)
  | .string text => P (.string key? text)
  | .array elements => AllElements P elements
  | .object members => AllMembers P members

def AllElements (P : Leaf → Prop) : List Json → Prop
  | [] => True
  | element :: elements => AllLeaves P none element ∧ AllElements P elements

def AllMembers (P : Leaf → Prop) : List (CodePoints × Json) → Prop
  | [] => True
  | (key, value) :: members =>
      (P (.key key) ∧ AllLeaves P (some key) value) ∧ AllMembers P members

end

/-- The leaves of one member. -/
def MemberLeaves (P : Leaf → Prop) (m : CodePoints × Json) : Prop :=
  P (.key m.1) ∧ AllLeaves P (some m.1) m.2

section Decide

variable (P : Leaf → Prop) [DecidablePred P]

mutual

instance decidableAllLeaves (key? : Option CodePoints) :
    (value : Json) → Decidable (AllLeaves P key? value)
  | .null => isTrue trivial
  | .bool _ => isTrue trivial
  | .number literal => inferInstanceAs (Decidable (P (.number literal)))
  | .string text => inferInstanceAs (Decidable (P (.string key? text)))
  | .array elements => decidableAllElements elements
  | .object members => decidableAllMembers members

instance decidableAllElements : (elements : List Json) → Decidable (AllElements P elements)
  | [] => isTrue trivial
  | element :: elements =>
      @instDecidableAnd _ _ (decidableAllLeaves none element) (decidableAllElements elements)

instance decidableAllMembers :
    (members : List (CodePoints × Json)) → Decidable (AllMembers P members)
  | [] => isTrue trivial
  | (key, value) :: members =>
      @instDecidableAnd _ _
        (@instDecidableAnd _ _ (inferInstanceAs (Decidable (P (.key key))))
          (decidableAllLeaves (some key) value)) (decidableAllMembers members)

end

end Decide

/-- A number is written without `#`. -/
def Leaf.Numeral : Leaf → Prop
  | .number literal => 0x23 ∉ literal
  | _ => True

instance : DecidablePred Leaf.Numeral
  | .key _ => isTrue trivial
  | .string _ _ => isTrue trivial
  | .number _ => inferInstanceAs (Decidable (¬ _))

section Leaves

variable {P Q R : Leaf → Prop}

theorem allMembers_iff {members : Members} :
    AllMembers P members ↔ ∀ m ∈ members, MemberLeaves P m := by
  induction members with
  | nil => simp [AllMembers]
  | cons m members ih =>
      rw [List.forall_mem_cons, ← ih]
      rfl

mutual

/-- Two properties of the leaves yield a third. -/
theorem AllLeaves.map₂ (h : ∀ leaf, P leaf → Q leaf → R leaf) {key? : Option CodePoints} :
    (value : Json) → AllLeaves P key? value → AllLeaves Q key? value → AllLeaves R key? value
  | .null, _, _ => trivial
  | .bool _, _, _ => trivial
  | .number _, hp, hq => h _ hp hq
  | .string _, hp, hq => h _ hp hq
  | .array elements, hp, hq => AllElements.map₂ h elements hp hq
  | .object members, hp, hq => AllMembers.map₂ h members hp hq

theorem AllElements.map₂ (h : ∀ leaf, P leaf → Q leaf → R leaf) :
    (elements : List Json) → AllElements P elements → AllElements Q elements →
      AllElements R elements
  | [], _, _ => trivial
  | element :: elements, hp, hq =>
      ⟨AllLeaves.map₂ h element hp.1 hq.1, AllElements.map₂ h elements hp.2 hq.2⟩

theorem AllMembers.map₂ (h : ∀ leaf, P leaf → Q leaf → R leaf) :
    (members : List (CodePoints × Json)) → AllMembers P members → AllMembers Q members →
      AllMembers R members
  | [], _, _ => trivial
  | (_, value) :: members, hp, hq =>
      ⟨⟨h _ hp.1.1 hq.1.1, AllLeaves.map₂ h value hp.1.2 hq.1.2⟩,
        AllMembers.map₂ h members hp.2 hq.2⟩

end

/-- What all keys and strings have, and what all numbers have. -/
structure Covers (S : CodePoints → Prop) (P Q : Leaf → Prop) : Prop where
  key : ∀ text, S text → Q (.key text)
  string : ∀ key? text, S text → Q (.string key? text)
  number : ∀ literal, P (.number literal) → Q (.number literal)

mutual

theorem Covers.allLeaves {S : CodePoints → Prop} (h : Covers S P Q) {key? : Option CodePoints} :
    (value : Json) → (∀ text ∈ strings value, S text) → AllLeaves P key? value →
      AllLeaves Q key? value
  | .null, _, _ => trivial
  | .bool _, _, _ => trivial
  | .number _, _, hp => h.number _ hp
  | .string _, hs, _ => h.string _ _ (hs _ (List.mem_singleton_self _))
  | .array elements, hs, hp => Covers.allElements h elements hs hp
  | .object members, hs, hp => Covers.allMembers h members hs hp

theorem Covers.allElements {S : CodePoints → Prop} (h : Covers S P Q) :
    (elements : List Json) → (∀ text ∈ elementStrings elements, S text) →
      AllElements P elements → AllElements Q elements
  | [], _, _ => trivial
  | element :: elements, hs, hp =>
      ⟨Covers.allLeaves h element (fun text hmem => hs text (List.mem_append_left _ hmem)) hp.1,
        Covers.allElements h elements (fun text hmem => hs text (List.mem_append_right _ hmem))
          hp.2⟩

theorem Covers.allMembers {S : CodePoints → Prop} (h : Covers S P Q) :
    (members : List (CodePoints × Json)) → (∀ text ∈ memberStrings members, S text) →
      AllMembers P members → AllMembers Q members
  | [], _, _ => trivial
  | (key, value) :: members, hs, hp =>
      ⟨⟨h.key key (hs key (List.mem_append_left _ List.mem_cons_self)),
          Covers.allLeaves h value
            (fun text hmem => hs text (List.mem_append_left _ (List.mem_cons_of_mem _ hmem)))
            hp.1.2⟩,
        Covers.allMembers h members (fun text hmem => hs text (List.mem_append_right _ hmem))
          hp.2⟩

end

/-! ## Changes -/

section Changes

variable {members others : Members} {m : CodePoints × Json}

theorem AllMembers.of_lookup (h : AllMembers P members) {key : CodePoints} {value : Json}
    (hlookup : members.lookup key = some value) : AllLeaves P (some key) value :=
  (allMembers_iff.mp h _ (mem_of_lookup hlookup)).2

theorem AllMembers.dictInsert (h : AllMembers P members) (hm : MemberLeaves P m) :
    AllMembers P (dictInsert members m) := by
  rw [allMembers_iff] at h ⊢
  intro n hn
  rcases mem_dictInsert.mp hn with rfl | hn
  · exact hm
  · exact h n hn.1

theorem AllMembers.dictPop (h : AllMembers P members) (key : CodePoints) :
    AllMembers P (dictPop members key) := by
  rw [allMembers_iff] at h ⊢
  exact fun n hn => h n (mem_dictPop.mp hn).1

theorem AllMembers.dictSetDefaults (h : AllMembers P members) (hothers : AllMembers P others) :
    AllMembers P (others.foldl dictSetDefault members) := by
  rw [allMembers_iff] at h hothers ⊢
  intro n hn
  rcases mem_foldl_dictSetDefault hn with hn | hn
  · exact h n hn
  · exact hothers n hn

theorem AllMembers.sortMembers (h : AllMembers P members) : AllMembers P (sortMembers members) := by
  rw [allMembers_iff] at h ⊢
  exact fun n hn => h n (mem_sortMembers.mp hn)

/-- Members that are changed one by one. -/
theorem allMembers_mapM {f : CodePoints × Json → Option (CodePoints × Json)}
    (hmap : members.mapM f = some others)
    (h : ∀ m ∈ members, ∀ n, f m = some n → MemberLeaves P n) : AllMembers P others := by
  rw [allMembers_iff]
  intro n hn
  obtain ⟨m, hm, hstep⟩ := exists_of_mem_mapM hmap hn
  exact h m hm n hstep

/-- A change at a place keeps a property of the leaves if the change of the value there does. -/
theorem AllLeaves.modify? {f : Json → Option Json} {place : Place}
    (hf : ∀ key? old new, f old = some new → AllLeaves P key? old → AllLeaves P key? new)
    {key? : Option CodePoints} {value value' : Json} (h : AllLeaves P key? value)
    (hmodify : modify? f place value = some value') : AllLeaves P key? value' := by
  induction place generalizing key? value value' with
  | nil => exact hf key? value value' hmodify h
  | cons key place ih =>
      cases value with
      | object members =>
          obtain ⟨child, hchild, hmodify⟩ := Option.bind_eq_some_iff.mp hmodify
          obtain ⟨child', hchild', rfl⟩ := Option.map_eq_some_iff.mp hmodify
          have hkey := (allMembers_iff.mp h _ (mem_of_lookup hchild)).1
          exact AllMembers.dictInsert h ⟨hkey, ih (AllMembers.of_lookup h hchild) hchild'⟩
      | _ => cases hmodify

theorem AllLeaves.assign? {place : Place} {key : CodePoints} {new : Json}
    {key? : Option CodePoints} {value value' : Json} (h : AllLeaves P key? value)
    (hassign : assign? place key new value = some value') (hnew : MemberLeaves P (key, new)) :
    AllLeaves P key? value' := by
  refine AllLeaves.modify? (fun key? old changed hset hold => ?_) h hassign
  cases old with
  | object members =>
      obtain rfl := Option.some.inj hset
      exact AllMembers.dictInsert hold hnew
  | _ => cases hset

end Changes

end Leaves

/-! ## Text between quotation marks -/

/-- Most characters stand for themselves, the others are written with a backslash. -/
theorem escapeChar_cases (c : Nat) :
    (escapeChar c = [c] ∧ c ≠ 0x22 ∧ c ≠ 0x5C) ∨
      ∃ rest, escapeChar c = 0x5C :: rest ∧ 0x23 ∉ rest := by
  have hdigit : ∀ n, hexDigit n ≠ 0x23 := by
    intro n
    unfold hexDigit
    split <;> omega
  unfold escapeChar
  cases hshort : shortEscape c with
  | some e =>
      refine Or.inr ⟨[e], rfl, ?_⟩
      unfold shortEscape at hshort
      have he : e ≠ 0x23 := by
        split_ifs at hshort <;> (cases hshort; omega)
      simpa using he.symm
  | none =>
      have hc : c ≠ 0x22 ∧ c ≠ 0x5C := by
        unfold shortEscape at hshort
        split_ifs at hshort
        omega
      dsimp only
      split_ifs
      · exact Or.inl ⟨rfl, hc⟩
      · refine Or.inr ⟨_, rfl, ?_⟩
        simp [(hdigit _).symm]
      · refine Or.inr ⟨_, rfl, ?_⟩
        simp [unicodeEscape, (hdigit _).symm]

/-- A text without quotation marks and backslashes that begins with `#`. -/
structure IsMark (t : CodePoints) : Prop where
  begins : ∃ rest, t = 0x23 :: rest
  noQuote : 0x22 ∉ t
  noBackslash : 0x5C ∉ t

section Mark

variable {t : CodePoints}

theorem eq_of_hash_mem_escapeChar {c : Nat} (h : 0x23 ∈ escapeChar c) :
    c = 0x23 ∧ escapeChar c = [0x23] := by
  rcases escapeChar_cases c with ⟨hself, -⟩ | ⟨rest, hrest, hnot⟩
  · rw [hself] at h ⊢
    obtain rfl := List.mem_singleton.mp h
    exact ⟨rfl, rfl⟩
  · rw [hrest] at h
    rcases List.mem_cons.mp h with h | h
    · exact absurd h (by decide)
    · exact absurd h hnot

/-- A quotation mark is written by a quotation mark, as its last character. -/
theorem eq_of_quote_in_escapeChar {c : Nat} {before front : CodePoints}
    (h : escapeChar c = before ++ 0x22 :: front) : c = 0x22 ∧ front = [] := by
  have hmem : 0x22 ∈ escapeChar c := by
    rw [h]
    simp
  have hdigit : ∀ n, hexDigit n ≠ 0x22 := by
    intro n
    unfold hexDigit
    split <;> omega
  have hunicode : ∀ u, 0x22 ∉ unicodeEscape u := by
    intro u
    simp [unicodeEscape, (hdigit _).symm]
  unfold escapeChar at h hmem
  cases hshort : shortEscape c with
  | some e =>
      rw [hshort] at h hmem
      have he : e = 0x22 := by simpa [eq_comm] using hmem
      have hc : c = 0x22 := by
        unfold shortEscape at hshort
        split_ifs at hshort with hc
        · exact hc
        all_goals
          rw [he] at hshort
          cases hshort
      refine ⟨hc, ?_⟩
      rcases before with _ | ⟨b, _ | ⟨b', before⟩⟩
      · exact absurd (List.cons.inj h).1 (by decide)
      · exact (List.cons.inj (List.cons.inj h).2).2.symm
      · simp at h
  | none =>
      rw [hshort] at hmem
      dsimp only at hmem
      split_ifs at hmem with hprint hbasic
      · rw [← List.mem_singleton.mp hmem] at hshort
        cases hshort
      · exact absurd hmem (hunicode c)
      · exact absurd (List.mem_append.mp hmem) (not_or.mpr ⟨hunicode _, hunicode _⟩)

/-- Without backslashes nothing is escaped. -/
theorem escape_eq_self {text : CodePoints} (h : 0x5C ∉ escape text) : escape text = text := by
  induction text with
  | nil => rfl
  | cons c text ih =>
      rw [escape, List.flatMap_cons, ← escape, List.mem_append, not_or] at h
      rw [escape, List.flatMap_cons, ← escape, ih h.2]
      rcases escapeChar_cases c with ⟨hself, -⟩ | ⟨rest, hrest, -⟩
      · rw [hself]
        rfl
      · exact absurd (by simp [hrest]) h.1

/-- What ends with a quotation mark and a mark when it is written ends with them. -/
theorem IsMark.quoted_suffix_of_escape (ht : IsMark t) {text : CodePoints}
    (h : 0x22 :: t <:+ escape text) : 0x22 :: t <:+ text := by
  induction text with
  | nil => simp [escape] at h
  | cons c text ih =>
      obtain ⟨before, h⟩ := h
      rw [escape, List.flatMap_cons, ← escape, List.append_eq_append_iff] at h
      rcases h with ⟨front, hc, hfront⟩ | ⟨front, -, htext⟩
      · cases front with
        | nil => exact (ih (hfront ▸ List.suffix_rfl)).trans (List.suffix_cons c text)
        | cons d front =>
            -- the quotation mark is written by the first character, which is one
            obtain ⟨hd, hrest⟩ := List.cons.inj hfront
            obtain ⟨rfl, rfl⟩ : c = 0x22 ∧ front = [] :=
              eq_of_quote_in_escapeChar (hc.trans (by rw [hd]))
            have hplain : 0x5C ∉ escape text := by
              rw [show escape text = t from hrest.symm]
              exact ht.noBackslash
            have htext : t = text := (show t = escape text from hrest).trans (escape_eq_self hplain)
            exact htext ▸ List.suffix_rfl
      · exact (ih ⟨front, htext.symm⟩).trans (List.suffix_cons c text)

/-- A quotation mark in a written text has a backslash before it. -/
theorem not_prefix_escape {text : CodePoints} (ht : 0x5C ∉ t) :
    ¬ t ++ [0x22] <+: escape text := by
  induction t generalizing text with
  | nil =>
      intro h
      cases text with
      | nil => simp [escape] at h
      | cons c text =>
          rw [escape, List.flatMap_cons] at h
          rcases escapeChar_cases c with ⟨hself, hquote, -⟩ | ⟨rest, hrest, -⟩
          · rw [hself, List.nil_append, List.singleton_append, List.cons_prefix_cons] at h
            exact hquote h.1.symm
          · rw [hrest] at h
            simp at h
  | cons d t ih =>
      intro h
      cases text with
      | nil => simp [escape] at h
      | cons c text =>
          rw [escape, List.flatMap_cons, ← escape] at h
          rw [List.mem_cons, not_or] at ht
          rcases escapeChar_cases c with ⟨hself, -⟩ | ⟨rest, hrest, -⟩
          · rw [hself, List.singleton_append, List.cons_append, List.cons_prefix_cons] at h
            exact ih ht.2 h.2
          · rw [hrest, List.cons_append, List.cons_append, List.cons_prefix_cons] at h
            exact ht.1 h.1.symm

theorem IsMark.not_infix_escape (ht : IsMark t) (text : CodePoints) :
    ¬ t ++ [0x22] <:+: escape text := by
  obtain ⟨rest, hrest⟩ := ht.begins
  induction text with
  | nil => simp [escape]
  | cons c text ih =>
      intro h
      rw [escape, List.flatMap_cons, ← escape, List.infix_append_iff] at h
      rcases h with h | h | ⟨l, r, hsplit, hl, hr⟩
      · -- the mark is not in one character
        have hmem : 0x23 ∈ escapeChar c := h.subset (by simp [hrest])
        have hquote : 0x22 ∈ escapeChar c := h.subset (by simp)
        rw [(eq_of_hash_mem_escapeChar hmem).2] at hquote
        simp at hquote
      · exact ih h
      · cases l with
        | nil =>
            rw [List.nil_append] at hsplit
            exact not_prefix_escape ht.noBackslash (hsplit ▸ hr)
        | cons d l =>
            have hd : d = 0x23 := by
              rw [hrest] at hsplit
              exact (List.cons.inj hsplit).1.symm
            have hmem : 0x23 ∈ escapeChar c := hl.subset (by simp [hd])
            rw [(eq_of_hash_mem_escapeChar hmem).2] at hl
            have hlength := hl.length_le
            obtain rfl : l = [] := by
              cases l with
              | nil => rfl
              | cons e l => simp at hlength
            have hr' : rest ++ [0x22] = r := by
              rw [hrest] at hsplit
              exact (List.cons.inj hsplit).2
            have hrest' : 0x5C ∉ rest := by
              intro hmem
              exact ht.noBackslash (hrest ▸ List.mem_cons_of_mem _ hmem)
            exact not_prefix_escape hrest' (hr' ▸ hr)

/-! ### The default writer -/

/-- The mark stands nowhere between quotation marks, and what comes before or after the text does
not complete it: the text does not begin with `#`, and after every `#` comes a quotation mark. -/
structure Silent (t text : CodePoints) : Prop where
  begins : ∀ rest, text ≠ 0x23 :: rest
  closed : ∀ before after, text = before ++ 0x23 :: after → 0x22 ∈ after
  absent : ¬ 0x22 :: (t ++ [0x22]) <:+: text

theorem IsMark.silent_of_not_mem (ht : IsMark t) {text : CodePoints} (h : 0x23 ∉ text) :
    Silent t text := by
  refine ⟨?_, ?_, ?_⟩
  · rintro rest rfl
    exact h List.mem_cons_self
  · rintro before after rfl
    exact absurd (by simp) h
  · intro hinside
    obtain ⟨rest, hrest⟩ := ht.begins
    exact h (hinside.subset (by simp [hrest]))

theorem Silent.append (ht : IsMark t) {a b : CodePoints} (ha : Silent t a) (hb : Silent t b) :
    Silent t (a ++ b) := by
  obtain ⟨rest, hrest⟩ := ht.begins
  refine ⟨?_, ?_, ?_⟩
  · intro rest' h
    cases a with
    | nil => exact hb.begins rest' h
    | cons c a =>
        obtain ⟨rfl, -⟩ := List.cons.inj h
        exact ha.begins a rfl
  · intro before after h
    rcases List.append_eq_append_iff.mp h with ⟨as, -, hb'⟩ | ⟨as, ha', hafter⟩
    · exact hb.closed as after hb'
    · cases as with
      | nil => exact hb.closed [] after hafter.symm
      | cons c as =>
          obtain ⟨rfl, rfl⟩ := List.cons.inj hafter
          exact List.mem_append_left b (ha.closed before as ha')
  · rw [List.infix_append_iff]
    rintro (h | h | ⟨l, r, hsplit, hl, hr⟩)
    · exact ha.absent h
    · exact hb.absent h
    · match l with
      | [] => exact hb.absent (hsplit ▸ hr.isInfix)
      | [_] =>
          -- the second part begins with the `#`
          obtain ⟨after, hb'⟩ := hr
          have hr' : t ++ [0x22] = r := (List.cons.inj hsplit).2
          rw [← hr', hrest] at hb'
          exact hb.begins _ hb'.symm
      | b :: c :: l =>
          have hsplit' : t ++ [0x22] = c :: (l ++ r) := (List.cons.inj hsplit).2
          have hc : 0x23 = c := by
            rw [hrest] at hsplit'
            exact (List.cons.inj hsplit').1
          -- the first part has a quotation mark after the `#`, so it is all of it
          obtain ⟨before, ha'⟩ := hl
          have hquote : 0x22 ∈ l := ha.closed (before ++ [b]) l (by rw [← ha', hc]; simp)
          rcases List.eq_nil_or_concat r with rfl | ⟨r, d, rfl⟩
          · rw [List.append_nil] at hsplit
            exact ha.absent (hsplit ▸ ⟨before, [], by simpa using ha'⟩)
          · rw [List.concat_eq_append, ← List.append_assoc, ← List.cons_append] at hsplit'
            have hfront := List.append_inj_left' hsplit' rfl
            refine ht.noQuote (hfront ▸ ?_)
            exact List.mem_cons_of_mem c (List.mem_append_left r hquote)

/-- A text that is the mark, or ends with a quotation mark and the mark. -/
def EndsQuoted (t text : CodePoints) : Prop := text = t ∨ 0x22 :: t <:+ text

instance (t text : CodePoints) : Decidable (EndsQuoted t text) :=
  inferInstanceAs (Decidable (_ ∨ _))

/-- Any other text has the mark not between quotation marks when it is quoted. -/
theorem IsMark.silent_quote (ht : IsMark t) {text : CodePoints} (h : ¬ EndsQuoted t text) :
    Silent t (quote text) := by
  obtain ⟨rest, hrest⟩ := ht.begins
  have hquote : quote text = (0x22 :: escape text) ++ [0x22] := rfl
  refine ⟨?_, ?_, ?_⟩
  · intro rest' heq
    rw [hquote, List.cons_append] at heq
    exact absurd (List.cons.inj heq).1 (by decide)
  · intro before after heq
    rcases List.eq_nil_or_concat after with rfl | ⟨after, d, rfl⟩
    · rw [hquote] at heq
      have hlast := List.append_inj_right' heq rfl
      simp at hlast
    · rw [hquote, List.concat_eq_append, ← List.cons_append, ← List.append_assoc] at heq
      have hlast := List.append_inj_right' heq rfl
      rw [List.concat_eq_append, ← hlast]
      simp
  · rw [hquote, ← List.cons_append, List.infix_concat_iff]
    rintro (hsuffix | hinside)
    · rcases List.suffix_concat_iff.mp hsuffix with hnil | ⟨front, hfront, hsuffix⟩
      · simp at hnil
      · rw [← List.append_inj_left' hfront rfl] at hsuffix
        rcases List.suffix_cons_iff.mp hsuffix with hall | hsuffix
        · -- the text is the mark
          have hescape : escape text = t := (List.cons.inj hall).2.symm
          have hplain : 0x5C ∉ escape text := by
            rw [hescape]
            exact ht.noBackslash
          exact h (Or.inl ((escape_eq_self hplain).symm.trans hescape))
        · exact h (Or.inr (ht.quoted_suffix_of_escape hsuffix))
    · rw [List.cons_append, List.infix_cons_iff] at hinside
      rcases hinside with hfirst | hinside
      · rw [List.cons_prefix_cons] at hfirst
        exact not_prefix_escape ht.noBackslash hfirst.2
      · exact ht.not_infix_escape text ((List.infix_cons List.infix_rfl).trans hinside)

/-- The leaf does not end with `t`. -/
def Leaf.NotAtEnd (t : CodePoints) : Leaf → Prop
  | .key name => ¬ t <:+ name
  | .string _ text => ¬ t <:+ text
  | .number literal => 0x23 ∉ literal

instance (t : CodePoints) : DecidablePred (Leaf.NotAtEnd t)
  | .key _ => inferInstanceAs (Decidable (¬ _))
  | .string _ _ => inferInstanceAs (Decidable (¬ _))
  | .number _ => inferInstanceAs (Decidable (¬ _))

/-- The leaf is not written with `t` between quotation marks. -/
def Leaf.Unquoted (t : CodePoints) : Leaf → Prop
  | .key name => ¬ EndsQuoted t name
  | .string _ text => ¬ EndsQuoted t text
  | .number literal => 0x23 ∉ literal

theorem not_endsQuoted_of_not_suffix {text : CodePoints} (h : ¬ t <:+ text) :
    ¬ EndsQuoted t text := by
  rintro (rfl | hsuffix)
  · exact h List.suffix_rfl
  · exact h ((List.suffix_cons 0x22 t).trans hsuffix)

theorem Leaf.NotAtEnd.unquoted {leaf : Leaf} (h : leaf.NotAtEnd t) : leaf.Unquoted t := by
  cases leaf with
  | number literal => exact h
  | key name => exact not_endsQuoted_of_not_suffix h
  | string key? text => exact not_endsQuoted_of_not_suffix h

theorem silent_joinSpaced (ht : IsMark t) {parts : List CodePoints}
    (h : ∀ part ∈ parts, Silent t part) : Silent t (joinSpaced parts) := by
  induction parts with
  | nil => exact ht.silent_of_not_mem (by simp [joinSpaced])
  | cons first parts ih =>
      rw [List.forall_mem_cons] at h
      cases parts with
      | nil => simpa [joinSpaced] using h.1
      | cons next parts =>
          have hjoin : joinSpaced (first :: next :: parts) =
              first ++ ([0x2C, 0x20] ++ joinSpaced (next :: parts)) := by
            simp [joinSpaced]
          rw [hjoin]
          exact h.1.append ht ((ht.silent_of_not_mem (by decide)).append ht (ih h.2))

mutual

theorem silent_dumpsSpaced (ht : IsMark t) {key? : Option CodePoints} :
    (value : Json) → AllLeaves (Leaf.Unquoted t) key? value → Silent t (dumpsSpaced value)
  | .null, _ => ht.silent_of_not_mem (by decide)
  | .bool true, _ => ht.silent_of_not_mem (by decide)
  | .bool false, _ => ht.silent_of_not_mem (by decide)
  | .number _, h => ht.silent_of_not_mem h
  | .string _, h => ht.silent_quote h
  | .array elements, h =>
      (ht.silent_of_not_mem (show 0x23 ∉ [0x5B] by decide)).append ht
        ((silent_joinSpaced ht (silent_spacedElements ht elements h)).append ht
          (ht.silent_of_not_mem (by decide)))
  | .object members, h =>
      (ht.silent_of_not_mem (show 0x23 ∉ [0x7B] by decide)).append ht
        ((silent_joinSpaced ht (silent_spacedMembers ht members h)).append ht
          (ht.silent_of_not_mem (by decide)))

theorem silent_spacedElements (ht : IsMark t) : (elements : List Json) →
    AllElements (Leaf.Unquoted t) elements → ∀ part ∈ spacedElements elements, Silent t part
  | [], _, part, hpart => by cases hpart
  | element :: elements, h, part, hpart => by
      rcases List.mem_cons.mp hpart with rfl | hpart
      · exact silent_dumpsSpaced ht element h.1
      · exact silent_spacedElements ht elements h.2 part hpart

theorem silent_spacedMembers (ht : IsMark t) : (members : List (CodePoints × Json)) →
    AllMembers (Leaf.Unquoted t) members → ∀ part ∈ spacedMembers members, Silent t part
  | [], _, part, hpart => by cases hpart
  | (key, value) :: members, h, part, hpart => by
      rcases List.mem_cons.mp hpart with rfl | hpart
      · exact (ht.silent_quote h.1.1).append ht
          ((ht.silent_of_not_mem (show 0x23 ∉ [0x3A, 0x20] by decide)).append ht
            (silent_dumpsSpaced ht value h.1.2))
      · exact silent_spacedMembers ht members h.2 part hpart

end

/-- A text that ends with the mark so is written with it between quotation marks. -/
theorem IsMark.infix_quote (ht : IsMark t) (hescape : escape t = t) {text : CodePoints}
    (h : EndsQuoted t text) : 0x22 :: (t ++ [0x22]) <:+: quote text := by
  rcases h with rfl | ⟨front, rfl⟩
  · have hquote : quote text = 0x22 :: (text ++ [0x22]) := congrArg (0x22 :: · ++ [0x22]) hescape
    exact hquote ▸ List.infix_rfl
  · refine ⟨0x22 :: (escape front ++ [0x5C]), [], ?_⟩
    have hquote : escape (0x22 :: t) = 0x5C :: 0x22 :: t := by
      rw [escape, List.flatMap_cons, ← escape, hescape]
      rfl
    have happend : escape (front ++ 0x22 :: t) = escape front ++ escape (0x22 :: t) :=
      List.flatMap_append
    rw [quote, happend, hquote]
    simp

/-- A mark stands between quotation marks in the text of a document exactly if a key or a string
of the document ends with it so. -/
theorem quoted_infix_dumpsSpaced_iff (ht : IsMark t) (hescape : escape t = t)
    {key? : Option CodePoints} {value : Json} (hnumbers : AllLeaves Leaf.Numeral key? value) :
    0x22 :: (t ++ [0x22]) <:+: dumpsSpaced value ↔ ∃ text ∈ strings value, EndsQuoted t text := by
  constructor
  · intro h
    by_contra hnone
    push Not at hnone
    have hcovers : Covers (fun text => ¬ EndsQuoted t text) Leaf.Numeral (Leaf.Unquoted t) :=
      ⟨fun _ htext => htext, fun _ _ htext => htext, fun _ hnumber => hnumber⟩
    exact (silent_dumpsSpaced ht value (hcovers.allLeaves value hnone hnumbers)).absent h
  · rintro ⟨text, hmem, htext⟩
    exact (ht.infix_quote hescape htext).trans (quote_infix_dumpsSpaced value text hmem)

end Mark

end Foundation.Json
