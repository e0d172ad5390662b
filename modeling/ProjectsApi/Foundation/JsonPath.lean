import ProjectsApi.Foundation.JsonDict

/-!
# Places in a document

`value[k₁]...[kₙ]` of nested dictionaries, and changes at such a place.  What a change leaves
alone is everything that is apart from its place (`at?_modify?_of_apart`); documents that agree
apart from some places are what a sequence of changes yields (`AgreeApart.trans`).
-/

namespace Foundation.Json

/-- A place in nested dictionaries, by the keys that lead to it. -/
abbrev Place : Type := List CodePoints

/-- `value[k₁]...[kₙ]`; `none` if a key is missing, or no dictionary is there to have it. -/
def at? : Place → Json → Option Json
  | [], value => some value
  | key :: place, .object members => (members.lookup key).bind (at? place)
  | _ :: _, _ => none

/-- The document with another value at a place. -/
def modify? (f : Json → Option Json) : Place → Json → Option Json
  | [], value => f value
  | key :: place, .object members =>
      (members.lookup key).bind fun value =>
        (modify? f place value).map fun value => .object (dictInsert members (key, value))
  | _ :: _, _ => none

/-- `value[key] = new` -/
def setKey (key : CodePoints) (new : Json) : Json → Option Json
  | .object members => some (.object (dictInsert members (key, new)))
  | _ => none

/-- `value[k₁]...[kₙ][key] = new` -/
def assign? (place : Place) (key : CodePoints) (new : Json) : Json → Option Json :=
  modify? (setKey key new) place

/-- Neither place is inside the other. -/
def Apart (p q : Place) : Prop := ¬ p <+: q ∧ ¬ q <+: p

instance (p q : Place) : Decidable (Apart p q) := inferInstanceAs (Decidable (_ ∧ _))

/-- Places inside two places that are apart. -/
theorem Apart.append {p q : Place} (h : Apart p q) (r s : Place) : Apart (p ++ r) (q ++ s) := by
  constructor
  · intro hinside
    rcases List.prefix_or_prefix_of_prefix ((List.prefix_append p r).trans hinside)
      (List.prefix_append q s) with hpq | hqp
    · exact h.1 hpq
    · exact h.2 hqp
  · intro hinside
    rcases List.prefix_or_prefix_of_prefix ((List.prefix_append q s).trans hinside)
      (List.prefix_append p r) with hqp | hpq
    · exact h.2 hqp
    · exact h.1 hpq

theorem apart_append_left_iff {p q r : Place} : Apart (p ++ q) (p ++ r) ↔ Apart q r := by
  simp only [Apart, List.prefix_append_right_inj]

theorem apart_cons_cons_of_ne {k l : CodePoints} (h : k ≠ l) (p q : Place) :
    Apart (k :: p) (l :: q) := by
  simp [Apart, List.cons_prefix_cons, h, h.symm]

/-! ## Reading -/

section Reading

variable {value value' : Json}

@[simp] theorem at?_nil (value : Json) : at? [] value = some value := rfl

@[simp] theorem at?_cons_object (key : CodePoints) (place : Place) (members : Members) :
    at? (key :: place) (.object members) = (members.lookup key).bind (at? place) := rfl

theorem at?_append (p q : Place) (value : Json) :
    at? (p ++ q) value = (at? p value).bind (at? q) := by
  induction p generalizing value with
  | nil => rfl
  | cons key p ih =>
      cases value with
      | object members =>
          rw [List.cons_append, at?_cons_object, at?_cons_object, Option.bind_assoc]
          exact congrArg _ (funext fun value => ih value)
      | _ => rfl

theorem at?_append_of_eq {p : Place} {found : Json} (h : at? p value = some found) (q : Place) :
    at? (p ++ q) value = at? q found := by
  rw [at?_append, h]
  rfl

end Reading

/-! ## Changing -/

section Changing

variable {f : Json → Option Json} {value value' : Json} {p q : Place}

/-- A change replaces what is at its place. -/
theorem at?_modify? (h : modify? f p value = some value') :
    ∃ old new, at? p value = some old ∧ f old = some new ∧ at? p value' = some new := by
  induction p generalizing value value' with
  | nil => exact ⟨value, value', rfl, h, rfl⟩
  | cons key p ih =>
      cases value with
      | object members =>
          obtain ⟨child, hchild, h⟩ := Option.bind_eq_some_iff.mp h
          obtain ⟨child', hchild', rfl⟩ := Option.map_eq_some_iff.mp h
          obtain ⟨old, new, hold, hf, hnew⟩ := ih hchild'
          refine ⟨old, new, ?_, hf, ?_⟩
          · rw [at?_cons_object, hchild]
            exact hold
          · rw [at?_cons_object, lookup_dictInsert, if_pos rfl]
            exact hnew
      | _ => cases h

/-- A change is possible where there is a value that can be changed. -/
theorem exists_modify? {old new : Json} (hold : at? p value = some old) (hnew : f old = some new) :
    ∃ value', modify? f p value = some value' := by
  induction p generalizing value with
  | nil =>
      obtain rfl := Option.some.inj hold
      exact ⟨new, hnew⟩
  | cons key p ih =>
      cases value with
      | object members =>
          obtain ⟨child, hchild, hold⟩ := Option.bind_eq_some_iff.mp hold
          obtain ⟨child', hchild'⟩ := ih hold
          exact ⟨_, by rw [modify?, hchild, Option.bind_some, hchild', Option.map_some]⟩
      | _ => cases hold

/-- Nothing changes apart from the place. -/
theorem at?_modify?_of_apart (h : modify? f p value = some value') (hq : Apart p q) :
    at? q value' = at? q value := by
  induction p generalizing value value' q with
  | nil => exact absurd (List.nil_prefix) hq.1
  | cons key p ih =>
      cases value with
      | object members =>
          obtain ⟨child, hchild, h⟩ := Option.bind_eq_some_iff.mp h
          obtain ⟨child', hchild', rfl⟩ := Option.map_eq_some_iff.mp h
          cases q with
          | nil => exact absurd (List.nil_prefix) hq.2
          | cons key' q =>
              rw [at?_cons_object, at?_cons_object, lookup_dictInsert]
              by_cases hkey : key' = key
              · subst hkey
                have hrest : Apart p q := by
                  simpa [Apart, List.cons_prefix_cons] using hq
                rw [if_pos rfl, hchild]
                exact ih hchild' hrest
              · rw [if_neg hkey]
      | _ => cases h

/-! ### Assignments -/

variable {key : CodePoints} {new : Json}

/-- An assignment is read back, and there are the members of the assigned value. -/
theorem at?_assign? (h : assign? p key new value = some value') (q : Place) :
    at? (p ++ key :: q) value' = at? q new := by
  obtain ⟨old, changed, -, hchanged, hplace⟩ := at?_modify? h
  rw [at?_append_of_eq hplace]
  cases old with
  | object members =>
      obtain rfl := Option.some.inj hchanged
      rw [at?_cons_object, lookup_dictInsert, if_pos rfl, Option.bind_some]
  | _ => cases hchanged

/-- Nothing else is assigned to. -/
theorem at?_assign?_of_apart (h : assign? p key new value = some value')
    (hq : Apart (p ++ [key]) q) : at? q value' = at? q value := by
  by_cases hinside : p <+: q
  · -- another key of the same dictionary
    obtain ⟨r, rfl⟩ := hinside
    have hr : Apart [key] r := apart_append_left_iff.mp hq
    obtain ⟨old, changed, hold, hchanged, hplace⟩ := at?_modify? h
    rw [at?_append_of_eq hplace, at?_append_of_eq hold]
    cases old with
    | object members =>
        obtain rfl := Option.some.inj hchanged
        cases r with
        | nil => exact absurd List.nil_prefix hr.2
        | cons key' r =>
            have hkey : key' ≠ key := by
              rintro rfl
              exact hr.1 (by simp)
            rw [at?_cons_object, at?_cons_object, lookup_dictInsert, if_neg hkey]
    | _ => cases hchanged
  · refine at?_modify?_of_apart h ⟨hinside, ?_⟩
    intro habove
    exact hq.2 (habove.trans (List.prefix_append p [key]))

/-- A key of a dictionary can be assigned to, and then it is a dictionary still. -/
theorem exists_assign? {members : Members} (h : at? p value = some (.object members))
    (key : CodePoints) (new : Json) :
    ∃ value', assign? p key new value = some value' ∧
      at? p value' = some (.object (dictInsert members (key, new))) := by
  have hset : setKey key new (.object members) =
      some (.object (dictInsert members (key, new))) := rfl
  obtain ⟨value', hvalue'⟩ := exists_modify? h hset
  refine ⟨value', hvalue', ?_⟩
  obtain ⟨old, changed, hold, hchanged, hplace⟩ := at?_modify? hvalue'
  obtain rfl := Option.some.inj (h.symm.trans hold)
  rw [hplace, ← hchanged, hset]

end Changing

/-! ## Agreement -/

/-- Two documents agree apart from some places. -/
def AgreeApart (places : List Place) (value value' : Json) : Prop :=
  ∀ q, (∀ p ∈ places, Apart p q) → at? q value' = at? q value

section Agreement

variable {value value' value'' : Json} {places places' : List Place}

theorem AgreeApart.trans (h : AgreeApart places value value')
    (h' : AgreeApart places' value' value'') : AgreeApart (places ++ places') value value'' := by
  intro q hq
  rw [h' q fun p hp => hq p (List.mem_append_right _ hp)]
  exact h q fun p hp => hq p (List.mem_append_left _ hp)

theorem AgreeApart.of_assign? {place : Place} {key : CodePoints} {new : Json}
    (h : assign? place key new value = some value') :
    AgreeApart [place ++ [key]] value value' :=
  fun _ hq => at?_assign?_of_apart h (hq _ (List.mem_singleton_self _))

end Agreement

end Foundation.Json
