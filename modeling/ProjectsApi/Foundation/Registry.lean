import ProjectsApi.Foundation.FiniteMap

/-!
# Registries

A registry is a finite collection of records, each filed under its own id, no two
of which bear the same name.  Both conditions are fields of the structure, so the
operations below are the only ways in which one registry arises from another:
adding a record of a new id and a free name, removing a record, and changing a
record in place without touching its id or name.
-/

namespace Foundation

universe u v w

/-- Records under their own ids, with distinct names. -/
structure Registry {Rec : Type u} {Id : Type v} {Name : Type w} [DecidableEq Id]
    (idOf : Rec → Id) (nameOf : Rec → Name) where
  records : Finmap fun _ : Id => Rec
  keyed : ∀ id r, records.lookup id = some r → idOf r = id
  distinct : ∀ r r', records.lookup (idOf r) = some r → records.lookup (idOf r') = some r' →
    nameOf r = nameOf r' → r = r'

namespace Registry

variable {Rec : Type u} {Id : Type v} {Name : Type w} [DecidableEq Id]
  {idOf : Rec → Id} {nameOf : Rec → Name}

/-- The record filed under an id. -/
def find? (R : Registry idOf nameOf) (id : Id) : Option Rec := R.records.lookup id

theorem idOf_eq {R : Registry idOf nameOf} {id : Id} {r : Rec} (h : R.find? id = some r) :
    idOf r = id :=
  R.keyed id r h

/-- Two records of one name are one record. -/
theorem eq_of_nameOf_eq {R : Registry idOf nameOf} {id id' : Id} {r r' : Rec}
    (h : R.find? id = some r) (h' : R.find? id' = some r') (hname : nameOf r = nameOf r') :
    id = id' ∧ r = r' := by
  obtain rfl := idOf_eq h
  obtain rfl := idOf_eq h'
  obtain rfl := R.distinct r r' h h' hname
  exact ⟨rfl, rfl⟩

/-- Whether some record bears the name. -/
def Taken (R : Registry idOf nameOf) (name : Name) : Prop :=
  ∃ id r, R.find? id = some r ∧ nameOf r = name

/-- The registry without records. -/
def empty : Registry idOf nameOf where
  records := ∅
  keyed id r h := by simp at h
  distinct r r' h := by simp at h

@[simp] theorem find?_empty (id : Id) :
    (empty : Registry idOf nameOf).find? id = none := rfl

theorem not_taken_empty (name : Name) : ¬ (empty : Registry idOf nameOf).Taken name := by
  rintro ⟨id, r, h, -⟩
  cases h

/-- File a record of a new id and a free name. -/
def add (R : Registry idOf nameOf) (r : Rec) (hname : ¬ R.Taken (nameOf r)) :
    Registry idOf nameOf where
  records := R.records.insert (idOf r) r
  keyed id r' h := by
    rw [lookup_insert_eq] at h
    split at h
    · obtain rfl := Option.some.inj h
      exact Eq.symm ‹_›
    · exact R.keyed id r' h
  distinct a b ha hb hab := by
    rw [lookup_insert_eq] at ha hb
    split at ha <;> split at hb
    · exact (Option.some.inj ha).symm.trans (Option.some.inj hb)
    · obtain rfl := Option.some.inj ha
      exact absurd ⟨_, b, hb, hab.symm⟩ hname
    · obtain rfl := Option.some.inj hb
      exact absurd ⟨_, a, ha, hab⟩ hname
    · exact R.distinct a b ha hb hab

theorem find?_add (R : Registry idOf nameOf) (r : Rec) (hname : ¬ R.Taken (nameOf r)) (id : Id) :
    (R.add r hname).find? id = if id = idOf r then some r else R.find? id :=
  lookup_insert_eq _ _ _ _

theorem taken_add (R : Registry idOf nameOf) (r : Rec) (hname : ¬ R.Taken (nameOf r)) :
    (R.add r hname).Taken (nameOf r) :=
  ⟨idOf r, r, by rw [find?_add, if_pos rfl], rfl⟩

/-! ### Registries given by their records -/

/-- The list holds the records that are on file. -/
def Lists (R : Registry idOf nameOf) (records : List Rec) : Prop :=
  ∀ r, (∃ id, R.find? id = some r) ↔ r ∈ records

theorem lists_empty : (empty : Registry idOf nameOf).Lists [] := by
  intro r
  simp

section Lists

variable {R : Registry idOf nameOf} {records : List Rec} {r : Rec}

theorem Lists.not_taken (h : R.Lists records) {name : Name}
    (hother : ∀ r ∈ records, nameOf r ≠ name) : ¬ R.Taken name := by
  rintro ⟨id, r, hr, hname⟩
  exact hother r ((h r).mp ⟨id, hr⟩) hname

theorem Lists.find?_eq_none (h : R.Lists records) {id : Id}
    (hother : ∀ r ∈ records, idOf r ≠ id) : R.find? id = none := by
  cases hr : R.find? id with
  | none => rfl
  | some r => exact absurd (idOf_eq hr) (hother r ((h r).mp ⟨id, hr⟩))

/-- A record of a new id is one more record. -/
theorem Lists.add (h : R.Lists records) (hname : ¬ R.Taken (nameOf r))
    (hid : R.find? (idOf r) = none) : (R.add r hname).Lists (r :: records) := by
  intro r'
  rw [List.mem_cons, ← h r']
  simp only [find?_add]
  constructor
  · rintro ⟨id, hr⟩
    split at hr
    · exact Or.inl (Option.some.inj hr).symm
    · exact Or.inr ⟨id, hr⟩
  · rintro (rfl | ⟨id, hr⟩)
    · exact ⟨idOf r', if_pos rfl⟩
    · refine ⟨id, ?_⟩
      rw [if_neg, hr]
      rintro rfl
      rw [hid] at hr
      cases hr

end Lists

/-- Strike the record of an id. -/
def remove (R : Registry idOf nameOf) (id : Id) : Registry idOf nameOf where
  records := R.records.erase id
  keyed id' r h := by
    rw [lookup_erase_eq] at h
    split at h
    · cases h
    · exact R.keyed id' r h
  distinct a b ha hb hab := by
    rw [lookup_erase_eq] at ha hb
    split at ha
    · cases ha
    · split at hb
      · cases hb
      · exact R.distinct a b ha hb hab

theorem find?_remove (R : Registry idOf nameOf) (id id' : Id) :
    (R.remove id).find? id' = if id' = id then none else R.find? id' :=
  lookup_erase_eq _ _ _

/-- Change the record of an id in place. -/
def modify (R : Registry idOf nameOf) (id : Id) (f : Rec → Rec)
    (hid : ∀ r, idOf (f r) = idOf r) (hname : ∀ r, nameOf (f r) = nameOf r) :
    Registry idOf nameOf where
  records := match R.records.lookup id with
    | some r => R.records.insert id (f r)
    | none => R.records
  keyed id' r' h := by
    split at h
    · rename_i r hr
      rw [lookup_insert_eq] at h
      split at h
      · obtain rfl := Option.some.inj h
        rw [hid, R.keyed id r hr]
        exact Eq.symm ‹_›
      · exact R.keyed id' r' h
    · exact R.keyed id' r' h
  distinct a b ha hb hab := by
    -- a changed record keeps its name, so two of one name would have been so before
    split at ha
    · rename_i r hr
      simp only [hr] at hb
      rw [lookup_insert_eq] at ha hb
      split at ha <;> split at hb
      · exact (Option.some.inj ha).symm.trans (Option.some.inj hb)
      · obtain rfl := Option.some.inj ha
        have hold := (eq_of_nameOf_eq (R := R) hr hb ((hname r).symm.trans hab)).1
        exact absurd hold.symm ‹_›
      · obtain rfl := Option.some.inj hb
        have hold := (eq_of_nameOf_eq (R := R) ha hr (hab.trans (hname r))).1
        exact absurd hold ‹_›
      · exact R.distinct a b ha hb hab
    · rename_i hnone
      simp only [hnone] at hb
      exact R.distinct a b ha hb hab

section Modify

variable {f : Rec → Rec} {hid : ∀ r, idOf (f r) = idOf r} {hname : ∀ r, nameOf (f r) = nameOf r}

theorem find?_modify (R : Registry idOf nameOf) (id id' : Id) :
    (R.modify id f hid hname).find? id' =
      if id' = id then (R.find? id).map f else R.find? id' := by
  unfold find? modify
  dsimp only
  cases hr : R.records.lookup id with
  | some r =>
      dsimp only
      rw [lookup_insert_eq]
      simp
  | none =>
      by_cases h : id' = id
      · subst h
        simp [hr]
      · simp [h]

end Modify

/-! ## Names in use -/

/-- The name of a removed record is free at once. -/
theorem not_taken_remove {R : Registry idOf nameOf} {id : Id} {r : Rec}
    (h : R.find? id = some r) : ¬ (R.remove id).Taken (nameOf r) := by
  rintro ⟨id', r', hr', hname⟩
  rw [find?_remove] at hr'
  split at hr'
  · cases hr'
  · rename_i hne
    exact hne (eq_of_nameOf_eq hr' h hname).1

end Registry

end Foundation
