import ProjectsApi.System.Calls

/-!
# The ids a history creates

Project ids are random and never drawn twice; `FreshIds` is what this means for the
history of a run.
-/

namespace ProjectsApi

open Foundation

/-- The id of the project a call was started to create. -/
def createdId : SystemLabel → Option String
  | .invoke _ (.create p) => some p.projectId
  | _ => none

/-- The ids of all projects a history was to create. -/
def createdIds (tr : List SystemLabel) : List String := tr.filterMap createdId

/-- Each id is given to one project only. -/
def FreshIds (tr : List SystemLabel) : Prop := (createdIds tr).Nodup

theorem createdIds_append (tr tr' : List SystemLabel) :
    createdIds (tr ++ tr') = createdIds tr ++ createdIds tr' :=
  List.filterMap_append

theorem mem_createdIds_append {tr tr' : List SystemLabel} {id : String}
    (h : id ∈ createdIds tr) : id ∈ createdIds (tr ++ tr') := by
  rw [createdIds_append]
  exact List.mem_append_left _ h

theorem mem_createdIds_of_invoke {tr : List SystemLabel} {i : Nat} {p : Project}
    (h : .invoke i (.create p) ∈ tr) : p.projectId ∈ createdIds tr :=
  List.mem_filterMap.mpr ⟨_, h, rfl⟩

theorem createdIds_invoke_create (tr : List SystemLabel) (i : Nat) (p : Project) :
    createdIds (tr ++ [.invoke i (.create p)]) = createdIds tr ++ [p.projectId] :=
  createdIds_append _ _

theorem createdIds_of_noCalls {tr : List SystemLabel} (h : NoCalls tr) : createdIds tr = [] := by
  rw [createdIds, List.filterMap_eq_nil_iff]
  intro l hl
  cases l with
  | invoke i c => exact (h i c hl).elim
  | exec | ret | abandon => rfl

theorem FreshIds.of_append_left {tr tr' : List SystemLabel} (h : FreshIds (tr ++ tr')) :
    FreshIds tr := by
  rw [FreshIds, createdIds_append] at h
  exact (List.nodup_append.mp h).1

/-- The id of a new `create` was not in use before. -/
theorem FreshIds.not_mem {tr : List SystemLabel} {i : Nat} {p : Project}
    (h : FreshIds (tr ++ [.invoke i (.create p)])) : p.projectId ∉ createdIds tr := by
  rw [FreshIds, createdIds_invoke_create, List.nodup_append] at h
  exact fun hmem => h.2.2 _ hmem _ (List.mem_singleton_self _) rfl

/-- An id belongs to one call only. -/
theorem FreshIds.eq_of_projectId_eq {tr : List SystemLabel} (h : FreshIds tr) {i j : Nat}
    {p p' : Project} (hp : .invoke i (.create p) ∈ tr) (hp' : .invoke j (.create p') ∈ tr)
    (hid : p.projectId = p'.projectId) : i = j ∧ p = p' := by
  by_contra hne
  have hsymm : Std.Symm fun l l' : SystemLabel => ∀ id, createdId l = some id →
      ∀ id', createdId l' = some id' → id ≠ id' :=
    ⟨fun l l' hll id hl id' hl' heq => hll id' hl' id hl heq.symm⟩
  have hpairwise := List.pairwise_filterMap.mp (show (tr.filterMap createdId).Nodup from h)
  refine hpairwise.forall hp hp' (fun heq => hne ?_) _ rfl _ rfl hid
  cases heq
  exact ⟨rfl, rfl⟩

end ProjectsApi
