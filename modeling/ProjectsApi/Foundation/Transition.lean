import Mathlib.Data.List.Induction

/-!
# Runs of a labelled transition system

A system is its step relation `step : State → Label → State → Prop`.  `Run step s tr s'`
says that the labels `tr`, in order, lead from `s` to `s'`.  Runs grow at their
end, so an invariant may speak about the labels seen so far.

* `Run.invariant` is the rule for properties of every reachable state.
* `Run.simulates` transports the observable labels of a run to a more abstract
  system along a forward simulation.
-/

namespace Foundation

variable {State Label : Type*}

/-- The labels `tr`, read from the left, lead from `s` to the indexed state. -/
inductive Run (step : State → Label → State → Prop) (s : State) :
    List Label → State → Prop where
  | nil : Run step s [] s
  | snoc {tr : List Label} {mid s' : State} {l : Label}
      (hrun : Run step s tr mid) (hstep : step mid l s') : Run step s (tr ++ [l]) s'

namespace Run

variable {step : State → Label → State → Prop} {s s' s'' : State}

theorem single {l : Label} (hstep : step s l s') : Run step s [l] s' :=
  snoc nil hstep

theorem append {tr tr' : List Label} (h : Run step s tr s')
    (h' : Run step s' tr' s'') : Run step s (tr ++ tr') s'' := by
  induction h' with
  | nil => simpa using h
  | snoc hrun hstep ih =>
      rw [← List.append_assoc]
      exact snoc ih hstep

theorem cons {tr : List Label} {l : Label} (hstep : step s l s')
    (h : Run step s' tr s'') : Run step s (l :: tr) s'' :=
  (single hstep).append h

/-- A run can be cut at any point of its labels. -/
theorem split {tr tr' : List Label} (h : Run step s (tr ++ tr') s'') :
    ∃ mid, Run step s tr mid ∧ Run step mid tr' s'' := by
  induction tr' using List.reverseRecOn generalizing s'' with
  | nil => exact ⟨s'', by simpa using h, nil⟩
  | append_singleton tr' l ih =>
      rw [← List.append_assoc] at h
      generalize hall : tr ++ tr' ++ [l] = all at h
      cases h with
      | nil => simp at hall
      | snoc hrun hstep =>
          obtain ⟨rfl, hl⟩ := List.append_inj' hall rfl
          obtain ⟨mid, hleft, hright⟩ := ih hrun
          obtain rfl : l = _ := by simpa using hl
          exact ⟨mid, hleft, snoc hright hstep⟩

theorem nil_inv (h : Run step s [] s') : s' = s := by
  generalize htr : ([] : List Label) = tr at h
  cases h with
  | nil => rfl
  | snoc => simp at htr

theorem snoc_inv {tr : List Label} {l : Label} (h : Run step s (tr ++ [l]) s') :
    ∃ mid, Run step s tr mid ∧ step mid l s' := by
  generalize hall : tr ++ [l] = all at h
  cases h with
  | nil => simp at hall
  | snoc hrun hstep =>
      obtain ⟨rfl, hl⟩ := List.append_inj' hall rfl
      obtain rfl : l = _ := by simpa using hl
      exact ⟨_, hrun, hstep⟩

theorem cons_inv {tr : List Label} {l : Label} (h : Run step s (l :: tr) s'') :
    ∃ mid, step s l mid ∧ Run step mid tr s'' := by
  have hall : Run step s ([l] ++ tr) s'' := by simpa using h
  obtain ⟨mid, hfirst, hrest⟩ := split hall
  have hone : Run step s ([] ++ [l]) mid := by simpa using hfirst
  obtain ⟨start, hnil, hstep⟩ := snoc_inv hone
  rw [nil_inv hnil] at hstep
  exact ⟨mid, hstep, hrest⟩

/-- A label of a run is that of a step between two parts of it. -/
theorem at_mem {tr : List Label} {l : Label} (h : Run step s tr s') (hl : l ∈ tr) :
    ∃ before after mid next, tr = before ++ l :: after ∧ Run step s before mid ∧
      step mid l next ∧ Run step next after s' := by
  obtain ⟨before, after, rfl⟩ := List.append_of_mem hl
  obtain ⟨mid, hbefore, hrest⟩ := h.split
  obtain ⟨next, hstep, hafter⟩ := hrest.cons_inv
  exact ⟨before, after, mid, next, rfl, hbefore, hstep, hafter⟩

/-- The rule for invariants: what holds of the empty run and is kept by every
step holds after every run. -/
theorem invariant {I : List Label → State → Prop} (hinit : I [] s)
    (hstep : ∀ tr mid l next, Run step s tr mid → I tr mid → step mid l next →
      I (tr ++ [l]) next)
    {tr : List Label} (h : Run step s tr s') : I tr s' := by
  induction h with
  | nil => exact hinit
  | snoc hrun hlast ih => exact hstep _ _ _ _ hrun ih hlast

/-- A step relation contained in another has fewer runs. -/
theorem mono {step' : State → Label → State → Prop}
    (hsub : ∀ a l b, step a l b → step' a l b) {tr : List Label}
    (h : Run step s tr s') : Run step' s tr s' := by
  induction h with
  | nil => exact nil
  | snoc hrun hlast ih => exact snoc ih (hsub _ _ _ hlast)

section Simulation

variable {Abs AbsLabel Event : Type*} {absStep : Abs → AbsLabel → Abs → Prop}
  {view : Label → Option Event} {absView : AbsLabel → Option Event}

/-- Forward simulation: if every step is matched by abstract steps with the same
observable events, every run is matched by an abstract run with the same
observable history.  Only histories that are `ok` matter. -/
theorem simulates (ok : List Label → Prop) (hok : ∀ tr l, ok (tr ++ [l]) → ok tr)
    {R : List Label → State → Abs → Prop} {a : Abs} (hinit : R [] s a)
    (hstep : ∀ tr mid l next b, ok (tr ++ [l]) → R tr mid b → step mid l next →
      ∃ atr b', Run absStep b atr b' ∧ atr.filterMap absView = (view l).toList ∧
        R (tr ++ [l]) next b')
    {tr : List Label} (htr : ok tr) (h : Run step s tr s') :
    ∃ atr a', Run absStep a atr a' ∧
      atr.filterMap absView = tr.filterMap view ∧ R tr s' a' := by
  induction h with
  | nil => exact ⟨[], a, nil, rfl, hinit⟩
  | snoc hrun hlast ih =>
      obtain ⟨atr, b, habs, hview, hR⟩ := ih (hok _ _ htr)
      obtain ⟨btr, b', hmore, hview', hR'⟩ := hstep _ _ _ _ _ htr hR hlast
      refine ⟨atr ++ btr, b', habs.append hmore, ?_, hR'⟩
      rw [List.filterMap_append, List.filterMap_append, hview, hview']
      cases hv : view _ <;> simp [hv]

end Simulation

end Run

end Foundation
