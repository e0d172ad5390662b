import ProjectsApi.Foundation.ThreadPool

/-!
# A thread among others

To one thread of a pool the steps of all others are changes of the store between its own
operations.  `Answered` is the evaluation of a program whose operations meet the store in
any state that satisfies an invariant, and `Run.answered` finds such an evaluation in every
run of the pool.  `Run.exec_allOps` says which operations a run can have performed.
-/

namespace Foundation

open Program

variable {σ Op : Type} {Ans : Op → Type} {Call Res α β : Type}

/-! ## Evaluation under an invariant -/

section Answered

variable (exec : σ → (op : Op) → Ans op → σ → Prop) (I : σ → Prop)

/-- The program ends with the value when each of its operations meets a store that
satisfies `I`. -/
inductive Answered : Program Op Ans α → α → Prop where
  | done (value : α) : Answered (.done value) value
  | call {s s' : σ} {op : Op} {answer : Ans op} {next : Ans op → Program Op Ans α} {value : α}
      (hnow : I s) (hexec : exec s op answer s') (hnext : Answered (next answer) value) :
      Answered (.call op next) value

variable {exec I}

theorem answered_done_iff {value value' : α} :
    Answered exec I (.done value) value' ↔ value' = value := by
  constructor
  · rintro ⟨⟩
    rfl
  · rintro rfl
    exact .done _

theorem answered_call_iff {op : Op} {next : Ans op → Program Op Ans α} {value : α} :
    Answered exec I (.call op next) value ↔
      ∃ s answer s', I s ∧ exec s op answer s' ∧ Answered exec I (next answer) value := by
  constructor
  · intro h
    cases h with
    | call hnow hexec hnext => exact ⟨_, _, _, hnow, hexec, hnext⟩
  · rintro ⟨s, answer, s', hnow, hexec, hnext⟩
    exact .call hnow hexec hnext

theorem answered_bind_iff {p : Program Op Ans α} {f : α → Program Op Ans β} {value : β} :
    Answered exec I (p >>= f) value ↔
      ∃ mid, Answered exec I p mid ∧ Answered exec I (f mid) value := by
  induction p with
  | done mid =>
      constructor
      · intro h
        exact ⟨mid, .done mid, h⟩
      · rintro ⟨mid', hmid, hf⟩
        obtain rfl := answered_done_iff.mp hmid
        exact hf
  | call op next ih =>
      rw [call_bind, answered_call_iff]
      constructor
      · rintro ⟨s, answer, s', hnow, hexec, hrest⟩
        obtain ⟨mid, hmid, hf⟩ := (ih answer).mp hrest
        exact ⟨mid, .call hnow hexec hmid, hf⟩
      · rintro ⟨mid, hmid, hf⟩
        obtain ⟨s, answer, s', hnow, hexec, hnext⟩ := answered_call_iff.mp hmid
        exact ⟨s, answer, s', hnow, hexec, (ih answer).mpr ⟨mid, hnext, hf⟩⟩

theorem Answered.of_map {p : Program Op Ans α} {f : α → β} {value : β}
    (h : Answered exec I (f <$> p) value) : ∃ mid, Answered exec I p mid ∧ value = f mid := by
  induction p with
  | done mid => exact ⟨mid, .done mid, answered_done_iff.mp h⟩
  | call op next ih =>
      rw [map_call, answered_call_iff] at h
      obtain ⟨s, answer, s', hnow, hexec, hrest⟩ := h
      obtain ⟨mid, hmid, hvalue⟩ := ih answer hrest
      exact ⟨mid, .call hnow hexec hmid, hvalue⟩

end Answered

/-! ## Runs with their states -/

/-- A step with the state that it leads to. -/
def Visits {State Label : Type*} (step : State → Label → State → Prop) (s : State)
    (x : Label × State) (s' : State) : Prop :=
  step s x.1 s' ∧ s' = x.2

section Visits

variable {State Label : Type*} {step : State → Label → State → Prop} {s s' : State}

theorem Run.of_visits {steps : List (Label × State)} (h : Run (Visits step) s steps s') :
    Run step s (steps.map Prod.fst) s' := by
  induction h with
  | nil => exact .nil
  | snoc hrun hstep ih =>
      rw [List.map_append]
      exact .snoc ih hstep.1

/-- Every run is a run with its states. -/
theorem Run.visits {tr : List Label} (h : Run step s tr s') :
    ∃ steps : List (Label × State), steps.map Prod.fst = tr ∧
      Run (Visits step) s steps s' := by
  induction h with
  | nil => exact ⟨[], rfl, .nil⟩
  | @snoc tr mid s' l hrun hstep ih =>
      obtain ⟨steps, rfl, hvisits⟩ := ih
      exact ⟨steps ++ [(l, s')], by simp, .snoc hvisits ⟨hstep, rfl⟩⟩

/-- A visited state is reached by the steps up to it. -/
theorem Run.of_visited {steps : List (Label × State)} (h : Run (Visits step) s steps s')
    {l : Label} {mid : State} (hmem : (l, mid) ∈ steps) :
    ∃ before after, steps = before ++ (l, mid) :: after ∧
      Run step s (before.map Prod.fst ++ [l]) mid := by
  obtain ⟨before, after, rfl⟩ := List.append_of_mem hmem
  rw [List.append_cons] at h
  obtain ⟨t, hbefore, -⟩ := h.split
  obtain ⟨t', hrun, hstep, rfl⟩ := hbefore.snoc_inv
  exact ⟨before, after, rfl, .snoc hrun.of_visits hstep⟩

end Visits

/-! ## One thread of a run -/

/-- The step ends the call of slot `i`. -/
def Label.Leaves (i : Nat) : Label Op Ans Call Res → Prop
  | ret j _ _ => j = i
  | abandon j _ => j = i
  | _ => False

section Threads

variable {M : Machine σ Op Ans Call Res} {w w' : World σ Op Ans Call Res}

/-- What a thread does in a run is an evaluation under what holds of every state. -/
theorem Run.answered {I : σ → Prop} {i : Nat} {c : Call} {r : Res}
    {steps : List (Label Op Ans Call Res × World σ Op Ans Call Res)}
    (h : Run (Visits (Step M)) w steps w') (hstay : ∀ x ∈ steps, ¬ x.1.Leaves i)
    {p : Program Op Ans Res} (hthread : w.threads i = some ⟨c, p⟩)
    (hend : w'.threads i = some ⟨c, .done r⟩) (hI : I w.store)
    (hsteps : ∀ x ∈ steps, I x.2.store) : Answered M.exec I p r := by
  -- along the run from its first step, as the thread's program shrinks from its front
  induction steps generalizing w p with
  | nil =>
      rw [h.nil_inv, hthread] at hend
      obtain rfl : p = .done r := by simpa using hend
      exact .done r
  | cons x steps ih =>
      obtain ⟨l, mid⟩ := x
      obtain ⟨mid', ⟨hstep, hmid⟩, hrest⟩ := h.cons_inv
      obtain rfl : mid' = mid := hmid
      rw [List.forall_mem_cons] at hstay hsteps
      obtain ⟨hleaves, hstay⟩ := hstay
      obtain ⟨hnow, hsteps⟩ := hsteps
      change ¬ l.Leaves i at hleaves
      change I mid'.store at hnow
      change Step M w l mid' at hstep
      cases hstep with
      | @invoke j d hfree =>
          refine ih hrest hstay ?_ hnow hsteps
          rw [World.setThread_threads_ne, hthread]
          rintro rfl
          rw [hfree] at hthread
          cases hthread
      | @exec j d op next answer s' hother hexec =>
          by_cases hj : i = j
          · -- the thread performs its own next operation
            subst hj
            obtain ⟨rfl, rfl⟩ := Thread.mk.inj (Option.some.inj (hthread.symm.trans hother))
            exact .call hI hexec (ih hrest hstay (by simp) hnow hsteps)
          · refine ih hrest hstay ?_ hnow hsteps
            rw [World.setThread_threads_ne _ _ hj]
            exact hthread
      | @ret j d r' hother | @abandon j d program hother =>
          refine ih hrest hstay ?_ hnow hsteps
          rw [World.setThread_threads_ne _ _ fun hij => hleaves hij.symm]
          exact hthread

/-- Where every started body calls only operations in `P`, a run performs no others. -/
theorem Run.exec_allOps {P : Op → Prop} {C : Call → Prop}
    (hbody : ∀ c, C c → (M.body c).AllOps P) {s : σ} {tr : List (Label Op Ans Call Res)}
    (hcalls : CallsIn C tr) (h : Run (Step M) (World.idle s) tr w) {i : Nat} {c : Call} {op : Op}
    {answer : Ans op} (hmem : .exec i c op answer ∈ tr) : P op := by
  induction h with
  | nil => cases hmem
  | @snoc tr mid w' l hrun hstep ih =>
      rcases List.mem_append.mp hmem with hbefore | hlast
      · exact ih hcalls.of_append_left hbefore
      · obtain rfl := List.mem_singleton.mp hlast
        cases hstep with
        | exec hthread hexec =>
            exact (Run.threads_allOps hbody hcalls.of_append_left hrun _ _ hthread).1

end Threads

end Foundation
