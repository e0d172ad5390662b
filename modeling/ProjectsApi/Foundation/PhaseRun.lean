import ProjectsApi.Foundation.ThreadPool

/-!
# The phases of a run

Where every call keeps to a protocol, a run of the threads is a run of their phases alone:
`PhaseStep` says how the phase of a call changes with each label.  What is proved by induction
over these runs needs neither the store nor the programs.  With the last answer as the phase, a
result is traced back to the operation that it rests on (`Run.ret_last`).
-/

namespace Foundation

open Program

variable {σ Op : Type} {Ans : Op → Type} {Call Res Q : Type}

/-- The calls in flight with their phases. -/
abbrev CallPhases (Call Q : Type) : Type := Nat → Option (Call × Q)

section Phases

variable (P : Call → Protocol Op Ans Q) (ends : Call → Q → Res → Prop) (start : Call → Q)

/-- What a label does to the phases. -/
inductive PhaseStep : CallPhases Call Q → Label Op Ans Call Res → CallPhases Call Q → Prop where
  | invoke {m : CallPhases Call Q} {i : Nat} (c : Call) (hfree : m i = none) :
      PhaseStep m (.invoke i c) (Function.update m i (some (c, start c)))
  | exec {m : CallPhases Call Q} {i : Nat} {c : Call} {q : Q} {op : Op} {after : Ans op → Q}
      {answer : Ans op} (hcall : m i = some (c, q)) (hmove : P c q op after) :
      PhaseStep m (.exec i c op answer) (Function.update m i (some (c, after answer)))
  | ret {m : CallPhases Call Q} {i : Nat} {c : Call} {q : Q} {r : Res}
      (hcall : m i = some (c, q)) (hends : ends c q r) :
      PhaseStep m (.ret i c r) (Function.update m i none)
  | abandon {m : CallPhases Call Q} {i : Nat} {c : Call} {q : Q} (hcall : m i = some (c, q)) :
      PhaseStep m (.abandon i c) (Function.update m i none)

variable {P ends start}

/-- The phases of the threads of a world. -/
def World.InPhases (w : World σ Op Ans Call Res) (m : CallPhases Call Q) : Prop :=
  ∃ phase : Nat → Q, ∀ i, m i = (w.threads i).map fun t => (t.call, phase i)

theorem World.InPhases.call_iff {w : World σ Op Ans Call Res} {m : CallPhases Call Q}
    (h : w.InPhases m) {i : Nat} {c : Call} :
    (∃ q, m i = some (c, q)) ↔ ∃ t, w.threads i = some t ∧ t.call = c := by
  obtain ⟨phase, hm⟩ := h
  rw [hm]
  cases w.threads i with
  | none => simp
  | some t => simp

/-- One step of the threads is one of their phases. -/
theorem Step.phases {M : Machine σ Op Ans Call Res} {w w' : World σ Op Ans Call Res}
    {l : Label Op Ans Call Res} {phase : Nat → Q} (htyped : w.Typed P ends phase)
    (hbody : ∀ i c, l = .invoke i c → Follows (P c) (ends c) (start c) (M.body c))
    (hstep : Step M w l w') :
    ∃ phase', w'.Typed P ends phase' ∧
      PhaseStep P ends start (fun i => (w.threads i).map fun t => (t.call, phase i)) l
        fun i => (w'.threads i).map fun t => (t.call, phase' i) := by
  -- setting one slot of the world sets that slot of the phases
  have hset : ∀ (v : World σ Op Ans Call Res) (i : Nat) (t : Thread Op Ans Call Res) (q : Q),
      v.threads = w.threads →
      (fun j => ((v.setThread i (some t)).threads j).map fun u =>
        (u.call, Function.update phase i q j)) =
        Function.update (fun j => (w.threads j).map fun u => (u.call, phase j)) i
          (some (t.call, q)) := by
    intro v i t q hv
    funext j
    rw [World.setThread_threads, Function.update_apply, Function.update_apply, hv]
    split <;> simp
  have hclear : ∀ i : Nat,
      (fun j => ((w.setThread i none).threads j).map fun u => (u.call, phase j)) =
        Function.update (fun j => (w.threads j).map fun u => (u.call, phase j)) i none := by
    intro i
    funext j
    rw [World.setThread_threads, Function.update_apply]
    split <;> simp
  cases hstep with
  | @invoke i c hfree =>
      refine ⟨_, htyped.setThread i ⟨c, M.body c⟩ (start c) (hbody i c rfl), ?_⟩
      rw [hset w i _ _ rfl]
      exact .invoke c (by simp [hfree])
  | @exec i c op next answer s' hthread hexec =>
      obtain ⟨after, hmove, hnext⟩ := htyped.move hthread
      refine ⟨_, World.Typed.setThread (w := { w with store := s' }) htyped i ⟨c, next answer⟩
        (after answer) (hnext answer), ?_⟩
      rw [hset { w with store := s' } i _ _ rfl]
      exact .exec (by simp [hthread]) hmove
  | @ret i c r hthread =>
      refine ⟨phase, htyped.clearThread i, ?_⟩
      rw [hclear]
      exact .ret (by simp [hthread]) (htyped.returns hthread)
  | @abandon i c program hthread =>
      refine ⟨phase, htyped.clearThread i, ?_⟩
      rw [hclear]
      exact .abandon (show _ = some (c, phase i) by simp [hthread])

/-- The calls of the threads with the phases that `phase` gives them. -/
def World.callPhases (w : World σ Op Ans Call Res) (phase : Nat → Q) : CallPhases Call Q :=
  fun i => (w.threads i).map fun t => (t.call, phase i)

/-- A run of threads that keep to their protocols is a run of their phases. -/
theorem World.Typed.run {M : Machine σ Op Ans Call Res} {C : Call → Prop}
    (hbody : ∀ c, C c → Follows (P c) (ends c) (start c) (M.body c))
    {w w' : World σ Op Ans Call Res} {phase : Nat → Q} (htyped : w.Typed P ends phase)
    {tr : List (Label Op Ans Call Res)} (hcalls : CallsIn C tr) (hrun : Run (Step M) w tr w') :
    ∃ phase', w'.Typed P ends phase' ∧
      Run (PhaseStep P ends start) (w.callPhases phase) tr (w'.callPhases phase') := by
  induction hrun with
  | nil => exact ⟨phase, htyped, .nil⟩
  | snoc hrun hstep ih =>
      obtain ⟨phase₁, htyped₁, hphases⟩ := ih hcalls.of_append_left
      obtain ⟨phase₂, htyped₂, hnext⟩ := hstep.phases htyped₁
        fun i c hl => hbody c (hcalls i c (by simp [hl]))
      exact ⟨phase₂, htyped₂, .snoc hphases hnext⟩

/-- The same from an idle world on. -/
theorem Run.phases {M : Machine σ Op Ans Call Res} {C : Call → Prop}
    (hbody : ∀ c, C c → Follows (P c) (ends c) (start c) (M.body c)) [Inhabited Q] {s : σ}
    {tr : List (Label Op Ans Call Res)} {w : World σ Op Ans Call Res} (hcalls : CallsIn C tr)
    (hrun : Run (Step M) (World.idle s) tr w) :
    ∃ m, Run (PhaseStep P ends start) (fun _ => none) tr m ∧ w.InPhases m := by
  obtain ⟨phase, -, hphases⟩ :=
    (World.typed_idle P ends (fun _ => default) s).run hbody hcalls hrun
  exact ⟨_, hphases, phase, fun i => rfl⟩

end Phases

/-! ## Last answers -/

section Last

variable (Op Ans)

/-- What a call was answered last, if it has called an operation. -/
abbrev Last : Type := Option ((op : Op) × Ans op)

/-- Every operation is allowed, and its answer is remembered. -/
def Remembers : Protocol Op Ans (Last Op Ans) :=
  fun _ op after => after = fun answer => some ⟨op, answer⟩

variable {Op Ans}

/-- Every program keeps to it. -/
theorem follows_remembers {α : Type} {ends : Last Op Ans → α → Prop} (p : Program Op Ans α)
    (q : Last Op Ans) (hends : ∀ last value, ends last value) :
    Follows (Remembers Op Ans) ends q p := by
  induction p generalizing q with
  | done value => exact hends q value
  | call op next ih => exact Follows.step _ rfl fun answer => ih answer _

variable {ends : Call → Last Op Ans → Res → Prop} {m m' : CallPhases Call (Last Op Ans)}
  {tr : List (Label Op Ans Call Res)}

/-- What a call remembers has happened, or was remembered before. -/
theorem PhaseStep.last_mem
    (hrun : Run (PhaseStep (fun _ => Remembers Op Ans) ends fun _ => none) m tr m') {i : Nat}
    {c : Call} {last : (op : Op) × Ans op} (hcall : m' i = some (c, some last)) :
    m i = some (c, some last) ∨ .exec i c last.1 last.2 ∈ tr := by
  induction hrun with
  | nil => exact Or.inl hcall
  | @snoc tr m₁ m₂ l hrun hstep ih =>
      -- only an operation of slot `i` itself changes what it remembers
      have hold : m₁ i = some (c, some last) →
          m i = some (c, some last) ∨ .exec i c last.1 last.2 ∈ tr ++ [l] := by
        intro h
        exact (ih h).imp_right (List.mem_append_left _)
      cases hstep with
      | invoke d hfree =>
          rw [Function.update_apply] at hcall
          split at hcall
          · cases hcall
          · exact hold hcall
      | @exec j d q op after answer hthread hmove =>
          rw [Function.update_apply] at hcall
          split at hcall
          · subst i
            rw [hmove] at hcall
            obtain ⟨rfl, hlast⟩ := Prod.mk.inj (Option.some.inj hcall)
            obtain rfl := Option.some.inj hlast
            exact Or.inr (by simp)
          · exact hold hcall
      | ret hthread hends =>
          rw [Function.update_apply] at hcall
          split at hcall
          · cases hcall
          · exact hold hcall
      | abandon hthread =>
          rw [Function.update_apply] at hcall
          split at hcall
          · cases hcall
          · exact hold hcall

/-- What a call returns in a stretch of a run before which its slot was free, it returns because
of an answer of that stretch. -/
theorem Run.ret_last {M : Machine σ Op Ans Call Res} {C : Call → Prop}
    (hbody : ∀ c, C c → Follows (Remembers Op Ans) (ends c) none (M.body c)) {s : σ}
    {tr₁ tr₂ : List (Label Op Ans Call Res)} {w₁ w₂ : World σ Op Ans Call Res}
    (hcalls : CallsIn C (tr₁ ++ tr₂)) (hrun₁ : Run (Step M) (World.idle s) tr₁ w₁)
    (hrun₂ : Run (Step M) w₁ tr₂ w₂) {i : Nat} (hfree : w₁.threads i = none) {c : Call} {r : Res}
    (hret : .ret i c r ∈ tr₂) :
    ∃ last, ends c last r ∧ ∀ answered, last = some answered →
      .exec i c answered.1 answered.2 ∈ tr₂ := by
  obtain ⟨phase, htyped, -⟩ :=
    (World.typed_idle (fun _ => Remembers Op Ans) ends (fun _ => none) s).run hbody
      hcalls.of_append_left hrun₁
  obtain ⟨phase', -, hphases⟩ := htyped.run hbody hcalls.of_append_right hrun₂
  obtain ⟨before, after, mid, next, rfl, hbefore, hstep, -⟩ := hphases.at_mem hret
  cases hstep with
  | @ret _ _ last _ hcall hends =>
      refine ⟨last, hends, ?_⟩
      rintro answered rfl
      obtain hold | hmem := PhaseStep.last_mem hbefore hcall
      · rw [World.callPhases, hfree] at hold
        cases hold
      · exact List.mem_append_left _ hmem

/-- What a call returns it returns because of an answer of the run. -/
theorem Run.ret_last_of_idle {M : Machine σ Op Ans Call Res} {C : Call → Prop}
    (hbody : ∀ c, C c → Follows (Remembers Op Ans) (ends c) none (M.body c)) {s : σ}
    {w : World σ Op Ans Call Res} (hcalls : CallsIn C tr)
    (hrun : Run (Step M) (World.idle s) tr w) {i : Nat} {c : Call} {r : Res}
    (hret : .ret i c r ∈ tr) :
    ∃ last, ends c last r ∧ ∀ answered, last = some answered →
      .exec i c answered.1 answered.2 ∈ tr :=
  Run.ret_last hbody (show CallsIn C ([] ++ tr) from hcalls) .nil hrun rfl hret

end Last

end Foundation
