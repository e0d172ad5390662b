import ProjectsApi.Foundation.Program

/-!
# Interrupted runs

A program can be stopped between any two of its operations.  `Reaches` relates the state in which
a program starts to every state that it passes through, so that what holds of all of these holds
wherever the run was cut off.
-/

namespace Foundation.Program

variable {Op : Type} {Ans : Op → Type} {α β σ : Type}

variable (exec : σ → (op : Op) → Ans op → σ → Prop)

/-- A run of the program, cut off anywhere. -/
inductive Reaches : σ → Program Op Ans α → σ → Prop where
  | stop (s : σ) (p : Program Op Ans α) : Reaches s p s
  | call {s s' s'' : σ} {op : Op} {answer : Ans op} {next : Ans op → Program Op Ans α}
      (hexec : exec s op answer s') (hnext : Reaches s' (next answer) s'') :
      Reaches s (.call op next) s''

variable {exec}

theorem reaches_done_iff {s s' : σ} {value : α} :
    Reaches exec s (.done value) s' ↔ s' = s := by
  constructor
  · intro h
    cases h
    rfl
  · rintro rfl
    exact .stop _ _

theorem reaches_call_iff {s s'' : σ} {op : Op} {next : Ans op → Program Op Ans α} :
    Reaches exec s (.call op next) s'' ↔
      s'' = s ∨ ∃ answer s', exec s op answer s' ∧ Reaches exec s' (next answer) s'' := by
  constructor
  · intro h
    cases h with
    | stop => exact Or.inl rfl
    | call hexec hnext => exact Or.inr ⟨_, _, hexec, hnext⟩
  · rintro (rfl | ⟨answer, s', hexec, hnext⟩)
    · exact .stop _ _
    · exact .call hexec hnext

/-- A sequence is cut off in its first part, or in the second after a whole first one. -/
theorem reaches_bind_iff {s s'' : σ} {p : Program Op Ans α} {f : α → Program Op Ans β} :
    Reaches exec s (p >>= f) s'' ↔
      Reaches exec s p s'' ∨ ∃ mid s', Eval exec s p mid s' ∧ Reaches exec s' (f mid) s'' := by
  induction p generalizing s with
  | done mid =>
      rw [done_bind, reaches_done_iff]
      constructor
      · intro h
        exact Or.inr ⟨mid, s, .done s mid, h⟩
      · rintro (rfl | ⟨mid', s', hmid, h⟩)
        · exact .stop _ _
        · obtain ⟨rfl, rfl⟩ := eval_done_iff.mp hmid
          exact h
  | call op next ih =>
      rw [call_bind, reaches_call_iff, reaches_call_iff]
      constructor
      · rintro (rfl | ⟨answer, s', hexec, hnext⟩)
        · exact Or.inl (Or.inl rfl)
        · rcases (ih answer).mp hnext with hfirst | ⟨mid, s₁, hmid, hrest⟩
          · exact Or.inl (Or.inr ⟨answer, s', hexec, hfirst⟩)
          · exact Or.inr ⟨mid, s₁, .call hexec hmid, hrest⟩
      · rintro ((rfl | ⟨answer, s', hexec, hnext⟩) | ⟨mid, s₁, hmid, hrest⟩)
        · exact Or.inl rfl
        · exact Or.inr ⟨answer, s', hexec, (ih answer).mpr (Or.inl hnext)⟩
        · obtain ⟨answer, s', hexec, hnext⟩ := eval_call_iff.mp hmid
          exact Or.inr ⟨answer, s', hexec, (ih answer).mpr (Or.inr ⟨mid, s₁, hnext, hrest⟩)⟩

/-- A whole run is cut off at its end. -/
theorem Eval.reaches {s s' : σ} {p : Program Op Ans α} {value : α}
    (h : Eval exec s p value s') : Reaches exec s p s' := by
  induction h with
  | done s value => exact .stop _ _
  | call hexec hnext ih => exact .call hexec ih

end Foundation.Program
