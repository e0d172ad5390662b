import ProjectsApi.Foundation.Transition

/-!
# Replay

A consumer whose state consists of cells.  Each message concerns at most one cell, and
acts on it once: a cell that is ready is advanced and is not ready afterwards, any other
cell is left alone.  So a cell depends on whether some message for it came, but not on
how many came or in which order, and messages that come again do nothing.
-/

namespace Foundation

universe u v w x

variable {State : Type u} {Msg : Type v} {Cell : Type w} {Val : Type x}

/-- The consumer `step`, on messages that are `valid`.  `read` is the content of a cell, and
`effect m before after` says how the message `m` may advance its cell. -/
structure Consumer (step : State → Msg → State → Prop) (valid : Msg → Prop)
    (read : State → Cell → Val) (cell : Msg → Option Cell) (ready : Val → Prop)
    (effect : Msg → Val → Val → Prop) : Prop where
  ext : ∀ s s', (∀ k, read s k = read s' k) → s = s'
  /-- The other cells. -/
  frame : ∀ s m s' k, valid m → step s m s' → cell m ≠ some k → read s' k = read s k
  idle : ∀ s m s' k, valid m → step s m s' → cell m = some k → ¬ ready (read s k) →
    read s' k = read s k
  advance : ∀ s m s' k, valid m → step s m s' → cell m = some k → ready (read s k) →
    effect m (read s k) (read s' k)
  spent : ∀ m a b, effect m a b → ¬ ready b

namespace Consumer

variable {step : State → Msg → State → Prop} {valid : Msg → Prop} {read : State → Cell → Val}
  {cell : Msg → Option Cell} {ready : Val → Prop} {effect : Msg → Val → Val → Prop}
  {s s' s'' : State} {ms ms' : List Msg}

/-- A cell is as the first message for it left it. -/
def Settled (cell : Msg → Option Cell) (ready : Val → Prop) (effect : Msg → Val → Val → Prop)
    (ms : List Msg) (k : Cell) (before after : Val) : Prop :=
  (ready before ∧ ∃ m ∈ ms, cell m = some k ∧ effect m before after) ∨
    ((ready before → ∀ m ∈ ms, cell m ≠ some k) ∧ after = before)

/-- What a run of messages makes of each cell. -/
theorem settled (h : Consumer step valid read cell ready effect) (hrun : Run step s ms s')
    (hvalid : ∀ m ∈ ms, valid m) (k : Cell) :
    Settled cell ready effect ms k (read s k) (read s' k) := by
  induction hrun with
  | nil => exact Or.inr ⟨fun _ m hm => absurd hm List.not_mem_nil, rfl⟩
  | @snoc ms mid next m hrun hstep ih =>
      have hm : valid m := hvalid m (by simp)
      obtain ⟨hready, m', hm', hcell, heffect⟩ | ⟨hnone, hsame⟩ :=
        ih fun m' hm' => hvalid m' (List.mem_append_left _ hm')
      · -- The cell has been advanced: this message cannot advance it again.
        have hnext : read next k = read mid k := by
          by_cases hk : cell m = some k
          · exact h.idle _ _ _ _ hm hstep hk (h.spent _ _ _ heffect)
          · exact h.frame _ _ _ _ hm hstep hk
        rw [← hnext] at heffect
        exact Or.inl ⟨hready, m', List.mem_append_left _ hm', hcell, heffect⟩
      · by_cases hk : cell m = some k
        · by_cases hready : ready (read s k)
          · have heffect := h.advance _ _ _ _ hm hstep hk (hsame ▸ hready)
            rw [hsame] at heffect
            exact Or.inl ⟨hready, m, by simp, hk, heffect⟩
          · have hnext := h.idle _ _ _ _ hm hstep hk (hsame ▸ hready)
            exact Or.inr ⟨fun hcontra => absurd hcontra hready, hnext.trans hsame⟩
        · have hnext := h.frame _ _ _ _ hm hstep hk
          refine Or.inr ⟨fun hready m' hm' => ?_, hnext.trans hsame⟩
          obtain hbefore | hlast := List.mem_append.mp hm'
          · exact hnone hready m' hbefore
          · obtain rfl := List.mem_singleton.mp hlast
            exact hk

/-- Order and repetition do not matter: two runs over the same messages end in states whose
cells are related by every relation that contains equality and relates any two effects of
messages for one cell. -/
theorem order_independent (h : Consumer step valid read cell ready effect)
    (same : Val → Val → Prop) (hrefl : ∀ a, same a a)
    (hagree : ∀ m m' k a b b', m ∈ ms → m' ∈ ms → cell m = some k → cell m' = some k →
      effect m a b → effect m' a b' → same b b')
    (hvalid : ∀ m ∈ ms, valid m) (hms : ∀ m, m ∈ ms ↔ m ∈ ms')
    (hrun : Run step s ms s') (hrun' : Run step s ms' s'') (k : Cell) :
    same (read s' k) (read s'' k) := by
  have hvalid' : ∀ m ∈ ms', valid m := fun m hm => hvalid m ((hms m).mpr hm)
  obtain ⟨hready, m, hm, hcell, heffect⟩ | ⟨hnone, hsame⟩ := h.settled hrun hvalid k
  · obtain ⟨-, m', hm', hcell', heffect'⟩ | ⟨hnone', -⟩ := h.settled hrun' hvalid' k
    · exact hagree m m' k _ _ _ hm ((hms m').mpr hm') hcell hcell' heffect heffect'
    · exact absurd hcell (hnone' hready m ((hms m).mp hm))
  · obtain ⟨hready', m', hm', hcell', -⟩ | ⟨-, hsame'⟩ := h.settled hrun' hvalid' k
    · exact absurd hcell' (hnone hready' m' ((hms m').mpr hm'))
    · rw [hsame, hsame']
      exact hrefl _

/-- Messages that come again do nothing. -/
theorem replay (h : Consumer step valid read cell ready effect)
    (hvalid : ∀ m ∈ ms, valid m) (hms : ∀ m ∈ ms', m ∈ ms)
    (hrun : Run step s ms s') (hrun' : Run step s' ms' s'') : s'' = s' := by
  refine h.ext _ _ fun k => ?_
  obtain ⟨hready, m, hm, hcell, -⟩ | ⟨-, hsame⟩ :=
    h.settled hrun' (fun m hm => hvalid m (hms m hm)) k
  · -- The cell would still be ready although a message for it has come.
    obtain ⟨-, _, -, -, heffect⟩ | ⟨hnone, hsame⟩ := h.settled hrun hvalid k
    · exact absurd hready (h.spent _ _ _ heffect)
    · rw [hsame] at hready
      exact absurd hcell (hnone hready m (hms m hm))
  · exact hsame

end Consumer

end Foundation
