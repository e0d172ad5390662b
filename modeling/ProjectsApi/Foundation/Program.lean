import Mathlib.Logic.Basic

/-!
# Programs over an effect signature

A `Program Op Ans α` is a computation which may call operations `op : Op` of an
environment, receives an answer of type `Ans op`, and finally yields a value.
Between two calls it is a pure function of the answers received so far, so an
interpreter may interleave many programs at exactly their calls.

Three ways of reasoning about a program are provided.

* `AllOps`: every operation the program can ever call satisfies a predicate.
* `Follows`: the program keeps to a *protocol*, a set of moves between phases.
  It is the tool for facts about the order of a program's calls.
* `Eval`: the program run alone, from one state of the environment to another.

Each comes with the rule for sequencing, so that a fact about a long program is
assembled from facts about its parts.
-/

namespace Foundation

/-- A computation calling operations `op : Op` answered in `Ans op`. -/
inductive Program (Op : Type) (Ans : Op → Type) (α : Type) : Type where
  | done (value : α) : Program Op Ans α
  | call (op : Op) (next : Ans op → Program Op Ans α) : Program Op Ans α

namespace Program

variable {Op : Type} {Ans : Op → Type} {α β γ : Type}

/-- Sequencing: continue with `f` wherever the first program is done. -/
def bind : Program Op Ans α → (α → Program Op Ans β) → Program Op Ans β
  | .done value, f => f value
  | .call op next, f => .call op fun answer => (next answer).bind f

instance : Monad (Program Op Ans) where
  pure := .done
  bind := bind

/-- Call one operation and yield its answer. -/
def perform (op : Op) : Program Op Ans (Ans op) :=
  .call op .done

@[simp] theorem pure_eq_done (value : α) :
    (pure value : Program Op Ans α) = .done value := rfl

@[simp] theorem done_bind (value : α) (f : α → Program Op Ans β) :
    ((.done value : Program Op Ans α) >>= f) = f value := rfl

@[simp] theorem bind_done (value : α) (f : α → Program Op Ans β) :
    (done value : Program Op Ans α).bind f = f value := rfl

@[simp] theorem call_bind (op : Op) (next : Ans op → Program Op Ans α)
    (f : α → Program Op Ans β) :
    ((.call op next : Program Op Ans α) >>= f) =
      .call op fun answer => next answer >>= f := rfl

@[simp] theorem perform_bind (op : Op) (f : Ans op → Program Op Ans β) :
    (perform op >>= f) = .call op f := rfl

@[simp] theorem map_done (f : α → β) (value : α) :
    f <$> (.done value : Program Op Ans α) = .done (f value) := rfl

@[simp] theorem map_call (f : α → β) (op : Op)
    (next : Ans op → Program Op Ans α) :
    f <$> (.call op next : Program Op Ans α) =
      .call op fun answer => f <$> next answer := rfl

theorem bind_pure (p : Program Op Ans α) : p >>= done = p := by
  induction p with
  | done value => rfl
  | call op next ih => exact congrArg (call op) (funext ih)

theorem map_bind (f : β → γ) (p : Program Op Ans α) (g : α → Program Op Ans β) :
    f <$> (p >>= g) = p >>= fun value => f <$> g value := by
  induction p with
  | done value => rfl
  | call op next ih => exact congrArg (call op) (funext ih)

/-! ## Operations a program can call -/

/-- Every operation the program can call, whatever the answers, satisfies `P`. -/
def AllOps (P : Op → Prop) : Program Op Ans α → Prop
  | .done _ => True
  | .call op next => P op ∧ ∀ answer, (next answer).AllOps P

@[simp] theorem allOps_done (P : Op → Prop) (value : α) :
    (.done value : Program Op Ans α).AllOps P := trivial

@[simp] theorem allOps_call (P : Op → Prop) (op : Op)
    (next : Ans op → Program Op Ans α) :
    (.call op next : Program Op Ans α).AllOps P ↔
      P op ∧ ∀ answer, (next answer).AllOps P := Iff.rfl

theorem AllOps.bind {P : Op → Prop} {p : Program Op Ans α}
    {f : α → Program Op Ans β} (hp : p.AllOps P)
    (hf : ∀ value, (f value).AllOps P) : (p >>= f).AllOps P := by
  induction p with
  | done value => exact hf value
  | call op next ih => exact ⟨hp.1, fun answer => ih answer (hp.2 answer)⟩

theorem AllOps.map {P : Op → Prop} {p : Program Op Ans α} (f : α → β)
    (hp : p.AllOps P) : (f <$> p).AllOps P := by
  induction p with
  | done value => trivial
  | call op next ih => exact ⟨hp.1, fun answer => ih answer (hp.2 answer)⟩

theorem AllOps.mono {P P' : Op → Prop} (h : ∀ op, P op → P' op) {p : Program Op Ans α}
    (hp : p.AllOps P) : p.AllOps P' := by
  induction p with
  | done value => trivial
  | call op next ih => exact ⟨h op hp.1, fun answer => ih answer (hp.2 answer)⟩

/-! ## Protocols -/

/-- A protocol over phases `Q`: `P q op after` says that in phase `q` the
operation `op` may be called, and that the answer `a` leads to phase `after a`. -/
abbrev Protocol (Op : Type) (Ans : Op → Type) (Q : Type) : Type :=
  Q → (op : Op) → (Ans op → Q) → Prop

variable {Q : Type}

/-- Started in phase `q`, the program keeps to the protocol, and whenever it
ends in a phase `q'` with value `a` then `ends q' a` holds. -/
def Follows (P : Protocol Op Ans Q) (ends : Q → α → Prop) :
    Q → Program Op Ans α → Prop
  | q, .done value => ends q value
  | q, .call op next =>
      ∃ after, P q op after ∧ ∀ answer, Follows P ends (after answer) (next answer)

@[simp] theorem follows_done (P : Protocol Op Ans Q) (ends : Q → α → Prop)
    (q : Q) (value : α) :
    Follows P ends q (.done value) ↔ ends q value := Iff.rfl

@[simp] theorem follows_call (P : Protocol Op Ans Q) (ends : Q → α → Prop)
    (q : Q) (op : Op) (next : Ans op → Program Op Ans α) :
    Follows P ends q (.call op next) ↔
      ∃ after, P q op after ∧
        ∀ answer, Follows P ends (after answer) (next answer) := Iff.rfl

/-- One allowed call, with the phases after it named. -/
theorem Follows.step {P : Protocol Op Ans Q} {ends : Q → α → Prop} {q : Q}
    {op : Op} {next : Ans op → Program Op Ans α} (after : Ans op → Q)
    (hmove : P q op after)
    (hnext : ∀ answer, Follows P ends (after answer) (next answer)) :
    Follows P ends q (.call op next) :=
  ⟨after, hmove, hnext⟩

/-- The rule for sequencing: the second program may start in any phase in which
the first can end. -/
theorem Follows.bind {P : Protocol Op Ans Q} {ends : Q → β → Prop}
    {p : Program Op Ans α} {f : α → Program Op Ans β} {q : Q}
    (hp : Follows P (fun q' value => Follows P ends q' (f value)) q p) :
    Follows P ends q (p >>= f) := by
  induction p generalizing q with
  | done value => exact hp
  | call op next ih =>
      obtain ⟨after, hmove, hnext⟩ := hp
      exact ⟨after, hmove, fun answer => ih answer (hnext answer)⟩

theorem Follows.map {P : Protocol Op Ans Q} {ends : Q → β → Prop}
    {p : Program Op Ans α} {f : α → β} {q : Q}
    (hp : Follows P (fun q' value => ends q' (f value)) q p) :
    Follows P ends q (f <$> p) := by
  induction p generalizing q with
  | done value => exact hp
  | call op next ih =>
      obtain ⟨after, hmove, hnext⟩ := hp
      exact ⟨after, hmove, fun answer => ih answer (hnext answer)⟩

theorem Follows.mono {P : Protocol Op Ans Q} {ends ends' : Q → α → Prop}
    {p : Program Op Ans α} {q : Q} (hp : Follows P ends q p)
    (h : ∀ q' value, ends q' value → ends' q' value) : Follows P ends' q p := by
  induction p generalizing q with
  | done value => exact h q value hp
  | call op next ih =>
      obtain ⟨after, hmove, hnext⟩ := hp
      exact ⟨after, hmove, fun answer => ih answer (hnext answer)⟩

/-- A program calls only what its protocol allows. -/
theorem Follows.allOps {P : Protocol Op Ans Q} {ends : Q → α → Prop} {p : Program Op Ans α}
    {q : Q} (hp : Follows P ends q p) : p.AllOps fun op => ∃ q after, P q op after := by
  induction p generalizing q with
  | done value => trivial
  | call op next ih =>
      obtain ⟨after, hmove, hnext⟩ := hp
      exact ⟨⟨q, after, hmove⟩, fun answer => ih answer (hnext answer)⟩

/-- A program all of whose operations leave the phase as it is stays in it. -/
theorem AllOps.follows {P : Protocol Op Ans Q} {ends : Q → α → Prop} {p : Program Op Ans α}
    {q : Q} (hp : p.AllOps fun op => P q op fun _ => q) (hends : ∀ value, ends q value) :
    Follows P ends q p := by
  induction p with
  | done value => exact hends value
  | call op next ih => exact Follows.step _ hp.1 fun answer => ih answer (hp.2 answer)

/-! ## Running a program alone -/

section Eval

variable {σ : Type} (exec : σ → (op : Op) → Ans op → σ → Prop)

/-- Big-step execution against an environment whose atomic operations are
described by `exec state op answer state'`. -/
inductive Eval : σ → Program Op Ans α → α → σ → Prop where
  | done (s : σ) (value : α) : Eval s (.done value) value s
  | call {s s' s'' : σ} {op : Op} {answer : Ans op}
      {next : Ans op → Program Op Ans α} {value : α}
      (hexec : exec s op answer s') (hnext : Eval s' (next answer) value s'') :
      Eval s (.call op next) value s''

variable {exec}

@[simp] theorem eval_done_iff {s s' : σ} {value value' : α} :
    Eval exec s (.done value) value' s' ↔ value' = value ∧ s' = s := by
  constructor
  · rintro ⟨⟩
    exact ⟨rfl, rfl⟩
  · rintro ⟨rfl, rfl⟩
    exact .done _ _

theorem eval_call_iff {s s'' : σ} {op : Op}
    {next : Ans op → Program Op Ans α} {value : α} :
    Eval exec s (.call op next) value s'' ↔
      ∃ answer s', exec s op answer s' ∧ Eval exec s' (next answer) value s'' := by
  constructor
  · rintro ⟨⟩
    exact ⟨_, _, ‹_›, ‹_›⟩
  · rintro ⟨answer, s', hexec, hnext⟩
    exact .call hexec hnext

theorem eval_bind_iff {s s'' : σ} {p : Program Op Ans α}
    {f : α → Program Op Ans β} {value : β} :
    Eval exec s (p >>= f) value s'' ↔
      ∃ mid s', Eval exec s p mid s' ∧ Eval exec s' (f mid) value s'' := by
  induction p generalizing s with
  | done mid =>
      constructor
      · intro hf
        exact ⟨mid, s, .done s mid, hf⟩
      · rintro ⟨mid', s', hmid, hf⟩
        obtain ⟨rfl, rfl⟩ := eval_done_iff.mp hmid
        exact hf
  | call op next ih =>
      rw [call_bind, eval_call_iff]
      constructor
      · rintro ⟨answer, s', hexec, hrest⟩
        obtain ⟨mid, s₁, hmid, hf⟩ := (ih answer).mp hrest
        exact ⟨mid, s₁, .call hexec hmid, hf⟩
      · rintro ⟨mid, s₁, hmid, hf⟩
        obtain ⟨answer, s', hexec, hnext⟩ := eval_call_iff.mp hmid
        exact ⟨answer, s', hexec, (ih answer).mpr ⟨mid, s₁, hnext, hf⟩⟩

theorem eval_map_iff {s s' : σ} {p : Program Op Ans α} {f : α → β} {value : β} :
    Eval exec s (f <$> p) value s' ↔
      ∃ mid, Eval exec s p mid s' ∧ value = f mid := by
  induction p generalizing s with
  | done mid =>
      constructor
      · intro hf
        obtain ⟨rfl, rfl⟩ := eval_done_iff.mp hf
        exact ⟨mid, .done s' mid, rfl⟩
      · rintro ⟨mid', hmid, rfl⟩
        obtain ⟨rfl, rfl⟩ := eval_done_iff.mp hmid
        exact .done s' (f mid')
  | call op next ih =>
      rw [map_call, eval_call_iff]
      constructor
      · rintro ⟨answer, s₁, hexec, hrest⟩
        obtain ⟨mid, hmid, hvalue⟩ := (ih answer).mp hrest
        exact ⟨mid, .call hexec hmid, hvalue⟩
      · rintro ⟨mid, hmid, hvalue⟩
        obtain ⟨answer, s₁, hexec, hnext⟩ := eval_call_iff.mp hmid
        exact ⟨answer, s₁, hexec, (ih answer).mpr ⟨mid, hnext, hvalue⟩⟩

variable (exec) in
/-- An evaluation with the operations it performed and their answers, in order. -/
inductive Traced : σ → Program Op Ans α → List ((op : Op) × Ans op) → α → σ → Prop where
  | done (s : σ) (value : α) : Traced s (.done value) [] value s
  | call {s s' s'' : σ} {op : Op} {answer : Ans op} {ops : List ((op : Op) × Ans op)}
      {next : Ans op → Program Op Ans α} {value : α}
      (hexec : exec s op answer s') (hnext : Traced s' (next answer) ops value s'') :
      Traced s (.call op next) (⟨op, answer⟩ :: ops) value s''

theorem Eval.traced {s s' : σ} {p : Program Op Ans α} {value : α}
    (h : Eval exec s p value s') : ∃ ops, Traced exec s p ops value s' := by
  induction h with
  | done s value => exact ⟨[], .done s value⟩
  | call hexec hnext ih =>
      obtain ⟨ops, hops⟩ := ih
      exact ⟨_, .call hexec hops⟩

theorem Traced.map {s s' : σ} {p : Program Op Ans α} {ops : List ((op : Op) × Ans op)}
    {value : α} (h : Traced exec s p ops value s') (f : α → β) :
    Traced exec s (f <$> p) ops (f value) s' := by
  induction h with
  | done s value => exact .done s (f value)
  | call hexec hnext ih => exact .call hexec ih

end Eval

end Program

end Foundation
