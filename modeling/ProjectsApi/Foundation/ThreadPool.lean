import Mathlib.Logic.Function.Basic
import ProjectsApi.Foundation.Program
import ProjectsApi.Foundation.Transition

/-!
# Threads over a shared store

A `Machine` runs calls: the body of a call is a `Program`, and the operations of
all programs act atomically on one shared store.  A `World` is the store
together with the threads in flight.  A step lets one thread start a call,
perform its next operation, return its result, or be abandoned for good; the
labels record what happened, so that a run is also its history.

The two rules of this module say what holds of every thread of every reachable
world when it holds of every body: the operations it may still call
(`Run.threads_allOps`) and the phase of its protocol (`World.Typed`).
-/

namespace Foundation

open Program

/-- How operations act on the store, and the program of each call. -/
structure Machine (σ : Type) (Op : Type) (Ans : Op → Type) (Call Res : Type) where
  exec : σ → (op : Op) → Ans op → σ → Prop
  body : Call → Program Op Ans Res

/-- A call in flight, with what remains of its body. -/
structure Thread (Op : Type) (Ans : Op → Type) (Call Res : Type) where
  call : Call
  program : Program Op Ans Res

/-- The shared store and the threads in flight. -/
structure World (σ : Type) (Op : Type) (Ans : Op → Type) (Call Res : Type) where
  store : σ
  threads : Nat → Option (Thread Op Ans Call Res)

/-- What a step did, and which thread did it. -/
inductive Label (Op : Type) (Ans : Op → Type) (Call Res : Type) where
  | invoke (i : Nat) (c : Call)
  | exec (i : Nat) (c : Call) (op : Op) (answer : Ans op)
  | ret (i : Nat) (c : Call) (r : Res)
  | abandon (i : Nat) (c : Call)

variable {σ Op : Type} {Ans : Op → Type} {Call Res : Type}

namespace World

/-- No thread in flight. -/
def idle (s : σ) : World σ Op Ans Call Res :=
  ⟨s, fun _ => none⟩

/-- Replace the thread in slot `i`. -/
def setThread (w : World σ Op Ans Call Res) (i : Nat)
    (t : Option (Thread Op Ans Call Res)) : World σ Op Ans Call Res :=
  { w with threads := Function.update w.threads i t }

@[simp] theorem idle_store (s : σ) :
    (idle s : World σ Op Ans Call Res).store = s := rfl

@[simp] theorem idle_threads (s : σ) (i : Nat) :
    (idle s : World σ Op Ans Call Res).threads i = none := rfl

@[simp] theorem setThread_store (w : World σ Op Ans Call Res) (i : Nat)
    (t : Option (Thread Op Ans Call Res)) : (w.setThread i t).store = w.store := rfl

@[simp] theorem setThread_threads_self (w : World σ Op Ans Call Res) (i : Nat)
    (t : Option (Thread Op Ans Call Res)) : (w.setThread i t).threads i = t := by
  simp [setThread]

theorem setThread_threads_ne (w : World σ Op Ans Call Res) {i j : Nat}
    (t : Option (Thread Op Ans Call Res)) (hij : j ≠ i) :
    (w.setThread i t).threads j = w.threads j := by
  simp [setThread, hij]

/-- What slot `j` holds after slot `i` was set. -/
theorem setThread_threads (w : World σ Op Ans Call Res) (i j : Nat)
    (t : Option (Thread Op Ans Call Res)) :
    (w.setThread i t).threads j = if j = i then t else w.threads j := by
  by_cases hij : j = i
  · subst hij
    simp
  · simp [setThread_threads_ne w t hij, hij]

/-- A thread found after slot `i` was set is the new one of that slot, or was there before. -/
theorem setThread_origin {w : World σ Op Ans Call Res} {i j : Nat}
    {t : Option (Thread Op Ans Call Res)} {found : Thread Op Ans Call Res}
    (h : (w.setThread i t).threads j = some found) :
    j = i ∧ t = some found ∨ j ≠ i ∧ w.threads j = some found := by
  rw [setThread_threads] at h
  split at h
  · exact Or.inl ⟨‹_›, h⟩
  · exact Or.inr ⟨‹_›, h⟩

/-- The last setting of a slot counts. -/
@[simp] theorem setThread_setThread (w : World σ Op Ans Call Res) (i : Nat)
    (t t' : Option (Thread Op Ans Call Res)) :
    (w.setThread i t).setThread i t' = w.setThread i t' := by
  simp [setThread]

end World

/-- One step of the pool. -/
inductive Step (M : Machine σ Op Ans Call Res) :
    World σ Op Ans Call Res → Label Op Ans Call Res → World σ Op Ans Call Res → Prop where
  | invoke {w : World σ Op Ans Call Res} {i : Nat} (c : Call)
      (hfree : w.threads i = none) :
      Step M w (.invoke i c) (w.setThread i (some ⟨c, M.body c⟩))
  | exec {w : World σ Op Ans Call Res} {i : Nat} {c : Call} {op : Op}
      {next : Ans op → Program Op Ans Res} {answer : Ans op} {s' : σ}
      (hthread : w.threads i = some ⟨c, .call op next⟩)
      (hexec : M.exec w.store op answer s') :
      Step M w (.exec i c op answer)
        ({ w with store := s' }.setThread i (some ⟨c, next answer⟩))
  | ret {w : World σ Op Ans Call Res} {i : Nat} {c : Call} {r : Res}
      (hthread : w.threads i = some ⟨c, .done r⟩) :
      Step M w (.ret i c r) (w.setThread i none)
  | abandon {w : World σ Op Ans Call Res} {i : Nat} {c : Call}
      {program : Program Op Ans Res}
      (hthread : w.threads i = some ⟨c, program⟩) :
      Step M w (.abandon i c) (w.setThread i none)

/-! ## The calls of a run -/

/-- The calls a run started all satisfy `C`. -/
def CallsIn (C : Call → Prop) (tr : List (Label Op Ans Call Res)) : Prop :=
  ∀ i c, .invoke i c ∈ tr → C c

theorem CallsIn.of_append_left {C : Call → Prop}
    {tr tr' : List (Label Op Ans Call Res)} (h : CallsIn C (tr ++ tr')) : CallsIn C tr :=
  fun i c hmem => h i c (List.mem_append_left _ hmem)

theorem CallsIn.of_append_right {C : Call → Prop}
    {tr tr' : List (Label Op Ans Call Res)} (h : CallsIn C (tr ++ tr')) : CallsIn C tr' :=
  fun i c hmem => h i c (List.mem_append_right _ hmem)

theorem CallsIn.last {C : Call → Prop} {tr : List (Label Op Ans Call Res)}
    {i : Nat} {c : Call} (h : CallsIn C (tr ++ [.invoke i c])) : C c :=
  h i c (by simp)

theorem CallsIn.cons {C : Call → Prop} {tr : List (Label Op Ans Call Res)} {i : Nat} {c : Call}
    (hc : C c) (h : CallsIn C tr) : CallsIn C (.invoke i c :: tr) := by
  intro j d hmem
  rcases List.mem_cons.mp hmem with heq | hmem
  · cases heq
    exact hc
  · exact h j d hmem

theorem CallsIn.append {C : Call → Prop} {tr tr' : List (Label Op Ans Call Res)}
    (h : CallsIn C tr) (h' : CallsIn C tr') : CallsIn C (tr ++ tr') :=
  fun i c hmem => (List.mem_append.mp hmem).elim (h i c) (h' i c)

/-- A stretch of a run in which no call starts. -/
abbrev NoCalls (tr : List (Label Op Ans Call Res)) : Prop := CallsIn (fun _ => False) tr

theorem NoCalls.callsIn {tr : List (Label Op Ans Call Res)} (h : NoCalls tr) (C : Call → Prop) :
    CallsIn C tr :=
  fun i c hmem => (h i c hmem).elim

/-! ## Calls run alone -/

/-- A free slot set and cleared again is as it was. -/
theorem World.setThread_none {w : World σ Op Ans Call Res} {i : Nat}
    (hfree : w.threads i = none) (t : Option (Thread Op Ans Call Res)) :
    (w.setThread i t).setThread i none = w := by
  obtain ⟨store, threads⟩ := w
  have hthreads : Function.update (Function.update threads i t) i none = threads := by
    rw [Function.update_idem, ← hfree, Function.update_eq_self]
  simp only [setThread, hthreads]

/-- What a thread that performs these operations and returns leaves in the history. -/
def soloLabels (i : Nat) (c : Call) (ops : List ((op : Op) × Ans op)) (r : Res) :
    List (Label Op Ans Call Res) :=
  ops.map (fun x => .exec i c x.1 x.2) ++ [.ret i c r]

theorem mem_soloLabels {i : Nat} {c : Call} {ops : List ((op : Op) × Ans op)} {r : Res}
    {l : Label Op Ans Call Res} : l ∈ soloLabels i c ops r ↔
      (∃ x ∈ ops, l = .exec i c x.1 x.2) ∨ l = .ret i c r := by
  simp [soloLabels, eq_comm]

theorem noCalls_soloLabels (i : Nat) (c : Call) (ops : List ((op : Op) × Ans op)) (r : Res) :
    NoCalls (soloLabels i c ops r) := by
  intro j d hmem
  simp [soloLabels] at hmem

/-- A thread that runs without interruption as far as the first of two programs. -/
theorem Run.of_traced_bind {α : Type} {M : Machine σ Op Ans Call Res} {i : Nat} {c : Call}
    {p : Program Op Ans α} {f : α → Program Op Ans Res} {ops : List ((op : Op) × Ans op)}
    {value : α} {s s' : σ} (htraced : Traced M.exec s p ops value s')
    {w : World σ Op Ans Call Res} (hstore : w.store = s) :
    Run (Step M) (w.setThread i (some ⟨c, p >>= f⟩)) (ops.map fun x => .exec i c x.1 x.2)
      ({ w with store := s' }.setThread i (some ⟨c, f value⟩)) := by
  induction htraced generalizing w with
  | done s value =>
      subst hstore
      exact .nil
  | @call s₀ s₁ s₂ op answer ops next value hexec hnext ih =>
      subst hstore
      refine Run.cons ?_ (ih (w := { w with store := s₁ }) rfl)
      let program : Program Op Ans Res := .call op fun answer => next answer >>= f
      have hthread : (w.setThread i (some ⟨c, program⟩)).threads i = some ⟨c, program⟩ := by simp
      have hstep : Step M (w.setThread i (some ⟨c, program⟩)) (.exec i c op answer)
          ({ w.setThread i (some ⟨c, program⟩) with store := s₁ }.setThread i
            (some ⟨c, next answer >>= f⟩)) := .exec hthread hexec
      have hworld : ({ w.setThread i (some ⟨c, program⟩) with store := s₁ }.setThread i
          (some ⟨c, next answer >>= f⟩) : World σ Op Ans Call Res) =
          ({ w with store := s₁ } : World σ Op Ans Call Res).setThread i
            (some ⟨c, next answer >>= f⟩) := by
        simp [World.setThread]
      rwa [hworld] at hstep

/-- A thread that runs to its end without interruption. -/
theorem Run.of_traced_thread {M : Machine σ Op Ans Call Res} {i : Nat} {c : Call}
    {p : Program Op Ans Res} {ops : List ((op : Op) × Ans op)} {r : Res} {s s' : σ}
    (htraced : Traced M.exec s p ops r s') {w : World σ Op Ans Call Res} (hstore : w.store = s)
    (hfree : w.threads i = none) :
    Run (Step M) (w.setThread i (some ⟨c, p⟩)) (soloLabels i c ops r) { w with store := s' } := by
  have hret : Step M ({ w with store := s' }.setThread i (some ⟨c, .done r⟩)) (.ret i c r)
      (({ w with store := s' }.setThread i (some ⟨c, .done r⟩)).setThread i none) :=
    .ret (by simp)
  rw [World.setThread_none (w := { w with store := s' }) hfree] at hret
  rw [← bind_pure p]
  exact .snoc (Run.of_traced_bind htraced hstore) hret

/-- A call run alone is a run of the pool. -/
theorem Run.of_traced {M : Machine σ Op Ans Call Res} (i : Nat) {c : Call}
    {ops : List ((op : Op) × Ans op)} {r : Res} {s' : σ} {w : World σ Op Ans Call Res}
    (hfree : w.threads i = none) (htraced : Traced M.exec w.store (M.body c) ops r s') :
    Run (Step M) w (.invoke i c :: soloLabels i c ops r) { w with store := s' } :=
  Run.cons (.invoke c hfree) (Run.of_traced_thread htraced rfl hfree)

theorem Run.of_eval {M : Machine σ Op Ans Call Res} (i : Nat) {c : Call} {r : Res} {s' : σ}
    {w : World σ Op Ans Call Res} (hfree : w.threads i = none)
    (heval : Eval M.exec w.store (M.body c) r s') :
    ∃ tr, Run (Step M) w (.invoke i c :: tr) { w with store := s' } ∧ NoCalls tr ∧
      Label.ret i c r ∈ tr := by
  obtain ⟨ops, htraced⟩ := heval.traced
  exact ⟨_, Run.of_traced i hfree htraced, noCalls_soloLabels i c ops r, by simp [soloLabels]⟩

/-! ## Operations in flight -/

/-- Every operation still ahead of a thread satisfies `P`. -/
def World.AllOps (P : Op → Prop) (w : World σ Op Ans Call Res) : Prop :=
  ∀ i t, w.threads i = some t → t.program.AllOps P

theorem Step.allOps {M : Machine σ Op Ans Call Res} {P : Op → Prop}
    {w w' : World σ Op Ans Call Res} {l : Label Op Ans Call Res}
    (hbody : ∀ i c, l = .invoke i c → (M.body c).AllOps P)
    (hw : w.AllOps P) (hstep : Step M w l w') : w'.AllOps P := by
  intro j t ht
  cases hstep with
  | invoke c hfree =>
      rcases World.setThread_origin ht with ⟨-, hset⟩ | ⟨-, hold⟩
      · obtain rfl := Option.some.inj hset
        exact hbody _ c rfl
      · exact hw j t hold
  | exec hthread hexec =>
      rcases World.setThread_origin ht with ⟨-, hset⟩ | ⟨-, hold⟩
      · obtain rfl := Option.some.inj hset
        exact (hw _ _ hthread).2 _
      · exact hw j t hold
  | ret hthread | abandon hthread =>
      rcases World.setThread_origin ht with ⟨-, hset⟩ | ⟨-, hold⟩
      · cases hset
      · exact hw j t hold

/-- Where every started body calls only operations in `P`, so does every thread
of every world reached from an idle one. -/
theorem Run.threads_allOps {M : Machine σ Op Ans Call Res} {P : Op → Prop}
    {C : Call → Prop} (hbody : ∀ c, C c → (M.body c).AllOps P) {s : σ}
    {tr : List (Label Op Ans Call Res)} {w : World σ Op Ans Call Res}
    (hcalls : CallsIn C tr) (h : Run (Step M) (World.idle s) tr w) : w.AllOps P := by
  induction h with
  | nil =>
      intro i t ht
      cases ht
  | snoc hrun hstep ih =>
      refine Step.allOps ?_ (ih hcalls.of_append_left) hstep
      rintro i c rfl
      exact hbody c hcalls.last

/-! ## One slot at most -/

section Slots

variable {α : Type}

/-- What slot `i` holds, when at most one slot holds anything. -/
def heldBy (holder : Option (Nat × α)) (i : Nat) : Option α :=
  holder.bind fun held => if i = held.1 then some held.2 else none

theorem heldBy_eq_some {holder : Option (Nat × α)} {i : Nat} {a : α} :
    heldBy holder i = some a ↔ holder = some (i, a) := by
  rcases holder with _ | ⟨j, b⟩
  · simp [heldBy]
  · simp only [heldBy, Option.bind_some, Option.ite_none_right_eq_some, Option.some.injEq,
      Prod.mk.injEq]
    exact and_congr_left fun _ => eq_comm

/-- What the slots hold after slot `i` was set, when no other slot held anything. -/
theorem heldBy_set {holder holder' : Option (Nat × α)} {i : Nat} {new : Option α}
    (hholder : ∀ held, holder = some held → held.1 = i)
    (hholder' : holder' = new.map fun a => (i, a)) (j : Nat) :
    (if j = i then new else heldBy holder j) = heldBy holder' j := by
  rw [heldBy, heldBy, hholder']
  split
  · subst j
    cases new <;> simp
  · rename_i hj
    have hold : (holder.bind fun held => if j = held.1 then some held.2 else none) = none := by
      cases holder with
      | none => rfl
      | some held => simp [hholder held rfl, hj]
    cases new <;> simp [hold, hj]

end Slots

/-! ## Phases of threads -/

section Phases

variable {Q : Type} (P : Call → Protocol Op Ans Q) (ends : Call → Q → Res → Prop)

/-- Each thread keeps to the protocol of its call from its phase `phase i` on. -/
def World.Typed (phase : Nat → Q) (w : World σ Op Ans Call Res) : Prop :=
  ∀ i t, w.threads i = some t → Follows (P t.call) (ends t.call) (phase i) t.program

theorem World.typed_idle (phase : Nat → Q) (s : σ) :
    (World.idle s : World σ Op Ans Call Res).Typed P ends phase := by
  intro i t ht
  cases ht

variable {P ends}

/-- Setting one slot keeps the phases of all others. -/
theorem World.Typed.setThread {phase : Nat → Q} {w : World σ Op Ans Call Res}
    (hw : w.Typed P ends phase) (i : Nat) (t : Thread Op Ans Call Res) (q : Q)
    (ht : Follows (P t.call) (ends t.call) q t.program) :
    (w.setThread i (some t)).Typed P ends (Function.update phase i q) := by
  intro j u hu
  rcases World.setThread_origin hu with ⟨rfl, hset⟩ | ⟨hji, hold⟩
  · obtain rfl := Option.some.inj hset
    simpa using ht
  · simpa [hji] using hw j u hold

theorem World.Typed.clearThread {phase : Nat → Q} {w : World σ Op Ans Call Res}
    (hw : w.Typed P ends phase) (i : Nat) :
    (w.setThread i none).Typed P ends phase := by
  intro j u hu
  rcases World.setThread_origin hu with ⟨-, hset⟩ | ⟨-, hold⟩
  · cases hset
  · exact hw j u hold

/-- The next operation of a thread is a move of its protocol, and the move's
answer decides the phase it is in afterwards. -/
theorem World.Typed.move {phase : Nat → Q} {w : World σ Op Ans Call Res}
    (hw : w.Typed P ends phase) {i : Nat} {c : Call} {op : Op}
    {next : Ans op → Program Op Ans Res} (ht : w.threads i = some ⟨c, .call op next⟩) :
    ∃ after, P c (phase i) op after ∧
      ∀ answer, Follows (P c) (ends c) (after answer) (next answer) :=
  hw i _ ht

/-- A returning thread ends in a phase its call may end in. -/
theorem World.Typed.returns {phase : Nat → Q} {w : World σ Op Ans Call Res}
    (hw : w.Typed P ends phase) {i : Nat} {c : Call} {r : Res}
    (ht : w.threads i = some ⟨c, .done r⟩) : ends c (phase i) r :=
  hw i _ ht

end Phases

end Foundation
