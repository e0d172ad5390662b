import ProjectsApi.Foundation.ThreadPool

/-!
# Atomic objects

An atomic object is given by what one call does to its state: `spec s c r s'` says
that the call `c` may return `r` and lead from `s` to `s'`.  Clients call it
concurrently, and every call takes effect at a single instant between its start and
its end.  A run of an implementation refines the object when some run of the object
has the same history of calls starting, returning and being given up.
-/

namespace Foundation

variable {State Call Res : Type*}

/-- What the clients see of a run. -/
inductive Event (Call Res : Type*) where
  | invoke (i : Nat) (c : Call)
  | ret (i : Nat) (c : Call) (r : Res)
  | abandon (i : Nat) (c : Call)

/-- What the clients see of a step of a pool. -/
def Label.event? {Op : Type} {Ans : Op → Type} {Call Res : Type} :
    Label Op Ans Call Res → Option (Event Call Res)
  | invoke i c => some (.invoke i c)
  | exec _ _ _ _ => none
  | ret i c r => some (.ret i c r)
  | abandon i c => some (.abandon i c)

theorem Label.eq_abandon_of_event? {Op : Type} {Ans : Op → Type} {Call Res : Type} {i : Nat}
    {c : Call} {l : Label Op Ans Call Res} (h : l.event? = some (.abandon i c)) :
    l = .abandon i c := by
  cases l <;> cases h
  rfl

/-- A call in flight, before its instant and after it. -/
inductive Ticket (Call Res : Type*) where
  | waiting (c : Call)
  | finished (c : Call) (r : Res)

/-- The call of a ticket. -/
def Ticket.call : Ticket Call Res → Call
  | waiting c => c
  | finished c _ => c

/-- The state of the object and the calls in flight. -/
@[ext] structure Atomic (State Call Res : Type*) where
  state : State
  tickets : Nat → Option (Ticket Call Res)

/-- No call in flight. -/
def Atomic.idle (s : State) : Atomic State Call Res :=
  ⟨s, fun _ => none⟩

/-- Replace the call in slot `i`. -/
def Atomic.setTicket (a : Atomic State Call Res) (i : Nat) (t : Option (Ticket Call Res)) :
    Atomic State Call Res :=
  { a with tickets := Function.update a.tickets i t }

@[simp] theorem Atomic.setTicket_state (a : Atomic State Call Res) (i : Nat)
    (t : Option (Ticket Call Res)) : (a.setTicket i t).state = a.state := rfl

theorem Atomic.setTicket_tickets (a : Atomic State Call Res) (i j : Nat)
    (t : Option (Ticket Call Res)) :
    (a.setTicket i t).tickets j = if j = i then t else a.tickets j :=
  Function.update_apply _ _ _ _

/-- A ticket found after slot `i` was set is the new one of that slot, or was there before. -/
theorem Atomic.setTicket_origin {a : Atomic State Call Res} {i j : Nat}
    {t : Option (Ticket Call Res)} {found : Ticket Call Res}
    (h : (a.setTicket i t).tickets j = some found) :
    j = i ∧ t = some found ∨ j ≠ i ∧ a.tickets j = some found := by
  rw [setTicket_tickets] at h
  split at h
  · exact Or.inl ⟨‹_›, h⟩
  · exact Or.inr ⟨‹_›, h⟩

theorem Atomic.setTicket_self {a : Atomic State Call Res} {i : Nat}
    {t : Option (Ticket Call Res)} (h : a.tickets i = t) : a.setTicket i t = a := by
  subst h
  rw [setTicket, Function.update_eq_self]

/-- The labels of the object: what the clients see, and the instants of the calls. -/
inductive AtomicLabel (Call Res : Type*) where
  | event (e : Event Call Res)
  | commit (i : Nat) (c : Call) (r : Res)

/-- What the clients see of a label. -/
def AtomicLabel.event? : AtomicLabel Call Res → Option (Event Call Res)
  | event e => some e
  | commit _ _ _ => none

/-- One step of the object. -/
inductive AtomicStep (spec : State → Call → Res → State → Prop) :
    Atomic State Call Res → AtomicLabel Call Res → Atomic State Call Res → Prop where
  | invoke {a : Atomic State Call Res} {i : Nat} (c : Call) (hfree : a.tickets i = none) :
      AtomicStep spec a (.event (.invoke i c)) (a.setTicket i (some (.waiting c)))
  | commit {a : Atomic State Call Res} {i : Nat} {c : Call} {r : Res} {s' : State}
      (hticket : a.tickets i = some (.waiting c)) (hspec : spec a.state c r s') :
      AtomicStep spec a (.commit i c r)
        ({ a with state := s' }.setTicket i (some (.finished c r)))
  | ret {a : Atomic State Call Res} {i : Nat} {c : Call} {r : Res}
      (hticket : a.tickets i = some (.finished c r)) :
      AtomicStep spec a (.event (.ret i c r)) (a.setTicket i none)
  | abandon {a : Atomic State Call Res} {i : Nat} {t : Ticket Call Res}
      (hticket : a.tickets i = some t) :
      AtomicStep spec a (.event (.abandon i t.call)) (a.setTicket i none)

/-- What the clients see of a run. -/
abbrev events (tr : List (AtomicLabel Call Res)) : List (Event Call Res) :=
  tr.filterMap AtomicLabel.event?

theorem mem_events {tr : List (AtomicLabel Call Res)} {e : Event Call Res} :
    e ∈ events tr ↔ .event e ∈ tr := by
  rw [List.mem_filterMap]
  constructor
  · intro hmem
    obtain ⟨l, hl, he⟩ := hmem
    cases l with
    | event e' => rwa [← Option.some.inj he]
    | commit => cases he
  · exact fun hmem => ⟨_, hmem, rfl⟩

/-- Runs of the object. -/
abbrev AtomicRun (spec : State → Call → Res → State → Prop) :
    Atomic State Call Res → List (AtomicLabel Call Res) → Atomic State Call Res → Prop :=
  Run (AtomicStep spec)

namespace AtomicRun

variable {spec : State → Call → Res → State → Prop} {a a' : Atomic State Call Res}
  {tr : List (AtomicLabel Call Res)} {i : Nat} {c : Call} {r : Res}

/-- A call in flight after its instant has had it in the run, or before. -/
theorem commit_of_finished (hrun : AtomicRun spec a tr a')
    (hticket : a'.tickets i = some (.finished c r)) :
    .commit i c r ∈ tr ∨ a.tickets i = some (.finished c r) := by
  induction hrun with
  | nil => exact Or.inr hticket
  | @snoc tr mid next l hrun hstep ih =>
      -- unless the step is the instant of the call, its ticket is older
      have hold : mid.tickets i = some (.finished c r) ∨ l = .commit i c r := by
        cases hstep with
        | invoke c' hfree | ret hfinished | abandon hfinished =>
            rcases Atomic.setTicket_origin hticket with ⟨-, hset⟩ | ⟨-, hold⟩
            · cases hset
            · exact Or.inl hold
        | commit hwaiting hspec =>
            rcases Atomic.setTicket_origin hticket with ⟨rfl, hset⟩ | ⟨-, hold⟩
            · obtain ⟨rfl, rfl⟩ := Ticket.finished.inj (Option.some.inj hset)
              exact Or.inr rfl
            · exact Or.inl hold
      rcases hold with hold | rfl
      · exact (ih hold).imp_left (List.mem_append_left _)
      · exact Or.inl (List.mem_append_right _ (List.mem_singleton_self _))

/-- A call that returns has had its instant. -/
theorem commit_of_ret (hrun : AtomicRun spec a tr a') (hret : .event (.ret i c r) ∈ tr) :
    .commit i c r ∈ tr ∨ a.tickets i = some (.finished c r) := by
  induction hrun with
  | nil => cases hret
  | snoc hrun hstep ih =>
      refine Or.imp_left (List.mem_append_left _) ?_
      rcases List.mem_append.mp hret with hbefore | hlast
      · exact ih hbefore
      · obtain rfl := List.mem_singleton.mp hlast
        cases hstep with
        | ret hticket => exact commit_of_finished hrun hticket

/-- A call that has had its instant returns, is given up or is still in flight. -/
theorem ret_of_commit (hrun : AtomicRun spec a tr a') (hcommit : .commit i c r ∈ tr) :
    .event (.ret i c r) ∈ tr ∨ .event (.abandon i c) ∈ tr ∨
      a'.tickets i = some (.finished c r) := by
  induction hrun with
  | nil => cases hcommit
  | @snoc tr mid next l hrun hstep ih =>
      have hlast : l ∈ tr ++ [l] := List.mem_append_right _ (List.mem_singleton_self _)
      rcases List.mem_append.mp hcommit with hbefore | hnow
      · obtain hret | habandon | hticket := ih hbefore
        · exact Or.inl (List.mem_append_left _ hret)
        · exact Or.inr (Or.inl (List.mem_append_left _ habandon))
        · -- the step lets the call leave or keeps its ticket
          cases hstep with
          | @invoke j c' hfree =>
              have hne : i ≠ j := fun h => by simp [h ▸ hticket] at hfree
              rw [Atomic.setTicket_tickets, if_neg hne]
              exact Or.inr (Or.inr hticket)
          | @commit j c' r' s' hwaiting hspec =>
              have hne : i ≠ j := fun h => by simp [h ▸ hticket] at hwaiting
              rw [Atomic.setTicket_tickets, if_neg hne]
              exact Or.inr (Or.inr hticket)
          | @ret j c' r' hfinished =>
              by_cases hij : i = j
              · subst hij
                obtain ⟨rfl, rfl⟩ :=
                  Ticket.finished.inj (Option.some.inj (hticket.symm.trans hfinished))
                exact Or.inl hlast
              · rw [Atomic.setTicket_tickets, if_neg hij]
                exact Or.inr (Or.inr hticket)
          | @abandon j t hany =>
              by_cases hij : i = j
              · subst hij
                obtain rfl := Option.some.inj (hticket.symm.trans hany)
                exact Or.inr (Or.inl hlast)
              · rw [Atomic.setTicket_tickets, if_neg hij]
                exact Or.inr (Or.inr hticket)
      -- the last step is the instant itself
      · obtain rfl := List.mem_singleton.mp hnow
        cases hstep with
        | commit hwaiting hspec =>
            rw [Atomic.setTicket_tickets, if_pos rfl]
            exact Or.inr (Or.inr rfl)

end AtomicRun

end Foundation
