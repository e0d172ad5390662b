import ProjectsApi.Foundation.AtomicObject
import ProjectsApi.System.Histories

/-!
# The registry as an atomic object

What `create`, `get` and `delete` are for: a registry of projects with distinct name
keys, on which each call acts at once.  A name is free again as soon as its project is
deleted, and of all calls that delete one project only one returns normally.
-/

namespace ProjectsApi

open Foundation

variable [CaseTables]

/-- Projects by id, no two of which have the same name key. -/
abbrev ProjectRegistry : Type :=
  Registry Project.projectId (fun p : Project => nameKey p.name)

/-- What the calls do to the registry, and what they return. -/
inductive RegistrySpec : ProjectRegistry → Call → Result → ProjectRegistry → Prop where
  | created {R : ProjectRegistry} (p : Project) (hid : R.find? p.projectId = none)
      (hname : ¬ R.Taken (nameKey p.name)) :
      RegistrySpec R (.create p) (.ok (.project p)) (R.add p hname)
  | nameTaken {R : ProjectRegistry} (p : Project) (hname : R.Taken (nameKey p.name)) :
      RegistrySpec R (.create p) (.error (.projectNameTaken p.name)) R
  | got {R : ProjectRegistry} {projectId : String} {p : Project}
      (hfind : R.find? projectId = some p) :
      RegistrySpec R (.get projectId) (.ok (.project p)) R
  | notFound {R : ProjectRegistry} {projectId : String} (hfind : R.find? projectId = none) :
      RegistrySpec R (.get projectId) (.error (.projectNotFound projectId)) R
  | deleted {R : ProjectRegistry} {projectId ownerId : String} {p : Project}
      (hfind : R.find? projectId = some p) (howner : p.ownerId = ownerId) :
      RegistrySpec R (.delete projectId ownerId) (.ok .unit) (R.remove projectId)
  | notDeleted {R : ProjectRegistry} {projectId ownerId : String}
      (hnot : ∀ p, R.find? projectId = some p → p.ownerId ≠ ownerId) :
      RegistrySpec R (.delete projectId ownerId) (.error (.projectNotFound projectId)) R

/-- The calls of the registry. -/
def Call.OfRegistry : Call → Prop
  | .create _ => True
  | .get _ => True
  | .delete _ _ => True
  | _ => False

/-- The registry with calls in flight. -/
abbrev RegistryObject : Type := Atomic ProjectRegistry Call Result

/-- Runs of the registry. -/
abbrev RegistryRun : RegistryObject → List (AtomicLabel Call Result) → RegistryObject → Prop :=
  AtomicRun RegistrySpec

/-! ## One call -/

section Spec

variable {R R' : ProjectRegistry} {c : Call} {r : Result} {id : String}

/-- A record changes only by its own `create` or a `delete` that returns normally. -/
theorem RegistrySpec.find?_eq (h : RegistrySpec R c r R')
    (hcreate : ∀ p, c = .create p → p.projectId ≠ id)
    (hdelete : ∀ ownerId value, c = .delete id ownerId → r ≠ .ok value) :
    R'.find? id = R.find? id := by
  cases h with
  | created p hid hname => rw [Registry.find?_add, if_neg fun heq => hcreate p rfl heq.symm]
  | @deleted projectId ownerId p hfind howner =>
      have hne : id ≠ projectId := fun heq => hdelete ownerId .unit (heq ▸ rfl) rfl
      rw [Registry.find?_remove, if_neg hne]
  | nameTaken | got | notFound | notDeleted => rfl

/-- A stored project stays until it is deleted. -/
theorem RegistrySpec.kept (h : RegistrySpec R c r R') {p : Project}
    (hfind : R.find? id = some p)
    (hdelete : ∀ ownerId value, c = .delete id ownerId → r ≠ .ok value) :
    R'.find? id = some p := by
  rw [← hfind]
  cases h with
  | created q hid hname =>
      -- its id is new, so it is another project
      have hne : id ≠ q.projectId := fun heq => by simp [← heq, hfind] at hid
      rw [Registry.find?_add, if_neg hne]
  | nameTaken => rfl
  | got | notFound | notDeleted => rfl
  | @deleted projectId ownerId p hfind howner =>
      have hne : id ≠ projectId := fun heq => hdelete ownerId .unit (heq ▸ rfl) rfl
      rw [Registry.find?_remove, if_neg hne]

/-- A project in the registry was there before, or has just been created. -/
theorem RegistrySpec.origin (h : RegistrySpec R c r R') {p : Project}
    (hfind : R'.find? id = some p) : R.find? id = some p ∨ c = .create p := by
  cases h with
  | created q hid hname =>
      rw [Registry.find?_add] at hfind
      split at hfind
      · obtain rfl := Option.some.inj hfind
        exact Or.inr rfl
      · exact Or.inl hfind
  | deleted hfound howner =>
      rw [Registry.find?_remove] at hfind
      split at hfind
      · cases hfind
      · exact Or.inl hfind
  | nameTaken | got | notFound | notDeleted => exact Or.inl hfind

/-- The name of a deleted project is free. -/
theorem RegistrySpec.name_free {ownerId : String} {value : Value}
    (h : RegistrySpec R (.delete id ownerId) (.ok value) R') :
    ∃ p, R.find? id = some p ∧ p.ownerId = ownerId ∧ R' = R.remove id ∧
      ¬ R'.Taken (nameKey p.name) := by
  cases h with
  | deleted hfind howner =>
      exact ⟨_, hfind, howner, rfl, Registry.not_taken_remove hfind⟩

end Spec

/-! ## Deletions -/

/-- The ids of the projects that were to be created. -/
def requestedIds (h : List (Event Call Result)) : List String :=
  h.filterMap fun
    | .invoke _ (.create p) => some p.projectId
    | _ => none

/-- A `delete` of the project that returns normally. -/
def isDeletion (id : String) : Event Call Result → Bool
  | .ret _ (.delete projectId _) (.ok _) => projectId == id
  | _ => false

/-- The calls that deleted the project, by their returns. -/
def deletions (h : List (Event Call Result)) (id : String) : List (Event Call Result) :=
  h.filter (isDeletion id)

omit [CaseTables] in
theorem createdIds_eq_requestedIds (tr : List SystemLabel) :
    createdIds tr = requestedIds (tr.filterMap Label.event?) := by
  rw [createdIds, requestedIds, List.filterMap_filterMap]
  congr 1
  funext l
  cases l with
  | invoke i c => cases c <;> rfl
  | exec | ret | abandon => rfl

/-- Where the project of an id is: not asked for, about to be created by call `i`, in the
registry, or out of it for good.  A `winner` has deleted it and not returned yet. -/
inductive Tenure where
  | unborn
  | pending (i : Nat)
  | stored
  | gone (winner : Option Nat)
  deriving DecidableEq

/-- The run and the registry agree on where the project is. -/
structure InTenure (tr : List (AtomicLabel Call Result)) (a : RegistryObject) (id : String)
    (t : Tenure) : Prop where
  requested : t ≠ .unborn → id ∈ requestedIds (events tr)
  stored : (a.state.find? id).isSome = true ↔ t = .stored
  waiting : ∀ i p, a.tickets i = some (.waiting (.create p)) → p.projectId = id → t = .pending i
  winner : ∀ i ownerId value, a.tickets i = some (.finished (.delete id ownerId) (.ok value)) →
    t = .gone (some i)
  deletions : (deletions (events tr) id).length ≤ if t = .gone none then 1 else 0

section Tenure

variable {tr : List (AtomicLabel Call Result)} {a a' : RegistryObject} {id : String} {t : Tenure}
  {l : AtomicLabel Call Result}

theorem InTenure.initial (id : String) : InTenure [] (Atomic.idle Registry.empty) id .unborn where
  requested h := absurd rfl h
  stored := by simp [Atomic.idle]
  waiting i p h := by cases h
  winner i ownerId value h := by cases h
  deletions := Nat.zero_le _

omit [CaseTables] in
theorem requestedIds_append (h h' : List (Event Call Result)) :
    requestedIds (h ++ h') = requestedIds h ++ requestedIds h' :=
  List.filterMap_append

omit [CaseTables] in
theorem deletions_append (h h' : List (Event Call Result)) (id : String) :
    deletions (h ++ h') id = deletions h id ++ deletions h' id :=
  List.filter_append ..

omit [CaseTables] in
/-- A step that the clients do not see as a deletion of the project. -/
theorem deletions_events_snoc (hl : ∀ e, l.event? = some e → isDeletion id e = false) :
    deletions (events (tr ++ [l])) id = deletions (events tr) id := by
  rw [events, List.filterMap_append, deletions_append]
  cases l with
  | commit i c r => simp [deletions, AtomicLabel.event?]
  | event e => simp [deletions, AtomicLabel.event?, hl e rfl]

omit [CaseTables] in
theorem mem_requestedIds_snoc (h : id ∈ requestedIds (events tr)) :
    id ∈ requestedIds (events (tr ++ [l])) := by
  rw [events, List.filterMap_append, requestedIds_append]
  exact List.mem_append_left _ h

/-- A step that leaves the project where it is. -/
theorem InTenure.stay (h : InTenure tr a id t)
    (hl : ∀ e, l.event? = some e → isDeletion id e = false)
    (hstate : a'.state.find? id = a.state.find? id)
    (hwaiting : ∀ i p, a'.tickets i = some (.waiting (.create p)) → p.projectId = id →
      a.tickets i = some (.waiting (.create p)))
    (hwinner : ∀ i ownerId value,
      a'.tickets i = some (.finished (.delete id ownerId) (.ok value)) →
      a.tickets i = some (.finished (.delete id ownerId) (.ok value))) :
    InTenure (tr ++ [l]) a' id t where
  requested ht := mem_requestedIds_snoc (h.requested ht)
  stored := by rw [hstate, h.stored]
  waiting i p hticket hid := h.waiting i p (hwaiting i p hticket hid) hid
  winner i ownerId value hticket := h.winner i ownerId value (hwinner i ownerId value hticket)
  deletions := by
    rw [deletions_events_snoc hl]
    exact h.deletions

/-- A call that starts. -/
theorem InTenure.invoke (h : InTenure tr a id t) {i : Nat} {c : Call}
    (hfresh : (requestedIds (events (tr ++ [.event (.invoke i c)]))).Nodup) :
    ∃ t', InTenure (tr ++ [.event (.invoke i c)]) (a.setTicket i (some (.waiting c))) id t' := by
  have hwinner : ∀ j ownerId value, (a.setTicket i (some (.waiting c))).tickets j =
      some (.finished (.delete id ownerId) (.ok value)) →
      a.tickets j = some (.finished (.delete id ownerId) (.ok value)) := by
    intro j ownerId value hticket
    rcases Atomic.setTicket_origin hticket with ⟨-, hset⟩ | ⟨-, hold⟩
    · cases hset
    · exact hold
  have hl : ∀ e, (AtomicLabel.event (.invoke i c) : AtomicLabel Call Result).event? = some e →
      isDeletion id e = false := by
    rintro e ⟨⟩
    rfl
  by_cases hc : ∃ p, c = .create p ∧ p.projectId = id
  · obtain ⟨p, rfl, hid⟩ := hc
    -- the id is new
    obtain rfl : t = .unborn := by
      by_contra ht
      rw [events, List.filterMap_append, requestedIds_append, List.nodup_append] at hfresh
      refine hfresh.2.2 _ (h.requested ht) _ ?_ rfl
      simp [requestedIds, AtomicLabel.event?, hid]
    refine ⟨.pending i, ?_, ?_, ?_, ?_, ?_⟩
    · intro _
      rw [events, List.filterMap_append, requestedIds_append]
      exact List.mem_append_right _ (by simp [requestedIds, AtomicLabel.event?, hid])
    · have hnone := h.stored
      simp only [Atomic.setTicket_state, reduceCtorEq, iff_false] at hnone ⊢
      exact hnone
    · intro j q hticket hq
      rcases Atomic.setTicket_origin hticket with ⟨hj, -⟩ | ⟨-, hold⟩
      · rw [hj]
      · cases h.waiting j q hold hq
    · intro j ownerId value hticket
      cases h.winner j ownerId value (hwinner j ownerId value hticket)
    · rw [deletions_events_snoc hl]
      exact h.deletions
  · refine ⟨t, h.stay hl rfl (fun j p hticket hid => ?_) hwinner⟩
    rcases Atomic.setTicket_origin hticket with ⟨-, hset⟩ | ⟨-, hold⟩
    · obtain rfl := Ticket.waiting.inj (Option.some.inj hset)
      exact absurd ⟨p, rfl, hid⟩ hc
    · exact hold

omit [CaseTables] in
/-- The clients do not see the instant of a call. -/
theorem isDeletion_commit (i : Nat) (c : Call) (r : Result) :
    ∀ e, (AtomicLabel.commit i c r).event? = some e → isDeletion id e = false := by
  intro e he
  cases he

/-- The instant of a `create` of the project. -/
theorem InTenure.commit_create {i : Nat} {p : Project} {r : Result} {R' : ProjectRegistry}
    (h : InTenure tr a p.projectId t) (hticket : a.tickets i = some (.waiting (.create p)))
    (hspec : RegistrySpec a.state (.create p) r R') :
    ∃ t', InTenure (tr ++ [.commit i (.create p) r])
      ({ a with state := R' }.setTicket i (some (.finished (.create p) r))) p.projectId t' := by
  obtain rfl := h.waiting i p hticket rfl
  -- the registry decides the new place, and no other call is concerned
  have hplace : ∀ t', ((R'.find? p.projectId).isSome = true ↔ t' = .stored) →
      InTenure (tr ++ [.commit i (.create p) r])
        ({ a with state := R' }.setTicket i (some (.finished (.create p) r))) p.projectId t' := by
    intro t' hstored
    refine ⟨fun _ => mem_requestedIds_snoc (h.requested (by simp)), hstored, ?_, ?_, ?_⟩
    · intro j q hafter hq
      rcases Atomic.setTicket_origin hafter with ⟨-, hset⟩ | ⟨hne, hold⟩
      · cases hset
      · exact absurd (Tenure.pending.inj (h.waiting j q hold hq)).symm hne
    · intro j ownerId value hafter
      rcases Atomic.setTicket_origin hafter with ⟨-, hset⟩ | ⟨-, hold⟩
      · cases hset
      · cases h.winner j ownerId value hold
    · rw [deletions_events_snoc (isDeletion_commit i _ _)]
      exact h.deletions.trans (by simp)
  cases hspec with
  | created p hnew hname => exact ⟨.stored, hplace _ (by simp [Registry.find?_add])⟩
  -- a refused id is never stored
  | nameTaken p hname =>
      refine ⟨.gone none, hplace _ ?_⟩
      have hnone := h.stored
      simp only [reduceCtorEq, iff_false] at hnone ⊢
      exact hnone

/-- The instant of a `delete` that removes the project. -/
theorem InTenure.commit_delete (h : InTenure tr a id t) {i : Nat} {ownerId : String}
    {value : Value} {R' : ProjectRegistry}
    (hspec : RegistrySpec a.state (.delete id ownerId) (.ok value) R') :
    InTenure (tr ++ [.commit i (.delete id ownerId) (.ok value)])
      ({ a with state := R' }.setTicket i (some (.finished (.delete id ownerId) (.ok value))))
      id (.gone (some i)) := by
  obtain ⟨p, hfind, -, rfl, -⟩ := hspec.name_free
  obtain rfl := h.stored.mp (by simp [hfind])
  refine ⟨fun _ => mem_requestedIds_snoc (h.requested (by simp)), ?_, ?_, ?_, ?_⟩
  · simp [Registry.find?_remove]
  · intro j q hafter hq
    rcases Atomic.setTicket_origin hafter with ⟨-, hset⟩ | ⟨-, hold⟩
    · cases hset
    · cases h.waiting j q hold hq
  · intro j ownerId' value' hafter
    rcases Atomic.setTicket_origin hafter with ⟨rfl, -⟩ | ⟨-, hold⟩
    · rfl
    · cases h.winner j ownerId' value' hold
  · rw [deletions_events_snoc (isDeletion_commit i _ _)]
    exact h.deletions

/-- The instant of a call. -/
theorem InTenure.commit (h : InTenure tr a id t) {i : Nat} {c : Call} {r : Result}
    {R' : ProjectRegistry} (hticket : a.tickets i = some (.waiting c))
    (hspec : RegistrySpec a.state c r R') :
    ∃ t', InTenure (tr ++ [.commit i c r])
      ({ a with state := R' }.setTicket i (some (.finished c r))) id t' := by
  by_cases hcreate : ∃ p, c = .create p ∧ p.projectId = id
  · obtain ⟨p, rfl, rfl⟩ := hcreate
    exact h.commit_create hticket hspec
  · by_cases hdelete : ∃ ownerId value, c = .delete id ownerId ∧ r = .ok value
    · obtain ⟨ownerId, value, rfl, rfl⟩ := hdelete
      exact ⟨_, h.commit_delete hspec⟩
    · -- any other call leaves the project where it is
      refine ⟨t, h.stay (isDeletion_commit i c r) ?_ ?_ ?_⟩
      · exact hspec.find?_eq (fun p hc hid => hcreate ⟨p, hc, hid⟩)
          fun ownerId value hc hr => hdelete ⟨ownerId, value, hc, hr⟩
      · intro j q hafter _
        rcases Atomic.setTicket_origin hafter with ⟨-, hset⟩ | ⟨-, hold⟩
        · cases hset
        · exact hold
      · intro j ownerId value hafter
        rcases Atomic.setTicket_origin hafter with ⟨-, hset⟩ | ⟨-, hold⟩
        · obtain ⟨hc, hr⟩ := Ticket.finished.inj (Option.some.inj hset)
          exact absurd ⟨ownerId, value, hc, hr⟩ hdelete
        · exact hold

/-- A call that leaves, unless it has deleted the project. -/
theorem InTenure.leave (h : InTenure tr a id t) (i : Nat)
    (hl : ∀ e, l.event? = some e → isDeletion id e = false) :
    InTenure (tr ++ [l]) (a.setTicket i none) id t := by
  have hold : ∀ j ticket, (a.setTicket i none).tickets j = some ticket →
      a.tickets j = some ticket := by
    intro j ticket hafter
    rcases Atomic.setTicket_origin hafter with ⟨-, hset⟩ | ⟨-, hold⟩
    · cases hset
    · exact hold
  exact h.stay hl rfl (fun j p hticket _ => hold j _ hticket)
    fun j ownerId value hticket => hold j _ hticket

theorem InTenure.ret (h : InTenure tr a id t) {i : Nat} {c : Call} {r : Result}
    (hticket : a.tickets i = some (.finished c r)) :
    ∃ t', InTenure (tr ++ [.event (.ret i c r)]) (a.setTicket i none) id t' := by
  -- only a normal return of a `delete` is counted
  by_cases hdelete : ∃ ownerId value, c = .delete id ownerId ∧ r = .ok value
  · obtain ⟨ownerId, value, rfl, rfl⟩ := hdelete
    obtain rfl := h.winner i ownerId value hticket
    refine ⟨.gone none, fun _ => mem_requestedIds_snoc (h.requested (by simp)), ?_, ?_, ?_, ?_⟩
    · have hnone := h.stored
      simp only [Atomic.setTicket_state, reduceCtorEq, iff_false] at hnone ⊢
      exact hnone
    · intro j q hafter hq
      rcases Atomic.setTicket_origin hafter with ⟨-, hset⟩ | ⟨-, hold⟩
      · cases hset
      · cases h.waiting j q hold hq
    · intro j ownerId' value' hafter
      rcases Atomic.setTicket_origin hafter with ⟨-, hset⟩ | ⟨hne, hold⟩
      · cases hset
      · -- two winners would be one
        have hij := Option.some.inj (Tenure.gone.inj (h.winner j ownerId' value' hold))
        exact absurd hij.symm hne
    · have hbefore := h.deletions
      have hnow : (ProjectsApi.deletions [.ret i (.delete id ownerId) (.ok value)] id).length =
          1 := by simp [ProjectsApi.deletions, isDeletion]
      rw [if_neg (by simp)] at hbefore
      rw [events, List.filterMap_append, deletions_append, List.length_append, if_pos rfl]
      change (ProjectsApi.deletions (events tr) id).length +
        (ProjectsApi.deletions [.ret i (.delete id ownerId) (.ok value)] id).length ≤ 1
      omega
  · refine ⟨t, h.leave i fun e he => ?_⟩
    obtain rfl := Option.some.inj he
    rw [isDeletion.eq_def]
    split
    · rename_i heq
      obtain ⟨rfl, rfl, rfl⟩ := Event.ret.inj heq
      rw [beq_eq_false_iff_ne]
      exact fun hid => hdelete ⟨_, _, by rw [hid], rfl⟩
    · rfl

/-- One step leads each project to a place. -/
theorem InTenure.step (h : InTenure tr a id t)
    (hfresh : (requestedIds (events (tr ++ [l]))).Nodup) (hstep : AtomicStep RegistrySpec a l a') :
    ∃ t', InTenure (tr ++ [l]) a' id t' := by
  cases hstep with
  | invoke c hfree => exact h.invoke hfresh
  | commit hticket hspec => exact h.commit hticket hspec
  | ret hticket => exact h.ret hticket
  | @abandon i ticket hticket =>
      refine ⟨t, h.leave i fun e he => ?_⟩
      obtain rfl := Option.some.inj he
      rfl

end Tenure

/-! ## Runs -/

section Runs

variable {tr : List (AtomicLabel Call Result)} {a a' : RegistryObject} {id : String}

/-- Of all calls that delete one project, at most one returns normally. -/
theorem RegistryRun.deletions_length_le_one
    (hrun : RegistryRun (Atomic.idle Registry.empty) tr a)
    (hfresh : (requestedIds (events tr)).Nodup) : (deletions (events tr) id).length ≤ 1 := by
  have htenure : ∃ t, InTenure tr a id t := by
    induction hrun with
    | nil => exact ⟨_, .initial id⟩
    | snoc hrun hstep ih =>
        have hbefore := hfresh
        rw [events, List.filterMap_append, requestedIds_append, List.nodup_append] at hbefore
        obtain ⟨t, h⟩ := ih hbefore.1
        exact h.step hfresh hstep
  obtain ⟨t, h⟩ := htenure
  refine h.deletions.trans ?_
  split <;> simp

/-- A project that is gone has been deleted. -/
theorem RegistryRun.deletion_of_gone (hrun : RegistryRun a tr a') {p : Project}
    (hfind : a.state.find? id = some p) (hgone : a'.state.find? id ≠ some p) :
    ∃ i ownerId value, .commit i (.delete id ownerId) (.ok value) ∈ tr := by
  induction hrun with
  | nil => exact absurd hfind hgone
  | @snoc tr mid next l hrun hstep ih =>
      by_cases hmid : mid.state.find? id = some p
      · -- the last step has removed it
        cases hstep with
        | @commit i c r R' hticket hspec =>
            by_contra hnone
            refine hgone (hspec.kept hmid fun ownerId value hc hr => hnone ?_)
            exact ⟨i, ownerId, value, by simp [hc, hr]⟩
        | invoke | ret | abandon => exact absurd hmid hgone
      · obtain ⟨i, ownerId, value, hmem⟩ := ih hmid
        exact ⟨i, ownerId, value, List.mem_append_left _ hmem⟩

/-- If a `delete` by the owner has returned since the project was stored, then some
`delete` has removed the project. -/
theorem RegistryRun.deletion_of_ret (hrun : RegistryRun a tr a') {p : Project}
    (hfind : a.state.find? id = some p) {i : Nat} {r : Result}
    (hfree : a.tickets i = none) (hret : .event (.ret i (.delete id p.ownerId) r) ∈ tr) :
    ∃ j ownerId value, .commit j (.delete id ownerId) (.ok value) ∈ tr := by
  obtain hcommit | hold := AtomicRun.commit_of_ret hrun hret
  swap
  · rw [hfree] at hold
    cases hold
  obtain ⟨before, after, rfl⟩ := List.append_of_mem hcommit
  obtain ⟨b, hbefore, hrest⟩ := Run.split hrun
  obtain ⟨b', hstep, -⟩ := Run.cons_inv hrest
  cases hstep with
  | commit hticket hspec =>
      cases hspec with
      | deleted hfound howner => exact ⟨i, p.ownerId, .unit, by simp⟩
      | notDeleted hnot =>
          -- at its instant the project was gone already
          obtain ⟨j, ownerId, value, hmem⟩ := RegistryRun.deletion_of_gone hbefore hfind
            fun hstill => hnot p hstill rfl
          exact ⟨j, ownerId, value, List.mem_append_left _ hmem⟩

end Runs

end ProjectsApi
