import ProjectsApi.System.Object
import ProjectsApi.System.Sequential

/-!
# The two-item store refines the registry

Any number of clients create, read and delete projects, and a `delete` is two steps.
Still every call ends as if it had acted on the registry at one instant.  For a `create`
this is its transaction, for a `get` its read; a `delete` acts at its transaction, unless
its read has found no project of its owner.
-/

namespace ProjectsApi

open Foundation Dynamo Program

section Store

variable [CaseTables]

/-- The table holds exactly these projects. -/
def ProjectRegistry.StoredIn (A : ProjectRegistry) (t : Table) : Prop :=
  ∃ R : Projects, Represents R t ∧ ∀ id, R.find? id = (A.find? id).map fun p => { project := p }

section Stored

variable {A : ProjectRegistry} {R : Projects}
  (h : ∀ id, R.find? id = (A.find? id).map fun p => { project := p })

include h

theorem taken_iff (name : String) : R.Taken name ↔ A.Taken name := by
  constructor
  · intro htaken
    obtain ⟨id, e, he, hname⟩ := htaken
    rw [h, Option.map_eq_some_iff] at he
    obtain ⟨p, hp, rfl⟩ := he
    exact ⟨id, p, hp, hname⟩
  · intro htaken
    obtain ⟨id, p, hp, hname⟩ := htaken
    exact ⟨id, { project := p }, by rw [h, hp]; rfl, hname⟩

theorem ownedBy_iff (id ownerId : String) :
    R.OwnedBy id ownerId ↔ ∃ p, A.find? id = some p ∧ p.ownerId = ownerId := by
  constructor
  · intro howned
    obtain ⟨e, he, howner⟩ := howned
    rw [h, Option.map_eq_some_iff] at he
    obtain ⟨p, hp, rfl⟩ := he
    exact ⟨p, hp, howner⟩
  · intro howned
    obtain ⟨p, hp, howner⟩ := howned
    exact ⟨{ project := p }, by rw [h, hp]; rfl, howner⟩

end Stored

variable [DatetimeParser]

/-! ## The instants -/

section Instants

variable {svc : Service} {A : ProjectRegistry} {t t' : Table}

omit [DatetimeParser] in
/-- The transaction of a `create` of a new id is its instant. -/
theorem ProjectRegistry.StoredIn.create (h : A.StoredIn t) (hsvc : svc.Faultless) {p : Project}
    (hid : A.find? p.projectId = none) {answer : Except ClientError Unit}
    (hexec : svc.Exec t (.transactWriteItems (createActions p)) answer t') :
    ∃ A', RegistrySpec A (.create p)
      ((ProjectRepository.createValue p answer).map Value.project) A' ∧ A'.StoredIn t' := by
  obtain ⟨R, hrep, hfind⟩ := h
  obtain ⟨hvalue, hrep'⟩ := hrep.exec_createValue hsvc hexec
  rw [hvalue]
  by_cases htaken : A.Taken (nameKey p.name)
  · rw [Projects.createResult_of_taken ((taken_iff hfind _).mpr htaken)] at hrep' ⊢
    exact ⟨A, .nameTaken p htaken, R, hrep', hfind⟩
  · have hname : ¬ R.Taken (nameKey p.name) := fun hR => htaken ((taken_iff hfind _).mp hR)
    rw [Projects.createResult_of_free hname (by rw [hfind, hid]; rfl)] at hrep' ⊢
    refine ⟨A.add p htaken, .created p hid htaken, _, hrep', fun id => ?_⟩
    rw [Registry.find?_add, Registry.find?_add, hfind]
    split <;> rfl

omit [DatetimeParser] in
/-- The transaction of a `delete` that has read the project's name is its instant. -/
theorem ProjectRegistry.StoredIn.delete (h : A.StoredIn t) (hsvc : svc.Faultless)
    {projectId ownerId name : String}
    (hname : ∀ p, A.find? projectId = some p → p.name = name)
    {answer : Except ClientError Unit}
    (hexec : svc.Exec t (.transactWriteItems (deleteActions projectId name ownerId))
      answer t') :
    ∃ r A', ProjectRepository.deleteNext projectId name answer = .done r ∧
      RegistrySpec A (.delete projectId ownerId) (r.map fun _ => Value.unit) A' ∧
      A'.StoredIn t' := by
  obtain ⟨R, hrep, hfind⟩ := h
  have hnamed : R.OwnedBy projectId ownerId → R.Named projectId name := by
    intro howned
    obtain ⟨p, hp, -⟩ := (ownedBy_iff hfind _ _).mp howned
    exact ⟨{ project := p }, by rw [hfind, hp]; rfl, by rw [hname p hp]⟩
  obtain ⟨hnext, hrep'⟩ := hrep.exec_deleteNext hsvc hnamed hexec
  rw [Projects.deleteResult] at hnext hrep'
  by_cases howned : R.OwnedBy projectId ownerId
  · rw [if_pos howned] at hnext hrep'
    obtain ⟨p, hp, howner⟩ := (ownedBy_iff hfind _ _).mp howned
    refine ⟨_, _, hnext, .deleted hp howner, _, hrep', fun id => ?_⟩
    rw [Registry.find?_remove, Registry.find?_remove, hfind]
    split <;> rfl
  · rw [if_neg howned] at hnext hrep'
    exact ⟨_, _, hnext, .notDeleted fun p hp howner =>
      howned ((ownedBy_iff hfind _ _).mpr ⟨p, hp, howner⟩), _, hrep', hfind⟩

/-- The read of a `get` is its instant. -/
theorem ProjectRegistry.StoredIn.get (h : A.StoredIn t) (projectId : String) :
    ProjectRepository.getValue projectId (.ok (t.lookup (recordKey projectId))) =
      match A.find? projectId with
      | some p => .ok p
      | none => .error (.projectNotFound projectId) := by
  obtain ⟨R, hrep, hfind⟩ := h
  rw [hrep.getValue_eq, Projects.getResult, hfind]
  cases A.find? projectId <;> rfl

/-- The record of a project tells that it is in the registry. -/
theorem ProjectRegistry.StoredIn.find?_of_item (h : A.StoredIn t) {id : String} {p : Project}
    (hitem : t.lookup (recordKey id) = some (projectItem p)) : A.find? id = some p := by
  obtain ⟨R, hrep, hfind⟩ := h
  obtain ⟨e, he, heq⟩ := hrep.record_eq_some.mp hitem
  rw [hfind, Option.map_eq_some_iff] at he
  obtain ⟨q, hq, rfl⟩ := he
  rw [← recordItem_of_project] at heq
  exact hq.trans (congrArg some (project_eq_of_recordItem_eq heq).symm)

end Instants

/-! ## The simulation -/

/-- Where a thread is in its call, and what the registry knows of it. -/
inductive Progress (tr : List SystemLabel) (i : Nat) :
    Option (Thread Op Op.Ans Call Result) → Option (Ticket Call Result) → Prop where
  | free : Progress tr i none none
  | started {c : Call} (hinvoke : .invoke i c ∈ tr) (hc : c.OfRegistry) :
      Progress tr i (some ⟨c, c.body⟩) (some (.waiting c))
  /-- A `delete` that has read its project. -/
  | read {projectId : String} (ownerId : String) (p : Project)
      (hread : ∃ j, .invoke j (.create p) ∈ tr) (hid : p.projectId = projectId) :
      Progress tr i
        (some ⟨.delete projectId ownerId, (Except.map fun _ => Value.unit) <$>
          .call (.transactWriteItems (deleteActions projectId p.name ownerId))
            (ProjectRepository.deleteNext projectId p.name)⟩)
        (some (.waiting (.delete projectId ownerId)))
  | finished (c : Call) (r : Result) : Progress tr i (some ⟨c, .done r⟩) (some (.finished c r))

theorem Progress.snoc {tr : List SystemLabel} {i : Nat}
    {thread : Option (Thread Op Op.Ans Call Result)} {ticket : Option (Ticket Call Result)}
    (h : Progress tr i thread ticket) (l : SystemLabel) : Progress (tr ++ [l]) i thread ticket := by
  cases h with
  | free => exact .free
  | started hinvoke hc => exact .started (List.mem_append_left _ hinvoke) hc
  | read ownerId p hread hid =>
      obtain ⟨j, hread⟩ := hread
      exact .read _ p ⟨j, List.mem_append_left _ hread⟩ hid
  | finished c r => exact .finished c r

theorem Progress.of_none {tr : List SystemLabel} {i : Nat}
    {ticket : Option (Ticket Call Result)} (h : Progress tr i none ticket) : ticket = none := by
  cases h
  rfl

theorem Progress.call_eq {tr : List SystemLabel} {i : Nat}
    {thread : Option (Thread Op Op.Ans Call Result)} {ticket : Option (Ticket Call Result)}
    (h : Progress tr i thread ticket) :
    thread.map Thread.call = ticket.map Ticket.call := by
  cases h <;> rfl

/-- A call that is about to return has had its instant. -/
theorem Progress.of_done {tr : List SystemLabel} {i : Nat} {c : Call} {r : Result}
    {ticket : Option (Ticket Call Result)} (h : Progress tr i (some ⟨c, .done r⟩) ticket) :
    ticket = some (.finished c r) := by
  generalize hprogram : some (⟨c, .done r⟩ : Thread Op Op.Ans Call Result) = thread at h
  cases h with
  | free => cases hprogram
  | started hinvoke hc =>
      -- every call begins with an operation
      obtain ⟨rfl, hbody⟩ := Thread.mk.inj (Option.some.inj hprogram)
      cases c with
      | create p =>
          rw [Call.body, ProjectRepository.create_eq, map_call] at hbody
          cases hbody
      | get projectId =>
          rw [Call.body, ProjectRepository.get_eq, map_call] at hbody
          cases hbody
      | delete projectId ownerId =>
          rw [Call.body, ProjectRepository.delete_eq, map_call] at hbody
          cases hbody
      | _ => exact hc.elim
  | read => cases hprogram
  | finished => 
      obtain ⟨rfl, hdone⟩ := Thread.mk.inj (Option.some.inj hprogram)
      obtain rfl := Program.done.inj hdone
      rfl

/-- The world and the registry after the same history. -/
structure Linked (tr : List SystemLabel) (w : SystemWorld) (a : RegistryObject) : Prop where
  stored : a.state.StoredIn w.store
  /-- A project is in the registry since the instant of its `create`. -/
  filed : ∀ id p, a.state.find? id = some p →
    ∃ j, .invoke j (.create p) ∈ tr ∧ a.tickets j ≠ some (.waiting (.create p))
  progress : ∀ i, Progress tr i (w.threads i) (a.tickets i)
  /-- No line is logged. -/
  unlogged : ∀ i c entry, .exec i c (.log entry) () ∉ tr

/-- The registry can follow the world, unseen by the clients. -/
def Followed (tr : List SystemLabel) (w : SystemWorld) (a : RegistryObject) : Prop :=
  ∃ atr a', RegistryRun a atr a' ∧ events atr = [] ∧ Linked tr w a'

namespace Linked

variable {svc : Service} {tr : List SystemLabel} {w : SystemWorld} {a : RegistryObject}
  {l : SystemLabel}

theorem initial : Linked [] (World.idle ∅) (Atomic.idle Registry.empty) where
  stored := ⟨Registry.empty, Represents.empty, fun _ => rfl⟩
  filed id p h := by cases h
  progress i := .free
  unlogged i c entry h := by cases h

/-- A step that sets slot `i` on both sides. -/
theorem set (h : Linked tr w a) {i : Nat} (t' : Table) (A' : ProjectRegistry)
    {thread : Option (Thread Op Op.Ans Call Result)} {ticket : Option (Ticket Call Result)}
    (hstored : A'.StoredIn t')
    (hfiled : ∀ id p, A'.find? id = some p → ∃ j, .invoke j (.create p) ∈ tr ++ [l] ∧
      (if j = i then ticket else a.tickets j) ≠ some (.waiting (.create p)))
    (hprogress : Progress (tr ++ [l]) i thread ticket)
    (hl : ∀ j c entry, l ≠ .exec j c (.log entry) ()) :
    Linked (tr ++ [l]) ({ w with store := t' }.setThread i thread)
      ({ a with state := A' }.setTicket i ticket) where
  stored := hstored
  filed id p hfind := by
    obtain ⟨j, hinvoke, hticket⟩ := hfiled id p hfind
    exact ⟨j, hinvoke, by rwa [Atomic.setTicket_tickets]⟩
  progress j := by
    rw [World.setThread_threads, Atomic.setTicket_tickets]
    split
    · subst j
      exact hprogress
    · exact (h.progress j).snoc l
  unlogged j c entry hmem := by
    rcases List.mem_append.mp hmem with hbefore | hlast
    · exact h.unlogged j c entry hbefore
    · exact hl j c entry (List.mem_singleton.mp hlast).symm

/-- Of the projects in the registry none is still to be created. -/
theorem filed_set (h : Linked tr w a) {i : Nat} {ticket : Option (Ticket Call Result)}
    (hticket : ∀ p, ticket = some (.waiting (.create p)) → ∀ j, .invoke j (.create p) ∉ tr)
    {id : String} {p : Project} (hfind : a.state.find? id = some p) :
    ∃ j, .invoke j (.create p) ∈ tr ++ [l] ∧
      (if j = i then ticket else a.tickets j) ≠ some (.waiting (.create p)) := by
  obtain ⟨j, hinvoke, hold⟩ := h.filed id p hfind
  refine ⟨j, List.mem_append_left _ hinvoke, ?_⟩
  split
  · exact fun hwaiting => hticket p hwaiting j hinvoke
  · exact hold

/-- A call that starts. -/
theorem invoke (h : Linked tr w a) {i : Nat} {c : Call} (hc : c.OfRegistry)
    (hfresh : FreshIds (tr ++ [.invoke i c])) :
    Linked (tr ++ [.invoke i c]) (w.setThread i (some ⟨c, c.body⟩))
      (a.setTicket i (some (.waiting c))) := by
  refine h.set w.store a.state h.stored (fun id p => h.filed_set ?_)
    (.started (List.mem_append_right _ (List.mem_singleton_self _)) hc)
    fun j d entry hl => by cases hl
  intro q hq j hinvoke
  obtain rfl := Ticket.waiting.inj (Option.some.inj hq)
  exact hfresh.not_mem (mem_createdIds_of_invoke hinvoke)

/-- A call that leaves. -/
theorem leave (h : Linked tr w a) (i : Nat) (hl : ∀ j c entry, l ≠ .exec j c (.log entry) ()) :
    Linked (tr ++ [l]) (w.setThread i none) (a.setTicket i none) :=
  h.set w.store a.state h.stored
    (fun id p => h.filed_set fun q hq => by cases hq) .free hl

/-- A step that is no instant. -/
theorem proceed (h : Linked tr w a) {i : Nat} {thread : Option (Thread Op Op.Ans Call Result)}
    (hprogress : Progress (tr ++ [l]) i thread (a.tickets i))
    (hticket : ∀ p, a.tickets i ≠ some (.waiting (.create p)))
    (hl : ∀ j c entry, l ≠ .exec j c (.log entry) ()) :
    Linked (tr ++ [l]) (w.setThread i thread) a := by
  have hset := h.set w.store a.state h.stored
    (fun id p => h.filed_set fun q hq => absurd hq (hticket q)) hprogress hl
  rwa [Atomic.setTicket_self rfl] at hset

/-- The instant of a call. -/
theorem finish (h : Linked tr w a) {i : Nat} {c : Call} {r : Result} {t' : Table}
    {A' : ProjectRegistry} (hinvoke : ∀ p, c = .create p → .invoke i (.create p) ∈ tr)
    (hspec : RegistrySpec a.state c r A') (hstored : A'.StoredIn t')
    (hl : ∀ j d entry, l ≠ .exec j d (.log entry) ()) :
    Linked (tr ++ [l]) ({ w with store := t' }.setThread i (some ⟨c, .done r⟩))
      ({ a with state := A' }.setTicket i (some (.finished c r))) := by
  refine h.set t' A' hstored (fun id p hfind => ?_) (.finished c r) hl
  rcases hspec.origin hfind with hold | hc
  · exact h.filed_set (fun q hq => by cases hq) hold
  · exact ⟨i, List.mem_append_left _ (hinvoke p hc), by simp⟩

/-- A project that is stored was created by one call, which has had its instant. -/
theorem find?_of_waiting (h : Linked tr w a) (hfresh : FreshIds tr) {i : Nat} {p : Project}
    (hinvoke : .invoke i (.create p) ∈ tr) (hticket : a.tickets i = some (.waiting (.create p))) :
    a.state.find? p.projectId = none := by
  cases hfind : a.state.find? p.projectId with
  | none => rfl
  | some q =>
      obtain ⟨j, hother, hnot⟩ := h.filed _ q hfind
      obtain ⟨rfl, rfl⟩ := hfresh.eq_of_projectId_eq hother hinvoke (Registry.idOf_eq hfind)
      exact absurd hticket hnot

/-- A project keeps its name while it is stored. -/
theorem name_eq (h : Linked tr w a) (hfresh : FreshIds tr) {p q : Project}
    (hread : ∃ j, .invoke j (.create p) ∈ tr) (hfind : a.state.find? p.projectId = some q) :
    q.name = p.name := by
  obtain ⟨i, hp⟩ := hread
  obtain ⟨j, hq, -⟩ := h.filed _ q hfind
  rw [(hfresh.eq_of_projectId_eq hq hp (Registry.idOf_eq hfind)).2]

/-- A step of the world at the instant of a call. -/
theorem commit (h : Linked tr w a) {i : Nat} {c : Call} {r : Result} {t' : Table}
    {A' : ProjectRegistry} {program : Action Result} (hticket : a.tickets i = some (.waiting c))
    (hinvoke : ∀ p, c = .create p → .invoke i (.create p) ∈ tr)
    (hspec : RegistrySpec a.state c r A') (hstored : A'.StoredIn t') (hprogram : program = .done r)
    (hl : ∀ j d entry, l ≠ .exec j d (.log entry) ()) :
    Followed (tr ++ [l]) ({ w with store := t' }.setThread i (some ⟨c, program⟩)) a := by
  refine ⟨_, _, Run.single (.commit hticket hspec), rfl, ?_⟩
  rw [hprogram]
  exact h.finish hinvoke hspec hstored hl

/-- The read of a `delete` is its instant, or it goes on to its transaction. -/
theorem read (h : Linked tr w a) {i : Nat} {projectId ownerId : String}
    (hticket : a.tickets i = some (.waiting (.delete projectId ownerId)))
    (hl : ∀ j d entry, l ≠ .exec j d (.log entry) ()) :
    Followed (tr ++ [l]) (w.setThread i (some ⟨.delete projectId ownerId,
      (Except.map fun _ => Value.unit) <$> ProjectRepository.deleteRead projectId ownerId
        (ProjectRepository.getValue projectId (.ok (w.store.lookup (recordKey projectId))))⟩))
      a := by
  rw [h.stored.get projectId]
  have habsent : (∀ p, a.state.find? projectId = some p → p.ownerId ≠ ownerId) →
      Followed (tr ++ [l]) (w.setThread i (some ⟨.delete projectId ownerId,
        .done (.error (.projectNotFound projectId))⟩)) a := fun hnot =>
    h.commit hticket (fun q hq => by cases hq) (.notDeleted hnot) h.stored rfl hl
  -- a project that is absent, or another owner's, decides the call now
  cases hfind : a.state.find? projectId with
  | none =>
      refine habsent fun p hp => ?_
      rw [hfind] at hp
      cases hp
  | some p =>
      simp only [ProjectRepository.deleteRead]
      split
      · refine habsent fun q hq => ?_
        rw [hfind] at hq
        obtain rfl := Option.some.inj hq
        assumption
      · -- the owner's project: the instant is still to come
        obtain ⟨j, hread, -⟩ := h.filed _ p hfind
        refine ⟨[], a, .nil, rfl, h.proceed ?_ (by simp [hticket]) hl⟩
        rw [hticket]
        exact (Progress.read ownerId p ⟨j, hread⟩ (Registry.idOf_eq hfind)).snoc _

/-- The first operation of a call. -/
theorem start (h : Linked tr w a) (hsvc : svc.Faultless) (hfresh : FreshIds tr) {i : Nat}
    {c : Call} {op : Op} {next : op.Ans → Action Result} {answer : op.Ans} {t' : Table}
    (hinvoke : .invoke i c ∈ tr) (hc : c.OfRegistry) (hticket : a.tickets i = some (.waiting c))
    (hbody : .call op next = c.body) (hexec : svc.Exec w.store op answer t') :
    Followed (tr ++ [.exec i c op answer])
      ({ w with store := t' }.setThread i (some ⟨c, next answer⟩)) a := by
  cases c with
  | create p =>
      rw [Call.body, ProjectRepository.create_eq, map_call] at hbody
      obtain ⟨rfl, hnext⟩ := Program.call.inj hbody
      obtain rfl := eq_of_heq hnext
      obtain ⟨A', hspec, hstored⟩ := h.stored.create hsvc
        (h.find?_of_waiting hfresh hinvoke hticket) hexec
      refine h.commit hticket (fun q hq => ?_) hspec hstored rfl fun j d entry hl => by cases hl
      rw [← hq]
      exact hinvoke
  | get projectId =>
      rw [Call.body, ProjectRepository.get_eq, map_call] at hbody
      obtain ⟨rfl, hnext⟩ := Program.call.inj hbody
      obtain rfl := eq_of_heq hnext
      obtain ⟨rfl, rfl⟩ := hsvc.exec_getItem hexec
      have hget := h.stored.get projectId
      refine h.commit hticket (fun q hq => by cases hq) ?_ h.stored rfl
        fun j d entry hl => by cases hl
      rw [hget]
      cases hfind : a.state.find? projectId with
      | none => exact .notFound hfind
      | some p => exact .got hfind
  | delete projectId ownerId =>
      rw [Call.body, ProjectRepository.delete_eq, map_call] at hbody
      obtain ⟨rfl, hnext⟩ := Program.call.inj hbody
      obtain rfl := eq_of_heq hnext
      obtain ⟨rfl, rfl⟩ := hsvc.exec_getItem hexec
      exact h.read hticket fun j d entry hl => by cases hl
  | _ => exact hc.elim

/-- One operation of a call: its instant, or the read of a `delete` that goes on. -/
theorem exec (h : Linked tr w a) (hsvc : svc.Faultless) (hfresh : FreshIds tr) {i : Nat}
    {c : Call} {op : Op} {next : op.Ans → Action Result} {answer : op.Ans} {t' : Table}
    (hthread : w.threads i = some ⟨c, .call op next⟩) (hexec : svc.Exec w.store op answer t') :
    Followed (tr ++ [.exec i c op answer])
      ({ w with store := t' }.setThread i (some ⟨c, next answer⟩)) a := by
  have hprogress := h.progress i
  rw [hthread] at hprogress
  generalize hprogram : some (⟨c, .call op next⟩ : Thread Op Op.Ans Call Result) = thread
    at hprogress
  generalize hticket : a.tickets i = ticket at hprogress
  -- only a call that has not ended performs an operation
  cases hprogress with
  | free => cases hprogram
  | finished d r => cases hprogram
  | started hinvoke hc =>
      obtain ⟨rfl, hbody⟩ := Thread.mk.inj (Option.some.inj hprogram)
      exact h.start hsvc hfresh hinvoke hc hticket hbody hexec
  | read ownerId p hread hid =>
      obtain ⟨rfl, hbody⟩ := Thread.mk.inj (Option.some.inj hprogram)
      rw [map_call] at hbody
      obtain ⟨rfl, hnext⟩ := Program.call.inj hbody
      obtain rfl := eq_of_heq hnext
      subst hid
      obtain ⟨r, A', hdone, hspec, hstored⟩ := h.stored.delete hsvc
        (fun q hq => h.name_eq hfresh hread hq) hexec
      refine h.commit hticket (fun q hq => by cases hq) hspec hstored ?_
        fun j d entry hl => by cases hl
      dsimp only
      rw [hdone, map_done]

/-- Every step of the world is followed by the registry, with the same event. -/
theorem step (h : Linked tr w a) (hsvc : svc.Faultless) (hfresh : FreshIds (tr ++ [l]))
    (hcalls : CallsIn Call.OfRegistry (tr ++ [l])) {w' : SystemWorld}
    (hstep : Step (system svc) w l w') :
    ∃ atr a', RegistryRun a atr a' ∧ events atr = l.event?.toList ∧
      Linked (tr ++ [l]) w' a' := by
  have hprogress := h.progress
  cases hstep with
  | @invoke i c hfree =>
      have hi := hprogress i
      rw [hfree] at hi
      exact ⟨_, _, Run.single (.invoke c hi.of_none), rfl, h.invoke hcalls.last hfresh⟩
  | exec hthread hexec => exact h.exec hsvc hfresh.of_append_left hthread hexec
  | @ret i c r hthread =>
      have hi := hprogress i
      rw [hthread] at hi
      exact ⟨_, _, Run.single (.ret hi.of_done), rfl, h.leave i fun j d entry hl => by cases hl⟩
  | @abandon i c program hthread =>
      have hcall := (hprogress i).call_eq
      rw [hthread] at hcall
      obtain ⟨ticket, hticket, rfl⟩ := Option.map_eq_some_iff.mp hcall.symm
      exact ⟨_, _, Run.single (.abandon hticket), rfl, h.leave i fun j d entry hl => by cases hl⟩

/-- Every run of the world is a run of the registry. -/
theorem run (h : Linked tr w a) (hsvc : svc.Faultless) {tr' : List SystemLabel}
    {w' : SystemWorld} (hrun : SystemRun svc w tr' w') (hfresh : FreshIds (tr ++ tr'))
    (hcalls : CallsIn Call.OfRegistry (tr ++ tr')) :
    ∃ atr a', RegistryRun a atr a' ∧ events atr = tr'.filterMap Label.event? ∧
      Linked (tr ++ tr') w' a' := by
  refine Run.simulates (fun more => FreshIds (tr ++ more) ∧
    CallsIn Call.OfRegistry (tr ++ more)) ?_ (R := fun more => Linked (tr ++ more)) ?_ ?_
    ⟨hfresh, hcalls⟩ hrun
  · intro more l hok
    rw [← List.append_assoc] at hok
    exact ⟨hok.1.of_append_left, hok.2.of_append_left⟩
  · rwa [List.append_nil]
  · intro more mid l next b hok hlinked hstep
    rw [← List.append_assoc] at hok ⊢
    exact hlinked.step hsvc hok.1 hok.2 hstep

/-- Of a project that is there before a `delete` of its owner and after which no `delete` of it
is still running, some `delete` has returned normally in between. -/
theorem deletion_returned (h : Linked tr w a) (hsvc : svc.Faultless) {id : String} {i : Nat}
    {p : Project} {r : Result} {after : List SystemLabel} {w' : SystemWorld}
    (hitem : w.store.lookup (recordKey id) = some (projectItem p))
    (hrun : SystemRun svc w (.invoke i (.delete id p.ownerId) :: after) w')
    (hfresh : FreshIds (tr ++ .invoke i (.delete id p.ownerId) :: after))
    (hcalls : CallsIn Call.OfRegistry (tr ++ .invoke i (.delete id p.ownerId) :: after))
    (hret : .ret i (.delete id p.ownerId) r ∈ after)
    (hnone : ∀ j thread ownerId, w'.threads j = some thread → thread.call ≠ .delete id ownerId)
    (hkept : ∀ j ownerId, .abandon j (.delete id ownerId) ∉
      (.invoke i (.delete id p.ownerId) :: after : List SystemLabel)) :
    ∃ j ownerId value, .ret j (.delete id ownerId) (.ok value) ∈
      (.invoke i (.delete id p.ownerId) :: after : List SystemLabel).filterMap Label.event? := by
  obtain ⟨atr, a', habs, hevents, hlinked⟩ := h.run hsvc hrun hfresh hcalls
  have hmem : ∀ e, .event e ∈ atr ↔
      e ∈ (.invoke i (.delete id p.ownerId) :: after : List SystemLabel).filterMap
        Label.event? := by
    intro e
    rw [← mem_events, hevents]
  obtain ⟨first, hfirst, -⟩ := hrun.cons_inv
  have hfree : a.tickets i = none := by
    cases hfirst with
    | invoke c hfree =>
        have hi := h.progress i
        rw [hfree] at hi
        exact hi.of_none
  -- whatever the `delete` found, somebody has deleted the project by its return
  obtain ⟨j, ownerId, value, hcommit⟩ := RegistryRun.deletion_of_ret habs
    (h.stored.find?_of_item hitem) hfree
    ((hmem _).mpr (List.mem_filterMap.mpr ⟨_, List.mem_cons_of_mem _ hret, rfl⟩))
  refine ⟨j, ownerId, value, ?_⟩
  obtain hdone | habandon | hticket := AtomicRun.ret_of_commit habs hcommit
  · exact (hmem _).mp hdone
  · obtain ⟨l, hl, hevent⟩ := List.mem_filterMap.mp ((hmem _).mp habandon)
    obtain rfl := Label.eq_abandon_of_event? hevent
    exact absurd hl (hkept j ownerId)
  · have hcall := (hlinked.progress j).call_eq
    rw [hticket] at hcall
    obtain ⟨thread, hthread, hdelete⟩ := Option.map_eq_some_iff.mp hcall
    exact absurd hdelete (hnone j thread ownerId hthread)

end Linked

/-! ## Refinement -/

/-- A history of calls is one of the registry, which the table holds in the end. -/
def RefinesRegistry (tr : List SystemLabel) (t : Table) : Prop :=
  ∃ atr a, RegistryRun (Atomic.idle Registry.empty) atr a ∧
    events atr = tr.filterMap Label.event? ∧ a.state.StoredIn t

/-- In every run of creates, reads and deletes each call ends as the registry has it at one
instant of the call; the reservation of a project always points at it; and of all calls that
delete a project exactly one returns normally, once a `delete` by its owner has ended. -/
theorem store_refines_registry {svc : Service} (hsvc : svc.Faultless) {tr : List SystemLabel}
    {w : SystemWorld} (hrun : SystemRun svc (World.idle ∅) tr w)
    (hcalls : CallsIn Call.OfRegistry tr) (hfresh : FreshIds tr) :
    RefinesRegistry tr w.store ∧
    (∀ i c id name, .exec i c (.log (ProjectRepository.mismatchEntry id name)) () ∉ tr) ∧
    ∀ id, (deletions (tr.filterMap Label.event?) id).length ≤ 1 ∧
      ∀ before i p r after w₁, tr = before ++ .invoke i (.delete id p.ownerId) :: after →
        SystemRun svc (World.idle ∅) before w₁ →
        w₁.store.lookup (recordKey id) = some (projectItem p) →
        SystemRun svc w₁ (.invoke i (.delete id p.ownerId) :: after) w →
        .ret i (.delete id p.ownerId) r ∈ after →
        (∀ j thread ownerId, w.threads j = some thread → thread.call ≠ .delete id ownerId) →
        (∀ j ownerId, .abandon j (.delete id ownerId) ∉ tr) →
        (deletions (tr.filterMap Label.event?) id).length = 1 := by
  obtain ⟨atr, a, habs, hevents, hlinked⟩ := Linked.initial.run hsvc hrun hfresh hcalls
  rw [List.nil_append] at hlinked
  -- the counted returns are those of the atomic registry
  have hatmost : ∀ id, (deletions (tr.filterMap Label.event?) id).length ≤ 1 := by
    intro id
    rw [← hevents]
    refine RegistryRun.deletions_length_le_one habs ?_
    rw [hevents, ← createdIds_eq_requestedIds]
    exact hfresh
  refine ⟨⟨atr, a, habs, hevents, hlinked.stored⟩, fun i c id name => hlinked.unlogged i c _,
    fun id => ⟨hatmost id, ?_⟩⟩
  intro before i p r after w₁ htr hbefore hitem hafter hret hnone hkept
  subst htr
  obtain ⟨atr₁, a₁, -, -, hlinked₁⟩ := Linked.initial.run hsvc hbefore hfresh.of_append_left
    hcalls.of_append_left
  obtain ⟨j, ownerId, value, hreturned⟩ := hlinked₁.deletion_returned hsvc hitem hafter hfresh
    hcalls hret hnone fun j ownerId hmem => hkept j ownerId (List.mem_append_right _ hmem)
  -- the return that was found is one of those counted
  have hpos : 0 < (deletions ((before ++ .invoke i (.delete id p.ownerId) :: after).filterMap
      Label.event?) id).length :=
    List.length_pos_of_mem (List.mem_filter.mpr ⟨by
      rw [List.filterMap_append]
      exact List.mem_append_right _ hreturned, by simp [isDeletion]⟩)
  have hle := hatmost id
  omega

end Store

section Instance

open scoped Sample

/-- A create and a delete, and then a race for the freed name. -/
theorem race_refines_registry :
    ∃ tr w, SystemRun (Service.reference stubProvision) (World.idle ∅) tr w ∧
      (w.store.lookup (recordKey sampleProject.projectId)).isSome = true ∧
        RefinesRegistry tr w.store ∧
          (deletions (tr.filterMap Label.event?) earlierProject.projectId).length = 1 := by
  obtain ⟨tr, t, R, hrun, hrep, hstored, hdeleted, hfresh, hcalls⟩ := exists_contended_run
  obtain ⟨hrefines, -, hdeletions⟩ :=
    store_refines_registry (Service.reference_faultless stubProvision) hrun
      (hcalls Call.OfRegistry (fun _ => trivial) fun _ _ => trivial) hfresh
  refine ⟨tr, _, hrun, ?_, hrefines, ?_⟩
  · rw [World.idle_store, hrep.record, hstored]
    rfl
  · have hevent : Event.ret 0 (.delete earlierProject.projectId "key-2") (.ok Value.unit) ∈
        tr.filterMap Label.event? := List.mem_filterMap.mpr ⟨_, hdeleted, rfl⟩
    have hpos := List.length_pos_of_mem (List.mem_filter.mpr
      ⟨hevent, (beq_self_eq_true _ : isDeletion earlierProject.projectId _ = true)⟩)
    exact le_antisymm (hdeletions earlierProject.projectId).1 hpos

end Instance

end ProjectsApi
