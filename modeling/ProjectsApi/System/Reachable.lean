import ProjectsApi.System.Calls

/-!
# Every reachable table encodes a registry

`RegistryExec` is the effect of an operation on the registry, failures included.
One operation of the code on a table that encodes `R` is one such effect
(`Represents.exec`), so all reachable tables encode registries, and the reasoning
about runs is about registries from here on.
-/

namespace ProjectsApi

open Foundation Dynamo Program

variable [CaseTables]

/-! ## Writes -/

/-- A write whose regular result is `result`: it is answered so, or it fails, after it was
applied or before. -/
def Wrote (faults : Fault → Prop) (R : Projects) (result : Except ClientError Unit × Projects)
    (answer : Except ClientError Unit) (R' : Projects) : Prop :=
  (answer = result.1 ∧ R' = result.2) ∨
    ∃ fault, faults fault ∧ answer = .error fault.error ∧
      R' = if fault.applied then result.2 else R

/-- The answer to a write that took effect: it was reported as applied, or failed after it
was applied. -/
def Took (faults : Fault → Prop) (answer : Except ClientError Unit) : Prop :=
  answer = .ok () ∨ ∃ fault, faults fault ∧ fault.applied = true ∧ answer = .error fault.error

section Wrote

variable {faults : Fault → Prop} {R R₁ R' : Projects} {answer : Except ClientError Unit}

/-- A refused write changes nothing. -/
theorem Wrote.of_refused {e : ClientError} (h : Wrote faults R (.error e, R) answer R') :
    answer ≠ .ok () ∧ R' = R := by
  obtain ⟨hanswer, hR'⟩ | ⟨fault, -, hanswer, hR'⟩ := h
  · exact ⟨by simp [hanswer], hR'⟩
  · exact ⟨by simp [hanswer], hR'.trans (ite_self R)⟩

/-- An accepted write takes effect, or fails before it does. -/
theorem Wrote.of_accepted (h : Wrote faults R (.ok (), R₁) answer R') :
    (answer ≠ .ok () ∧ R' = R) ∨ (Took faults answer ∧ R' = R₁) := by
  obtain ⟨hanswer, hR'⟩ | ⟨fault, hfault, hanswer, hR'⟩ := h
  · exact Or.inr ⟨Or.inl hanswer, hR'⟩
  · cases happlied : fault.applied with
    | false =>
        rw [happlied, if_neg (by simp)] at hR'
        exact Or.inl ⟨by simp [hanswer], hR'⟩
    | true =>
        rw [happlied, if_pos rfl] at hR'
        exact Or.inr ⟨Or.inr ⟨fault, hfault, happlied, hanswer⟩, hR'⟩

/-- A `create` does nothing, and is not reported as applied, or files a project of a new
id and a free name. -/
theorem Wrote.create_cases {p : Project} (h : Wrote faults R (R.create p) answer R') :
    (answer ≠ .ok () ∧ R' = R) ∨
      Took faults answer ∧ R.find? p.projectId = none ∧
        ∃ hname : ¬ R.Taken (nameKey p.name), R' = R.add { project := p } hname := by
  rcases R.create_cases p with ⟨hname, hid, heq⟩ | ⟨reasons, heq⟩
  · rw [heq] at h
    exact h.of_accepted.imp_right fun ⟨htook, hR'⟩ => ⟨htook, hid, hname, hR'⟩
  · rw [heq] at h
    exact Or.inl h.of_refused

/-- A `delete` does nothing, and is not reported as applied, or strikes the owner's
project. -/
theorem Wrote.delete_cases {projectId name ownerId : String}
    (h : Wrote faults R (R.delete projectId name ownerId) answer R') :
    (answer ≠ .ok () ∧ R' = R) ∨
      Took faults answer ∧ R.OwnedBy projectId ownerId ∧ R.Named projectId name ∧
        R' = R.remove projectId := by
  rcases R.delete_cases projectId name ownerId with ⟨howned, hnamed, heq⟩ | ⟨reasons, heq⟩
  · rw [heq] at h
    exact h.of_accepted.imp_right fun ⟨htook, hR'⟩ => ⟨htook, howned, hnamed, hR'⟩
  · rw [heq] at h
    exact Or.inl h.of_refused

/-- A transition does nothing, and is not reported as applied, or moves the project out
of the expected status. -/
theorem Wrote.transition_cases {tr : Transition} {projectId : String} {now : Datetime}
    (h : Wrote faults R (R.transition tr projectId now) answer R') :
    (answer ≠ .ok () ∧ R' = R) ∨
      Took faults answer ∧ R.InStatus projectId tr.expected ∧ R' = R.move tr projectId now := by
  rcases R.transition_cases tr projectId now with ⟨hstatus, heq⟩ | ⟨-, heq⟩
  · rw [heq] at h
    exact h.of_accepted.imp_right fun ⟨htook, hR'⟩ => ⟨htook, hstatus, hR'⟩
  · rw [heq] at h
    exact Or.inl h.of_refused

end Wrote

/-! ### Transient faults -/

section Transient

variable {svc : Service}

omit [CaseTables] in
/-- Under transient faults a write that took effect was reported as applied. -/
theorem Service.Transient.transact_ok (hsvc : svc.Transient) {answer : Except ClientError Unit}
    (htook : Took svc.transactFault answer) : answer = .ok () := by
  obtain hok | ⟨fault, hfault, happlied, -⟩ := htook
  · exact hok
  · rw [(hsvc.transact fault hfault).1] at happlied
    cases happlied

omit [CaseTables] in
theorem Service.Transient.update_ok (hsvc : svc.Transient) {answer : Except ClientError Unit}
    (htook : Took svc.updateFault answer) : answer = .ok () := by
  obtain hok | ⟨fault, hfault, happlied, -⟩ := htook
  · exact hok
  · rw [(hsvc.update fault hfault).1] at happlied
    cases happlied

/-- Under transient faults a transition is refused only for a record that is missing or
in another status. -/
theorem Wrote.refused (hsvc : svc.Transient) {R R' : Projects} {id : String}
    {tr : Transition} {now : Datetime} {e : ClientError}
    (h : Wrote svc.updateFault R (R.transition tr id now) (.error e) R')
    (hcode : e.code = "ConditionalCheckFailedException") : ¬ R.InStatus id tr.expected := by
  intro hstatus
  rw [Projects.transition, if_pos hstatus] at h
  obtain ⟨hanswer, -⟩ | ⟨fault, hfault, hanswer, -⟩ := h
  · cases hanswer
  · obtain rfl := Except.error.inj hanswer
    exact (hsvc.update fault hfault).2 hcode

end Transient

/-- One operation of the code on the registry, with its answer. -/
inductive RegistryExec (svc : Service) (R : Projects) :
    (op : Op) → op.Ans → Projects → Prop where
  | read (projectId : String) :
      RegistryExec svc R (.getItem (recordKey projectId))
        (.ok ((R.find? projectId).map recordItem)) R
  | readFault (projectId : String) {e : ClientError} (hfault : svc.readFault e) :
      RegistryExec svc R (.getItem (recordKey projectId)) (.error e) R
  | create (p : Project) {answer : Except ClientError Unit} {R' : Projects}
      (hwrote : Wrote svc.transactFault R (R.create p) answer R') :
      RegistryExec svc R (.transactWriteItems (createActions p)) answer R'
  | delete (projectId name ownerId : String) {answer : Except ClientError Unit} {R' : Projects}
      (hwrote : Wrote svc.transactFault R (R.delete projectId name ownerId) answer R') :
      RegistryExec svc R (.transactWriteItems (deleteActions projectId name ownerId)) answer R'
  | transition (tr : Transition) (projectId : String) (now : Datetime)
      {answer : Except ClientError Unit} {R' : Projects}
      (hwrote : Wrote svc.updateFault R (R.transition tr projectId now) answer R') :
      RegistryExec svc R (.updateItem (tr.request projectId now)) answer R'
  | query (request : QueryRequest) (answer : Except ClientError QueryOutput) :
      RegistryExec svc R (.query request) answer R
  | provision (request : ProvisionRequest) {outcome : ProvisionOutcome}
      (houtcome : svc.provision request outcome) :
      RegistryExec svc R (.provision request) outcome R
  | now (reading : Datetime) : RegistryExec svc R .now reading R
  | uuid4 (drawn : Uuid4) : RegistryExec svc R .uuid4 drawn R
  | log (entry : LogEntry) : RegistryExec svc R (.log entry) () R
  | addMetric (name : String) : RegistryExec svc R (.addMetric name) () R

namespace Represents

variable {svc : Service} {R : Projects} {t t' : Table} {answer : Except ClientError Unit}

/-- A write of the table whose regular result is encoded by `result`. -/
theorem wrote {faults : Fault → Prop} {result : Except ClientError Unit × Projects}
    {t₁ : Table} (h : Represents R t) (hresult : Represents result.2 t₁)
    (hcases : (answer = result.1 ∧ t' = t₁) ∨ ∃ fault, faults fault ∧
      answer = .error fault.error ∧ t' = Service.afterFault fault t t₁) :
    ∃ R', Wrote faults R result answer R' ∧ Represents R' t' := by
  obtain ⟨hanswer, rfl⟩ | ⟨fault, hfault, hanswer, rfl⟩ := hcases
  · exact ⟨_, Or.inl ⟨hanswer, rfl⟩, hresult⟩
  · refine ⟨_, Or.inr ⟨fault, hfault, hanswer, rfl⟩, ?_⟩
    unfold Service.afterFault
    cases fault.applied
    · exact h
    · exact hresult

theorem exec_create (h : Represents R t) {p : Project}
    (hexec : svc.Exec t (.transactWriteItems (createActions p)) answer t') :
    ∃ R', Wrote svc.transactFault R (R.create p) answer R' ∧ Represents R' t' := by
  obtain ⟨hanswer, hrep⟩ := h.create p
  refine h.wrote hrep ?_
  cases hexec with
  | transactWriteItems => exact Or.inl ⟨hanswer, rfl⟩
  | transactFault _ hfault => exact Or.inr ⟨_, hfault, rfl, rfl⟩

theorem exec_delete (h : Represents R t) {projectId name ownerId : String}
    (hexec : svc.Exec t (.transactWriteItems (deleteActions projectId name ownerId))
      answer t') :
    ∃ R', Wrote svc.transactFault R (R.delete projectId name ownerId) answer R' ∧
      Represents R' t' := by
  obtain ⟨hanswer, hrep⟩ := h.delete projectId name ownerId
  refine h.wrote hrep ?_
  cases hexec with
  | transactWriteItems => exact Or.inl ⟨hanswer, rfl⟩
  | transactFault _ hfault => exact Or.inr ⟨_, hfault, rfl, rfl⟩

theorem exec_transition (h : Represents R t) {tr : Transition} {projectId : String}
    {now : Datetime} (hexec : svc.Exec t (.updateItem (tr.request projectId now)) answer t') :
    ∃ R', Wrote svc.updateFault R (R.transition tr projectId now) answer R' ∧
      Represents R' t' := by
  obtain ⟨hanswer, hrep⟩ := h.transition tr projectId now
  refine h.wrote hrep ?_
  cases hexec with
  | updateItem => exact Or.inl ⟨hanswer, rfl⟩
  | updateFault _ hfault => exact Or.inr ⟨_, hfault, rfl, rfl⟩

end Represents

/-- An operation of the code acts on the encoded registry. -/
theorem Represents.exec {svc : Service} {R : Projects} {t t' : Table} {op : Op}
    {answer : op.Ans} (h : Represents R t) (hop : ServiceOp op)
    (hexec : svc.Exec t op answer t') :
    ∃ R', RegistryExec svc R op answer R' ∧ Represents R' t' := by
  cases hop with
  | read projectId =>
      cases hexec with
      | getItem => exact ⟨R, h.record projectId ▸ .read projectId, h⟩
      | getItemFault _ hfault => exact ⟨R, .readFault projectId hfault, h⟩
  | create p =>
      obtain ⟨R', hwrote, hrep⟩ := h.exec_create hexec
      exact ⟨R', .create p hwrote, hrep⟩
  | delete projectId name ownerId =>
      obtain ⟨R', hwrote, hrep⟩ := h.exec_delete hexec
      exact ⟨R', .delete projectId name ownerId hwrote, hrep⟩
  | transition tr projectId now =>
      obtain ⟨R', hwrote, hrep⟩ := h.exec_transition hexec
      exact ⟨R', .transition tr projectId now hwrote, hrep⟩
  | query request => cases hexec; exact ⟨R, .query request _, h⟩
  | provision request =>
      cases hexec with
      | provision _ houtcome => exact ⟨R, .provision request houtcome, h⟩
  | now => cases hexec; exact ⟨R, .now _, h⟩
  | uuid4 => cases hexec; exact ⟨R, .uuid4 _, h⟩
  | log entry => cases hexec; exact ⟨R, .log entry, h⟩
  | addMetric name => cases hexec; exact ⟨R, .addMetric name, h⟩

/-! ## Effects -/

/-- The write was reported as applied. -/
def Reported : (op : Op) → op.Ans → Prop
  | .transactWriteItems _, answer => answer = .ok ()
  | .updateItem _, answer => answer = .ok ()
  | _, _ => False

/-- The operation is a write that took effect. -/
def Service.TookEffect (svc : Service) : (op : Op) → op.Ans → Prop
  | .transactWriteItems _, answer => Took svc.transactFault answer
  | .updateItem _, answer => Took svc.updateFault answer
  | _, _ => False

/-- The effects an operation can have on the registry. -/
inductive Effect (svc : Service) (R : Projects) : (op : Op) → op.Ans → Projects → Prop where
  | nothing {op : Op} {answer : op.Ans} (hquiet : ¬ Reported op answer) :
      Effect svc R op answer R
  | added {answer : Except ClientError Unit} (p : Project) (hname : ¬ R.Taken (nameKey p.name))
      (hid : R.find? p.projectId = none)
      (htook : svc.TookEffect (.transactWriteItems (createActions p)) answer) :
      Effect svc R (.transactWriteItems (createActions p)) answer
        (R.add { project := p } hname)
  | removed {answer : Except ClientError Unit} (projectId name ownerId : String)
      (howned : R.OwnedBy projectId ownerId) (hnamed : R.Named projectId name)
      (htook : svc.TookEffect
        (.transactWriteItems (deleteActions projectId name ownerId)) answer) :
      Effect svc R (.transactWriteItems (deleteActions projectId name ownerId)) answer
        (R.remove projectId)
  | moved {answer : Except ClientError Unit} (tr : Transition) (projectId : String)
      (now : Datetime) (hstatus : R.InStatus projectId tr.expected)
      (htook : svc.TookEffect (.updateItem (tr.request projectId now)) answer) :
      Effect svc R (.updateItem (tr.request projectId now)) answer (R.move tr projectId now)

/-- Every operation has one of the effects. -/
theorem RegistryExec.effect {svc : Service} {R R' : Projects} {op : Op} {answer : op.Ans}
    (h : RegistryExec svc R op answer R') : Effect svc R op answer R' := by
  cases h with
  | create p hwrote =>
      obtain ⟨hquiet, rfl⟩ | ⟨htook, hid, hname, rfl⟩ := hwrote.create_cases
      · exact .nothing hquiet
      · exact .added p hname hid htook
  | delete projectId name ownerId hwrote =>
      obtain ⟨hquiet, rfl⟩ | ⟨htook, howned, hnamed, rfl⟩ := hwrote.delete_cases
      · exact .nothing hquiet
      · exact .removed projectId name ownerId howned hnamed htook
  | transition tr projectId now hwrote =>
      obtain ⟨hquiet, rfl⟩ | ⟨htook, hstatus, rfl⟩ := hwrote.transition_cases
      · exact .nothing hquiet
      · exact .moved tr projectId now hstatus htook
  | read | readFault | query | provision | now | uuid4 | log | addMetric => exact .nothing id

variable [DatetimeParser]

/-- Every thread of a reachable world performs service operations only. -/
theorem SystemRun.allOps {svc : Service} {t : Table} {tr : List SystemLabel} {w : SystemWorld}
    (hrun : SystemRun svc (World.idle t) tr w) : w.AllOps ServiceOp :=
  Run.threads_allOps (C := fun _ => True) (fun c _ => c.allOps) (fun _ _ _ => trivial) hrun

/-- The rule for runs of the system from the empty table: an invariant about the labels
so far, the encoded registry and the world, kept by every step. -/
theorem SystemRun.registry_invariant {svc : Service}
    {I : List SystemLabel → Projects → SystemWorld → Prop}
    (hinit : I [] Registry.empty (World.idle ∅))
    (hinvoke : ∀ tr R w i c, w.AllOps ServiceOp → I tr R w → w.threads i = none →
      I (tr ++ [.invoke i c]) R (w.setThread i (some ⟨c, c.body⟩)))
    (hexec : ∀ tr R (w : SystemWorld) i c op next (answer : Op.Ans op) R' t', w.AllOps ServiceOp →
      Represents R w.store → Represents R' t' → I tr R w →
      w.threads i = some ⟨c, .call op next⟩ → RegistryExec svc R op answer R' →
      I (tr ++ [.exec i c op answer]) R'
        ({ w with store := t' }.setThread i (some ⟨c, next answer⟩)))
    (hret : ∀ tr R w i c r, I tr R w → w.threads i = some ⟨c, .done r⟩ →
      I (tr ++ [.ret i c r]) R (w.setThread i none))
    (habandon : ∀ tr R w i c p, I tr R w → w.threads i = some ⟨c, p⟩ →
      I (tr ++ [.abandon i c]) R (w.setThread i none))
    {tr : List SystemLabel} {w : SystemWorld}
    (hrun : SystemRun svc (World.idle ∅) tr w) :
    ∃ R, Represents R w.store ∧ I tr R w := by
  refine Run.invariant (I := fun tr w => ∃ R, Represents R w.store ∧ I tr R w)
    ⟨_, Represents.empty, hinit⟩ ?_ hrun
  rintro tr w l w' hpast ⟨R, hrep, hI⟩ hstep
  have hops := SystemRun.allOps hpast
  cases hstep with
  | invoke c hfree => exact ⟨R, hrep, hinvoke _ _ _ _ _ hops hI hfree⟩
  | exec hthread hop =>
      obtain ⟨R', hR', hrep'⟩ := hrep.exec (hops _ _ hthread).1 hop
      exact ⟨R', hrep', hexec _ _ _ _ _ _ _ _ _ _ hops hrep hrep' hI hthread hR'⟩
  | ret hthread => exact ⟨R, hrep, hret _ _ _ _ _ _ hI hthread⟩
  | abandon hthread => exact ⟨R, hrep, habandon _ _ _ _ _ _ hI hthread⟩

/-- Every reachable table encodes a registry. -/
theorem SystemRun.represents {svc : Service} {tr : List SystemLabel} {w : SystemWorld}
    (hrun : SystemRun svc (World.idle ∅) tr w) : ∃ R, Represents R w.store := by
  obtain ⟨R, hrep, -⟩ := SystemRun.registry_invariant (I := fun _ _ _ => True) trivial
    (fun _ _ _ _ _ _ _ _ => trivial) (fun _ _ _ _ _ _ _ _ _ _ _ _ _ _ _ _ => trivial)
    (fun _ _ _ _ _ _ _ _ => trivial) (fun _ _ _ _ _ _ _ _ => trivial) hrun
  exact ⟨R, hrep⟩

end ProjectsApi
