import ProjectsApi.Foundation.PhaseRun
import ProjectsApi.Lifecycle.Safety

/-!
# The provisioning metrics

The handler counts a project as provisioned once READY is written, and as failed once its
provisioner has raised.  A `Meter` says which count a handler owes, and an `Account` what has
become of the count of one project.  However often a project is delivered, it is counted at most
once, and never against the truth.
-/

namespace ProjectsApi

open Foundation Dynamo Program

/-! ## What a handler owes -/

/-- A count that is still to be made, or that depends on a write to come. -/
inductive Debt where
  /-- `provision` raised; the failure is not counted yet. -/
  | raised (text : String)
  /-- `provision` returned; READY is not written yet. -/
  | returned (result : ProvisionResult)
  /-- READY is written and not counted yet. -/
  | ready (result : ProvisionResult)
  deriving DecidableEq

/-- How far a record handler is from its count. -/
inductive Meter where
  /-- `provision` has not ended. -/
  | idle
  | owes (debt : Debt)
  /-- Nothing is owed any more. -/
  | settled
  deriving DecidableEq

instance : Inhabited Meter := ⟨.idle⟩

/-- What `provision` ended with. -/
def Debt.outcome : Debt → ProvisionOutcome
  | raised text => .raised text
  | returned result => .result result
  | ready result => .result result

/-- What is owed once `provision` has ended. -/
def Debt.ofOutcome : ProvisionOutcome → Debt
  | .raised text => raised text
  | .result result => returned result

@[simp] theorem Debt.outcome_ofOutcome (outcome : ProvisionOutcome) :
    (ofOutcome outcome).outcome = outcome := by
  cases outcome <;> rfl

namespace Meter

def debt? : Meter → Option Debt
  | owes debt => some debt
  | _ => none

/-- After `complete` was answered. -/
def afterComplete (result : ProvisionResult) : Except ClientError Unit → Meter
  | .ok () => owes (.ready result)
  | .error _ => settled

end Meter

/-- The operations that have nothing to do with the counts. -/
def Unmetered : Op → Prop
  | .provision _ => False
  | .addMetric _ => False
  | .updateItem request => ∃ tr id now, request = Transition.request tr id now ∧ tr.target ≠ .ready
  | _ => True

/-- The moves of a record handler between its meters. -/
inductive Metered (record : StreamRecord) : Protocol Op Op.Ans Meter where
  | other {q : Meter} {op : Op} (hop : Unmetered op) : Metered record q op fun _ => q
  | provision {request : ProvisionRequest} (hproject : record.project? = some request.projectId) :
      Metered record .idle (.provision request)
        fun outcome => .owes (.ofOutcome outcome)
  | failed {text : String} :
      Metered record (.owes (.raised text)) (.addMetric "ProjectsProvisioningFailed")
        fun _ => .settled
  | complete {result : ProvisionResult} {projectId : String} {now : Datetime}
      (hproject : record.project? = some projectId) :
      Metered record (.owes (.returned result))
        (.updateItem ((Transition.complete result).request projectId now))
        (Meter.afterComplete result)
  | provisioned {result : ProvisionResult} :
      Metered record (.owes (.ready result)) (.addMetric "ProjectsProvisioned") fun _ => .settled

/-! ## The handler keeps to it -/

section Handler

variable {record : StreamRecord} {projectId : String}

theorem metered_skip {q : Meter} {entry : LogEntry} (hq : q.debt? = none) :
    Follows (Metered record) (fun q (_ : Except Exn Unit) => q.debt? = none) q (do
      Action.log entry
      return .ok ()) :=
  Follows.step _ (.other trivial) fun _ => hq

/-- A transition to another status than READY changes nothing of what is owed. -/
theorem metered_transition (tr : Transition) (htarget : tr.target ≠ .ready) {q : Meter}
    {ends : Meter → Except Exn Bool → Prop} (hends : ∀ r, ends q r) :
    Follows (Metered record) ends q (tr.run projectId) := by
  have hmove : ∀ now, Metered record q (.updateItem (tr.request projectId now))
      fun _ : Except ClientError Unit => q := by
    intro now
    apply Metered.other
    exact ⟨tr, projectId, now, rfl, htarget⟩
  refine follows_transition tr (.other trivial) hmove ?_ ?_ ?_
  · exact hends _
  · exact fun e _ => hends _
  · exact fun e _ => hends _

theorem metered_recordResult {request : ProvisionRequest} {result : ProvisionResult}
    (hproject : record.project? = some request.projectId) :
    Follows (Metered record) (fun q _ => q.debt? = none) (.owes (.returned result))
      (recordResult request result) := by
  refine Follows.bind (follows_transition (.complete result) (.other trivial)
    (fun now => .complete hproject) ?_ ?_ ?_)
  · -- READY is written, and then counted
    refine Follows.step _ .provisioned fun _ => ?_
    exact metered_skip rfl
  · exact fun e _ => metered_skip rfl
  · exact fun e _ => rfl

theorem metered_recordFailure {request : ProvisionRequest} {text : String} :
    Follows (Metered record) (fun q _ => q.debt? = none) (.owes (.raised text))
      (recordFailure request text) := by
  -- the failure is counted before it is recorded
  refine Follows.step _ (.other trivial) fun _ => Follows.step _ .failed fun _ => ?_
  simp only [bind_done]
  refine Follows.bind
    (metered_transition (.fail text) (by simp [Transition.target]) fun moved => ?_)
  rcases moved with exn | _ | _
  · rfl
  · exact metered_skip rfl
  · rfl

theorem metered_provisionProject {image : Item} {type : ProjectType}
    (hproject : record.project? = some projectId) :
    Follows (Metered record) (fun q _ => q.debt? = none) .idle
      (provisionProject image projectId type) := by
  unfold provisionProject
  cases imageText image "name" with
  | error exn => rfl
  | ok name =>
      cases imageText image "ownerId" with
      | error exn => rfl
      | ok ownerId =>
          refine Follows.step _ (.provision hproject) fun outcome => ?_
          cases outcome with
          | result result => exact metered_recordResult hproject
          | raised text => exact metered_recordFailure

theorem metered_handleProject {image : Item} (hproject : record.project? = imageProject? image) :
    Follows (Metered record) (fun q _ => q.debt? = none) .idle (handleProject image) := by
  unfold handleProject
  unfold imageProject? at hproject
  cases hid : imageText image "projectId" with
  | error exn => rfl
  | ok projectId =>
      cases htype : imageText image "type" with
      | error exn => rfl
      | ok typeText =>
          rw [hid, htype] at hproject
          dsimp only at hproject ⊢
          cases hvalue : ProjectType.ofValue? typeText with
          | none => rfl
          | some type =>
              rw [hvalue] at hproject
              refine Follows.bind (metered_transition .begin (by decide) fun moved => ?_)
              rcases moved with exn | _ | _
              · rfl
              · exact metered_skip rfl
              · exact metered_provisionProject hproject

theorem metered_recordHandler :
    Follows (Metered record) (fun q _ => q.debt? = none) .idle (recordHandler record) := by
  unfold recordHandler
  split
  · exact metered_skip rfl
  · rename_i hevent
    split
    · exact metered_skip rfl
    · rename_i image himage
      split
      · exact metered_skip rfl
      · split
        · exact metered_skip rfl
        · split
          · exact metered_skip rfl
          · exact metered_handleProject (by simp [StreamRecord.project?, *])

end Handler

/-! ## Every call keeps to it -/

section Calls

variable [CaseTables]

/-- The moves of a call: only a handler may provision, and only for its project. -/
def MeterMove : Call → Protocol Op Op.Ans Meter
  | .recordHandler record => Metered record
  | _ => fun q op after => (∀ request, op ≠ .provision request) ∧ after = fun _ => q

/-- A handler returns owing nothing. -/
def MeterEnds : Call → Meter → Result → Prop
  | .recordHandler _, q, _ => q.debt? = none
  | _, _, _ => True

/-- Only a handler calls `provision`. -/
theorem Move.not_provision {c : Call} {q : Phase} {op : Op} {after : op.Ans → Phase}
    (h : Move c q op after) (hc : ∀ record, c ≠ .recordHandler record)
    (request : ProvisionRequest) : op ≠ .provision request := by
  intro hop
  cases h with
  | quiet hquiet =>
      rw [hop] at hquiet
      cases hquiet
  | provision hproject => exact hc _ rfl
  | create | delete | begin | recording | warn => cases hop

theorem Call.metered [DatetimeParser] (c : Call) (hc : c.Ordinary) :
    Follows (MeterMove c) (MeterEnds c) .idle c.body := by
  have hother : (∀ record, c ≠ .recordHandler record) →
      c.body.AllOps fun op => ∀ request, op ≠ .provision request := by
    intro hnot
    refine (c.follows hc).allOps.mono ?_
    rintro op ⟨q, after, hmove⟩
    exact hmove.not_provision hnot
  cases c with
  | recordHandler record => exact Follows.map metered_recordHandler
  | transition tr projectId => exact hc.elim
  | create | get | delete | listByOwner | walk =>
      refine ((hother (by simp)).mono ?_).follows fun _ => trivial
      exact fun op hop => ⟨hop, rfl⟩

end Calls

/-! ## The account of a project -/

/-- The count that a handler makes of a project. -/
def metric? (id : String) : SystemLabel → Option String
  | .exec _ (.recordHandler record) (.addMetric name) _ =>
      if record.project? = some id then some name else none
  | _ => none

/-- The counts of the project in a history. -/
def metrics (tr : List SystemLabel) (id : String) : List String := tr.filterMap (metric? id)

theorem metrics_snoc (tr : List SystemLabel) (l : SystemLabel) (id : String) :
    metrics (tr ++ [l]) id = metrics tr id ++ (metric? id l).toList := by
  rw [metrics, List.filterMap_append]
  cases h : metric? id l <;> simp [metrics, h]

/-- A handler learns that READY is written. -/
def LearnsReady (id : String) (l : SystemLabel) : Prop :=
  ∃ i record result now, l = .exec i (.recordHandler record)
    (.updateItem ((Transition.complete result).request id now)) (.ok ())

/-- A handler that owed the count of the project was abandoned. -/
def HandlerLost (tr : List SystemLabel) (id : String) : Prop :=
  ∃ i record, .abandon i (.recordHandler record) ∈ tr ∧ record.project? = some id

/-- What has become of the count of a project. -/
inductive Account where
  | unprovisioned
  /-- Handler `i` owes it. -/
  | owes (i : Nat) (debt : Debt)
  | counted (outcome : ProvisionOutcome)
  /-- READY could not be written, so there is nothing to count. -/
  | refused (result : ProvisionResult)
  /-- The handler was abandoned. -/
  | dropped (debt : Debt)
  deriving DecidableEq

namespace Account

/-- The outcomes of provisioning so far. -/
def outcomes : Account → List ProvisionOutcome
  | unprovisioned => []
  | owes _ debt => [debt.outcome]
  | counted outcome => [outcome]
  | refused result => [.result result]
  | dropped debt => [debt.outcome]

/-- The counts that were made. -/
def metrics : Account → List String
  | counted (.raised _) => ["ProjectsProvisioningFailed"]
  | counted (.result _) => ["ProjectsProvisioned"]
  | _ => []

/-- A handler has learned that READY is written. -/
def Ready : Account → Prop
  | owes _ (.ready _) => True
  | counted (.result _) => True
  | dropped (.ready _) => True
  | _ => False

/-- Who owes the count, and which. -/
def debtor : Account → Option (Nat × Debt)
  | owes i debt => some (i, debt)
  | _ => none

theorem metrics_length (a : Account) : a.metrics.length ≤ 1 := by
  rcases a with _ | _ | (_ | _) | _ | _ <;> simp [metrics]

theorem eq_of_mem_metrics {a : Account} {name : String} (h : name ∈ a.metrics) :
    name = "ProjectsProvisioned" ∨ name = "ProjectsProvisioningFailed" := by
  rcases a with _ | _ | (_ | _) | _ | _ <;> simp_all [metrics]

theorem mem_metrics_provisioned {a : Account} :
    "ProjectsProvisioned" ∈ a.metrics ↔ ∃ result, a = counted (.result result) := by
  rcases a with _ | _ | (_ | _) | _ | _ <;> simp [metrics]

theorem mem_metrics_failed {a : Account} :
    "ProjectsProvisioningFailed" ∈ a.metrics ↔ ∃ text, a = counted (.raised text) := by
  rcases a with _ | _ | (_ | _) | _ | _ <;> simp [metrics]

/-- Where nobody owes the count and none was lost, it was made. -/
theorem eq_counted_of_ready {a : Account} (hnobody : a.debtor = none)
    (hkept : ∀ debt, a ≠ dropped debt) (h : a.Ready) : ∃ result, a = counted (.result result) := by
  cases a with
  | unprovisioned | refused => exact h.elim
  | owes i debt => cases hnobody
  | counted outcome =>
      cases outcome with
      | result result => exact ⟨result, rfl⟩
      | raised text => exact h.elim
  | dropped debt => exact absurd rfl (hkept debt)

theorem eq_counted_of_raised {a : Account} (hnobody : a.debtor = none)
    (hkept : ∀ debt, a ≠ dropped debt) {text : String} (h : .raised text ∈ a.outcomes) :
    a = counted (.raised text) := by
  cases a with
  | unprovisioned => cases h
  | owes i debt => cases hnobody
  | counted outcome => rw [List.mem_singleton.mp h]
  | refused result => cases List.mem_singleton.mp h
  | dropped debt => exact absurd rfl (hkept debt)

end Account

/-- What the call in a slot owes to the project. -/
def debtIn (id : String) : Option (Call × Meter) → Option Debt
  | some (.recordHandler record, q) => if record.project? = some id then q.debt? else none
  | _ => none

/-- The history and the meters agree on the account of the project. -/
structure InAccount (tr : List SystemLabel) (m : CallPhases Call Meter) (id : String)
    (a : Account) : Prop where
  outcomes : outcomes tr id = a.outcomes
  metrics : metrics tr id = a.metrics
  ready : (∃ l ∈ tr, LearnsReady id l) ↔ a.Ready
  debt : ∀ i, debtIn id (m i) = heldBy a.debtor i
  dropped : ∀ debt, a = .dropped debt → HandlerLost tr id

namespace InAccount

variable {tr : List SystemLabel} {m m' : CallPhases Call Meter} {id : String} {a a' : Account}
  {l : SystemLabel}

theorem initial (id : String) : InAccount [] (fun _ => none) id .unprovisioned where
  outcomes := rfl
  metrics := rfl
  ready := by simp [Account.Ready]
  debt _ := rfl
  dropped debt h := by cases h

/-- A step that has nothing to do with the count of the project. -/
theorem stay (h : InAccount tr m id a) (houtcome : outcome? id l = none)
    (hmetric : metric? id l = none) (hready : ¬ LearnsReady id l)
    (hdebt : ∀ j, debtIn id (m' j) = debtIn id (m j)) : InAccount (tr ++ [l]) m' id a where
  outcomes := by rw [outcomes_snoc, houtcome, h.outcomes]; simp
  metrics := by rw [metrics_snoc, hmetric, h.metrics]; simp
  ready := by rw [← h.ready]; simp [or_and_right, exists_or, hready]
  debt j := (hdebt j).trans (h.debt j)
  dropped debt ha := by
    obtain ⟨i, record, hmem, hproject⟩ := h.dropped debt ha
    exact ⟨i, record, List.mem_append_left _ hmem, hproject⟩

/-- A step of slot `i` that moves the account on, where nobody else owes anything. -/
theorem advance (h : InAccount tr m id a) (i : Nat) (new : Option Debt)
    (houtcomes : a.outcomes ++ (outcome? id l).toList = a'.outcomes)
    (hmetrics : a.metrics ++ (metric? id l).toList = a'.metrics)
    (hready : a.Ready ∨ LearnsReady id l ↔ a'.Ready)
    (hdebt : ∀ j, debtIn id (m' j) = if j = i then new else debtIn id (m j))
    (ha : ∀ debtor, a.debtor = some debtor → debtor.1 = i)
    (ha' : a'.debtor = new.map fun debt => (i, debt))
    (hdropped : ∀ debt, a' = .dropped debt → HandlerLost (tr ++ [l]) id) :
    InAccount (tr ++ [l]) m' id a' where
  outcomes := by rw [outcomes_snoc, h.outcomes, houtcomes]
  metrics := by rw [metrics_snoc, h.metrics, hmetrics]
  ready := by rw [← hready, ← h.ready]; simp [or_and_right, exists_or]
  debt j := by rw [hdebt, h.debt, heldBy_set ha ha']
  dropped := hdropped

/-- A handler in debt determines the account. -/
theorem eq_owes (h : InAccount tr m id a) {i : Nat} {record : StreamRecord} {debt : Debt}
    (hcall : m i = some (.recordHandler record, .owes debt))
    (hproject : record.project? = some id) : a = .owes i debt := by
  have hheld : heldBy a.debtor i = some debt := by
    rw [← h.debt, hcall, debtIn, if_pos hproject]
    rfl
  cases a with
  | owes j debt' =>
      obtain ⟨rfl, rfl⟩ := Prod.mk.inj (Option.some.inj (heldBy_eq_some.mp hheld))
      rfl
  | unprovisioned | counted | refused | dropped => cases heldBy_eq_some.mp hheld

/-- A project that was never provisioned has no account yet. -/
theorem eq_unprovisioned (h : InAccount tr m id a) (hnone : ProjectsApi.outcomes tr id = []) :
    a = .unprovisioned := by
  rw [h.outcomes] at hnone
  cases a with
  | unprovisioned => rfl
  | owes | counted | refused | dropped => cases hnone

end InAccount

/-! ## One step -/

section Step

variable {tr : List SystemLabel} {m m' : CallPhases Call Meter} {id : String} {a : Account}
  {l : SystemLabel}

theorem debtIn_update (i j : Nat) (slot : Option (Call × Meter)) :
    debtIn id (Function.update m i slot j) =
      if j = i then debtIn id slot else debtIn id (m j) := by
  rw [Function.update_apply]
  split <;> rfl

theorem debtIn_update_same {i : Nat} {slot : Option (Call × Meter)}
    (h : debtIn id slot = debtIn id (m i)) (j : Nat) :
    debtIn id (Function.update m i slot j) = debtIn id (m j) := by
  rw [debtIn_update]
  split
  · subst j
    exact h
  · rfl

theorem debtIn_of_project_ne {record : StreamRecord} {q : Meter}
    (hproject : record.project? ≠ some id) : debtIn id (some (.recordHandler record, q)) = none :=
  if_neg hproject

/-- Only a handler of the project owes its count. -/
theorem debtIn_eq_some {slot : Option (Call × Meter)} {debt : Debt}
    (h : debtIn id slot = some debt) :
    ∃ record, slot = some (.recordHandler record, .owes debt) ∧ record.project? = some id := by
  rcases slot with _ | ⟨c, q⟩
  · cases h
  · cases c with
    | recordHandler record =>
        obtain ⟨hproject, hq⟩ := Option.ite_none_right_eq_some.mp h
        cases q with
        | owes debt' =>
            obtain rfl := Option.some.inj hq
            exact ⟨record, rfl, hproject⟩
        | idle | settled => cases hq
    | create | get | delete | listByOwner | walk | transition => cases h

/-- The transition that `complete` makes is told by its update. -/
theorem LearnsReady.of_exec {i : Nat} {record : StreamRecord} {T : Transition} {projectId : String}
    {now : Datetime} {answer : Except ClientError Unit}
    (h : LearnsReady id (.exec i (.recordHandler record)
      (.updateItem (T.request projectId now)) answer)) :
    projectId = id ∧ T.target = .ready ∧ answer = .ok () := by
  obtain ⟨j, record', result, now', hl⟩ := h
  injection hl with _ _ hop hanswer
  have hrequest := Op.updateItem.inj hop
  exact ⟨projectId_of_request hrequest, target_of_request hrequest, hanswer⟩

/-- A handler of another project. -/
theorem InAccount.elsewhere (h : InAccount tr m id a) {i : Nat} {record : StreamRecord} {q : Meter}
    {op : Op} {after : op.Ans → Meter} {answer : op.Ans}
    (hcall : m i = some (.recordHandler record, q)) (hmove : Metered record q op after)
    (hproject : record.project? ≠ some id) :
    InAccount (tr ++ [.exec i (.recordHandler record) op answer])
      (Function.update m i (some (.recordHandler record, after answer))) id a := by
  refine h.stay ?_ ?_ ?_ (debtIn_update_same ?_)
  · cases hmove with
    | other hop => cases op <;> first | rfl | exact hop.elim
    | @provision request hrequest =>
        have hid : request.projectId ≠ id := by
          rintro rfl
          exact hproject hrequest
        exact if_neg hid
    | failed | complete | provisioned => rfl
  · cases op with
    | addMetric name => exact if_neg hproject
    | _ => rfl
  · intro hready
    cases hmove with
    | other hop =>
        obtain ⟨j, record', result, now, hl⟩ := hready
        injection hl with _ _ hop' _
        subst hop'
        obtain ⟨T, projectId, now', hrequest, htarget⟩ := hop
        exact htarget (target_of_request hrequest).symm
    | complete hcomplete =>
        obtain ⟨rfl, -, -⟩ := hready.of_exec
        exact hproject hcomplete
    | provision | failed | provisioned =>
        obtain ⟨j, record', result, now, hl⟩ := hready
        cases hl
  · rw [hcall, debtIn_of_project_ne hproject, debtIn_of_project_ne hproject]

/-- A move of the handler of the project. -/
theorem InAccount.handler (h : InAccount tr m id a) {i : Nat} {record : StreamRecord} {q : Meter}
    {op : Op} {after : op.Ans → Meter} {answer : op.Ans}
    (hcall : m i = some (.recordHandler record, q)) (hmove : Metered record q op after)
    (hproject : record.project? = some id)
    (hone :
      (ProjectsApi.outcomes (tr ++ [.exec i (.recordHandler record) op answer]) id).length ≤ 1) :
    ∃ a', InAccount (tr ++ [.exec i (.recordHandler record) op answer])
      (Function.update m i (some (.recordHandler record, after answer))) id a' := by
  have hdebt : ∀ (q' : Meter) j,
      debtIn id (Function.update m i (some (.recordHandler record, q')) j) =
        if j = i then q'.debt? else debtIn id (m j) := by
    intro q' j
    rw [debtIn_update, debtIn, if_pos hproject]
  have hself : ∀ debt debtor, (Account.owes i debt).debtor = some debtor → debtor.1 = i := by
    rintro debt debtor ⟨⟩
    rfl
  have hsilent : ∀ {op' : Op} {answer' : op'.Ans}, (∀ request, op' ≠ .updateItem request) →
      ¬ LearnsReady id (.exec i (.recordHandler record) op' answer') := by
    rintro op' answer' hnot ⟨j, record', result, now, hl⟩
    injection hl with _ _ hop
    exact hnot _ hop
  cases hmove with
  | other hop =>
      refine ⟨a, h.stay ?_ ?_ ?_ (debtIn_update_same (by rw [hcall]))⟩
      · cases op <;> first | rfl | exact hop.elim
      · cases op <;> first | rfl | exact hop.elim
      · rintro ⟨j, record', result, now, hl⟩
        injection hl with _ _ hop' _
        subst hop'
        obtain ⟨T, projectId, now', hrequest, htarget⟩ := hop
        exact htarget (target_of_request hrequest).symm
  | @provision request hrequest =>
      obtain rfl : request.projectId = id := Option.some.inj (hrequest.symm.trans hproject)
      have hown : outcome? request.projectId
          (.exec i (.recordHandler record) (.provision request) answer) = some answer := if_pos rfl
      rw [outcomes_snoc, hown, List.length_append] at hone
      -- a second outcome is excluded, so this is the first
      obtain rfl := h.eq_unprovisioned (List.length_eq_zero_iff.mp (by simpa using hone))
      refine ⟨.owes i (.ofOutcome answer), h.advance i (some (.ofOutcome answer)) ?_ ?_ ?_
        (hdebt _) (fun debtor hdebtor => by cases hdebtor) rfl fun debt hcontra => by cases hcontra⟩
      · rw [hown]
        simp [Account.outcomes]
      · rfl
      · cases answer <;> simp [Account.Ready, Debt.ofOutcome, hsilent]
  | @failed text =>
      obtain rfl := h.eq_owes hcall hproject
      refine ⟨.counted (.raised text), h.advance i none rfl ?_ ?_ (hdebt _) (hself _) rfl
        fun debt hcontra => by cases hcontra⟩
      · simp [metric?, hproject, Account.metrics]
      · simp [Account.Ready, hsilent]
  | @complete result projectId now hcomplete =>
      obtain rfl : projectId = id := Option.some.inj (hcomplete.symm.trans hproject)
      obtain rfl := h.eq_owes hcall hproject
      cases answer with
      | ok =>
          refine ⟨.owes i (.ready result), h.advance i (some (.ready result)) rfl rfl ?_ (hdebt _)
            (hself _) rfl fun debt hcontra => by cases hcontra⟩
          exact iff_of_true (Or.inr ⟨i, record, result, now, rfl⟩) trivial
      | error e =>
          refine ⟨.refused result, h.advance i none rfl rfl ?_ (hdebt _) (hself _) rfl
            fun debt hcontra => by cases hcontra⟩
          refine iff_of_false ?_ id
          rintro (hready | hready)
          · exact hready
          · cases hready.of_exec.2.2
  | @provisioned result =>
      obtain rfl := h.eq_owes hcall hproject
      refine ⟨.counted (.result result), h.advance i none rfl ?_ ?_ (hdebt _) (hself _) rfl
        fun debt hcontra => by cases hcontra⟩
      · simp [metric?, hproject, Account.metrics]
      · exact iff_of_true (Or.inl trivial) trivial

/-- Every step keeps or settles the account. -/
theorem InAccount.step (h : InAccount tr m id a)
    (hone : (ProjectsApi.outcomes (tr ++ [l]) id).length ≤ 1)
    (hstep : PhaseStep MeterMove MeterEnds (fun _ => Meter.idle) m l m') :
    ∃ a', InAccount (tr ++ [l]) m' id a' := by
  -- what a call that is not a handler of the project owes
  have hquiet : ∀ {i : Nat} {slot : Option (Call × Meter)}, debtIn id (m i) = none →
      debtIn id slot = none → ∀ j, debtIn id (Function.update m i slot j) = debtIn id (m j) :=
    fun hbefore hafter => debtIn_update_same (hafter.trans hbefore.symm)
  cases hstep with
  | @invoke i c hfree =>
      refine ⟨a, h.stay rfl rfl ?_ (hquiet (by rw [hfree]; rfl) ?_)⟩
      · rintro ⟨j, record, result, now, hl⟩
        cases hl
      · cases c with
        | recordHandler record => simp [debtIn, Meter.debt?]
        | _ => rfl
  | @exec i c q op after answer hcall hmove =>
      by_cases hc : ∃ record, c = .recordHandler record
      · obtain ⟨record, rfl⟩ := hc
        by_cases hproject : record.project? = some id
        · exact h.handler hcall hmove hproject hone
        · exact ⟨a, h.elsewhere hcall hmove hproject⟩
      · -- any other call stays where it is
        have hother : (∀ request, op ≠ .provision request) ∧ after = fun _ => q := by
          cases c with
          | recordHandler record => exact absurd ⟨record, rfl⟩ hc
          | _ => exact hmove
        obtain ⟨hnot, rfl⟩ := hother
        refine ⟨a, h.stay ?_ ?_ ?_ (debtIn_update_same (by rw [hcall]))⟩
        · cases op with
          | provision request => exact absurd rfl (hnot request)
          | _ => rfl
        · cases c with
          | recordHandler record => exact absurd ⟨record, rfl⟩ hc
          | _ => rfl
        · rintro ⟨j, record, result, now, hl⟩
          injection hl with _ hrecord
          exact hc ⟨record, hrecord⟩
  | @ret i c q r hcall hends =>
      refine ⟨a, h.stay rfl rfl ?_ (hquiet ?_ rfl)⟩
      · rintro ⟨j, record, result, now, hl⟩
        cases hl
      · rw [hcall]
        cases c with
        | recordHandler record => simp [debtIn, show q.debt? = none from hends]
        | _ => rfl
  | @abandon i c q hcall =>
      have hsilent : ¬ LearnsReady id (.abandon i c) := by
        rintro ⟨j, record, result, now, hl⟩
        cases hl
      cases howes : debtIn id (m i) with
      | none => exact ⟨a, h.stay rfl rfl hsilent (hquiet howes rfl)⟩
      | some debt =>
          -- the count is lost with the handler
          obtain ⟨record, hslot, hproject⟩ := debtIn_eq_some howes
          obtain ⟨rfl, rfl⟩ := Prod.mk.inj (Option.some.inj (hcall.symm.trans hslot))
          obtain rfl := h.eq_owes hcall hproject
          refine ⟨.dropped debt, h.advance i none rfl rfl ?_ (debtIn_update i · none) ?_ rfl ?_⟩
          · cases debt <;> simp [Account.Ready, hsilent]
          · rintro debtor ⟨⟩
            rfl
          · rintro debt' -
            exact ⟨i, record, by simp, hproject⟩

/-- At any time the project has an account. -/
theorem PhaseRun.inAccount (hrun : Run (PhaseStep MeterMove MeterEnds fun _ => Meter.idle)
    (fun _ => none) tr m) (hone : (outcomes tr id).length ≤ 1) : ∃ a, InAccount tr m id a := by
  induction hrun with
  | nil => exact ⟨_, InAccount.initial id⟩
  | snoc hrun hstep ih =>
      have hbefore := hone
      rw [outcomes_snoc, List.length_append] at hbefore
      obtain ⟨a, ha⟩ := ih (by omega)
      exact ha.step hone hstep

end Step

/-! ## The system -/

section System

variable [CaseTables] {svc : Service} {tr : List SystemLabel} {id : String}

omit [CaseTables] in
/-- READY is a last status. -/
theorem eq_ready_of_statusPath {status : ProjectStatus}
    (h : Relation.ReflTransGen StatusEdge .ready status) : status = .ready := by
  rcases h.cases_head with heq | ⟨mid, hedge, -⟩
  · exact heq.symm
  · cases hedge

/-- Once a handler has learned that READY is written, the project is READY as long as it is
stored. -/
theorem LifecycleRun.ready_of_learned {s : Lifecycle} {l : SystemLabel}
    (hrun : LifecycleRun svc Lifecycle.initial tr s) (hfresh : FreshIds tr) (hl : l ∈ tr)
    (hlearns : LearnsReady id l) {e : Entry} (he : s.registry.find? id = some e) :
    e.project.status = .ready := by
  obtain ⟨before, after, mid, next, rfl, hbefore, hstep, hafter⟩ := hrun.at_mem hl
  have hfresh' : FreshIds (before ++ [l] ++ after) := by simpa using hfresh
  obtain ⟨st, hst⟩ := LifecycleRun.exists_inStage hbefore hfresh.of_append_left id
  obtain ⟨st', hst', hleads⟩ := hst.step hfresh'.of_append_left hstep
  -- the step itself leaves the project READY
  have hnext : st.Born ∧ ∀ e', next.registry.find? id = some e' → e'.project.status = .ready := by
    obtain ⟨i, record, result, now, hl⟩ := hlearns
    cases hstep with
    | quiet hcall hop => cases hop <;> cases hl
    | begin hcall hproject hwrote =>
        -- a `begin` leads to another status
        injection hl with _ _ hop
        cases target_of_request (Op.updateItem.inj hop)
    | @recording _ _ projectId outcome now' answer R' hcall hproject hwrote =>
        injection hl with _ _ hop hanswer
        have hrequest := Op.updateItem.inj hop
        obtain rfl := projectId_of_request hrequest
        obtain rfl : answer = .ok () := hanswer
        obtain ⟨hquiet, -⟩ | ⟨-, ⟨e₀, he₀, -⟩, hR'⟩ := hwrote.transition_cases
        · exact absurd rfl hquiet
        · refine ⟨hst.born he₀, fun e' he' => ?_⟩
          rw [Lifecycle.setCall_registry, hR', Projects.find?_move, if_pos rfl, he₀,
            Option.map_some] at he'
          obtain rfl := Option.some.inj he'
          exact target_of_request hrequest
    | create | delete | invoke | provision | warn | ret | abandon => cases hl
  obtain ⟨hborn, hready⟩ := hnext
  obtain ⟨e₂, he₂, hpath⟩ := LifecycleRun.status_path hst' (hleads.born hborn) hafter hfresh' he
  rw [hready e₂ he₂] at hpath
  exact eq_ready_of_statusPath hpath

/-- A project whose provisioning raised is never READY. -/
theorem InStage.not_ready_of_raised {s : Lifecycle} {st : Stage} (hst : InStage tr s id st)
    {text : String} (hraised : ProjectsApi.outcomes tr id = [.raised text]) {e : Entry}
    (he : s.registry.find? id = some e) : e.project.status ≠ .ready := by
  have hallows := hst.entry e he
  rw [hst.outcomes] at hraised
  cases st with
  | absent | pending => exact hallows.elim
  | fresh | claimed => cases hraised
  | provisioned i outcome =>
      rw [hallows.status]
      decide
  | finished outcome =>
      obtain rfl := List.singleton_inj.mp hraised
      rw [hallows.status]
      simp [ProvisionOutcome.recording, Transition.target]
  | lost outcome =>
      rw [hallows.status]
      decide

/-- No handler of the project is in flight. -/
def Unattended (w : SystemWorld) (id : String) : Prop :=
  ∀ i t record, w.threads i = some t → t.call = .recordHandler record → record.project? ≠ some id

/-- The metrics tell the truth about a project. -/
structure CountedTruly (tr : List SystemLabel) (w : SystemWorld) (id : String) : Prop where
  once : (metrics tr id).length ≤ 1
  names : ∀ name ∈ metrics tr id,
    name = "ProjectsProvisioned" ∨ name = "ProjectsProvisioningFailed"
  provisioned : "ProjectsProvisioned" ∈ metrics tr id →
    (∃ l ∈ tr, LearnsReady id l) ∧ (∃ result, outcomes tr id = [.result result]) ∧
      ∀ status, storedStatus w.store id = some status → status = .ready
  failed : "ProjectsProvisioningFailed" ∈ metrics tr id →
    (∃ text, outcomes tr id = [.raised text]) ∧ storedStatus w.store id ≠ some .ready
  /-- No handler forgets to count a project that it knows to be READY. -/
  allProvisioned : Unattended w id → ¬ HandlerLost tr id → (∃ l ∈ tr, LearnsReady id l) →
    "ProjectsProvisioned" ∈ metrics tr id
  allFailed : Unattended w id → ¬ HandlerLost tr id → (∃ text, .raised text ∈ outcomes tr id) →
    "ProjectsProvisioningFailed" ∈ metrics tr id

variable [DatetimeParser]

/-- Whatever is delivered how often, fails or is abandoned: every project is counted at most once,
as what it is, and counted in the end unless its handler was abandoned. -/
theorem metrics_truthful {w : SystemWorld} (hrun : SystemRun svc (World.idle ∅) tr w)
    (hcalls : CallsIn Call.Ordinary tr) (hfresh : FreshIds tr) (id : String) :
    CountedTruly tr w id := by
  obtain ⟨s, hlife, hencodes⟩ := SystemRun.lifecycle Lifecycle.encodes_initial hcalls hrun
  obtain ⟨st, hst⟩ := LifecycleRun.exists_inStage hlife hfresh id
  obtain ⟨m, hphases, hm⟩ := Run.phases (fun c hc => c.metered hc) hcalls hrun
  obtain ⟨a, ha⟩ := PhaseRun.inAccount hphases hst.outcomes_length
  -- nobody in flight owes the count of an unattended project
  have hnobody : Unattended w id → a.debtor = none := by
    intro hunattended
    cases hdebtor : a.debtor with
    | none => rfl
    | some debtor =>
        obtain ⟨i, debt⟩ := debtor
        obtain ⟨record, hslot, hproject⟩ :=
          debtIn_eq_some ((ha.debt i).trans (heldBy_eq_some.mpr hdebtor))
        obtain ⟨t, ht, hcall⟩ := hm.call_iff.mp ⟨_, hslot⟩
        exact absurd hproject (hunattended i t record ht hcall)
  constructor
  · exact ha.metrics ▸ a.metrics_length
  · exact fun name hname => Account.eq_of_mem_metrics (ha.metrics ▸ hname)
  · intro hcounted
    obtain ⟨result, rfl⟩ := Account.mem_metrics_provisioned.mp (ha.metrics ▸ hcounted)
    obtain ⟨l, hl, hlearns⟩ := ha.ready.mpr trivial
    refine ⟨⟨l, hl, hlearns⟩, ⟨result, ha.outcomes⟩, fun status hstatus => ?_⟩
    rw [hencodes.represents.storedStatus_eq, Option.map_eq_some_iff] at hstatus
    obtain ⟨e, he, rfl⟩ := hstatus
    exact hlife.ready_of_learned hfresh hl hlearns he
  · intro hcounted
    obtain ⟨text, rfl⟩ := Account.mem_metrics_failed.mp (ha.metrics ▸ hcounted)
    refine ⟨⟨text, ha.outcomes⟩, fun hstatus => ?_⟩
    rw [hencodes.represents.storedStatus_eq, Option.map_eq_some_iff] at hstatus
    obtain ⟨e, he, hready⟩ := hstatus
    exact hst.not_ready_of_raised ha.outcomes he hready
  · intro hunattended hkept hlearned
    obtain ⟨result, hresult⟩ := Account.eq_counted_of_ready (hnobody hunattended)
      (fun debt hdropped => hkept (ha.dropped debt hdropped)) (ha.ready.mp hlearned)
    exact ha.metrics ▸ Account.mem_metrics_provisioned.mpr ⟨result, hresult⟩
  · intro hunattended hkept hraised
    obtain ⟨text, htext⟩ := hraised
    have hcounted := Account.eq_counted_of_raised (hnobody hunattended)
      (fun debt hdropped => hkept (ha.dropped debt hdropped)) (ha.outcomes ▸ htext)
    exact ha.metrics ▸ Account.mem_metrics_failed.mpr ⟨text, hcounted⟩

end System

section Instance

open scoped Sample

/-- The sample project is created, delivered and counted. -/
theorem metrics_truthful_on_delivery :
    ∃ tr w, SystemRun (Service.reference stubProvision) (World.idle ∅) tr w ∧
      CountedTruly tr w sampleProject.projectId := by
  obtain ⟨tr, w, hrun, hcalls, hfresh, -⟩ := sample_delivery stubProvision
  exact ⟨tr, w, hrun, metrics_truthful hrun hcalls hfresh sampleProject.projectId⟩

end Instance

end ProjectsApi
