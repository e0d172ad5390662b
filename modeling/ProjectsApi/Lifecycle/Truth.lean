import ProjectsApi.Lifecycle.Safety

/-!
# The recorded outcome is the truth

A READY record carries what the only call of `provision` for it returned, a FAILED one
why that call raised, and no other record carries either.  A handler that cannot record
its outcome has a reason: its project was deleted after it had begun it.
-/

namespace ProjectsApi

open Foundation Dynamo Program

/-! ## Failure reasons -/

/-- `str(exc)[:500] or "unknown error"` -/
theorem boundedReason_cases (text : String) :
    (text ≠ "" ∧ ProjectStatusStore.boundedReason text = String.ofList (text.toList.take 500)) ∨
      text = "" ∧ ProjectStatusStore.boundedReason text = "unknown error" := by
  by_cases htext : text = ""
  · subst htext
    exact Or.inr ⟨rfl, rfl⟩
  · refine Or.inl ⟨htext, if_neg fun hempty => htext ?_⟩
    -- the first 500 characters are missing only if there are none
    have hlist := congrArg String.toList hempty
    rw [String.toList_ofList, String.toList_empty, List.take_eq_nil_iff] at hlist
    rcases hlist with hzero | hnil
    · cases hzero
    · exact String.toList_eq_nil_iff.mp hnil

theorem boundedReason_length (text : String) :
    1 ≤ (ProjectStatusStore.boundedReason text).length ∧
      (ProjectStatusStore.boundedReason text).length ≤ 500 := by
  rcases boundedReason_cases text with ⟨hne, heq⟩ | ⟨-, heq⟩
  · rw [heq, ← String.length_toList, String.toList_ofList, List.length_take]
    have hpos : 0 < text.toList.length :=
      List.length_pos_iff.mpr fun hnil => hne (String.toList_eq_nil_iff.mp hnil)
    omega
  · rw [heq]
    decide

/-! ## Records -/

/-- What a record says about provisioning is what happened. -/
structure Truthful (tr : List SystemLabel) (id : String) (item : Item) : Prop where
  /-- READY: the only call of `provision` returned this endpoint, if not empty. -/
  ready : item.lookup "status" = some (.S ProjectStatus.ready.value) →
    ∃ result, outcomes tr id = [.result result] ∧
      (∀ value, item.lookup "endpoint" = some value ↔
        ∃ endpoint, result.endpoint = some endpoint ∧ endpoint ≠ "" ∧ value = .S endpoint) ∧
      item.lookup "failureReason" = none
  /-- FAILED: the only call of `provision` raised with this text. -/
  failed : item.lookup "status" = some (.S ProjectStatus.failed.value) →
    ∃ text reason, outcomes tr id = [.raised text] ∧
      item.lookup "failureReason" = some (.S reason) ∧
      (text ≠ "" ∧ reason = String.ofList (text.toList.take 500) ∨
        text = "" ∧ reason = "unknown error") ∧
      1 ≤ reason.length ∧ reason.length ≤ 500 ∧ item.lookup "endpoint" = none
  /-- Before that nothing is recorded. -/
  unfinished : item.lookup "status" = some (.S ProjectStatus.created.value) ∨
      item.lookup "status" = some (.S ProjectStatus.provisioning.value) →
    item.lookup "endpoint" = none ∧ item.lookup "failureReason" = none

section Outcomes

variable [CaseTables]

section Records

variable {tr : List SystemLabel} {s : Lifecycle} {id : String} {st : Stage} {e : Entry}

theorem recordItem_status_iff (e : Entry) (status : ProjectStatus) :
    (recordItem e).lookup "status" = some (.S status.value) ↔ e.project.status = status := by
  rw [recordItem_status, Option.some_inj, AttributeValue.S.injEq,
    ProjectStatus.value_injective.eq_iff]

/-- A record with a final status belongs to a finished project. -/
theorem InStage.finished_of_status (h : InStage tr s id st) (he : s.registry.find? id = some e)
    (hcreated : e.project.status ≠ .created) (hprovisioning : e.project.status ≠ .provisioning) :
    ∃ outcome, ProjectsApi.outcomes tr id = [outcome] ∧ e.Records outcome := by
  have hallows := h.entry e he
  have houtcomes := h.outcomes
  cases st with
  | absent | pending => exact hallows.elim
  | fresh => exact absurd hallows.status hcreated
  | claimed | provisioned | lost => exact absurd hallows.status hprovisioning
  | finished outcome => exact ⟨outcome, houtcomes, hallows⟩

theorem InStage.truthful (h : InStage tr s id st) (he : s.registry.find? id = some e) :
    Truthful tr id (recordItem e) where
  ready hstatus := by
    rw [recordItem_status_iff] at hstatus
    obtain ⟨outcome, houtcomes, hrecords⟩ :=
      h.finished_of_status he (by simp [hstatus]) (by simp [hstatus])
    cases outcome with
    | raised text =>
        have hcontra := hstatus.symm.trans hrecords.status
        cases hcontra
    | result result =>
        refine ⟨result, houtcomes, fun value => ?_, ?_⟩
        · rw [recordItem_endpoint, hrecords.endpoint]
          change Option.map AttributeValue.S (result.endpoint.filter _) = some value ↔ _
          cases result.endpoint with
          | none => simp
          | some endpoint =>
              -- an empty endpoint is not written
              by_cases hempty : endpoint = "" <;> simp [Option.filter, hempty, eq_comm]
        · rw [recordItem_failureReason, hrecords.failureReason]
          rfl
  failed hstatus := by
    rw [recordItem_status_iff] at hstatus
    obtain ⟨outcome, houtcomes, hrecords⟩ :=
      h.finished_of_status he (by simp [hstatus]) (by simp [hstatus])
    cases outcome with
    | result result =>
        have hcontra := hstatus.symm.trans hrecords.status
        cases hcontra
    | raised text =>
        obtain ⟨hpos, hlong⟩ := boundedReason_length text
        refine ⟨text, _, houtcomes, ?_, boundedReason_cases text, hpos, hlong, ?_⟩
        · rw [recordItem_failureReason, hrecords.failureReason]
          rfl
        · rw [recordItem_endpoint, hrecords.endpoint]
          rfl
  unfinished hstatus := by
    rw [recordItem_status_iff, recordItem_status_iff] at hstatus
    rw [recordItem_endpoint, recordItem_failureReason]
    have hallows := h.entry e he
    -- before an outcome is recorded no stage has written either attribute
    cases st with
    | absent | pending => exact hallows.elim
    | fresh | claimed | provisioned | lost =>
        rw [hallows.endpoint, hallows.failureReason]
        exact ⟨rfl, rfl⟩
    | finished outcome =>
        rw [hallows.status] at hstatus
        cases outcome <;> rcases hstatus with hstatus | hstatus <;> cases hstatus

end Records

/-! ## Deleted after begin -/

/-- Handler `i` has begun the project. -/
def BegunBy (tr : List SystemLabel) (i : Nat) (id : String) : Prop :=
  ∃ before record now after, tr = before ++ .exec i (.recordHandler record)
    (.updateItem (Transition.begin.request id now)) (.ok ()) :: after

/-- Handler `i` has begun the project, and later it was deleted. -/
def DeletedAfterBegin (tr : List SystemLabel) (i : Nat) (id : String) : Prop :=
  ∃ begun between, tr = begun ++ between ∧ BegunBy begun i id ∧
    ∃ j ownerId name, Label.exec j (.delete id ownerId)
      (.transactWriteItems (deleteActions id name ownerId)) (.ok ()) ∈ between

omit [CaseTables] in
theorem BegunBy.append {tr : List SystemLabel} {i : Nat} {id : String} (h : BegunBy tr i id)
    (tr' : List SystemLabel) : BegunBy (tr ++ tr') i id := by
  obtain ⟨before, record, now, after, rfl⟩ := h
  exact ⟨before, record, now, after ++ tr', by simp⟩

theorem DeletedAfterBegin.append {tr : List SystemLabel} {i : Nat} {id : String}
    (h : DeletedAfterBegin tr i id) (tr' : List SystemLabel) :
    DeletedAfterBegin (tr ++ tr') i id := by
  obtain ⟨begun, between, rfl, hbegun, j, ownerId, name, hmem⟩ := h
  exact ⟨begun, between ++ tr', by simp, hbegun, j, ownerId, name,
    List.mem_append_left _ hmem⟩

section Step

variable {svc : Service} {s s' : Lifecycle} {l : SystemLabel} {id : String}

/-- No record vanishes by a transition. -/
theorem Wrote.find?_eq_none {tr : Transition} {projectId : String} {now : Datetime}
    {R R' : Projects} {answer : Except ClientError Unit}
    (h : Wrote svc.updateFault R (R.transition tr projectId now) answer R')
    (hgone : R'.find? id = none) : R.find? id = none := by
  obtain ⟨-, rfl⟩ | ⟨-, -, rfl⟩ := h.transition_cases
  · exact hgone
  · rw [Projects.find?_move] at hgone
    split at hgone
    · subst id
      exact Option.map_eq_none_iff.mp hgone
    · exact hgone

/-- A record vanishes by a delete only. -/
theorem LifecycleStep.vanishes (hsvc : svc.Transient) (hstep : LifecycleStep svc s l s')
    {e : Entry} (he : s.registry.find? id = some e) (hgone : s'.registry.find? id = none) :
    ∃ j ownerId name, l = .exec j (.delete id ownerId)
      (.transactWriteItems (deleteActions id name ownerId)) (.ok ()) := by
  have hstays : ∀ {P : Prop}, s.registry.find? id = none → P := by
    intro P hnone
    rw [he] at hnone
    cases hnone
  cases hstep with
  | create hp hcall hwrote =>
      rw [Lifecycle.setCall_registry] at hgone
      obtain ⟨-, rfl⟩ | ⟨-, -, hname, rfl⟩ := hwrote.create_cases
      · exact hstays hgone
      · rw [Registry.find?_add] at hgone
        split at hgone
        · cases hgone
        · exact hstays hgone
  | @delete i projectId ownerId name q answer R' hcall hwrote =>
      obtain ⟨-, rfl⟩ | ⟨htook, -, -, rfl⟩ := hwrote.delete_cases
      · exact hstays hgone
      · rw [Registry.find?_remove] at hgone
        split at hgone
        · subst id
          exact ⟨i, ownerId, name, by rw [hsvc.transact_ok htook]⟩
        · exact hstays hgone
  | begin hcall hproject hwrote => exact hstays (hwrote.find?_eq_none hgone)
  | recording hcall hproject hwrote => exact hstays (hwrote.find?_eq_none hgone)
  | invoke | quiet | provision | warn | ret | abandon => exact hstays hgone

/-- A stored project that is stored no longer has been deleted since its begin. -/
theorem BegunBy.deleted {tr : List SystemLabel} {i : Nat} (h : BegunBy tr i id)
    (hsvc : svc.Transient) (hstep : LifecycleStep svc s l s') {e : Entry}
    (he : s.registry.find? id = some e) (hgone : s'.registry.find? id = none) :
    DeletedAfterBegin (tr ++ [l]) i id := by
  obtain ⟨j, ownerId, name, hl⟩ := hstep.vanishes hsvc he hgone
  exact ⟨tr, [l], rfl, h, j, ownerId, name, by rw [hl]; exact List.mem_singleton_self _⟩

end Step

/-- The handler has begun its project, and was not told that its outcome is recorded. -/
def Phase.Unrecorded : Phase → Prop
  | claimed => True
  | provisioned _ => True
  | unrecorded => True
  | _ => False

omit [CaseTables] in
theorem Phase.not_unrecorded_afterBegin (e : ClientError) :
    ¬ (Phase.afterBegin (.error e)).Unrecorded := by
  rw [Phase.afterBegin]
  split <;> exact id

/-- What is known of a handler that has begun its project: the project was deleted since,
if it is missing, and it is missing, if the handler was refused. -/
structure BeganTruly (tr : List SystemLabel) (s : Lifecycle) (i : Nat) (id : String)
    (q : Phase) : Prop where
  begun : BegunBy tr i id
  born : ∃ st, InStage tr s id st ∧ st.Born
  deleted : s.registry.find? id = none → DeletedAfterBegin tr i id
  refused : q = .unrecorded → s.registry.find? id = none

/-- Every handler that has begun its project has begun it truly. -/
def AllBeganTruly (tr : List SystemLabel) (s : Lifecycle) : Prop :=
  ∀ i record q id, s.calls i = some (.recordHandler record, q) → record.project? = some id →
    q.Unrecorded → BeganTruly tr s i id q

section Invariant

variable {svc : Service} {tr : List SystemLabel} {s s' : Lifecycle} {l : SystemLabel}
  {id : String} {i : Nat} {q q' : Phase}

/-- A handler that holds its project is refused only if the project is gone. -/
theorem InStage.gone_of_refused {st : Stage} (hst : InStage tr s id st) (hsvc : svc.Transient)
    {record : StreamRecord} {outcome : ProvisionOutcome} {now : Datetime}
    {answer : Except ClientError Unit} {R' : Projects}
    (hcall : s.calls i = some (.recordHandler record, .provisioned outcome))
    (hproject : record.project? = some id)
    (hwrote : Wrote svc.updateFault s.registry
      (s.registry.transition outcome.recording id now) answer R')
    (hrefused : Phase.afterRecording answer = .unrecorded) :
    s.registry.find? id = none := by
  cases answer with
  | ok => cases hrefused
  | error e =>
      rw [Phase.afterRecording] at hrefused
      split at hrefused
      · rename_i hcode
        have hnot := hwrote.refused hsvc hcode
        have hworker : st = .provisioned i outcome := by
          refine Stage.eq_of_role_provisioned ((hst.role i).symm.trans ?_)
          simp [Lifecycle.role, hcall, roleIn, hproject]
        subst hworker
        cases he : s.registry.find? id with
        | none => rfl
        | some e' =>
            -- a stored project would still be PROVISIONING
            have hexpected : outcome.recording.expected = .provisioning := by
              cases outcome <;> rfl
            exact absurd ⟨e', he, (hst.entry e' he).status.trans hexpected.symm⟩ hnot
      · cases hrefused

/-- The rule for one step: the facts about a handler are kept, and a refusal is either
older or justified by the step. -/
theorem BeganTruly.step (h : BeganTruly tr s i id q) (hsvc : svc.Transient)
    (hfresh : FreshIds (tr ++ [l])) (hstep : LifecycleStep svc s l s')
    (hq' : q' = .unrecorded → q = .unrecorded ∨ s.registry.find? id = none) :
    BeganTruly (tr ++ [l]) s' i id q' where
  begun := h.begun.append [l]
  born := by
    obtain ⟨st, hst, hborn⟩ := h.born
    obtain ⟨st', hst', hleads⟩ := hst.step hfresh hstep
    exact ⟨st', hst', hleads.born hborn⟩
  deleted hgone := by
    cases he : s.registry.find? id with
    | none => exact (h.deleted he).append [l]
    | some e => exact h.begun.deleted hsvc hstep he hgone
  refused hrefused := by
    obtain ⟨st, hst, hborn⟩ := h.born
    have hnone : s.registry.find? id = none := (hq' hrefused).elim h.refused fun hnone => hnone
    cases he' : s'.registry.find? id with
    | none => rfl
    | some e' =>
        obtain ⟨e, he, -⟩ := hstep.status_of_born hst hborn he'
        rw [hnone] at he
        cases he

/-- The handler of which `begin` has just returned true. -/
theorem BeganTruly.begin {record : StreamRecord} {now : Datetime} {R' : Projects}
    (hstages : ∃ st, InStage tr s id st) (hfresh : FreshIds
      (tr ++ [.exec i (.recordHandler record)
        (.updateItem (Transition.begin.request id now)) (.ok ())]))
    (hcall : s.calls i = some (.recordHandler record, .idle))
    (hproject : record.project? = some id)
    (hwrote : Wrote svc.updateFault s.registry (s.registry.transition .begin id now)
      (.ok ()) R') :
    BeganTruly (tr ++ [.exec i (.recordHandler record)
        (.updateItem (Transition.begin.request id now)) (.ok ())])
      ({ s with registry := R' }.setCall i (some (.recordHandler record, .claimed))) i id
      .claimed := by
  have hcases := hwrote.transition_cases
  obtain ⟨hquiet, -⟩ | ⟨-, ⟨e, he, -⟩, hR'⟩ := hcases
  · exact absurd rfl hquiet
  · refine ⟨⟨tr, record, now, [], rfl⟩, ?_, fun hgone => ?_, fun hcontra => by cases hcontra⟩
    · obtain ⟨st, hst⟩ := hstages
      obtain ⟨st', hst', hleads⟩ := hst.step hfresh (.begin hcall hproject hwrote)
      exact ⟨st', hst', hleads.born (hst.born he)⟩
    · rw [Lifecycle.setCall_registry, hR', Projects.find?_move, if_pos rfl, he] at hgone
      cases hgone

theorem AllBeganTruly.step (h : AllBeganTruly tr s) (hsvc : svc.Transient)
    (hstages : ∀ id, ∃ st, InStage tr s id st) (hfresh : FreshIds (tr ++ [l]))
    (hstep : LifecycleStep svc s l s') : AllBeganTruly (tr ++ [l]) s' := by
  intro j record q id hcall' hproject hq
  -- a handler in the phase it was in
  have hkeep : s.calls j = some (.recordHandler record, q) →
      BeganTruly (tr ++ [l]) s' j id q := by
    intro hold
    exact (h j record q id hold hproject hq).step hsvc hfresh hstep Or.inl
  have hcases := hstep
  cases hcases with
  | invoke c hfree =>
      rcases Lifecycle.setCall_origin hcall' with ⟨-, hset⟩ | hold
      · obtain ⟨rfl, rfl⟩ := Prod.mk.inj (Option.some.inj hset)
        exact hq.elim
      · exact hkeep hold
  | @begin i record' projectId now answer R' hcall hproject' hwrote =>
      rcases Lifecycle.setCall_origin hcall' with ⟨rfl, hset⟩ | hold
      · obtain ⟨hrecord, rfl⟩ := Prod.mk.inj (Option.some.inj hset)
        obtain rfl := Call.recordHandler.inj hrecord
        obtain rfl := Option.some.inj (hproject'.symm.trans hproject)
        cases answer with
        | ok => exact BeganTruly.begin (hstages _) hfresh hcall hproject hwrote
        | error e => exact absurd hq (Phase.not_unrecorded_afterBegin e)
      · exact hkeep hold
  | @provision i record' request outcome hcall hproject' houtcome =>
      rcases Lifecycle.setCall_origin hcall' with ⟨rfl, hset⟩ | hold
      · obtain ⟨hrecord, rfl⟩ := Prod.mk.inj (Option.some.inj hset)
        obtain rfl := Call.recordHandler.inj hrecord
        refine (h _ _ _ _ hcall hproject trivial).step hsvc hfresh hstep ?_
        intro hcontra
        cases hcontra
      · exact hkeep hold
  | @recording i record' projectId outcome now answer R' hcall hproject' hwrote =>
      rcases Lifecycle.setCall_origin hcall' with ⟨rfl, hset⟩ | hold
      · obtain ⟨hrecord, rfl⟩ := Prod.mk.inj (Option.some.inj hset)
        obtain rfl := Call.recordHandler.inj hrecord
        obtain rfl := Option.some.inj (hproject'.symm.trans hproject)
        obtain ⟨st, hst⟩ := hstages projectId
        -- the only step that refuses a handler its project
        refine (h _ _ _ _ hcall hproject trivial).step hsvc hfresh hstep fun hrefused => Or.inr ?_
        exact hst.gone_of_refused hsvc hcall hproject hwrote hrefused
      · exact hkeep hold
  | create | ret | abandon =>
      rcases Lifecycle.setCall_origin hcall' with ⟨-, hset⟩ | hold
      · cases hset
      · exact hkeep hold
  | quiet | delete | warn => exact hkeep hcall'

theorem LifecycleRun.allBeganTruly (hsvc : svc.Transient)
    (hrun : LifecycleRun svc Lifecycle.initial tr s) (hfresh : FreshIds tr) :
    AllBeganTruly tr s := by
  induction hrun with
  | nil => exact fun i record q id hcall => by cases hcall
  | snoc hrun hstep ih =>
      exact (ih hfresh.of_append_left).step hsvc
        (LifecycleRun.exists_inStage hrun hfresh.of_append_left) hfresh hstep

/-- A handler whose update was refused holds a project that is gone. -/
theorem LifecycleStep.refused (hsvc : svc.Transient) (hstep : LifecycleStep svc s l s')
    (hstages : ∀ id, ∃ st, InStage tr s id st) (hbegan : AllBeganTruly tr s)
    {record : StreamRecord} {T : Transition} {now : Datetime} {e : ClientError}
    (hT : T ≠ .begin) (hcode : e.code = "ConditionalCheckFailedException")
    (hl : l = .exec i (.recordHandler record) (.updateItem (T.request id now)) (.error e)) :
    s.registry.find? id = none ∧ DeletedAfterBegin tr i id := by
  have hexpected : T.expected = .provisioning := by
    cases T with
    | begin => exact absurd rfl hT
    | complete | fail => rfl
  cases hstep with
  | quiet hcall hop =>
      cases hop <;> cases hl
  | create | delete | invoke | provision | warn | ret | abandon => cases hl
  | @begin _ _ projectId now' answer _ hcall hproject hwrote =>
      -- a `begin` expects another status
      have hrequest : Transition.begin.request projectId now' = T.request id now := by
        injection hl with _ _ hop
        exact Op.updateItem.inj hop
      have hcontra := (expected_of_request hrequest).trans hexpected
      cases hcontra
  | @recording _ record' projectId outcome now' answer R' hcall hproject hwrote =>
      injection hl with hi hc hop hanswer
      have hid := projectId_of_request (Op.updateItem.inj hop)
      obtain rfl : answer = .error e := hanswer
      subst hi hid
      obtain ⟨st, hst⟩ := hstages projectId
      have hgone := hst.gone_of_refused hsvc hcall hproject hwrote (if_pos hcode)
      exact ⟨hgone, (hbegan _ _ _ _ hcall hproject trivial).deleted hgone⟩

/-- The warning that an outcome is not recorded speaks of a project that is gone. -/
theorem LifecycleStep.warned (hstep : LifecycleStep svc s l s') (hbegan : AllBeganTruly tr s)
    {c : Call} {target : ProjectStatus}
    (hl : l = .exec i c (.log (notRecordedEntry target id)) ()) :
    s.registry.find? id = none := by
  cases hstep with
  | quiet hcall hop =>
      cases hop with
      | log hlevel =>
          injection hl with _ _ hop
          rw [Op.log.inj hop] at hlevel
          exact absurd rfl hlevel
      | _ => cases hl
  | @warn _ record projectId target' hcall hproject =>
      injection hl with _ _ hop
      have hfields := congrArg LogEntry.fields (Op.log.inj hop)
      obtain rfl : projectId = id := by simpa [notRecordedEntry] using hfields
      exact (hbegan _ _ _ _ hcall hproject trivial).refused rfl
  | create | delete | invoke | begin | provision | recording | ret | abandon => cases hl

end Invariant

variable [DatetimeParser]

/-- The recorded outcome of provisioning is the truth, and the handler fails to record it
only for a project that was deleted after the handler had begun it. -/
theorem outcome_is_truth {svc : Service} (hsvc : svc.Transient) {tr : List SystemLabel}
    {w : SystemWorld} (hrun : SystemRun svc (World.idle ∅) tr w)
    (hcalls : CallsIn Call.Ordinary tr) (hfresh : FreshIds tr) :
    (∀ id item, w.store.lookup (recordKey id) = some item → Truthful tr id item) ∧
    ∀ l w', Step (system svc) w l w' →
      (∀ i record T id now e, T ≠ Transition.begin →
        l = .exec i (.recordHandler record) (.updateItem (T.request id now)) (.error e) →
        e.code = "ConditionalCheckFailedException" →
        w.store.lookup (recordKey id) = none ∧ DeletedAfterBegin tr i id) ∧
      ∀ i c target id, l = .exec i c (.log (notRecordedEntry target id)) () →
        w.store.lookup (recordKey id) = none := by
  obtain ⟨s, hlife, hencodes⟩ := SystemRun.lifecycle Lifecycle.encodes_initial hcalls hrun
  have hstages := LifecycleRun.exists_inStage hlife hfresh
  have hbegan := LifecycleRun.allBeganTruly hsvc hlife hfresh
  have hgone : ∀ id, s.registry.find? id = none → w.store.lookup (recordKey id) = none := by
    intro id hnone
    rw [hencodes.represents.record, hnone]
    rfl
  refine ⟨fun id item hitem => ?_, fun l w' hstep => ⟨?_, ?_⟩⟩
  · obtain ⟨e, he, rfl⟩ := hencodes.represents.record_eq_some.mp hitem
    obtain ⟨st, hst⟩ := hstages id
    exact hst.truthful he
  · intro i record T id now e hT hl hcode
    obtain ⟨s', hstep', -⟩ := hencodes.step
      (fun j c hinvoke => by rw [hl] at hinvoke; cases hinvoke) hstep
    obtain ⟨hnone, hdeleted⟩ := hstep'.refused hsvc hstages hbegan hT hcode hl
    exact ⟨hgone id hnone, hdeleted⟩
  · intro i c target id hl
    obtain ⟨s', hstep', -⟩ := hencodes.step
      (fun j d hinvoke => by rw [hl] at hinvoke; cases hinvoke) hstep
    exact hgone id (hstep'.warned hbegan hl)

end Outcomes

section Instance

open scoped Sample

theorem outcome_is_truth_on_delivery :
    ∃ tr w item, SystemRun (Service.reference fun _ =>
        .result { endpoint := some "https://my-app.example" }) (World.idle ∅) tr w ∧
      w.store.lookup (recordKey sampleProject.projectId) = some item ∧
      item.lookup "status" = some (.S ProjectStatus.ready.value) ∧
      Truthful tr sampleProject.projectId item := by
  obtain ⟨tr, w, hrun, hcalls, hfresh, hitem⟩ := sample_delivery fun _ =>
    .result { endpoint := some "https://my-app.example" }
  exact ⟨tr, w, _, hrun, hitem, Transition.applyItem_status _ _ _ _,
    (outcome_is_truth (Service.reference_faultless _).transient hrun hcalls hfresh).1 _ _ hitem⟩

end Instance

end ProjectsApi
