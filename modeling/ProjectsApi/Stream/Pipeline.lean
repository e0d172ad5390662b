import ProjectsApi.Stream.Creates

/-!
# Nothing is lost on the way

The closed system of the API, the table, its stream and the provisioner.  As long as no handler
is abandoned and no outcome fails to be recorded, every project is finished, or its record is on
the stream and has not been acknowledged yet, or a handler is at work on it.  So once all records
are acknowledged and no handler is left, every project is READY, FAILED or deleted.
-/

namespace ProjectsApi

open Foundation Dynamo Program

section Pipeline

variable [CaseTables]

/-! ## What is said of a run -/

/-- A delivery of the record returned normally. -/
def Acknowledged (tr : List SystemLabel) (record : StreamRecord) : Prop :=
  ∃ i value, .ret i (.recordHandler record) (.ok value) ∈ tr

/-- No handler with a project to begin was abandoned, and every outcome could be recorded. -/
structure Undisturbed (tr : List SystemLabel) : Prop where
  notAbandoned : ∀ i record, record.project? ≠ none → .abandon i (.recordHandler record) ∉ tr
  failedWritten : ∀ l ∈ tr, ∀ id, ¬ RecordingFailed id .failed l
  readyWritten : ∀ l ∈ tr, ∀ id, ¬ RecordingFailed id .ready l

/-- What there is of the project under an id. -/
inductive Tended (tr : List SystemLabel) (s : StreamState) (id : String) : Prop where
  /-- It is READY, FAILED or deleted, or there is none. -/
  | finished (hsettled : Settled s.1.store id)
  /-- Its record has yet to be processed. -/
  | waiting (p : Project) (hp : p.status = .created) (hid : p.projectId = id)
      (hrecord : insertRecord p ∈ s.2) (hnot : ¬ Acknowledged tr (insertRecord p))
      (hstatus : storedStatus s.1.store id = some .created)
  /-- A handler is at work on it. -/
  | working (p : Project) (hp : p.status = .created) (hid : p.projectId = id)
      (hrecord : insertRecord p ∈ s.2)
      (hthread : ∃ i t, s.1.threads i = some t ∧ t.call = .recordHandler (insertRecord p))
      (hstatus : storedStatus s.1.store id = some .provisioning)

/-! ## The beginning of a project -/

/-- The moment a stored project was written: nothing had been delivered for it. -/
structure Birth (svc : Service) (tr : List SystemLabel) (life : Lifecycle)
    (stream : List StreamRecord) (p : Project) : Prop where
  new : p.status = .created
  recorded : insertRecord p ∈ stream
  moment : ∃ tr₁ tr₂ life₁, tr = tr₁ ++ tr₂ ∧ LifecycleRun svc Lifecycle.initial tr₁ life₁ ∧
    LifecycleRun svc life₁ tr₂ life ∧
    life₁.registry.find? p.projectId = some { project := p } ∧
    ∀ i record, .invoke i (.recordHandler record) ∈ tr₁ → record.project? ≠ some p.projectId

section Birth

variable {svc : Service} {tr : List SystemLabel} {life life' : Lifecycle} {l : SystemLabel}
  {stream records : List StreamRecord} {p : Project}

theorem Birth.step (h : Birth svc tr life stream p) (hstep : LifecycleStep svc life l life') :
    Birth svc (tr ++ [l]) life' (stream ++ records) p where
  new := h.new
  recorded := List.mem_append_left _ h.recorded
  moment := by
    obtain ⟨tr₁, tr₂, life₁, rfl, hrun₁, hrun₂, hwritten, hnone⟩ := h.moment
    exact ⟨tr₁, tr₂ ++ [l], life₁, by simp, hrun₁, .snoc hrun₂ hstep, hwritten, hnone⟩

/-- A pipeline run, told by its lifecycle. -/
structure Flow (svc : Service) (tr : List SystemLabel) (life : Lifecycle)
    (stream : List StreamRecord) : Prop where
  run : LifecycleRun svc Lifecycle.initial tr life
  streams : Streams svc tr life stream
  /-- Only records of the stream have been delivered. -/
  delivered : ∀ i record, .invoke i (.recordHandler record) ∈ tr → record ∈ stream
  /-- Every stored project has a beginning. -/
  birth : ∀ id e, life.registry.find? id = some e →
    ∃ p, p.projectId = id ∧ Birth svc tr life stream p

/-- No handler has been invoked for a project that is about to be written. -/
theorem Flow.undelivered (h : Flow svc tr life stream) {i : Nat}
    (hcall : life.calls i = some (.create p, .creating)) :
    ∀ j record, .invoke j (.recordHandler record) ∈ tr → record.project? ≠ some p.projectId := by
  intro j record hinvoke hproject
  exact h.streams.not_requested hcall
    (mem_requested.mpr ⟨record, h.delivered j record hinvoke, hproject⟩)

variable {t t' : Table}

/-- The rule for one step. -/
theorem Flow.step (h : Flow svc tr life stream) (hfresh : FreshIds (tr ++ [l]))
    (hstep : LifecycleStep svc life l life')
    (hdelivered : ∀ i record, l = .invoke i (.recordHandler record) → record ∈ stream)
    (hrep : Represents life.registry t) (hrep' : Represents life'.registry t')
    (hrecords : Publishes changeRecord (fun key => t.lookup key) (fun key => t'.lookup key)
      records) : Flow svc (tr ++ [l]) life' (stream ++ records) where
  run := .snoc h.run hstep
  streams := h.streams.step hfresh (LifecycleRun.exists_inStage h.run hfresh.of_append_left) hstep
    hrep hrep' hrecords
  delivered i record hinvoke := by
    rcases List.mem_append.mp hinvoke with hold | hnew
    · exact List.mem_append_left _ (h.delivered i record hold)
    · exact List.mem_append_left _ (hdelivered i record (List.mem_singleton.mp hnew).symm)
  birth id e he := by
    cases hbefore : life.registry.find? id with
    | some e₀ =>
        obtain ⟨p, hid, hbirth⟩ := h.birth id e₀ hbefore
        exact ⟨p, hid, hbirth.step hstep⟩
    | none =>
        -- the project is written by this very step
        obtain ⟨i, p, answer, hp, rfl, rfl, hcall, -, rfl⟩ := hstep.inserted hbefore he
        have hnone : t.lookup (recordKey p.projectId) = none := by rw [hrep.record, hbefore]; rfl
        have hsome : t'.lookup (recordKey p.projectId) = some (projectItem p) := by
          rw [hrep'.record, he, Option.map_some, recordItem_of_project]
        refine ⟨p, rfl, hp, List.mem_append_right _ ?_, _, [], life', by simp, .snoc h.run hstep,
          .nil, he, ?_⟩
        · exact hrecords.mem (ne_of_key hnone hsome) (by rw [hnone, hsome]; rfl)
        · intro j record hinvoke
          rcases List.mem_append.mp hinvoke with hold | hnew
          · exact h.undelivered hcall j record hold
          · cases List.mem_singleton.mp hnew

variable [DatetimeParser]

theorem PipelineRun.flow {s : StreamState} (hrun : PipelineRun svc .initial tr s)
    (hcalls : CallsIn Call.Ordinary tr) (hfresh : FreshIds tr) :
    ∃ life, life.Encodes s.1 ∧ Flow svc tr life s.2 := by
  induction hrun with
  | nil =>
      refine ⟨_, Lifecycle.encodes_initial, .nil, .initial, ?_, ?_⟩
      · intro i record hinvoke
        cases hinvoke
      · intro id e he
        cases he
  | @snoc tr mid s' l hrun hstep ih =>
      obtain ⟨life, hencodes, hflow⟩ := ih hcalls.of_append_left hfresh.of_append_left
      obtain ⟨⟨hworld, records, hrecords, hfeed⟩, hdelivered⟩ := hstep
      obtain ⟨life', hstep', hencodes'⟩ := hencodes.step
        (fun i c hl => hcalls i c (by simp [hl])) hworld
      refine ⟨life', hencodes', ?_⟩
      rw [hfeed]
      exact hflow.step hfresh hstep' (fun i record hl => (hdelivered i record hl).1)
        hencodes.represents hencodes'.represents hrecords

end Birth

/-! ## Its end -/

section Settling

variable {svc : Service} {tr : List SystemLabel} {life : Lifecycle} {stream : List StreamRecord}
  {p : Project}

/-- Only one record of the stream has the project to begin. -/
theorem Streams.eq_insertRecord (h : Streams svc tr life stream) (hp : p.status = .created)
    (hrecord : insertRecord p ∈ stream) {record : StreamRecord} (hmem : record ∈ stream)
    (hproject : record.project? = some p.projectId) : record = insertRecord p := by
  by_contra hne
  have hsymm : Std.Symm fun a b : StreamRecord => ∀ id, a.project? = some id →
      ∀ id', b.project? = some id' → id ≠ id' :=
    ⟨fun a b hab id hid id' hid' heq => hab id' hid' id hid heq.symm⟩
  have hpairwise := List.pairwise_filterMap.mp
    (show (stream.filterMap StreamRecord.project?).Nodup from h.once)
  exact hpairwise.forall hmem hrecord hne _ hproject _ (project?_insertRecord hp) rfl

/-- Every step after the project was written is a good one. -/
theorem Flow.goodStep (h : Flow svc tr life stream) (hundisturbed : Undisturbed tr)
    (hp : p.status = .created) (hrecord : insertRecord p ∈ stream) {l : SystemLabel}
    (hl : l ∈ tr) : GoodStep p l where
  delivery i record heq hproject := by
    subst heq
    exact h.streams.eq_insertRecord hp hrecord (h.delivered i record hl) hproject
  notAbandoned i heq := by
    subst heq
    refine hundisturbed.notAbandoned i (insertRecord p) ?_ hl
    rw [project?_insertRecord hp]
    exact Option.some_ne_none _
  failedWritten := hundisturbed.failedWritten l hl p.projectId
  readyWritten := hundisturbed.readyWritten l hl p.projectId

omit [CaseTables] in
/-- No status leads back to CREATED. -/
theorem eq_created_of_statusPath {status : ProjectStatus}
    (h : Relation.ReflTransGen StatusEdge status .created) : status = .created := by
  rcases h.cases_tail with heq | ⟨mid, -, hedge⟩
  · exact heq.symm
  · exact absurd rfl hedge.target_ne_created

/-- A handler that returned normally has moved its project on. -/
theorem Settling.moved_on {tr₁ tr₂ : List SystemLabel} {life₁ : Lifecycle}
    (h : Settling tr₁ life₁ p) (hsvc : svc.Transient) (hp : p.status = .created)
    (hfresh : FreshIds (tr₁ ++ tr₂)) (hrun : LifecycleRun svc life₁ tr₂ life)
    (hgood : ∀ l ∈ tr₂, GoodStep p l) {i : Nat} {value : Value}
    (hret : .ret i (.recordHandler (insertRecord p)) (.ok value) ∈ tr₂) {e : Entry}
    (he : life.registry.find? p.projectId = some e) : e.project.status ≠ .created := by
  obtain ⟨before, after, mid, next, rfl, hbefore, hstep, hafter⟩ := hrun.at_mem hret
  have hfresh' : FreshIds (tr₁ ++ (before ++ [.ret i (.recordHandler (insertRecord p))
      (.ok value)]) ++ after) := by simpa using hfresh
  -- up to the moment when the handler returns
  have hmid : Settling (tr₁ ++ before) mid p := by
    refine h.run hsvc hp hbefore ?_ fun l hl => hgood l (List.mem_append_left _ hl)
    rw [← List.append_assoc] at hfresh'
    exact hfresh'.of_append_left.of_append_left
  have hnext := hmid.step hsvc hp (by simpa using hfresh'.of_append_left)
    (hgood _ (by simp)) hstep
  have htold : ∀ e, next.registry.find? p.projectId = some e → e.project.status ≠ .created := by
    cases hstep with
    | ret hcall hends => exact fun e he => hmid.told i _ hcall (told_of_ends hp hends) e he
  -- and since then
  obtain ⟨st, hst, hborn⟩ := hnext.born
  obtain ⟨e₀, he₀, hpath⟩ := LifecycleRun.status_path hst hborn hafter (by simpa using hfresh') he
  intro hcreated
  rw [hcreated] at hpath
  exact htold e₀ he₀ (eq_created_of_statusPath hpath)

/-- What returned was invoked. -/
theorem LifecycleRun.invoked_of_ret (hrun : LifecycleRun svc Lifecycle.initial tr life) {i : Nat}
    {c : Call} {r : Result} (hret : .ret i c r ∈ tr) : .invoke i c ∈ tr := by
  obtain ⟨before, after, mid, next, rfl, hbefore, hstep, -⟩ := hrun.at_mem hret
  cases hstep with
  | ret hcall hends => exact List.mem_append_left _ (LifecycleRun.invoked hbefore hcall)

end Settling

/-! ## The pipeline -/

section Main

variable [DatetimeParser] {svc : Service} {tr : List SystemLabel} {s : StreamState}

/-- No project is lost in the pipeline. -/
theorem PipelineRun.tended (hrun : PipelineRun svc .initial tr s) (hsvc : svc.Transient)
    (hundisturbed : Undisturbed tr) (hcalls : CallsIn Call.Ordinary tr) (hfresh : FreshIds tr)
    (id : String) : Tended tr s id := by
  obtain ⟨life, hencodes, hflow⟩ := hrun.flow hcalls hfresh
  have hstatus := hencodes.represents.storedStatus_eq id
  cases he : life.registry.find? id with
  | none => exact .finished (Or.inl (by rw [hencodes.represents.record, he]; rfl))
  | some e =>
      rw [he, Option.map_some] at hstatus
      obtain ⟨p, rfl, hp, hrecord, tr₁, tr₂, life₁, rfl, hrun₁, hrun₂, hwritten, hnone⟩ :=
        hflow.birth id e he
      have hgood : ∀ l ∈ tr₂, GoodStep p l := fun l hl =>
        hflow.goodStep hundisturbed hp hrecord (List.mem_append_right _ hl)
      have hinitial : Settling tr₁ life₁ p :=
        Settling.initial hrun₁ hfresh.of_append_left hwritten hp hnone hp
      have hsettling := hinitial.run hsvc hp hrun₂ hfresh hgood
      cases hcase : e.project.status with
      | created =>
          rw [hcase] at hstatus
          refine .waiting p hp rfl hrecord ?_ hstatus
          intro hacknowledged
          obtain ⟨i, value, hret⟩ := hacknowledged
          rcases List.mem_append.mp hret with hbefore | hafter
          · exact hnone i _ (hrun₁.invoked_of_ret hbefore) (project?_insertRecord hp)
          · exact hinitial.moved_on hsvc hp hfresh hrun₂ hgood hafter he hcase
      | provisioning =>
          rw [hcase] at hstatus
          -- somebody has a role
          have hrole : ∃ i q, life.role p.projectId i = some q := by
            by_contra hnobody
            refine hsettling.notStuck ⟨e, he, hcase, fun i => ?_⟩
            exact Option.eq_none_iff_forall_ne_some.mpr fun q hq => hnobody ⟨i, q, hq⟩
          obtain ⟨i, q, hrole⟩ := hrole
          obtain ⟨t, ht, hcall⟩ := hencodes.call_iff.mp ⟨q, (hsettling.handler_of_role hrole).1⟩
          exact .working p hp rfl hrecord ⟨i, t, ht, hcall⟩ hstatus
      | ready => exact .finished (Or.inr (Or.inl (hcase ▸ hstatus)))
      | failed => exact .finished (Or.inr (Or.inr (hcase ▸ hstatus)))

/-- In every run of the pipeline each project is finished, waiting or being worked on; and once
every record with work is acknowledged and no handler is in flight, it is finished. -/
theorem nothing_is_lost (hrun : PipelineRun svc .initial tr s) (hsvc : svc.Transient)
    (hundisturbed : Undisturbed tr) (hcalls : CallsIn Call.Ordinary tr) (hfresh : FreshIds tr) :
    (∀ id, Tended tr s id) ∧
    ((∀ record ∈ s.2, record.project? ≠ none → Acknowledged tr record) →
      (∀ i t record, s.1.threads i = some t → t.call ≠ .recordHandler record) →
        ∀ id, Settled s.1.store id) := by
  have htended := hrun.tended hsvc hundisturbed hcalls hfresh
  refine ⟨htended, fun hacknowledged hidle id => ?_⟩
  cases htended id with
  | finished hsettled => exact hsettled
  | waiting p hp hid hrecord hnot hstatus =>
      refine absurd (hacknowledged _ hrecord ?_) hnot
      rw [project?_insertRecord hp]
      exact Option.some_ne_none _
  | working p hp hid hrecord hthread hstatus =>
      obtain ⟨i, t, ht, hcall⟩ := hthread
      exact absurd hcall (hidle i t _ ht)

end Main

end Pipeline

section Instance

open scoped Sample

/-- The sample project is written, and whatever happens later writes no other. -/
theorem fromWrite_sample {svc : Service} {tr : List SystemLabel} {record : StreamRecord}
    (h : FromWrite svc (createRun sampleProject ++ tr) record)
    (hnone : ∀ i p answer,
      .exec i (.create p) (.transactWriteItems (createActions p)) answer ∉ tr) :
    record = insertRecord sampleProject := by
  obtain ⟨i, p, answer, -, rfl, -, hmem⟩ := h
  rcases List.mem_append.mp hmem with hcreate | hlater
  · simp [createRun, soloLabels] at hcreate
    rw [hcreate.2.1]
  · exact absurd hlater (hnone i p answer)

/-- The call that delivers the sample project. -/
def deliverSample : Call := .recordHandler (insertRecord sampleProject)

/-- The history of a delivery of the sample project after its creation. -/
def deliveryLabels (ops : List ((op : Op) × op.Ans)) : List SystemLabel :=
  .invoke 0 deliverSample :: soloLabels 0 deliverSample ops (.ok .unit)

theorem callsIn_deliveryLabels (ops : List ((op : Op) × op.Ans)) :
    CallsIn Call.Ordinary (createRun sampleProject ++ deliveryLabels ops) :=
  (callsIn_createRun rfl).append (CallsIn.cons trivial ((noCalls_soloLabels _ _ _ _).callsIn _))

theorem freshIds_deliveryLabels (ops : List ((op : Op) × op.Ans)) :
    FreshIds (createRun sampleProject ++ deliveryLabels ops) := by
  rw [FreshIds, createdIds_append, createdIds_createRun]
  change (sampleProject.projectId :: createdIds (soloLabels 0 deliverSample ops _)).Nodup
  rw [createdIds_of_noCalls (noCalls_soloLabels _ _ _ _)]
  exact List.nodup_singleton _

/-- The record of the sample is on the stream once it is created. -/
theorem sample_on_stream {svc : Service} {t : Table} {stream : List StreamRecord}
    (hrun : StreamRun svc .initial (createRun sampleProject) (World.idle t, stream))
    (hwritten : t.lookup (recordKey sampleProject.projectId) = some (projectItem sampleProject)) :
    insertRecord sampleProject ∈ stream := by
  have hfresh : FreshIds (createRun sampleProject) := by
    rw [FreshIds, createdIds_createRun]
    exact List.nodup_singleton _
  obtain ⟨life, -, hencodes, hstreams⟩ := hrun.streams (callsIn_createRun rfl) hfresh
  obtain ⟨e, he, -⟩ := hencodes.represents.record_eq_some.mp hwritten
  obtain ⟨record, hrecord, hproject⟩ := mem_requested.mp (hstreams.complete _ e he)
  have horigin := hstreams.origin record hrecord (by simp [hproject])
  rw [← List.append_nil (createRun sampleProject)] at horigin
  exact fromWrite_sample horigin (fun _ _ _ hmem => by cases hmem) ▸ hrecord

/-- The sample project in the pipeline. -/
theorem sample_pipeline :
    ∃ ops t stream, PipelineRun (Service.reference stubProvision) .initial
        (createRun sampleProject ++ deliveryLabels ops) (World.idle t, stream) ∧
      t.lookup (recordKey sampleProject.projectId) ≠ none := by
  obtain ⟨t, hbefore, hwritten, hstatus⟩ := sample_written (Service.reference stubProvision)
  obtain ⟨stream, hcreated⟩ := hbefore.exists_streamRun []
  obtain ⟨ops, htraced⟩ := (eval_deliver (p := sampleProject) rfl hwritten hstatus
    (show (Service.reference stubProvision).provision _ (.result {}) from rfl)
    sampleTime sampleTime).traced
  have hdelivery : SystemRun (Service.reference stubProvision) (World.idle t) (deliveryLabels ops)
      (World.idle (t.insert (recordKey sampleProject.projectId) _)) :=
    Run.of_traced (M := system (Service.reference stubProvision)) (w := World.idle t)
      (c := deliverSample) 0 rfl (htraced.map _)
  obtain ⟨stream', hdelivered⟩ := hdelivery.exists_streamRun stream
  refine ⟨ops, _, stream', (hcreated.pipelineRun ?_).append (hdelivered.pipelineRun ?_), ?_⟩
  · intro i record hmem
    simp [createRun, soloLabels] at hmem
  · intro i record hmem
    simp [deliveryLabels, deliverSample, soloLabels] at hmem
    rw [hmem.2]
    exact ⟨sample_on_stream hcreated hwritten,
      mappingAccepts_of_project? (project?_insertRecord rfl)⟩
  · rw [Finmap.lookup_insert]
    exact Option.some_ne_none _

/-- The sample project is created, delivered and done with. -/
theorem nothing_is_lost_of_sample :
    ∃ tr s, PipelineRun (Service.reference stubProvision) .initial tr s ∧
      s.1.store.lookup (recordKey sampleProject.projectId) ≠ none ∧
      ∀ id, Settled s.1.store id := by
  have hsvc : (Service.reference stubProvision).Faultless := Service.reference_faultless _
  obtain ⟨ops, t, stream, hpipeline, hstored⟩ := sample_pipeline
  have hsystem := FeedStep.run hpipeline.streamRun
  have hundisturbed : Undisturbed (createRun sampleProject ++ deliveryLabels ops) := by
    constructor
    · intro i record _ hmem
      simp [createRun, deliveryLabels, soloLabels] at hmem
    · exact fun l hl id => SystemRun.not_recordingFailed hsvc hsystem hl
    · exact fun l hl id => SystemRun.not_recordingFailed hsvc hsystem hl
  obtain ⟨-, hdrained⟩ := nothing_is_lost hpipeline hsvc.transient hundisturbed
    (callsIn_deliveryLabels ops) (freshIds_deliveryLabels ops)
  refine ⟨_, _, hpipeline, hstored, hdrained ?_ fun i t record ht => by cases ht⟩
  intro record hmem hproject
  obtain ⟨_, -, -, hstreams⟩ := hpipeline.streamRun.streams (callsIn_deliveryLabels ops)
    (freshIds_deliveryLabels ops)
  rw [fromWrite_sample (hstreams.origin record hmem hproject) ?_]
  · exact ⟨0, .unit, by simp [deliveryLabels, deliverSample, soloLabels]⟩
  · intro i p answer hexec
    simp [deliveryLabels, deliverSample, soloLabels] at hexec

end Instance

end ProjectsApi
