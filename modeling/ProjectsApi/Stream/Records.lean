import ProjectsApi.Foundation.ChangeFeed
import ProjectsApi.Lifecycle.Retries
import ProjectsApi.Provisioner.Replay

/-!
# The stream of the table

The table has a stream: for every item that a write changes, one record with the new image of
the item.  `StreamRun` is the system with its stream, `PipelineRun` the closed system, in which
the record handler is invoked on records of the stream only, those that the filter of the event
source mapping lets through.  A record may be delivered any number of times, at any later time
and in any order, which is all that batches, retries and bisection can bring about.
-/

namespace ProjectsApi

open Foundation Dynamo

/-! ## Records -/

/-- The record of a change of an item. -/
def changeRecord : Option Item → Option Item → Option StreamRecord
  | none, none => none
  | none, some item => some ⟨some "INSERT", some item⟩
  | some _, none => some ⟨some "REMOVE", none⟩
  | some before, some after => if before = after then none else some ⟨some "MODIFY", some after⟩

/-- A record with a project to begin is the INSERT of an item. -/
theorem changeRecord_eq_some {before after : Option Item} {record : StreamRecord} {id : String}
    (h : changeRecord before after = some record) (hproject : record.project? = some id) :
    ∃ item, before = none ∧ after = some item ∧ record = ⟨some "INSERT", some item⟩ := by
  rcases before with _ | before <;> rcases after with _ | after
  · cases h
  · exact ⟨after, rfl, rfl, (Option.some.inj h).symm⟩
  · -- a REMOVE is skipped
    obtain rfl := Option.some.inj h
    simp [StreamRecord.project?] at hproject
  · -- and so is a MODIFY
    obtain ⟨-, hmodify⟩ := Option.ite_none_left_eq_some.mp h
    obtain rfl := Option.some.inj hmodify
    simp [StreamRecord.project?] at hproject

/-- The image of a record with a project to begin is that of a project. -/
theorem entity_of_project? {name : Option String} {item : Item} {id : String}
    (h : (⟨name, some item⟩ : StreamRecord).project? = some id) :
    item.lookup "entity" = some (.S "PROJECT") := by
  unfold StreamRecord.project? at h
  split_ifs at h
  dsimp only at h
  split_ifs at h with hempty hentity
  exact not_not.mp hentity

/-! ## The event source mapping -/

/-- The filter of the event source mapping: `eventName` is `INSERT`, and
`dynamodb.NewImage.entity.S` is `PROJECT`. -/
def mappingAccepts (record : StreamRecord) : Bool :=
  record.eventName == some "INSERT" &&
    (record.newImage.bind fun image => image.lookup "entity") == some (.S "PROJECT")

/-- The filter drops no record with a project to begin. -/
theorem mappingAccepts_of_project? {record : StreamRecord} {id : String}
    (h : record.project? = some id) : mappingAccepts record = true := by
  obtain ⟨name, image⟩ := record
  have hname : name = some "INSERT" := by
    by_contra hne
    rw [StreamRecord.project?, if_pos hne] at h
    cases h
  cases image with
  | none =>
      rw [StreamRecord.project?, hname] at h
      simp at h
  | some item => simp [mappingAccepts, hname, entity_of_project? h]

/-! ## The system with its stream -/

variable [CaseTables] [DatetimeParser]

/-- The world, and the records of the stream so far. -/
abbrev StreamState : Type := SystemWorld × List StreamRecord

/-- A step of the system, and what it appends to the stream. -/
abbrev StreamStep (svc : Service) : StreamState → SystemLabel → StreamState → Prop :=
  FeedStep (Step (system svc)) changeRecord fun (w : SystemWorld) (key : Key) => w.store.lookup key

abbrev StreamRun (svc : Service) : StreamState → List SystemLabel → StreamState → Prop :=
  Run (StreamStep svc)

/-- No table, no calls, no records. -/
def StreamState.initial : StreamState := (World.idle ∅, [])

/-- Every run of the system has a stream. -/
theorem SystemRun.exists_streamRun {svc : Service} {w w' : SystemWorld} {tr : List SystemLabel}
    (hrun : SystemRun svc w tr w') (stream : List StreamRecord) :
    ∃ stream', StreamRun svc (w, stream) tr (w', stream') :=
  FeedStep.exists_run (fun w w' => exists_publishes changeRecord w.store w'.store) hrun stream

/-- A step of the closed system. -/
structure PipelineStep (svc : Service) (s : StreamState) (l : SystemLabel) (s' : StreamState) :
    Prop where
  step : StreamStep svc s l s'
  /-- Only what the mapping takes from the stream is delivered. -/
  delivered : ∀ i record, l = .invoke i (.recordHandler record) →
    record ∈ s.2 ∧ mappingAccepts record = true

abbrev PipelineRun (svc : Service) : StreamState → List SystemLabel → StreamState → Prop :=
  Run (PipelineStep svc)

/-- A run that delivers only what was on the stream at its start. -/
theorem StreamRun.pipelineRun {svc : Service} {s s' : StreamState} {tr : List SystemLabel}
    (h : StreamRun svc s tr s') (hdelivered : ∀ i record, .invoke i (.recordHandler record) ∈ tr →
      record ∈ s.2 ∧ mappingAccepts record = true) : PipelineRun svc s tr s' := by
  induction h with
  | nil => exact .nil
  | snoc hrun hstep ih =>
      refine .snoc (ih fun i record hmem => hdelivered i record (List.mem_append_left _ hmem))
        ⟨hstep, fun i record hl => ?_⟩
      obtain ⟨hrecord, haccepts⟩ := hdelivered i record (by simp [hl])
      exact ⟨FeedStep.mem_feed hrun hrecord, haccepts⟩

theorem PipelineRun.streamRun {svc : Service} {s s' : StreamState} {tr : List SystemLabel}
    (h : PipelineRun svc s tr s') : StreamRun svc s tr s' :=
  h.mono fun _ _ _ hstep => hstep.step

end ProjectsApi
