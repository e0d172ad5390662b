import ProjectsApi.System.Sequential

/-!
# Concurrent creates of one name

DynamoDB may cancel a transaction because it overlaps another one on the same item.  The
first reason of the cancellation is then `TransactionConflict`, which `create` does not
take for a taken name.  Without such a cancellation a race of creates has one winner, and
all others learn that the name is taken.
-/

namespace ProjectsApi

open Foundation Dynamo Program

section Race

variable [CaseTables]

/-- A cancellation because of another transaction. -/
structure Conflict (e : ClientError) : Prop where
  code : e.code = "TransactionCanceledException"
  reason : ∃ rest, e.cancellationReasons = "TransactionConflict" :: rest

omit [CaseTables] in
/-- `create` lets the cancellation through. -/
theorem Conflict.createError {e : ClientError} (h : Conflict e) (name : String) :
    ProjectRepository.createError name e = .clientError e := by
  obtain ⟨rest, hreason⟩ := h.reason
  simp [ProjectRepository.createError, hreason]

variable [DatetimeParser]

theorem body_create (p : Project) : (Call.create p).body =
    .call (.transactWriteItems (createActions p)) fun answer =>
      .done ((ProjectRepository.createValue p answer).map Value.project) := by
  rw [Call.body, ProjectRepository.create_eq]
  rfl

/-- The steps of a system whose transactions may be cancelled: `mayCancel w i actions` says
that in the world `w` the transaction that thread `i` has in flight may be. -/
inductive RaceStep (svc : Service) (mayCancel : SystemWorld → Nat → List TransactItem → Prop) :
    SystemWorld → SystemLabel → SystemWorld → Prop where
  | regular {w w' : SystemWorld} {l : SystemLabel} (hstep : Step (system svc) w l w') :
      RaceStep svc mayCancel w l w'
  | conflict {w : SystemWorld} {i : Nat} {c : Call} {actions : List TransactItem}
      {next : Except ClientError Unit → Action Result} {e : ClientError}
      (hthread : w.threads i = some ⟨c, .call (.transactWriteItems actions) next⟩)
      (hcancel : mayCancel w i actions) (he : Conflict e) :
      RaceStep svc mayCancel w (.exec i c (.transactWriteItems actions) (.error e))
        (w.setThread i (some ⟨c, next (.error e)⟩))

/-- Runs of a race. -/
abbrev RaceRun (svc : Service) (mayCancel : SystemWorld → Nat → List TransactItem → Prop) :
    SystemWorld → List SystemLabel → SystemWorld → Prop :=
  Run (RaceStep svc mayCancel)

/-- Another transaction in flight writes an item that this one writes. -/
def Overlaps (w : SystemWorld) (i : Nat) (actions : List TransactItem) : Prop :=
  ∃ j c actions' next, j ≠ i ∧
    w.threads j = some ⟨c, .call (.transactWriteItems actions') next⟩ ∧
    ∃ action ∈ actions, ∃ action' ∈ actions', action.write.key? = action'.write.key?

/-! ## The outcome of a race -/

/-- What the creates of a history have returned. -/
def createReturns (tr : List SystemLabel) : List (Project × Result) :=
  tr.filterMap fun
    | .ret _ (.create p) r => some (p, r)
    | _ => none

/-- The create has returned its project. -/
def isWinner (x : Project × Result) : Bool := decide (x.2 = .ok (.project x.1))

/-- One `create` has returned its project, and all others have raised
`ProjectNameTakenError`. -/
def OneWinner (tr : List SystemLabel) : Prop :=
  (createReturns tr).countP isWinner = 1 ∧
    ∀ x ∈ createReturns tr, isWinner x = true ∨ x.2 = .error (.projectNameTaken x.1.name)

/-- A transaction of the history was cancelled because of another. -/
def Cancelled (tr : List SystemLabel) : Prop :=
  ∃ i c actions e, .exec i c (.transactWriteItems actions) (.error e) ∈ tr ∧ Conflict e

section Outcome

variable {tr tr' : List SystemLabel}

omit [CaseTables] [DatetimeParser]

theorem createReturns_append :
    createReturns (tr ++ tr') = createReturns tr ++ createReturns tr' :=
  List.filterMap_append

theorem Cancelled.append (h : Cancelled tr) : Cancelled (tr ++ tr') := by
  obtain ⟨i, c, actions, e, hmem, he⟩ := h
  exact ⟨i, c, actions, e, List.mem_append_left _ hmem, he⟩

/-- A cancellation is older than the last label, unless that is one. -/
theorem Cancelled.of_snoc {l : SystemLabel} (h : Cancelled (tr ++ [l]))
    (hl : ∀ i c actions e, l = .exec i c (.transactWriteItems actions) (.error e) → ¬ Conflict e) :
    Cancelled tr := by
  obtain ⟨i, c, actions, e, hmem, he⟩ := h
  rcases List.mem_append.mp hmem with hbefore | hlast
  · exact ⟨i, c, actions, e, hbefore, he⟩
  · exact absurd he (hl i c actions e (List.mem_singleton.mp hlast).symm)

end Outcome

/-! ## The race -/

/-- How far a race has come: the name is free; thread `i` has it for the project `p` and is
about to return; the winner has returned. -/
inductive RaceStage where
  | unclaimed
  | won (i : Nat) (p : Project)
  | decided
  deriving DecidableEq

/-- What a thread of the race is about to do. -/
inductive Racer (R : Projects) (k : String) (tr : List SystemLabel) (st : RaceStage) (i : Nat) :
    Thread Op Op.Ans Call Result → Prop where
  | waiting (p : Project) (hkey : nameKey p.name = k) (hid : R.find? p.projectId = none) :
      Racer R k tr st i ⟨.create p, (Call.create p).body⟩
  | winner (p : Project) (hst : st = .won i p) :
      Racer R k tr st i ⟨.create p, .done (.ok (.project p))⟩
  | loser (p : Project) (hst : st ≠ .unclaimed) :
      Racer R k tr st i ⟨.create p, .done (.error (.projectNameTaken p.name))⟩
  | cancelled (p : Project) {e : ClientError} (he : Conflict e) (hcancelled : Cancelled tr) :
      Racer R k tr st i ⟨.create p, .done (.error (.clientError e))⟩

/-- What a create of the race may have returned. -/
def Verdict (tr : List SystemLabel) (st : RaceStage) (x : Project × Result) : Prop :=
  isWinner x = true ∨ (x.2 = .error (.projectNameTaken x.1.name) ∧ st ≠ .unclaimed) ∨
    (∃ e, x.2 = .error (.clientError e)) ∧ Cancelled tr

/-- The race for the name key `k` among the projects `R`, after a history. -/
structure Racing (R : Projects) (k : String) (tr : List SystemLabel) (w : SystemWorld)
    (st : RaceStage) : Prop where
  free : st = .unclaimed → Represents R w.store
  taken : st ≠ .unclaimed → ∃ R', Represents R' w.store ∧ R'.Taken k
  racers : ∀ i thread, w.threads i = some thread → Racer R k tr st i thread
  inFlight : ∀ i p, st = .won i p → w.threads i = some ⟨.create p, .done (.ok (.project p))⟩
  winners : (createReturns tr).countP isWinner = if st = .decided then 1 else 0
  verdicts : ∀ x ∈ createReturns tr, Verdict tr st x
  /-- A cancelled create raises something else. -/
  cancelled : Cancelled tr →
    (∃ i p e, w.threads i = some ⟨.create p, .done (.error (.clientError e))⟩) ∨
      ∃ x ∈ createReturns tr, ∃ e, x.2 = .error (.clientError e)
  begun : tr ≠ [] → (∃ i, w.threads i ≠ none) ∨ createReturns tr ≠ []

section Step

variable {svc : Service} {mayCancel : SystemWorld → Nat → List TransactItem → Prop}
  {R : Projects} {k : String} {tr : List SystemLabel} {w : SystemWorld} {st st' : RaceStage}
  {l : SystemLabel} {i : Nat}

theorem Racing.initial {t : Table} (hrep : Represents R t) :
    Racing R k [] (World.idle t) .unclaimed where
  free _ := hrep
  taken h := absurd rfl h
  racers i thread h := by cases h
  inFlight i p h := by cases h
  winners := rfl
  verdicts x h := by cases h
  cancelled h := by
    obtain ⟨i, c, actions, e, hmem, -⟩ := h
    cases hmem
  begun h := absurd rfl h

/-- What another step does to a thread of the race. -/
theorem Racer.snoc {thread : Thread Op Op.Ans Call Result} (h : Racer R k tr st i thread)
    (l : SystemLabel) (hwon : ∀ p, st = .won i p → st' = .won i p)
    (hopen : st ≠ .unclaimed → st' ≠ .unclaimed) : Racer R k (tr ++ [l]) st' i thread := by
  cases h with
  | waiting p hkey hid => exact .waiting p hkey hid
  | winner p hst => exact .winner p (hwon p hst)
  | loser p hst => exact .loser p (hopen hst)
  | cancelled p he hcancelled => exact .cancelled p he hcancelled.append

omit [CaseTables] [DatetimeParser] in
theorem Verdict.snoc {x : Project × Result} (h : Verdict tr st x) (l : SystemLabel)
    (hopen : st ≠ .unclaimed → st' ≠ .unclaimed) : Verdict (tr ++ [l]) st' x := by
  obtain hwon | ⟨htaken, hst⟩ | ⟨hclient, hcancelled⟩ := h
  · exact Or.inl hwon
  · exact Or.inr (Or.inl ⟨htaken, hopen hst⟩)
  · exact Or.inr (Or.inr ⟨hclient, hcancelled.append⟩)

/-- A create that starts. -/
theorem Racing.invoke (h : Racing R k tr w st) {p : Project} (hfree : w.threads i = none)
    (hkey : nameKey p.name = k) (hid : R.find? p.projectId = none) :
    Racing R k (tr ++ [.invoke i (.create p)])
      (w.setThread i (some ⟨.create p, (Call.create p).body⟩)) st := by
  have hreturns : createReturns (tr ++ [.invoke i (.create p)]) = createReturns tr := by
    rw [createReturns_append]
    exact List.append_nil _
  have hother : ∀ j thread, w.threads j = some thread →
      (w.setThread i (some ⟨.create p, (Call.create p).body⟩)).threads j = some thread := by
    intro j thread hthread
    rw [World.setThread_threads, if_neg fun hj => by simp [hj, hfree] at hthread]
    exact hthread
  constructor
  · exact h.free
  · exact h.taken
  · -- one more racer waits
    intro j thread hthread
    rcases World.setThread_origin hthread with ⟨rfl, hset⟩ | ⟨-, hold⟩
    · obtain rfl := Option.some.inj hset
      exact .waiting p hkey hid
    · exact (h.racers j thread hold).snoc _ (fun _ hst => hst) fun hst => hst
  · exact fun j q hst => hother j _ (h.inFlight j q hst)
  · rw [hreturns]
    exact h.winners
  · rw [hreturns]
    exact fun x hx => (h.verdicts x hx).snoc _ fun hst => hst
  · intro hcancelled
    rw [hreturns]
    obtain ⟨j, q, e, hthread⟩ | hreturned :=
      h.cancelled (hcancelled.of_snoc fun j c actions e hl => by cases hl)
    · exact Or.inl ⟨j, q, e, hother j _ hthread⟩
    · exact Or.inr hreturned
  · exact fun _ => Or.inl ⟨i, by simp⟩

/-- A transaction that is answered. -/
theorem Racing.exec (h : Racing R k tr w st) {p : Project} {t' : Table} {r : Result}
    {answer : Except ClientError Unit}
    (hthread : w.threads i = some ⟨.create p, (Call.create p).body⟩)
    (hfree : st' = .unclaimed → Represents R t')
    (htaken : st' ≠ .unclaimed → ∃ R', Represents R' t' ∧ R'.Taken k)
    (hst' : st' = st ∨ st = .unclaimed ∧ st' = .won i p ∧ r = .ok (.project p))
    (hracer : Racer R k (tr ++ [.exec i (.create p) (.transactWriteItems (createActions p))
      answer]) st' i ⟨.create p, .done r⟩)
    (hcancelled : (∃ e, answer = .error e ∧ Conflict e) →
      ∃ e, r = .error (.clientError e)) :
    Racing R k (tr ++ [.exec i (.create p) (.transactWriteItems (createActions p)) answer])
      ({ w with store := t' }.setThread i (some ⟨.create p, .done r⟩)) st' := by
  have hreturns : createReturns (tr ++ [.exec i (.create p)
      (.transactWriteItems (createActions p)) answer]) = createReturns tr := by
    rw [createReturns_append]
    exact List.append_nil _
  have hwaiting : ∀ q s, w.threads i ≠ some ⟨.create q, .done s⟩ := by
    intro q s hdone
    rw [hthread, body_create] at hdone
    cases hdone
  have hother : ∀ j q s, w.threads j = some ⟨.create q, .done s⟩ →
      ({ w with store := t' }.setThread i (some ⟨.create p, .done r⟩) : SystemWorld).threads j =
        some ⟨.create q, .done s⟩ := by
    intro j q s hdone
    have hne : j ≠ i := by
      intro hj
      subst j
      exact hwaiting q s hdone
    rw [World.setThread_threads_ne _ _ hne]
    exact hdone
  have hopen : st ≠ .unclaimed → st' ≠ .unclaimed := by
    intro hst
    obtain rfl | ⟨hcontra, -, -⟩ := hst'
    · exact hst
    · exact absurd hcontra hst
  constructor
  · exact hfree
  · exact htaken
  · intro j thread hj
    rcases World.setThread_origin hj with ⟨rfl, hset⟩ | ⟨-, hold⟩
    · obtain rfl := Option.some.inj hset
      exact hracer
    · -- nobody else loses the name by this step
      refine (h.racers j thread hold).snoc _ (fun q hst => ?_) hopen
      obtain rfl | ⟨hcontra, -, -⟩ := hst'
      · exact hst
      · rw [hcontra] at hst
        cases hst
  -- the holder of the name, old or new, is still in flight
  · intro j q hst
    obtain rfl | ⟨-, hwon, rfl⟩ := hst'
    · exact hother j q _ (h.inFlight j q hst)
    · obtain ⟨rfl, rfl⟩ := RaceStage.won.inj (hwon.symm.trans hst)
      simp
  · rw [hreturns, h.winners]
    obtain rfl | ⟨rfl, rfl, -⟩ := hst'
    · rfl
    · simp
  · rw [hreturns]
    exact fun x hx => (h.verdicts x hx).snoc _ hopen
  · intro hall
    rw [hreturns]
    by_cases hnow : ∃ e, answer = .error e ∧ Conflict e
    · -- the cancelled create is about to raise
      obtain ⟨e, rfl⟩ := hcancelled hnow
      exact Or.inl ⟨i, p, e, by simp⟩
    · have hbefore : Cancelled tr := by
        refine hall.of_snoc fun j c actions e hl he => ?_
        injection hl with _ _ hop hanswer
        obtain rfl : answer = .error e := hanswer
        exact hnow ⟨e, rfl, he⟩
      obtain ⟨j, q, e, hdone⟩ | hreturned := h.cancelled hbefore
      · exact Or.inl ⟨j, q, e, hother j q _ hdone⟩
      · exact Or.inr hreturned
  · exact fun _ => Or.inl ⟨i, by simp⟩

/-- A create that returns. -/
theorem Racing.ret (h : Racing R k tr w st) {p : Project} {r : Result}
    (hthread : w.threads i = some ⟨.create p, .done r⟩)
    (hst' : st' = st ∧ isWinner (p, r) = false ∨
      st = .won i p ∧ st' = .decided ∧ isWinner (p, r) = true)
    (hwon : ∀ j q, st' = .won j q → j ≠ i)
    (hverdict : Verdict (tr ++ [.ret i (.create p) r]) st' (p, r)) :
    Racing R k (tr ++ [.ret i (.create p) r]) (w.setThread i none) st' := by
  have hreturns : createReturns (tr ++ [.ret i (.create p) r]) = createReturns tr ++ [(p, r)] :=
    createReturns_append
  have hmem : (p, r) ∈ createReturns tr ++ [(p, r)] := by simp
  have hopen : st' = .unclaimed ↔ st = .unclaimed := by
    obtain ⟨rfl, -⟩ | ⟨rfl, rfl, -⟩ := hst'
    · exact Iff.rfl
    · simp
  constructor
  · exact fun hst => h.free (hopen.mp hst)
  · exact fun hst => h.taken (mt hopen.mpr hst)
  -- whoever is left keeps its verdict, since the stage opens for nobody again
  · intro j thread hj
    rcases World.setThread_origin hj with ⟨-, hset⟩ | ⟨hne, hold⟩
    · cases hset
    · refine (h.racers j thread hold).snoc _ (fun q hst => ?_) (mt hopen.mp)
      obtain ⟨rfl, -⟩ | ⟨hcontra, -, -⟩ := hst'
      · exact hst
      · exact absurd (RaceStage.won.inj (hst.symm.trans hcontra)).1 hne
  · intro j q hst
    obtain ⟨rfl, -⟩ | ⟨-, rfl, -⟩ := hst'
    · rw [World.setThread_threads_ne _ _ (hwon j q hst)]
      exact h.inFlight j q hst
    · cases hst
  · rw [hreturns, List.countP_append, h.winners]
    obtain ⟨rfl, hlost⟩ | ⟨rfl, rfl, hwinner⟩ := hst'
    · simp [hlost]
    · simp [hwinner]
  · rw [hreturns]
    intro x hx
    obtain hbefore | hlast := List.mem_append.mp hx
    · exact (h.verdicts x hbefore).snoc _ (mt hopen.mp)
    · obtain rfl := List.mem_singleton.mp hlast
      exact hverdict
  · intro hall
    rw [hreturns]
    obtain ⟨j, q, e, hj⟩ | ⟨x, hx, hclient⟩ :=
      h.cancelled (hall.of_snoc fun j c actions e hl => by cases hl)
    · by_cases hji : j = i
      · -- what it was about to raise is raised now
        subst j
        obtain ⟨-, hr⟩ := Thread.mk.inj (Option.some.inj (hthread.symm.trans hj))
        exact Or.inr ⟨(p, r), hmem, e, Program.done.inj hr⟩
      · exact Or.inl ⟨j, q, e, by rw [World.setThread_threads_ne _ _ hji, hj]⟩
    · exact Or.inr ⟨x, List.mem_append_left _ hx, hclient⟩
  · intro _
    rw [hreturns]
    exact Or.inr (List.ne_nil_of_mem hmem)

/-- A thread of the race with an operation ahead has its whole program ahead. -/
theorem Racer.of_call {c : Call} {op : Op} {next : op.Ans → Action Result}
    (h : Racer R k tr st i ⟨c, .call op next⟩) :
    ∃ p, nameKey p.name = k ∧ R.find? p.projectId = none ∧ c = .create p ∧
      (.call op next : Action Result) = (Call.create p).body := by
  generalize hthread : (⟨c, .call op next⟩ : Thread Op Op.Ans Call Result) = thread at h
  cases h with
  | waiting p hkey hid =>
      obtain ⟨rfl, hprogram⟩ := Thread.mk.inj hthread
      exact ⟨p, hkey, hid, rfl, hprogram⟩
  | winner p hst => cases hthread
  | loser p hst => cases hthread
  | cancelled p he hcancelled => cases hthread

omit [CaseTables] [DatetimeParser] in
theorem createValue_of_conflict {p : Project} {answer : Except ClientError Unit}
    (h : ∃ e, answer = .error e ∧ Conflict e) :
    ∃ e, ProjectRepository.createValue p answer = .error (.clientError e) := by
  obtain ⟨e, rfl, he⟩ := h
  exact ⟨e, congrArg Except.error (he.createError p.name)⟩

/-- The transaction of a create that DynamoDB does not cancel because of another. -/
theorem Racing.exec_regular (hsvc : svc.Faultless) (h : Racing R k tr w st)
    (hfree : ¬ R.Taken k) {p : Project} (hkey : nameKey p.name = k)
    (hid : R.find? p.projectId = none) {answer : Except ClientError Unit} {t' : Table}
    (hthread : w.threads i = some ⟨.create p, (Call.create p).body⟩)
    (hexec : svc.Exec w.store (.transactWriteItems (createActions p)) answer t') :
    ∃ st', Racing R k
      (tr ++ [.exec i (.create p) (.transactWriteItems (createActions p)) answer])
      ({ w with store := t' }.setThread i (some ⟨.create p,
        .done ((ProjectRepository.createValue p answer).map Value.project)⟩)) st' := by
  by_cases hst : st = .unclaimed
  · -- The name is free, so the transaction applies.
    obtain ⟨hvalue, hrep⟩ := (h.free hst).exec_createValue hsvc hexec
    have hname : ¬ R.Taken (nameKey p.name) := by rwa [hkey]
    rw [Projects.createResult_of_free hname hid] at hvalue hrep
    refine ⟨.won i p, h.exec hthread (fun hcontra => by cases hcontra)
      (fun _ => ⟨_, hrep, ?_⟩) (Or.inr ⟨hst, rfl, ?_⟩) ?_ fun hconflict => ?_⟩
    · rw [← hkey]
      exact Registry.taken_add R { project := p } hname
    · rw [hvalue]
      rfl
    · rw [hvalue]
      exact .winner p rfl
    · obtain ⟨e, hclient⟩ := createValue_of_conflict (p := p) hconflict
      rw [hclient] at hvalue
      cases hvalue
  · -- Another create has the name.
    obtain ⟨R', hrep', htaken⟩ := h.taken hst
    obtain ⟨hvalue, hrep⟩ := hrep'.exec_createValue hsvc hexec
    rw [Projects.createResult_of_taken (by rwa [hkey])] at hvalue hrep
    refine ⟨st, h.exec hthread (fun hcontra => absurd hcontra hst) (fun _ => ⟨R', hrep, htaken⟩)
      (Or.inl rfl) ?_ fun hconflict => ?_⟩
    · rw [hvalue]
      exact .loser p hst
    · obtain ⟨e, hclient⟩ := createValue_of_conflict (p := p) hconflict
      rw [hclient] at hvalue
      cases hvalue

/-- What a step of the race does: its calls are creates of the name with ids that are not
stored, and all of them return. -/
theorem Racing.step (hsvc : svc.Faultless) {w' : SystemWorld} (h : Racing R k tr w st)
    (hfree : ¬ R.Taken k) (hstep : RaceStep svc mayCancel w l w')
    (hcalls : ∀ i c, l = .invoke i c →
      ∃ p, c = .create p ∧ nameKey p.name = k ∧ R.find? p.projectId = none)
    (hreturn : ∀ i c, l ≠ .abandon i c) :
    ∃ st', Racing R k (tr ++ [l]) w' st' := by
  cases hstep with
  | regular hstep =>
      cases hstep with
      | invoke c hidle =>
          obtain ⟨p, rfl, hkey, hid⟩ := hcalls _ c rfl
          exact ⟨st, h.invoke hidle hkey hid⟩
      | @exec i c op next answer t' hthread hexec =>
          obtain ⟨p, hkey, hid, rfl, hprogram⟩ := (h.racers i _ hthread).of_call
          obtain ⟨rfl, hnext⟩ := Program.call.inj (hprogram.trans (body_create p))
          obtain rfl := eq_of_heq hnext
          rw [hprogram] at hthread
          exact h.exec_regular hsvc hfree hkey hid hthread hexec
      -- what the thread carries is returned; only the winner decides the race
      | @ret i c r hthread =>
          have hracer := h.racers i _ hthread
          generalize hprogram : (⟨c, .done r⟩ : Thread Op Op.Ans Call Result) = thread at hracer
          cases hracer with
          | waiting p hkey hid =>
              obtain ⟨-, hcontra⟩ := Thread.mk.inj hprogram
              rw [body_create] at hcontra
              cases hcontra
          | winner p hst =>
              cases hprogram
              exact ⟨.decided, h.ret hthread (Or.inr ⟨hst, rfl, by simp [isWinner]⟩)
                (fun j q hcontra => by cases hcontra) (Or.inl (by simp [isWinner]))⟩
          | loser p hst =>
              cases hprogram
              refine ⟨st, h.ret hthread (Or.inl ⟨rfl, by simp [isWinner]⟩) ?_
                (Or.inr (Or.inl ⟨rfl, hst⟩))⟩
              intro j q hwon hj
              -- the winner in flight is another thread than the loser
              have hwinner := h.inFlight j q hwon
              rw [hj, hthread] at hwinner
              cases hwinner
          | cancelled p he hcancelled =>
              cases hprogram
              refine ⟨st, h.ret hthread (Or.inl ⟨rfl, by simp [isWinner]⟩) ?_
                (Or.inr (Or.inr ⟨⟨_, rfl⟩, hcancelled.append⟩))⟩
              intro j q hwon hj
              have hwinner := h.inFlight j q hwon
              rw [hj, hthread] at hwinner
              cases hwinner
      | abandon hthread => exact absurd rfl (hreturn _ _)
  -- a conflict changes no item, and the create it cancels is about to raise
  | @conflict i c actions next e hthread hcancel he =>
      obtain ⟨p, hkey, hid, rfl, hprogram⟩ := (h.racers i _ hthread).of_call
      obtain ⟨hactions, hnext⟩ := Program.call.inj (hprogram.trans (body_create p))
      obtain rfl : actions = createActions p := by injection hactions
      obtain rfl := eq_of_heq hnext
      rw [hprogram] at hthread
      have hvalue : (ProjectRepository.createValue p (.error e)).map Value.project =
          .error (.clientError e) := congrArg (Except.error ∘ id) (he.createError p.name)
      refine ⟨st, h.exec hthread h.free h.taken (Or.inl rfl) ?_ fun _ => ⟨e, hvalue⟩⟩
      rw [hvalue]
      exact .cancelled p he ⟨i, .create p, createActions p, e, by simp, he⟩

/-- The race along a run. -/
theorem Racing.run (hsvc : svc.Faultless) {t : Table} (hrep : Represents R t)
    (hfree : ¬ R.Taken k) (hrun : RaceRun svc mayCancel (World.idle t) tr w)
    (hcalls : CallsIn (fun c =>
      ∃ p, c = .create p ∧ nameKey p.name = k ∧ R.find? p.projectId = none) tr)
    (hreturn : ∀ i c, .abandon i c ∉ tr) : ∃ st, Racing R k tr w st := by
  induction hrun with
  | nil => exact ⟨.unclaimed, .initial hrep⟩
  | @snoc tr l w w' hrun hstep ih =>
      obtain ⟨st, h⟩ := ih hcalls.of_append_left
        fun i c hmem => hreturn i c (List.mem_append_left _ hmem)
      refine h.step hsvc hfree hstep (fun i c hl => ?_) fun i c hl => ?_
      · subst hl
        exact hcalls.last
      · subst hl
        exact hreturn i c (by simp)

/-- In a race that is over, a cancelled create has raised something else. -/
theorem Racing.not_oneWinner (h : Racing R k tr w st) (hended : ∀ i, w.threads i = none)
    (hcancelled : Cancelled tr) : ¬ OneWinner tr := by
  intro hone
  obtain ⟨i, p, e, hthread⟩ | ⟨x, hx, e, hclient⟩ := h.cancelled hcancelled
  · rw [hended i] at hthread
    cases hthread
  · obtain hwinner | htaken := hone.2 x hx
    · simp [isWinner, hclient] at hwinner
    · rw [hclient] at htaken
      cases htaken

/-- A race that is over is decided, unless a create was cancelled. -/
theorem Racing.eq_decided (h : Racing R k tr w st) (hended : ∀ i, w.threads i = none)
    (hsomeone : tr ≠ []) (hcancelled : ¬ Cancelled tr) : st = .decided := by
  cases hst : st with
  | decided => rfl
  | won i p =>
      have hwinner := h.inFlight i p hst
      rw [hended i] at hwinner
      cases hwinner
  | unclaimed =>
      -- whoever returned, returned the project or found the name taken
      obtain ⟨i, hthread⟩ | hreturned := h.begun hsomeone
      · exact absurd (hended i) hthread
      · obtain ⟨x, hx⟩ := List.exists_mem_of_ne_nil _ hreturned
        obtain hwinner | ⟨-, hcontra⟩ | ⟨-, hcontra⟩ := h.verdicts x hx
        · have hpos : 0 < (createReturns tr).countP isWinner :=
            List.countP_pos_iff.mpr ⟨x, hx, hwinner⟩
          rw [h.winners, hst] at hpos
          simp at hpos
        · exact absurd hst hcontra
        · exact absurd hcontra hcancelled

theorem Racing.oneWinner (h : Racing R k tr w .decided) (hcancelled : ¬ Cancelled tr) :
    OneWinner tr := by
  refine ⟨h.winners, fun x hx => ?_⟩
  obtain hwinner | ⟨htaken, -⟩ | ⟨-, hcontra⟩ := h.verdicts x hx
  · exact Or.inl hwinner
  · exact Or.inr htaken
  · exact absurd hcontra hcancelled

end Step

/-- A race for the name key `k`: from a reachable table without the name, creates of it with
ids that are not stored run in any order until all of them have returned. -/
structure CreateRace (svc : Service)
    (mayCancel : SystemWorld → Nat → List TransactItem → Prop) (k : String) (t : Table)
    (tr : List SystemLabel) (w : SystemWorld) : Prop where
  reachable : ∃ tr₀, SystemRun svc (World.idle ∅) tr₀ (World.idle t)
  free : ∀ id record name, t.lookup (recordKey id) = some record →
    record.lookup "name" = some (.S name) → nameKey name ≠ k
  run : RaceRun svc mayCancel (World.idle t) tr w
  creates : CallsIn (fun c => ∃ p, c = .create p ∧ nameKey p.name = k ∧
    t.lookup (recordKey p.projectId) = none) tr
  someone : tr ≠ []
  kept : ∀ i c, .abandon i c ∉ tr
  ended : ∀ i, w.threads i = none

/-- A race has one winner, and all others learn that the name is taken, if and only if
DynamoDB cancels none of its transactions because of another. -/
theorem one_winner_iff {svc : Service}
    {mayCancel : SystemWorld → Nat → List TransactItem → Prop} {k : String} {t : Table}
    {tr : List SystemLabel} {w : SystemWorld} (hsvc : svc.Faultless)
    (hrace : CreateRace svc mayCancel k t tr w) : OneWinner tr ↔ ¬ Cancelled tr := by
  obtain ⟨tr₀, hreach⟩ := hrace.reachable
  obtain ⟨R, hrep⟩ := SystemRun.represents hreach
  have hname : ¬ R.Taken k := by
    intro htaken
    obtain ⟨id, e, he, hk⟩ := htaken
    exact hrace.free id _ _ (hrep.record_eq_some.mpr ⟨e, he, rfl⟩) (recordItem_name e) hk
  have hcreates : CallsIn (fun c => ∃ p, c = .create p ∧ nameKey p.name = k ∧
      R.find? p.projectId = none) tr := by
    intro i c hmem
    obtain ⟨p, rfl, hkey, hid⟩ := hrace.creates i c hmem
    refine ⟨p, rfl, hkey, ?_⟩
    exact Option.map_eq_none_iff.mp ((hrep.record _).symm.trans hid)
  obtain ⟨st, h⟩ := Racing.run hsvc hrep hname hrace.run hcreates hrace.kept
  constructor
  · intro hone hcancelled
    exact h.not_oneWinner hrace.ended hcancelled hone
  · intro hcancelled
    obtain rfl := h.eq_decided hrace.ended hrace.someone hcancelled
    exact h.oneWinner hcancelled

/-- A create whose transaction is cancelled while another is in flight. -/
theorem run_cancelled (svc : Service)
    (mayCancel : SystemWorld → Nat → List TransactItem → Prop) {w : SystemWorld} {i : Nat}
    {p : Project} {e : ClientError} (hfree : w.threads i = none) (he : Conflict e)
    (hcancel : mayCancel (w.setThread i (some ⟨.create p, (Call.create p).body⟩)) i
      (createActions p)) :
    RaceRun svc mayCancel w (.invoke i (.create p) :: soloLabels i (.create p)
      [⟨.transactWriteItems (createActions p), .error e⟩] (.error (.clientError e))) w := by
  have hvalue : (ProjectRepository.createValue p (.error e)).map Value.project =
      .error (.clientError e) := congrArg (Except.error ∘ id) (he.createError p.name)
  have hinvoke : Step (system svc) w (.invoke i (.create p))
      (w.setThread i (some ⟨.create p, (Call.create p).body⟩)) := .invoke _ hfree
  rw [body_create] at hinvoke hcancel
  have hret : Step (system svc)
      (w.setThread i (some ⟨.create p, .done (.error (.clientError e))⟩))
      (.ret i (.create p) (.error (.clientError e)))
      ((w.setThread i (some ⟨.create p, .done (.error (.clientError e))⟩)).setThread i none) :=
    .ret (World.setThread_threads_self _ _ _)
  rw [World.setThread_none hfree] at hret
  refine Run.cons (.regular hinvoke) (Run.cons
    (.conflict (World.setThread_threads_self _ _ _) hcancel he) (Run.single (.regular ?_)))
  rw [World.setThread_setThread, hvalue]
  exact hret

end Race

section Instance

open scoped Sample

/-- Two clients create one name one after the other. -/
theorem one_winner_of_rivals :
    ∃ tr w, CreateRace (Service.reference stubProvision) Overlaps "my app" ∅ tr w ∧
      (createReturns tr).length = 2 ∧ OneWinner tr := by
  obtain ⟨t, hfirst, hrep⟩ := Represents.empty.run_create (Service.reference stubProvision)
    (p := sampleProject) (Registry.not_taken_empty _) rfl
  have htaken : (Registry.empty.add { project := sampleProject }
      (Registry.not_taken_empty _) : Projects).Taken (nameKey rivalProject.name) := by
    rw [nameKey_rivalProject, ← nameKey_sampleProject]
    exact Registry.taken_add _ _ _
  obtain ⟨hanswer, -⟩ := hrep.create rivalProject
  obtain ⟨reason, hcreate⟩ := Projects.create_of_taken htaken
  rw [hcreate] at hanswer
  have hsecond : SystemRun (Service.reference stubProvision) (World.idle t)
      (.invoke 1 (.create rivalProject) :: soloLabels 1 (.create rivalProject)
        [⟨.transactWriteItems (createActions rivalProject),
          .error (.transactionCanceled ["ConditionalCheckFailed", reason])⟩]
        (.error (.projectNameTaken rivalProject.name))) (World.idle _) :=
    Run.of_traced (M := system _) (w := World.idle t) (c := .create rivalProject) 1 rfl
      (.call (.of_transactWriteItems (Prod.ext hanswer rfl)) (.done _ _))
  have hrace : CreateRace (Service.reference stubProvision) Overlaps "my app" ∅ _ _ :=
    { reachable := ⟨[], Run.nil⟩
      free := fun id record name hrecord => by cases hrecord
      run := (hfirst.append hsecond).mono fun _ _ _ => .regular
      creates := by
        intro i c hmem
        simp [createRun, soloLabels] at hmem
        obtain ⟨-, rfl⟩ | ⟨-, rfl⟩ := hmem
        · exact ⟨sampleProject, rfl, nameKey_sampleProject, rfl⟩
        · exact ⟨rivalProject, rfl, nameKey_rivalProject, rfl⟩
      someone := by simp [createRun]
      kept := by simp [createRun, soloLabels]
      ended := fun i => rfl }
  refine ⟨_, _, hrace, rfl, (one_winner_iff (Service.reference_faultless _) hrace).mpr ?_⟩
  intro hcancelled
  obtain ⟨i, c, actions, e, hmem, he⟩ := hcancelled
  obtain ⟨rest, hrest⟩ := he.reason
  simp [createRun, soloLabels] at hmem
  obtain ⟨-, -, -, rfl⟩ := hmem
  rw [ClientError.transactionCanceled] at hrest
  exact absurd (List.cons.inj hrest).1 (by decide)

/-- The cancellation of a transaction that overlaps another on its first item. -/
def transactionConflict : ClientError := .transactionCanceled ["TransactionConflict", "None"]

/-- Two clients create one name; the transaction of one is cancelled because it overlaps that
of the other.  Its `create` raises the error of DynamoDB. -/
theorem lost_race_without_reason :
    ∃ tr w, CreateRace (Service.reference stubProvision) Overlaps "my app" ∅ tr w ∧
      createReturns tr = [(rivalProject, .error (.clientError transactionConflict)),
        (sampleProject, .ok (.project sampleProject))] ∧ ¬ OneWinner tr := by
  obtain ⟨t, hrun, -⟩ := Represents.empty.run_create (Service.reference stubProvision)
    (p := sampleProject) (Registry.not_taken_empty _) rfl
  obtain ⟨mid, hinvoke, hrest⟩ := hrun.cons_inv
  have hmid : mid = (World.idle ∅).setThread 0
      (some ⟨.create sampleProject, (Call.create sampleProject).body⟩) := by
    cases hinvoke
    rfl
  subst hmid
  have hkey : (Write.put (reservationItem rivalProject)).key? =
      (Write.put (reservationItem sampleProject)).key? := by
    simp [Write.key?, reservationKey, namePk, nameKey_rivalProject, nameKey_sampleProject]
  have hcancelled := run_cancelled (Service.reference stubProvision) Overlaps
    (w := (World.idle ∅).setThread 0
      (some ⟨.create sampleProject, (Call.create sampleProject).body⟩))
    (i := 1) (p := rivalProject) (e := transactionConflict) rfl ⟨rfl, ["None"], rfl⟩
    ⟨0, .create sampleProject, createActions sampleProject, _, by decide, rfl,
      _, List.mem_cons_self .., _, List.mem_cons_self .., hkey⟩
  have hrace : CreateRace (Service.reference stubProvision) Overlaps "my app" ∅ _ _ :=
    { reachable := ⟨[], Run.nil⟩
      free := fun id record name hrecord => by cases hrecord
      run := Run.cons (.regular hinvoke)
        (hcancelled.append (hrest.mono fun _ _ _ => .regular))
      creates := by
        intro i c hmem
        simp [soloLabels] at hmem
        obtain ⟨-, rfl⟩ | ⟨-, rfl⟩ := hmem
        · exact ⟨sampleProject, rfl, nameKey_sampleProject, rfl⟩
        · exact ⟨rivalProject, rfl, nameKey_rivalProject, rfl⟩
      someone := by simp
      kept := by simp [soloLabels]
      ended := fun i => rfl }
  refine ⟨_, _, hrace, rfl, ?_⟩
  intro hone
  obtain hwinner | htaken := hone.2 (rivalProject, .error (.clientError transactionConflict))
    (by simp [createReturns, soloLabels])
  · simp [isWinner] at hwinner
  · cases htaken

end Instance

end ProjectsApi
