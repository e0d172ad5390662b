import ProjectsApi.System.Pagination

/-!
# Walks in a run of the system

The stretch of a run in which one client walks through its listing.  Its pages are pages by
key of the collections that the stretch has met, so what holds of paging by key holds of the
walk.
-/

namespace ProjectsApi

open Foundation Dynamo Program

/-! ## The walk of a client -/

section System

variable [CaseTables] [DatetimeParser] {svc : Service}

/-- The history of the steps. -/
def labels (steps : List (SystemLabel × SystemWorld)) : List SystemLabel := steps.map Prod.fst

/-- A run of the system from the empty table in which slot `i` starts a walk, which leads to
the world `start`, and returns `r` after the steps `during` of all calls. -/
structure WalkRun (svc : Service) (i : Nat) (ownerId : String) (limits : List Nat)
    (before : List (SystemLabel × SystemWorld)) (start : SystemWorld)
    (during : List (SystemLabel × SystemWorld)) (r : Result) (last : SystemWorld) : Prop where
  run : Run (Visits (Step (system svc))) (World.idle ∅)
    (before ++ (.invoke i (.walk ownerId limits), start) :: during ++
      [(.ret i (.walk ownerId limits) r, last)]) last
  own : ∀ x ∈ during, ¬ x.1.Leaves i
  creates : CallsIn Call.CreatesNew (labels (before ++ (.invoke i (.walk ownerId limits), start) ::
    during ++ [(.ret i (.walk ownerId limits) r, last)]))

/-- What a walk returns, of which `states` are the states of the table from its start to its
end. -/
structure ExactWalk (ownerId : String) (limits : List Nat) (fresh : Prop) (states : List Table)
    (walk : Walk) : Prop where
  /-- The token it stops at, as every token before, is accepted. -/
  accepted : ∀ token, walk.nextToken = some token → ∃ key, decodeCursor token ownerId = .ok key
  sorted : walk.items.Pairwise fun p q =>
    q.createdAt < p.createdAt ∨ q.createdAt = p.createdAt ∧ q.projectId < p.projectId
  /-- No id occurs twice, since ids are never drawn twice. -/
  nodup : fresh → (walk.items.map Project.projectId).Nodup
  /-- What it shows the owner had at some moment of the walk. -/
  owned : ∀ p ∈ walk.items, p.ownerId = ownerId ∧ ∃ t ∈ states, Owns t ownerId p
  /-- A walk to the end shows each project once that the owner has all the time. -/
  complete : walk.nextToken = none → ∀ id,
    (∀ t ∈ states, ∃ p, Stores t id p ∧ p.ownerId = ownerId) →
    (walk.items.map Project.projectId).count id = 1
  lengths : List.Forall₂ (fun page limit => page.length ≤ limit) walk.pages
    (limits.take walk.pages.length)
  /-- If the table does not change, the walk shows all projects of the owner, and ends after
  at most one call more than there are. -/
  unchanged : ∀ t, (∀ t' ∈ states, t' = t) → ∃ projects : Finset Project,
    (∀ p, p ∈ projects ↔ Owns t ownerId p) ∧ walk.pages.length ≤ projects.card + 1 ∧
    (projects.card < limits.length → walk.nextToken = none) ∧
    (walk.nextToken = none → walk.items.Nodup ∧ ∀ p, p ∈ walk.items ↔ Owns t ownerId p)

/-- The stored projects stem from creates of the history. -/
def Originates (history : List SystemLabel) (t : Table) : Prop :=
  ∃ R, Represents R t ∧ ∀ id e, R.find? id = some e →
    ∃ i p, .invoke i (.create p) ∈ history ∧ SameIdentity p e.project

/-- In every state of a run the stored projects stem from creates of the run. -/
theorem originates_of_visited {steps : List (SystemLabel × SystemWorld)} {w' : SystemWorld}
    (hrun : Run (Visits (Step (system svc))) (World.idle ∅) steps w')
    (hcreates : CallsIn Call.CreatesNew (labels steps)) {l : SystemLabel} {w : SystemWorld}
    (hmem : (l, w) ∈ steps) : Originates (labels steps) w.store := by
  obtain ⟨before, after, rfl, hreach⟩ := hrun.of_visited hmem
  have hhistory : labels (before ++ (l, w) :: after) =
      (before.map Prod.fst ++ [l]) ++ labels after := by
    simp [labels]
  rw [hhistory] at hcreates ⊢
  obtain ⟨R, hrep, horigin⟩ := SystemRun.origin hreach hcreates.of_append_left
  refine ⟨R, hrep, fun id e he => ?_⟩
  obtain ⟨j, p, hinvoke, hsame⟩ := horigin id e he
  exact ⟨j, p, List.mem_append_left _ hinvoke, hsame⟩

/-- For an owner id of at most 579 escaped bytes all tokens of such a table fit. -/
theorem Originates.pageable {history : List SystemLabel} {t : Table} {ownerId : String}
    (h : Originates history t) (hcreates : CallsIn Call.CreatesNew history)
    (howner : escapedLength ownerId ≤ 579) : Pageable ownerId t := by
  obtain ⟨R, hrep, horigin⟩ := h
  refine ⟨R, hrep, fun p hp => ?_⟩
  obtain ⟨e, he, rfl, hown⟩ := hrep.owns_iff.mp hp
  obtain ⟨j, p₀, hinvoke, hsame⟩ := horigin _ e he
  obtain ⟨name, type, owner, now, uuid, rfl⟩ := hcreates _ _ hinvoke
  exact hsame.fits (by rwa [hown])

theorem Originates.projectId_eq {history : List SystemLabel} {t : Table}
    (h : Originates history t) {id : String} {p : Project} (hp : Stores t id p) :
    p.projectId = id := by
  obtain ⟨R, hrep, -⟩ := h
  obtain ⟨e, he, rfl⟩ := hrep.stores_iff.mp hp
  exact Projects.projectId_eq he

/-- Two projects of one id in tables of one history with fresh ids have one identity. -/
theorem Originates.place_eq {history : List SystemLabel} {t t' : Table}
    (h : Originates history t) (h' : Originates history t') (hfresh : FreshIds history)
    {id : String} {p p' : Project} (hp : Stores t id p) (hp' : Stores t' id p') :
    p.place = p'.place := by
  obtain ⟨R, hrep, horigin⟩ := h
  obtain ⟨R', hrep', horigin'⟩ := h'
  obtain ⟨e, he, rfl⟩ := hrep.stores_iff.mp hp
  obtain ⟨e', he', rfl⟩ := hrep'.stores_iff.mp hp'
  obtain ⟨i, p₀, hinvoke, hsame⟩ := horigin id e he
  obtain ⟨j, q₀, hinvoke', hsame'⟩ := horigin' id e' he'
  have hid : p₀.projectId = q₀.projectId := by
    rw [← hsame.projectId, ← hsame'.projectId, Projects.projectId_eq he,
      Projects.projectId_eq he']
  obtain ⟨-, rfl⟩ := hfresh.eq_of_projectId_eq hinvoke hinvoke' hid
  rw [hsame.place_eq, hsame'.place_eq]

section WalkRun

variable {i : Nat} {ownerId : String} {limits : List Nat}
  {before during : List (SystemLabel × SystemWorld)} {start last : SystemWorld} {r : Result}

/-- The states of the table from the start of a walk to its end. -/
def walkStates (start : SystemWorld) (during : List (SystemLabel × SystemWorld)) : List Table :=
  start.store :: during.map fun x => x.2.store

/-- The parts of a run with a walk. -/
theorem WalkRun.parts (h : WalkRun svc i ownerId limits before start during r last) :
    SystemRun svc (World.idle ∅) (labels before ++ [.invoke i (.walk ownerId limits)]) start ∧
      start.threads i = some ⟨.walk ownerId limits, (Call.walk ownerId limits).body⟩ ∧
      ∃ mid, Run (Visits (Step (system svc))) start during mid ∧
        mid.threads i = some ⟨.walk ownerId limits, .done r⟩ := by
  obtain ⟨mid, hrun, hret, -⟩ := h.run.snoc_inv
  rw [List.append_cons] at hrun
  obtain ⟨start', hstart, hduring⟩ := hrun.split
  obtain ⟨w, hbefore, hinvoke, heq⟩ := hstart.snoc_inv
  obtain rfl : start' = start := heq
  have hreach : SystemRun svc (World.idle ∅)
      (labels before ++ [.invoke i (.walk ownerId limits)]) start' :=
    .snoc hbefore.of_visits hinvoke
  refine ⟨hreach, ?_, mid, hduring, ?_⟩
  · cases hinvoke
    simp [system]
  · cases hret
    assumption

theorem WalkRun.originates (h : WalkRun svc i ownerId limits before start during r last) {t : Table}
    (ht : t ∈ walkStates start during) :
    Originates (labels (before ++ (.invoke i (.walk ownerId limits), start) :: during ++
      [(.ret i (.walk ownerId limits) r, last)])) t := by
  rcases List.mem_cons.mp ht with rfl | hlater
  · exact originates_of_visited h.run h.creates (l := .invoke i (.walk ownerId limits)) (by simp)
  · obtain ⟨x, hx, rfl⟩ := List.mem_map.mp hlater
    exact originates_of_visited h.run h.creates (l := x.1) (w := x.2) (by simp [hx])

/-- The walk returns the pages by key of the collections that it has met. -/
theorem WalkRun.pages (hpages : svc.Pages) (howner : escapedLength ownerId ≤ 579)
    (hne : limits ≠ []) (hlimits : ∀ limit ∈ limits, 1 ≤ limit)
    (h : WalkRun svc i ownerId limits before start during r last) :
    ∃ walk next, r = .ok (.walk walk) ∧ decodeNextToken walk.nextToken ownerId = .ok next ∧
      PagesOf Project.place (Collections (· ∈ walkStates start during) ownerId) limits
        none walk.pages (next.map CursorKey.gsi1sk) := by
  obtain ⟨-, hstart, mid, hduring, hend⟩ := h.parts
  have hanswered : Answered svc.Exec (· ∈ walkStates start during)
      (Call.walk ownerId limits).body r :=
    hduring.answered h.own hstart hend List.mem_cons_self
      fun x hx => List.mem_cons_of_mem _ (List.mem_map_of_mem hx)
  obtain ⟨result, hresult, rfl⟩ := hanswered.of_map
  have htoken : decodeNextToken none ownerId = .ok none := rfl
  obtain ⟨walk, next, rfl, hnext, hwalk⟩ := answered_walkFrom hpages
    (fun t ht => (h.originates ht).pageable h.creates howner) hlimits htoken
    (fun hnil => absurd hnil hne) hresult
  exact ⟨walk, next, rfl, hnext, hwalk⟩

/-- What the owner has all the time under an id is one project. -/
theorem WalkRun.stays (h : WalkRun svc i ownerId limits before start during r last) {id : String}
    (hstay : ∀ t ∈ walkStates start during, ∃ p, Stores t id p ∧ p.ownerId = ownerId) :
    ∃ p, p.projectId = id ∧
      ∀ t ∈ walkStates start during, ∀ q, Stores t id q → SameIdentity p q := by
  obtain ⟨hreach, -, mid, hduring, -⟩ := h.parts
  obtain ⟨p, hp, -⟩ := hstay _ List.mem_cons_self
  have hlater : ∀ x ∈ during, ∃ q, Stores x.2.store id q := by
    intro x hx
    obtain ⟨q, hq, -⟩ := hstay _ (List.mem_cons_of_mem _ (List.mem_map_of_mem hx))
    exact ⟨q, hq⟩
  have hsame := (SystemRun.sameIdentity hreach hduring hp hlater).2
  refine ⟨p, (h.originates List.mem_cons_self).projectId_eq hp, fun t ht q hq => ?_⟩
  rcases List.mem_cons.mp ht with rfl | hmem
  · rw [hp.unique hq]
    exact .refl q
  · obtain ⟨x, hx, rfl⟩ := List.mem_map.mp hmem
    exact hsame x hx q hq

/-- The projects an owner has are finitely many. -/
theorem Represents.exists_projects {R : Projects} {t : Table} (h : Represents R t)
    (ownerId : String) : ∃ projects : Finset Project, ∀ p, p ∈ projects ↔ Owns t ownerId p := by
  refine ⟨((Service.visible t (ProjectRepository.listRequest ownerId 1 none)).image
    fun item => (toProject item).toOption).eraseNone, fun p => ?_⟩
  rw [Finset.mem_eraseNone, Finset.mem_image, h.owns_iff]
  constructor
  · rintro ⟨item, hitem, hread⟩
    obtain ⟨id, e, he, howner, rfl⟩ := h.mem_visible.mp hitem
    rw [toProject_recordItem] at hread
    obtain rfl := Option.some.inj hread
    exact ⟨e, by rwa [Projects.projectId_eq he], rfl, howner⟩
  · rintro ⟨e, he, rfl, howner⟩
    exact ⟨recordItem e, h.mem_visible.mpr ⟨_, e, he, howner, rfl⟩, by
      rw [toProject_recordItem]; rfl⟩

omit [CaseTables] in
/-- What a walk shows was stored for the owner at some moment. -/
theorem owns_of_shown {I : Table → Prop} {start next : Option CodePoints}
    {pages : List (List Project)}
    (h : PagesOf Project.place (Collections I ownerId) limits start pages next) {p : Project}
    (hp : p ∈ pages.flatten) : ∃ t, I t ∧ Owns t ownerId p := by
  obtain ⟨⟨S, ⟨t, ht, rfl⟩, hmem⟩, -⟩ := h.shown hp
  exact ⟨t, ht, hmem⟩

/-- Ids that are never drawn twice do not occur twice in a walk. -/
theorem WalkRun.nodup (h : WalkRun svc i ownerId limits before start during r last)
    (hfresh : FreshIds (labels (before ++ (.invoke i (.walk ownerId limits), start) :: during ++
      [(.ret i (.walk ownerId limits) r, last)])))
    {pages : List (List Project)} {next : Option CodePoints}
    (hwalk : PagesOf Project.place (Collections (· ∈ walkStates start during) ownerId) limits
      none pages next) : (pages.flatten.map Project.projectId).Nodup := by
  rw [List.Nodup, List.pairwise_map]
  refine hwalk.sorted.imp_of_mem fun {p q} hp hq hlt heq => ?_
  obtain ⟨t, ht, hstored, -⟩ := owns_of_shown hwalk hp
  obtain ⟨t', ht', hstored', -⟩ := owns_of_shown hwalk hq
  rw [← heq] at hstored'
  have hplace := (h.originates ht).place_eq (h.originates ht') hfresh hstored hstored'
  rw [hplace] at hlt
  exact lt_irrefl _ hlt

/-- A walk to the end shows once what the owner has all the time. -/
theorem WalkRun.complete (h : WalkRun svc i ownerId limits before start during r last)
    {pages : List (List Project)}
    (hwalk : PagesOf Project.place (Collections (· ∈ walkStates start during) ownerId) limits
      none pages none) {id : String}
    (hstay : ∀ t ∈ walkStates start during, ∃ p, Stores t id p ∧ p.ownerId = ownerId) :
    (pages.flatten.map Project.projectId).count id = 1 := by
  obtain ⟨p, hid, hsame⟩ := h.stays hstay
  -- the place of the project is occupied in every collection
  have hplace : ∀ S, Collections (· ∈ walkStates start during) ownerId S →
      ∃ q ∈ S, SameIdentity p q ∧ q.place = p.place := by
    rintro S ⟨t, ht, rfl⟩
    obtain ⟨q, hq, howner⟩ := hstay t ht
    have hpq := hsame t ht q hq
    refine ⟨q, ⟨?_, howner⟩, hpq, hpq.place_eq⟩
    rwa [(h.originates ht).projectId_eq hq]
  obtain ⟨q, hq, hpq, -⟩ := hwalk.complete rfl (below_none p.place) hplace
  rw [List.count, List.countP_map]
  refine countP_eq_one (k := p.place) hwalk.sorted hq ?_ fun b hb hbid => ?_
  · simp [hpq.projectId, hid]
  · obtain ⟨t, ht, hstored, -⟩ := owns_of_shown hwalk hb
    have hb : b.projectId = id := by simpa using hbid
    rw [hb] at hstored
    exact (hsame t ht b hstored).place_eq

/-- A walk through a table that does not change. -/
theorem WalkRun.unchanged (h : WalkRun svc i ownerId limits before start during r last)
    {pages : List (List Project)} {next : Option CodePoints}
    (hwalk : PagesOf Project.place (Collections (· ∈ walkStates start during) ownerId) limits
      none pages next) {t : Table} (ht : ∀ t' ∈ walkStates start during, t' = t) :
    ∃ projects : Finset Project, (∀ p, p ∈ projects ↔ Owns t ownerId p) ∧
      pages.length ≤ projects.card + 1 ∧ (projects.card < limits.length → next = none) ∧
      (next = none → pages.flatten.Nodup ∧ ∀ p, p ∈ pages.flatten ↔ Owns t ownerId p) := by
  obtain rfl := ht _ List.mem_cons_self
  obtain ⟨R, hrep, -⟩ := h.originates List.mem_cons_self
  obtain ⟨projects, hprojects⟩ := hrep.exists_projects ownerId
  have hstatic :
      PagesOf Project.place (fun S => S = {p | p ∈ projects}) limits none pages next := by
    refine hwalk.mono ?_
    rintro S ⟨t', ht', rfl⟩
    rw [ht t' ht']
    ext p
    exact (hprojects p).symm
  obtain ⟨hlength, hends, hall⟩ := hstatic.unchanged
  refine ⟨projects, hprojects, hlength, hends, fun hend => ?_⟩
  obtain ⟨hnodup, hmem⟩ := hall hend
  exact ⟨hnodup, fun p => (hmem p).trans (hprojects p)⟩

/-- A walk through the pages of a listing is exact while the table changes.  Other calls
create, delete and provision projects of any owner between its pages, and between the steps
of one page. -/
theorem walk_exact (hpages : svc.Pages) (howner : escapedLength ownerId ≤ 579)
    (hne : limits ≠ []) (hlimits : ∀ limit ∈ limits, 1 ≤ limit)
    (h : WalkRun svc i ownerId limits before start during r last) :
    ∃ walk, r = .ok (.walk walk) ∧
      ExactWalk ownerId limits
        (FreshIds (labels (before ++ (.invoke i (.walk ownerId limits), start) :: during ++
          [(.ret i (.walk ownerId limits) r, last)])))
        (walkStates start during) walk := by
  obtain ⟨walk, next, hr, hnext, hwalk⟩ := h.pages hpages howner hne hlimits
  -- the walk is at its end exactly when there is no next key
  have hend : walk.nextToken = none ↔ next.map CursorKey.gsi1sk = none := by
    rw [Option.map_eq_none_iff]
    constructor
    · intro hnone
      rw [hnone] at hnext
      exact (Except.ok.inj hnext).symm
    · intro hnone
      cases htoken : walk.nextToken with
      | none => rfl
      | some token =>
          rw [htoken] at hnext
          obtain ⟨key, hkey, -⟩ := decodeNextToken_some hnext
          rw [hnone] at hkey
          cases hkey
  refine ⟨walk, hr, ?_, hwalk.sorted.imp Project.place_lt_iff.mp,
    fun hfresh => h.nodup hfresh hwalk, ?_, ?_, hwalk.lengths, ?_⟩
  · intro token htoken
    rw [htoken] at hnext
    obtain ⟨key, -, hdecode⟩ := decodeNextToken_some hnext
    exact ⟨key, hdecode⟩
  · intro p hp
    obtain ⟨t, ht, howns⟩ := owns_of_shown hwalk hp
    exact ⟨howns.2, t, ht, howns⟩
  · intro hnone id hstay
    rw [hend.mp hnone] at hwalk
    exact h.complete hwalk hstay
  · intro t ht
    obtain ⟨projects, hprojects, hlength, hends, hall⟩ := h.unchanged hwalk ht
    exact ⟨projects, hprojects, hlength, fun hlong => hend.mpr (hends hlong),
      fun hnone => hall (hend.mp hnone)⟩

end WalkRun

end System

/-! ## Runs with a walk -/

section Runs

variable [CaseTables] [DatetimeParser] {svc : Service} {i : Nat} {ownerId : String}

/-- The steps of a run that starts a walk and ends with its answer, as parts. -/
theorem exists_walkRun {limits : List Nat} {r : Result} {tr mid : List SystemLabel}
    {w : SystemWorld}
    (hrun : SystemRun svc (World.idle ∅) (tr ++ .invoke i (.walk ownerId limits) :: (mid ++
      [.ret i (.walk ownerId limits) r])) w)
    (hown : ∀ l ∈ mid, ¬ l.Leaves i)
    (hcreates : CallsIn Call.CreatesNew (tr ++ .invoke i (.walk ownerId limits) :: (mid ++
      [.ret i (.walk ownerId limits) r]))) :
    ∃ before start during last,
      WalkRun svc i ownerId limits before start during r last ∧ labels during = mid := by
  obtain ⟨steps, hlabels, hsteps⟩ := hrun.visits
  have hparts := hlabels
  obtain ⟨before, walking, rfl, rfl, hwalking⟩ := List.map_eq_append_iff.mp hparts
  obtain ⟨⟨l, start⟩, rest, rfl, rfl, hrest⟩ := List.map_eq_cons_iff.mp hwalking
  obtain ⟨during, final, rfl, hduring, hfinal⟩ := List.map_eq_append_iff.mp hrest
  obtain ⟨⟨l', last⟩, tail, rfl, rfl, hnil⟩ := List.map_eq_cons_iff.mp hfinal
  obtain rfl := List.map_eq_nil_iff.mp hnil
  have hassoc : before ++ (.invoke i (.walk ownerId limits), start) :: (during ++
      [(.ret i (.walk ownerId limits) r, last)]) =
      before ++ (.invoke i (.walk ownerId limits), start) :: during ++
        [(.ret i (.walk ownerId limits) r, last)] := by
    simp
  rw [hassoc] at hsteps hlabels
  obtain ⟨world, -, -, hlast⟩ := hsteps.snoc_inv
  obtain rfl := hlast
  refine ⟨before, start, during, _, ⟨hsteps, ?_, ?_⟩, hduring⟩
  · intro x hx
    apply hown
    rw [← hduring]
    exact List.mem_map_of_mem hx
  · rw [labels, hlabels]
    exact hcreates

/-- What the operations of a call leave in the history, with a run of other calls between
the first ones and the rest. -/
def aroundRun (i : Nat) (c : Call) (ops : List ((op : Op) × op.Ans)) (mid : List SystemLabel)
    (ops' : List ((op : Op) × op.Ans)) : List SystemLabel :=
  ops.map (fun x => .exec i c x.1 x.2) ++ mid ++ ops'.map (fun x => .exec i c x.1 x.2)

omit [CaseTables] [DatetimeParser] in
theorem mem_aroundRun {c : Call} {ops ops' : List ((op : Op) × op.Ans)} {mid : List SystemLabel}
    {l : SystemLabel} (h : l ∈ aroundRun i c ops mid ops') :
    l ∈ mid ∨ ∃ x : (op : Op) × op.Ans, l = .exec i c x.1 x.2 := by
  rw [aroundRun, List.mem_append, List.mem_append, List.mem_map, List.mem_map] at h
  rcases h with (⟨x, -, rfl⟩ | hmid) | ⟨x, -, rfl⟩
  · exact Or.inr ⟨x, rfl⟩
  · exact Or.inl hmid
  · exact Or.inr ⟨x, rfl⟩

omit [CaseTables] [DatetimeParser] in
theorem not_leaves_aroundRun {c : Call} {mid : List SystemLabel} (hmid : ∀ l ∈ mid, ¬ l.Leaves i)
    (ops ops' : List ((op : Op) × op.Ans)) : ∀ l ∈ aroundRun i c ops mid ops', ¬ l.Leaves i := by
  intro l hl
  rcases mem_aroundRun hl with hother | ⟨x, rfl⟩
  · exact hmid l hother
  · exact id

omit [CaseTables] [DatetimeParser] in
theorem callsIn_aroundRun {C : Call → Prop} {c : Call} {mid : List SystemLabel}
    (hmid : CallsIn C mid) (ops ops' : List ((op : Op) × op.Ans)) :
    CallsIn C (aroundRun i c ops mid ops') := by
  intro j d hinvoke
  rcases mem_aroundRun hinvoke with hother | ⟨x, hexec⟩
  · exact hmid j d hother
  · cases hexec

/-- A walk with a run of other calls between its first page and the next one. -/
theorem run_walk_between {limit : Nat} {limits : List Nat} {items : List Project}
    {token : String} {rest : Walk} {t t' : Table} {mid : List SystemLabel}
    (hfirst : Eval svc.Exec t (listProjects ownerId limit none)
      (.ok { status := 200, body := .page items (some token) }) t)
    (hmid : ∀ walking, SystemRun svc ((World.idle t).setThread i walking) mid
      ((World.idle t').setThread i walking))
    (hrest : Eval svc.Exec t' (walkFrom ownerId limits (some token)) (.ok rest) t') :
    ∃ ops ops' : List ((op : Op) × op.Ans),
      SystemRun svc (World.idle t) (.invoke i (.walk ownerId (limit :: limits)) ::
        (aroundRun i (.walk ownerId (limit :: limits)) ops mid ops' ++
          [.ret i (.walk ownerId (limit :: limits)) (.ok (.walk (rest.after items)))]))
        (World.idle t') := by
  let call := Call.walk ownerId (limit :: limits)
  let page : HttpResponse := { status := 200, body := .page items (some token) }
  -- what is left of the walk after its first page
  obtain ⟨next, hbody, hnext⟩ : ∃ next, call.body = listProjects ownerId limit none >>= next ∧
      next (.ok page) = (Except.map Value.walk) <$> ((Except.map fun walk => walk.after items) <$>
        walkFrom ownerId limits (some token)) :=
    ⟨_, map_bind _ _ _, rfl⟩
  have hleft : Eval svc.Exec t' (next (.ok page)) (.ok (.walk (rest.after items))) t' := by
    rw [hnext]
    exact eval_map_iff.mpr ⟨_, eval_map_iff.mpr ⟨_, hrest, rfl⟩, rfl⟩
  obtain ⟨ops, hops⟩ := hfirst.traced
  obtain ⟨ops', hops'⟩ := hleft.traced
  have hpage := Run.of_traced_bind (M := system svc) (i := i) (c := call) (f := next) hops
    (w := World.idle t) rfl
  have hend := Run.of_traced_thread (M := system svc) (i := i) (c := call) hops'
    (w := World.idle t') rfl rfl
  rw [← hbody] at hpage
  refine ⟨ops, ops', Run.cons (.invoke call rfl) ?_⟩
  rw [aroundRun, List.append_assoc]
  exact (hpage.append (hmid _)).append hend

/-- The key of the last of these entries, if it is not the last of all. -/
def lastKeyOf (limit : Nat) (entries : List Entry) : Option CursorKey :=
  if entries.length ≤ limit then none
  else (entries.take limit).getLast?.map fun e => e.project.cursorKey

/-- The reference service lists the owner's entries from the cursor on. -/
theorem Represents.eval_listProjects {R : Projects} {t : Table} (h : Represents R t)
    (outcome : ProvisionRequest → ProvisionOutcome) (limit : Nat) {entries : List Entry}
    {nextToken token : Option String} {cursor : Option CursorKey}
    (htoken : decodeNextToken nextToken ownerId = .ok cursor)
    (hsorted : entries.Pairwise fun a b => b.project.place < a.project.place)
    {stored : List Entry} (hstored : R.Lists stored)
    (hentries : ∀ e, e ∈ entries ↔ e ∈ stored ∧ e.project.ownerId = ownerId ∧
      Below (cursor.map CursorKey.gsi1sk) e.project.place)
    (hlast : encodeLastKey (lastKeyOf limit entries) = some token) :
    Eval (Service.reference outcome).Exec t (listProjects ownerId limit nextToken)
      (.ok { status := 200, body := .page ((entries.take limit).map Entry.project) token }) t := by
  let request := ProjectRepository.listRequest ownerId limit cursor
  have hitems : queryItems (Service.visible t request) request = entries.map recordItem := by
    apply queryItems_eq
    · rw [List.pairwise_map]
      refine hsorted.imp fun {a b} hlt => ?_
      rwa [indexPosition_recordItem, indexPosition_recordItem]
    · intro item
      rw [List.mem_map, h.mem_visible]
      constructor
      · rintro ⟨e, he, rfl⟩
        obtain ⟨hmem, howner, hbelow⟩ := (hentries e).mp he
        obtain ⟨id, hfind⟩ := (hstored e).mpr hmem
        refine ⟨⟨id, e, hfind, howner, rfl⟩, fun key hkey => ?_⟩
        rw [indexPosition_recordItem]
        exact below_map_iff.mp hbelow key hkey
      · rintro ⟨⟨id, e, hfind, howner, rfl⟩, hcovers⟩
        refine ⟨e, (hentries e).mpr ⟨(hstored e).mp ⟨id, hfind⟩, howner, below_map_iff.mpr ?_⟩,
          rfl⟩
        intro key hkey
        have hlt := hcovers key hkey
        rwa [indexPosition_recordItem] at hlt
  have hpage : queryPage (Service.visible t request) request =
      { items := (entries.take limit).map recordItem
        lastEvaluatedKey := lastKeyOf limit entries } := by
    rw [queryPage, hitems, ← List.map_take, List.length_map, List.getLast?_map, Option.map_map]
    have hkeys : itemCursorKey ∘ recordItem = fun e : Entry => e.project.cursorKey :=
      funext itemCursorKey_recordItem
    rw [hkeys]
    rfl
  rw [listProjects_eq htoken]
  refine .call (.query _ rfl) (eval_listNext_iff.mpr ⟨?_, rfl⟩)
  rw [hpage, listResponse]
  simp only [mapM_toProject_recordItem, hlast]

end Runs

/-! ## A sample -/

section Instance

open scoped Sample

/-- A project of the owner `key-1` that is listed before its other ones. -/
def secondProject : Project :=
  Project.new "Side App" .web "key-1" sampleTime (Uuid4.repeated 'd' (by decide))

/-- A project of the owner `key-1` that is listed after its other ones. -/
def thirdProject : Project :=
  Project.new "New App" .mcp "key-1" sampleTime (Uuid4.repeated '0' (by decide))

theorem nameKey_secondProject : nameKey secondProject.name = "side app" := by decide +kernel

theorem nameKey_thirdProject : nameKey thirdProject.name = "new app" := by decide +kernel

theorem place_sampleProject_lt : sampleProject.place < secondProject.place :=
  Project.place_lt_iff.mpr (Or.inr ⟨rfl, by decide +kernel⟩)

theorem place_thirdProject_lt : thirdProject.place < sampleProject.place :=
  Project.place_lt_iff.mpr (Or.inr ⟨rfl, by decide +kernel⟩)

theorem exists_token_secondProject : ∃ token,
    encodeCursor secondProject.cursorKey = some token ∧
      decodeNextToken (some token) "key-1" = .ok (some secondProject.cursorKey) := by
  have hfits : secondProject.Fits := (SameIdentity.refl secondProject).fits (by decide)
  obtain ⟨token, hencode, hdecode⟩ := hfits.token
  refine ⟨token, hencode, ?_⟩
  have howner : secondProject.ownerId = "key-1" := rfl
  rw [← howner, decodeNextToken, hdecode]
  rfl

/-- A history in which an owner creates two projects. -/
def createsRun : List SystemLabel := createRun sampleProject ++ createRun secondProject

/-- The entry of a new project. -/
def newEntry (p : Project) : Entry := { project := p }

/-- One more project, of an id and a name that no listed one has. -/
theorem Represents.create_listed {R : Projects} {t : Table} (h : Represents R t) (svc : Service)
    {entries : List Entry} (hlists : R.Lists entries) {p : Project}
    (hid : ∀ e ∈ entries, e.project.projectId ≠ p.projectId)
    (hname : ∀ e ∈ entries, nameKey e.project.name ≠ nameKey p.name) :
    ∃ R' t', Traced svc.Exec t (Call.create p).body
        [⟨.transactWriteItems (createActions p), .ok ()⟩] (.ok (.project p)) t' ∧
      Represents R' t' ∧ R'.Lists (newEntry p :: entries) := by
  have hfree : ¬ R.Taken (nameKey p.name) := hlists.not_taken hname
  have hnew : R.find? p.projectId = none := hlists.find?_eq_none hid
  obtain ⟨t', htraced, hrep⟩ := h.traced_create svc hfree hnew
  have hlisted := Registry.Lists.add (r := newEntry p) hlists hfree hnew
  exact ⟨_, t', htraced, hrep, hlisted⟩

/-- An owner creates two projects. -/
theorem exists_creates_run (svc : Service) : ∃ R t,
    SystemRun svc (World.idle ∅) createsRun (World.idle t) ∧ Represents R t ∧
      R.Lists [newEntry secondProject, newEntry sampleProject] := by
  obtain ⟨R₁, t₁, hfirst, hrep₁, hlists₁⟩ := Represents.empty.create_listed svc
    (p := sampleProject) Registry.lists_empty (by simp) (by simp)
  have hname : nameKey sampleProject.name ≠ nameKey secondProject.name := by
    rw [nameKey_sampleProject, nameKey_secondProject]
    decide
  obtain ⟨R₂, t₂, hsecond, hrep₂, hlists₂⟩ := hrep₁.create_listed svc (p := secondProject)
    hlists₁ (List.forall_mem_singleton.mpr (by decide +kernel))
    (List.forall_mem_singleton.mpr hname)
  have hrun₁ := Run.of_traced (M := system svc) (w := World.idle ∅) (c := .create sampleProject)
    0 rfl hfirst
  have hrun₂ := Run.of_traced (M := system svc) (w := World.idle t₁) (c := .create secondProject)
    0 rfl hsecond
  exact ⟨R₂, t₂, hrun₁.append hrun₂, hrep₂, hlists₂⟩

/-- What comes after the second project in a listing. -/
theorem below_secondProject {k : CodePoints} :
    Below ((some secondProject.cursorKey).map CursorKey.gsi1sk) k ↔ k < secondProject.place := by
  rw [below_map_iff]
  exact ⟨fun h => h _ rfl, fun h key hkey => Option.some.inj hkey ▸ h⟩

/-- The first page of its listing. -/
theorem eval_firstPage {R : Projects} {t : Table} (hrep : Represents R t)
    (hlists : R.Lists [newEntry secondProject, newEntry sampleProject]) {token : String}
    (htoken : encodeCursor secondProject.cursorKey = some token) :
    Eval (Service.reference stubProvision).Exec t (listProjects "key-1" 1 none)
      (.ok { status := 200, body := .page [secondProject] (some token) }) t := by
  have hsorted : [newEntry secondProject, newEntry sampleProject].Pairwise
      fun a b => b.project.place < a.project.place := List.pairwise_pair.mpr place_sampleProject_lt
  have hlast : encodeLastKey (lastKeyOf 1 [newEntry secondProject, newEntry sampleProject]) =
      some (some token) := by
    show (encodeCursor secondProject.cursorKey).map some = _
    rw [htoken]
    rfl
  have hlisted : ∀ e, e ∈ [newEntry secondProject, newEntry sampleProject] ↔
      e ∈ [newEntry secondProject, newEntry sampleProject] ∧ e.project.ownerId = "key-1" ∧
        Below ((none : Option CursorKey).map CursorKey.gsi1sk) e.project.place := by
    intro e
    rw [List.mem_pair]
    constructor
    · rintro (rfl | rfl)
      · exact ⟨Or.inl rfl, rfl, below_none _⟩
      · exact ⟨Or.inr rfl, rfl, below_none _⟩
    · exact fun h => h.1
  exact hrep.eval_listProjects stubProvision 1 rfl hsorted hlists hlisted hlast

/-- The rest of a walk, when a third project was added after its first page. -/
theorem eval_secondPage {R : Projects} {t : Table} (hrep : Represents R t)
    (hlists : R.Lists [newEntry thirdProject, newEntry secondProject, newEntry sampleProject])
    {token : String}
    (htoken : decodeNextToken (some token) "key-1" = .ok (some secondProject.cursorKey)) :
    Eval (Service.reference stubProvision).Exec t (walkFrom "key-1" [2] (some token))
      (.ok { pages := [[sampleProject, thirdProject]], nextToken := none }) t := by
  have hsorted : [newEntry sampleProject, newEntry thirdProject].Pairwise
      fun a b => b.project.place < a.project.place := List.pairwise_pair.mpr place_thirdProject_lt
  have hlast : encodeLastKey (lastKeyOf 2 [newEntry sampleProject, newEntry thirdProject]) =
      some none := rfl
  have hlisted : ∀ e, e ∈ [newEntry sampleProject, newEntry thirdProject] ↔
      e ∈ [newEntry thirdProject, newEntry secondProject, newEntry sampleProject] ∧
        e.project.ownerId = "key-1" ∧
          Below ((some secondProject.cursorKey).map CursorKey.gsi1sk) e.project.place := by
    intro e
    rw [below_secondProject, List.mem_pair, List.mem_cons, List.mem_pair]
    constructor
    · rintro (rfl | rfl)
      · exact ⟨Or.inr (Or.inr rfl), rfl, place_sampleProject_lt⟩
      · exact ⟨Or.inl rfl, rfl, place_thirdProject_lt.trans place_sampleProject_lt⟩
    · rintro ⟨rfl | rfl | rfl, -, hbelow⟩
      · exact Or.inr rfl
      · exact absurd hbelow (lt_irrefl _)
      · exact Or.inl rfl
  have hpage := hrep.eval_listProjects stubProvision 2 htoken hsorted hlists hlisted hlast
  rw [walkFrom]
  exact eval_bind_iff.mpr ⟨_, t, hpage, .done _ _⟩

/-- A third project is created. -/
theorem exists_third_run {R : Projects} {t : Table} (hrep : Represents R t) (svc : Service)
    (hlists : R.Lists [newEntry secondProject, newEntry sampleProject]) : ∃ R' t',
    (∀ walking, SystemRun svc ((World.idle t).setThread 1 walking) (createRun thirdProject)
      ((World.idle t').setThread 1 walking)) ∧ Represents R' t' ∧
      R'.Lists [newEntry thirdProject, newEntry secondProject, newEntry sampleProject] := by
  have hname : ∀ e ∈ [newEntry secondProject, newEntry sampleProject],
      nameKey e.project.name ≠ nameKey thirdProject.name := by
    rw [List.forall_mem_cons, List.forall_mem_singleton]
    show nameKey secondProject.name ≠ _ ∧ nameKey sampleProject.name ≠ _
    rw [nameKey_secondProject, nameKey_sampleProject, nameKey_thirdProject]
    decide
  obtain ⟨R', t', htraced, hrep', hlists'⟩ := hrep.create_listed svc (p := thirdProject) hlists
    (by decide +kernel) hname
  refine ⟨R', t', fun walking => ?_, hrep', hlists'⟩
  exact Run.of_traced (M := system svc) (w := (World.idle t).setThread 1 walking)
    (c := .create thirdProject) 0 rfl htraced

/-- The owner walks through its listing, and creates a third project after the first page. -/
theorem walk_exact_sample :
    ∃ before start during last walk,
      WalkRun (Service.reference stubProvision) 1 "key-1" [1, 2] before start during
        (.ok (.walk walk)) last ∧
      .invoke 0 (.create thirdProject) ∈ labels during ∧
      walk.pages = [[secondProject], [sampleProject, thirdProject]] ∧
      ExactWalk "key-1" [1, 2]
        (FreshIds (labels (before ++ (.invoke 1 (.walk "key-1" [1, 2]), start) :: during ++
          [(.ret 1 (.walk "key-1" [1, 2]) (.ok (.walk walk)), last)])))
        (walkStates start during) walk := by
  obtain ⟨R, t, hcreates, hrep, hlists⟩ := exists_creates_run (Service.reference stubProvision)
  obtain ⟨token, hencode, hdecode⟩ := exists_token_secondProject
  obtain ⟨R', t', hthird, hrep', hlists'⟩ :=
    exists_third_run hrep (Service.reference stubProvision) hlists
  obtain ⟨ops, ops', hwalk⟩ := run_walk_between (eval_firstPage hrep hlists hencode) hthird
    (eval_secondPage hrep' hlists' hdecode)
  have hown : ∀ l ∈ createRun thirdProject, ¬ (l : SystemLabel).Leaves 1 := by
    simp [createRun, soloLabels, Label.Leaves]
  have hcalls : CallsIn Call.CreatesNew (createRun thirdProject) :=
    callsIn_create ⟨_, _, _, _, _, rfl⟩
  have hbefore : CallsIn Call.CreatesNew createsRun :=
    (callsIn_create ⟨_, _, _, _, _, rfl⟩).append (callsIn_create ⟨_, _, _, _, _, rfl⟩)
  obtain ⟨before, start, during, last, hrun, hduring⟩ := exists_walkRun (hcreates.append hwalk)
    (not_leaves_aroundRun hown ops ops') (hbefore.append (CallsIn.cons trivial
      ((callsIn_aroundRun hcalls ops ops').append ((noCalls_soloLabels _ _ [] _).callsIn _))))
  obtain ⟨walk, hr, hexact⟩ := walk_exact (Service.reference_pages stubProvision) (by decide)
    (by decide) (by decide) hrun
  obtain rfl : _ = walk := Value.walk.inj (Except.ok.inj hr)
  refine ⟨before, start, during, last, _, hrun, ?_, rfl, hexact⟩
  rw [hduring, aroundRun]
  simp [createRun]

end Instance

end ProjectsApi
