import ProjectsApi.Api.CursorCodec
import ProjectsApi.Foundation.Interference
import ProjectsApi.Foundation.Paging
import ProjectsApi.Lifecycle.Phases
import ProjectsApi.System.Records
import ProjectsApi.System.Routes

/-!
# Pagination while the table changes

A client pages through its projects while others create, delete and provision.  Each page
is one of `Foundation.IsPageOf` for the projects that the owner has at that moment, so the
walk is one of `Foundation.PagesOf`, whatever happens between two of its operations.
-/

namespace ProjectsApi

open Foundation Dynamo Program

/-! ## Where projects come from -/

/-- The creates of a history are of projects made by `Project.new`. -/
def Call.CreatesNew : Call → Prop
  | .create p => ∃ name type ownerId now uuid, p = Project.new name type ownerId now uuid
  | _ => True

section Origin

variable [CaseTables] [DatetimeParser]

/-- Only the `create` of a project has its transaction. -/
theorem Call.creates_own (c : Call) (hc : c.CreatesNew) :
    c.body.AllOps fun op => ∀ p, op = .transactWriteItems (createActions p) → c = .create p := by
  by_cases htransition : ∃ tr projectId, c = .transition tr projectId
  · obtain ⟨tr, projectId, rfl⟩ := htransition
    refine AllOps.map _ ⟨fun p hp => (by cases hp), fun now =>
      ⟨fun p hp => (by cases hp), fun answer => ?_⟩⟩
    cases answer with
    | ok => trivial
    | error e =>
        simp only [bind_done]
        split_ifs <;> trivial
  · have hordinary : c.Ordinary := by
      cases c with
      | create p =>
          obtain ⟨name, type, ownerId, now, uuid, rfl⟩ := hc
          rfl
      | transition tr projectId => exact htransition ⟨tr, projectId, rfl⟩
      | _ => trivial
    refine (c.follows hordinary).allOps.mono ?_
    intro op hmove p hp
    obtain ⟨q, after, hmove⟩ := hmove
    cases hmove with
    | create => rw [project_of_createActions (Op.transactWriteItems.inj hp)]
    | delete =>
        exact absurd (Op.transactWriteItems.inj hp).symm (createActions_ne_deleteActions _ _ _ _)
    | quiet hop => rw [hp] at hop; cases hop
    | begin | provision | recording | warn => cases hp

variable {svc : Service} {tr : List SystemLabel} {w : SystemWorld}

/-- Every stored project stems from a `create` of the history. -/
theorem SystemRun.origin (hrun : SystemRun svc (World.idle ∅) tr w)
    (hcalls : CallsIn Call.CreatesNew tr) :
    ∃ R, Represents R w.store ∧ ∀ id e, R.find? id = some e →
      ∃ i p, .invoke i (.create p) ∈ tr ∧ SameIdentity p e.project := by
  obtain ⟨R, hrep, hexplains⟩ := hrun.explains
  refine ⟨R, hrep, fun id e he => ?_⟩
  obtain ⟨p, ⟨i, c, answer, hmem, -⟩, hsame⟩ := (hexplains id e he).created
  have hown := Run.exec_allOps (C := fun c => c.CreatesNew ∧ ∃ i, .invoke i c ∈ tr)
    (P := fun op => ∀ p, op = .transactWriteItems (createActions p) →
      ∃ i, .invoke i (.create p) ∈ tr)
    (fun c hc => (c.creates_own hc.1).mono fun op hop p hp => hop p hp ▸ hc.2)
    (fun i c hc => ⟨hcalls i c hc, i, hc⟩) hrun hmem
  obtain ⟨j, hj⟩ := hown p rfl
  exact ⟨j, p, hj, hsame⟩

end Origin

/-! ## Identities -/

/-- The table stores the project under the id. -/
def Stores [DatetimeParser] (t : Table) (id : String) (p : Project) : Prop :=
  ∃ item, t.lookup (recordKey id) = some item ∧ toProject item = .ok p

/-- A table stores one project at most under an id. -/
theorem Stores.unique [DatetimeParser] {t : Table} {id : String} {p q : Project}
    (hp : Stores t id p) (hq : Stores t id q) : p = q := by
  obtain ⟨item, hitem, hread⟩ := hp
  obtain ⟨item', hitem', hread'⟩ := hq
  obtain rfl := Option.some.inj (hitem.symm.trans hitem')
  exact Except.ok.inj (hread.symm.trans hread')

theorem SameIdentity.trans {p q r : Project} (h : SameIdentity p q) (h' : SameIdentity q r) :
    SameIdentity p r :=
  ⟨h'.projectId.trans h.projectId, h'.name.trans h.name, h'.type.trans h.type,
    h'.ownerId.trans h.ownerId, h'.createdAt.trans h.createdAt⟩

section Identity

variable [CaseTables] {svc : Service} {id : String}

/-- No operation replaces a project by another one under its id. -/
theorem Effect.sameIdentity {R R' : Projects} {op : Op} {answer : op.Ans}
    (h : Effect svc R op answer R') {e e' : Entry} (he : R.find? id = some e)
    (he' : R'.find? id = some e') : SameIdentity e.project e'.project := by
  cases h with
  | nothing =>
      obtain rfl := Option.some.inj (he.symm.trans he')
      exact .refl _
  | added p hname hid htook =>
      rw [Registry.find?_add] at he'
      split at he'
      · rename_i hp
        rw [hp, hid] at he
        cases he
      · obtain rfl := Option.some.inj (he.symm.trans he')
        exact .refl _
  | removed projectId name ownerId howned hnamed htook =>
      rw [Registry.find?_remove] at he'
      split at he'
      · cases he'
      · obtain rfl := Option.some.inj (he.symm.trans he')
        exact .refl _
  | moved tr projectId now hstatus htook =>
      rw [Projects.find?_move] at he'
      split at he'
      · rename_i hp
        rw [← hp, he] at he'
        obtain rfl := Option.some.inj he'
        exact (SameIdentity.refl e.project).move tr now
      · obtain rfl := Option.some.inj (he.symm.trans he')
        exact .refl _

variable [DatetimeParser]

theorem Represents.stores_iff {R : Projects} {t : Table} (h : Represents R t) {p : Project} :
    Stores t id p ↔ ∃ e, R.find? id = some e ∧ e.project = p := by
  constructor
  · rintro ⟨item, hitem, hread⟩
    obtain ⟨e, he, rfl⟩ := h.record_eq_some.mp hitem
    rw [toProject_recordItem] at hread
    exact ⟨e, he, Except.ok.inj hread⟩
  · rintro ⟨e, he, rfl⟩
    exact ⟨recordItem e, h.record_eq_some.mpr ⟨e, he, rfl⟩, toProject_recordItem e⟩

/-- A step from one state with a project under the id to another one. -/
theorem SystemRun.sameIdentity_step {tr : List SystemLabel} {w w' : SystemWorld} {l : SystemLabel}
    (hrun : SystemRun svc (World.idle ∅) tr w) (hstep : Step (system svc) w l w') {p p' : Project}
    (hp : Stores w.store id p) (hp' : Stores w'.store id p') : SameIdentity p p' := by
  obtain ⟨R, hrep⟩ := hrun.represents
  obtain ⟨e, he, rfl⟩ := hrep.stores_iff.mp hp
  cases hstep with
  | exec hthread hexec =>
      obtain ⟨R', hR', hrep'⟩ := hrep.exec (hrun.allOps _ _ hthread).1 hexec
      obtain ⟨e', he', rfl⟩ := hrep'.stores_iff.mp hp'
      exact hR'.effect.sameIdentity he he'
  | invoke | ret | abandon =>
      obtain ⟨e', he', rfl⟩ := hrep.stores_iff.mp hp'
      obtain rfl := Option.some.inj (he.symm.trans he')
      exact .refl _

/-- In a stretch of states that all have a project under the id, it is one project. -/
theorem SystemRun.sameIdentity {tr : List SystemLabel} {w w' : SystemWorld}
    {steps : List (SystemLabel × SystemWorld)} (hrun : SystemRun svc (World.idle ∅) tr w)
    (hsteps : Run (Visits (Step (system svc))) w steps w') {p : Project}
    (hp : Stores w.store id p) (hstay : ∀ x ∈ steps, ∃ q, Stores x.2.store id q) :
    (∃ q, Stores w'.store id q ∧ SameIdentity p q) ∧
      ∀ x ∈ steps, ∀ q, Stores x.2.store id q → SameIdentity p q := by
  induction hsteps with
  | nil => exact ⟨⟨p, hp, .refl p⟩, fun x hx => by cases hx⟩
  | @snoc steps mid w' x hsteps hstep ih =>
      obtain ⟨hlast, rfl⟩ := hstep
      obtain ⟨⟨q, hq, hpq⟩, hbefore⟩ :=
        ih fun y hy => hstay y (List.mem_append_left _ hy)
      have hnew : ∀ q', Stores x.2.store id q' → SameIdentity p q' := fun q' hq' =>
        hpq.trans (SystemRun.sameIdentity_step (hrun.append hsteps.of_visits) hlast hq hq')
      constructor
      · obtain ⟨q', hq'⟩ := hstay x (List.mem_append_right _ (List.mem_singleton_self x))
        exact ⟨q', hq', hnew q' hq'⟩
      · intro y hy
        rcases List.mem_append.mp hy with hold | hsame
        · exact hbefore y hold
        · obtain rfl := List.mem_singleton.mp hsame
          exact hnew

end Identity

/-! ## The projects of an owner -/

/-- The table stores the project for the owner. -/
def Owns [DatetimeParser] (t : Table) (ownerId : String) (p : Project) : Prop :=
  Stores t p.projectId p ∧ p.ownerId = ownerId

/-- The place of a project in the listing of its owner. -/
def Project.place (p : Project) : CodePoints := codePoints (gsi1sk p)

theorem Project.place_lt_iff {p q : Project} : p.place < q.place ↔
    p.createdAt < q.createdAt ∨ p.createdAt = q.createdAt ∧ p.projectId < q.projectId := by
  rw [place, place, codePoints_lt_iff, gsi1sk_lt_iff]

theorem SameIdentity.place_eq {p q : Project} (h : SameIdentity p q) : q.place = p.place := by
  rw [Project.place, Project.place, gsi1sk, gsi1sk, h.createdAt, h.projectId]

theorem SameIdentity.cursorKey_eq {p q : Project} (h : SameIdentity p q) :
    q.cursorKey = p.cursorKey := by
  simp only [Project.cursorKey, gsi1sk, h.createdAt, h.projectId, h.ownerId]

/-- The token of the project is short enough to be read back. -/
def Project.Fits (p : Project) : Prop := (Json.dumps (cursorJson p.cursorKey)).length ≤ 768

/-- For an owner id of at most 579 escaped bytes every token fits. -/
theorem SameIdentity.fits {name : String} {type : ProjectType} {ownerId : String}
    {now : Datetime} {uuid : Uuid4} {p : Project}
    (h : SameIdentity (Project.new name type ownerId now uuid) p)
    (howner : escapedLength p.ownerId ≤ 579) : p.Fits := by
  have hid : p.ownerId = ownerId := h.ownerId
  rw [Project.Fits, h.cursorKey_eq, dumps_cursorKey_length, ← hid]
  omega

theorem below_map_iff {cursor : Option CursorKey} {k : CodePoints} :
    Below (cursor.map CursorKey.gsi1sk) k ↔ ∀ key, cursor = some key → k < key.gsi1sk := by
  cases cursor with
  | none => simp [Below]
  | some key => simp [Below]

section Page

variable [CaseTables] [DatetimeParser] {svc : Service} {R : Projects} {t : Table}
  {ownerId : String}

theorem Represents.owns_iff (h : Represents R t) {p : Project} :
    Owns t ownerId p ↔
      ∃ e, R.find? p.projectId = some e ∧ e.project = p ∧ p.ownerId = ownerId := by
  rw [Owns, h.stores_iff]
  constructor
  · rintro ⟨⟨e, he, hp⟩, howner⟩
    exact ⟨e, he, hp, howner⟩
  · rintro ⟨e, he, hp, howner⟩
    exact ⟨⟨e, he, hp⟩, howner⟩

/-- A page of the listing is a page of the projects that the owner has. -/
theorem Represents.isPageOf (h : Represents R t) {limit : Nat} {cursor lastKey : Option CursorKey}
    {entries : List Entry}
    (hpage : IsPage (Service.visible t (ProjectRepository.listRequest ownerId limit cursor))
      (ProjectRepository.listRequest ownerId limit cursor)
      { items := entries.map recordItem, lastEvaluatedKey := lastKey })
    (howned : ∀ e ∈ entries, R.find? e.project.projectId = some e ∧ e.project.ownerId = ownerId) :
    IsPageOf Project.place {p | Owns t ownerId p} limit (cursor.map CursorKey.gsi1sk)
      (entries.map Entry.project) (lastKey.map CursorKey.gsi1sk) where
  length_le := by
    have hlength := hpage.length_le
    rwa [List.length_map] at hlength ⊢
  sorted := by
    obtain ⟨rest, hsorted, -, -⟩ := hpage.split
    have hentries := (List.pairwise_append.mp hsorted).1
    rw [List.pairwise_map] at hentries ⊢
    refine hentries.imp fun {a b} hlt => ?_
    rwa [indexPosition_recordItem, indexPosition_recordItem] at hlt
  shown := by
    intro p hp
    obtain ⟨e, he, rfl⟩ := List.mem_map.mp hp
    obtain ⟨hstored, howner⟩ := howned e he
    obtain ⟨rest, -, hmem, -⟩ := hpage.split
    have hcovers := ((hmem _).mp (List.mem_append_left _ (List.mem_map_of_mem he))).2
    refine ⟨h.owns_iff.mpr ⟨e, hstored, rfl, howner⟩, below_map_iff.mpr fun key hkey => ?_⟩
    have hlt := hcovers key hkey
    rwa [indexPosition_recordItem] at hlt
  rest := by
    intro p hp hbelow
    obtain ⟨e, he, rfl, howner⟩ := h.owns_iff.mp hp
    have hvisible : recordItem e ∈
        Service.visible t (ProjectRepository.listRequest ownerId limit cursor) :=
      h.mem_visible.mpr ⟨_, e, he, howner, rfl⟩
    have hcovers : (ProjectRepository.listRequest ownerId limit cursor).Covers (recordItem e) := by
      intro key hkey
      rw [indexPosition_recordItem]
      exact below_map_iff.mp hbelow key hkey
    rcases hpage.mem_or_lt hvisible hcovers with hshown | ⟨key, hkey, hlt⟩
    · obtain ⟨e', he', heq⟩ := List.mem_map.mp hshown
      exact Or.inl (List.mem_map.mpr ⟨e', he', project_eq_of_recordItem_eq heq⟩)
    · rw [indexPosition_recordItem] at hlt
      change lastKey = some key at hkey
      exact Or.inr ⟨key.gsi1sk, by rw [hkey]; rfl, hlt⟩
  last := by
    intro k hk
    obtain ⟨key, hkey, rfl⟩ := Option.map_eq_some_iff.mp hk
    obtain ⟨item, hitem, rfl⟩ := hpage.last key hkey
    rw [List.getLast?_map, Option.map_eq_some_iff] at hitem
    obtain ⟨e, he, rfl⟩ := hitem
    refine ⟨e.project, by rw [List.getLast?_map, he]; rfl, ?_⟩
    rw [itemCursorKey_recordItem]
    rfl

end Page

/-! ## The walk -/

/-- The token of a project that fits is read back by its owner. -/
theorem Project.Fits.token {p : Project} (h : p.Fits) : ∃ token,
    encodeCursor p.cursorKey = some token ∧ decodeCursor token p.ownerId = .ok p.cursorKey := by
  have hscalar : p.cursorKey.Scalar := CursorKey.scalar_ofTexts _ _ _ _
  have htoken := encodeCursor_eq hscalar
  exact ⟨_, htoken, decodeCursor_encodeCursor hscalar rfl h htoken⟩

theorem decodeNextToken_some {token ownerId : String} {cursor : Option CursorKey}
    (h : decodeNextToken (some token) ownerId = .ok cursor) :
    ∃ key, cursor = some key ∧ decodeCursor token ownerId = .ok key := by
  rw [decodeNextToken] at h
  cases hdecode : decodeCursor token ownerId with
  | error exn => rw [hdecode] at h; cases h
  | ok key => rw [hdecode] at h; exact ⟨key, (Except.ok.inj h).symm, rfl⟩

section Walk

variable [CaseTables] [DatetimeParser] {svc : Service} {I : Table → Prop} {ownerId : String}
  {limit : Nat} {limits : List Nat} {nextToken : Option String} {cursor : Option CursorKey}

/-- What the walk needs of every state of the table. -/
def Pageable (ownerId : String) (t : Table) : Prop :=
  ∃ R, Represents R t ∧ ∀ p, Owns t ownerId p → p.Fits

/-- The collections of projects that an owner has in these states of the table. -/
def Collections (I : Table → Prop) (ownerId : String) (S : Set Project) : Prop :=
  ∃ t, I t ∧ S = {p | Owns t ownerId p}

omit [CaseTables] in
theorem answered_listNext {answer : Except ClientError QueryOutput} {r : Except Exn HttpResponse}
    (h : Answered svc.Exec I (listNext cursor answer) r) : r = listResponse cursor answer := by
  rw [listNext.eq_def] at h
  split at h
  · exact answered_done_iff.mp h
  · split at h
    · exact answered_done_iff.mp h
    · obtain ⟨t, answer, t', -, -, hdone⟩ := answered_call_iff.mp h
      exact answered_done_iff.mp hdone

/-- One page, in some state of the table. -/
theorem answered_listProjects (hpages : svc.Pages) (hI : ∀ t, I t → Pageable ownerId t)
    (hlimit : 1 ≤ limit) (htoken : decodeNextToken nextToken ownerId = .ok cursor)
    {r : Except Exn HttpResponse}
    (h : Answered svc.Exec I (listProjects ownerId limit nextToken) r) :
    ∃ S items token next, Collections I ownerId S ∧
      r = .ok { status := 200, body := .page items token } ∧
      decodeNextToken token ownerId = .ok next ∧
      IsPageOf Project.place S limit (cursor.map CursorKey.gsi1sk) items
        (next.map CursorKey.gsi1sk) := by
  rw [listProjects_eq htoken, answered_call_iff] at h
  obtain ⟨t, answer, t', hnow, hexec, hnext⟩ := h
  obtain ⟨R, hrep, hfits⟩ := hI t hnow
  cases hexec with
  | query _ hanswer =>
      obtain ⟨entries, lastKey, rfl, hpage, howned⟩ := hrep.query_page hpages hlimit hanswer
      obtain rfl := answered_listNext hnext
      -- the last key is the key of a project whose token fits
      obtain ⟨token, hencode, hdecode⟩ : ∃ token, encodeLastKey lastKey = some token ∧
          decodeNextToken token ownerId = .ok lastKey := by
        cases lastKey with
        | none => exact ⟨none, rfl, rfl⟩
        | some key =>
            obtain ⟨item, hitem, rfl⟩ := hpage.last key rfl
            obtain ⟨e, he, rfl⟩ := List.mem_map.mp (List.mem_of_getLast? hitem)
            obtain ⟨hstored, howner⟩ := howned e he
            obtain ⟨token, htoken, hread⟩ :=
              (hfits e.project (hrep.owns_iff.mpr ⟨e, hstored, rfl, howner⟩)).token
            rw [howner] at hread
            rw [itemCursorKey_recordItem]
            exact ⟨some token, by rw [encodeLastKey, htoken]; rfl,
              by rw [decodeNextToken, hread]; rfl⟩
      refine ⟨_, entries.map Entry.project, token, lastKey, ⟨t, hnow, rfl⟩, ?_, hdecode,
        hrep.isPageOf hpage howned⟩
      rw [listResponse, mapM_toProject_recordItem]
      simp only [hencode]

/-- The walk gets an answer to every page, and its pages are pages by key of the collections
that it meets. -/
theorem answered_walkFrom (hpages : svc.Pages) (hI : ∀ t, I t → Pageable ownerId t)
    (hlimits : ∀ limit ∈ limits, 1 ≤ limit)
    (htoken : decodeNextToken nextToken ownerId = .ok cursor)
    (hstart : limits = [] → nextToken ≠ none) {r : Except Exn Walk}
    (h : Answered svc.Exec I (walkFrom ownerId limits nextToken) r) :
    ∃ walk next, r = .ok walk ∧ decodeNextToken walk.nextToken ownerId = .ok next ∧
      PagesOf Project.place (Collections I ownerId) limits (cursor.map CursorKey.gsi1sk)
        walk.pages (next.map CursorKey.gsi1sk) := by
  induction limits generalizing nextToken cursor r with
  | nil =>
      obtain rfl := answered_done_iff.mp h
      cases cursor with
      | none =>
          cases nextToken with
          | none => exact absurd rfl (hstart rfl)
          | some token =>
              obtain ⟨key, hkey, -⟩ := decodeNextToken_some htoken
              cases hkey
      | some key => exact ⟨_, some key, rfl, htoken, .out key.gsi1sk⟩
  | cons limit limits ih =>
      rw [List.forall_mem_cons] at hlimits
      rw [walkFrom, answered_bind_iff] at h
      obtain ⟨response, hresponse, hrest⟩ := h
      obtain ⟨S, items, token, next, hnow, rfl, hnext, hpage⟩ :=
        answered_listProjects hpages hI hlimits.1 htoken hresponse
      cases token with
      | none =>
          obtain rfl := answered_done_iff.mp hrest
          obtain rfl : next = none := (Except.ok.inj hnext).symm
          exact ⟨_, none, rfl, rfl, .last hnow hpage⟩
      | some token =>
          -- the token is accepted, so there is a next page
          obtain ⟨key, rfl, -⟩ := decodeNextToken_some hnext
          obtain ⟨walk, hwalk, hdone⟩ := answered_bind_iff.mp hrest
          obtain ⟨walk, last, rfl, hlast, hpages'⟩ :=
            ih hlimits.2 hnext (fun _ => by simp) hwalk
          obtain rfl := answered_done_iff.mp hdone
          exact ⟨walk.after items, last, rfl, hlast, .more hnow hpage hpages'⟩

end Walk

end ProjectsApi
