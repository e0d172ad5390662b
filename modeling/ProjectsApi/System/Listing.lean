import Mathlib.Data.Prod.Lex
import ProjectsApi.Service.Query
import ProjectsApi.System.Sequential

/-!
# What an owner's query sees

In a table that encodes a registry the index partition of an owner holds exactly the
records of the owner's projects, in distinct places ordered by creation time and
then id.
-/

namespace ProjectsApi

open Foundation Dynamo Program

/-! ## The sort key -/

/-- The sort key of a creation time and an id. -/
def sortKey (key : Datetime ×ₗ String) : String :=
  projectGsi1skPrefix ++ (ofLex key).1.isoformat ++ "#" ++ (ofLex key).2

theorem gsi1sk_eq_sortKey (p : Project) :
    gsi1sk p = sortKey (toLex (p.createdAt, p.projectId)) := rfl

/-- Texts compare like the times and ids they are made of. -/
theorem sortKey_strictMono : StrictMono sortKey := by
  have htext : ∀ key, (sortKey key).toList =
      "PROJECT#".toList ++ ((ofLex key).1.isoChars ++ '#' :: (ofLex key).2.toList) := by
    intro key
    simp [sortKey, projectGsi1skPrefix]
  intro key key' h
  rw [String.lt_iff_toList_lt, htext, htext, append_lt_append_left_iff,
    append_cons_lt_append_cons_iff _ (by simp), Datetime.isoChars_lt_iff,
    Datetime.isoChars_injective.eq_iff, ← String.lt_iff_toList_lt]
  exact Prod.Lex.lt_iff.mp h

/-- The sort key orders by creation time, then id. -/
theorem gsi1sk_lt_iff (p q : Project) : gsi1sk p < gsi1sk q ↔
    p.createdAt < q.createdAt ∨ p.createdAt = q.createdAt ∧ p.projectId < q.projectId := by
  rw [gsi1sk_eq_sortKey, gsi1sk_eq_sortKey, sortKey_strictMono.lt_iff_lt,
    Prod.Lex.toLex_lt_toLex]

theorem gsi1sk_injective {p q : Project} (h : gsi1sk p = gsi1sk q) :
    p.createdAt = q.createdAt ∧ p.projectId = q.projectId :=
  Prod.mk.inj (toLex.injective (sortKey_strictMono.injective h))

theorem projectGsi1skPrefix_isPrefix (p : Project) :
    projectGsi1skPrefix.toList <+: (gsi1sk p).toList := by
  simp [gsi1sk]

/-- Times may be compared as the instants they denote. -/
theorem gsi1sk_lt_iff_instant (p q : Project) : gsi1sk p < gsi1sk q ↔
    toLex (p.createdAt.instant, p.projectId) < toLex (q.createdAt.instant, q.projectId) := by
  rw [gsi1sk_lt_iff, Prod.Lex.toLex_lt_toLex, Datetime.instant_strictMono.lt_iff_lt,
    Datetime.instant_strictMono.injective.eq_iff]

/-- The sort keys of new projects compare like their creation times, whether by their fields or
as instants, and then like their ids; only equal times and ids make equal keys, and each of them
begins as the listing asks for. -/
theorem gsi1sk_new_cmp [CaseTables] (name name' : String) (type type' : ProjectType)
    (ownerId ownerId' : String) (now now' : Datetime) (uuid uuid' : Uuid4) :
    let p := Project.new name type ownerId now uuid
    let q := Project.new name' type' ownerId' now' uuid'
    cmp (gsi1sk p) (gsi1sk q) =
        cmp (toLex (p.createdAt, p.projectId)) (toLex (q.createdAt, q.projectId)) ∧
      cmp (gsi1sk p) (gsi1sk q) =
        cmp (toLex (p.createdAt.instant, p.projectId))
          (toLex (q.createdAt.instant, q.projectId)) ∧
      (gsi1sk p = gsi1sk q ↔ p.createdAt = q.createdAt ∧ p.projectId = q.projectId) ∧
      (projectItem p).lookup "GSI1SK" = some (.S (gsi1sk p)) ∧
      ∀ ownerId limit cursor,
        (ProjectRepository.listRequest ownerId limit cursor).beginsWith.toList <+:
          (gsi1sk p).toList := by
  intro p q
  have hfields : ∀ p q : Project, gsi1sk p < gsi1sk q ↔
      toLex (p.createdAt, p.projectId) < toLex (q.createdAt, q.projectId) := by
    intro p q
    rw [gsi1sk_lt_iff, Prod.Lex.toLex_lt_toLex]
  refine ⟨?_, ?_, ?_, ?_, ?_⟩
  · exact cmp_eq_cmp_of_lt_iff (hfields p q) (hfields q p)
  · exact cmp_eq_cmp_of_lt_iff (gsi1sk_lt_iff_instant p q) (gsi1sk_lt_iff_instant q p)
  · constructor
    · exact gsi1sk_injective
    · rintro ⟨htime, hid⟩
      rw [gsi1sk_eq_sortKey, gsi1sk_eq_sortKey, htime, hid]
  · rw [← recordItem_of_project]
    exact recordItem_gsi1sk _
  · intro ownerId limit cursor
    exact projectGsi1skPrefix_isPrefix p

theorem attributePoints_of_lookup {item : Item} {name value : String}
    (h : item.lookup name = some (.S value)) : attributePoints item name = codePoints value := by
  rw [attributePoints, Item.string?_eq_some_iff.mpr h, Option.getD_some]

variable [CaseTables]

@[simp] theorem indexPosition_recordItem (e : Entry) :
    indexPosition (recordItem e) = codePoints (gsi1sk e.project) :=
  attributePoints_of_lookup (recordItem_gsi1sk e)

/-! ## The partition of an owner -/

section Partition

variable {R : Projects} {t : Table}

/-- The records an owner's query sees. -/
theorem Represents.mem_visible (h : Represents R t) {ownerId : String} {limit : Nat}
    {cursor : Option CursorKey} {item : Item} :
    item ∈ Service.visible t (ProjectRepository.listRequest ownerId limit cursor) ↔
      ∃ id e, R.find? id = some e ∧ e.project.ownerId = ownerId ∧ item = recordItem e := by
  rw [Service.visible, mem_indexPartition]
  simp only [Item.string?_eq_some_iff]
  constructor
  · rintro ⟨⟨key, hkey⟩, howner, -⟩
    rcases h.keys key item hkey with ⟨id, rfl⟩ | ⟨name, rfl⟩
    · obtain ⟨e, he, rfl⟩ := h.record_eq_some.mp hkey
      rw [recordItem_gsi1pk, Option.some_inj, AttributeValue.S.injEq] at howner
      exact ⟨id, e, he, ownerGsi1pk_injective howner, rfl⟩
    · obtain ⟨id, e, -, -, rfl⟩ := (h.reservation name item).mp hkey
      rw [reservationItem_gsi1pk] at howner
      cases howner
  · rintro ⟨id, e, he, rfl, rfl⟩
    refine ⟨⟨recordKey id, h.record_eq_some.mpr ⟨e, he, rfl⟩⟩, recordItem_gsi1pk e,
      gsi1sk e.project, recordItem_gsi1sk e, ?_⟩
    simp [gsi1sk, ProjectRepository.listRequest]

/-- An owner's records have distinct places in the index. -/
theorem Represents.distinctPositions (h : Represents R t) (ownerId : String) (limit : Nat)
    (cursor : Option CursorKey) :
    DistinctPositions
      (Service.visible t (ProjectRepository.listRequest ownerId limit cursor)) := by
  intro a ha b hb heq
  obtain ⟨id, e, he, -, rfl⟩ := h.mem_visible.mp ha
  obtain ⟨id', e', he', -, rfl⟩ := h.mem_visible.mp hb
  rw [indexPosition_recordItem, indexPosition_recordItem, codePoints_inj] at heq
  have hid := (gsi1sk_injective heq).2
  rw [Projects.projectId_eq he, Projects.projectId_eq he'] at hid
  subst hid
  rw [he] at he'
  rw [Option.some.inj he']

end Partition

/-! ## One page -/

/-- Records of entries are the records of a list of entries. -/
theorem exists_map_recordItem {P : Entry → Prop} {items : List Item}
    (h : ∀ item ∈ items, ∃ e, P e ∧ item = recordItem e) :
    ∃ entries : List Entry, items = entries.map recordItem ∧ ∀ e ∈ entries, P e := by
  induction items with
  | nil => exact ⟨[], rfl, by simp⟩
  | cons item items ih =>
      obtain ⟨e, he, rfl⟩ := h item List.mem_cons_self
      obtain ⟨entries, rfl, hentries⟩ := ih fun i hi => h i (List.mem_cons_of_mem _ hi)
      exact ⟨e :: entries, rfl, List.forall_mem_cons.mpr ⟨he, hentries⟩⟩

section Page

variable [DatetimeParser] {svc : Service} {R : Projects} {t t' : Table}

theorem mapM_toProject_recordItem (entries : List Entry) :
    (entries.map recordItem).mapM toProject = .ok (entries.map Entry.project) := by
  induction entries with
  | nil => rfl
  | cons e entries ih =>
      rw [List.map_cons, List.mapM_cons, toProject_recordItem, ih]
      rfl

omit [DatetimeParser] in
/-- The answer to the query of a page: records of the owner's projects. -/
theorem Represents.query_page (h : Represents R t) (hpages : svc.Pages) {ownerId : String}
    {limit : Nat} {cursor : Option CursorKey} (hlimit : 1 ≤ limit)
    {answer : Except ClientError QueryOutput}
    (hanswer : svc.query (Service.visible t (ProjectRepository.listRequest ownerId limit cursor))
      (ProjectRepository.listRequest ownerId limit cursor) answer) :
    ∃ (entries : List Entry) (lastKey : Option CursorKey),
      answer = .ok { items := entries.map recordItem, lastEvaluatedKey := lastKey } ∧
      IsPage (Service.visible t (ProjectRepository.listRequest ownerId limit cursor))
        (ProjectRepository.listRequest ownerId limit cursor)
        { items := entries.map recordItem, lastEvaluatedKey := lastKey } ∧
      ∀ e ∈ entries, R.find? e.project.projectId = some e ∧ e.project.ownerId = ownerId := by
  obtain ⟨⟨items, lastKey⟩, rfl, hpage⟩ := hpages _ _ _
    (h.distinctPositions ownerId limit cursor) hlimit hanswer
  obtain ⟨rest, -, hmem, -⟩ := hpage.split
  have hall : ∀ item ∈ items, ∃ e, (R.find? e.project.projectId = some e ∧
      e.project.ownerId = ownerId) ∧ item = recordItem e := by
    intro item hitem
    obtain ⟨id, e, he, howner, hrecord⟩ :=
      h.mem_visible.mp ((hmem item).mp (List.mem_append_left _ hitem)).1
    exact ⟨e, ⟨by rw [Projects.projectId_eq he, he], howner⟩, hrecord⟩
  obtain ⟨entries, rfl, howned⟩ := exists_map_recordItem hall
  exact ⟨entries, lastKey, rfl, hpage, howned⟩

/-- A page of the listing: the projects of its entries, which are the owner's. -/
theorem Represents.eval_listByOwner (h : Represents R t) (hpages : svc.Pages)
    {ownerId : String} {limit : Nat} {cursor : Option CursorKey} (hlimit : 1 ≤ limit)
    {r : Except Exn ProjectRepository.Page}
    (heval : Eval svc.Exec t (ProjectRepository.listByOwner ownerId limit cursor) r t') :
    t' = t ∧ ∃ (entries : List Entry) (lastKey : Option CursorKey),
      r = .ok (entries.map Entry.project, lastKey) ∧
      IsPage (Service.visible t (ProjectRepository.listRequest ownerId limit cursor))
        (ProjectRepository.listRequest ownerId limit cursor)
        { items := entries.map recordItem, lastEvaluatedKey := lastKey } ∧
      ∀ e ∈ entries, R.find? e.project.projectId = some e ∧ e.project.ownerId = ownerId := by
  rw [ProjectRepository.listByOwner, perform_bind, eval_call_iff] at heval
  obtain ⟨answer, t₁, hexec, hnext⟩ := heval
  cases hexec with
  | query _ hanswer =>
      obtain ⟨entries, lastKey, rfl, hpage, howned⟩ := h.query_page hpages hlimit hanswer
      obtain ⟨rfl, rfl⟩ := eval_done_iff.mp hnext
      refine ⟨rfl, entries, lastKey, ?_, hpage, howned⟩
      rw [mapM_toProject_recordItem]
      rfl

end Page

end ProjectsApi
