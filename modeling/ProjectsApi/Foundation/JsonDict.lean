import ProjectsApi.Foundation.JsonRoundTrip

/-!
# Dictionaries of JSON values

The operations of a Python dictionary on the members of an object, which keep their insertion
order, and the default writer `json.dumps(value)`.
-/

namespace Foundation.Json

/-- The members of an object, in insertion order. -/
abbrev Members : Type := List (CodePoints × Json)

/-! ## Operations -/

/-- `key in members` -/
def dictHas (members : Members) (key : CodePoints) : Bool := (members.lookup key).isSome

/-- `members.pop(key, None)` -/
def dictPop (members : Members) (key : CodePoints) : Members :=
  members.filter fun m => m.1 != key

/-- `members.setdefault(key, value)` -/
def dictSetDefault (members : Members) (member : CodePoints × Json) : Members :=
  if dictHas members member.1 then members else members ++ [member]

/-- `members.update(others)` -/
def dictUpdate (members others : Members) : Members := others.foldl dictInsert members

theorem lookup_cons_eq (m : CodePoints × Json) (members : Members) (key : CodePoints) :
    (m :: members).lookup key = if key = m.1 then some m.2 else members.lookup key := by
  obtain ⟨k, value⟩ := m
  rw [List.lookup_cons]
  by_cases hkey : key = k
  · simp [hkey]
  · have hne : (key == k) = false := by simpa using hkey
    simp [hkey, hne]

theorem any_key_eq_dictHas (members : Members) (key : CodePoints) :
    (members.any fun m => m.1 == key) = dictHas members key := by
  induction members with
  | nil => rfl
  | cons m members ih =>
      rw [List.any_cons, ih, dictHas, dictHas, lookup_cons_eq]
      by_cases hkey : key = m.1
      · simp [hkey]
      · simp [hkey, Ne.symm hkey]

theorem lookup_append_singleton (members : Members) (k key : CodePoints) (value : Json) :
    (members ++ [(k, value)]).lookup key =
      (members.lookup key).or (if key = k then some value else none) := by
  rw [List.lookup_append, lookup_cons_eq]
  rfl

theorem lookup_dictInsert (members : Members) (k key : CodePoints) (value : Json) :
    (dictInsert members (k, value)).lookup key =
      if key = k then some value else members.lookup key := by
  have hmap : (members.map fun m => if m.1 == k then (k, value) else m).lookup key =
      if key = k then (members.lookup key).map (fun _ => value) else members.lookup key := by
    induction members with
    | nil => simp
    | cons m members ih =>
        rw [List.map_cons, lookup_cons_eq, lookup_cons_eq, ih]
        by_cases hm : m.1 = k
        · by_cases hkey : key = k <;> simp [hm, hkey]
        · by_cases hkey : key = m.1
          · simp [hm, hkey]
          · simp [hm, hkey]
  rw [dictInsert, any_key_eq_dictHas]
  -- a key that is there keeps its place, and a new one goes to the end
  split_ifs with hhas hkey hkey
  · obtain ⟨v, hv⟩ := Option.isSome_iff_exists.mp hhas
    rw [hmap, if_pos hkey, hkey, hv, Option.map_some]
  · rw [hmap, if_neg hkey]
  · have hnone : members.lookup k = none := Option.not_isSome_iff_eq_none.mp hhas
    rw [lookup_append_singleton, hkey, hnone, if_pos rfl, Option.none_or]
  · rw [lookup_append_singleton, if_neg hkey, Option.or_none]

theorem lookup_dictPop (members : Members) (k key : CodePoints) :
    (dictPop members k).lookup key = if key = k then none else members.lookup key := by
  induction members with
  | nil => simp [dictPop]
  | cons m members ih =>
      rw [dictPop] at ih
      by_cases hm : m.1 = k
      · rw [dictPop, List.filter_cons_of_neg (by simpa using hm), ih, lookup_cons_eq, hm]
        by_cases hkey : key = k <;> simp [hkey]
      · rw [dictPop, List.filter_cons_of_pos (by simpa using hm), lookup_cons_eq, ih,
          lookup_cons_eq]
        by_cases hkey : key = m.1
        · simp [hkey, hm]
        · simp [hkey]

theorem lookup_dictSetDefault (members : Members) (k key : CodePoints) (value : Json) :
    (dictSetDefault members (k, value)).lookup key =
      (members.lookup key).or (if key = k then some value else none) := by
  rw [dictSetDefault]
  split_ifs with hhas hkey hkey
  · obtain ⟨v, hv⟩ := Option.isSome_iff_exists.mp hhas
    rw [hkey, hv, Option.some_or]
  · rw [Option.or_none]
  · rw [lookup_append_singleton, if_pos hkey]
  · rw [lookup_append_singleton, if_neg hkey]

theorem lookup_foldl_dictSetDefault (members defaults : Members) (key : CodePoints) :
    (defaults.foldl dictSetDefault members).lookup key =
      (members.lookup key).or (defaults.lookup key) := by
  induction defaults generalizing members with
  | nil => simp
  | cons m defaults ih =>
      rw [List.foldl_cons, ih, lookup_dictSetDefault, lookup_cons_eq, Option.or_assoc]
      by_cases hkey : key = m.1 <;> simp [hkey]

theorem mem_foldl_dictSetDefault {members defaults : Members} {m : CodePoints × Json}
    (h : m ∈ defaults.foldl dictSetDefault members) : m ∈ members ∨ m ∈ defaults := by
  induction defaults generalizing members with
  | nil => exact Or.inl h
  | cons n defaults ih =>
      obtain h | h := ih h
      · unfold dictSetDefault at h
        split_ifs at h
        · exact Or.inl h
        · obtain h | h := List.mem_append.mp h
          · exact Or.inl h
          · exact Or.inr (List.mem_cons.mpr (Or.inl (List.mem_singleton.mp h)))
      · exact Or.inr (List.mem_cons_of_mem _ h)

theorem foldl_dictSetDefault_of_has {members defaults : Members}
    (h : ∀ m ∈ defaults, dictHas members m.1 = true) :
    defaults.foldl dictSetDefault members = members := by
  induction defaults with
  | nil => rfl
  | cons m defaults ih =>
      rw [List.forall_mem_cons] at h
      rw [List.foldl_cons, dictSetDefault, if_pos h.1, ih h.2]

theorem lookup_sortMembers (members : Members) (key : CodePoints) :
    (sortMembers members).lookup key = members.lookup key := by
  have hinsert : ∀ (m : CodePoints × Json) (members : Members),
      (members.orderedInsert (fun a b => a.1 ≤ b.1) m).lookup key = (m :: members).lookup key := by
    intro m members
    induction members with
    | nil => rfl
    | cons n members ih =>
        rw [List.orderedInsert_cons]
        split_ifs with hle
        · rfl
        · have hne : m.1 ≠ n.1 := fun heq => hle heq.le
          rw [lookup_cons_eq, ih, lookup_cons_eq, lookup_cons_eq, lookup_cons_eq]
          by_cases hm : key = m.1
          · simp [hm, hne]
          · simp [hm]
  induction members with
  | nil => rfl
  | cons m members ih =>
      rw [sortMembers] at ih
      rw [sortMembers, List.insertionSort_cons, hinsert, lookup_cons_eq, lookup_cons_eq, ih]

theorem mem_sortMembers {members : Members} {m : CodePoints × Json} :
    m ∈ sortMembers members ↔ m ∈ members :=
  (List.perm_insertionSort _ members).mem_iff

theorem mem_dictPop {members : Members} {k : CodePoints} {m : CodePoints × Json} :
    m ∈ dictPop members k ↔ m ∈ members ∧ m.1 ≠ k := by
  simp [dictPop]

theorem mem_dictInsert {members : Members} {k : CodePoints} {value : Json}
    {m : CodePoints × Json} :
    m ∈ dictInsert members (k, value) ↔ m = (k, value) ∨ m ∈ members ∧ m.1 ≠ k := by
  rw [dictInsert]
  split_ifs with hany
  · obtain ⟨old, hold, hkey⟩ := List.any_eq_true.mp hany
    rw [List.mem_map]
    constructor
    · intro h
      obtain ⟨n, hn, rfl⟩ := h
      split_ifs with hnk
      · exact Or.inl rfl
      · exact Or.inr ⟨hn, by simpa using hnk⟩
    · intro h
      obtain rfl | ⟨hm, hne⟩ := h
      · exact ⟨old, hold, if_pos hkey⟩
      · exact ⟨m, hm, if_neg (by simpa using hne)⟩
  · rw [List.mem_append, List.mem_singleton]
    constructor
    · intro h
      obtain h | h := h
      · exact Or.inr ⟨h, fun hk => hany (List.any_eq_true.mpr ⟨m, h, by simpa using hk⟩)⟩
      · exact Or.inl h
    · intro h
      obtain h | ⟨h, -⟩ := h
      · exact Or.inr h
      · exact Or.inl h

theorem mem_of_lookup {members : Members} {key : CodePoints} {value : Json}
    (h : members.lookup key = some value) : (key, value) ∈ members := by
  induction members with
  | nil => cases h
  | cons m members ih =>
      rw [lookup_cons_eq] at h
      split_ifs at h with hkey
      · obtain rfl := Option.some.inj h
        rw [hkey]
        exact List.mem_cons_self
      · exact List.mem_cons_of_mem _ (ih h)

theorem dictHas_iff {members : Members} {key : CodePoints} :
    dictHas members key = true ↔ ∃ value, (key, value) ∈ members := by
  rw [← any_key_eq_dictHas, List.any_eq_true]
  constructor
  · intro h
    obtain ⟨m, hm, hkey⟩ := h
    obtain rfl : m.1 = key := by simpa using hkey
    exact ⟨m.2, hm⟩
  · intro h
    obtain ⟨value, hmem⟩ := h
    exact ⟨(key, value), hmem, by simp⟩

/-! ## Operations that change nothing -/

theorem dictInsert_of_forall {members : Members} {m : CodePoints × Json}
    (hhas : dictHas members m.1 = true) (h : ∀ n ∈ members, n.1 = m.1 → n = m) :
    dictInsert members m = members := by
  rw [dictInsert, any_key_eq_dictHas, if_pos hhas]
  refine (List.map_congr_left fun n hn => ?_).trans (List.map_id members)
  split_ifs with hkey
  · exact (h n hn (by simpa using hkey)).symm
  · rfl

@[simp] theorem dictHas_dictInsert (members : Members) (m : CodePoints × Json)
    (key : CodePoints) :
    dictHas (dictInsert members m) key = (decide (key = m.1) || dictHas members key) := by
  rw [dictHas, lookup_dictInsert, dictHas]
  by_cases hkey : key = m.1 <;> simp [hkey]

theorem dictInsert_dictInsert (members : Members) (m : CodePoints × Json) :
    dictInsert (dictInsert members m) m = dictInsert members m := by
  refine dictInsert_of_forall (by simp) fun n hn hkey => ?_
  obtain rfl | ⟨-, hne⟩ := mem_dictInsert.mp hn
  · rfl
  · exact absurd hkey hne

theorem dictPop_of_not_has {members : Members} {key : CodePoints}
    (h : dictHas members key = false) : dictPop members key = members := by
  refine List.filter_eq_self.mpr fun m hm => ?_
  have hne : m.1 ≠ key := by
    rintro rfl
    have hhas : dictHas members m.1 = true := dictHas_iff.mpr ⟨m.2, hm⟩
    rw [hhas] at h
    cases h
  simpa using hne

theorem sortMembers_sortMembers (members : Members) :
    sortMembers (sortMembers members) = sortMembers members :=
  (pairwise_sortByKey members).insertionSort_eq

@[simp] theorem dictHas_sortMembers (members : Members) (key : CodePoints) :
    dictHas (sortMembers members) key = dictHas members key := by
  rw [dictHas, lookup_sortMembers, dictHas]

theorem lookup_dictUpdate_of_none {members others : Members} {key : CodePoints}
    (h : others.lookup key = none) :
    (dictUpdate members others).lookup key = members.lookup key := by
  rw [dictUpdate]
  induction others generalizing members with
  | nil => rfl
  | cons m others ih =>
      rw [lookup_cons_eq] at h
      by_cases hkey : key = m.1
      · rw [if_pos hkey] at h
        cases h
      · rw [if_neg hkey] at h
        rw [List.foldl_cons, ih h, lookup_dictInsert, if_neg hkey]

theorem mem_dictUpdate {members others : Members} {m : CodePoints × Json}
    (h : m ∈ dictUpdate members others) : m ∈ members ∨ m ∈ others := by
  rw [dictUpdate] at h
  induction others generalizing members with
  | nil => exact Or.inl h
  | cons n others ih =>
      rcases ih h with h | h
      · rcases mem_dictInsert.mp h with rfl | ⟨h, -⟩
        · exact Or.inr List.mem_cons_self
        · exact Or.inl h
      · exact Or.inr (List.mem_cons_of_mem n h)

theorem dictHas_dictUpdate (members others : Members) (key : CodePoints) :
    dictHas (dictUpdate members others) key = (dictHas members key || dictHas others key) := by
  rw [dictUpdate]
  induction others generalizing members with
  | nil => simp [dictHas]
  | cons m others ih =>
      rw [List.foldl_cons, ih, dictHas_dictInsert, dictHas, dictHas, dictHas, lookup_cons_eq]
      by_cases hkey : key = m.1 <;> cases members.lookup key <;> simp [hkey]

/-! ## Maps that may fail -/

theorem mapM_eq_some_iff {α β : Type} {f : α → Option β} {as : List α} {bs : List β} :
    as.mapM f = some bs ↔ List.Forall₂ (fun a b => f a = some b) as bs := by
  induction as generalizing bs with
  | nil => simp [eq_comm]
  | cons a as ih =>
      rw [List.mapM_cons, Option.bind_eq_bind, Option.bind_eq_some_iff, List.forall₂_cons_left_iff]
      constructor
      · intro h
        obtain ⟨b, hb, hrest⟩ := h
        rw [Option.bind_eq_bind, Option.bind_eq_some_iff] at hrest
        obtain ⟨bs', hbs, hcons⟩ := hrest
        exact ⟨b, bs', hb, ih.mp hbs, (Option.some.inj hcons).symm⟩
      · intro h
        obtain ⟨b, bs', hb, hbs, rfl⟩ := h
        refine ⟨b, hb, ?_⟩
        rw [ih.mpr hbs]
        rfl

/-- A map with a result of some kind for each element. -/
theorem exists_mapM_forall₂ {α β : Type} {f : α → Option β} {R : α → β → Prop} {as : List α}
    (h : ∀ a ∈ as, ∃ b, f a = some b ∧ R a b) :
    ∃ bs, as.mapM f = some bs ∧ List.Forall₂ R as bs := by
  induction as with
  | nil => exact ⟨[], rfl, .nil⟩
  | cons a as ih =>
      rw [List.forall_mem_cons] at h
      obtain ⟨b, hb, hR⟩ := h.1
      obtain ⟨bs, hbs, hall⟩ := ih h.2
      exact ⟨b :: bs, mapM_eq_some_iff.mpr (.cons hb (mapM_eq_some_iff.mp hbs)), .cons hR hall⟩

theorem exists_mapM {α β : Type} {f : α → Option β} {as : List α}
    (h : ∀ a ∈ as, ∃ b, f a = some b) : ∃ bs, as.mapM f = some bs := by
  obtain ⟨bs, hbs, -⟩ := exists_mapM_forall₂ (R := fun _ _ => True)
    fun a ha => (h a ha).imp fun _ hb => ⟨hb, trivial⟩
  exact ⟨bs, hbs⟩

/-- A map that keeps the keys acts on the value of each key. -/
theorem lookup_mapM {f : CodePoints × Json → Option (CodePoints × Json)} {members others : Members}
    (hf : ∀ {m n}, f m = some n → n.1 = m.1) (h : members.mapM f = some others)
    (key : CodePoints) :
    others.lookup key = (members.lookup key).bind fun value => (f (key, value)).map Prod.snd := by
  have hall := mapM_eq_some_iff.mp h
  clear h
  induction hall with
  | nil => rfl
  | @cons m n members others hm _ ih =>
      rw [lookup_cons_eq, lookup_cons_eq, ih, hf hm]
      split_ifs with hkey
      · rw [hkey, Option.bind_some, hm]
        rfl
      · rfl

theorem dictHas_mapM {f : CodePoints × Json → Option (CodePoints × Json)} {members others : Members}
    (hf : ∀ {m n}, f m = some n → n.1 = m.1) (h : members.mapM f = some others)
    (key : CodePoints) : dictHas others key = dictHas members key := by
  have hall := mapM_eq_some_iff.mp h
  clear h
  induction hall with
  | nil => rfl
  | @cons m n members others hm _ ih =>
      rw [dictHas, dictHas] at ih
      rw [dictHas, dictHas, lookup_cons_eq, lookup_cons_eq, hf hm]
      split_ifs with hkey
      · rfl
      · exact ih

/-- A dictionary has each key once. -/
def DistinctKeys (members : Members) : Prop := (members.map Prod.fst).Nodup

instance (members : Members) : Decidable (DistinctKeys members) :=
  inferInstanceAs (Decidable (List.Nodup _))

theorem DistinctKeys.lookup_of_mem {members : Members} (h : DistinctKeys members)
    {key : CodePoints} {value : Json} (hmem : (key, value) ∈ members) :
    members.lookup key = some value := by
  induction members with
  | nil => cases hmem
  | cons m members ih =>
      obtain ⟨hfresh, hmembers⟩ := List.nodup_cons.mp h
      rw [lookup_cons_eq]
      rcases List.mem_cons.mp hmem with rfl | hmem
      · exact if_pos rfl
      · rw [if_neg, ih hmembers hmem]
        rintro rfl
        exact hfresh (List.mem_map.mpr ⟨_, hmem, rfl⟩)

/-- A map that keeps the keys keeps them distinct. -/
theorem DistinctKeys.mapM {f : CodePoints × Json → Option (CodePoints × Json)}
    {members others : Members} (hf : ∀ {m n}, f m = some n → n.1 = m.1)
    (h : members.mapM f = some others) (hdistinct : DistinctKeys members) :
    DistinctKeys others := by
  have hkeys : others.map Prod.fst = members.map Prod.fst := by
    have hall := mapM_eq_some_iff.mp h
    clear h hdistinct
    induction hall with
    | nil => rfl
    | cons hm _ ih => rw [List.map_cons, List.map_cons, ih, hf hm]
  rw [DistinctKeys, hkeys]
  exact hdistinct

theorem exists_of_mem_mapM {α β : Type} {f : α → Option β} {as : List α} {bs : List β}
    (h : as.mapM f = some bs) {b : β} (hb : b ∈ bs) : ∃ a ∈ as, f a = some b := by
  have hall := mapM_eq_some_iff.mp h
  clear h
  induction hall with
  | nil => cases hb
  | @cons a b' as bs hab _ ih =>
      obtain rfl | hb := List.mem_cons.mp hb
      · exact ⟨a, List.mem_cons_self, hab⟩
      · obtain ⟨a', ha', hfa⟩ := ih hb
        exact ⟨a', List.mem_cons_of_mem _ ha', hfa⟩

/-- A map with a result has one for each element. -/
theorem exists_mapM_of_mem {α β : Type} {f : α → Option β} {as : List α} {bs : List β}
    (h : as.mapM f = some bs) {a : α} (ha : a ∈ as) : ∃ b, f a = some b := by
  have hall := mapM_eq_some_iff.mp h
  clear h
  induction hall with
  | nil => cases ha
  | @cons a' b as bs hab _ ih =>
      rcases List.mem_cons.mp ha with rfl | ha
      · exact ⟨b, hab⟩
      · exact ih ha

/-! ## The default writer -/

/-- `", ".join(parts)` -/
def joinSpaced (parts : List CodePoints) : CodePoints :=
  (parts.intersperse [0x2C, 0x20]).flatten

mutual

/-- `json.dumps(value)` -/
def dumpsSpaced : Json → CodePoints
  | .null => codePoints "null"
  | .bool true => codePoints "true"
  | .bool false => codePoints "false"
  | .number literal => literal
  | .string value => quote value
  | .array elements => 0x5B :: (joinSpaced (spacedElements elements) ++ [0x5D])
  | .object members => 0x7B :: (joinSpaced (spacedMembers members) ++ [0x7D])

def spacedElements : List Json → List CodePoints
  | [] => []
  | element :: elements => dumpsSpaced element :: spacedElements elements

def spacedMembers : List (CodePoints × Json) → List CodePoints
  | [] => []
  | (key, value) :: members =>
      (quote key ++ 0x3A :: 0x20 :: dumpsSpaced value) :: spacedMembers members

end

mutual

/-- The keys and the strings of a document. -/
def strings : Json → List CodePoints
  | .null => []
  | .bool _ => []
  | .number _ => []
  | .string value => [value]
  | .array elements => elementStrings elements
  | .object members => memberStrings members

def elementStrings : List Json → List CodePoints
  | [] => []
  | element :: elements => strings element ++ elementStrings elements

def memberStrings : List (CodePoints × Json) → List CodePoints
  | [] => []
  | (key, value) :: members => (key :: strings value) ++ memberStrings members

end

theorem infix_joinSpaced {part : CodePoints} {parts : List CodePoints} (h : part ∈ parts) :
    part <:+: joinSpaced parts := by
  induction parts with
  | nil => cases h
  | cons first parts ih =>
      cases parts with
      | nil =>
          obtain rfl := List.mem_singleton.mp h
          simp [joinSpaced]
      | cons next parts =>
          have hjoin : joinSpaced (first :: next :: parts) =
              first ++ (0x2C :: 0x20 :: joinSpaced (next :: parts)) := by
            simp [joinSpaced]
          rw [hjoin]
          obtain rfl | h := List.mem_cons.mp h
          · exact List.infix_append_left
          · exact (ih h).trans ⟨first ++ [0x2C, 0x20], [], by simp⟩

mutual

/-- A key or a string of a document stands quoted in its text. -/
theorem quote_infix_dumpsSpaced : (value : Json) → ∀ text ∈ strings value,
    quote text <:+: dumpsSpaced value
  | .string value, text, h => by
      obtain rfl := List.mem_singleton.mp h
      exact List.infix_rfl
  | .array elements, text, h => by
      obtain ⟨part, hpart, hinside⟩ := quote_infix_spacedElements elements text h
      exact (hinside.trans (infix_joinSpaced hpart)).trans ⟨[0x5B], [0x5D], by simp [dumpsSpaced]⟩
  | .object members, text, h => by
      obtain ⟨part, hpart, hinside⟩ := quote_infix_spacedMembers members text h
      exact (hinside.trans (infix_joinSpaced hpart)).trans ⟨[0x7B], [0x7D], by simp [dumpsSpaced]⟩

theorem quote_infix_spacedElements : (elements : List Json) → ∀ text ∈ elementStrings elements,
    ∃ part ∈ spacedElements elements, quote text <:+: part
  | element :: elements, text, h => by
      obtain h | h := List.mem_append.mp h
      · exact ⟨_, List.mem_cons_self, quote_infix_dumpsSpaced element text h⟩
      · obtain ⟨part, hpart, hinside⟩ := quote_infix_spacedElements elements text h
        exact ⟨part, List.mem_cons_of_mem _ hpart, hinside⟩

theorem quote_infix_spacedMembers : (members : List (CodePoints × Json)) →
    ∀ text ∈ memberStrings members, ∃ part ∈ spacedMembers members, quote text <:+: part
  | (key, value) :: members, text, h => by
      obtain h | h := List.mem_append.mp h
      · refine ⟨_, List.mem_cons_self, ?_⟩
        obtain rfl | h := List.mem_cons.mp h
        · exact List.infix_append_left
        · refine (quote_infix_dumpsSpaced value text h).trans ?_
          exact ⟨quote key ++ [0x3A, 0x20], [], by simp⟩
      · obtain ⟨part, hpart, hinside⟩ := quote_infix_spacedMembers members text h
        exact ⟨part, List.mem_cons_of_mem _ hpart, hinside⟩

end

end Foundation.Json
