import Mathlib.Data.Finmap

/-!
# Lookups in finite maps

Case distinctions for the lookup of a map after an insertion, a removal or a
sequence of insertions, and lookups in association lists with distinct keys.
-/

namespace Foundation

universe u v

variable {α : Type u} {β : Type v} [DecidableEq α]

/-- The lookup of a map after one insertion, as a case distinction. -/
theorem lookup_insert_eq (m : Finmap fun _ : α => β) (a a' : α) (b : β) :
    (m.insert a b).lookup a' = if a' = a then some b else m.lookup a' := by
  by_cases h : a' = a
  · subst h
    simp
  · simp [h, Finmap.lookup_insert_of_ne m h]

/-- The lookup of a map after one removal, as a case distinction. -/
theorem lookup_erase_eq (m : Finmap fun _ : α => β) (a a' : α) :
    (m.erase a).lookup a' = if a' = a then none else m.lookup a' := by
  by_cases h : a' = a
  · subst h
    simp
  · simp [h, Finmap.lookup_erase_ne h]

/-! ## Association lists -/

/-- In a list of distinct keys a lookup finds exactly the listed pairs. -/
theorem lookup_eq_some_iff_mem {l : List (α × β)} (hl : (l.map Prod.fst).Nodup) {a : α} {b : β} :
    l.lookup a = some b ↔ (a, b) ∈ l := by
  induction l with
  | nil => simp
  | cons pair l ih =>
      obtain ⟨a', b'⟩ := pair
      rw [List.map_cons, List.nodup_cons] at hl
      by_cases h : a = a'
      · subst h
        have hnot : (a, b) ∉ l := fun hmem => hl.1 (List.mem_map.mpr ⟨_, hmem, rfl⟩)
        simp [hnot, eq_comm]
      · have hne : (a == a') = false := by simpa using h
        simp [List.lookup_cons, hne, h, ih hl.2]

/-- The order of distinct keys does not matter to lookups. -/
theorem lookup_eq_of_perm {l l' : List (α × β)} (hl : (l.map Prod.fst).Nodup)
    (hperm : l.Perm l') (a : α) : l.lookup a = l'.lookup a := by
  have hl' : (l'.map Prod.fst).Nodup := (hperm.map Prod.fst).nodup_iff.mp hl
  apply Option.ext
  intro b
  rw [lookup_eq_some_iff_mem hl, lookup_eq_some_iff_mem hl']
  exact hperm.mem_iff

/-- `d[key] = value` on a dictionary that keeps the order of insertion. -/
def setEntry (l : List (α × β)) (a : α) (b : β) : List (α × β) :=
  if a ∈ l.map Prod.fst then l.map fun pair => if pair.1 = a then (a, b) else pair
  else l ++ [(a, b)]

/-- New keys are appended. -/
theorem foldl_setEntry {l new : List (α × β)} (h : ((l ++ new).map Prod.fst).Nodup) :
    new.foldl (fun l pair => setEntry l pair.1 pair.2) l = l ++ new := by
  induction new generalizing l with
  | nil => simp
  | cons pair new ih =>
      have hnot : pair.1 ∉ l.map Prod.fst := by
        rw [List.map_append, List.nodup_append] at h
        exact fun hmem => h.2.2 _ hmem _ (List.mem_map_of_mem List.mem_cons_self) rfl
      rw [List.append_cons] at h ⊢
      rw [List.foldl_cons, setEntry, if_neg hnot]
      exact ih h

/-- Insertions of distinct keys, one after another. -/
theorem lookup_foldl_insert {l : List (α × β)} (hl : (l.map Prod.fst).Nodup)
    (m : Finmap fun _ : α => β) (a : α) :
    (l.foldl (fun m pair => m.insert pair.1 pair.2) m).lookup a =
      (l.lookup a).or (m.lookup a) := by
  induction l generalizing m with
  | nil => rfl
  | cons pair l ih =>
      obtain ⟨a', b⟩ := pair
      rw [List.map_cons, List.nodup_cons] at hl
      rw [List.foldl_cons, ih hl.2, lookup_insert_eq]
      by_cases h : a = a'
      · subst h
        have hnone : l.lookup a = none := by
          rw [List.lookup_eq_none_iff]
          intro p hp
          have hne : p.1 ≠ a := fun heq => hl.1 (List.mem_map.mpr ⟨p, hp, heq⟩)
          simpa [bne_iff_ne] using hne.symm
        simp [hnone]
      · have hne : (a == a') = false := by simpa using h
        simp [List.lookup_cons, hne, h]

end Foundation
