import Mathlib.Algebra.GroupWithZero.Nat
import Mathlib.Data.List.DropRight
import Mathlib.Data.List.Forall2

/-!
# Words

The words of a list are its maximal runs without a separator.  Separators at either end do
not matter (`words_trim`), and joining words with one separator and splitting again gives
them back (`words_joinWords`).
-/

namespace Foundation

variable {α β : Type} (sep : α → Bool)

/-- The maximal runs of elements that are no separators. -/
def words (cs : List α) : List (List α) :=
  (cs.splitOnP sep).filter fun w => !w.isEmpty

/-- The words with one separator between each two of them. -/
def joinWords (s : α) (ws : List (List α)) : List α := [s].intercalate ws

@[simp] theorem joinWords_nil (s : α) : joinWords s [] = [] := rfl

@[simp] theorem joinWords_singleton (s : α) (w : List α) : joinWords s [w] = w := by
  simp [joinWords, List.intercalate]

@[simp] theorem joinWords_cons_cons (s : α) (w v : List α) (ws : List (List α)) :
    joinWords s (w :: v :: ws) = w ++ s :: joinWords s (v :: ws) := by
  simp [joinWords, List.intercalate]

theorem joinWords_cons_of_ne_nil (s : α) (w : List α) {ws : List (List α)} (h : ws ≠ []) :
    joinWords s (w :: ws) = w ++ s :: joinWords s ws := by
  cases ws with
  | nil => exact absurd rfl h
  | cons v ws => exact joinWords_cons_cons s w v ws

/-- Each word but the first has a separator before it. -/
theorem joinWords_cons (s : α) (w : List α) (ws : List (List α)) :
    joinWords s (w :: ws) = w ++ ws.flatMap fun v => s :: v := by
  induction ws generalizing w with
  | nil => simp
  | cons v ws ih =>
      rw [joinWords_cons_cons, ih, List.flatMap_cons]
      rfl

theorem joinWords_modifyHead (s c : α) {ws : List (List α)} (h : ws ≠ []) :
    joinWords s (ws.modifyHead (c :: ·)) = c :: joinWords s ws := by
  match ws, h with
  | [w], _ => simp
  | w :: v :: ws, _ => simp

theorem joinWords_map (f : α → β) (s : α) (ws : List (List α)) :
    joinWords (f s) (ws.map (List.map f)) = (joinWords s ws).map f := by
  induction ws with
  | nil => rfl
  | cons w ws ih =>
      cases ws with
      | nil => simp
      | cons v ws => simpa using ih

/-- A text without a separator in it is one word. -/
theorem joinWords_eq_iff {s : α} {w : List α} (hne : w ≠ []) (hs : s ∉ w) {ws : List (List α)} :
    joinWords s ws = w ↔ ws = [w] := by
  constructor
  · intro h
    match ws with
    | [] => exact absurd h.symm hne
    | [v] => rw [← h, joinWords_singleton]
    | v :: u :: ws =>
        rw [← h, joinWords_cons_cons] at hs
        exact absurd (List.mem_append_right v List.mem_cons_self) hs
  · rintro rfl
    exact joinWords_singleton s w

/-- The length of the words, each with one separator behind it. -/
def totalLength (ws : List (List α)) : Nat := (ws.map fun w => w.length + 1).sum

theorem totalLength_cons (w : List α) (ws : List (List α)) :
    totalLength (w :: ws) = w.length + 1 + totalLength ws := List.sum_cons

theorem totalLength_eq_zero_iff {ws : List (List α)} : totalLength ws = 0 ↔ ws = [] := by
  cases ws with
  | nil => simp [totalLength]
  | cons w ws => simp [totalLength]

theorem length_joinWords (s : α) (ws : List (List α)) :
    (joinWords s ws).length = totalLength ws - 1 := by
  induction ws with
  | nil => rfl
  | cons w ws ih =>
      cases ws with
      | nil => simp [totalLength]
      | cons v ws =>
          rw [joinWords_cons_cons, List.length_append, List.length_cons, ih]
          simp only [totalLength_cons]
          omega

theorem eq_or_totalLength_lt {us ws : List (List α)} (h : us.Sublist ws) :
    us = ws ∨ totalLength us < totalLength ws := by
  induction h with
  | slnil => exact Or.inl rfl
  | cons w h ih =>
      rw [totalLength_cons]
      rcases ih with rfl | hlt
      · exact Or.inr (by omega)
      · exact Or.inr (by omega)
  | cons_cons w h ih =>
      rw [totalLength_cons, totalLength_cons]
      rcases ih with rfl | hlt
      · exact Or.inl rfl
      · exact Or.inr (by omega)

/-- The text of some of the words is shorter than the text of all, unless that is empty. -/
theorem eq_of_joinWords_eq {s : α} {us ws : List (List α)} (h : us.Sublist ws)
    (heq : joinWords s us = joinWords s ws) : us = ws ∨ us = [] ∧ ws = [[]] := by
  have hlength := congrArg List.length heq
  rw [length_joinWords, length_joinWords] at hlength
  rcases eq_or_totalLength_lt h with rfl | hlt
  · exact Or.inl rfl
  · have hus : us = [] := totalLength_eq_zero_iff.mp (by omega)
    cases ws with
    | nil => exact Or.inl hus
    | cons w ws =>
        rw [totalLength_cons] at hlength hlt
        have hw : w = [] := List.length_eq_zero_iff.mp (by omega)
        have hws : ws = [] := totalLength_eq_zero_iff.mp (by omega)
        exact Or.inr ⟨hus, by rw [hw, hws]⟩

/-! ## Splitting -/

section Words

variable {sep}

/-- What comes before the first separator belongs to the first piece. -/
theorem splitOnP_append_of_forall {u : List α} (hu : ∀ c ∈ u, sep c = false) (cs : List α) :
    (u ++ cs).splitOnP sep = (cs.splitOnP sep).modifyHead (u ++ ·) := by
  induction u with
  | nil =>
      rw [List.nil_append]
      cases cs.splitOnP sep <;> rfl
  | cons c u ih =>
      obtain ⟨hc, hu⟩ := List.forall_mem_cons.mp hu
      rw [List.cons_append, List.splitOnP_cons_eq_if_modifyHead, if_neg (by simp [hc]), ih hu]
      simp [List.modifyHead_modifyHead, Function.comp_def]

@[simp] theorem words_nil : words sep [] = [] := rfl

theorem words_append_cons {c : α} (hc : sep c = true) (as cs : List α) :
    words sep (as ++ c :: cs) = words sep as ++ words sep cs := by
  rw [words, List.splitOnP_append_cons _ _ hc, List.filter_append, words, words]

theorem words_cons_sep {c : α} (hc : sep c = true) (cs : List α) :
    words sep (c :: cs) = words sep cs :=
  words_append_cons hc [] cs

theorem words_of_forall {w : List α} (hne : w ≠ []) (hw : ∀ c ∈ w, sep c = false) :
    words sep w = [w] := by
  rw [words, List.splitOnP_eq_singleton hw]
  simp [hne]

theorem words_cons_cons_sep {c d : α} (hc : sep c = false) (hd : sep d = true) (cs : List α) :
    words sep (c :: d :: cs) = [c] :: words sep cs := by
  have hone : words sep [c] = [[c]] := words_of_forall (by simp) (by simpa using hc)
  have hsplit := words_append_cons hd [c] cs
  rw [hone] at hsplit
  exact hsplit

theorem words_cons_cons {c d : α} (hc : sep c = false) (hd : sep d = false) (cs : List α) :
    words sep (c :: d :: cs) = (words sep (d :: cs)).modifyHead (c :: ·) := by
  have hsplit : (d :: cs).splitOnP sep = ((cs.splitOnP sep).modifyHead (d :: ·)) := by
    rw [List.splitOnP_cons_eq_if_modifyHead, if_neg (by simp [hd])]
  obtain ⟨w, ws, hws⟩ := List.exists_cons_of_ne_nil (List.splitOnP_ne_nil sep cs)
  rw [words, List.splitOnP_cons_eq_if_modifyHead, if_neg (by simp [hc]), words, hsplit, hws]
  simp

theorem words_eq_nil_iff {cs : List α} : words sep cs = [] ↔ ∀ c ∈ cs, sep c = true := by
  induction cs with
  | nil => simp
  | cons c cs ih =>
      cases hc : sep c with
      | true => rw [words_cons_sep hc, ih, List.forall_mem_cons, hc, and_iff_right rfl]
      | false =>
          have hne : words sep (c :: cs) ≠ [] := by
            cases cs with
            | nil => rw [words_of_forall (by simp) (by simpa using hc)]; simp
            | cons d cs =>
                cases hd : sep d with
                | true => rw [words_cons_cons_sep hc hd]; simp
                | false =>
                    have hrest : words sep (d :: cs) ≠ [] := by
                      rw [ne_eq, ih]
                      simp [hd]
                    rw [words_cons_cons hc hd]
                    simpa using hrest
          simp [hne, hc]

/-- A word is not empty and has no separator in it. -/
theorem mem_words {cs w : List α} (h : w ∈ words sep cs) : w ≠ [] ∧ ∀ c ∈ w, sep c = false := by
  have hpieces : ∀ w ∈ cs.splitOnP sep, ∀ c ∈ w, sep c = false := by
    clear h
    induction cs with
    | nil => simp [List.splitOnP_nil]
    | cons c cs ih =>
        rw [List.splitOnP_cons_eq_if_modifyHead]
        split_ifs with hc
        · simpa using ih
        · obtain ⟨v, vs, hvs⟩ := List.exists_cons_of_ne_nil (List.splitOnP_ne_nil sep cs)
          rw [hvs] at ih ⊢
          simp only [List.modifyHead_cons, List.mem_cons, forall_eq_or_imp] at ih ⊢
          exact ⟨⟨by simpa using hc, ih.1⟩, ih.2⟩
  rw [words, List.mem_filter] at h
  exact ⟨by simpa using h.2, hpieces w h.1⟩

/-- Joined words are split again into the same words. -/
theorem words_joinWords {s : α} (hs : sep s = true) {ws : List (List α)}
    (h : ∀ w ∈ ws, w ≠ [] ∧ ∀ c ∈ w, sep c = false) : words sep (joinWords s ws) = ws := by
  induction ws with
  | nil => rfl
  | cons w ws ih =>
      rw [List.forall_mem_cons] at h
      have hw : words sep w = [w] := words_of_forall h.1.1 h.1.2
      cases ws with
      | nil => rw [joinWords_singleton, hw]
      | cons v ws =>
        rw [joinWords_cons_cons, words_append_cons hs, hw, ih h.2, List.singleton_append]

/-! ## Trimming -/

variable {p : α → Bool}

theorem words_dropWhile (hp : ∀ c, p c = true → sep c = true) (cs : List α) :
    words sep (cs.dropWhile p) = words sep cs := by
  induction cs with
  | nil => rfl
  | cons c cs ih =>
      rw [List.dropWhile_cons]
      split_ifs with hc
      · rw [ih, words_cons_sep (hp c hc)]
      · rfl

theorem words_rdropWhile (hp : ∀ c, p c = true → sep c = true) (cs : List α) :
    words sep (cs.rdropWhile p) = words sep cs := by
  induction cs using List.reverseRecOn with
  | nil => simp
  | append_singleton cs c ih =>
      rw [List.rdropWhile_concat]
      split_ifs with hc
      · rw [ih, words_append_cons (hp c hc), words_nil, List.append_nil]
      · rfl

/-- Separators at either end do not matter. -/
theorem words_trim (hp : ∀ c, p c = true → sep c = true) (cs : List α) :
    words sep ((cs.dropWhile p).rdropWhile p) = words sep cs := by
  rw [words_rdropWhile hp, words_dropWhile hp]

/-! ## Maps -/

theorem splitOnP_map {f : α → β} {q : β → Bool} (h : ∀ c, q (f c) = sep c) (cs : List α) :
    (cs.map f).splitOnP q = (cs.splitOnP sep).map (List.map f) := by
  induction cs with
  | nil => rfl
  | cons c cs ih =>
      obtain ⟨w, ws, hws⟩ := List.exists_cons_of_ne_nil (List.splitOnP_ne_nil sep cs)
      rw [List.map_cons, List.splitOnP_cons_eq_if_modifyHead, List.splitOnP_cons_eq_if_modifyHead,
        ih, h, hws]
      split_ifs <;> simp

theorem words_map {f : α → β} {q : β → Bool} (h : ∀ c, q (f c) = sep c) (cs : List α) :
    words q (cs.map f) = (words sep cs).map (List.map f) := by
  rw [words, splitOnP_map h, List.filter_map, words]
  congr 1
  refine List.filter_congr fun w _ => ?_
  cases w <;> rfl

end Words

end Foundation
