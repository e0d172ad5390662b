import Mathlib.Data.List.Lex
import Mathlib.Order.Lattice
import ProjectsApi.Foundation.FixedWidth

/-!
# Timestamps

Every timestamp of the service is `datetime.now(UTC).replace(microsecond=0)`: an
aware UTC datetime of whole seconds.  A `Datetime` carries the calendar bounds
Python enforces on such a value.  Two of them compare as Python compares
datetimes of one offset, field by field from the year down, and `isoformat`
writes them with fixed-width fields, so that texts compare as instants do.
-/

namespace ProjectsApi

open Foundation

/-- Days of a month in the proleptic Gregorian calendar. -/
def daysInMonth (year month : Nat) : Nat :=
  if month = 2 then
    if year % 4 = 0 ∧ (year % 100 ≠ 0 ∨ year % 400 = 0) then 29 else 28
  else if month = 4 ∨ month = 6 ∨ month = 9 ∨ month = 11 then 30
  else 31

theorem daysInMonth_le (year month : Nat) : daysInMonth year month ≤ 31 := by
  unfold daysInMonth
  split_ifs <;> omega

/-- A UTC datetime of whole seconds. -/
@[ext] structure Datetime where
  year : Nat
  month : Nat
  day : Nat
  hour : Nat
  minute : Nat
  second : Nat
  year_mem : 1 ≤ year ∧ year ≤ 9999
  month_mem : 1 ≤ month ∧ month ≤ 12
  day_mem : 1 ≤ day ∧ day ≤ daysInMonth year month
  hour_lt : hour < 24
  minute_lt : minute < 60
  second_lt : second < 60
  deriving DecidableEq

namespace Datetime

/-- The fields in the order Python compares them. -/
def fields (d : Datetime) : List Nat :=
  [d.year, d.month, d.day, d.hour, d.minute, d.second]

theorem fields_injective : Function.Injective fields := by
  intro d e h
  simp only [fields, List.cons.injEq] at h
  obtain ⟨hyear, hmonth, hday, hhour, hminute, hsecond, -⟩ := h
  exact Datetime.ext hyear hmonth hday hhour hminute hsecond

instance : LinearOrder Datetime :=
  LinearOrder.lift' fields fields_injective

theorem lt_iff_fields (d e : Datetime) : d < e ↔ d.fields < e.fields := Iff.rfl

/-- The characters of `isoformat`, field by field. -/
def isoChars (d : Datetime) : List Char :=
  decimalDigits 4 d.year ++ '-' :: (decimalDigits 2 d.month ++ '-' ::
    (decimalDigits 2 d.day ++ 'T' :: (decimalDigits 2 d.hour ++ ':' ::
      (decimalDigits 2 d.minute ++ ':' :: (decimalDigits 2 d.second ++ "+00:00".toList)))))

/-- `datetime.isoformat()`, for example `2026-09-23T10:00:00+00:00`. -/
def isoformat (d : Datetime) : String :=
  String.ofList d.isoChars

@[simp] theorem isoformat_toList (d : Datetime) : d.isoformat.toList = d.isoChars := by
  simp [isoformat]

@[simp] theorem isoChars_length (d : Datetime) : d.isoChars.length = 25 := by
  simp [isoChars]

/-- The fields of a timestamp have as many digits as their numerals. -/
theorem fields_lt (d : Datetime) : d.year < 10 ^ 4 ∧ d.month < 10 ^ 2 ∧ d.day < 10 ^ 2 ∧
    d.hour < 10 ^ 2 ∧ d.minute < 10 ^ 2 ∧ d.second < 10 ^ 2 := by
  have hyear := d.year_mem
  have hmonth := d.month_mem
  have hday := d.day_mem.2.trans (daysInMonth_le _ _)
  have hhour := d.hour_lt
  have hminute := d.minute_lt
  have hsecond := d.second_lt
  omega

/-- Texts of timestamps compare like the timestamps. -/
theorem isoChars_lt_iff (d e : Datetime) : d.isoChars < e.isoChars ↔ d < e := by
  obtain ⟨hdyear, hdmonth, hdday, hdhour, hdminute, hdsecond⟩ := d.fields_lt
  obtain ⟨heyear, hemonth, heday, hehour, heminute, hesecond⟩ := e.fields_lt
  obtain ⟨hyear, hyear'⟩ := decimalDigits_order 4 hdyear heyear
  obtain ⟨hmonth, hmonth'⟩ := decimalDigits_order 2 hdmonth hemonth
  obtain ⟨hday, hday'⟩ := decimalDigits_order 2 hdday heday
  obtain ⟨hhour, hhour'⟩ := decimalDigits_order 2 hdhour hehour
  obtain ⟨hminute, hminute'⟩ := decimalDigits_order 2 hdminute heminute
  have hsecond := decimalDigits_lt_iff 2 hdsecond hesecond
  -- the separators and the offset stand at the same places in both texts
  have hirrefl : ¬ "+00:00".toList < "+00:00".toList := List.lt_irrefl _
  rw [lt_iff_fields]
  unfold isoChars fields
  rw [append_cons_lt_append_cons_iff _ (by simp), append_cons_lt_append_cons_iff _ (by simp),
    append_cons_lt_append_cons_iff _ (by simp), append_cons_lt_append_cons_iff _ (by simp),
    append_cons_lt_append_cons_iff _ (by simp), append_lt_append_iff (by simp)]
  simp only [List.cons_lt_cons_iff, hyear, hyear', hmonth, hmonth', hday, hday',
    hhour, hhour', hminute, hminute', hsecond, hirrefl, and_false, or_false,
    List.lt_irrefl]

theorem isoChars_injective : Function.Injective isoChars := by
  intro d e h
  rcases lt_trichotomy d e with hlt | heq | hlt
  · exact absurd ((isoChars_lt_iff d e).mpr hlt) (h ▸ List.lt_irrefl _)
  · exact heq
  · exact absurd ((isoChars_lt_iff e d).mpr hlt) (h ▸ List.lt_irrefl _)

/-- The characters a timestamp is written with. -/
theorem mem_isoChars {d : Datetime} {c : Char} (h : c ∈ d.isoChars) :
    c.isDigit = true ∨ c ∈ ['-', 'T', ':', '+'] := by
  have hdigit : ∀ width n, c ∈ decimalDigits width n →
      c.isDigit = true ∨ c ∈ ['-', 'T', ':', '+'] :=
    fun _ _ hc => Or.inl (isDigit_of_mem_decimalDigits hc)
  have hoffset : ∀ c ∈ "+00:00".toList, c.isDigit = true ∨ c ∈ ['-', 'T', ':', '+'] := by
    simp
  simp only [isoChars, List.mem_append, List.mem_cons] at h
  rcases h with h | rfl | h | rfl | h | rfl | h | rfl | h | rfl | h | h
  all_goals first
    | exact hdigit _ _ h
    | exact hoffset c h
    | simp

/-! ## Instants -/

/-- Days before the first of January of a year. -/
def daysBeforeYear (year : Nat) : Nat :=
  let y := year - 1
  y * 365 + y / 4 - y / 100 + y / 400

/-- Days of a year before the first of a month. -/
def daysBeforeMonth (year : Nat) : Nat → Nat
  | 0 => 0
  | 1 => 0
  | month + 2 => daysBeforeMonth year (month + 1) + daysInMonth year (month + 1)

/-- `datetime.toordinal()`: the days up to this one, from 0001-01-01. -/
def toordinal (d : Datetime) : Nat :=
  daysBeforeYear d.year + daysBeforeMonth d.year d.month + d.day

/-- 1970-01-01 -/
example : daysBeforeYear 1970 + daysBeforeMonth 1970 1 + 1 = 719163 := by decide

/-- The seconds up to this one. -/
def instant (d : Datetime) : Nat :=
  ((d.toordinal * 24 + d.hour) * 60 + d.minute) * 60 + d.second

theorem daysBeforeMonth_succ (year : Nat) {month : Nat} (h : 1 ≤ month) :
    daysBeforeMonth year (month + 1) = daysBeforeMonth year month + daysInMonth year month := by
  obtain ⟨m, rfl⟩ := Nat.exists_eq_add_of_le' h
  rfl

theorem daysBeforeMonth_mono (year : Nat) {m n : Nat} (hm : 1 ≤ m) (h : m ≤ n) :
    daysBeforeMonth year m ≤ daysBeforeMonth year n := by
  induction n, h using Nat.le_induction with
  | base => exact le_rfl
  | succ n hmn ih =>
      rw [daysBeforeMonth_succ year (hm.trans hmn)]
      omega

/-- Only February has different lengths. -/
theorem daysBeforeMonth_thirteen (year : Nat) :
    daysBeforeMonth year 13 = 337 + daysInMonth year 2 := by
  have hlong : ∀ m ∈ [1, 3, 5, 7, 8, 10, 12], daysInMonth year m = 31 := by
    simp [daysInMonth]
  have hshort : ∀ m ∈ [4, 6, 9, 11], daysInMonth year m = 30 := by
    simp [daysInMonth]
  simp only [List.forall_mem_cons] at hlong hshort
  simp only [daysBeforeMonth, Nat.reduceAdd, hlong, hshort]
  omega

/-- The months of a year make up the year. -/
theorem daysBeforeYear_succ {year : Nat} (h : 1 ≤ year) :
    daysBeforeYear (year + 1) = daysBeforeYear year + daysBeforeMonth year 13 := by
  obtain ⟨y, rfl⟩ := Nat.exists_eq_add_of_le' h
  have hcentury : 100 ∣ y + 1 → 4 ∣ y + 1 := Nat.dvd_trans (by decide)
  have hcycle : 400 ∣ y + 1 → 100 ∣ y + 1 := Nat.dvd_trans (by decide)
  have hle : y / 100 ≤ y / 4 := Nat.div_le_div_left (by decide) (by decide)
  rw [daysBeforeMonth_thirteen]
  simp only [daysBeforeYear, daysInMonth, Nat.add_sub_cancel, if_true, Nat.succ_div,
    ← Nat.dvd_iff_mod_eq_zero, ne_eq]
  by_cases hfour : 4 ∣ y + 1
  · by_cases hhundred : 100 ∣ y + 1
    · by_cases hfourHundred : 400 ∣ y + 1
      · simp only [hfour, hhundred, hfourHundred, or_true, and_true, reduceIte]
        omega
      · simp only [hfour, hhundred, hfourHundred, not_true, or_false, and_false, reduceIte]
        omega
    · simp only [hfour, hhundred, mt hcycle hhundred, not_false_eq_true, true_or, and_true,
        reduceIte]
      omega
  · simp only [hfour, mt hcentury hfour, mt (hcentury ∘ hcycle) hfour, false_and, reduceIte]
    omega

theorem daysBeforeYear_mono {m n : Nat} (hm : 1 ≤ m) (h : m ≤ n) :
    daysBeforeYear m ≤ daysBeforeYear n := by
  induction n, h using Nat.le_induction with
  | base => exact le_rfl
  | succ n hmn ih =>
      rw [daysBeforeYear_succ (hm.trans hmn)]
      omega

/-- A day comes before the end of its month. -/
theorem toordinal_le (d : Datetime) :
    d.toordinal ≤ daysBeforeYear d.year + daysBeforeMonth d.year (d.month + 1) := by
  have hday := d.day_mem.2
  rw [daysBeforeMonth_succ d.year d.month_mem.1, toordinal]
  omega

theorem lt_toordinal (d : Datetime) :
    daysBeforeYear d.year + daysBeforeMonth d.year d.month < d.toordinal := by
  have hday := d.day_mem.1
  rw [toordinal]
  omega

/-- Dates are numbered in their order. -/
theorem toordinal_lt_of_year_lt {d e : Datetime} (h : d.year < e.year) :
    d.toordinal < e.toordinal := by
  have hmonth := daysBeforeMonth_mono d.year (m := d.month + 1) (n := 13) (by omega)
    (by have := d.month_mem; omega)
  have hyear := daysBeforeYear_mono (m := d.year + 1) (n := e.year) (by omega) h
  calc d.toordinal ≤ daysBeforeYear d.year + daysBeforeMonth d.year (d.month + 1) :=
        toordinal_le d
    _ ≤ daysBeforeYear d.year + daysBeforeMonth d.year 13 := by omega
    _ = daysBeforeYear (d.year + 1) := (daysBeforeYear_succ d.year_mem.1).symm
    _ ≤ daysBeforeYear e.year + daysBeforeMonth e.year e.month := by omega
    _ < e.toordinal := lt_toordinal e

theorem toordinal_lt_of_month_lt {d e : Datetime} (hyear : d.year = e.year)
    (h : d.month < e.month) : d.toordinal < e.toordinal := by
  have hmonth := daysBeforeMonth_mono d.year (m := d.month + 1) (n := e.month) (by omega) h
  calc d.toordinal ≤ daysBeforeYear d.year + daysBeforeMonth d.year (d.month + 1) :=
        toordinal_le d
    _ ≤ daysBeforeYear e.year + daysBeforeMonth e.year e.month := by
        rw [hyear] at hmonth ⊢
        omega
    _ < e.toordinal := lt_toordinal e

/-- Timestamps compare like the instants they denote. -/
theorem instant_strictMono : StrictMono instant := by
  intro d e h
  rw [lt_iff_fields] at h
  simp only [fields, List.cons_lt_cons_iff, List.lt_irrefl, and_false, or_false] at h
  unfold instant
  rw [mul_add_lt_mul_add_iff d.second_lt e.second_lt,
    mul_add_lt_mul_add_iff d.minute_lt e.minute_lt, mul_add_lt_mul_add_iff d.hour_lt e.hour_lt]
  rcases h with hyear | ⟨hyear, hmonth | ⟨hmonth, hday | ⟨hday, htime⟩⟩⟩
  · exact Or.inl (Or.inl (Or.inl (toordinal_lt_of_year_lt hyear)))
  · exact Or.inl (Or.inl (Or.inl (toordinal_lt_of_month_lt hyear hmonth)))
  · refine Or.inl (Or.inl (Or.inl ?_))
    rw [toordinal, toordinal, hyear, hmonth]
    omega
  · have hdate : d.toordinal = e.toordinal := by rw [toordinal, toordinal, hyear, hmonth, hday]
    rw [hdate]
    omega

/-! ## Reading -/

/-- The fields a text of the layout of `isoformat` shows at their places. -/
def isoFields (text : List Char) : List Nat :=
  [decimalValue (text.take 4), decimalValue ((text.drop 5).take 2),
    decimalValue ((text.drop 8).take 2), decimalValue ((text.drop 11).take 2),
    decimalValue ((text.drop 14).take 2), decimalValue ((text.drop 17).take 2)]

theorem isoFields_isoChars (d : Datetime) : isoFields d.isoChars = d.fields := by
  obtain ⟨hyear, hmonth, hday, hhour, hminute, hsecond⟩ := d.fields_lt
  have hyear := decimalValue_decimalDigits 4 hyear
  have hmonth := decimalValue_decimalDigits 2 hmonth
  have hday := decimalValue_decimalDigits 2 hday
  have hhour := decimalValue_decimalDigits 2 hhour
  have hminute := decimalValue_decimalDigits 2 hminute
  have hsecond := decimalValue_decimalDigits 2 hsecond
  simp [isoFields, isoChars, fields, List.drop_append, List.drop_of_length_le, hyear, hmonth,
    hday, hhour, hminute, hsecond]

/-- The datetime of given fields, where they are in the bounds of the calendar. -/
def ofFields? : List Nat → Option Datetime
  | [year, month, day, hour, minute, second] =>
      if h : (1 ≤ year ∧ year ≤ 9999) ∧ (1 ≤ month ∧ month ≤ 12) ∧
          (1 ≤ day ∧ day ≤ daysInMonth year month) ∧ hour < 24 ∧ minute < 60 ∧ second < 60 then
        some ⟨year, month, day, hour, minute, second, h.1, h.2.1, h.2.2.1, h.2.2.2.1,
          h.2.2.2.2.1, h.2.2.2.2.2⟩
      else none
  | _ => none

@[simp] theorem ofFields?_fields (d : Datetime) : ofFields? d.fields = some d := by
  have h := And.intro d.year_mem (And.intro d.month_mem (And.intro d.day_mem
    (And.intro d.hour_lt (And.intro d.minute_lt d.second_lt))))
  simp only [ofFields?, fields]
  rw [dif_pos h]

/-- The reading of the one layout that `isoformat` writes. -/
def parseIsoformat (text : String) : Option Datetime :=
  (ofFields? (isoFields text.toList)).filter fun d => d.isoformat == text

theorem parseIsoformat_isoformat (d : Datetime) : parseIsoformat d.isoformat = some d := by
  simp [parseIsoformat, isoFields_isoChars, Option.filter]

end Datetime

end ProjectsApi
