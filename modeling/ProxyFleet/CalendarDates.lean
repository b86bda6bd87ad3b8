import Mathlib.Algebra.Order.Ring.Nat
import Mathlib.Data.List.Basic
import Mathlib.Order.Monotone.Basic

/-!
# Dates of the Gregorian calendar

Days are counted from the first day of the year 0. A day lies in the year whose days surround
it, and in the month whose days surround its position in that year. Later days have later
dates, compared by year, month and day.
-/
namespace ProxyFleet.CalendarDates

def isLeapYear (year : ℕ) : Bool := year % 4 = 0 && (year % 100 ≠ 0 || year % 400 = 0)

def yearLength (year : ℕ) : ℕ := if isLeapYear year then 366 else 365

/-- The number of days before a year. -/
def daysBeforeYear (year : ℕ) : ℕ :=
  365 * year + (year + 3) / 4 - (year + 99) / 100 + (year + 399) / 400

/-- The year of a day, if that is the given one or next to it. -/
def yearNear (day year : ℕ) : ℕ :=
  if day < daysBeforeYear year then year - 1
  else if daysBeforeYear (year + 1) ≤ day then year + 1
  else year

/-- The mean length of a year finds the year of a day, or one next to it. -/
def yearOfDay (day : ℕ) : ℕ := yearNear day (day * 400 / 146097)

def monthLengths (year : ℕ) : List ℕ :=
  [31, if isLeapYear year then 29 else 28, 31, 30, 31, 30, 31, 31, 30, 31, 30, 31]

/-- Which of some consecutive blocks a number lies in, and where in that block. -/
def locate : List ℕ → ℕ → ℕ × ℕ
  | [], n => (0, n)
  | length :: rest, n =>
    if n < length then (0, n)
    else ((locate rest (n - length)).1 + 1, (locate rest (n - length)).2)

structure Date where
  year : ℕ
  month : ℕ
  day : ℕ
  deriving DecidableEq

def dateOfDay (day : ℕ) : Date :=
  let year := yearOfDay day
  let position := locate (monthLengths year) (day - daysBeforeYear year)
  ⟨year, position.1 + 1, position.2 + 1⟩

section Years

variable {m n : ℕ}

/-- How many multiples of a number lie before another, counted one further. -/
theorem multiples_succ (n b : ℕ) :
    (n + 1 + b) / (b + 1) = (n + b) / (b + 1) + if n % (b + 1) = 0 then 1 else 0 := by
  rw [Nat.add_right_comm, Nat.succ_div]
  congr 1
  have hdvd : b + 1 ∣ n + b + 1 ↔ n % (b + 1) = 0 := by
    rw [Nat.add_assoc, Nat.dvd_add_left (Nat.dvd_refl _), Nat.dvd_iff_mod_eq_zero]
  simp only [hdvd]

theorem daysBeforeYear_succ (year : ℕ) :
    daysBeforeYear (year + 1) = daysBeforeYear year + yearLength year := by
  have hfour := multiples_succ year 3
  have hhundred := multiples_succ year 99
  have hcentury := multiples_succ year 399
  have hle : (year + 99) / 100 ≤ (year + 3) / 4 := by omega
  have hmod : year % 100 = 0 → year % 4 = 0 := by omega
  have hmod' : year % 400 = 0 → year % 100 = 0 := by omega
  rw [daysBeforeYear, daysBeforeYear, hfour, hhundred, hcentury, yearLength]
  generalize (year + 3) / 4 = fours at hle ⊢
  generalize (year + 99) / 100 = hundreds at hle ⊢
  generalize (year + 399) / 400 = centuries at ⊢
  by_cases h₄ : year % 4 = 0
  · by_cases h₁ : year % 100 = 0
    · by_cases h : year % 400 = 0
      · have hleap : isLeapYear year = true := by simp [isLeapYear, h₄, h]
        rw [hleap, if_pos h₄, if_pos h₁, if_pos h, if_pos rfl]
        omega
      · have hcommon : ¬ isLeapYear year = true := by simp [isLeapYear, h₁, h]
        rw [if_pos h₄, if_pos h₁, if_neg h, if_neg hcommon]
        omega
    · have hleap : isLeapYear year = true := by simp [isLeapYear, h₄, h₁]
      rw [hleap, if_pos h₄, if_neg h₁, if_neg (mt hmod' h₁), if_pos rfl]
      omega
  · have hcommon : ¬ isLeapYear year = true := by simp [isLeapYear, h₄]
    rw [if_neg h₄, if_neg (mt hmod h₄), if_neg (mt hmod' (mt hmod h₄)), if_neg hcommon]
    omega

theorem daysBeforeYear_mono : Monotone daysBeforeYear :=
  monotone_nat_of_le_succ fun year => daysBeforeYear_succ year ▸ Nat.le_add_right _ _

theorem yearNear_spec {day year : ℕ} (hbehind : daysBeforeYear (year - 1) ≤ day)
    (hbefore : day < daysBeforeYear (year + 2)) :
    daysBeforeYear (yearNear day year) ≤ day ∧ day < daysBeforeYear (yearNear day year + 1) := by
  rw [yearNear]
  split
  · next hlt =>
    cases year with
    | zero => exact absurd hlt (Nat.not_lt_zero day)
    | succ year => exact ⟨hbehind, hlt⟩
  · next hle =>
    split
    · next hnext => exact ⟨hnext, hbefore⟩
    · next hnext => exact ⟨Nat.le_of_not_lt hle, Nat.lt_of_not_le hnext⟩

/-- A day lies between the beginnings of its year and of the next one. -/
theorem yearOfDay_spec (day : ℕ) :
    daysBeforeYear (yearOfDay day) ≤ day ∧ day < daysBeforeYear (yearOfDay day + 1) := by
  have hmean := Nat.div_add_mod (day * 400) 146097
  have hrest := Nat.mod_lt (day * 400) (show 0 < 146097 by decide)
  apply yearNear_spec
  · rw [daysBeforeYear]
    omega
  · rw [daysBeforeYear]
    omega

theorem yearOfDay_mono (h : m ≤ n) : yearOfDay m ≤ yearOfDay n := by
  by_contra hlt
  have hnext : daysBeforeYear (yearOfDay n + 1) ≤ daysBeforeYear (yearOfDay m) :=
    daysBeforeYear_mono (Nat.lt_of_not_le hlt)
  have hm := (yearOfDay_spec m).1
  have hn := (yearOfDay_spec n).2
  omega

end Years

section Blocks

variable {lengths : List ℕ} {m n k : ℕ}

/-- Further positions lie in a later block, or further back in the same one. -/
theorem locate_lt (lengths : List ℕ) (h : m < n) :
    (locate lengths m).1 < (locate lengths n).1 ∨
      (locate lengths m).1 = (locate lengths n).1 ∧
        (locate lengths m).2 < (locate lengths n).2 := by
  induction lengths generalizing m n with
  | nil => exact .inr ⟨rfl, h⟩
  | cons length rest ih =>
    rw [locate, locate]
    by_cases hn : n < length
    · rw [if_pos hn, if_pos (h.trans hn)]
      exact .inr ⟨rfl, h⟩
    · rw [if_neg hn]
      by_cases hm : m < length
      · rw [if_pos hm]
        exact .inl (Nat.succ_pos _)
      · rw [if_neg hm]
        rcases ih (show m - length < n - length by omega) with hblock | ⟨hblock, hposition⟩
        · exact .inl (Nat.succ_lt_succ hblock)
        · exact .inr ⟨congrArg Nat.succ hblock, hposition⟩

theorem locate_bounds (hlengths : ∀ length ∈ lengths, length ≤ k) (h : n < lengths.sum) :
    (locate lengths n).1 < lengths.length ∧ (locate lengths n).2 < k := by
  induction lengths generalizing n with
  | nil => exact absurd h (Nat.not_lt_zero n)
  | cons length rest ih =>
    rw [locate]
    split
    · next hn => exact ⟨Nat.succ_pos _, hn.trans_le (hlengths length List.mem_cons_self)⟩
    · next hn =>
      rw [List.sum_cons] at h
      obtain ⟨hblock, hposition⟩ := ih (fun l hl => hlengths l (List.mem_cons_of_mem _ hl))
        (show n - length < rest.sum by omega)
      exact ⟨Nat.succ_lt_succ hblock, hposition⟩

end Blocks

section Dates

variable {m n : ℕ}

theorem dayOfYear_lt (day : ℕ) :
    day - daysBeforeYear (yearOfDay day) < (monthLengths (yearOfDay day)).sum := by
  have hspec := yearOfDay_spec day
  have hsum : (monthLengths (yearOfDay day)).sum = yearLength (yearOfDay day) := by
    rw [monthLengths, yearLength]
    split <;> rfl
  rw [daysBeforeYear_succ] at hspec
  omega

theorem dateOfDay_month_day (day : ℕ) :
    (dateOfDay day).month ≤ 12 ∧ (dateOfDay day).day ≤ 31 := by
  have hlengths : ∀ length ∈ monthLengths (yearOfDay day), length ≤ 31 := by
    rw [monthLengths]
    split <;> decide
  exact locate_bounds hlengths (dayOfYear_lt day)

theorem dateOfDay_year {day years : ℕ} (h : day < daysBeforeYear years) :
    (dateOfDay day).year < years := by
  by_contra hle
  have hspec := (yearOfDay_spec day).1
  have hyears : daysBeforeYear years ≤ daysBeforeYear (yearOfDay day) :=
    daysBeforeYear_mono (Nat.le_of_not_lt hle)
  omega

/-- A later day has a later date. -/
theorem dateOfDay_lt (h : m < n) :
    [(dateOfDay m).year, (dateOfDay m).month, (dateOfDay m).day] <
      [(dateOfDay n).year, (dateOfDay n).month, (dateOfDay n).day] := by
  rw [List.cons_lt_cons_iff]
  rcases (yearOfDay_mono h.le).lt_or_eq with hyear | hyear
  · exact .inl hyear
  · refine .inr ⟨hyear, ?_⟩
    have hday : m - daysBeforeYear (yearOfDay n) < n - daysBeforeYear (yearOfDay n) := by
      have hspec := (yearOfDay_spec m).1
      rw [hyear] at hspec
      omega
    rw [List.cons_lt_cons_iff, dateOfDay, dateOfDay, hyear]
    dsimp only
    rcases locate_lt (monthLengths (yearOfDay n)) hday with hmonth | ⟨hmonth, hposition⟩
    · exact .inl (Nat.succ_lt_succ hmonth)
    · refine .inr ⟨congrArg Nat.succ hmonth, ?_⟩
      rw [List.cons_lt_cons_iff]
      exact .inl (Nat.succ_lt_succ hposition)

end Dates

example : dateOfDay (daysBeforeYear 2024 + 59) = ⟨2024, 2, 29⟩ := by decide

end ProxyFleet.CalendarDates
