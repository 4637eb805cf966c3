import Mathlib.Data.List.Basic

/-!
# Instants and their ISO text

The Gregorian calendar over days that are counted from 1970 on, and the text of an instant
in microseconds, which reads back as that instant.
-/

namespace Calendar

structure Date where
  year : Nat
  month : Nat
  day : Nat
  deriving DecidableEq, Repr

/-! ## Days -/

/-- The year of a day and its day within it. Days are counted from the first of March of the
year 0 on, so that a leap day ends its year, its cycle of four years, its century and its four
centuries. -/
def yearOf (days : Nat) : Nat × Nat :=
  let dayOfEra := days % 146097
  let century := min (dayOfEra / 36524) 3
  let dayOfCentury := dayOfEra - century * 36524
  let dayOfCycle := dayOfCentury % 1461
  let yearOfCycle := min (dayOfCycle / 365) 3
  (days / 146097 * 400 + century * 100 + dayOfCentury / 1461 * 4 + yearOfCycle,
    dayOfCycle - yearOfCycle * 365)

/-- The month of a day of the year, counted from March on. -/
def monthOf (dayOfYear : Nat) : Nat := (5 * dayOfYear + 2) / 153

def daysBeforeMonth (month : Nat) : Nat := (153 * month + 2) / 5

def daysBeforeYear (year : Nat) : Nat := 365 * year + year / 4 - year / 100 + year / 400

/-- The date of a day in the same count. -/
def civil (days : Nat) : Date :=
  let (year, dayOfYear) := yearOf days
  let month := monthOf dayOfYear
  let day := dayOfYear - daysBeforeMonth month + 1
  if month < 10 then ⟨year, month + 3, day⟩ else ⟨year + 1, month - 9, day⟩

def dayNumber (date : Date) : Nat :=
  let (year, month) := if date.month ≤ 2 then (date.year - 1, date.month + 9)
    else (date.year, date.month - 3)
  daysBeforeYear year + daysBeforeMonth month + (date.day - 1)

/-- The first day of 1970. -/
def epoch : Nat := 719468

/-- The date of a day that is counted from 1970 on. -/
def dateOf (days : Nat) : Date := civil (days + epoch)

def daysTo (date : Date) : Nat := dayNumber date - epoch

theorem monthOf_spec {dayOfYear : Nat} (inside : dayOfYear < 366) :
    monthOf dayOfYear < 12 ∧ daysBeforeMonth (monthOf dayOfYear) ≤ dayOfYear := by
  rw [monthOf, daysBeforeMonth]
  omega

/-- The days before a year, by its era, century, cycle and place in the cycle. -/
theorem daysBeforeYear_eq (era : Nat) {century cycle single : Nat} (h : century ≤ 3) (h' : cycle ≤ 24)
    (h'' : single ≤ 3) : daysBeforeYear (era * 400 + century * 100 + cycle * 4 + single) =
      era * 146097 + century * 36524 + cycle * 1461 + single * 365 := by
  rw [daysBeforeYear]
  omega

theorem yearOf_spec (days : Nat) :
    daysBeforeYear (yearOf days).1 + (yearOf days).2 = days ∧ (yearOf days).2 < 366 := by
  obtain ⟨century, hcentury⟩ : ∃ k, k = min (days % 146097 / 36524) 3 := ⟨_, rfl⟩
  obtain ⟨rest, hrest⟩ : ∃ k, k = days % 146097 - century * 36524 := ⟨_, rfl⟩
  obtain ⟨single, hsingle⟩ : ∃ k, k = min (rest % 1461 / 365) 3 := ⟨_, rfl⟩
  have centuries : century ≤ 3 ∧ century * 36524 + rest = days % 146097 ∧ rest < 36525 := by omega
  have singles : single ≤ 3 ∧ single * 365 ≤ rest % 1461 ∧ rest % 1461 - single * 365 < 366 := by omega
  have year : yearOf days = (days / 146097 * 400 + century * 100 + rest / 1461 * 4 + single,
      rest % 1461 - single * 365) := by
    rw [hsingle, hrest, hcentury]
    rfl
  rw [year]
  dsimp only
  rw [daysBeforeYear_eq _ centuries.1 (by omega) singles.1]
  exact ⟨by omega, singles.2.2⟩

theorem dayNumber_civil (days : Nat) : dayNumber (civil days) = days := by
  obtain ⟨whole, inside⟩ := yearOf_spec days
  obtain ⟨few, before⟩ := monthOf_spec inside
  simp only [civil]
  by_cases spring : monthOf (yearOf days).2 < 10
  · simp only [if_pos spring, dayNumber, Nat.add_sub_cancel]
    rw [if_neg (by omega)]
    dsimp only
    omega
  · have back : monthOf (yearOf days).2 - 9 + 9 = monthOf (yearOf days).2 := by omega
    simp only [if_neg spring, dayNumber, Nat.add_sub_cancel, back]
    rw [if_pos (by omega)]
    dsimp only
    omega

theorem daysTo_dateOf (days : Nat) : daysTo (dateOf days) = days := by
  rw [daysTo, dateOf, dayNumber_civil, Nat.add_sub_cancel]

/-! ## Texts -/

/-- A number in so many digits at least. -/
def pad (width n : Nat) : List Char := List.leftpad width '0' (Nat.toDigits 10 n)

/-- `isoformat()` of an instant in UTC, given in microseconds from 1970 on. -/
def isoformat (t : Nat) : List Char :=
  let date := dateOf (t / 86400000000)
  let seconds := t / 1000000
  pad 4 date.year ++ '-' :: (pad 2 date.month ++ '-' :: (pad 2 date.day ++ 'T' ::
    (pad 2 (seconds / 3600 % 24) ++ ':' :: (pad 2 (seconds / 60 % 60) ++ ':' ::
      (pad 2 (seconds % 60) ++ ((if t % 1000000 = 0 then [] else '.' :: pad 6 (t % 1000000)) ++
        '+' :: (pad 2 0 ++ ':' :: pad 2 0)))))))

/-- The numbers of a text, each a run of digits. -/
def numbers (text : List Char) : List Nat :=
  (text.splitOnP fun c => !c.isDigit).map fun digits => Nat.ofDigitChars 10 digits 0

def instant (date : Date) (hour minute second micro : Nat) : Nat :=
  (((daysTo date * 24 + hour) * 60 + minute) * 60 + second) * 1000000 + micro

def ofNumbers : List Nat → Option Nat
  | [year, month, day, hour, minute, second, _, _] =>
    some (instant ⟨year, month, day⟩ hour minute second 0)
  | [year, month, day, hour, minute, second, micro, _, _] =>
    some (instant ⟨year, month, day⟩ hour minute second micro)
  | _ => none

/-- The instant of a text in UTC. -/
def ofIsoformat (text : List Char) : Option Nat := ofNumbers (numbers text)

theorem isDigit_pad {width n : Nat} : ∀ c ∈ pad width n, c.isDigit = true := by
  intro c mem
  rw [pad, List.leftpad] at mem
  rcases List.mem_append.mp mem with mem | mem
  · rw [List.eq_of_mem_replicate mem]
    rfl
  · exact Nat.isDigit_of_mem_toDigits (by decide) (by decide) mem

theorem ofDigitChars_pad (width n : Nat) : Nat.ofDigitChars 10 (pad width n) 0 = n := by
  rw [pad, List.leftpad, Nat.ofDigitChars_append, Nat.ofDigitChars_replicate_zero, Nat.mul_zero,
    Nat.ofDigitChars_ten_toDigits]

/-- A padded number in front of what is no digit. -/
theorem numbers_pad_cons (width n : Nat) {sep : Char} (apart : sep.isDigit = false) (rest : List Char) :
    numbers (pad width n ++ sep :: rest) = n :: numbers rest := by
  rw [numbers, List.splitOnP_append_cons_of_forall_mem (fun c mem => by simp [isDigit_pad c mem]) _
    (by simp [apart]), List.map_cons, ofDigitChars_pad]
  rfl

theorem numbers_pad (width n : Nat) : numbers (pad width n) = [n] := by
  rw [numbers, List.splitOnP_eq_singleton fun c mem => by simp [isDigit_pad c mem], List.map_cons,
    ofDigitChars_pad]
  rfl

/-- The numbers of an instant, with those of its offset. -/
theorem numbers_isoformat (t : Nat) :
    numbers (isoformat t) = (dateOf (t / 86400000000)).year :: (dateOf (t / 86400000000)).month ::
      (dateOf (t / 86400000000)).day :: (t / 1000000 / 3600 % 24) :: (t / 1000000 / 60 % 60) ::
      (t / 1000000 % 60) :: if t % 1000000 = 0 then [0, 0] else [t % 1000000, 0, 0] := by
  have dash : '-'.isDigit = false := rfl
  have letter : 'T'.isDigit = false := rfl
  have colon : ':'.isDigit = false := rfl
  have point : '.'.isDigit = false := rfl
  have plus : '+'.isDigit = false := rfl
  rw [isoformat, numbers_pad_cons _ _ dash, numbers_pad_cons _ _ dash, numbers_pad_cons _ _ letter,
    numbers_pad_cons _ _ colon, numbers_pad_cons _ _ colon]
  split
  · rw [List.nil_append, numbers_pad_cons _ _ plus, numbers_pad_cons _ _ colon, numbers_pad]
  · rw [List.cons_append, numbers_pad_cons _ _ point, numbers_pad_cons _ _ plus,
      numbers_pad_cons _ _ colon, numbers_pad]

/-- A fraction of nothing is not written. -/
theorem ofNumbers_fields (date : Date) (hour minute second micro : Nat) :
    ofNumbers (date.year :: date.month :: date.day :: hour :: minute :: second ::
      if micro = 0 then [0, 0] else [micro, 0, 0]) = some (instant date hour minute second micro) := by
  split
  · next none_ =>
    rw [none_]
    rfl
  · rfl

theorem instant_dateOf (t : Nat) : instant (dateOf (t / 86400000000)) (t / 1000000 / 3600 % 24)
    (t / 1000000 / 60 % 60) (t / 1000000 % 60) (t % 1000000) = t := by
  rw [instant, daysTo_dateOf]
  omega

/-- What was written reads back. -/
theorem ofIsoformat_isoformat (t : Nat) : ofIsoformat (isoformat t) = some t := by
  rw [ofIsoformat, numbers_isoformat, ofNumbers_fields, instant_dateOf]

end Calendar
