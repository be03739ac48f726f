/-
This file models `SNTP` of `net-cmds/f-ntp.c`, which turns the transmit timestamp of a reply
into a date by taking years and then months off it.

All arithmetic wraps at 32 bits, and a subtraction is taken to have gone below zero when its
result is above `t0`, the number of seconds since 2020. That finds every underflow unless
`t0` is so near the top that the wrapped result lands below it. Then the loop goes on
through further years. All its steps are multiples of 128 seconds, so it comes to a result
above `t0` after all exactly if there is one 128 seconds above; in the last 128 seconds
before 2020 it never ends.

The calendar here is written down on its own, as the number of days before a year and before
a month.
-/

import Mathlib.Data.List.Basic
import Mathlib.Logic.Function.Iterate
import Mathlib.Tactic

namespace Frobio.Ntp

/-! ### The program -/

/-- Subtraction of one `quad` from another. -/
def quadSub (a b : Nat) : Nat := (a + (4294967296 - b)) % 4294967296

/-- The shape of both loops: take the spans off `t`, one after the other, until that
underflows. `none` if the rounds do not suffice. -/
def peel (t0 : Nat) (next span : Nat → Nat) : Nat → Nat → Nat → Option (Nat × Nat)
  | 0, _, _ => none
  | rounds + 1, i, t =>
    let t_next := quadSub t (span i)
    if t0 < t_next then some (i, t) else peel t0 next span rounds (next i) t_next

/-- The array starts with an unused month 0. -/
def dpm : List Nat := [255, 31, 28, 31, 30, 31, 30, 31, 31, 30, 31, 30, 31]

def yearSpan (year : Nat) : Nat := 31536000 + if year &&& 3 = 0 then 86400 else 0

def monthSpan (year month : Nat) : Nat :=
  86400 * (dpm.getD month 0 + if month = 2 ∧ year &&& 3 = 0 then 1 else 0)

/-- `year` is a `word`. -/
def yearLoop (t0 rounds : Nat) : Option (Nat × Nat) :=
  peel t0 (fun year => (year + 1) % 65536) yearSpan rounds 2020 t0

def monthLoop (t0 year t : Nat) : Option (Nat × Nat) :=
  peel t0 (fun month => month + 1) (monthSpan year) 12 1 t

structure Clock where
  year : Nat
  month : Nat
  day : Nat
  hour : Nat
  min : Nat
  sec : Nat
  deriving DecidableEq

/-- What goes to `Os9STime`. -/
def Clock.time_pack (clock : Clock) : List Nat :=
  [(clock.year + (65536 - 1900)) % 256, clock.month, clock.day, clock.hour, clock.min, clock.sec]

inductive Outcome
  | fatal
  | set (clock : Clock)
  deriving DecidableEq

/-- The most significant byte comes first, in the packet and on the machine. -/
def xmit_ts (packet : List UInt8) : Nat :=
  (packet.getD 40 0).toNat * 16777216 + (packet.getD 41 0).toNat * 65536 +
    (packet.getD 42 0).toNat * 256 + (packet.getD 43 0).toNat

/-- The divisions behind the loops. -/
def divide (year month t : Nat) : Clock :=
  ⟨year, month, (1 + t / 86400 % 256) % 256, t % 86400 / 3600 % 256,
    t % 86400 % 3600 / 60 % 256, t % 86400 % 3600 % 60 % 256⟩

/-- The conversion, once the seconds since 2020 are known; `none` if the rounds do not suffice
for the loop over the years. -/
def convert (rounds t0 : Nat) : Option Outcome :=
  (yearLoop t0 rounds).map fun years =>
    (monthLoop t0 years.1 years.2).elim .fatal fun months =>
      .set (divide years.1 months.1 months.2)

def SNTP (rounds : Nat) (packet : List UInt8) : Option Outcome :=
  if packet.length < 48 then some .fatal
  else convert rounds (quadSub (xmit_ts packet) 3786825600)

/-! ### The calendar -/

def isLeap (year : Nat) : Bool := year % 4 = 0 ∧ (year % 100 ≠ 0 ∨ year % 400 = 0)

def yearDays (year : Nat) : Nat := if isLeap year then 366 else 365

def monthDays (year month : Nat) : Nat :=
  match month with
  | 2 => if isLeap year then 29 else 28
  | 4 | 6 | 9 | 11 => 30
  | _ => 31

/-- The days from the first of January 1900 to that of the year. -/
def daysBeforeYear (year : Nat) : Nat := ((List.range' 1900 (year - 1900)).map yearDays).sum

def daysBeforeMonth (year month : Nat) : Nat :=
  ((List.range' 1 (month - 1)).map (monthDays year)).sum

/-- A second of the calendar. -/
structure Instant extends Clock where
  month_pos : 1 ≤ month
  month_le : month ≤ 12
  day_pos : 1 ≤ day
  day_le : day ≤ monthDays year month
  hour_lt : hour < 24
  min_lt : min < 60
  sec_lt : sec < 60

/-- The seconds since 1900. -/
def Instant.timestamp (instant : Instant) : Nat :=
  (daysBeforeYear instant.year + daysBeforeMonth instant.year instant.month +
    (instant.day - 1)) * 86400 + instant.hour * 3600 + instant.min * 60 + instant.sec

/-- The conversion ends with a month of the year, and where the timestamp denotes an instant
of the years 2020 to 2099, with that instant. -/
def Converted (packet : List UInt8) : Prop :=
  (∃ rounds clock, SNTP rounds packet = some (.set clock) ∧ 1 ≤ clock.month ∧
    clock.month ≤ 12) ∧
  ∀ instant : Instant, 2020 ≤ instant.year → instant.year ≤ 2099 →
    instant.timestamp % 4294967296 = xmit_ts packet →
      (∃ rounds, SNTP rounds packet = some (.set instant.toClock)) ∧
      instant.time_pack =
        [instant.year - 1900, instant.month, instant.day, instant.hour, instant.min, instant.sec]

/-! ### Peeling -/

section

variable {next span : Nat → Nat}

/-- The spans from `i` on, as many as given, one behind the other. -/
def total (next span : Nat → Nat) : Nat → Nat → Nat
  | 0, _ => 0
  | k + 1, i => span i + total next span k (next i)

/-- What is left of `t` after so many subtractions. -/
def left (next span : Nat → Nat) : Nat → Nat → Nat → Nat
  | 0, _, t => t
  | k + 1, i, t => left next span k (next i) (quadSub t (span i))

theorem left_succ (k i t : Nat) :
    left next span (k + 1) i t = quadSub (left next span k i t) (span (next^[k] i)) := by
  induction k generalizing i t with
  | zero => rfl
  | succ k inductionHypothesis => exact inductionHypothesis (next i) (quadSub t (span i))

/-- The loop stops at the first number of subtractions after which `t0` is exceeded. -/
theorem peel_eq_none_iff {t0 rounds i t : Nat} :
    peel t0 next span rounds i t = none ↔ ∀ k < rounds, left next span (k + 1) i t ≤ t0 := by
  induction rounds generalizing i t with
  | zero => exact ⟨fun _ k before => absurd before (Nat.not_lt_zero k), fun _ => rfl⟩
  | succ rounds inductionHypothesis =>
    rw [peel]
    by_cases exceeds : t0 < quadSub t (span i)
    · rw [if_pos exceeds]
      constructor
      · intro impossible
        cases impossible
      · intro below
        exact absurd (below 0 (Nat.succ_pos _)) (not_le.mpr exceeds)
    · rw [if_neg exceeds, inductionHypothesis]
      constructor
      · rintro below (_ | k) before
        · exact not_lt.mp exceeds
        · exact below k (Nat.lt_of_succ_lt_succ before)
      · intro below k before
        exact below (k + 1) (Nat.succ_lt_succ before)

theorem peel_eq_some {t0 rounds i t j r : Nat} (start : t ≤ t0)
    (found : peel t0 next span rounds i t = some (j, r)) :
    ∃ k < rounds, j = next^[k] i ∧ r ≤ t0 ∧ t0 < quadSub r (span j) := by
  induction rounds generalizing i t with
  | zero => cases found
  | succ rounds inductionHypothesis =>
    rw [peel] at found
    by_cases exceeds : t0 < quadSub t (span i)
    · rw [if_pos exceeds, Option.some_inj, Prod.mk.injEq] at found
      obtain ⟨rfl, rfl⟩ := found
      exact ⟨0, Nat.succ_pos _, rfl, start, exceeds⟩
    · rw [if_neg exceeds] at found
      obtain ⟨k, before, there, rest⟩ := inductionHypothesis (not_lt.mp exceeds) found
      exact ⟨k + 1, Nat.succ_lt_succ before, there, rest⟩

theorem quadSub_of_le {a b : Nat} (above : b ≤ a) (small : a < 4294967296) :
    quadSub a b = a - b := by
  rw [quadSub]
  omega

theorem quadSub_of_lt {a b : Nat} (below : a < b) (small : b ≤ 4294967296) :
    quadSub a b = a + (4294967296 - b) := by
  rw [quadSub]
  omega

/-- Where every underflow shows, the loop finds the span that the time lies in. -/
theorem peel_total {t0 k rounds i r : Nat} (small : total next span k i + r ≤ t0)
    (room : t0 + span (next^[k] i) < 4294967296) (inside : r < span (next^[k] i))
    (enough : k < rounds) :
    peel t0 next span rounds i (total next span k i + r) = some (next^[k] i, r) := by
  obtain ⟨rounds, rfl⟩ := Nat.exists_eq_add_of_lt enough
  rw [Nat.add_assoc, Nat.add_comm rounds 1, ← Nat.add_assoc]
  induction k generalizing i with
  | zero =>
    have last : quadSub (total next span 0 i + r) (span i) = r + (4294967296 - span i) := by
      rw [total, Nat.zero_add]
      exact quadSub_of_lt inside ((Nat.le_add_left ..).trans room.le)
    have room : t0 + span i < 4294967296 := room
    rw [Nat.zero_add, Nat.add_comm 1, peel, last]
    rw [if_pos (by omega), total, Nat.zero_add]
    rfl
  | succ k inductionHypothesis =>
    rw [total] at small
    have onward : quadSub (total next span (k + 1) i + r) (span i) =
        total next span k (next i) + r := by
      rw [total, Nat.add_assoc, quadSub_of_le (Nat.le_add_right ..) (by omega)]
      omega
    rw [show k + 1 + 1 + rounds = k + 1 + rounds + 1 by omega, peel, onward]
    rw [if_neg (by omega)]
    exact inductionHypothesis (by omega) room inside (by omega)

end

/-! ### The months -/

/-- The twelve months take exactly the year. -/
theorem left_months (year t : Nat) :
    left (fun month => month + 1) (monthSpan year) 12 1 t = quadSub t (yearSpan year) := by
  by_cases leap : year &&& 3 = 0
  · have spans : ∀ month, monthSpan year month =
        86400 * (dpm.getD month 0 + if month = 2 then 1 else 0) := by
      intro month
      rw [monthSpan]
      refine congrArg (fun days => 86400 * (dpm.getD month 0 + days)) ?_
      exact if_congr (and_iff_left leap) rfl rfl
    rw [yearSpan, if_pos leap]
    simp only [left, spans, quadSub, dpm, List.getD_cons_succ, List.getD_cons_zero]
    norm_num
    omega
  · have spans : ∀ month, monthSpan year month = 86400 * dpm.getD month 0 := by
      intro month
      rw [monthSpan, if_neg (fun both => leap both.2), Nat.add_zero]
    rw [yearSpan, if_neg leap]
    simp only [left, spans, quadSub, dpm, List.getD_cons_succ, List.getD_cons_zero]
    norm_num
    omega

/-- Where the loop over the years has stopped, the one over the months stops in the year. -/
theorem monthLoop_isSome {t0 year t : Nat} (start : t ≤ t0)
    (stopped : t0 < quadSub t (yearSpan year)) :
    ∃ month rest, monthLoop t0 year t = some (month, rest) ∧ 1 ≤ month ∧ month ≤ 12 := by
  cases found : monthLoop t0 year t with
  | none =>
    have below := peel_eq_none_iff.mp found 11 (by decide)
    rw [left_months] at below
    omega
  | some result =>
    obtain ⟨month, rest⟩ := result
    obtain ⟨k, before, there, -⟩ := peel_eq_some start found
    have counted : ∀ k month, (fun month => month + 1)^[k] month = month + k := by
      intro k
      induction k with
      | zero => exact fun _ => rfl
      | succ k inductionHypothesis =>
        intro month
        rw [Function.iterate_succ_apply, inductionHypothesis]
        omega
    rw [counted] at there
    exact ⟨month, rest, rfl, by omega, by omega⟩

/-! ### The years -/

theorem yearSpan_dvd (year : Nat) : yearSpan year % 128 = 0 := by
  rw [yearSpan]
  split <;> rfl

theorem left_years_mod (k year t : Nat) :
    left (fun year => (year + 1) % 65536) yearSpan k year t % 128 = t % 128 := by
  induction k generalizing year t with
  | zero => rfl
  | succ k inductionHypothesis =>
    rw [left, inductionHypothesis, quadSub]
    have even := yearSpan_dvd year
    have small : yearSpan year ≤ 4294967296 := by
      rw [yearSpan]
      split <;> decide
    omega

theorem left_add (next span : Nat → Nat) (first second i t : Nat) :
    left next span (first + second) i t =
      left next span second (next^[first] i) (left next span first i t) := by
  induction first generalizing i t with
  | zero => rw [Nat.zero_add]; rfl
  | succ first inductionHypothesis =>
    rw [show first + 1 + second = first + second + 1 by omega, left, inductionHypothesis]
    rfl

/-- Four years on, from one that is divisible by four. -/
theorem left_fourYears {year : Nat} (leap : year % 4 = 0) (t : Nat) :
    left (fun year => (year + 1) % 65536) yearSpan 4 year t = quadSub t 126230400 ∧
      (fun year => (year + 1) % 65536)^[4] year % 4 = 0 := by
  have low : ∀ year, year &&& 3 = year % 4 := fun year =>
    Nat.and_two_pow_sub_one_eq_mod year 2
  have span : ∀ year, yearSpan year = 31536000 + if year % 4 = 0 then 86400 else 0 := by
    intro year
    rw [yearSpan, low]
  have second : (year + 1) % 65536 % 4 ≠ 0 := by omega
  have third : ((year + 1) % 65536 + 1) % 65536 % 4 ≠ 0 := by omega
  have fourth : (((year + 1) % 65536 + 1) % 65536 + 1) % 65536 % 4 ≠ 0 := by omega
  refine ⟨?_, ?_⟩
  · simp only [left, span, if_pos leap, if_neg second, if_neg third, if_neg fourth, quadSub]
    omega
  · show ((((year + 1) % 65536 + 1) % 65536 + 1) % 65536 + 1) % 65536 % 4 = 0
    omega

theorem left_years (q : Nat) {year : Nat} (leap : year % 4 = 0) {t : Nat} (small : t < 4294967296) :
    left (fun year => (year + 1) % 65536) yearSpan (4 * q) year t =
      (t + q * (4294967296 - 126230400)) % 4294967296 := by
  induction q generalizing year t with
  | zero =>
    rw [Nat.zero_mul, Nat.add_zero, Nat.mod_eq_of_lt small]
    rfl
  | succ q inductionHypothesis =>
    obtain ⟨four, again⟩ := left_fourYears leap t
    rw [show 4 * (q + 1) = 4 + 4 * q by omega, left_add, four,
      inductionHypothesis again (by rw [quadSub]; exact Nat.mod_lt _ (by decide)), quadSub]
    omega

/-- The loop over the years ends exactly if 128 seconds more than there are are a `quad`. -/
theorem yearLoop_isSome_iff {t0 : Nat} (small : t0 < 4294967296) :
    (∃ rounds result, yearLoop t0 rounds = some result) ↔ t0 < 4294967168 := by
  constructor
  · rintro ⟨rounds, result, found⟩
    by_contra high
    have never : yearLoop t0 rounds = none := by
      refine peel_eq_none_iff.mpr fun k _ => ?_
      have same := left_years_mod (k + 1) 2020 t0
      have bounded : left (fun year => (year + 1) % 65536) yearSpan (k + 1) 2020 t0 <
          4294967296 := by
        rw [left_succ, quadSub]
        exact Nat.mod_lt _ (by decide)
      omega
    rw [never] at found
    cases found
  · intro room
    -- So many times four years are 128 seconds short of a multiple of all the quads.
    refine ⟨4 * 23665729, ?_⟩
    cases found : yearLoop t0 (4 * 23665729) with
    | some result => exact ⟨result, rfl⟩
    | none =>
      have below := peel_eq_none_iff.mp found (4 * 23665729 - 1) (by decide)
      rw [show 4 * 23665729 - 1 + 1 = 4 * 23665729 from rfl, left_years _ rfl small] at below
      omega

/-! ### The dates -/

theorem isLeap_iff {year : Nat} (first : 2020 ≤ year) (last : year ≤ 2099) :
    isLeap year = true ↔ year &&& 3 = 0 := by
  rw [show year &&& 3 = year % 4 from Nat.and_two_pow_sub_one_eq_mod year 2, isLeap,
    decide_eq_true_eq]
  omega

theorem yearSpan_eq {year : Nat} (first : 2020 ≤ year) (last : year ≤ 2099) :
    yearSpan year = yearDays year * 86400 := by
  rw [yearSpan, yearDays]
  by_cases leap : year &&& 3 = 0
  · rw [if_pos leap, if_pos ((isLeap_iff first last).mpr leap)]
  · rw [if_neg leap, if_neg (fun is => leap ((isLeap_iff first last).mp is))]

theorem monthSpan_eq {year month : Nat} (first : 2020 ≤ year) (last : year ≤ 2099)
    (pos : 1 ≤ month) (le : month ≤ 12) : monthSpan year month = monthDays year month * 86400 := by
  have leap := isLeap_iff first last
  by_cases is : year &&& 3 = 0
  · have long := leap.mpr is
    rw [monthSpan, Nat.mul_comm]
    interval_cases month <;> simp [monthDays, dpm, is, long]
  · have short : isLeap year = false := Bool.eq_false_iff.mpr fun long => is (leap.mp long)
    rw [monthSpan, Nat.mul_comm]
    interval_cases month <;> simp [monthDays, dpm, is, short]

theorem daysBeforeYear_succ {year : Nat} (first : 1900 ≤ year) :
    daysBeforeYear (year + 1) = daysBeforeYear year + yearDays year := by
  rw [daysBeforeYear, show year + 1 - 1900 = year - 1900 + 1 by omega, List.range'_concat,
    List.map_append, List.sum_append, List.map_singleton, List.sum_singleton, Nat.one_mul,
    show 1900 + (year - 1900) = year by omega]
  rfl

theorem daysBeforeMonth_succ {year month : Nat} (first : 1 ≤ month) :
    daysBeforeMonth year (month + 1) = daysBeforeMonth year month + monthDays year month := by
  rw [daysBeforeMonth, show month + 1 - 1 = month - 1 + 1 by omega, List.range'_concat,
    List.map_append, List.sum_append, List.map_singleton, List.sum_singleton, Nat.one_mul,
    show 1 + (month - 1) = month by omega]
  rfl

/-- No month ends after the year. -/
theorem daysBeforeMonth_le {year month : Nat} (pos : 1 ≤ month) (le : month ≤ 12) :
    daysBeforeMonth year month + monthDays year month ≤ yearDays year := by
  rw [← daysBeforeMonth_succ pos]
  cases leap : isLeap year with
  | true => interval_cases month <;> simp [daysBeforeMonth, List.range', monthDays, yearDays, leap]
  | false => interval_cases month <;> simp [daysBeforeMonth, List.range', monthDays, yearDays, leap]

theorem total_years (k : Nat) {year : Nat} (first : 2020 ≤ year) (last : year + k ≤ 2100) :
    (fun year => (year + 1) % 65536)^[k] year = year + k ∧
      daysBeforeYear year * 86400 + total (fun year => (year + 1) % 65536) yearSpan k year =
        daysBeforeYear (year + k) * 86400 := by
  induction k generalizing year with
  | zero => exact ⟨rfl, Nat.add_zero _⟩
  | succ k inductionHypothesis =>
    have step : (year + 1) % 65536 = year + 1 := Nat.mod_eq_of_lt (by omega)
    obtain ⟨there, sum⟩ := inductionHypothesis (show 2020 ≤ year + 1 by omega) (by omega)
    rw [daysBeforeYear_succ (by omega), Nat.add_mul, ← yearSpan_eq first (by omega)] at sum
    have place : year + 1 + k = year + (k + 1) := by omega
    rw [place] at there sum
    rw [Function.iterate_succ_apply, total, step]
    exact ⟨there, (Nat.add_assoc ..).symm.trans sum⟩

theorem total_months (k : Nat) {year month : Nat} (first : 2020 ≤ year) (last : year ≤ 2099)
    (pos : 1 ≤ month) (le : month + k ≤ 12) :
    (fun month => month + 1)^[k] month = month + k ∧
      daysBeforeMonth year month * 86400 + total (fun month => month + 1) (monthSpan year) k month =
        daysBeforeMonth year (month + k) * 86400 := by
  induction k generalizing month with
  | zero => exact ⟨rfl, Nat.add_zero _⟩
  | succ k inductionHypothesis =>
    obtain ⟨there, sum⟩ := inductionHypothesis (show 1 ≤ month + 1 by omega) (by omega)
    rw [daysBeforeMonth_succ pos, Nat.add_mul, ← monthSpan_eq first last pos (by omega)] at sum
    have place : month + 1 + k = month + (k + 1) := by omega
    rw [place] at there sum
    rw [Function.iterate_succ_apply, total]
    exact ⟨there, (Nat.add_assoc ..).symm.trans sum⟩

theorem yearDays_le (year : Nat) : yearDays year ≤ 366 := by
  rw [yearDays]
  split <;> decide

theorem monthDays_le (year month : Nat) : monthDays year month ≤ 31 := by
  unfold monthDays
  split
  · split <;> decide
  all_goals decide

theorem daysBeforeYear_le (k : Nat) : daysBeforeYear (2020 + k) ≤ 43829 + 366 * k := by
  induction k with
  | zero => decide +kernel
  | succ k inductionHypothesis =>
    have year := yearDays_le (2020 + k)
    rw [← Nat.add_assoc, daysBeforeYear_succ (by omega)]
    omega

/-- What the divisions make of a time within the month. -/
theorem divide_eq {year month day hour min sec rest : Nat} (day_pos : 1 ≤ day) (day_le : day ≤ 31)
    (hour_lt : hour < 24) (min_lt : min < 60) (sec_lt : sec < 60)
    (timed : (day - 1) * 86400 + hour * 3600 + min * 60 + sec = rest) :
    divide year month rest = ⟨year, month, day, hour, min, sec⟩ := by
  have days : rest / 86400 = day - 1 := by omega
  have inDay : rest % 86400 = hour * 3600 + min * 60 + sec := by omega
  have hours : (hour * 3600 + min * 60 + sec) / 3600 = hour := by omega
  have inHour : (hour * 3600 + min * 60 + sec) % 3600 = min * 60 + sec := by omega
  rw [divide, days, inDay, hours, inHour, Clock.mk.injEq]
  refine ⟨rfl, rfl, ?_, ?_, ?_, ?_⟩
  all_goals omega

/-- What comes of the results of both loops. -/
theorem convert_eq {rounds t0 year t month rest : Nat}
    (years : yearLoop t0 rounds = some (year, t))
    (months : monthLoop t0 year t = some (month, rest)) :
    convert rounds t0 = some (.set (divide year month rest)) := by
  rw [convert, years, Option.map_some, months, Option.elim_some]

theorem sntp_of_whole {packet : List UInt8} (whole : 48 ≤ packet.length) (rounds : Nat) :
    SNTP rounds packet = convert rounds (quadSub (xmit_ts packet) 3786825600) := by
  rw [SNTP, if_neg (not_lt.mpr whole)]

/-- An instant of these years is what both loops make of its timestamp. -/
theorem sntp_instant {packet : List UInt8} (whole : 48 ≤ packet.length) (instant : Instant)
    (first : 2020 ≤ instant.year) (last : instant.year ≤ 2099)
    (same : instant.timestamp % 4294967296 = xmit_ts packet) :
    ∃ rounds, SNTP rounds packet = some (.set instant.toClock) := by
  obtain ⟨⟨year, month, day, hour, min, sec⟩, month_pos, month_le, day_pos, day_le, hour_lt,
    min_lt, sec_lt⟩ := instant
  dsimp only at month_pos month_le day_pos day_le hour_lt min_lt sec_lt first last
  rw [Instant.timestamp] at same
  dsimp only at same
  obtain ⟨k, rfl⟩ := Nat.exists_eq_add_of_le first
  obtain ⟨m, rfl⟩ := Nat.exists_eq_add_of_le month_pos
  obtain ⟨yearThere, years⟩ := total_years k (le_refl 2020) (by omega)
  obtain ⟨monthThere, months⟩ := total_months m first last (le_refl 1) month_le
  have before : daysBeforeYear 2020 = 43829 := by decide +kernel
  have none_before : daysBeforeMonth (2020 + k) 1 = 0 := rfl
  have bounded := daysBeforeYear_le k
  have inYear := @daysBeforeMonth_le (2020 + k) _ month_pos month_le
  have yearLong := yearDays_le (2020 + k)
  have monthLong := monthDays_le (2020 + k) (1 + m)
  have yearSpanned := yearSpan_eq first last
  have monthSpanned := monthSpan_eq first last month_pos month_le
  rw [before] at years
  rw [none_before, Nat.zero_mul, Nat.zero_add] at months
  obtain ⟨rest, timed⟩ : ∃ rest, (day - 1) * 86400 + hour * 3600 + min * 60 + sec = rest :=
    ⟨_, rfl⟩
  have inMonth : rest < monthSpan (2020 + k) (1 + m) := by omega
  have start : quadSub (xmit_ts packet) 3786825600 =
      total (fun year => (year + 1) % 65536) yearSpan k 2020 +
        (total (fun month => month + 1) (monthSpan (2020 + k)) m 1 + rest) := by
    rw [← same, quadSub]
    omega
  have yearFound := @peel_total (fun year => (year + 1) % 65536) yearSpan _ k (k + 1) 2020
    (total (fun month => month + 1) (monthSpan (2020 + k)) m 1 + rest) (le_refl _)
    (by rw [yearThere]; omega) (by rw [yearThere]; omega) (Nat.lt_succ_self k)
  have monthFound := @peel_total (fun month => month + 1) (monthSpan (2020 + k))
    (total (fun year => (year + 1) % 65536) yearSpan k 2020 +
      (total (fun month => month + 1) (monthSpan (2020 + k)) m 1 + rest)) m 12 1 rest
    (Nat.le_add_left ..) (by rw [monthThere]; omega) (by rw [monthThere]; exact inMonth) (by omega)
  rw [yearThere] at yearFound
  rw [monthThere] at monthFound
  refine ⟨k + 1, ?_⟩
  have divided := @divide_eq (2020 + k) (1 + m) _ _ _ _ _ day_pos (day_le.trans monthLong) hour_lt
    min_lt sec_lt timed
  rw [sntp_of_whole whole, start, convert_eq yearFound monthFound, divided]

theorem xmit_ts_lt (packet : List UInt8) : xmit_ts packet < 4294967296 := by
  rw [xmit_ts]
  have first := (packet.getD 40 0).toNat_lt
  have second := (packet.getD 41 0).toNat_lt
  have third := (packet.getD 42 0).toNat_lt
  have fourth := (packet.getD 43 0).toNat_lt
  omega

/-- The conversion is right exactly if the timestamp is not in the last 128 seconds before
the year 2020. -/
theorem sntp_converted_iff {packet : List UInt8} (whole : 48 ≤ packet.length) :
    Converted packet ↔ ¬(3786825472 ≤ xmit_ts packet ∧ xmit_ts packet < 3786825600) := by
  have small := xmit_ts_lt packet
  have start : quadSub (xmit_ts packet) 3786825600 < 4294967168 ↔
      ¬(3786825472 ≤ xmit_ts packet ∧ xmit_ts packet < 3786825600) := by
    rw [quadSub]
    omega
  have bounded : quadSub (xmit_ts packet) 3786825600 < 4294967296 := Nat.mod_lt _ (by decide)
  rw [← start, ← yearLoop_isSome_iff bounded]
  constructor
  · rintro ⟨⟨rounds, clock, found, -⟩, -⟩
    rw [sntp_of_whole whole, convert] at found
    obtain ⟨result, ends, -⟩ := Option.map_eq_some_iff.mp found
    exact ⟨rounds, result, ends⟩
  · rintro ⟨rounds, ⟨year, t⟩, ends⟩
    refine ⟨?_, fun instant first last same =>
      ⟨sntp_instant whole instant first last same, ?_⟩⟩
    · obtain ⟨-, -, -, below, stopped⟩ := peel_eq_some (le_refl _) ends
      obtain ⟨month, rest, found, pos, le⟩ := monthLoop_isSome below stopped
      exact ⟨rounds, _, (sntp_of_whole whole rounds).trans (convert_eq ends found), pos, le⟩
    · rw [Clock.time_pack, show (instant.year + (65536 - 1900)) % 256 = instant.year - 1900 by omega]

/-- A reply sent one second before the year 2020. -/
def justBefore2020 : List UInt8 :=
  List.replicate 40 0 ++ [0xE1, 0xB6, 0x5F, 0x7F] ++ List.replicate 4 0

/-- Nothing comes of it, however many rounds the loop is given. -/
theorem not_converted_justBefore2020 :
    ¬Converted justBefore2020 ∧ ∀ rounds, SNTP rounds justBefore2020 = none := by
  have never : ∀ rounds, SNTP rounds justBefore2020 = none := by
    intro rounds
    rw [sntp_of_whole (by decide), convert, Option.map_eq_none_iff]
    cases found : yearLoop (quadSub (xmit_ts justBefore2020) 3786825600) rounds with
    | none => rfl
    | some result =>
      have room := (yearLoop_isSome_iff (show _ < 4294967296 by decide +kernel)).mp
        ⟨rounds, result, found⟩
      exact absurd room (by decide +kernel)
  refine ⟨?_, never⟩
  rintro ⟨⟨rounds, clock, found, -⟩, -⟩
  rw [never rounds] at found
  cases found

/-- The last second of the range, sent as its remainder modulo all quads. -/
theorem sntp_converted_endOf2099 :
    48 ≤ (List.replicate 40 (0 : UInt8) ++ [0x78, 0x30, 0xD5, 0x7F] ++ List.replicate 4 0).length ∧
      Converted (List.replicate 40 0 ++ [0x78, 0x30, 0xD5, 0x7F] ++ List.replicate 4 0) :=
  ⟨by decide, (sntp_converted_iff (by decide)).mpr (by decide +kernel)⟩

end Frobio.Ntp
