import PipelineOperator.Api.ScheduleDate
import Mathlib

/-!
# What a date string adds up to

`durationFromDateString` looks for matches anywhere in the text, so that every
text has a sum: that of the tokens found in it.  The code fails only if one of
their numbers does not fit 64 bits.  Otherwise it wraps every product and every
partial sum around, which leaves the exact sum wrapped around once.

## Main results

* `holdsTooLarge_iff`: which texts have a match whose number does not fit.
* `addTokens_wraps`: the loop wraps the exact sum around.
* `durationFromDateString_eq`, `durationFromDateString_error_iff`: the result
  for every text.
* `scheduleDuration_of_cron`, `scheduleDuration_of_date`: `Duration`, with and
  without a cron line.
-/

namespace PipelineOperator.Api

/-! ## Matches -/

/-- The units of the pattern. -/
abbrev patternUnits : List Char := ['s', 'm', 'h', 'd', 'M', 'y']

/-- The exact duration of a match. -/
def matchDuration (found : List Char × Char) : Int :=
  Nat.ofDigitChars 10 found.1 0 * (unitDuration found.2).getD 0

/-- The exact sum of all matches in a text. -/
def matchedDuration (scheduleDate : String) : Int :=
  ((findAllTokens [] scheduleDate.toList).map matchDuration).sum

/-- A number that does not fit 64 bits stands before a unit of the pattern. -/
def HoldsTooLarge (text : List Char) : Prop :=
  ∃ front digits unit rest, text = front ++ (digits ++ unit :: rest) ∧
    (∀ c ∈ digits, c.isDigit = true) ∧ unit ∈ patternUnits ∧
      maxDuration < Nat.ofDigitChars 10 digits 0

/-- The switch knows the units of the pattern. -/
theorem unitDuration_of_pattern {unit : Char} (hunit : unit ∈ patternUnits) :
    ∃ length, unitDuration unit = some length ∧ 1 ≤ length := by
  simp only [List.mem_cons, List.not_mem_nil, or_false] at hunit
  rcases hunit with rfl | rfl | rfl | rfl | rfl | rfl <;> exact ⟨_, rfl, by decide⟩

/-- The units of the pattern are no digits. -/
theorem not_isDigit_of_pattern {unit : Char} (hunit : unit ∈ patternUnits) :
    unit.isDigit = false := by
  simp only [List.mem_cons, List.not_mem_nil, or_false] at hunit
  rcases hunit with rfl | rfl | rfl | rfl | rfl | rfl <;> rfl

/-- Digits are kept until something else comes. -/
theorem findAllTokens_digits {digits : List Char} (hdigits : ∀ c ∈ digits, c.isDigit = true)
    (before text : List Char) :
    findAllTokens before (digits ++ text) = findAllTokens (before ++ digits) text := by
  induction digits generalizing before with
  | nil => rw [List.nil_append, List.append_nil]
  | cons c digits ih =>
      rw [List.cons_append, findAllTokens, if_pos (hdigits c List.mem_cons_self),
        ih fun d hd => hdigits d (List.mem_cons_of_mem _ hd), List.append_assoc,
        List.singleton_append]

/-- A unit of the pattern after digits ends a match. -/
theorem findAllTokens_unit {digits : List Char} (hdigits : digits ≠ []) {unit : Char}
    (hunit : unit ∈ patternUnits) (text : List Char) :
    findAllTokens digits (unit :: text) = (digits, unit) :: findAllTokens [] text := by
  rw [findAllTokens, if_neg (by simp [not_isDigit_of_pattern hunit]), if_pos ⟨hdigits, hunit⟩]

/-- Any other character drops the digits before it. -/
theorem findAllTokens_other {c : Char} (hdigit : c.isDigit = false) (hunit : c ∉ patternUnits)
    (digits text : List Char) : findAllTokens digits (c :: text) = findAllTokens [] text := by
  rw [findAllTokens, if_neg (by simp [hdigit]), if_neg fun h => hunit h.2]

/-- A match is digits before a unit of the pattern. -/
theorem split_of_mem_findAllTokens {before text : List Char} {found : List Char × Char}
    (hbefore : ∀ c ∈ before, c.isDigit = true) (hfound : found ∈ findAllTokens before text) :
    ∃ front rest, before ++ text = front ++ (found.1 ++ found.2 :: rest) ∧
      (∀ c ∈ found.1, c.isDigit = true) ∧ found.2 ∈ patternUnits := by
  induction text generalizing before with
  | nil => cases hfound
  | cons c text ih =>
      have hskip : found ∈ findAllTokens [] text →
          ∃ front rest, before ++ c :: text = front ++ (found.1 ++ found.2 :: rest) ∧
            (∀ c ∈ found.1, c.isDigit = true) ∧ found.2 ∈ patternUnits := by
        intro hrest
        obtain ⟨front, rest, htext, hparts⟩ := ih (by simp) hrest
        rw [List.nil_append] at htext
        exact ⟨before ++ c :: front, rest, by rw [htext]; simp, hparts⟩
      rw [findAllTokens] at hfound
      split at hfound
      · next hdigit =>
          have hkept : ∀ d ∈ before ++ [c], d.isDigit = true := by
            intro d hd
            rcases List.mem_append.mp hd with hd | hd
            · exact hbefore d hd
            · rw [List.mem_singleton.mp hd]
              exact hdigit
          obtain ⟨front, rest, htext, hparts⟩ := ih hkept hfound
          rw [List.append_assoc, List.singleton_append] at htext
          exact ⟨front, rest, htext, hparts⟩
      · split at hfound
        · next hunit =>
            rcases List.mem_cons.mp hfound with rfl | hrest
            · exact ⟨[], text, rfl, hbefore, hunit.2⟩
            · exact hskip hrest
        · exact hskip hfound

/-- Digits before a unit of the pattern are the end of a match, which has no
smaller number. -/
theorem exists_match_of_split {digits : List Char} (hne : digits ≠ [])
    (hdigits : ∀ c ∈ digits, c.isDigit = true) {unit : Char} (hunit : unit ∈ patternUnits)
    (rest : List Char) (before front : List Char) :
    ∃ found ∈ findAllTokens before (front ++ (digits ++ unit :: rest)),
      Nat.ofDigitChars 10 digits 0 ≤ Nat.ofDigitChars 10 found.1 0 := by
  induction front generalizing before with
  | nil =>
      have hall : before ++ digits ≠ [] := List.append_ne_nil_of_right_ne_nil before hne
      rw [List.nil_append, findAllTokens_digits hdigits, findAllTokens_unit hall hunit]
      refine ⟨_, List.mem_cons_self, ?_⟩
      have hvalue : Nat.ofDigitChars 10 (before ++ digits) 0 =
          10 ^ digits.length * Nat.ofDigitChars 10 before 0 + Nat.ofDigitChars 10 digits 0 := by
        rw [Nat.ofDigitChars_append]
        exact Nat.ofDigitChars_eq_ofDigitChars_zero
      rw [hvalue]
      exact Nat.le_add_left _ _
  | cons c front ih =>
      rw [List.cons_append, findAllTokens]
      split
      · exact ih (before ++ [c])
      · split
        · obtain ⟨found, hfound, hle⟩ := ih []
          exact ⟨found, List.mem_cons_of_mem _ hfound, hle⟩
        · exact ih []

/-- A text holds a number that is too large exactly if some match does. -/
theorem holdsTooLarge_iff (text : List Char) :
    HoldsTooLarge text ↔
      ∃ found ∈ findAllTokens [] text, maxDuration < Nat.ofDigitChars 10 found.1 0 := by
  constructor
  · rintro ⟨front, digits, unit, rest, rfl, hdigits, hunit, hlarge⟩
    have hne : digits ≠ [] := by
      rintro rfl
      exact absurd hlarge (by decide)
    obtain ⟨found, hfound, hle⟩ := exists_match_of_split hne hdigits hunit rest [] front
    exact ⟨found, hfound, Int.lt_of_lt_of_le hlarge (Int.ofNat_le.mpr hle)⟩
  · rintro ⟨found, hfound, hlarge⟩
    obtain ⟨front, rest, htext, hdigits, hunit⟩ := split_of_mem_findAllTokens (by simp) hfound
    exact ⟨front, found.1, found.2, rest, htext, hdigits, hunit, hlarge⟩

instance (text : List Char) : Decidable (HoldsTooLarge text) :=
  decidable_of_iff _ (holdsTooLarge_iff text).symm

/-! ## Wrapping around -/

theorem wrap_eq_bmod (d : Int) : wrap d = Int.bmod d (2 ^ 64) := by
  show (d + 2 ^ 63) % 2 ^ 64 - 2 ^ 63 = Int.bmod d (2 ^ 64)
  rw [Int.bmod_def]
  split <;> omega

theorem wrap_of_fits {d : Int} (hlow : 0 ≤ d) (hhigh : d ≤ 2 ^ 63 - 1) : wrap d = d := by
  show (d + 2 ^ 63) % 2 ^ 64 - 2 ^ 63 = d
  omega

/-- Wrapping both terms of a sum around is wrapping the sum around. -/
theorem wrap_add_wrap (d d' : Int) : wrap (wrap d + wrap d') = wrap (d + d') := by
  simp only [wrap_eq_bmod, Int.bmod_add_bmod, Int.add_bmod_bmod]

/-- A sum is not negative after it has been wrapped around exactly if it is in
the lower half of the range. -/
theorem wrap_nonneg_iff (d : Int) : 0 ≤ wrap d ↔ d % 2 ^ 64 < 2 ^ 63 := by
  show 0 ≤ (d + 2 ^ 63) % 2 ^ 64 - 2 ^ 63 ↔ d % 2 ^ 64 < 2 ^ 63
  omega

theorem atoi_ok {digits : List Char} (hfits : ¬ maxDuration < Nat.ofDigitChars 10 digits 0) :
    atoi digits = .ok (Nat.ofDigitChars 10 digits 0) := by
  rw [atoi]
  exact if_pos (Int.not_lt.mp hfits)

theorem atoi_error {digits : List Char} (hlarge : maxDuration < Nat.ofDigitChars 10 digits 0) :
    atoi digits = .error "value out of range" := by
  rw [atoi]
  exact if_neg (Int.not_le.mpr hlarge)

/-- The loop wraps the exact sum around. -/
theorem addTokens_wraps {tokens : List (List Char × Char)}
    (hunits : ∀ found ∈ tokens, found.2 ∈ patternUnits)
    (hfits : ∀ found ∈ tokens, ¬ maxDuration < Nat.ofDigitChars 10 found.1 0) (d : Int) :
    addTokens (wrap d) tokens = .ok (wrap (d + (tokens.map matchDuration).sum)) := by
  induction tokens generalizing d with
  | nil => simp [addTokens]
  | cons found rest ih =>
      obtain ⟨digits, unit⟩ := found
      obtain ⟨length, hlength, -⟩ := unitDuration_of_pattern (hunits _ List.mem_cons_self)
      have hvalue : atoi digits = .ok (Nat.ofDigitChars 10 digits 0) :=
        atoi_ok (hfits _ List.mem_cons_self)
      have hmatch : matchDuration (digits, unit) = Nat.ofDigitChars 10 digits 0 * length := by
        rw [matchDuration, hlength, Option.getD_some]
      simp only [addTokens, hvalue, hlength]
      rw [← hmatch, wrap_add_wrap,
        ih (fun other hother => hunits other (List.mem_cons_of_mem _ hother))
          (fun other hother => hfits other (List.mem_cons_of_mem _ hother)),
        List.map_cons, List.sum_cons, Int.add_assoc]

/-- A number that does not fit ends the loop with an error. -/
theorem addTokens_fails {tokens : List (List Char × Char)}
    (hunits : ∀ found ∈ tokens, found.2 ∈ patternUnits)
    (hlarge : ∃ found ∈ tokens, maxDuration < Nat.ofDigitChars 10 found.1 0) (d : Duration) :
    ∃ e, addTokens d tokens = .error e := by
  induction tokens generalizing d with
  | nil =>
      obtain ⟨found, hfound, -⟩ := hlarge
      cases hfound
  | cons found rest ih =>
      obtain ⟨digits, unit⟩ := found
      by_cases hfirst : maxDuration < Nat.ofDigitChars 10 digits 0
      · exact ⟨_, by rw [addTokens, atoi_error hfirst]⟩
      · obtain ⟨length, hlength, -⟩ := unitDuration_of_pattern (hunits _ List.mem_cons_self)
        have hrest : ∃ other ∈ rest, maxDuration < Nat.ofDigitChars 10 other.1 0 := by
          obtain ⟨other, hother, hvalue⟩ := hlarge
          rcases List.mem_cons.mp hother with rfl | hother
          · exact absurd hvalue hfirst
          · exact ⟨other, hother, hvalue⟩
        simp only [addTokens, atoi_ok hfirst, hlength]
        exact ih (fun other hother => hunits other (List.mem_cons_of_mem _ hother)) hrest _

/-! ## Every text -/

/-- How long it is until the start. -/
def waitingTime (start now : Int) : Int := max 0 (start - now)

theorem waitingTime_nonneg (start now : Int) : 0 ≤ waitingTime start now :=
  Int.le_max_left _ _

theorem waitingTime_of_le {start now : Int} (hle : start ≤ now) : waitingTime start now = 0 := by
  rw [waitingTime]
  omega

theorem waitingTime_of_lt {start now : Int} (hlt : now < start) :
    waitingTime start now = start - now := by
  rw [waitingTime]
  omega

/-- The units of the matches are those of the pattern. -/
theorem units_findAllTokens (text : List Char) :
    ∀ found ∈ findAllTokens [] text, found.2 ∈ patternUnits := by
  intro found hfound
  obtain ⟨-, -, -, -, hunit⟩ := split_of_mem_findAllTokens (by simp) hfound
  exact hunit

theorem matchDuration_nonneg {found : List Char × Char} (hunit : found.2 ∈ patternUnits) :
    0 ≤ matchDuration found ∧ (Nat.ofDigitChars 10 found.1 0 : Int) ≤ matchDuration found := by
  obtain ⟨length, hlength, hpos⟩ := unitDuration_of_pattern hunit
  have hvalue := Int.natCast_nonneg (Nat.ofDigitChars 10 found.1 0)
  have hmul := Int.mul_le_mul_of_nonneg_left hpos hvalue
  rw [Int.mul_one] at hmul
  rw [matchDuration, hlength, Option.getD_some]
  exact ⟨Int.le_trans hvalue hmul, hmul⟩

/-- The waiting time that `durationFromDateString` starts with. -/
theorem waiting_eq (start now : Int) :
    (if now < start then wrap (0 + Time.sub start now) else 0) =
      wrap (min maxDuration (waitingTime start now)) := by
  have hmin : (min maxDuration (waitingTime start now) : Int) =
      min (2 ^ 63 - 1) (max 0 (start - now)) := rfl
  rw [hmin]
  split
  · next hlater =>
      have hsub : (Time.sub start now : Int) = min (2 ^ 63 - 1) (max 0 (start - now)) := by
        show max (-(2 ^ 63)) (min (2 ^ 63 - 1) (start - now)) =
          min (2 ^ 63 - 1) (max 0 (start - now))
        omega
      rw [hsub, Int.zero_add]
  · next hnot =>
      have hzero : (min (2 ^ 63 - 1) (max 0 (start - now)) : Int) = 0 := by omega
      rw [hzero]
      decide

/-- A text without a number that is too large: the exact sum, wrapped around. -/
theorem durationFromDateString_eq {scheduleDate : String}
    (hfits : ¬ HoldsTooLarge scheduleDate.toList) (start now : Time) :
    durationFromDateString scheduleDate start now =
      .ok (wrap (min maxDuration (waitingTime start now) + matchedDuration scheduleDate)) := by
  rw [durationFromDateString, waiting_eq]
  refine addTokens_wraps (units_findAllTokens _) ?_ _
  intro found hfound hlarge
  exact hfits ((holdsTooLarge_iff _).mpr ⟨found, hfound, hlarge⟩)

/-- A text fails exactly if it holds a number that is too large. -/
theorem durationFromDateString_error_iff (scheduleDate : String) (start now : Time) :
    (∃ e, durationFromDateString scheduleDate start now = .error e) ↔
      HoldsTooLarge scheduleDate.toList := by
  constructor
  · rintro ⟨e, herror⟩
    by_contra hfits
    rw [durationFromDateString_eq hfits] at herror
    cases herror
  · intro hlarge
    exact addTokens_fails (units_findAllTokens _) ((holdsTooLarge_iff _).mp hlarge) _

theorem matchedDuration_nonneg (scheduleDate : String) : 0 ≤ matchedDuration scheduleDate := by
  refine List.sum_nonneg ?_
  intro duration hduration
  obtain ⟨found, hfound, rfl⟩ := List.mem_map.mp hduration
  exact (matchDuration_nonneg (units_findAllTokens _ found hfound)).1

/-- A number that is too large makes the sum too large. -/
theorem tooLarge_sum {scheduleDate : String} (hlarge : HoldsTooLarge scheduleDate.toList) :
    maxDuration < matchedDuration scheduleDate := by
  obtain ⟨found, hfound, hvalue⟩ := (holdsTooLarge_iff _).mp hlarge
  have hmatch := (matchDuration_nonneg (units_findAllTokens _ found hfound)).2
  have hsum : matchDuration found ≤ matchedDuration scheduleDate := by
    refine List.single_le_sum ?_ _ (List.mem_map_of_mem hfound)
    intro duration hduration
    obtain ⟨other, hother, rfl⟩ := List.mem_map.mp hduration
    exact (matchDuration_nonneg (units_findAllTokens _ other hother)).1
  exact Int.lt_of_lt_of_le hvalue (Int.le_trans hmatch hsum)

/-- A sum that fits is the result. -/
theorem durationFromDateString_of_fits {scheduleDate : String} {start now : Int}
    (hfits : waitingTime start now + matchedDuration scheduleDate ≤ maxDuration) :
    durationFromDateString scheduleDate start now =
      .ok (waitingTime start now + matchedDuration scheduleDate) := by
  have hbound : waitingTime start now + matchedDuration scheduleDate ≤ 2 ^ 63 - 1 := hfits
  have hwaiting := waitingTime_nonneg start now
  have hsum := matchedDuration_nonneg scheduleDate
  have hread : ¬ HoldsTooLarge scheduleDate.toList := by
    intro hlarge
    have hover : (2 ^ 63 - 1 : Int) < matchedDuration scheduleDate := tooLarge_sum hlarge
    omega
  have hshort : waitingTime start now ≤ 2 ^ 63 - 1 := by omega
  have hmin : min maxDuration (waitingTime start now) = waitingTime start now :=
    Int.min_eq_right hshort
  rw [durationFromDateString_eq hread, hmin, wrap_of_fits (by omega) hbound]

/-! ## `Duration` -/

/-- Where `Duration` starts from. -/
def scheduleStart (startDate : Option Time) (now : Time) : Time :=
  match startDate with
  | none => now
  | some date => if Time.zero < now then now else date

/-- The clock has gone past the zero time, so that no start date is waited for. -/
theorem scheduleStart_of_clock (startDate : Option Time) {now : Time} (hclock : Time.zero < now) :
    scheduleStart startDate now = now := by
  cases startDate with
  | none => rfl
  | some date => exact if_pos hclock

theorem scheduleDuration_eq (lib : Externals) (scheduleDate : String) (startDate : Option Time)
    (now : Time) :
    scheduleDuration lib scheduleDate startDate now =
      match durationFromCron lib scheduleDate (scheduleStart startDate now) now,
        durationFromDateString scheduleDate (scheduleStart startDate now) now with
      | .error e, .error e2 =>
          .error ("unknown format schedule: cron parsing error is " ++ e
            ++ ", date parsing error is " ++ e2)
      | .error _, .ok dateDuration => .ok dateDuration
      | .ok cronDuration, _ => .ok cronDuration := rfl

/-- A cron line takes precedence. -/
theorem scheduleDuration_of_cron {lib : Externals} {scheduleDate : String} {next : Time → Time}
    (hcron : lib.parseCron scheduleDate = .ok next) (startDate : Option Time) (now : Time) :
    scheduleDuration lib scheduleDate startDate now =
      .ok ((next (scheduleStart startDate now)).sub now) := by
  rw [scheduleDuration_eq, durationFromCron, hcron]

/-- Where there is none, the result is that of the date string, up to the text of
the error. -/
theorem scheduleDuration_of_date {lib : Externals} {scheduleDate e : String}
    (hcron : lib.parseCron scheduleDate = .error e) (startDate : Option Time) (now : Time) :
    (∀ d, durationFromDateString scheduleDate (scheduleStart startDate now) now = .ok d →
      scheduleDuration lib scheduleDate startDate now = .ok d) ∧
    ((∃ e', durationFromDateString scheduleDate (scheduleStart startDate now) now = .error e') →
      ∃ e', scheduleDuration lib scheduleDate startDate now = .error e') := by
  rw [scheduleDuration_eq, durationFromCron, hcron]
  constructor
  · intro d hdate
    rw [hdate]
  · rintro ⟨e', hdate⟩
    rw [hdate]
    exact ⟨_, rfl⟩

end PipelineOperator.Api
