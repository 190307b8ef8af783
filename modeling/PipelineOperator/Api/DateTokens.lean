import PipelineOperator.Api.DateSums

/-!
# Date strings

A date string is a row of tokens, each a number in decimal and a unit, with
nothing between them.  The scan of `durationFromDateString` looks for matches
anywhere in the text and keeps the run of digits that ends where it stands; on
a row of tokens it finds these tokens again, so that the text adds up to what
the tokens say.

## Main results

* `findAllTokens_dateText`: the scan finds the tokens that were written.
* `matchedDuration_dateText`: they are what the text adds up to.
* `durationFromDateString_exact`: the duration is the waiting time and the sum
  of the tokens; it adds up over parts and ignores their order.
-/

namespace PipelineOperator.Api

/-! ## Tokens -/

/-- The units that the pattern matches. -/
inductive DateUnit where
  | second
  | minute
  | hour
  | day
  | month
  | year
  deriving Repr, DecidableEq

def DateUnit.char : DateUnit → Char
  | .second => 's'
  | .minute => 'm'
  | .hour => 'h'
  | .day => 'd'
  | .month => 'M'
  | .year => 'y'

/-- The length of a unit, with 30 days in a month and 365 in a year. -/
def DateUnit.length : DateUnit → Int
  | .second => Time.second
  | .minute => 60 * Time.second
  | .hour => 3600 * Time.second
  | .day => 24 * 3600 * Time.second
  | .month => 30 * (24 * 3600 * Time.second)
  | .year => 365 * (24 * 3600 * Time.second)

/-- A number, written with some leading zeros, and a unit. -/
structure DateToken where
  zeros : Nat := 0
  number : Nat
  unit : DateUnit
  deriving Repr, DecidableEq

def DateToken.digits (token : DateToken) : List Char :=
  List.replicate token.zeros '0' ++ Nat.toDigits 10 token.number

def DateToken.duration (token : DateToken) : Int := token.number * token.unit.length

def dateChars (tokens : List DateToken) : List Char :=
  tokens.flatMap fun token => token.digits ++ [token.unit.char]

/-- The text of a row of tokens. -/
def dateText (tokens : List DateToken) : String := String.ofList (dateChars tokens)

def totalDuration (tokens : List DateToken) : Int := (tokens.map DateToken.duration).sum

theorem totalDuration_cons (token : DateToken) (tokens : List DateToken) :
    totalDuration (token :: tokens) = token.duration + totalDuration tokens := by
  simp [totalDuration]

theorem totalDuration_append (front back : List DateToken) :
    totalDuration (front ++ back) = totalDuration front + totalDuration back := by
  simp [totalDuration]

theorem totalDuration_perm {tokens tokens' : List DateToken} (hperm : tokens.Perm tokens') :
    totalDuration tokens = totalDuration tokens' :=
  (hperm.map _).sum_eq

/-- A unit is not a digit, the pattern has it, and the switch knows its length. -/
theorem DateUnit.known (unit : DateUnit) :
    unit.char.isDigit = false ∧ unit.char ∈ ['s', 'm', 'h', 'd', 'M', 'y'] ∧
      unitDuration unit.char = some unit.length := by
  cases unit <;> decide

theorem DateUnit.length_pos (unit : DateUnit) : 1 ≤ unit.length := by
  cases unit <;> decide

theorem DateToken.duration_nonneg (token : DateToken) : 0 ≤ token.duration :=
  Int.mul_nonneg (Int.natCast_nonneg _) (by have := token.unit.length_pos; omega)

theorem totalDuration_nonneg (tokens : List DateToken) : 0 ≤ totalDuration tokens := by
  induction tokens with
  | nil => decide
  | cons token tokens ih =>
      rw [totalDuration_cons]
      have := token.duration_nonneg
      omega

theorem DateToken.isDigit (token : DateToken) : ∀ c ∈ token.digits, c.isDigit = true := by
  intro c hc
  rcases List.mem_append.mp hc with hzero | hdigit
  · rw [List.eq_of_mem_replicate hzero]
    decide
  · exact Nat.isDigit_of_mem_toDigits (by decide) (by decide) hdigit

theorem DateToken.digits_ne_nil (token : DateToken) : token.digits ≠ [] := by
  intro hnil
  have hlength : 0 < (Nat.toDigits 10 token.number).length := Nat.length_toDigits_pos
  rw [(List.append_eq_nil_iff.mp hnil).2] at hlength
  exact Nat.lt_irrefl _ hlength

/-- Leading zeros do not count. -/
theorem DateToken.ofDigitChars_digits (token : DateToken) :
    Nat.ofDigitChars 10 token.digits 0 = token.number := by
  rw [DateToken.digits, Nat.ofDigitChars_append, Nat.ofDigitChars_replicate_zero, Nat.mul_zero,
    Nat.ofDigitChars_ten_toDigits]

/-! ## The scan -/

/-- The scan finds the tokens that were written. -/
theorem findAllTokens_dateText (tokens : List DateToken) :
    findAllTokens [] (dateChars tokens) =
      tokens.map fun token => (token.digits, token.unit.char) := by
  induction tokens with
  | nil => rfl
  | cons token tokens ih =>
      have htext : dateChars (token :: tokens) =
          token.digits ++ token.unit.char :: dateChars tokens := by
        simp [dateChars]
      rw [htext, findAllTokens_digits token.isDigit, List.nil_append,
        findAllTokens_unit token.digits_ne_nil token.unit.known.2.1, ih, List.map_cons]

/-! ## The sum -/

/-- The text adds up to its tokens. -/
theorem matchedDuration_dateText (tokens : List DateToken) :
    matchedDuration (dateText tokens) = totalDuration tokens := by
  rw [matchedDuration, dateText, String.toList_ofList, findAllTokens_dateText, List.map_map,
    totalDuration]
  congr 1
  apply List.map_congr_left
  intro token _
  rw [Function.comp_apply, matchDuration, token.unit.known.2.2, Option.getD_some,
    token.ofDigitChars_digits, DateToken.duration]

/-- The duration of a row of tokens whose sum fits. -/
theorem durationFromDateString_dateText {tokens : List DateToken} {start now : Int}
    (hfits : waitingTime start now + totalDuration tokens ≤ 2 ^ 63 - 1) :
    durationFromDateString (dateText tokens) start now =
      .ok (waitingTime start now + totalDuration tokens) := by
  rw [← matchedDuration_dateText] at hfits ⊢
  exact durationFromDateString_of_fits hfits

/-- **Date strings are exact.**  The duration of a row of tokens is the waiting
time and their sum, in whatever order they come; and a row in two parts takes
what its first part takes and, without waiting, its second. -/
theorem durationFromDateString_exact (tokens : List DateToken) (start now : Time)
    (hfits : max 0 (start - now) + totalDuration tokens ≤ maxDuration) :
    durationFromDateString (dateText tokens) start now =
        .ok (max 0 (start - now) + totalDuration tokens) ∧
      (∀ tokens', tokens'.Perm tokens →
        durationFromDateString (dateText tokens') start now =
          durationFromDateString (dateText tokens) start now) ∧
      ∀ front back, tokens = front ++ back → ∃ d d',
        durationFromDateString (dateText front) start now = .ok d ∧
          durationFromDateString (dateText back) now now = .ok d' ∧
          durationFromDateString (dateText tokens) start now = .ok (d + d') := by
  have hbound : waitingTime start now + totalDuration tokens ≤ 2 ^ 63 - 1 := hfits
  have hexact := durationFromDateString_dateText hbound
  refine ⟨hexact, ?_, ?_⟩
  · intro tokens' hperm
    rw [hexact, ← totalDuration_perm hperm]
    exact durationFromDateString_dateText (by rwa [totalDuration_perm hperm])
  · intro front back hsplit
    have htotal : totalDuration tokens = totalDuration front + totalDuration back := by
      rw [hsplit, totalDuration_append]
    have hfront := totalDuration_nonneg front
    have hback := totalDuration_nonneg back
    have hlow := waitingTime_nonneg start now
    have hnow : waitingTime now now = 0 := waitingTime_of_le (Int.le_refl now)
    refine ⟨waitingTime start now + totalDuration front, totalDuration back, ?_, ?_, ?_⟩
    · exact durationFromDateString_dateText (by omega)
    · rw [durationFromDateString_dateText (by omega), hnow, Int.zero_add]
    · rw [hexact, htotal, Int.add_assoc]

/-- An hour and a half and a month, from now and from a minute later on. -/
def hourAndMonth : List DateToken :=
  [⟨0, 1, .hour⟩, ⟨1, 30, .minute⟩, ⟨0, 1, .month⟩]

example : dateText hourAndMonth = "1h030m1M" := by decide

theorem durationFromDateString_exact_hourAndMonth :
    durationFromDateString (dateText hourAndMonth) (60 * Time.second) 0 =
        .ok (max 0 (60 * Time.second - 0) + totalDuration hourAndMonth) ∧
      (∀ tokens', tokens'.Perm hourAndMonth →
        durationFromDateString (dateText tokens') (60 * Time.second) 0 =
          durationFromDateString (dateText hourAndMonth) (60 * Time.second) 0) ∧
      ∀ front back, hourAndMonth = front ++ back → ∃ d d',
        durationFromDateString (dateText front) (60 * Time.second) 0 = .ok d ∧
          durationFromDateString (dateText back) 0 0 = .ok d' ∧
          durationFromDateString (dateText hourAndMonth) (60 * Time.second) 0 = .ok (d + d') :=
  durationFromDateString_exact hourAndMonth (60 * Time.second) 0 (by decide)

end PipelineOperator.Api
