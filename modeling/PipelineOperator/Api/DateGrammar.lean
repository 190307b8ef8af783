import PipelineOperator.Api.DateSums

/-!
# The grammar of date strings

The switch of `durationFromDateString` has seven units and an error for
everything else.  It never gets to see anything else: the pattern before it
skips what it does not match, and it does not match weeks.  So a text outside
of the grammar is an error only by accident, when a number in it is too large,
and weeks count for nothing.

## Main results

* `matchedDuration_row`: a row of tokens adds up to what it says without its
  weeks.
* `readsGrammar_iff`: which texts are read as the grammar has them.
-/

namespace PipelineOperator.Api

/-! ## Rows of tokens -/

/-- The units of the switch. -/
inductive SwitchUnit where
  | second
  | minute
  | hour
  | day
  | week
  | month
  | year
  deriving Repr, DecidableEq

def SwitchUnit.char : SwitchUnit → Char
  | .second => 's'
  | .minute => 'm'
  | .hour => 'h'
  | .day => 'd'
  | .week => 'w'
  | .month => 'M'
  | .year => 'y'

/-- The length that the switch gives a unit. -/
def SwitchUnit.length : SwitchUnit → Int
  | .second => Time.second
  | .minute => 60 * Time.second
  | .hour => 3600 * Time.second
  | .day => 24 * 3600 * Time.second
  | .week => 7 * 24 * 3600 * Time.second
  | .month => 30 * 24 * 3600 * Time.second
  | .year => 365 * 24 * 3600 * Time.second

/-- Digits, at least one, and a unit. -/
structure GrammarToken where
  digits : List Char
  unit : SwitchUnit
  digits_ne_nil : digits ≠ []
  isDigit : ∀ c ∈ digits, c.isDigit = true

def GrammarToken.number (token : GrammarToken) : Nat := Nat.ofDigitChars 10 token.digits 0

def GrammarToken.duration (token : GrammarToken) : Int := token.number * token.unit.length

def rowChars (tokens : List GrammarToken) : List Char :=
  tokens.flatMap fun token => token.digits ++ [token.unit.char]

/-- What the tokens say. -/
def rowDuration (tokens : List GrammarToken) : Int := (tokens.map GrammarToken.duration).sum

/-- The text is the row of these tokens, of which there is at least one. -/
def Spells (tokens : List GrammarToken) (scheduleDate : String) : Prop :=
  tokens ≠ [] ∧ String.ofList (rowChars tokens) = scheduleDate

def InGrammar (scheduleDate : String) : Prop := ∃ tokens, Spells tokens scheduleDate

/-- The tokens whose units the pattern matches. -/
def knownTokens (tokens : List GrammarToken) : List GrammarToken :=
  tokens.filter fun token => token.unit ≠ .week

/-- The switch knows the units, and the pattern all but one. -/
theorem SwitchUnit.known (unit : SwitchUnit) :
    unitDuration unit.char = some unit.length ∧ unit.char.isDigit = false ∧
      (unit.char ∈ patternUnits ↔ unit ≠ .week) := by
  cases unit <;> decide

theorem SwitchUnit.length_pos (unit : SwitchUnit) : 1 ≤ unit.length := by
  cases unit <;> decide

theorem rowChars_cons (token : GrammarToken) (tokens : List GrammarToken) :
    rowChars (token :: tokens) = token.digits ++ token.unit.char :: rowChars tokens := by
  simp [rowChars]

theorem rowDuration_cons (token : GrammarToken) (tokens : List GrammarToken) :
    rowDuration (token :: tokens) = token.duration + rowDuration tokens := by
  simp [rowDuration]

theorem GrammarToken.duration_nonneg (token : GrammarToken) : 0 ≤ token.duration := by
  have hlength := token.unit.length_pos
  exact Int.mul_nonneg (Int.natCast_nonneg _) (by omega)

/-- A token counts for nothing only if its number is zero. -/
theorem GrammarToken.duration_eq_zero_iff (token : GrammarToken) :
    token.duration = 0 ↔ token.number = 0 := by
  have hlength := token.unit.length_pos
  rw [GrammarToken.duration, Int.mul_eq_zero]
  omega

/-- The scan finds the tokens but those of weeks. -/
theorem findAllTokens_row (tokens : List GrammarToken) :
    findAllTokens [] (rowChars tokens) =
      (knownTokens tokens).map fun token => (token.digits, token.unit.char) := by
  induction tokens with
  | nil => rfl
  | cons token tokens ih =>
      obtain ⟨-, hdigit, hpattern⟩ := token.unit.known
      rw [rowChars_cons, findAllTokens_digits token.isDigit, List.nil_append, knownTokens]
      by_cases hweek : token.unit = .week
      · rw [findAllTokens_other hdigit (fun h => hpattern.mp h hweek),
          List.filter_cons_of_neg (by simp [hweek]), ih, knownTokens]
      · rw [findAllTokens_unit token.digits_ne_nil (hpattern.mpr hweek),
          List.filter_cons_of_pos (by simp [hweek]), List.map_cons, ih, knownTokens]

/-- A row adds up to its known tokens. -/
theorem matchedDuration_row {tokens : List GrammarToken} {scheduleDate : String}
    (hspells : Spells tokens scheduleDate) :
    matchedDuration scheduleDate = rowDuration (knownTokens tokens) := by
  rw [← hspells.2, matchedDuration, String.toList_ofList, findAllTokens_row, List.map_map,
    rowDuration]
  congr 1
  apply List.map_congr_left
  intro token _
  rw [Function.comp_apply, matchDuration, token.unit.known.1, Option.getD_some,
    GrammarToken.duration, GrammarToken.number]

/-- What is lost by the weeks. -/
theorem rowDuration_known (tokens : List GrammarToken) :
    rowDuration (knownTokens tokens) ≤ rowDuration tokens ∧
      (rowDuration (knownTokens tokens) = rowDuration tokens ↔
        ∀ token ∈ tokens, token.unit = .week → token.number = 0) := by
  induction tokens with
  | nil => simp [knownTokens]
  | cons token tokens ih =>
      obtain ⟨hle, hiff⟩ := ih
      have hnonneg := token.duration_nonneg
      have hzero := token.duration_eq_zero_iff
      by_cases hweek : token.unit = .week
      · have hknown : knownTokens (token :: tokens) = knownTokens tokens := by
          simp [knownTokens, hweek]
        rw [hknown, rowDuration_cons, List.forall_mem_cons]
        simp only [hweek, forall_const]
        rw [← hzero, ← hiff]
        omega
      · have hknown : knownTokens (token :: tokens) = token :: knownTokens tokens := by
          simp [knownTokens, hweek]
        rw [hknown, rowDuration_cons, rowDuration_cons, List.forall_mem_cons]
        simp only [hweek, false_implies, true_and]
        rw [← hiff]
        omega

/-- The units of the tokens stand in the text. -/
theorem unit_mem_of_spells {tokens : List GrammarToken} {scheduleDate : String}
    (hspells : Spells tokens scheduleDate) {token : GrammarToken} (htoken : token ∈ tokens) :
    token.unit.char ∈ scheduleDate.toList := by
  rw [← hspells.2, String.toList_ofList]
  exact List.mem_flatMap.mpr ⟨token, htoken, List.mem_append_right _ (List.mem_singleton_self _)⟩

/-- A text of the grammar has a digit. -/
theorem exists_digit_of_spells {tokens : List GrammarToken} {scheduleDate : String}
    (hspells : Spells tokens scheduleDate) : ∃ c ∈ scheduleDate.toList, c.isDigit = true := by
  obtain ⟨token, htoken⟩ := List.exists_mem_of_ne_nil _ hspells.1
  obtain ⟨c, hc⟩ := List.exists_mem_of_ne_nil _ token.digits_ne_nil
  refine ⟨c, ?_, token.isDigit c hc⟩
  rw [← hspells.2, String.toList_ofList]
  exact List.mem_flatMap.mpr ⟨token, htoken, List.mem_append_left _ hc⟩

/-! ## Reading a text as its row of tokens -/

/-- A text outside of the grammar is an error, and a row of tokens in range is
read as what it says. -/
structure ReadsGrammar (lib : Externals) (scheduleDate : String) (startDate : Option Time)
    (now : Time) : Prop where
  rejects : ¬ InGrammar scheduleDate →
    ∃ e, scheduleDuration lib scheduleDate startDate now = .error e
  sums : ∀ tokens, Spells tokens scheduleDate →
    waitingTime (scheduleStart startDate now) now + rowDuration tokens ≤ maxDuration →
    scheduleDuration lib scheduleDate startDate now =
      .ok (waitingTime (scheduleStart startDate now) now + rowDuration tokens)

/-- A text outside of the grammar holds a number that is too large, and a row of
tokens in range has no weeks that count. -/
structure GrammarServed (scheduleDate : String) (waiting : Int) : Prop where
  large : ¬ InGrammar scheduleDate → HoldsTooLarge scheduleDate.toList
  weeks : ∀ tokens, Spells tokens scheduleDate → waiting + rowDuration tokens ≤ maxDuration →
    ∀ token ∈ tokens, token.unit = .week → token.number = 0

/-- The result for a row of tokens in range is what is known of it. -/
theorem scheduleDuration_row {lib : Externals} {scheduleDate e : String}
    (hcron : lib.parseCron scheduleDate = .error e) (startDate : Option Time) (now : Time)
    {tokens : List GrammarToken} (hspells : Spells tokens scheduleDate)
    (hrange : waitingTime (scheduleStart startDate now) now + rowDuration tokens ≤ maxDuration) :
    scheduleDuration lib scheduleDate startDate now =
      .ok (waitingTime (scheduleStart startDate now) now + rowDuration (knownTokens tokens)) := by
  have hle := (rowDuration_known tokens).1
  rw [← matchedDuration_row hspells] at hle ⊢
  refine (scheduleDuration_of_date hcron startDate now).1 _ (durationFromDateString_of_fits ?_)
  exact Int.le_trans (Int.add_le_add_left hle _) hrange

/-- The result for a text is an error exactly if it holds a number that is too
large. -/
theorem scheduleDuration_error_iff {lib : Externals} {scheduleDate e : String}
    (hcron : lib.parseCron scheduleDate = .error e) (startDate : Option Time) (now : Time) :
    (∃ e', scheduleDuration lib scheduleDate startDate now = .error e') ↔
      HoldsTooLarge scheduleDate.toList := by
  obtain ⟨hok, hfails⟩ := scheduleDuration_of_date hcron startDate now
  constructor
  · rintro ⟨e', herror⟩
    by_contra hfits
    rw [hok _ (durationFromDateString_eq hfits _ now)] at herror
    cases herror
  · intro hlarge
    exact hfails ((durationFromDateString_error_iff _ _ now).mpr hlarge)

/-- Which texts are read as the grammar has them. -/
theorem readsGrammar_iff {lib : Externals} {scheduleDate e : String}
    (hcron : lib.parseCron scheduleDate = .error e) (startDate : Option Time) (now : Time) :
    ReadsGrammar lib scheduleDate startDate now ↔
      GrammarServed scheduleDate (waitingTime (scheduleStart startDate now) now) := by
  constructor
  · intro hreads
    refine ⟨fun hout => (scheduleDuration_error_iff hcron startDate now).mp (hreads.rejects hout),
      ?_⟩
    intro tokens hspells hrange
    have hresult := hreads.sums tokens hspells hrange
    rw [scheduleDuration_row hcron startDate now hspells hrange, Except.ok.injEq] at hresult
    exact (rowDuration_known tokens).2.mp (Int.add_left_cancel hresult)
  · intro hserved
    refine ⟨fun hout => (scheduleDuration_error_iff hcron startDate now).mpr (hserved.large hout),
      ?_⟩
    intro tokens hspells hrange
    rw [scheduleDuration_row hcron startDate now hspells hrange,
      (rowDuration_known tokens).2.mpr (hserved.weeks tokens hspells hrange)]

/-- One hour and a half is read as that. -/
theorem readsGrammar_hourAndHalf : ReadsGrammar Externals.plain "1h30m" none 0 := by
  have hin : InGrammar "1h30m" :=
    ⟨[⟨['1'], .hour, by simp, by simp⟩, ⟨['3', '0'], .minute, by simp, by simp⟩], by simp, rfl⟩
  refine (readsGrammar_iff rfl none 0).mpr ⟨fun hout => absurd hin hout, ?_⟩
  intro tokens hspells _ token htoken hweek
  have hchar := unit_mem_of_spells hspells htoken
  rw [hweek] at hchar
  simp [SwitchUnit.char] at hchar

/-- A week is read as nothing, and so is a text without any token. -/
theorem weeks_skipped :
    ¬ ReadsGrammar Externals.plain "1w" none 0 ∧
      ¬ ReadsGrammar Externals.plain "tomorrow" none 0 := by
  constructor
  · intro hreads
    have hresult := hreads.sums [⟨['1'], .week, by simp, by simp⟩] ⟨by simp, rfl⟩ (by decide)
    have hskipped : scheduleDuration Externals.plain "1w" none 0 = .ok 0 := by decide
    rw [hskipped] at hresult
    exact absurd hresult (by decide)
  · intro hreads
    have hout : ¬ InGrammar "tomorrow" := by
      rintro ⟨tokens, hspells⟩
      obtain ⟨c, hc, hdigit⟩ := exists_digit_of_spells hspells
      simp at hc
      rcases hc with rfl | rfl | rfl | rfl | rfl | rfl | rfl | rfl <;> cases hdigit
    obtain ⟨e, herror⟩ := hreads.rejects hout
    have hskipped : scheduleDuration Externals.plain "tomorrow" none 0 = .ok 0 := by decide
    rw [hskipped] at herror
    cases herror

end PipelineOperator.Api
