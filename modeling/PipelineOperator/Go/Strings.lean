import PipelineOperator.Lib.Segments
import PipelineOperator.Lib.Tagged
import Mathlib.Data.List.Sort

/-!
# Strings as Go handles them

The functions of `strings` and `strconv` that the operator calls, and the
parts of `fmt`'s `%v` verb: how a struct, a slice, a map and a pointer are
printed.
-/

namespace PipelineOperator.Go

open PipelineOperator.Lib

/-! ## Package `strings` -/

def hasPrefix (s start : String) : Bool := start.toList.isPrefixOf s.toList

def trimPrefix (s start : String) : String :=
  if hasPrefix s start then String.ofList (s.toList.drop start.length) else s

def trimSuffix (s tail : String) : String :=
  if tail.toList.isSuffixOf s.toList then
    String.ofList (s.toList.take (s.length - tail.length))
  else s

/-- The words between the separators, of which there is always at least one. -/
def splitChars (sep : Char) : List Char → List (List Char)
  | [] => [[]]
  | c :: cs =>
      if c = sep then [] :: splitChars sep cs
      else match splitChars sep cs with
        | [] => [[c]]
        | word :: words => (c :: word) :: words

/-- `strings.Split` with a separator of one character. -/
def split (s : String) (sep : Char) : List String :=
  (splitChars sep s.toList).map String.ofList

theorem splitChars_of_notMem {sep : Char} {cs : List Char} (hsep : sep ∉ cs) :
    splitChars sep cs = [cs] := by
  induction cs with
  | nil => rfl
  | cons c cs ih =>
      have hne : c ≠ sep := fun h => hsep (h ▸ List.mem_cons_self)
      rw [splitChars, if_neg hne, ih fun h => hsep (List.mem_cons_of_mem _ h)]

/-- What stands before the first separator is the first word. -/
theorem splitChars_append_sep {sep : Char} {cs : List Char} (hsep : sep ∉ cs) (rest : List Char) :
    splitChars sep (cs ++ sep :: rest) = cs :: splitChars sep rest := by
  induction cs with
  | nil => rw [List.nil_append, splitChars, if_pos rfl]
  | cons c cs ih =>
      have hne : c ≠ sep := fun h => hsep (h ▸ List.mem_cons_self)
      rw [List.cons_append, splitChars, if_neg hne, ih fun h => hsep (List.mem_cons_of_mem _ h)]

theorem split_of_notMem {s : String} {sep : Char} (hsep : sep ∉ s.toList) :
    split s sep = [s] := by
  simp [split, splitChars_of_notMem hsep]

theorem split_append_slash {s : String} (hslash : '/' ∉ s.toList) (rest : String) :
    split (s ++ "/" ++ rest) '/' = s :: split rest '/' := by
  have hlist : (s ++ "/" ++ rest).toList = s.toList ++ '/' :: rest.toList := by simp
  simp [split, hlist, splitChars_append_sep hslash]

/-- A single trim takes at most one slash off the end, so one that stands
further left stays. -/
theorem trimSuffix_append_slash (s rest : String) :
    trimSuffix (s ++ "/" ++ rest) "/" = s ∨
      ∃ rest', trimSuffix (s ++ "/" ++ rest) "/" = s ++ "/" ++ rest' := by
  have hlist : (s ++ "/" ++ rest).toList = s.toList ++ '/' :: rest.toList := by simp
  have hlast : (s ++ "/" ++ rest).toList.take ((s ++ "/" ++ rest).length - "/".length) =
      s.toList ++ ('/' :: rest.toList).dropLast := by
    rw [← String.length_toList, hlist, show "/".length = 1 from rfl,
      ← List.dropLast_eq_take, List.dropLast_append_of_ne_nil (List.cons_ne_nil _ _)]
  unfold trimSuffix
  rw [hlast]
  split
  · cases hrest : rest.toList with
    | nil => exact .inl (by simp)
    | cons c cs =>
        right
        use String.ofList (c :: cs).dropLast
        rw [List.dropLast_cons_of_ne_nil (List.cons_ne_nil c cs)]
        simp [← String.toList_inj]
  · exact .inr ⟨rest, rfl⟩

/-- A text that starts with another character keeps its start. -/
theorem trimPrefix_slash_of_head {s : String} (hhead : s.toList.head? ≠ some '/') :
    trimPrefix s "/" = s := by
  have hno : hasPrefix s "/" = false := by
    unfold hasPrefix
    cases hs : s.toList with
    | nil => rfl
    | cons c cs =>
        have hne : '/' ≠ c := fun h => hhead (by rw [hs, h]; rfl)
        simp [List.isPrefixOf, hne]
  rw [trimPrefix, hno, if_neg Bool.false_ne_true]

/-! ### Characters -/

theorem hasPrefix_slash (s : String) : hasPrefix s "/" = true ↔ s.toList.head? = some '/' := by
  unfold hasPrefix
  cases s.toList with
  | nil => simp
  | cons c cs =>
      rw [List.head?_cons, Option.some_inj]
      simp only [show "/".toList = ['/'] from rfl, List.isPrefixOf, Bool.and_true, beq_iff_eq]
      exact eq_comm

theorem toList_trimPrefix_slash (s : String) :
    (trimPrefix s "/").toList = trimHead '/' s.toList := by
  unfold trimPrefix trimHead
  by_cases hslash : s.toList.head? = some '/'
  · rw [if_pos ((hasPrefix_slash s).mpr hslash), if_pos hslash, String.toList_ofList,
      ← List.drop_one]
    rfl
  · rw [if_neg (mt (hasPrefix_slash s).mp hslash), if_neg hslash]

theorem isSuffixOf_slash (s : String) :
    "/".toList.isSuffixOf s.toList = true ↔ s.toList.getLast? = some '/' := by
  rw [List.isSuffixOf_iff_suffix]
  constructor
  · rintro ⟨front, hfront⟩
    rw [← hfront]
    exact List.getLast?_concat
  · intro hlast
    exact ⟨s.toList.dropLast, List.dropLast_append_getLast? '/' hlast⟩

theorem toList_trimSuffix_slash (s : String) :
    (trimSuffix s "/").toList = trimLast '/' s.toList := by
  unfold trimSuffix trimLast
  by_cases hslash : s.toList.getLast? = some '/'
  · rw [if_pos ((isSuffixOf_slash s).mpr hslash), if_pos hslash, String.toList_ofList,
      List.dropLast_eq_take, String.length_toList]
    rfl
  · rw [if_neg (mt (isSuffixOf_slash s).mp hslash), if_neg hslash]

theorem splitChars_eq_splitOn (sep : Char) (cs : List Char) :
    splitChars sep cs = cs.splitOn sep := by
  induction cs with
  | nil => rfl
  | cons c cs ih =>
      rw [splitChars, List.splitOn_cons_eq_if_modifyHead, ih]
      by_cases hc : c = sep
      · rw [if_pos hc, if_pos (by simpa using hc)]
      · rw [if_neg hc, if_neg (by simpa using hc)]
        cases hwords : cs.splitOn sep with
        | nil => exact absurd hwords (List.splitOn_ne_nil sep cs)
        | cons word words => rfl

/-- No part of a split text is empty. -/
theorem empty_notMem_split {s : String} {sep : Char} :
    "" ∉ split s sep ↔ Solid sep s.toList := by
  rw [split, splitChars_eq_splitOn, Solid, not_iff_not, List.mem_map]
  constructor
  · rintro ⟨word, hword, hempty⟩
    rwa [← String.ofList_eq_empty_iff.mp hempty]
  · intro hempty
    exact ⟨[], hempty, rfl⟩

/-- `strings.SplitN(s, sep, 2)[0]`: what stands before the first separator. -/
def beforeFirst (s : String) (sep : Char) : String :=
  String.ofList (s.toList.takeWhile fun c => c ≠ sep)

/-- The parts one after another, with a separator between them. -/
def join : List String → String → String
  | [], _ => ""
  | [part], _ => part
  | part :: parts, sep => part ++ (sep ++ join parts sep)

/-- Joining what has been split gives the text back. -/
theorem toList_join_splitChars (cs : List Char) :
    (join ((splitChars '/' cs).map String.ofList) "/").toList = cs := by
  have hjoin : ∀ words : List (List Char),
      (join (words.map String.ofList) "/").toList = ['/'].intercalate words := by
    intro words
    induction words with
    | nil => rfl
    | cons word words ih =>
        cases words with
        | nil => simp [join]
        | cons next rest =>
            rw [List.map_cons, List.map_cons, join, ← List.map_cons, String.toList_append,
              String.toList_append, ih]
            · simp
            · simp
  rw [hjoin, splitChars_eq_splitOn, List.intercalate_splitOn]

/-! ## Package `strconv` -/

/-- `strconv.ParseBool`; `none` is its syntax error. -/
def parseBool (s : String) : Option Bool :=
  if s ∈ ["1", "t", "T", "TRUE", "true", "True"] then some true
  else if s ∈ ["0", "f", "F", "FALSE", "false", "False"] then some false
  else none

def formatBool (b : Bool) : String := if b then "true" else "false"

@[simp] theorem parseBool_formatBool (b : Bool) : parseBool (formatBool b) = some b := by
  cases b <;> decide

/-! ## The `%v` verb of package `fmt` -/

/-- The parts of a struct or a slice, separated by single spaces. -/
def spaced (parts : List String) : String := join parts " "

def fmtStruct (fields : List String) : String := "\x7b" ++ (spaced fields ++ "\x7d")

def fmtSlice (items : List String) : String := "[" ++ (spaced items ++ "]")

/-- A map of strings, in the order of its keys. -/
def fmtMap (entries : List (String × String)) : String :=
  let sorted := entries.insertionSort fun a b => a.1 ≤ b.1
  "map[" ++ (spaced (sorted.map fun entry => entry.1 ++ ":" ++ entry.2) ++ "]")

/-- A pointer whose type has no `String` method: its address. -/
def fmtPointer (address : Option Nat) : String :=
  match address with
  | none => "<nil>"
  | some a => "0x" ++ hex a

end PipelineOperator.Go
