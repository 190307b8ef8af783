import Mathlib.Data.List.Basic

/-!
# Names with a hexadecimal tag

A generated name is a base followed by a dash and a number in lower-case
hexadecimal without padding.  The base may itself hold dashes and digits, so
the tag is found from the right: hexadecimal digits hold no dash, hence the
last dash of a tagged name is the one that was put in.

## Main results

* `append_sep_inj`: a word is cut in one way only at its last separator.
* `hex_inj`: different numbers are spelt differently.
* `tagged_inj`: a tagged name determines its base and its number.
-/

namespace PipelineOperator.Lib

/-! ## Cutting at the last separator -/

/-- If neither tail holds the separator, equal words have equal heads and
equal tails. -/
theorem append_sep_inj {α : Type*} {xs ys xs' ys' : List α} {sep : α}
    (hys : sep ∉ ys) (hys' : sep ∉ ys')
    (h : xs ++ sep :: ys = xs' ++ sep :: ys') : xs = xs' ∧ ys = ys' := by
  rcases List.append_eq_append_iff.mp h with ⟨as, hxs, htail⟩ | ⟨as, hxs, htail⟩
  · cases as with
    | nil =>
        have hcons := List.cons_eq_cons.mp htail
        exact ⟨by simpa using hxs.symm, hcons.2⟩
    | cons a as =>
        have hcons := List.cons_eq_cons.mp htail
        exact absurd (by simp [hcons.2]) hys
  · cases as with
    | nil =>
        have hcons := List.cons_eq_cons.mp htail
        exact ⟨by simpa using hxs, hcons.2.symm⟩
    | cons a as =>
        have hcons := List.cons_eq_cons.mp htail
        exact absurd (by simp [hcons.2]) hys'

/-! ## Hexadecimal digits -/

private theorem digitChar_inj {m n : Nat} (hm : m < 16) (hn : n < 16)
    (h : m.digitChar = n.digitChar) : m = n := by
  have hall : ∀ a b : Fin 16, a.val.digitChar = b.val.digitChar → a = b := by
    decide
  exact congrArg Fin.val (hall ⟨m, hm⟩ ⟨n, hn⟩ h)

private theorem digitChar_ne_dash {n : Nat} (hn : n < 16) : n.digitChar ≠ '-' := by
  have hall : ∀ a : Fin 16, a.val.digitChar ≠ '-' := by decide
  exact hall ⟨n, hn⟩

private theorem toDigits_small {n : Nat} (hn : n < 16) :
    Nat.toDigits 16 n = [n.digitChar] := by
  rw [Nat.toDigits_eq_if (by decide), if_pos hn]

private theorem toDigits_large {n : Nat} (hn : ¬ n < 16) :
    Nat.toDigits 16 n = Nat.toDigits 16 (n / 16) ++ [(n % 16).digitChar] := by
  rw [Nat.toDigits_eq_if (by decide), if_neg hn]

/-- The digits of a number hold no dash. -/
theorem dash_notMem_toDigits (n : Nat) : '-' ∉ Nat.toDigits 16 n := by
  induction n using Nat.strongRecOn with
  | ind n ih =>
      by_cases hn : n < 16
      · rw [toDigits_small hn]
        simp [(digitChar_ne_dash hn).symm]
      · rw [toDigits_large hn, List.mem_append]
        rintro (hmem | hmem)
        · exact ih (n / 16) (by omega) hmem
        · have hlast : n % 16 < 16 := Nat.mod_lt _ (by decide)
          exact digitChar_ne_dash hlast (List.mem_singleton.mp hmem).symm

/-- Different numbers have different digits. -/
theorem toDigits_inj {m n : Nat} (h : Nat.toDigits 16 m = Nat.toDigits 16 n) :
    m = n := by
  induction m using Nat.strongRecOn generalizing n with
  | ind m ih =>
      by_cases hm : m < 16
      · by_cases hn : n < 16
        · rw [toDigits_small hm, toDigits_small hn] at h
          exact digitChar_inj hm hn (List.singleton_inj.mp h)
        · rw [toDigits_small hm, toDigits_large hn] at h
          have hlen := congrArg List.length h
          have hpos : 0 < (Nat.toDigits 16 (n / 16)).length := Nat.length_toDigits_pos
          simp only [List.length_append, List.length_singleton] at hlen
          omega
      · by_cases hn : n < 16
        · rw [toDigits_large hm, toDigits_small hn] at h
          have hlen := congrArg List.length h
          have hpos : 0 < (Nat.toDigits 16 (m / 16)).length := Nat.length_toDigits_pos
          simp only [List.length_append, List.length_singleton] at hlen
          omega
        · rw [toDigits_large hm, toDigits_large hn] at h
          have hparts := List.append_inj' h rfl
          have hhigh : m / 16 = n / 16 := ih (m / 16) (by omega) hparts.1
          have hlow : m % 16 = n % 16 :=
            digitChar_inj (Nat.mod_lt _ (by decide)) (Nat.mod_lt _ (by decide))
              (List.singleton_inj.mp hparts.2)
          omega

/-- A number in lower-case hexadecimal, without padding. -/
def hex (n : Nat) : String := String.ofList (Nat.toDigits 16 n)

@[simp] theorem toList_hex (n : Nat) : (hex n).toList = Nat.toDigits 16 n := by
  simp [hex]

theorem hex_inj {m n : Nat} (h : hex m = hex n) : m = n := by
  have hchars := congrArg String.toList h
  rw [toList_hex, toList_hex] at hchars
  exact toDigits_inj hchars

/-! ## Tagged names -/

/-- The name `base-hex`. -/
def tagged (base : String) (n : Nat) : String := base ++ "-" ++ hex n

theorem toList_tagged (base : String) (n : Nat) :
    (tagged base n).toList = base.toList ++ '-' :: Nat.toDigits 16 n := by
  simp [tagged]

/-- The base and the number of a tagged name are read off it. -/
theorem tagged_inj {base base' : String} {m n : Nat}
    (h : tagged base m = tagged base' n) : base = base' ∧ m = n := by
  have hchars := congrArg String.toList h
  rw [toList_tagged, toList_tagged] at hchars
  have hparts := append_sep_inj (dash_notMem_toDigits m) (dash_notMem_toDigits n) hchars
  exact ⟨String.toList_inj.mp hparts.1, toDigits_inj hparts.2⟩

end PipelineOperator.Lib
