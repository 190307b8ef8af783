import Mathlib.Data.List.Basic
import Mathlib.Data.List.Nodup

/-!
# Lists whose entries have different keys

A store lists its objects in some order, and no two of them have the same
key.  Looking up a key, selecting by a property that only one object has, and
replacing the object of a key are then independent of that order.

## Main results

* `Keyed.eq_of_key`: entries with equal keys are equal.
* `Keyed.find?_eq`: looking up the key of an entry finds that entry.
* `Keyed.filter_eq_singleton`: a selection that admits one key only.
* `Keyed.map`, `Keyed.concat`: what keeps the keys different.
* `find?_map_kept`: lookups in a list whose entries have changed in what they do
  not test.
* `exists_of_map_eq`, `Keyed.of_map_eq`: two lists with the same images.
-/

namespace PipelineOperator.Lib

variable {α κ : Type} {key : α → κ}

/-- No two entries have the same key. -/
def Keyed (key : α → κ) (l : List α) : Prop := (l.map key).Nodup

instance [DecidableEq κ] (l : List α) : Decidable (Keyed key l) :=
  inferInstanceAs (Decidable (l.map key).Nodup)

theorem Keyed.eq_of_key {l : List α} (h : Keyed key l) {a b : α} (ha : a ∈ l)
    (hb : b ∈ l) (hkey : key a = key b) : a = b :=
  List.inj_on_of_nodup_map h ha hb hkey

theorem Keyed.nodup {l : List α} (h : Keyed key l) : l.Nodup := List.Nodup.of_map key h

/-- A lookup by a test that singles out the key of an entry. -/
theorem Keyed.find?_eq {l : List α} (h : Keyed key l) {a : α} (ha : a ∈ l)
    {p : α → Bool} (hp : p a = true) (honly : ∀ b ∈ l, p b = true → key b = key a) :
    l.find? p = some a := by
  cases hfind : l.find? p with
  | none => exact absurd hp (by simpa using List.find?_eq_none.mp hfind a ha)
  | some b =>
      have hb := List.mem_of_find?_eq_some hfind
      rw [h.eq_of_key hb ha (honly b hb (List.find?_some hfind))]

/-- A selection that admits the key of one entry only. -/
theorem Keyed.filter_eq_singleton {l : List α} (h : Keyed key l) {a : α} (ha : a ∈ l)
    {p : α → Bool} (hp : p a = true) (honly : ∀ b ∈ l, p b = true → key b = key a) :
    l.filter p = [a] := by
  have hmem : ∀ b ∈ l.filter p, b = a := by
    intro b hb
    obtain ⟨hbl, hbp⟩ := List.mem_filter.mp hb
    exact h.eq_of_key hbl ha (honly b hbl hbp)
  have hin : a ∈ l.filter p := List.mem_filter.mpr ⟨ha, hp⟩
  have hnodup : (l.filter p).Nodup := h.nodup.filter p
  cases hl : l.filter p with
  | nil => simp [hl] at hin
  | cons b rest =>
      rw [hl] at hmem hnodup
      have hb : b = a := hmem b (by simp)
      cases rest with
      | nil => rw [hb]
      | cons c rest =>
          have hc : c = a := hmem c (by simp)
          simp [hb, hc] at hnodup

/-- Changing entries without touching their keys. -/
theorem Keyed.map {l : List α} (h : Keyed key l) {f : α → α}
    (hf : ∀ a ∈ l, key (f a) = key a) : Keyed key (l.map f) := by
  have hkeys : (l.map f).map key = l.map key := by
    simpa only [List.map_map, Function.comp_def] using List.map_congr_left hf
  simpa only [Keyed, hkeys] using h

/-- Adding an entry with a new key at the end. -/
theorem Keyed.concat {l : List α} (h : Keyed key l) {a : α}
    (hnew : ∀ b ∈ l, key b ≠ key a) : Keyed key (l ++ [a]) := by
  rw [Keyed, List.map_append, List.nodup_append]
  refine ⟨h, by simp, ?_⟩
  intro x hx y hy
  obtain ⟨b, hb, rfl⟩ := List.mem_map.mp hx
  have hya : y = key a := by simpa using hy
  rw [hya]
  exact hnew b hb

/-- A lookup in a list whose entries have changed in what it does not test. -/
theorem find?_map_kept {l : List α} {p : α → Bool} {f : α → α} (hf : ∀ a, p (f a) = p a) :
    (l.map f).find? p = (l.find? p).map f := by
  have htest : p ∘ f = p := funext hf
  rw [List.find?_map, htest]

section Images

variable {β : Type} {image : α → β} {l l' : List α}

/-- An entry of one list has a counterpart in another one with the same images. -/
theorem exists_of_map_eq (himages : l'.map image = l.map image) {a : α} (ha : a ∈ l) :
    ∃ b ∈ l', image b = image a := by
  have hmem : image a ∈ l'.map image := himages ▸ List.mem_map_of_mem ha
  exact List.mem_map.mp hmem

/-- Keys that are read off the images stay different. -/
theorem Keyed.of_map_eq (h : Keyed key l) (himages : l'.map image = l.map image) (read : β → κ)
    (hread : ∀ a, read (image a) = key a) : Keyed key l' := by
  have hkeys : ∀ entries : List α, entries.map key = (entries.map image).map read := by
    intro entries
    rw [List.map_map]
    exact List.map_congr_left fun a _ => (hread a).symm
  rw [Keyed, hkeys, himages, ← hkeys]
  exact h

end Images

end PipelineOperator.Lib
