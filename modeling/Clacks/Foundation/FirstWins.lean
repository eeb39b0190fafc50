import Mathlib.Data.List.Induction
import Mathlib.Logic.Function.Basic

/-!
# First-writer-wins maps

A map that keeps the first value written for each key, and a list of entries that
holds such a map: one entry for each key that has a value.

Main results:

- Theorem {lit}`firstWrites_eq_find`: the value of a key after a history is the one
  its first write gave.
- Theorem {lit}`Holds.append`: appending an entry for a new key is a write.
- Theorem {lit}`Holds.filter_eq_of_extends`: a table that only grows never changes the
  entry of a key.
-/

namespace Clacks
namespace Foundation

variable {κ ν ε : Type*} [DecidableEq κ]

/-! ## The abstract map -/

/-- A write gives the key a value unless it has one. -/
def writeFirst (m : κ → Option ν) (k : κ) (v : ν) : κ → Option ν :=
  Function.update m k (some ((m k).getD v))

/-- The map after a history of writes, in order. -/
def firstWrites (history : List (κ × ν)) : κ → Option ν :=
  history.foldl (fun m w => writeFirst m w.1 w.2) fun _ => none

theorem writeFirst_of_some {m : κ → Option ν} {k : κ} {v : ν} (h : m k = some v) (v' : ν) :
    writeFirst m k v' = m := by
  unfold writeFirst
  rw [h, Option.getD_some, ← h, Function.update_eq_self]

theorem writeFirst_of_none {m : κ → Option ν} {k : κ} (h : m k = none) (v : ν) :
    writeFirst m k v = Function.update m k (some v) := by
  unfold writeFirst
  rw [h, Option.getD_none]

@[simp]
theorem firstWrites_append (history : List (κ × ν)) (w : κ × ν) :
    firstWrites (history ++ [w]) = writeFirst (firstWrites history) w.1 w.2 := by
  simp [firstWrites]

/-- The value of a key is the one its first write gave. -/
theorem firstWrites_eq_find (history : List (κ × ν)) (k : κ) :
    firstWrites history k = (history.find? (·.1 = k)).map Prod.snd := by
  induction history using List.reverseRecOn with
  | nil => simp [firstWrites]
  | append_singleton history w ih =>
      rw [firstWrites_append, List.find?_append]
      by_cases hk : w.1 = k
      · subst hk
        cases hfind : history.find? (·.1 = w.1) with
        | none =>
            rw [hfind] at ih
            simp [writeFirst_of_none ih]
        | some first =>
            rw [hfind] at ih
            simp [writeFirst_of_some ih, ih]
      · have hsame : writeFirst (firstWrites history) w.1 w.2 k = firstWrites history k := by
          unfold writeFirst
          exact Function.update_of_ne (Ne.symm hk) _ _
        rw [hsame, ih]
        simp [hk]

/-! ## Tables that hold a map -/

/-- The entries hold the map: a key with a value has exactly one entry, which carries
that value, and a key without one has none. -/
def Holds (key : ε → κ) (value : ε → ν) (entries : List ε) (m : κ → Option ν) : Prop :=
  ∀ k, (entries.filter (key · = k)).map value = (m k).toList

section Holds

variable {key : ε → κ} {value : ε → ν} {entries : List ε} {m : κ → Option ν}

theorem holds_nil : Holds key value [] fun _ => none := by
  intro k
  rfl

/-- A table without an entry for the new entry's key performs a write by appending it. -/
theorem Holds.append (h : Holds key value entries m) {e : ε} (hnew : m (key e) = none) :
    Holds key value (entries ++ [e]) (writeFirst m (key e) (value e)) := by
  intro k
  rw [writeFirst_of_none hnew, List.filter_append, List.map_append, h k]
  by_cases hk : key e = k
  · subst hk
    simp [hnew]
  · simp [hk, Function.update_of_ne (Ne.symm hk)]

/-- The entry of a key that has a value. -/
theorem Holds.exists_entry (h : Holds key value entries m) {k : κ} {v : ν} (hk : m k = some v) :
    ∃ e, entries.filter (key · = k) = [e] ∧ value e = v := by
  have hone := h k
  rw [hk, Option.toList_some] at hone
  exact List.map_eq_singleton_iff.1 hone

/-- The entries of a key that has no value. -/
theorem Holds.no_entry (h : Holds key value entries m) {k : κ} (hk : m k = none) :
    entries.filter (key · = k) = [] := by
  have hnone := h k
  rw [hk, Option.toList_none] at hnone
  exact List.map_eq_nil_iff.1 hnone

theorem Holds.exists_key_iff (h : Holds key value entries m) (k : κ) :
    (∃ e ∈ entries, key e = k) ↔ m k ≠ none := by
  constructor
  · intro h' hnone
    rcases h' with ⟨e, he, hk⟩
    have hmem : e ∈ entries.filter (key · = k) := List.mem_filter.2 ⟨he, by simpa using hk⟩
    rw [h.no_entry hnone] at hmem
    exact List.not_mem_nil hmem
  · intro hsome
    rcases Option.ne_none_iff_exists'.1 hsome with ⟨v, hv⟩
    rcases h.exists_entry hv with ⟨e, hfilter, _⟩
    have hmem : e ∈ entries.filter (key · = k) := by simp [hfilter]
    rw [List.mem_filter] at hmem
    exact ⟨e, hmem.1, by simpa using hmem.2⟩

/-- An entry of an earlier table that this one extends is still the entry of its key. -/
theorem Holds.filter_eq_of_extends (h : Holds key value entries m) {earlier : List ε}
    (hfront : earlier <+: entries) {k : κ} {e : ε} (he : earlier.filter (key · = k) = [e]) :
    entries.filter (key · = k) = [e] := by
  rcases hfront with ⟨added, rfl⟩
  have hlen := congrArg List.length (h k)
  rw [List.filter_append, he] at hlen ⊢
  have hle : (m k).toList.length ≤ 1 := by cases m k <;> simp
  have hnil : added.filter (key · = k) = [] := by
    apply List.eq_nil_of_length_eq_zero
    simp only [List.map_append, List.length_append, List.length_map, List.length_singleton] at hlen
    omega
  rw [hnil, List.append_nil]

end Holds

end Foundation
end Clacks
