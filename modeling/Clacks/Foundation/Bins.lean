import Mathlib.Algebra.BigOperators.Group.List.Basic
import Mathlib.Algebra.BigOperators.Intervals
import Mathlib.Algebra.Order.BigOperators.Group.Finset
import Mathlib.Data.List.Perm.Basic

/-!
# Bins

A list whose elements are sorted into numbered bins.

Main results:

- Theorem {lit}`perm_flatMap_bins`: the bins one after another are the list in another
  order.
- Theorem {lit}`sum_length_bins`: their lengths add up to its length.
- Theorem {lit}`sum_excess_concat`: what one more element adds to the elements beyond a
  bound.
-/

namespace Clacks
namespace Foundation

variable {α : Type}

/-- The elements of bin {lit}`b`. -/
def bin (place : α → Nat) (xs : List α) (b : Nat) : List α :=
  xs.filter fun x => place x = b

variable {place : α → Nat} {xs : List α} {n b : Nat}

@[simp]
theorem mem_bin {x : α} : x ∈ bin place xs b ↔ x ∈ xs ∧ place x = b := by
  simp [bin]

@[simp]
theorem bin_nil : bin place [] b = [] :=
  rfl

theorem bin_append (xs ys : List α) : bin place (xs ++ ys) b = bin place xs b ++ bin place ys b :=
  List.filter_append _ _

theorem bin_singleton (x : α) : bin place [x] b = if place x = b then [x] else [] := by
  by_cases h : place x = b
  · simp [bin, h]
  · simp [bin, h]

theorem length_bin_le : (bin place xs b).length ≤ xs.length :=
  List.length_filter_le _ _

/-- The bins one after another are the list in another order. -/
theorem perm_flatMap_bins (h : ∀ x ∈ xs, place x < n) :
    ((List.range n).flatMap (bin place xs)).Perm xs := by
  -- Bins below n hold the elements placed below n; induction on n.
  have hall : ∀ n, ((List.range n).flatMap (bin place xs)).Perm
      (xs.filter fun x => place x < n) := by
    intro n
    induction n with
    | zero => simp
    | succ n ih =>
        rw [List.range_succ, List.flatMap_append, List.flatMap_singleton]
        have hbelow : (xs.filter fun x => place x < n + 1).filter (fun x => place x < n) =
            xs.filter fun x => place x < n := by
          rw [List.filter_filter]
          apply List.filter_congr
          intro x _
          have hle : place x < n → place x < n + 1 := Nat.lt_succ_of_lt
          simpa using hle
        have hlast : (xs.filter fun x => place x < n + 1).filter (fun x => !decide (place x < n)) =
            bin place xs n := by
          rw [List.filter_filter]
          apply List.filter_congr
          intro x _
          simp only [← decide_not, ← Bool.decide_and, decide_eq_decide]
          omega
        have hsplit := List.filter_append_perm (fun x => decide (place x < n))
          (xs.filter fun x => place x < n + 1)
        rw [hbelow, hlast] at hsplit
        exact (ih.append_right _).trans hsplit
  have hsame : (xs.filter fun x => decide (place x < n)) = xs := by
    rw [List.filter_eq_self]
    intro x hx
    simpa using h x hx
  have hn := hall n
  rwa [hsame] at hn

/-- The lengths of the bins add up. -/
theorem sum_length_bins (h : ∀ x ∈ xs, place x < n) :
    ∑ b ∈ Finset.range n, (bin place xs b).length = xs.length := by
  have hperm := (perm_flatMap_bins h).length_eq
  rw [List.length_flatMap] at hperm
  rw [← hperm]
  rfl

theorem length_bin_concat (x : α) :
    (bin place (xs ++ [x]) b).length = (bin place xs b).length + if b = place x then 1 else 0 := by
  rw [bin_append, bin_singleton, List.length_append]
  by_cases h : place x = b
  · simp [h]
  · simp [h, Ne.symm h]

/-- One more element adds to the elements beyond a bound when its bin has reached it. -/
theorem sum_excess_concat {x : α} (hx : place x < n) (bound : Nat) :
    ∑ b ∈ Finset.range n, ((bin place (xs ++ [x]) b).length - bound) =
      ∑ b ∈ Finset.range n, ((bin place xs b).length - bound) +
        if bound ≤ (bin place xs (place x)).length then 1 else 0 := by
  have hterm : ∀ b, (bin place (xs ++ [x]) b).length - bound =
      ((bin place xs b).length - bound) +
        if b = place x then (if bound ≤ (bin place xs (place x)).length then 1 else 0) else 0 := by
    intro b
    rw [length_bin_concat]
    by_cases hb : b = place x
    · subst hb
      by_cases hle : bound ≤ (bin place xs (place x)).length
      · simp only [hle, if_true]
        omega
      · simp only [hle, if_true, if_false]
        omega
    · simp [hb]
  simp only [hterm, Finset.sum_add_distrib, Finset.sum_ite_eq', Finset.mem_range, hx, if_true]

end Foundation
end Clacks
