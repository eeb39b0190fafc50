import Clacks.Foundation.Monitor

/-!
# A handle in a static variable

A routine that is called again and again keeps a handle in a variable: it asks for one
when the variable is empty, and works on the one it has otherwise.

Main results:

- Theorems {lit}`Slot.verified_other`, {lit}`Slot.verified_use` and
  {lit}`Slot.verified_ask`: the rules for one operation.
- Theorem {lit}`Slot.brought_once`: a handle is obtained at most once in a run.
- Theorem {lit}`Slot.uses_brought`: every use is of this handle, and comes with a step
  that obtained it.
-/

namespace Clacks
namespace Foundation

open Program

/-- What the operations of a routine have to do with the variable: which of them ask for
a handle, what handle an answer brought, and on what the others work. -/
structure Slot (Op : Type) (Ans : Op → Type) (H : Type) where
  asks : Op → Bool
  brought : Event Op Ans → Option H
  uses : Op → Option (Option H)
  brought_asked : ∀ e, brought e ≠ none → asks e.1 = true

namespace Slot

variable {Op : Type} {Ans : Op → Type} {H : Type} (S : Slot Op Ans H)

/-- The monitor of such a routine; its state is the variable. -/
def monitor : Monitor Op Ans (Option H) where
  allows s op := (S.asks op = true → s = none) ∧
    ∀ handle, S.uses op = some handle → handle ≠ none ∧ handle = s
  expects _ _ := True
  next s e := s.or (S.brought e)

variable {S} {s : Option H} {events : List (Event Op Ans)}

/-- Nothing is expected of the environment. -/
theorem expected : S.monitor.Expected s events := by
  induction events generalizing s with
  | nil => trivial
  | cons e events ih => exact ⟨trivial, ih⟩

/-! ## Verification -/

section Verified

variable {α : Type} {post : α → Option H → Prop} {op : Op} {k : Ans op → Program Op Ans α}

theorem next_of_not_asked (hasks : S.asks op = false) (answer : Ans op) :
    S.monitor.next s ⟨op, answer⟩ = s := by
  have hbrought : S.brought ⟨op, answer⟩ = none := by
    by_contra hne
    have hasked := S.brought_asked _ hne
    rw [hasks] at hasked
    cases hasked
  simp [monitor, hbrought]

/-- An operation that has nothing to do with the variable. -/
theorem verified_other (hasks : S.asks op = false) (huses : S.uses op = none)
    (hrest : ∀ answer, S.monitor.Verified post (k answer) s) :
    S.monitor.Verified post (.ask op k) s := by
  constructor
  · simp [monitor, hasks, huses]
  · intro answer _
    rw [next_of_not_asked hasks]
    exact hrest answer

/-- An operation on the handle in the variable. -/
theorem verified_use {h : H} (hasks : S.asks op = false) (huses : S.uses op = some (some h))
    (hrest : ∀ answer, S.monitor.Verified post (k answer) (some h)) :
    S.monitor.Verified post (.ask op k) (some h) := by
  constructor
  · simp [monitor, hasks, huses]
  · intro answer _
    rw [next_of_not_asked hasks]
    exact hrest answer

/-- An operation that asks for a handle while the variable is empty. -/
theorem verified_ask (huses : S.uses op = none)
    (hrest : ∀ answer, S.monitor.Verified post (k answer) (S.brought ⟨op, answer⟩)) :
    S.monitor.Verified post (.ask op k) none := by
  constructor
  · simp [monitor, huses]
  · intro answer _
    exact hrest answer

end Verified

/-! ## Runs -/

/-- A handle in the variable stays there. -/
theorem after_some (h : H) : S.monitor.after (some h) events = some h := by
  induction events with
  | nil => rfl
  | cons e events ih => exact ih

/-- A handle is obtained at most once, and not at all when there is one already. -/
theorem brought_le (hallowed : S.monitor.Allowed s events) :
    events.countP (fun e => (S.brought e).isSome) + s.toList.length ≤ 1 := by
  induction events generalizing s with
  | nil => cases s <;> simp
  | cons e events ih =>
      have hrest := ih hallowed.2
      rw [List.countP_cons]
      cases hbrought : S.brought e with
      | none =>
          have hnext : S.monitor.next s e = s := by simp [monitor, hbrought]
          rw [hnext] at hrest
          simpa using hrest
      | some h =>
          have hempty : s = none := hallowed.1.1 (S.brought_asked e (by simp [hbrought]))
          have hnext : S.monitor.next s e = some h := by simp [monitor, hbrought, hempty]
          rw [hnext] at hrest
          simpa [hempty] using hrest

/-- From an empty variable, a handle is obtained at most once. -/
theorem brought_once (hallowed : S.monitor.Allowed none events) :
    events.countP (fun e => (S.brought e).isSome) ≤ 1 := by
  simpa using brought_le hallowed

theorem uses_after (hallowed : S.monitor.Allowed s events) {e : Event Op Ans} (he : e ∈ events)
    {handle : Option H} (huses : S.uses e.1 = some handle) :
    handle ≠ none ∧ handle = S.monitor.after s events ∧
      (handle = s ∨ ∃ e' ∈ events, S.brought e' = handle) := by
  induction events generalizing s with
  | nil => cases he
  | cons e' events ih =>
      rcases List.mem_cons.1 he with rfl | he
      · rcases hallowed.1.2 handle huses with ⟨hne, hs⟩
        rcases Option.ne_none_iff_exists'.1 hne with ⟨h, hsome⟩
        have hnext : S.monitor.next s e = some h := by simp [monitor, ← hs, hsome]
        refine ⟨hne, ?_, .inl hs⟩
        rw [Monitor.after_cons, hnext, after_some, hsome]
      · rcases ih hallowed.2 he with ⟨hne, hafter, hsource⟩
        refine ⟨hne, hafter, ?_⟩
        rcases hsource with hnext | ⟨e'', he'', hbrought⟩
        · cases s with
          | some h => exact .inl (by simpa [monitor] using hnext)
          | none => exact .inr ⟨e', List.mem_cons_self, by simpa [monitor] using hnext.symm⟩
        · exact .inr ⟨e'', List.mem_cons_of_mem _ he'', hbrought⟩

/-- From an empty variable, every use is of the handle that was obtained. -/
theorem uses_brought (hallowed : S.monitor.Allowed none events) {e : Event Op Ans}
    (he : e ∈ events) {handle : Option H} (huses : S.uses e.1 = some handle) :
    handle ≠ none ∧ handle = S.monitor.after none events ∧
      ∃ e' ∈ events, S.brought e' = handle := by
  rcases uses_after hallowed he huses with ⟨hne, hafter, hsource⟩
  refine ⟨hne, hafter, ?_⟩
  rcases hsource with hnone | hbrought
  · exact absurd hnone hne
  · exact hbrought

end Slot
end Foundation
end Clacks
