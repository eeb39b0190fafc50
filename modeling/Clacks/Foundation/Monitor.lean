import Clacks.Foundation.Program

/-!
# Monitors

A monitor watches the operations of a program together with their answers.  In each of
its states it says which operations the program may perform next and which answers the
environment may give; a program is verified against it by going through its tree once,
and the verdict holds for every run.

Main results:

- Theorem {lit}`Verified.run`: every expected run of a verified program performs allowed
  operations only and ends in the postcondition.
- Theorem {lit}`Verified.bind`: verification of a sequential composition.
- Theorem {lit}`EndsIn.resume`: what is left of a program that asks a bounded number of
  operations.
-/

namespace Clacks
namespace Foundation

open Program

/-- A monitor with states {lit}`σ`. -/
structure Monitor (Op : Type) (Ans : Op → Type) (σ : Type) where
  /-- What the program may do next. -/
  allows : σ → Op → Prop
  /-- What the environment may answer. -/
  expects : σ → Event Op Ans → Prop
  /-- The state after an operation and its answer. -/
  next : σ → Event Op Ans → σ

namespace Monitor

variable {Op : Type} {Ans : Op → Type} {σ α β : Type} (M : Monitor Op Ans σ)

/-- The state after a run. -/
def after (s : σ) (events : List (Event Op Ans)) : σ :=
  events.foldl M.next s

/-- Every operation of the run was allowed when it was performed. -/
def Allowed : σ → List (Event Op Ans) → Prop
  | _, [] => True
  | s, e :: events => M.allows s e.1 ∧ Allowed (M.next s e) events

/-- Every answer of the run was one the environment may give. -/
def Expected : σ → List (Event Op Ans) → Prop
  | _, [] => True
  | s, e :: events => M.expects s e ∧ Expected (M.next s e) events

/-- Under expected answers the program performs allowed operations only and returns
with {lit}`post` for its result and the state. -/
def Verified (post : α → σ → Prop) : Program Op Ans α → σ → Prop
  | .done a, s => post a s
  | .ask op resume, s => M.allows s op ∧
      ∀ answer, M.expects s ⟨op, answer⟩ → Verified post (resume answer) (M.next s ⟨op, answer⟩)

variable {M} {s : σ}

@[simp]
theorem after_nil : M.after s [] = s :=
  rfl

@[simp]
theorem after_cons (e : Event Op Ans) (events : List (Event Op Ans)) :
    M.after s (e :: events) = M.after (M.next s e) events :=
  rfl

theorem allowed_append {before later : List (Event Op Ans)} :
    M.Allowed s (before ++ later) ↔ M.Allowed s before ∧ M.Allowed (M.after s before) later := by
  induction before generalizing s with
  | nil => simp [Allowed]
  | cons e before ih => simp [Allowed, ih, and_assoc]

theorem expected_append {before later : List (Event Op Ans)} :
    M.Expected s (before ++ later) ↔
      M.Expected s before ∧ M.Expected (M.after s before) later := by
  induction before generalizing s with
  | nil => simp [Expected]
  | cons e before ih => simp [Expected, ih, and_assoc]

/-- A run is allowed when each of its operations is, in the state the ones before it
lead to. -/
theorem allowed_iff {events : List (Event Op Ans)} :
    M.Allowed s events ↔
      ∀ before e later, events = before ++ e :: later → M.allows (M.after s before) e.1 := by
  constructor
  · intro hallowed before e later hsplit
    subst hsplit
    exact (allowed_append.1 hallowed).2.1
  · intro hsplits
    induction events generalizing s with
    | nil => trivial
    | cons e events ih =>
        refine ⟨hsplits [] e events rfl, ih ?_⟩
        intro before e' later hsplit
        exact hsplits (e :: before) e' later (by rw [hsplit, List.cons_append])

/-- The verdict on a program holds for each of its runs. -/
theorem Verified.run {post : α → σ → Prop} {p : Program Op Ans α} (h : M.Verified post p s)
    {events : List (Event Op Ans)} {a : α} (hrun : p.Runs events a)
    (hexpected : M.Expected s events) : M.Allowed s events ∧ post a (M.after s events) := by
  induction hrun generalizing s with
  | done a => exact ⟨trivial, h⟩
  | ask _ ih =>
      rcases ih (h.2 _ hexpected.1) hexpected.2 with ⟨hallowed, hpost⟩
      exact ⟨⟨h.1, hallowed⟩, hpost⟩

/-- A weaker postcondition. -/
theorem Verified.mono {post post' : α → σ → Prop} {p : Program Op Ans α}
    (h : M.Verified post p s) (hpost : ∀ a s, post a s → post' a s) : M.Verified post' p s := by
  induction p generalizing s with
  | done a => exact hpost a s h
  | ask op resume ih =>
      refine ⟨h.1, ?_⟩
      intro answer hanswer
      exact ih answer (h.2 answer hanswer)

/-- Sequential composition: the second program is verified where the first returns. -/
theorem Verified.bind {post : β → σ → Prop} {p : Program Op Ans α}
    {next : α → Program Op Ans β} (h : M.Verified (fun a => M.Verified post (next a)) p s) :
    M.Verified post (p >>= next) s := by
  induction p generalizing s with
  | done a => exact h
  | ask op resume ih =>
      refine ⟨h.1, ?_⟩
      intro answer hanswer
      exact ih answer (h.2 answer hanswer)

/-! ## Counting down -/

section Countdown

variable {fair : Op → Prop} {good : Event Op Ans → Prop} {n n' : Nat}

/-- The monitor of a program that may ask {lit}`n` more operations, all of them
{lit}`fair`, of an environment that gives {lit}`good` answers. -/
def countdown (fair : Op → Prop) (good : Event Op Ans → Prop) : Monitor Op Ans Nat where
  allows n op := 0 < n ∧ fair op
  expects _ e := good e
  next n _ := n - 1

/-- The program ends after at most {lit}`n` fair operations, whatever good answers it
gets. -/
def EndsIn (fair : Op → Prop) (good : Event Op Ans → Prop) (n : Nat) (p : Program Op Ans α) :
    Prop :=
  (countdown fair good).Verified (fun _ _ => True) p n

theorem EndsIn.done (a : α) : EndsIn fair good n (.done a) :=
  trivial

theorem EndsIn.ask {op : Op} {k : Ans op → Program Op Ans α} (hfair : fair op)
    (hrest : ∀ answer, good ⟨op, answer⟩ → EndsIn fair good n (k answer)) :
    EndsIn fair good (n + 1) (.ask op k) :=
  ⟨⟨Nat.succ_pos n, hfair⟩, hrest⟩

/-- An operation that is asked is fair, and leaves one less to ask. -/
theorem EndsIn.resume {op : Op} {k : Ans op → Program Op Ans α}
    (h : EndsIn fair good n (.ask op k)) :
    fair op ∧ 0 < n ∧ ∀ answer, good ⟨op, answer⟩ → EndsIn fair good (n - 1) (k answer) :=
  ⟨h.1.2, h.1.1, h.2⟩

theorem EndsIn.mono {p : Program Op Ans α} (h : EndsIn fair good n p) (hle : n ≤ n') :
    EndsIn fair good n' p := by
  induction p generalizing n n' with
  | done a => exact .done a
  | ask op k ih =>
      rcases h.resume with ⟨hfair, hpos, hrest⟩
      refine ⟨⟨Nat.lt_of_lt_of_le hpos hle, hfair⟩, ?_⟩
      intro answer hgood
      exact ih answer (hrest answer hgood) (Nat.sub_le_sub_right hle 1)

end Countdown

end Monitor
end Foundation
end Clacks
