import Mathlib.Logic.Function.Basic
import Mathlib.Data.List.Basic

/-!
# Interaction programs

A routine that talks to an operating system is a tree: at each node it asks for
one operation and resumes with whatever answer comes back, and at a leaf it
returns a result.  The tree fixes what the routine does with every possible
answer and leaves the answers open, so one definition serves an arbitrary
environment, an error-free one, and a joint run with a peer.

Main results:

- Theorem {lit}`Runs_bind`: the runs of a sequential composition are the
  concatenations of runs of its two parts.
- Theorem {lit}`Runs_exists`: a program whose operations can all be answered in some
  way has a complete run of such answers.
-/

namespace Clacks
namespace Foundation

/-- A routine that asks {lit}`Op` operations and receives {lit}`Ans op` answers. -/
inductive Program (Op : Type) (Ans : Op → Type) (α : Type) where
  | done (result : α)
  | ask (op : Op) (resume : Ans op → Program Op Ans α)

namespace Program

variable {Op : Type} {Ans : Op → Type} {α β : Type}

/-- Sequential composition: the second routine starts at the leaves of the first. -/
def bind : Program Op Ans α → (α → Program Op Ans β) → Program Op Ans β
  | done a, next => next a
  | ask op resume, next => ask op fun answer => (resume answer).bind next

instance : Monad (Program Op Ans) where
  pure := done
  bind := bind

@[simp]
theorem pure_eq_done (a : α) : (pure a : Program Op Ans α) = done a :=
  rfl

@[simp]
theorem done_bind (a : α) (next : α → Program Op Ans β) :
    (done a : Program Op Ans α) >>= next = next a :=
  rfl

@[simp]
theorem ask_bind (op : Op) (resume : Ans op → Program Op Ans α)
    (next : α → Program Op Ans β) :
    ask op resume >>= next = ask op fun answer => resume answer >>= next :=
  rfl

/-- Two programs that ask the same operation are equal when they go on in the same way. -/
theorem ask_congr {op : Op} {resume resume' : Ans op → Program Op Ans α}
    (h : ∀ answer, resume answer = resume' answer) : ask op resume = ask op resume' :=
  congrArg (ask op) (funext h)

/-- {lit}`Continues p q`: {lit}`q` asks an operation and goes on as {lit}`p` with some
answer. -/
inductive Continues : Program Op Ans α → Program Op Ans α → Prop where
  | intro (op : Op) (resume : Ans op → Program Op Ans α) (answer : Ans op) :
      Continues (resume answer) (ask op resume)

/-- No program goes on forever. -/
theorem continues_wf : WellFounded (@Continues Op Ans α) := by
  constructor
  intro p
  induction p with
  | done a =>
      constructor
      intro q h
      cases h
  | ask op resume ih =>
      constructor
      intro q h
      cases h with
      | intro _ _ answer => exact ih answer

theorem not_continues_self (p : Program Op Ans α) : ¬Continues p p := by
  induction p using continues_wf.induction with
  | _ p ih =>
      intro h
      exact ih p h h

/-- A program that goes on is not where it was. -/
theorem resume_ne {op : Op} {resume : Ans op → Program Op Ans α} (answer : Ans op) :
    resume answer ≠ ask op resume := by
  intro h
  have hself := Continues.intro op resume answer
  rw [← h] at hself
  exact not_continues_self _ hself

protected theorem map_id (p : Program Op Ans α) : id <$> p = p := by
  induction p with
  | done a => rfl
  | ask op resume ih => exact ask_congr ih

protected theorem bind_assoc {γ : Type} (p : Program Op Ans α) (first : α → Program Op Ans β)
    (second : β → Program Op Ans γ) :
    p >>= first >>= second = p >>= fun a => first a >>= second := by
  induction p with
  | done a => rfl
  | ask op resume ih => exact ask_congr ih

instance : LawfulMonad (Program Op Ans) :=
  LawfulMonad.mk' (Program Op Ans) Program.map_id (fun _ _ => rfl) Program.bind_assoc

/-! ## Runs under an arbitrary environment -/

/-- One operation together with the answer the environment gave. -/
abbrev Event (Op : Type) (Ans : Op → Type) := (op : Op) × Ans op

/-- {lit}`Runs p events a`: answering the operations of {lit}`p` as in
{lit}`events`, in that order, takes it to its end with result {lit}`a`. -/
inductive Runs : Program Op Ans α → List (Event Op Ans) → α → Prop where
  | done (a : α) : Runs (done a) [] a
  | ask {op : Op} {resume : Ans op → Program Op Ans α} {answer : Ans op}
      {events : List (Event Op Ans)} {a : α} :
      Runs (resume answer) events a → Runs (ask op resume) (⟨op, answer⟩ :: events) a

@[simp]
theorem Runs_done {a b : α} {events : List (Event Op Ans)} :
    Runs (done a) events b ↔ events = [] ∧ b = a := by
  constructor
  · intro h
    cases h
    exact ⟨rfl, rfl⟩
  · rintro ⟨rfl, rfl⟩
    exact .done b

@[simp]
theorem Runs_ask {op : Op} {resume : Ans op → Program Op Ans α}
    {events : List (Event Op Ans)} {a : α} :
    Runs (ask op resume) events a ↔
      ∃ answer rest, events = ⟨op, answer⟩ :: rest ∧ Runs (resume answer) rest a := by
  constructor
  · intro h
    cases h with
    | ask h => exact ⟨_, _, rfl, h⟩
  · rintro ⟨answer, rest, rfl, h⟩
    exact .ask h

/-- Runs of a composition split at the point where the first part returned. -/
theorem Runs_bind {p : Program Op Ans α} {next : α → Program Op Ans β}
    {events : List (Event Op Ans)} {b : β} :
    Runs (p >>= next) events b ↔
      ∃ before a after, events = before ++ after ∧ Runs p before a ∧
        Runs (next a) after b := by
  induction p generalizing events with
  | done a =>
      constructor
      · intro h
        exact ⟨[], a, events, rfl, .done a, h⟩
      · rintro ⟨before, a', after, rfl, hp, hn⟩
        rcases Runs_done.1 hp with ⟨rfl, rfl⟩
        exact hn
  | ask op resume ih =>
      rw [ask_bind, Runs_ask]
      constructor
      · rintro ⟨answer, rest, rfl, h⟩
        rcases (ih answer).1 h with ⟨before, a, after, rfl, hp, hn⟩
        exact ⟨⟨op, answer⟩ :: before, a, after, rfl, .ask hp, hn⟩
      · rintro ⟨before, a, after, rfl, hp, hn⟩
        rcases Runs_ask.1 hp with ⟨answer, rest, rfl, hr⟩
        exact ⟨answer, rest ++ after, rfl, (ih answer).2 ⟨rest, a, after, rfl, hr, hn⟩⟩

/-- If every operation has an answer of some kind, every program has a run with
answers of this kind only. -/
theorem Runs_exists {P : Event Op Ans → Prop} (hanswer : ∀ op, ∃ answer, P ⟨op, answer⟩)
    (p : Program Op Ans α) : ∃ events a, Runs p events a ∧ ∀ e ∈ events, P e := by
  induction p with
  | done a => exact ⟨[], a, .done a, by simp⟩
  | ask op resume ih =>
      rcases hanswer op with ⟨answer, hP⟩
      rcases ih answer with ⟨events, a, hrun, hall⟩
      refine ⟨_, a, .ask hrun, ?_⟩
      rw [List.forall_mem_cons]
      exact ⟨hP, hall⟩

end Program
end Foundation
end Clacks
