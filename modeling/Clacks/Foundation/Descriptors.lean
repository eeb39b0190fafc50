import Clacks.Foundation.Monitor
import Clacks.Foundation.Sockets

/-!
# Sessions on one socket

A monitor for a routine that opens at most one socket, connects it once, exchanges
messages on it and closes it, and that stops sending when a step has failed.

Main results:

- Theorem {lit}`closes_eq_one`: a call that leaves nothing open closed what it opened,
  once.
- Theorem {lit}`sent_after_failure`: nothing is sent after a step that failed.
-/

namespace Clacks
namespace Foundation

open Program

/-! ## The monitor -/

/-- What a descriptor is good for. -/
inductive FdStatus where
  | closed
  | fresh
  | connected
  | refused
deriving DecidableEq

/-- The status of every descriptor number. -/
abbrev FdTable := Nat → FdStatus

/-- The table in which no descriptor is open. -/
def FdTable.idle : FdTable :=
  fun _ => .closed

/-- The table in which {lit}`fd`, if it is one, is the only open descriptor. -/
def FdTable.only (status : FdStatus) : Fd → FdTable
  | none => idle
  | some fd => Function.update idle fd status

/-- The step returned {lit}`-1`. -/
def Failed : StreamEvent → Bool
  | ⟨.socket, none⟩ => true
  | ⟨.connect _ _, ok⟩ => !ok
  | ⟨.read _ _, none⟩ => true
  | ⟨.write _ _, none⟩ => true
  | _ => false

/-- What the monitor remembers of a call: the descriptors, whether the call has opened a
socket, and whether one of its steps has failed. -/
structure Session where
  table : FdTable
  opened : Bool
  failed : Bool

/-- The state at the beginning of a call. -/
def Session.start (table : FdTable) : Session where
  table := table
  opened := false
  failed := false

/-- What a step does to the descriptors. -/
def FdTable.after (table : FdTable) : StreamEvent → FdTable
  | ⟨.socket, some fd⟩ => Function.update table fd .fresh
  | ⟨.connect (some fd) _, ok⟩ => Function.update table fd (if ok then .connected else .refused)
  | ⟨.close (some fd), _⟩ => Function.update table fd .closed
  | _ => table

/-- The monitor of a call.  The operating system hands out a descriptor that is not
open, and a transfer on descriptor {lit}`-1` fails. -/
def session : Monitor StreamOp StreamOp.Ans Session where
  allows s
    | .socket => s.opened = false
    | .connect (some fd) _ => s.table fd = .fresh
    | .connect none _ => False
    | .read (some fd) _ => s.table fd = .connected
    | .read none _ => True
    | .write (some fd) _ => s.table fd = .connected ∧ s.failed = false
    | .write none _ => True
    | .close (some fd) => s.table fd ≠ .closed
    | .close none => True
  expects s
    | ⟨.socket, some fd⟩ => s.table fd = .closed
    | ⟨.connect none _, ok⟩ => ok = false
    | ⟨.read none _, answer⟩ => answer = none
    | ⟨.write none _, answer⟩ => answer = none
    | _ => True
  next s e :=
    { table := s.table.after e
      opened := s.opened || decide (e.1 = .socket)
      failed := s.failed || Failed e }

/-! ## Counting and sending -/

/-- The step obtained {lit}`fd` from {lit}`socket`. -/
def Opens (fd : Nat) : StreamEvent → Bool
  | ⟨.socket, some fd'⟩ => fd' == fd
  | _ => false

/-- The step closed {lit}`fd`. -/
def Closes (fd : Nat) : StreamEvent → Bool
  | ⟨.close (some fd'), _⟩ => fd' == fd
  | _ => false

/-- The bytes a run sent: what its writes were taken of. -/
def sentBytes (events : List StreamEvent) : List UInt8 :=
  events.flatMap fun
    | ⟨.write _ bytes, some count⟩ => bytes.take count.val
    | _ => []

/-- One for an open descriptor. -/
def FdStatus.count : FdStatus → Nat
  | .closed => 0
  | _ => 1

section Step

variable {s : Session} {e : StreamEvent}

/-- One step opens a descriptor that was closed, closes one that was open, or leaves the
open descriptors as they are. -/
theorem count_step (hallowed : session.allows s e.1) (hexpected : session.expects s e)
    (fd : Nat) : (Opens fd e).toNat + (s.table fd).count =
      (Closes fd e).toNat + (s.table.after e fd).count := by
  have hupdate : ∀ (fd' : Nat) (status : FdStatus), Function.update s.table fd' status fd =
      if fd = fd' then status else s.table fd := fun fd' status => Function.update_apply _ _ _ _
  rcases e with ⟨op, answer⟩
  cases op with
  | socket =>
      cases answer with
      | none => rfl
      | some fd' =>
          have hclosed : s.table fd' = .closed := hexpected
          simp only [Opens, Closes, FdTable.after, hupdate]
          by_cases h : fd = fd'
          · subst h
            simp [hclosed, FdStatus.count]
          · simp [h, Ne.symm h]
  | connect fd' path =>
      cases fd' with
      | none => rfl
      | some fd' =>
          have hfresh : s.table fd' = .fresh := hallowed
          simp only [Opens, Closes, FdTable.after, hupdate]
          by_cases h : fd = fd'
          · subst h
            cases answer <;> simp [hfresh, FdStatus.count]
          · simp [h]
  | read fd' size => rfl
  | write fd' bytes => rfl
  | close fd' =>
      cases fd' with
      | none => rfl
      | some fd' =>
          have hopen : s.table fd' ≠ .closed := hallowed
          simp only [Opens, Closes, FdTable.after, hupdate]
          by_cases h : fd = fd'
          · subst h
            cases hstatus : s.table fd <;> simp_all [FdStatus.count]
          · simp [h, Ne.symm h]

/-- The call opens its socket at the first {lit}`socket` and is not allowed another. -/
theorem opened_step (hallowed : session.allows s e.1) (fd : Nat) :
    (Opens fd e).toNat + s.opened.toNat ≤ (session.next s e).opened.toNat := by
  rcases e with ⟨op, answer⟩
  cases op with
  | socket =>
      have hfirst : s.opened = false := hallowed
      cases answer with
      | none => simp [Opens, session, hfirst]
      | some fd' => cases h : fd' == fd <;> simp [Opens, session, hfirst, h]
  | connect fd' path => simp [Opens, session]
  | read fd' size => simp [Opens, session]
  | write fd' bytes => simp [Opens, session]
  | close fd' => simp [Opens, session]

/-- After a failure the only descriptor left to write to is {lit}`-1`. -/
theorem sent_step (hallowed : session.allows s e.1) (hexpected : session.expects s e)
    (hfailed : s.failed = true) : sentBytes [e] = [] := by
  rcases e with ⟨op, answer⟩
  cases op with
  | socket => rfl
  | connect fd path => rfl
  | read fd size => rfl
  | write fd bytes =>
      cases fd with
      | none =>
          have hnone : answer = none := hexpected
          rw [hnone]
          rfl
      | some fd =>
          have hno : s.failed = false := hallowed.2
          rw [hfailed] at hno
          cases hno
  | close fd => rfl

end Step

/-! ## Whole calls -/

section Run

variable {s : Session} {events : List StreamEvent}

private theorem countP_cons_toNat (p : StreamEvent → Bool) (e : StreamEvent) :
    (e :: events).countP p = (p e).toNat + events.countP p := by
  rw [List.countP_cons, Nat.add_comm]
  cases p e <;> rfl

/-- Opened and closed descriptors balance. -/
theorem closes_add_eq (hallowed : session.Allowed s events)
    (hexpected : session.Expected s events) (fd : Nat) :
    events.countP (Opens fd) + (s.table fd).count =
      events.countP (Closes fd) + ((session.after s events).table fd).count := by
  induction events generalizing s with
  | nil => rfl
  | cons e events ih =>
      have hstep := count_step hallowed.1 hexpected.1 fd
      have hrest := ih hallowed.2 hexpected.2
      have hnext : (session.next s e).table = s.table.after e := rfl
      rw [hnext] at hrest
      rw [countP_cons_toNat, countP_cons_toNat, Monitor.after_cons]
      omega

/-- No descriptor is obtained twice. -/
theorem opens_le_one (hallowed : session.Allowed s events) (fd : Nat) :
    events.countP (Opens fd) + s.opened.toNat ≤ 1 := by
  induction events generalizing s with
  | nil => cases s.opened <;> simp
  | cons e events ih =>
      have hstep := opened_step hallowed.1 fd
      have hrest := ih hallowed.2
      rw [countP_cons_toNat]
      omega

theorem sent_of_failed (hallowed : session.Allowed s events)
    (hexpected : session.Expected s events) (hfailed : s.failed = true) :
    sentBytes events = [] := by
  induction events generalizing s with
  | nil => rfl
  | cons e events ih =>
      have hstill : (session.next s e).failed = true := by simp [session, hfailed]
      have hstep := sent_step hallowed.1 hexpected.1 hfailed
      have hrest := ih hallowed.2 hexpected.2 hstill
      rw [← List.singleton_append]
      unfold sentBytes at hstep hrest ⊢
      rw [List.flatMap_append, hstep, hrest, List.append_nil]

/-- A call that leaves no descriptor open closes the one it obtained exactly once. -/
theorem closes_eq_one (hallowed : session.Allowed s events)
    (hexpected : session.Expected s events) {fd : Nat} (hbefore : s.table fd = .closed)
    (hafter : (session.after s events).table fd = .closed)
    (hopened : ⟨.socket, some fd⟩ ∈ events) : events.countP (Closes fd) = 1 := by
  have hbalance := closes_add_eq hallowed hexpected fd
  have hle := opens_le_one hallowed fd
  have hpos : 0 < events.countP (Opens fd) :=
    List.countP_pos_iff.2 ⟨_, hopened, by simp [Opens]⟩
  rw [hbefore, hafter] at hbalance
  simp only [FdStatus.count] at hbalance
  omega

/-- Nothing is sent after a step that failed. -/
theorem sent_after_failure (hallowed : session.Allowed s events)
    (hexpected : session.Expected s events) {before later : List StreamEvent} {e : StreamEvent}
    (hsplit : events = before ++ e :: later) (hfailed : Failed e = true) :
    sentBytes later = [] := by
  subst hsplit
  have hallowed' := (Monitor.allowed_append.1 hallowed).2.2
  have hexpected' := (Monitor.expected_append.1 hexpected).2.2
  apply sent_of_failed hallowed' hexpected'
  simp [session, hfailed]

end Run

end Foundation
end Clacks
