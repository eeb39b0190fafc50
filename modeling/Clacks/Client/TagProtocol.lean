import Clacks.Client.Hygiene
import Clacks.Identifier.DomSocket

/-!
# The tag protocol as the client keeps it

The service answers the tag command and the id with the integer 1 each, and the client
is to wait for it before it sends the next part.  {lit}`cl_id_tag_id` stores the two
replies in {lit}`cmd_rcv_buf` and looks only at the return values of its calls.

Main results:

- Theorem {lit}`writesOf_clacksTagId`: what the client offers to {lit}`write`, in order.
- Theorem {lit}`Exact.read`, {lit}`Exact.write`: one step of the exchange.
- Theorem {lit}`tag_protocol_iff`: when the client keeps to the protocol.
-/

namespace Clacks
namespace Client

open Foundation Program Monitor Identifier

/-! ## The protocol -/

/-- The monitor of the protocol.  It counts the writes and collects the replies; a part
is sent only when as many replies were a complete integer 1 as parts were sent before. -/
def tagProtocol : Monitor StreamOp StreamOp.Ans (Nat × List (List UInt8)) where
  allows s
    | .write (some _) _ => s.1 ≤ s.2.count continueCommand
    | _ => True
  expects _ _ := True
  next s
    | ⟨.write _ _, _⟩ => (s.1 + 1, s.2)
    | ⟨.read _ _, some reply⟩ => (s.1, s.2 ++ [reply.bytes])
    | _ => s

/-- The monitor's state is what the run shows. -/
theorem tagProtocol_after (s : Nat × List (List UInt8)) (events : List StreamEvent) :
    tagProtocol.after s events = (s.1 + (writesOf events).length, s.2 ++ readsOf events) := by
  induction events generalizing s with
  | nil => simp [writesOf, readsOf]
  | cons e events ih =>
      rw [after_cons, ih]
      rcases e with ⟨op, answer⟩
      cases op with
      | socket => rfl
      | connect fd path => rfl
      | read fd size =>
          cases answer with
          | none => rfl
          | some reply => simp [tagProtocol, writesOf, readsOf]
      | write fd bytes =>
          simp only [tagProtocol, writesOf, readsOf, List.filterMap_cons, List.length_cons]
          rw [Nat.add_right_comm, Nat.add_assoc]
      | close fd => rfl

/-- A transfer on descriptor {lit}`-1` fails. -/
def FailsOnNone : StreamEvent → Prop
  | ⟨.read none _, answer⟩ => answer = none
  | ⟨.write none _, answer⟩ => answer = none
  | _ => True

theorem failsOnNone_of_expected {s : Session} {events : List StreamEvent}
    (h : session.Expected s events) : ∀ e ∈ events, FailsOnNone e := by
  induction events generalizing s with
  | nil => simp
  | cons e events ih =>
      rw [List.forall_mem_cons]
      refine ⟨?_, ih h.2⟩
      have hexpects := h.1
      rcases e with ⟨op, answer⟩
      cases op with
      | socket => trivial
      | connect fd path => trivial
      | read fd size =>
          cases fd with
          | none => exact hexpects
          | some fd => trivial
      | write fd bytes =>
          cases fd with
          | none => exact hexpects
          | some fd => trivial
      | close fd => trivial

/-! ## What is sent, in order -/

section Steps

variable {α ρ : Type} {next : Fd → StreamProgram α} {domSock : Fd} {events : List StreamEvent}
  {r : α}

/-- The error handling behind a step sends nothing. -/
theorem writesOf_closeOnError {rtn : Option ρ}
    (hrun : (closeOnError rtn domSock >>= next).Runs events r) :
    ∃ domSock' rest, (next domSock').Runs rest r ∧ writesOf events = writesOf rest := by
  cases rtn with
  | none =>
      rcases Runs_ask.1 hrun with ⟨_, rest, rfl, hrest⟩
      exact ⟨none, rest, hrest, rfl⟩
  | some x => exact ⟨domSock, events, hrun, rfl⟩

/-- A write and the error handling behind it. -/
theorem writesOf_write {bytes : List UInt8}
    (hrun : (ask (.write domSock bytes) fun rtn => closeOnError rtn domSock >>= next).Runs
      events r) :
    ∃ domSock' rest, (next domSock').Runs rest r ∧ writesOf events = bytes :: writesOf rest := by
  rcases Runs_ask.1 hrun with ⟨rtn, rest, rfl, hrest⟩
  rcases writesOf_closeOnError hrest with ⟨domSock', rest', hnext, hwrites⟩
  exact ⟨domSock', rest', hnext, congrArg (List.cons bytes) hwrites⟩

/-- A read and the error handling behind it. -/
theorem writesOf_read {size : Nat}
    (hrun : (ask (.read domSock size) fun rtn => closeOnError rtn domSock >>= next).Runs
      events r) :
    ∃ domSock' rest, (next domSock').Runs rest r ∧ writesOf events = writesOf rest := by
  rcases Runs_ask.1 hrun with ⟨rtn, rest, rfl, hrest⟩
  rcases writesOf_closeOnError hrest with ⟨domSock', rest', hnext, hwrites⟩
  exact ⟨domSock', rest', hnext, hwrites⟩

end Steps

/-- Connected or not, the client offers the tag command, the id and the derived id, in
this order, or nothing at all. -/
theorem writesOf_clacksTagId {clId : Buffer 37} {derrived : CString} {events : List StreamEvent}
    {r : Fd} (hrun : (clacksTagId clId derrived none).Runs events r) :
    writesOf events = [] ∨ writesOf events = [clIdTag, clId.bytes, derrived.bytes] := by
  unfold clacksTagId at hrun
  rw [clIdTagId_eq] at hrun
  rcases Runs_ask.1 hrun with ⟨answer, rest, rfl, hconnect⟩
  cases answer with
  | none =>
      rcases Runs_done.1 hconnect with ⟨rfl, _⟩
      exact .inl rfl
  | some fd =>
      rcases Runs_ask.1 hconnect with ⟨ok, rest, rfl, hexchange⟩
      cases ok with
      | false =>
          rcases Runs_ask.1 hexchange with ⟨_, _, rfl, hdone⟩
          rcases Runs_done.1 hdone with ⟨rfl, _⟩
          exact .inl rfl
      | true =>
          rcases writesOf_write hexchange with ⟨_, rest₁, hrest₁, hcommand⟩
          rcases writesOf_read hrest₁ with ⟨_, rest₂, hrest₂, hfirst⟩
          rcases writesOf_write hrest₂ with ⟨_, rest₃, hrest₃, hid⟩
          rcases writesOf_read hrest₃ with ⟨_, rest₄, hrest₄, hsecond⟩
          rcases writesOf_write hrest₄ with ⟨_, rest₅, hrest₅, hderived⟩
          rcases Runs_ask.1 hrest₅ with ⟨_, _, rfl, hdone⟩
          rcases Runs_done.1 hdone with ⟨rfl, _⟩
          right
          change writesOf rest = _
          rw [hcommand, hfirst, hid, hsecond, hderived]
          rfl

/-! ## Keeping to the protocol -/

/-- A run of the program from this state of the monitor keeps to the protocol exactly
when every reply it receives is a complete integer 1. -/
def Exact {α : Type} (p : StreamProgram α) (s : Nat × List (List UInt8)) : Prop :=
  ∀ events r, p.Runs events r → (∀ e ∈ events, FailsOnNone e) →
    (tagProtocol.Allowed s events ↔ ∀ reply ∈ readsOf events, reply = continueCommand)

/-- The monitor after {lit}`sent` writes and {lit}`received` replies that were a complete
integer 1, while there is a descriptor. -/
def AtStep (sent received : Nat) (domSock : Fd) (s : Nat × List (List UInt8)) : Prop :=
  domSock ≠ none → s = (sent, List.replicate received continueCommand)

section Exact

variable {α : Type} {next : Fd → StreamProgram α} {domSock : Fd} {s : Nat × List (List UInt8)}

/-- The error handling behind a step that changed nothing of note. -/
theorem Exact.close {k : StreamProgram α} (h : Exact k s) (domSock : Fd) :
    Exact (ask (.close domSock) fun _ => k) s := by
  intro events r hrun hnone
  rcases Runs_ask.1 hrun with ⟨_, rest, rfl, hrest⟩
  rw [List.forall_mem_cons] at hnone
  have hk := h rest r hrest hnone.2
  simpa [Allowed, tagProtocol, readsOf] using hk

/-- A write that is due. -/
theorem Exact.write {n : Nat} {bytes : List UInt8} (hs : AtStep n n domSock s)
    (hnext : ∀ domSock s, AtStep (n + 1) n domSock s → Exact (next domSock) s) :
    Exact (ask (.write domSock bytes) fun rtn => closeOnError rtn domSock >>= next) s := by
  intro events r hrun hnone
  rcases Runs_ask.1 hrun with ⟨rtn, rest, rfl, hrest⟩
  rw [List.forall_mem_cons] at hnone
  have hallows : tagProtocol.allows s (.write domSock bytes) := by
    cases domSock with
    | none => trivial
    | some fd =>
        rw [hs (by simp)]
        simp [tagProtocol]
  have hreads : readsOf (⟨.write domSock bytes, rtn⟩ :: rest) = readsOf rest := rfl
  rw [hreads]
  have hrest' : tagProtocol.Allowed (s.1 + 1, s.2) rest ↔
      ∀ reply ∈ readsOf rest, reply = continueCommand := by
    cases rtn with
    | none =>
        exact (hnext none _ fun hsome => absurd rfl hsome).close domSock rest r hrest hnone.2
    | some count =>
        refine hnext domSock _ ?_ rest r hrest hnone.2
        intro hsome
        rw [hs hsome]
  exact ⟨fun h => hrest'.1 h.2, fun h => ⟨hallows, hrest'.2 h⟩⟩

/-- A read of a reply.  When the reply is another one, the next step sends too early. -/
theorem Exact.read {n : Nat} (hs : AtStep (n + 1) n domSock s)
    (hnext : ∀ domSock s, AtStep (n + 1) (n + 1) domSock s → Exact (next domSock) s)
    (hearly : ∀ fd s, s.2.count continueCommand < s.1 →
      ∀ events r, (next (some fd)).Runs events r → ¬tagProtocol.Allowed s events) :
    Exact (ask (.read domSock 4) fun rtn => closeOnError rtn domSock >>= next) s := by
  intro events r hrun hnone
  rcases Runs_ask.1 hrun with ⟨rtn, rest, rfl, hrest⟩
  rw [List.forall_mem_cons] at hnone
  cases rtn with
  | none =>
      have hclosed := (hnext none s fun hsome => absurd rfl hsome).close domSock rest r hrest hnone.2
      simpa [Allowed, tagProtocol, readsOf] using hclosed
  | some reply =>
      cases domSock with
      | none => cases hnone.1
      | some fd =>
          have hstate := hs (by simp)
          subst hstate
          have hreads : readsOf (⟨.read (some fd) 4, some reply⟩ :: rest) =
              reply.bytes :: readsOf rest := rfl
          rw [hreads, List.forall_mem_cons]
          by_cases hreply : reply.bytes = continueCommand
          · have hkept := hnext (some fd) (n + 1, List.replicate n continueCommand ++ [reply.bytes])
              (fun _ => by rw [hreply, List.replicate_succ']) rest r hrest hnone.2
            exact ⟨fun h => ⟨hreply, hkept.1 h.2⟩, fun h => ⟨trivial, hkept.2 h.2⟩⟩
          · have hearly' := hearly fd (n + 1, List.replicate n continueCommand ++ [reply.bytes])
              (by simp [List.count_append, hreply]) rest r hrest
            exact ⟨fun h => absurd h.2 hearly', fun h => absurd h.1 hreply⟩

/-- A write that is not due breaks the protocol. -/
theorem not_allowed_write {fd : Nat} {bytes : List UInt8}
    {k : Option (Fin (bytes.length + 1)) → StreamProgram α}
    (hs : s.2.count continueCommand < s.1) {events : List StreamEvent} {r : α}
    (hrun : (ask (.write (some fd) bytes) k).Runs events r) : ¬tagProtocol.Allowed s events := by
  rcases Runs_ask.1 hrun with ⟨_, rest, rfl, _⟩
  intro hallowed
  have hdue : s.1 ≤ s.2.count continueCommand := hallowed.1
  omega

end Exact

theorem exact_done {α : Type} (a : α) (s : Nat × List (List UInt8)) :
    Exact (done a : StreamProgram α) s := by
  intro events r hrun _
  rcases Runs_done.1 hrun with ⟨rfl, _⟩
  simp [Allowed, readsOf]

/-- The exchange, step by step. -/
theorem exact_tagExchange (clId : Buffer 37) (derrived : CString) (fd : Nat) :
    Exact (tagExchange clId derrived fd) (0, []) := by
  unfold tagExchange
  apply Exact.write (n := 0) fun _ => rfl
  intro domSock s hcommand
  apply Exact.read hcommand
  · intro domSock s hfirst
    apply Exact.write hfirst
    intro domSock s hid
    apply Exact.read hid
    · intro domSock s hsecond
      apply Exact.write hsecond
      intro domSock s _
      exact (exact_done none s).close domSock
    · intro fd s hs events r hrun
      exact not_allowed_write hs hrun
  · intro fd s hs events r hrun
    exact not_allowed_write hs hrun

/-- A tagging call, connected or not. -/
theorem exact_clacksTagId (clId : Buffer 37) (derrived : CString) :
    Exact (clacksTagId clId derrived none) (0, []) := by
  unfold clacksTagId
  rw [clIdTagId_eq]
  intro events r hrun hnone
  rcases Runs_ask.1 hrun with ⟨answer, rest, rfl, hconnect⟩
  rw [List.forall_mem_cons] at hnone
  cases answer with
  | none =>
      rcases Runs_done.1 hconnect with ⟨rfl, _⟩
      simp [Allowed, tagProtocol, readsOf]
  | some fd =>
      rcases Runs_ask.1 hconnect with ⟨ok, rest, rfl, hexchange⟩
      rw [List.forall_mem_cons] at hnone
      cases ok with
      | false =>
          rcases Runs_ask.1 hexchange with ⟨_, _, rfl, hdone⟩
          rcases Runs_done.1 hdone with ⟨rfl, _⟩
          simp [Allowed, tagProtocol, readsOf]
      | true =>
          have hrest := exact_tagExchange clId derrived fd rest r hexchange hnone.2.2
          simpa [Allowed, tagProtocol, readsOf] using hrest

/-- The client keeps to the protocol exactly when every reply it receives is a complete
integer 1.  Keeping to it means: the parts are the command, the id and the derived id; a
part that is sent on a descriptor after {lit}`n` parts is sent when {lit}`n` complete
integers 1 were received before; and a descriptor that was opened is closed, once. -/
theorem tag_protocol_iff {clId : Buffer 37} {derrived : CString} {events : List StreamEvent}
    {r : Fd} (hrun : (clacksTagId clId derrived none).Runs events r)
    (hexpected : session.Expected (Session.start .idle) events) :
    ((writesOf events = [] ∨ writesOf events = [clIdTag, clId.bytes, derrived.bytes]) ∧
        (∀ before fd bytes answer later,
          events = before ++ ⟨.write (some fd) bytes, answer⟩ :: later →
          (writesOf before).length ≤ (readsOf before).count continueCommand) ∧
        ∀ fd, ⟨.socket, some fd⟩ ∈ events → events.countP (Closes fd) = 1) ↔
      ∀ reply ∈ readsOf events, reply = continueCommand := by
  have hclosed : ∀ fd, ⟨.socket, some fd⟩ ∈ events → events.countP (Closes fd) = 1 := by
    intro fd hopened
    rcases (verified_clIdTagId clId derrived).run hrun hexpected with ⟨hallowed, hover⟩
    exact closes_eq_one hallowed hexpected rfl (congrFun hover.2 fd) hopened
  have hexact := exact_clacksTagId clId derrived events r hrun (failsOnNone_of_expected hexpected)
  rw [allowed_iff] at hexact
  rw [← hexact]
  constructor
  · intro h before e later hsplit
    rcases h with ⟨_, hsplits, _⟩
    rcases e with ⟨op, answer⟩
    cases op with
    | write fd bytes =>
        cases fd with
        | none => trivial
        | some fd =>
            have hdue := hsplits before fd bytes answer later hsplit
            rw [tagProtocol_after]
            simpa [tagProtocol] using hdue
    | _ => trivial
  · intro hsplits
    refine ⟨writesOf_clacksTagId hrun, ?_, hclosed⟩
    intro before fd bytes answer later hsplit
    have hdue := hsplits before ⟨.write (some fd) bytes, answer⟩ later hsplit
    rw [tagProtocol_after] at hdue
    simpa [tagProtocol] using hdue

/-! ## A service that stops -/

/-- A tagging call whose replies are {lit}`first` and {lit}`second`. -/
def tagEvents (clId : Buffer 37) (derrived : CString) (first second : Chunk 4) :
    List StreamEvent :=
  [⟨.socket, some 3⟩, ⟨.connect (some 3) clIdDomSocket, true⟩,
    ⟨.write (some 3) clIdTag, some (Fin.last _)⟩, ⟨.read (some 3) 4, some first⟩,
    ⟨.write (some 3) clId.bytes, some (Fin.last _)⟩, ⟨.read (some 3) 4, some second⟩,
    ⟨.write (some 3) derrived.bytes, some (Fin.last _)⟩, ⟨.close (some 3), ()⟩]

theorem clacksTagId_runs (clId : Buffer 37) (derrived : CString) (first second : Chunk 4) :
    (clacksTagId clId derrived none).Runs (tagEvents clId derrived first second) none :=
  .ask (.ask (.ask (.ask (.ask (.ask (.ask (.ask (.done _))))))))

theorem tagEvents_expected (clId : Buffer 37) (derrived : CString) (first second : Chunk 4) :
    session.Expected (Session.start .idle) (tagEvents clId derrived first second) := by
  simp [tagEvents, session, Expected, Session.start, FdTable.idle]

/-- Both replies are a complete integer 1: the call keeps to the protocol. -/
theorem tag_protocol_two_continues :
    let one : Chunk 4 := Chunk.front 4 continueCommand
    (tagEvents (Buffer.fill 37 97) CString.empty one one).countP (Closes 3) = 1 := by
  intro one
  have hrun := clacksTagId_runs (Buffer.fill 37 97) CString.empty one one
  have hreplies : ∀ reply ∈ readsOf (tagEvents (Buffer.fill 37 97) CString.empty one one),
      reply = continueCommand := by
    simp [tagEvents, readsOf, one, continueCommand]
  have hkept := (tag_protocol_iff hrun (tagEvents_expected _ _ one one)).2 hreplies
  exact hkept.2.2 3 (by simp [tagEvents])

/-- The service closes the connection after the command: both reads return 0 bytes, and
the client sends the id and the derived id all the same. -/
theorem tag_without_continue :
    let events := tagEvents (Buffer.fill 37 97) CString.empty (Chunk.front 4 []) (Chunk.front 4 [])
    (clacksTagId (Buffer.fill 37 97) CString.empty none).Runs events none ∧
      session.Expected (Session.start .idle) events ∧ readsOf events = [[], []] ∧
      ⟨.write (some 3) (Buffer.fill 37 97).bytes, some (Fin.last _)⟩ ∈ events := by
  refine ⟨clacksTagId_runs _ _ _ _, tagEvents_expected _ _ _ _, rfl, ?_⟩
  simp [tagEvents]

end Client
end Clacks
