import Clacks.Foundation.Memory
import Clacks.Foundation.Monitor
import Clacks.Foundation.Sockets
import Mathlib.Data.List.Induction

/-!
# Discovery over UDP

Model of {lit}`cl_discovery.c` and {lit}`cl_discovery_thread.c`: a call that opens a
socket, binds it to the discovery port and waits for one datagram, and the loop that
makes the call again and again.  A {lit}`bind` that fails and a datagram of another size
end the call before its {lit}`close`, so the socket stays open while the next call runs, and
in the second case it stays bound.

Main results:

- Theorem {lit}`waitForTransport_call`: the four ways through one call.
- Theorem {lit}`waitForTransport_outcome`: what a call leaves behind where none was open.
- Theorem {lit}`startDiscovery_released_iff`: which runs of the loop leave nothing open
  between calls.
-/

namespace Clacks
namespace Discovery

open Foundation Program

/-! ## One call -/

/-- {lit}`CL_DISCOVER_BUFF_S`: a pointer, an enumeration and padding. -/
def clDiscoverBuffS : Nat := 16

/-- System calls of {lit}`wait_for_transport`. -/
inductive DiscoveryOp where
  | socket
  | bind (fd : Nat)
  | recvfrom (fd : Nat)
  | close (fd : Nat)
deriving DecidableEq

/-- Their answers.  A datagram is delivered up to the size of the buffer. -/
@[reducible]
def DiscoveryOp.Ans : DiscoveryOp → Type
  | socket => Fd
  | bind _ => Bool
  | recvfrom _ => Option (Chunk clDiscoverBuffS)
  | close _ => Unit

/-- Programs of the discovery thread. -/
abbrev DiscoveryProgram (α : Type) := Program DiscoveryOp DiscoveryOp.Ans α

/-- One system call with its answer. -/
abbrev DiscoveryEvent := Event DiscoveryOp DiscoveryOp.Ans

/-- The program that makes one call. -/
def sysCall (op : DiscoveryOp) : DiscoveryProgram op.Ans :=
  ask op done

/-- The C return value of {lit}`recvfrom`. -/
def recvlen : Option (Chunk clDiscoverBuffS) → Int
  | none => -1
  | some chunk => chunk.bytes.length

/-- {lit}`wait_for_transport`; its argument is not used. -/
def waitForTransport : DiscoveryProgram Int := do
  let some fd ← sysCall .socket | return 1
  if !(← sysCall (.bind fd)) then
    return 1
  -- Check we received a whole discovery message
  if recvlen (← sysCall (.recvfrom fd)) ≠ clDiscoverBuffS then
    return 1
  sysCall (.close fd)
  return 0

theorem waitForTransport_eq :
    waitForTransport = .ask .socket fun
      | none => .done 1
      | some fd => .ask (.bind fd) fun
          | false => .done 1
          | true => .ask (.recvfrom fd) fun received =>
              if recvlen received = clDiscoverBuffS then .ask (.close fd) fun _ => .done 0
              else .done 1 := by
  unfold waitForTransport
  apply ask_congr
  intro answer
  cases answer with
  | none => rfl
  | some fd =>
      apply ask_congr
      intro bound
      cases bound with
      | false => rfl
      | true =>
          apply ask_congr
          intro received
          by_cases h : recvlen received = clDiscoverBuffS
          · rw [if_pos h]
            exact if_neg (not_not.2 h)
          · rw [if_neg h]
            exact if_pos h

/-! ## The sockets of the process -/

/-- The discovery sockets of the process that are open, and the one of them that holds the
port. -/
structure Net where
  opened : List Nat
  port : Option Nat
deriving DecidableEq

/-- No socket is open, and none of the process holds the port. -/
def Net.free : Net where
  opened := []
  port := none

/-- The operating system with {lit}`limit` descriptors for discovery: {lit}`socket` hands
out a free one while there is one, and {lit}`bind` fails exactly when an open socket holds
the port, be it one of these or, where {lit}`taken`, a socket of another process. -/
def net (limit : Nat) (taken : Bool) : Monitor DiscoveryOp DiscoveryOp.Ans Net where
  allows _ _ := True
  expects s
    | ⟨.socket, some fd⟩ => fd < limit ∧ fd ∉ s.opened
    | ⟨.socket, none⟩ => ∀ fd < limit, fd ∈ s.opened
    | ⟨.bind _, ok⟩ => ok = (s.port.isNone && !taken)
    | _ => True
  next s
    | ⟨.socket, some fd⟩ => { s with opened := fd :: s.opened }
    | ⟨.bind fd, true⟩ => { s with port := some fd }
    | ⟨.close fd, _⟩ =>
        { opened := s.opened.erase fd
          port := if s.port = some fd then none else s.port }
    | _ => s

/-- The four ways through {lit}`wait_for_transport` on the sockets {lit}`s`: system calls
with their answers, and the return value. -/
inductive Call (limit : Nat) (taken : Bool) (s : Net) : List DiscoveryEvent → Int → Prop where
  | noSocket :
      (∀ fd < limit, fd ∈ s.opened) →
      Call limit taken s [⟨.socket, none⟩] 1
  | noBind {fd : Nat} :
      fd < limit → fd ∉ s.opened → (s.port.isNone && !taken) = false →
      Call limit taken s [⟨.socket, some fd⟩, ⟨.bind fd, false⟩] 1
  | dropped {fd : Nat} {received : Option (Chunk clDiscoverBuffS)} :
      fd < limit → fd ∉ s.opened → s.port = none → recvlen received ≠ clDiscoverBuffS →
      Call limit taken s [⟨.socket, some fd⟩, ⟨.bind fd, true⟩, ⟨.recvfrom fd, received⟩] 1
  | received {fd : Nat} {received : Option (Chunk clDiscoverBuffS)} :
      fd < limit → fd ∉ s.opened → s.port = none → recvlen received = clDiscoverBuffS →
      Call limit taken s [⟨.socket, some fd⟩, ⟨.bind fd, true⟩, ⟨.recvfrom fd, received⟩,
        ⟨.close fd, ()⟩] 0

theorem waitForTransport_call {limit : Nat} {taken : Bool} {s : Net}
    {events : List DiscoveryEvent} {ret : Int} (hrun : waitForTransport.Runs events ret)
    (hexpected : (net limit taken).Expected s events) : Call limit taken s events ret := by
  rw [waitForTransport_eq] at hrun
  rcases Runs_ask.1 hrun with ⟨answer, rest, rfl, hbind⟩
  cases answer with
  | none =>
      rcases Runs_done.1 hbind with ⟨rfl, rfl⟩
      exact .noSocket hexpected.1
  | some fd =>
      rcases Runs_ask.1 hbind with ⟨bound, rest, rfl, hrecv⟩
      rcases hexpected with ⟨⟨hlimit, hnew⟩, hbound, _⟩
      change bound = (s.port.isNone && !taken) at hbound
      cases bound with
      | false =>
          rcases Runs_done.1 hrecv with ⟨rfl, rfl⟩
          exact .noBind hlimit hnew hbound.symm
      | true =>
          have hport : s.port = none := by
            have hfree := hbound.symm
            simp only [Bool.and_eq_true, Option.isNone_iff_eq_none] at hfree
            exact hfree.1
          rcases Runs_ask.1 hrecv with ⟨received, rest, rfl, hrest⟩
          by_cases hsize : recvlen received = clDiscoverBuffS
          · rw [if_pos hsize] at hrest
            rcases Runs_ask.1 hrest with ⟨_, rest, rfl, hdone⟩
            rcases Runs_done.1 hdone with ⟨rfl, rfl⟩
            exact .received hlimit hnew hport hsize
          · rw [if_neg hsize] at hrest
            rcases Runs_done.1 hrest with ⟨rfl, rfl⟩
            exact .dropped hlimit hnew hport hsize

/-- If the step is a {lit}`recvfrom`, it delivered a whole discovery message. -/
def WholeMessage : DiscoveryEvent → Prop
  | ⟨.recvfrom _, received⟩ => recvlen received = clDiscoverBuffS
  | _ => True

/-- If the step is a {lit}`bind`, it succeeded. -/
def BindSucceeds : DiscoveryEvent → Prop
  | ⟨.bind _, ok⟩ => ok = true
  | _ => True

/-- Every {lit}`recvfrom` of the call delivered a whole discovery message. -/
def Sized (events : List DiscoveryEvent) : Prop :=
  ∀ e ∈ events, WholeMessage e

/-- No {lit}`bind` of the call failed. -/
def Bound (events : List DiscoveryEvent) : Prop :=
  ∀ e ∈ events, BindSucceeds e

/-- A call that finds no socket of an earlier one gives everything back when its {lit}`bind`
succeeded and its datagram had the right size, and otherwise keeps its socket open. -/
theorem waitForTransport_outcome {limit : Nat} {taken : Bool} {events : List DiscoveryEvent}
    {ret : Int} (hrun : waitForTransport.Runs events ret)
    (hexpected : (net limit taken).Expected .free events) :
    ((net limit taken).after .free events = .free ∧ Sized events ∧ Bound events) ∨
      (((net limit taken).after .free events).opened ≠ [] ∧ ¬(Sized events ∧ Bound events)) := by
  cases waitForTransport_call hrun hexpected with
  | noSocket _ => exact .inl ⟨rfl, by simp [Sized, WholeMessage], by simp [Bound, BindSucceeds]⟩
  | @noBind fd _ _ _ =>
      refine .inr ⟨by simp [net, Net.free], fun h => ?_⟩
      have hok : false = true := h.2 ⟨.bind fd, false⟩ (by simp)
      cases hok
  | @dropped fd received _ _ _ hsize =>
      exact .inr ⟨by simp [net, Net.free], fun h => hsize (h.1 ⟨.recvfrom fd, received⟩ (by simp))⟩
  | received _ _ _ hsize =>
      refine .inl ⟨by simp [net, Net.free], ?_, by simp [Bound, BindSucceeds]⟩
      simp [Sized, WholeMessage, hsize]

/-! ## The loop -/

/-- A turn of the loop: the system calls of {lit}`wait_for_transport` with their answers,
the return value that is dropped, and whether a socket of another process holds the port
when the call binds. -/
structure Turn where
  events : List DiscoveryEvent
  ret : Int
  taken : Bool

/-- The sockets of the process after some turns. -/
def netAfter (limit : Nat) (turns : List Turn) : Net :=
  turns.foldl (fun s turn => (net limit turn.taken).after s turn.events) .free

/-- {lit}`start_discovery`: the loop has made these turns, each on the sockets that the
earlier ones left. -/
inductive StartDiscovery (limit : Nat) : List Turn → Prop where
  | nil : StartDiscovery limit []
  | snoc {turns : List Turn} {turn : Turn} :
      StartDiscovery limit turns →
      waitForTransport.Runs turn.events turn.ret →
      (net limit turn.taken).Expected (netAfter limit turns) turn.events →
      StartDiscovery limit (turns ++ [turn])

/-- The next call returns 0 if the datagram it receives has the right size, provided the
process may open a socket at all and no other one holds the port. -/
def Receives (limit : Nat) (s : Net) : Prop :=
  ∀ events ret, waitForTransport.Runs events ret → (net limit false).Expected s events →
    Sized events → 0 < limit → ret = 0

theorem receives_free (limit : Nat) : Receives limit .free := by
  intro events ret hrun hexpected hsized hlimit
  cases waitForTransport_call hrun hexpected with
  | noSocket hfull => cases hfull 0 hlimit
  | noBind _ _ htaken => cases htaken
  | @dropped fd received _ _ _ hsize =>
      exact absurd (hsized ⟨.recvfrom fd, received⟩ (by simp)) hsize
  | received _ _ _ _ => rfl

section Loop

variable {limit : Nat} {turns : List Turn} {turn : Turn}

@[simp]
theorem netAfter_append :
    netAfter limit (turns ++ [turn]) =
      (net limit turn.taken).after (netAfter limit turns) turn.events := by
  simp [netAfter]

theorem startDiscovery_append_iff :
    StartDiscovery limit (turns ++ [turn]) ↔
      StartDiscovery limit turns ∧ waitForTransport.Runs turn.events turn.ret ∧
        (net limit turn.taken).Expected (netAfter limit turns) turn.events := by
  constructor
  · intro h
    generalize hall : turns ++ [turn] = all at h
    cases h with
    | nil => simp at hall
    | snoc hbefore hrun hexpected =>
        rcases List.append_singleton_inj.1 hall with ⟨rfl, rfl⟩
        exact ⟨hbefore, hrun, hexpected⟩
  · intro h
    exact .snoc h.1 h.2.1 h.2.2

/-- The loop as it stood some turns ago. -/
theorem StartDiscovery.of_append {later : List Turn} (h : StartDiscovery limit (turns ++ later)) :
    StartDiscovery limit turns := by
  induction later using List.reverseRecOn with
  | nil => simpa using h
  | append_singleton later turn ih =>
      rw [← List.append_assoc] at h
      exact ih (startDiscovery_append_iff.1 h).1

/-- Turns that bind, with datagrams of the right size, leave nothing open. -/
theorem StartDiscovery.netAfter_eq (h : StartDiscovery limit turns)
    (hclean : ∀ turn ∈ turns, Sized turn.events ∧ Bound turn.events) :
    netAfter limit turns = .free := by
  induction h with
  | nil => rfl
  | @snoc turns turn _ hrun hexpected ih =>
      have hbefore := ih fun e he => hclean e (List.mem_append_left _ he)
      rw [hbefore] at hexpected
      rw [netAfter_append, hbefore]
      rcases waitForTransport_outcome hrun hexpected with ⟨hfree, _⟩ | ⟨_, hnot⟩
      · exact hfree
      · exact absurd (hclean turn (by simp)) hnot

/-- Discovery survives exactly the runs without a failing {lit}`bind` and without a datagram
of another size.  In these, and in no others, nothing is open and the port is free whenever
a call returned, and the next call returns 0 for a datagram of the right size. -/
theorem startDiscovery_released_iff (h : StartDiscovery limit turns) :
    (∀ before, before <+: turns →
        netAfter limit before = .free ∧ Receives limit (netAfter limit before)) ↔
      ∀ turn ∈ turns, Sized turn.events ∧ Bound turn.events := by
  constructor
  · intro hfree turn hturn
    rcases List.append_of_mem hturn with ⟨before, later, rfl⟩
    rw [List.append_cons] at h
    rcases startDiscovery_append_iff.1 h.of_append with ⟨_, hrun, hexpected⟩
    have hbefore := (hfree before (List.prefix_append _ _)).1
    have hafter := (hfree (before ++ [turn]) ⟨later, by simp⟩).1
    rw [hbefore] at hexpected
    rw [netAfter_append, hbefore] at hafter
    rcases waitForTransport_outcome hrun hexpected with ⟨_, hclean⟩ | ⟨hopened, _⟩
    · exact hclean
    · rw [hafter] at hopened
      exact absurd rfl hopened
  · intro hclean before hbefore
    rcases hbefore with ⟨later, rfl⟩
    have hfree := h.of_append.netAfter_eq fun turn hturn =>
      hclean turn (List.mem_append_left _ hturn)
    rw [hfree]
    exact ⟨rfl, receives_free limit⟩

end Loop

/-! ## The test application -/

/-- A turn that receives {lit}`datagram` on descriptor 3 and drops it. -/
def droppedTurn (datagram : List UInt8) : Turn where
  events := [⟨.socket, some 3⟩, ⟨.bind 3, true⟩,
    ⟨.recvfrom 3, some (Chunk.front clDiscoverBuffS datagram)⟩]
  ret := 1
  taken := false

/-- A turn that receives a whole message on the descriptor {lit}`fd`. -/
def receivedTurn (fd : Nat) (datagram : List UInt8) : Turn where
  events := [⟨.socket, some fd⟩, ⟨.bind fd, true⟩,
    ⟨.recvfrom fd, some (Chunk.front clDiscoverBuffS datagram)⟩, ⟨.close fd, ()⟩]
  ret := 0
  taken := false

/-- A turn whose {lit}`bind` on the descriptor {lit}`fd` finds the port taken, by another
process or by an earlier call. -/
def blockedTurn (fd : Nat) (taken : Bool) : Turn where
  events := [⟨.socket, some fd⟩, ⟨.bind fd, false⟩]
  ret := 1
  taken := taken

section Turns

variable {limit : Nat} {turns : List Turn}

theorem StartDiscovery.received (h : StartDiscovery limit turns) {fd : Nat}
    {datagram : List UInt8}
    (hsize : recvlen (some (Chunk.front clDiscoverBuffS datagram)) = clDiscoverBuffS)
    (hlimit : fd < limit) (hnew : fd ∉ (netAfter limit turns).opened)
    (hport : (netAfter limit turns).port = none) :
    StartDiscovery limit (turns ++ [receivedTurn fd datagram]) := by
  refine h.snoc ?_ ?_
  · rw [waitForTransport_eq]
    refine .ask (.ask (.ask ?_))
    rw [if_pos hsize]
    exact .ask (.done 0)
  · simp [receivedTurn, net, Monitor.Expected, hlimit, hnew, hport]

theorem StartDiscovery.dropped (h : StartDiscovery limit turns) {datagram : List UInt8}
    (hsize : recvlen (some (Chunk.front clDiscoverBuffS datagram)) ≠ clDiscoverBuffS)
    (hlimit : 3 < limit) (hnew : 3 ∉ (netAfter limit turns).opened)
    (hport : (netAfter limit turns).port = none) :
    StartDiscovery limit (turns ++ [droppedTurn datagram]) := by
  refine h.snoc ?_ ?_
  · rw [waitForTransport_eq]
    refine .ask (.ask (.ask ?_))
    rw [if_neg hsize]
    exact .done 1
  · simp [droppedTurn, net, Monitor.Expected, hlimit, hnew, hport]

theorem blockedTurn_runs (fd : Nat) (taken : Bool) :
    waitForTransport.Runs (blockedTurn fd taken).events (blockedTurn fd taken).ret := by
  rw [waitForTransport_eq]
  exact .ask (.ask (.done 1))

theorem blockedTurn_expected {s : Net} {fd : Nat} {taken : Bool} (hlimit : fd < limit)
    (hnew : fd ∉ s.opened) (htaken : (s.port.isNone && !taken) = false) :
    (net limit taken).Expected s (blockedTurn fd taken).events := by
  simp [blockedTurn, net, Monitor.Expected, hlimit, hnew, htaken]

theorem StartDiscovery.blocked (h : StartDiscovery limit turns) {fd : Nat} {taken : Bool}
    (hlimit : fd < limit) (hnew : fd ∉ (netAfter limit turns).opened)
    (htaken : ((netAfter limit turns).port.isNone && !taken) = false) :
    StartDiscovery limit (turns ++ [blockedTurn fd taken]) :=
  h.snoc (blockedTurn_runs fd taken) (blockedTurn_expected hlimit hnew htaken)

end Turns

/-- Two messages of the right size, received on different descriptors. -/
theorem startDiscovery_released_twice :
    let turns := [receivedTurn 3 (List.replicate 16 0), receivedTurn 5 (List.replicate 16 1)]
    (netAfter 8 (turns.take 1) = .free ∧ Receives 8 (netAfter 8 (turns.take 1))) ∧
      netAfter 8 turns = .free ∧ Receives 8 (netAfter 8 turns) := by
  intro turns
  have hfirst : StartDiscovery 8 [receivedTurn 3 (List.replicate 16 0)] :=
    StartDiscovery.nil.received (by decide) (by decide) (by decide) rfl
  have hloop : StartDiscovery 8 turns :=
    hfirst.received (by decide) (by decide) (by decide) rfl
  have hclean : ∀ turn ∈ turns, Sized turn.events ∧ Bound turn.events := by
    intro turn hturn
    rcases List.mem_pair.1 hturn with rfl | rfl
    all_goals simp [receivedTurn, Sized, Bound, WholeMessage, BindSucceeds, recvlen,
      clDiscoverBuffS]
  have hreleased := (startDiscovery_released_iff hloop).2 hclean
  exact ⟨hreleased _ (List.take_prefix 1 turns), hreleased turns (List.prefix_refl turns)⟩

/-- The datagram of the test application is dropped and its socket stays bound: the next
call fails at its {lit}`bind`, also when a message of the right size is on its way. -/
theorem hello_world_blocks_port :
    StartDiscovery 8 [droppedTurn (ascii "HELLO WORLD"), blockedTurn 4 false] ∧
      netAfter 8 [droppedTurn (ascii "HELLO WORLD")] = ⟨[3], some 3⟩ ∧
      ¬Receives 8 (netAfter 8 [droppedTurn (ascii "HELLO WORLD")]) := by
  have hnet : netAfter 8 [droppedTurn (ascii "HELLO WORLD")] = ⟨[3], some 3⟩ := rfl
  have hfirst : StartDiscovery 8 [droppedTurn (ascii "HELLO WORLD")] :=
    StartDiscovery.nil.dropped (by decide) (by decide) (by decide) rfl
  refine ⟨hfirst.blocked (by decide) (by decide) rfl, hnet, ?_⟩
  intro hreceives
  rw [hnet] at hreceives
  have hzero := hreceives _ _ (blockedTurn_runs 4 false)
    (blockedTurn_expected (by decide) (by decide) rfl)
    (by simp [blockedTurn, Sized, WholeMessage]) (by decide)
  cases hzero

-- A port that another process holds: the call leaves its socket open as well.
example : netAfter 8 [blockedTurn 3 true] = ⟨[3], none⟩ :=
  rfl

end Discovery
end Clacks
