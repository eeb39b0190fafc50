import Clacks.Discovery.Listener
import Mathlib.Data.List.Nodup
import Mathlib.Data.List.Perm.Subperm

/-!
# Discovery after a call that failed

A call of {lit}`start_discovery`'s loop that returns 1 after its {lit}`socket` keeps that
socket for ever, so the sockets that are open count the calls that returned 1, as long as
the process may open any.  The loop never gets over a {lit}`recvfrom` that does not deliver a
whole message: the call that dropped the datagram has kept its socket and the port with it,
and every later call fails at {lit}`socket` or at {lit}`bind`.

Main results:

- Theorem {lit}`Leaked.turn`: how one call changes the number of open sockets.
- Theorem {lit}`Holds.turn`: one call while an earlier one holds the port.
- Theorem {lit}`startDiscovery_deaf`: the whole loop.
-/

namespace Clacks
namespace Discovery

open Foundation Program

variable {limit : Nat} {taken : Bool} {s : Net} {events : List DiscoveryEvent} {ret : Int}

/-- Of the sockets that {lit}`count` calls kept all are open that the process may open. -/
structure Leaked (limit : Nat) (s : Net) (count : Nat) : Prop where
  nodup : s.opened.Nodup
  bounded : ∀ fd ∈ s.opened, fd < limit
  length_eq : s.opened.length = min limit count

/-- The open socket {lit}`holder` has the port. -/
structure Holds (s : Net) (holder : Nat) : Prop where
  opened : holder ∈ s.opened
  port : s.port = some holder

/-- Sockets with different descriptors are no more than there are descriptors. -/
theorem length_le_limit {opened : List Nat} (hnodup : opened.Nodup)
    (hbounded : ∀ fd ∈ opened, fd < limit) : opened.length ≤ limit := by
  have hsubset : opened ⊆ List.range limit := fun fd hfd => List.mem_range.2 (hbounded fd hfd)
  simpa using (List.subperm_of_subset hnodup hsubset).length_le

theorem limit_le_length {opened : List Nat} (hall : ∀ fd < limit, fd ∈ opened) :
    limit ≤ opened.length := by
  have hsubset : List.range limit ⊆ opened := fun fd hfd => hall fd (List.mem_range.1 hfd)
  simpa using (List.subperm_of_subset List.nodup_range hsubset).length_le

/-- A call that gets a descriptor and does not close it has one socket more open. -/
theorem Leaked.keep {count fd : Nat} {port : Option Nat} (h : Leaked limit s count)
    (hlimit : fd < limit) (hnew : fd ∉ s.opened) :
    Leaked limit ⟨fd :: s.opened, port⟩ (count + 1) := by
  have hnodup : (fd :: s.opened).Nodup := List.nodup_cons.2 ⟨hnew, h.nodup⟩
  have hbounded : ∀ fd' ∈ fd :: s.opened, fd' < limit := by
    intro fd' hfd'
    rcases List.mem_cons.1 hfd' with rfl | hfd'
    · exact hlimit
    · exact h.bounded fd' hfd'
  refine ⟨hnodup, hbounded, ?_⟩
  have hroom := length_le_limit hnodup hbounded
  have hlength := h.length_eq
  rw [List.length_cons] at hroom
  change s.opened.length + 1 = min limit (count + 1)
  omega

/-- A call that returns 1 leaves one more socket open if there is room for one, and a call
that returns 0 leaves none. -/
theorem Leaked.turn {count : Nat} (h : Leaked limit s count)
    (hrun : waitForTransport.Runs events ret) (hexpected : (net limit taken).Expected s events) :
    Leaked limit ((net limit taken).after s events) (count + if ret = 1 then 1 else 0) := by
  cases waitForTransport_call hrun hexpected with
  | noSocket hfull =>
      -- There is no descriptor left.
      refine ⟨h.nodup, h.bounded, ?_⟩
      have hlength := h.length_eq
      have hroom : limit ≤ s.opened.length := limit_le_length hfull
      change s.opened.length = min limit (count + 1)
      omega
  | noBind hlimit hnew _ => exact h.keep hlimit hnew
  | dropped hlimit hnew _ _ => exact h.keep hlimit hnew
  | @received fd _ _ _ _ _ =>
      refine ⟨?_, ?_, ?_⟩
      all_goals simp only [Monitor.after_cons, Monitor.after_nil, net, List.erase_cons_head]
      · exact h.nodup
      · exact h.bounded
      · exact h.length_eq

/-- The call that drops what it received keeps its socket, and the port with it. -/
theorem waitForTransport_dropped (hrun : waitForTransport.Runs events ret)
    (hexpected : (net limit taken).Expected s events) (hbad : ¬Sized events) :
    ret = 1 ∧ ∃ holder, ⟨.bind holder, true⟩ ∈ events ∧
      Holds ((net limit taken).after s events) holder := by
  cases waitForTransport_call hrun hexpected with
  | noSocket _ => exact absurd (by simp [Sized, WholeMessage]) hbad
  | noBind _ _ _ => exact absurd (by simp [Sized, WholeMessage]) hbad
  | @dropped fd _ _ _ _ _ => exact ⟨rfl, fd, by simp, List.mem_cons_self, rfl⟩
  | received _ _ _ hsize => exact absurd (by simp [Sized, WholeMessage, hsize]) hbad

/-- While an earlier call holds the port a call fails before it could receive anything. -/
theorem Holds.turn {holder : Nat} (h : Holds s holder) (hrun : waitForTransport.Runs events ret)
    (hexpected : (net limit taken).Expected s events) :
    (ret = 1 ∧ ∀ fd received, ⟨.recvfrom fd, received⟩ ∉ events) ∧
      Holds ((net limit taken).after s events) holder := by
  have htaken : s.port ≠ none := by simp [h.port]
  cases waitForTransport_call hrun hexpected with
  | noSocket _ => exact ⟨⟨rfl, by simp⟩, h.opened, h.port⟩
  | @noBind fd _ _ _ => exact ⟨⟨rfl, by simp⟩, List.mem_cons_of_mem fd h.opened, h.port⟩
  | dropped _ _ hport _ => exact absurd hport htaken
  | received _ _ hport _ => exact absurd hport htaken

section Loop

variable {turns : List Turn}

/-- The process has as many sockets open as calls returned 1, or all that it may open. -/
theorem StartDiscovery.leaked (h : StartDiscovery limit turns) :
    Leaked limit (netAfter limit turns) (turns.countP fun turn => turn.ret = 1) := by
  induction h with
  | nil => exact ⟨List.nodup_nil, by simp [netAfter, Net.free], by simp [netAfter, Net.free]⟩
  | @snoc turns turn _ hrun hexpected ih =>
      have hnext := ih.turn hrun hexpected
      rw [netAfter_append, List.countP_append, List.countP_singleton]
      simpa using hnext

/-- From the call on that dropped its datagram the port is never free again. -/
theorem StartDiscovery.holds {front later : List Turn} {bad : Turn}
    (h : StartDiscovery limit (front ++ bad :: later)) (hbad : ¬Sized bad.events) :
    (bad.ret = 1 ∧
      ∀ turn ∈ later, turn.ret = 1 ∧ ∀ fd received, ⟨.recvfrom fd, received⟩ ∉ turn.events) ∧
      ∃ holder, ⟨.bind holder, true⟩ ∈ bad.events ∧
        Holds (netAfter limit (front ++ bad :: later)) holder := by
  induction later using List.reverseRecOn with
  | nil =>
      rcases startDiscovery_append_iff.1 h with ⟨_, hrun, hexpected⟩
      rcases waitForTransport_dropped hrun hexpected hbad with ⟨hret, holder, hbind, hholds⟩
      refine ⟨⟨hret, by simp⟩, holder, hbind, ?_⟩
      rw [netAfter_append]
      exact hholds
  | append_singleton later turn ih =>
      rw [← List.cons_append, ← List.append_assoc] at h
      rcases startDiscovery_append_iff.1 h with ⟨hbefore, hrun, hexpected⟩
      rcases ih hbefore with ⟨⟨hret, hlater⟩, holder, hbind, hholds⟩
      rcases hholds.turn hrun hexpected with ⟨hfails, hnext⟩
      refine ⟨⟨hret, List.forall_mem_append.2 ⟨hlater, by simpa using hfails⟩⟩, holder, hbind, ?_⟩
      rw [← List.cons_append, ← List.append_assoc, netAfter_append]
      exact hnext

/-- In every run of the loop the process has as many sockets open as calls returned 1, or
all that it may open.  After a call whose {lit}`recvfrom` did not deliver a whole message no
call receives anything again: each returns 1, and the socket that was kept holds the port. -/
theorem startDiscovery_deaf (h : StartDiscovery limit turns) :
    (netAfter limit turns).opened.length = min limit (turns.countP fun turn => turn.ret = 1) ∧
      ∀ front bad later, turns = front ++ bad :: later → ¬Sized bad.events →
        bad.ret = 1 ∧
        (∀ turn ∈ later, turn.ret = 1 ∧ ∀ fd received, ⟨.recvfrom fd, received⟩ ∉ turn.events) ∧
        ∃ fd, ⟨.bind fd, true⟩ ∈ bad.events ∧ fd ∈ (netAfter limit turns).opened ∧
          (netAfter limit turns).port = some fd := by
  refine ⟨h.leaked.length_eq, ?_⟩
  intro front bad later hturns hbad
  subst hturns
  rcases h.holds hbad with ⟨⟨hret, hlater⟩, holder, hbind, hholds⟩
  exact ⟨hret, hlater, holder, hbind, hholds.opened, hholds.port⟩

end Loop

/-- A call that finds the port in the hands of another process, one that receives a message,
one that drops the datagram of the test application, and one after it. -/
theorem startDiscovery_deaf_hello_world :
    let turns := [blockedTurn 7 true, receivedTurn 5 (List.replicate 16 0),
      droppedTurn (ascii "HELLO WORLD"), blockedTurn 4 false]
    (netAfter 8 turns).opened.length = 3 ∧ (netAfter 8 turns).port = some 3 := by
  intro turns
  have hblocked : StartDiscovery 8 [blockedTurn 7 true] :=
    StartDiscovery.nil.blocked (by decide) (by decide) rfl
  have hreceived : StartDiscovery 8
      [blockedTurn 7 true, receivedTurn 5 (List.replicate 16 0)] :=
    hblocked.received (by decide) (by decide) (by decide) rfl
  have hdropped : StartDiscovery 8 [blockedTurn 7 true, receivedTurn 5 (List.replicate 16 0),
      droppedTurn (ascii "HELLO WORLD")] :=
    hreceived.dropped (by decide) (by decide) (by decide) rfl
  have hloop : StartDiscovery 8 turns := hdropped.blocked (by decide) (by decide) rfl
  have hbad : ¬Sized (droppedTurn (ascii "HELLO WORLD")).events := by
    intro hsized
    have hwhole : recvlen (some (Chunk.front clDiscoverBuffS (ascii "HELLO WORLD"))) =
        clDiscoverBuffS :=
      hsized ⟨.recvfrom 3, some (Chunk.front clDiscoverBuffS (ascii "HELLO WORLD"))⟩
        (by simp [droppedTurn])
    exact absurd hwhole (by decide)
  rcases startDiscovery_deaf hloop with ⟨hcount, hdeaf⟩
  refine ⟨hcount, ?_⟩
  rcases hdeaf [blockedTurn 7 true, receivedTurn 5 (List.replicate 16 0)] _ _ rfl hbad with
    ⟨_, _, fd, hbind, _, hport⟩
  have hfd : fd = 3 := by simpa [droppedTurn] using hbind
  rw [hport, hfd]

end Discovery
end Clacks
