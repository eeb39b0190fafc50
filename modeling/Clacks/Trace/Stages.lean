import Clacks.Trace.Transport

/-!
# Where the tracing processes stand

A client sends one message under one clock reading, and the daemon stores one message
under one clock reading.  Between their operations both can stand in a few places
only; this module names them and says where each operation leads.

Main results:

- Theorem {lit}`ApiCall.program_builds`: every call builds its message from one clock
  reading and sends it.
- Theorem {lit}`SenderAt.sendto`: what a client sends is the message of its call,
  under a clock reading that none of its earlier messages passes.
- Theorem {lit}`DaemonAt.write`: what the daemon writes is the line of the message it
  handles, under a clock reading that no earlier line passes.
-/

namespace Clacks
namespace Trace

open Foundation Program

/-! ## The programs of a call -/

/-- A program that sends {lit}`bytes` once, after it has opened its socket where
needed, and reads no clock. -/
inductive Sends (bytes : List UInt8) : ClientProgram Fd → Prop where
  | socket {k : Fd → ClientProgram Fd} (hrest : ∀ fd, Sends bytes (k (some fd))) :
      Sends bytes (.ask .socket k)
  | sendto {fd domSock : Fd} {d path : List UInt8} {k : Bool → ClientProgram Fd}
      (hbytes : d = bytes) (hdone : k true = .done domSock) :
      Sends bytes (.ask (.sendto fd d path) k)

/-- A program that reads the clock once, after it has formatted its text where
needed, and then sends the message of what it read. -/
inductive Builds (pb : ProtobufC) (call : ApiCall) : ClientProgram Fd → Prop where
  | vasprintf {text : CString} {k : Bool → ClientProgram Fd} (hrest : Builds pb call (k true)) :
      Builds pb call (.ask (.vasprintf text) k)
  | readTime {k : Timespec → ClientProgram Fd}
      (hrest : ∀ time, Sends (datagram pb (call.message time)) (k time)) :
      Builds pb call (.ask .clockGettime k)

/-- {lit}`send_trace_message` sends its message. -/
theorem sendTraceMessage_sends (pb : ProtobufC) (tMsg : TraceMessage) (domSock : Fd) :
    Sends (datagram pb tMsg)
      (sendTraceMessage pb tMsg domSock >>= fun r => Program.done r.2) := by
  cases domSock with
  | none => exact .socket fun fd => .sendto rfl rfl
  | some fd => exact .sendto rfl rfl

/-- Every call builds its message from one clock reading and sends it. -/
theorem ApiCall.program_builds (pb : ProtobufC) (call : ApiCall) (domSock : Fd) :
    Builds pb call (call.program pb domSock) := by
  cases call with
  | trace id text =>
      apply Builds.vasprintf
      exact .readTime fun time => sendTraceMessage_sends pb _ domSock
  | join id jId => exact .readTime fun time => sendTraceMessage_sends pb _ domSock

/-! ## Messages on their way -/

/-- A message that was sent, with the clock reading its call took. -/
structure Posted (ι : Type) where
  sender : ι
  call : ApiCall
  origin : Timespec

variable {ι : Type}

/-- The datagram of a message. -/
def Posted.queued (pb : ProtobufC) (m : Posted ι) : ι × List UInt8 :=
  (m.sender, datagram pb (m.call.message m.origin))

/-- A message in the log, with the clock reading of the daemon. -/
structure Entry (ι : Type) extends Posted ι where
  stored : Timespec

/-- The record of a message in the log. -/
def Entry.record (e : Entry ι) : Record :=
  e.call.record e.origin e.stored.us

/-- Its line. -/
def Entry.written (e : Entry ι) : ι × List UInt8 :=
  (e.sender, e.record.line)

/-- The messages of each client were sent in the order of their clock readings, and
each of them fits the receive buffer. -/
structure SentInOrder (pb : ProtobufC) (now : Int) (messages : List (Posted ι)) : Prop where
  origins : messages.Pairwise fun a b => a.sender = b.sender → a.origin.us ≤ b.origin.us
  le_now : ∀ m ∈ messages, m.origin.us ≤ now
  size_le : ∀ m ∈ messages, pb.getPackedSize (m.call.message m.origin) ≤ 1024

/-- The daemon logged messages in the order of its own clock readings, each after it
was sent. -/
structure LoggedInOrder (now : Int) (logged : List (Entry ι)) : Prop where
  stored : logged.Pairwise fun a b => a.stored.us ≤ b.stored.us
  le_now : ∀ e ∈ logged, e.stored.us ≤ now
  origin_le : ∀ e ∈ logged, e.origin.us ≤ e.stored.us

section Order

variable {pb : ProtobufC} {now now' : Int} {stream : List (Posted ι)}
  {logged : List (Entry ι)}

theorem SentInOrder.later (h : SentInOrder pb now stream) (hle : now ≤ now') :
    SentInOrder pb now' stream :=
  ⟨h.origins, fun m hm => Int.le_trans (h.le_now m hm) hle, h.size_le⟩

theorem LoggedInOrder.later (h : LoggedInOrder now logged) (hle : now ≤ now') :
    LoggedInOrder now' logged :=
  ⟨h.stored, fun e he => Int.le_trans (h.le_now e he) hle, h.origin_le⟩

/-- A client sends a message with the latest clock reading it took. -/
theorem SentInOrder.snoc (h : SentInOrder pb now stream) {m : Posted ι}
    (hsize : pb.getPackedSize (m.call.message m.origin) ≤ 1024) (hnow : m.origin.us ≤ now)
    (hearlier : ∀ m' ∈ stream, m'.sender = m.sender → m'.origin.us ≤ m.origin.us) :
    SentInOrder pb now (stream ++ [m]) := by
  constructor
  · rw [List.pairwise_append]
    refine ⟨h.origins, List.pairwise_singleton _ _, ?_⟩
    intro m' hm' last hlast
    rw [List.mem_singleton] at hlast
    subst hlast
    exact hearlier m' hm'
  · exact List.forall_mem_append.2 ⟨h.le_now, by simpa using hnow⟩
  · exact List.forall_mem_append.2 ⟨h.size_le, by simpa using hsize⟩

/-- The daemon logs a message under the latest clock reading it took. -/
theorem LoggedInOrder.snoc (h : LoggedInOrder now logged) {e : Entry ι} (hnow : e.stored.us ≤ now)
    (horigin : e.origin.us ≤ e.stored.us) (hearlier : ∀ e' ∈ logged, e'.stored.us ≤ e.stored.us) :
    LoggedInOrder now (logged ++ [e]) := by
  constructor
  · rw [List.pairwise_append]
    refine ⟨h.stored, List.pairwise_singleton _ _, ?_⟩
    intro e' he' last hlast
    rw [List.mem_singleton] at hlast
    subst hlast
    exact hearlier e' he'
  · exact List.forall_mem_append.2 ⟨h.le_now, by simpa using hnow⟩
  · exact List.forall_mem_append.2 ⟨h.origin_le, by simpa using horigin⟩

end Order

/-! ## Clients -/

/-- Where client {lit}`i` stands between two operations: the call whose message it has
not sent yet, and what is left to run, when {lit}`messages` were sent and the clock shows
{lit}`now`. -/
inductive SenderAt (pb : ProtobufC) (now : Int) (messages : List (Posted ι)) (i : ι) :
    Option ApiCall → ClientProgram Fd → Prop where
  | resting (domSock : Fd) : SenderAt pb now messages i none (.done domSock)
  | building {call : ApiCall} {p : ClientProgram Fd} (hbuilds : Builds pb call p) :
      SenderAt pb now messages i (some call) p
  | sending {call : ApiCall} {p : ClientProgram Fd} {origin : Timespec}
      (hsends : Sends (datagram pb (call.message origin)) p)
      (hsize : pb.getPackedSize (call.message origin) ≤ 1024) (hnow : origin.us ≤ now)
      (hearlier : ∀ m ∈ messages, m.sender = i → m.origin.us ≤ origin.us) :
      SenderAt pb now messages i (some call) p

section Clients

variable {pb : ProtobufC} {now now' : Int} {stream : List (Posted ι)} {i : ι}
  {current : Option ApiCall} {p : ClientProgram Fd}

/-- A client may wait. -/
theorem SenderAt.later (h : SenderAt pb now stream i current p) (hle : now ≤ now') :
    SenderAt pb now' stream i current p := by
  cases h with
  | resting domSock => exact .resting domSock
  | building hbuilds => exact .building hbuilds
  | sending hsends hsize hnow hearlier =>
      exact .sending hsends hsize (Int.le_trans hnow hle) hearlier

/-- What another client sends does not matter to a client. -/
theorem SenderAt.sent_other (h : SenderAt pb now stream i current p) (m : Posted ι)
    (hm : m.sender ≠ i) : SenderAt pb now (stream ++ [m]) i current p := by
  cases h with
  | resting domSock => exact .resting domSock
  | building hbuilds => exact .building hbuilds
  | sending hsends hsize hnow hearlier =>
      apply SenderAt.sending hsends hsize hnow
      intro m' hm' hsender
      rcases List.mem_append.1 hm' with hold | hnew
      · exact hearlier m' hold hsender
      · rw [List.mem_singleton.1 hnew] at hsender
        exact absurd hsender hm

/-- A client that returned from a call has sent its message. -/
theorem SenderAt.done {domSock : Fd} (h : SenderAt pb now stream i current (.done domSock)) :
    current = none := by
  cases h with
  | resting => rfl
  | building hbuilds => cases hbuilds
  | sending hsends => cases hsends

theorem SenderAt.vasprintf {text : CString} {k : Bool → ClientProgram Fd}
    (h : SenderAt pb now stream i current (.ask (.vasprintf text) k)) :
    SenderAt pb now stream i current (k true) := by
  cases h with
  | building hbuilds =>
      cases hbuilds with
      | vasprintf hrest => exact .building hrest
  | sending hsends => cases hsends

/-- No message of a client was sent after the clock reading its call takes now. -/
theorem SenderAt.readTime {time : Timespec} {call : ApiCall} {k : Timespec → ClientProgram Fd}
    (h : SenderAt pb time.us stream i (some call) (.ask .clockGettime k))
    (hsent : SentInOrder pb time.us stream)
    (hsize : pb.getPackedSize (call.message time) ≤ 1024) :
    SenderAt pb time.us stream i (some call) (k time) := by
  cases h with
  | building hbuilds =>
      cases hbuilds with
      | readTime hrest =>
          apply SenderAt.sending (hrest time) hsize (Int.le_refl _)
          intro m hm _
          exact hsent.le_now m hm
  | sending hsends => cases hsends

theorem SenderAt.socket {k : Fd → ClientProgram Fd}
    (h : SenderAt pb now stream i current (.ask .socket k)) (fd : Nat) :
    SenderAt pb now stream i current (k (some fd)) := by
  cases h with
  | building hbuilds => cases hbuilds
  | sending hsends hsize hnow hearlier =>
      cases hsends with
      | socket hrest => exact .sending (hrest fd) hsize hnow hearlier

/-- What a client hands to {lit}`sendto` is the datagram of its call, and after that
the call returns. -/
theorem SenderAt.sendto {fd : Fd} {bytes path : List UInt8} {k : Bool → ClientProgram Fd}
    (h : SenderAt pb now stream i current (.ask (.sendto fd bytes path) k)) :
    ∃ (m : Posted ι) (domSock : Fd), m.sender = i ∧ current = some m.call ∧
      (i, bytes) = m.queued pb ∧ k true = .done domSock ∧
      pb.getPackedSize (m.call.message m.origin) ≤ 1024 ∧ m.origin.us ≤ now ∧
      ∀ m' ∈ stream, m'.sender = m.sender → m'.origin.us ≤ m.origin.us := by
  cases h with
  | building hbuilds => cases hbuilds
  | @sending call _ origin hsends hsize hnow hearlier =>
      cases hsends with
      | @sendto _ domSock _ _ _ hbytes hdone =>
          refine ⟨⟨i, call, origin⟩, domSock, rfl, rfl, ?_, hdone, hsize, hnow, hearlier⟩
          rw [hbytes]
          rfl

end Clients

/-! ## The daemon -/

/-- Where the daemon stands between two operations: what is left to run, and the message
it handles, if any, when {lit}`logged` is in the log and the clock shows {lit}`now`. -/
inductive DaemonAt (now : Int) (logged : List (Entry ι)) (handling : Option ι) :
    StoreProgram Fd → Option (Posted ι) → Prop where
  | idle (outFile : Fd) : DaemonAt now logged handling (.done outFile) none
  | received {m : Posted ι} {p : StoreProgram Fd} (hhandling : handling = some m.sender)
      (hstamps : Stamps (fun time => (m.call.record m.origin time.us).line) p) :
      DaemonAt now logged handling p (some m)
  | stamped {m : Posted ι} {p : StoreProgram Fd} {stored : Timespec}
      (hhandling : handling = some m.sender)
      (hwrites : Writes (m.call.record m.origin stored.us).line p)
      (hnow : stored.us ≤ now) (horigin : m.origin.us ≤ stored.us)
      (hearlier : ∀ e ∈ logged, e.stored.us ≤ stored.us) :
      DaemonAt now logged handling p (some m)

/-- The daemon stores a message that arrives whole. -/
theorem Posted.receiveTurn_stamps {pb : ProtobufC} (hpb : pb.Conforms) {m : Posted ι}
    (hsize : pb.getPackedSize (m.call.message m.origin) ≤ 1024) (outFile : Fd) :
    Stamps (fun time => (m.call.record m.origin time.us).line)
      (receiveTurn pb (some (receive (m.queued pb).2)) outFile) := by
  have hunpack := hpb.unpack_pack (m.call.message m.origin)
  rw [← receive_datagram_of_le hsize] at hunpack
  have hstamps := handleMessage_stamps hunpack outFile
  simp only [m.call.record_received] at hstamps
  exact hstamps

section Daemon

variable {now now' : Int} {logged : List (Entry ι)} {handling : Option ι} {p : StoreProgram Fd}
  {handled : Option (Posted ι)}

/-- The daemon may wait. -/
theorem DaemonAt.later (h : DaemonAt now logged handling p handled) (hle : now ≤ now') :
    DaemonAt now' logged handling p handled := by
  cases h with
  | idle outFile => exact .idle outFile
  | received hhandling hstamps => exact .received hhandling hstamps
  | stamped hhandling hwrites hnow horigin hearlier =>
      exact .stamped hhandling hwrites (Int.le_trans hnow hle) horigin hearlier

/-- A daemon that is back in its loop handles no message. -/
theorem DaemonAt.done {outFile : Fd} (h : DaemonAt now logged handling (.done outFile) handled) :
    handled = none := by
  cases h with
  | idle => rfl
  | received _ hstamps =>
      rcases hstamps with ⟨_, hclock, _⟩
      cases hclock
  | stamped _ hwrites => cases hwrites

/-- All messages that were logged or are handled were sent before the clock reading the
daemon takes now. -/
theorem DaemonAt.getLocalTime {time : Timespec} {k : Timespec → StoreProgram Fd}
    (h : DaemonAt time.us logged handling (.ask .clockGettime k) handled)
    (hsent : ∀ m ∈ handled, m.origin.us ≤ time.us) (hlogged : LoggedInOrder time.us logged) :
    DaemonAt time.us logged handling (k time) handled := by
  cases h with
  | @received m _ hhandling hstamps =>
      rcases hstamps with ⟨_, hclock, hwrites⟩
      cases hclock
      exact .stamped hhandling (hwrites time) (Int.le_refl _) (hsent m rfl) hlogged.le_now
  | stamped _ hwrites => cases hwrites

theorem DaemonAt.asprintf {text : List UInt8} {k : Bool → StoreProgram Fd}
    (h : DaemonAt now logged handling (.ask (.asprintf text) k) handled) :
    DaemonAt now logged handling (k true) handled := by
  cases h with
  | received _ hstamps =>
      rcases hstamps with ⟨_, hclock, _⟩
      cases hclock
  | stamped hhandling hwrites hnow horigin hearlier =>
      cases hwrites with
      | asprintf hrest => exact .stamped hhandling hrest hnow horigin hearlier

theorem DaemonAt.openFile {k : Fd → StoreProgram Fd}
    (h : DaemonAt now logged handling (.ask .openFile k) handled) (fd : Nat) :
    DaemonAt now logged handling (k (some fd)) handled := by
  cases h with
  | received _ hstamps =>
      rcases hstamps with ⟨_, hclock, _⟩
      cases hclock
  | stamped hhandling hwrites hnow horigin hearlier =>
      cases hwrites with
      | openFile hrest => exact .stamped hhandling (hrest fd) hnow horigin hearlier

/-- What the daemon writes is the line of the message it handles, and after that it
is back in its loop. -/
theorem DaemonAt.write {fd : Fd} {bytes : List UInt8}
    {k : Option (Fin (bytes.length + 1)) → StoreProgram Fd}
    (h : DaemonAt now logged handling (.ask (.write fd bytes) k) handled) :
    ∃ (e : Entry ι) (outFile : Fd), handled = some e.toPosted ∧ handling = some e.sender ∧
      bytes = e.record.line ∧ k (some (Fin.last _)) = .done outFile ∧ e.stored.us ≤ now ∧
      e.origin.us ≤ e.stored.us ∧ ∀ e' ∈ logged, e'.stored.us ≤ e.stored.us := by
  cases h with
  | received _ hstamps =>
      rcases hstamps with ⟨_, hclock, _⟩
      cases hclock
  | @stamped m _ stored hhandling hwrites hnow horigin hearlier =>
      cases hwrites with
      | @write _ _ _ outFile hbytes hdone =>
          exact ⟨⟨m, stored⟩, outFile, rfl, hhandling, hbytes, hdone, hnow, horigin, hearlier⟩

end Daemon

end Trace
end Clacks
