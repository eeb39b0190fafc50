import Clacks.Trace.Delivery
import Clacks.Trace.Stages
import Mathlib.Data.List.Infix
import Mathlib.Logic.Relation

/-!
# Any number of clients and one log

Every client makes its calls one after another in its own process; the daemon
receives, reads the clock and appends in a single thread.  All of them share the
monotonic clock of the host, and the datagrams wait in one queue.  The steps of all
processes interleave freely and no system call fails.

Main results:

- Theorem {lit}`Reachable.invariant`: what is logged, being handled and queued, in
  this order, is what the clients have sent, and all clock readings stand in it in
  the order in which they were taken.
- Theorem {lit}`log_order`: order and timestamps in the log at every moment.
- Theorem {lit}`log_complete`: the log when no message is on its way.
-/

namespace Clacks
namespace Trace

open Foundation Program

/-! ## The processes -/

/-- A client: the calls it has not begun, the call whose message it has not sent
yet, and what is left to run of a call. -/
structure Sender where
  waiting : List ApiCall
  current : Option ApiCall
  prog : ClientProgram Fd

/-- All processes of a host, the queue of the daemon's socket and the log.  The
sender of a datagram is kept beside it, and beside the line it leads to. -/
structure Tracing (ι : Type) where
  clock : Timespec
  sender : ι → Sender
  queue : List (ι × List UInt8)
  handling : Option ι
  daemon : StoreProgram Fd
  log : List (ι × List UInt8)

variable {ι : Type}

/-- No client has begun a call, and the daemon waits in its loop. -/
def Tracing.initial (calls : ι → List ApiCall) (clock : Timespec) : Tracing ι where
  clock := clock
  sender i := ⟨calls i, none, .done none⟩
  queue := []
  handling := none
  daemon := .done none
  log := []

variable [DecidableEq ι]

/-- Client {lit}`i` becomes {lit}`s`. -/
def Tracing.set (n : Tracing ι) (i : ι) (s : Sender) : Tracing ι :=
  { n with sender := Function.update n.sender i s }

/-- Client {lit}`i` goes on with {lit}`p`. -/
def Tracing.resume (n : Tracing ι) (i : ι) (p : ClientProgram Fd) : Tracing ι :=
  n.set i { n.sender i with prog := p }

/-- One step of the clock or of one process, no system call failing.  Clock results
stay below {lit}`2 ^ 63`, and a client only goes on with messages of at most 1024
bytes. -/
inductive Tracing.Step (pb : ProtobufC) (n : Tracing ι) : Tracing ι → Prop where
  | tick {clock : Timespec} (hle : n.clock ≤ clock) (hbound : clock.us < 2 ^ 63) :
      Step pb n { n with clock := clock }
  | begin (i : ι) {call : ApiCall} {rest : List ApiCall} {domSock : Fd}
      (hwaiting : (n.sender i).waiting = call :: rest) (hprog : (n.sender i).prog = .done domSock) :
      Step pb n (n.set i ⟨rest, some call, call.program pb domSock⟩)
  | vasprintf (i : ι) {text : CString} {k : Bool → ClientProgram Fd}
      (hprog : (n.sender i).prog = .ask (.vasprintf text) k) : Step pb n (n.resume i (k true))
  | readTime (i : ι) {call : ApiCall} {k : Timespec → ClientProgram Fd}
      (hcurrent : (n.sender i).current = some call)
      (hprog : (n.sender i).prog = .ask .clockGettime k)
      (hsize : pb.getPackedSize (call.message n.clock) ≤ 1024) :
      Step pb n (n.resume i (k n.clock))
  | socket (i : ι) (fd : Nat) {k : Fd → ClientProgram Fd}
      (hprog : (n.sender i).prog = .ask .socket k) : Step pb n (n.resume i (k (some fd)))
  | sendto (i : ι) {fd : Nat} {bytes : List UInt8} {k : Bool → ClientProgram Fd}
      (hprog : (n.sender i).prog = .ask (.sendto (some fd) bytes clTransportDomSocket) k) :
      Step pb n { n.set i ⟨(n.sender i).waiting, none, k true⟩ with
        queue := n.queue ++ [(i, bytes)] }
  | recv {i : ι} {bytes : List UInt8} {rest : List (ι × List UInt8)} {outFile : Fd}
      (hqueue : n.queue = (i, bytes) :: rest) (hdaemon : n.daemon = .done outFile) :
      Step pb n { n with
        queue := rest
        handling := some i
        daemon := receiveTurn pb (some (receive bytes)) outFile }
  | getLocalTime {k : Timespec → StoreProgram Fd} (hdaemon : n.daemon = .ask .clockGettime k) :
      Step pb n { n with daemon := k n.clock }
  | asprintf {text : List UInt8} {k : Bool → StoreProgram Fd}
      (hdaemon : n.daemon = .ask (.asprintf text) k) : Step pb n { n with daemon := k true }
  | openFile (fd : Nat) {k : Fd → StoreProgram Fd} (hdaemon : n.daemon = .ask .openFile k) :
      Step pb n { n with daemon := k (some fd) }
  | write {i : ι} {fd : Nat} {bytes : List UInt8}
      {k : Option (Fin (bytes.length + 1)) → StoreProgram Fd} (hhandling : n.handling = some i)
      (hdaemon : n.daemon = .ask (.write (some fd) bytes) k) :
      Step pb n { n with
        daemon := k (some (Fin.last _))
        log := n.log ++ [(i, bytes)] }

/-- The states of all interleavings, from any reading of the clock on. -/
def Tracing.Reachable (pb : ProtobufC) (calls : ι → List ApiCall) (n : Tracing ι) : Prop :=
  ∃ clock : Timespec, clock.us < 2 ^ 63 ∧
    Relation.ReflTransGen (Step pb) (initial calls clock) n

/-! ## The invariant -/

/-- The calls of one client among messages. -/
def callsOf (i : ι) (messages : List (Posted ι)) : List ApiCall :=
  (messages.filter (·.sender = i)).map Posted.call

@[simp]
theorem callsOf_append (i : ι) (first second : List (Posted ι)) :
    callsOf i (first ++ second) = callsOf i first ++ callsOf i second := by
  simp [callsOf]

/-- All messages that were sent, in order: those in the log, the one the daemon
handles and those in the queue. -/
def messages (logged : List (Entry ι)) (handled : Option (Posted ι))
    (queued : List (Posted ι)) : List (Posted ι) :=
  logged.map Entry.toPosted ++ (handled.toList ++ queued)

/-- The invariant of all interleavings. -/
structure Tracing.Invariant (pb : ProtobufC) (calls : ι → List ApiCall) (n : Tracing ι)
    (logged : List (Entry ι)) (handled : Option (Posted ι)) (queued : List (Posted ι)) : Prop where
  bound : n.clock.us < 2 ^ 63
  log : n.log = logged.map Entry.written
  queue : n.queue = queued.map (Posted.queued pb)
  calls : ∀ i, callsOf i (messages logged handled queued) ++
    ((n.sender i).current.toList ++ (n.sender i).waiting) = calls i
  sent : SentInOrder pb n.clock.us (messages logged handled queued)
  chronicle : LoggedInOrder n.clock.us logged
  sender : ∀ i, SenderAt pb n.clock.us (messages logged handled queued) i (n.sender i).current
    (n.sender i).prog
  daemon : DaemonAt n.clock.us logged n.handling n.daemon handled

/-! ## The steps -/

section Steps

variable {pb : ProtobufC} {calls : ι → List ApiCall} {n n' : Tracing ι}
  {logged : List (Entry ι)} {handled : Option (Posted ι)} {queued : List (Posted ι)}

theorem Tracing.Invariant.senderAt (h : n.Invariant pb calls logged handled queued) {i : ι}
    {p : ClientProgram Fd} (hprog : (n.sender i).prog = p) :
    SenderAt pb n.clock.us (messages logged handled queued) i (n.sender i).current p := by
  rw [← hprog]
  exact h.sender i

theorem Tracing.Invariant.daemonAt (h : n.Invariant pb calls logged handled queued)
    {p : StoreProgram Fd} (hdaemon : n.daemon = p) :
    DaemonAt n.clock.us logged n.handling p handled := by
  rw [← hdaemon]
  exact h.daemon

/-- A step of a client that sends nothing. -/
theorem Tracing.Invariant.set (h : n.Invariant pb calls logged handled queued) {i : ι} {s : Sender}
    (hcalls : s.current.toList ++ s.waiting =
      (n.sender i).current.toList ++ (n.sender i).waiting)
    (hat : SenderAt pb n.clock.us (messages logged handled queued) i s.current s.prog) :
    (n.set i s).Invariant pb calls logged handled queued := by
  refine ⟨h.bound, h.log, h.queue, ?_, h.sent, h.chronicle, ?_, h.daemon⟩
  · intro j
    rw [← h.calls j]
    by_cases hji : j = i
    · subst hji
      simp [Tracing.set, hcalls]
    · simp [Tracing.set, hji]
  · intro j
    by_cases hji : j = i
    · subst hji
      simpa [Tracing.set] using hat
    · simpa [Tracing.set, hji] using h.sender j

/-- A step of the daemon that neither receives nor logs a message. -/
theorem Tracing.Invariant.setDaemon (h : n.Invariant pb calls logged handled queued)
    {p : StoreProgram Fd} (hat : DaemonAt n.clock.us logged n.handling p handled) :
    { n with daemon := p }.Invariant pb calls logged handled queued :=
  ⟨h.bound, h.log, h.queue, h.calls, h.sent, h.chronicle, h.sender, hat⟩

/-- A client that sends puts the message of its call at the end of all messages. -/
theorem Tracing.Invariant.sendto (h : n.Invariant pb calls logged handled queued) {i : ι} {fd : Fd}
    {bytes path : List UInt8} {k : Bool → ClientProgram Fd}
    (hprog : (n.sender i).prog = .ask (.sendto fd bytes path) k) :
    ∃ m, { n.set i ⟨(n.sender i).waiting, none, k true⟩ with
      queue := n.queue ++ [(i, bytes)] }.Invariant pb calls logged handled (queued ++ [m]) := by
  have hat := h.senderAt hprog
  rcases hat.sendto with ⟨m, domSock, hsender, hcurrent, hqueued, hdone, hsize, hnow, hearlier⟩
  have hmessages : messages logged handled (queued ++ [m]) =
      messages logged handled queued ++ [m] := by
    simp [messages]
  refine ⟨m, h.bound, h.log, ?_, ?_, ?_, h.chronicle, ?_, h.daemon⟩
  · simp [h.queue, hqueued]
  · intro j
    rw [← h.calls j, hmessages]
    by_cases hji : j = i
    · subst hji
      simp [Tracing.set, hcurrent, callsOf, hsender]
    · have hij : i ≠ j := fun h => hji h.symm
      simp [Tracing.set, callsOf, hsender, hji, hij]
  · rw [hmessages]
    exact h.sent.snoc hsize hnow hearlier
  · intro j
    rw [hmessages]
    by_cases hji : j = i
    · subst hji
      simpa [Tracing.set, hdone] using SenderAt.resting domSock
    · have hother := (h.sender j).sent_other m fun hm => hji (hm.symm.trans hsender)
      simpa [Tracing.set, hji] using hother

/-- The daemon takes the first message of the queue, and all of it. -/
theorem Tracing.Invariant.recv (hpb : pb.Conforms)
    (h : n.Invariant pb calls logged handled queued) {i : ι} {bytes : List UInt8}
    {rest : List (ι × List UInt8)} {outFile : Fd} (hqueue : n.queue = (i, bytes) :: rest)
    (hdaemon : n.daemon = .done outFile) :
    ∃ m queued', { n with
      queue := rest
      handling := some i
      daemon := receiveTurn pb (some (receive bytes)) outFile }.Invariant pb calls logged (some m)
        queued' := by
  have hat := h.daemonAt hdaemon
  have hidle : handled = none := hat.done
  subst hidle
  have hqueued := h.queue
  rw [hqueue] at hqueued
  cases queued with
  | nil => simp at hqueued
  | cons m queued =>
      rw [List.map_cons, List.cons.injEq] at hqueued
      rcases hqueued with ⟨hm, hrest⟩
      have hmessages : messages logged (some m) queued = messages logged none (m :: queued) := rfl
      refine ⟨m, queued, h.bound, h.log, hrest, hmessages ▸ h.calls, hmessages ▸ h.sent,
        h.chronicle, hmessages ▸ h.sender, ?_⟩
      cases hm
      have hsize := h.sent.size_le m (by simp [messages])
      exact .received rfl (m.receiveTurn_stamps hpb hsize outFile)

/-- What the daemon writes becomes the last entry of the log. -/
theorem Tracing.Invariant.write (h : n.Invariant pb calls logged handled queued) {i : ι} {fd : Fd}
    {bytes : List UInt8} {k : Option (Fin (bytes.length + 1)) → StoreProgram Fd}
    (hhandling : n.handling = some i) (hdaemon : n.daemon = .ask (.write fd bytes) k) :
    ∃ e, { n with
      daemon := k (some (Fin.last _))
      log := n.log ++ [(i, bytes)] }.Invariant pb calls (logged ++ [e]) none queued := by
  have hat := h.daemonAt hdaemon
  rcases hat.write with ⟨e, outFile, rfl, hsender, hbytes, hdone, hnow, horigin, hearlier⟩
  rw [hhandling, Option.some.injEq] at hsender
  have hmessages : messages (logged ++ [e]) none queued =
      messages logged (some e.toPosted) queued := by
    simp [messages]
  refine ⟨e, h.bound, ?_, h.queue, hmessages ▸ h.calls, hmessages ▸ h.sent,
    h.chronicle.snoc hnow horigin hearlier, hmessages ▸ h.sender, ?_⟩
  · simp [h.log, hsender, hbytes, Entry.written]
  · rw [hdone]
    exact .idle outFile

/-- Every step of every process keeps the invariant. -/
theorem Tracing.Invariant.step (hpb : pb.Conforms)
    (h : n.Invariant pb calls logged handled queued) (hstep : n.Step pb n') :
    ∃ logged' handled' queued', n'.Invariant pb calls logged' handled' queued' := by
  cases hstep with
  | tick hle hbound =>
      have hnow := Timespec.us_mono hle
      refine ⟨logged, handled, queued, hbound, h.log, h.queue, h.calls, h.sent.later hnow,
        h.chronicle.later hnow, ?_, h.daemon.later hnow⟩
      exact fun i => (h.sender i).later hnow
  | @begin i call rest domSock hwaiting hprog =>
      have hat := h.senderAt hprog
      refine ⟨logged, handled, queued, h.set ?_ ?_⟩
      · simp [hat.done, hwaiting]
      · exact .building (call.program_builds pb domSock)
  | vasprintf i hprog =>
      exact ⟨logged, handled, queued, h.set rfl (h.senderAt hprog).vasprintf⟩
  | readTime i hcurrent hprog hsize =>
      have hat := h.senderAt hprog
      rw [hcurrent] at hat
      refine ⟨logged, handled, queued, h.set rfl ?_⟩
      rw [hcurrent]
      exact hat.readTime h.sent hsize
  | socket i fd hprog =>
      exact ⟨logged, handled, queued, h.set rfl ((h.senderAt hprog).socket fd)⟩
  | sendto i hprog =>
      rcases h.sendto hprog with ⟨m, hnext⟩
      exact ⟨logged, handled, queued ++ [m], hnext⟩
  | recv hqueue hdaemon =>
      rcases h.recv hpb hqueue hdaemon with ⟨m, queued', hnext⟩
      exact ⟨logged, some m, queued', hnext⟩
  | getLocalTime hdaemon =>
      have hat := h.daemonAt hdaemon
      refine ⟨logged, handled, queued, h.setDaemon (hat.getLocalTime ?_ h.chronicle)⟩
      intro m hm
      apply h.sent.le_now
      simp [messages, Option.mem_def.1 hm]
  | asprintf hdaemon =>
      exact ⟨logged, handled, queued, h.setDaemon (h.daemonAt hdaemon).asprintf⟩
  | openFile fd hdaemon =>
      exact ⟨logged, handled, queued, h.setDaemon ((h.daemonAt hdaemon).openFile fd)⟩
  | write hhandling hdaemon =>
      rcases h.write hhandling hdaemon with ⟨e, hnext⟩
      exact ⟨logged ++ [e], none, queued, hnext⟩

end Steps

/-! ## Runs -/

section Runs

variable {pb : ProtobufC} {calls : ι → List ApiCall} {n : Tracing ι}

/-- The invariant holds before the first step. -/
theorem Tracing.Invariant.initial (pb : ProtobufC) (calls : ι → List ApiCall) {clock : Timespec}
    (hbound : clock.us < 2 ^ 63) :
    (Tracing.initial calls clock).Invariant pb calls [] none [] where
  bound := hbound
  log := rfl
  queue := rfl
  calls _ := rfl
  sent := ⟨.nil, by simp [messages], by simp [messages]⟩
  chronicle := ⟨.nil, by simp, by simp⟩
  sender _ := .resting none
  daemon := .idle none

/-- The invariant holds in every state of every interleaving. -/
theorem Tracing.Reachable.invariant (hpb : pb.Conforms) (h : n.Reachable pb calls) :
    ∃ logged handled queued, n.Invariant pb calls logged handled queued := by
  rcases h with ⟨clock, hbound, hsteps⟩
  induction hsteps with
  | refl => exact ⟨[], none, [], .initial pb calls hbound⟩
  | tail _ hstep ih =>
      rcases ih with ⟨logged, handled, queued, hinvariant⟩
      exact hinvariant.step hpb hstep

/-- The field of a logged message is the clock reading of its client. -/
theorem Tracing.Invariant.tsOrigin_eq {logged : List (Entry ι)} {handled : Option (Posted ι)}
    {queued : List (Posted ι)} (h : n.Invariant pb calls logged handled queued) {e : Entry ι}
    (he : e ∈ logged) : (e.record.tsOrigin.toNat : Int) = e.origin.us := by
  have hnow : e.origin.us ≤ n.clock.us := by
    apply h.sent.le_now
    exact List.mem_append_left _ (List.mem_map_of_mem he)
  rw [Entry.record, ApiCall.record_tsOrigin]
  exact toNat_toUInt64_ofInt e.origin.us_nonneg (Int.lt_of_le_of_lt hnow h.bound)

/-- Order and timestamps in the log, at every moment of every interleaving.  The log is
a list of lines of which each belongs to one call of its sender; for every client these
are its first calls in call order, each once.  The daemon's times do not decrease in the
whole log, the clients' times do not decrease within each client, and no record has a
client's time after the daemon's. -/
theorem log_order (hpb : pb.Conforms) (h : n.Reachable pb calls) :
    ∃ logged : List (Entry ι), n.log = logged.map Entry.written ∧
      (∀ i, callsOf i (logged.map Entry.toPosted) <+: calls i) ∧
      (logged.Pairwise fun a b => a.record.daemonTime ≤ b.record.daemonTime) ∧
      (logged.Pairwise fun a b => a.sender = b.sender →
        a.record.tsOrigin.toNat ≤ b.record.tsOrigin.toNat) ∧
      ∀ e ∈ logged, (e.record.tsOrigin.toNat : Int) ≤ e.record.daemonTime := by
  rcases h.invariant hpb with ⟨logged, handled, queued, hinvariant⟩
  refine ⟨logged, hinvariant.log, ?_, ?_, ?_, ?_⟩
  · intro i
    rw [← hinvariant.calls i, messages, callsOf_append, List.append_assoc]
    exact List.prefix_append _ _
  · simpa [Entry.record] using hinvariant.chronicle.stored
  · have horigins := (List.pairwise_append.1 hinvariant.sent.origins).1
    rw [List.pairwise_map] at horigins
    apply horigins.imp_of_mem
    intro a b ha hb hle hsender
    have hus := hle hsender
    rw [← hinvariant.tsOrigin_eq ha, ← hinvariant.tsOrigin_eq hb] at hus
    omega
  · intro e he
    rw [hinvariant.tsOrigin_eq he, Entry.record, ApiCall.record_daemonTime]
    exact hinvariant.chronicle.origin_le e he

/-- Nothing is lost.  When the daemon is back in its loop and finds its queue empty, the
log has all calls of every client that made all its calls. -/
theorem log_complete (hpb : pb.Conforms) (h : n.Reachable pb calls) {outFile : Fd}
    (hqueue : n.queue = []) (hdaemon : n.daemon = .done outFile) :
    ∃ logged : List (Entry ι), n.log = logged.map Entry.written ∧
      ∀ i domSock, (n.sender i).waiting = [] → (n.sender i).prog = .done domSock →
        callsOf i (logged.map Entry.toPosted) = calls i := by
  rcases h.invariant hpb with ⟨logged, handled, queued, hinvariant⟩
  have hhandled := (hinvariant.daemonAt hdaemon).done
  have hqueued := hinvariant.queue
  rw [hqueue, List.nil_eq, List.map_eq_nil_iff] at hqueued
  refine ⟨logged, hinvariant.log, ?_⟩
  intro i domSock hwaiting hprog
  have hcurrent := (hinvariant.senderAt hprog).done
  have hcalls := hinvariant.calls i
  simpa [messages, hhandled, hqueued, hcurrent, hwaiting] using hcalls

end Runs

/-! ## Two messages -/

/-- A daemon that has taken its clock reading can always log its message. -/
theorem Tracing.logs_of_writes (pb : ProtobufC) {n : Tracing ι} {i : ι} {text : List UInt8}
    {p : StoreProgram Fd} (hwrites : Writes text p) (hdaemon : n.daemon = p)
    (hhandling : n.handling = some i) :
    ∃ outFile, Relation.ReflTransGen (Step pb) n { n with
      daemon := .done outFile
      log := n.log ++ [(i, text)] } := by
  induction hwrites generalizing n with
  | asprintf _ ih =>
      rcases @ih { n with daemon := _ } rfl hhandling with ⟨outFile, hsteps⟩
      exact ⟨outFile, .head (.asprintf hdaemon) hsteps⟩
  | openFile _ ih =>
      rcases @ih 3 { n with daemon := _ } rfl hhandling with ⟨outFile, hsteps⟩
      exact ⟨outFile, .head (.openFile 3 hdaemon) hsteps⟩
  | @write fd bytes k outFile hbytes hdone =>
      have hwrite : n.Step pb _ := .write hhandling hdaemon
      rw [hdone, hbytes] at hwrite
      exact ⟨outFile, .single hwrite⟩

/-- A daemon in its loop can always log the messages of its queue. -/
theorem Tracing.logs_of_queue {pb : ProtobufC} (hpb : pb.Conforms) {n : Tracing ι}
    {queued : List (Posted ι)} {outFile : Fd} (hqueue : n.queue = queued.map (Posted.queued pb))
    (hdaemon : n.daemon = .done outFile)
    (hsize : ∀ m ∈ queued, pb.getPackedSize (m.call.message m.origin) ≤ 1024) :
    ∃ n', Relation.ReflTransGen (Step pb) n n' ∧ n'.log = n.log ++ queued.map fun m =>
      (m.sender, (m.call.record m.origin n.clock.us).line) := by
  induction queued generalizing n outFile with
  | nil => exact ⟨n, .refl, by simp⟩
  | cons m queued ih =>
      rcases m.receiveTurn_stamps hpb (hsize m List.mem_cons_self) outFile with ⟨k, hk, hwrites⟩
      rcases @logs_of_writes _ _ pb { n with
        queue := queued.map (Posted.queued pb)
        handling := some m.sender
        daemon := k n.clock } _ _ _ (hwrites n.clock) rfl rfl with ⟨outFile', hlogged⟩
      rcases @ih { n with
        queue := queued.map (Posted.queued pb)
        handling := some m.sender
        daemon := .done outFile'
        log := n.log ++ [(m.sender, (m.call.record m.origin n.clock.us).line)] } outFile' rfl rfl
        (fun m' hm' => hsize m' (List.mem_cons_of_mem m hm')) with ⟨n', hrest, hlog⟩
      refine ⟨n', .head (.recv hqueue hdaemon) (.head (.getLocalTime hk) (hlogged.trans hrest)), ?_⟩
      simpa using hlog

/-- Two clients that join an empty identifier each. -/
def twoJoins : Bool → List ApiCall :=
  fun _ => [emptyJoin]

/-- The messages of both clients can wait in the queue at once and reach the log later. -/
theorem twoJoins_reachable : ∃ (n : Tracing Bool) (line line' : List UInt8),
    n.Reachable referenceProtobuf twoJoins ∧ n.log = [(true, line), (false, line')] := by
  have hsent : ∃ n : Tracing Bool,
      Relation.ReflTransGen (Tracing.Step referenceProtobuf) (Tracing.initial twoJoins bootTime) n ∧
      n.queue = [Posted.mk true emptyJoin bootTime, Posted.mk false emptyJoin bootTime].map
        (Posted.queued referenceProtobuf) ∧
      n.daemon = .done none ∧ n.log = [] := by
    have hsocket : Relation.ReflTransGen (Tracing.Step referenceProtobuf)
        (Tracing.initial twoJoins bootTime) _ :=
      ((Relation.ReflTransGen.single (.begin false rfl rfl)).tail
        (.readTime false rfl rfl getPackedSize_emptyJoin)).tail (.socket false 3 rfl)
    -- The client that reads the clock last sends first.
    have hsteps := ((((hsocket.tail (.begin true rfl rfl)).tail
      (.readTime true rfl rfl getPackedSize_emptyJoin)).tail (.socket true 3 rfl)).tail
      (.sendto true rfl)).tail (.sendto false rfl)
    exact ⟨_, hsteps, rfl, rfl, rfl⟩
  rcases hsent with ⟨n, hsteps, hqueue, hdaemon, hlog⟩
  have hsize : ∀ m ∈ [Posted.mk true emptyJoin bootTime, Posted.mk false emptyJoin bootTime],
      referenceProtobuf.getPackedSize (m.call.message m.origin) ≤ 1024 := by
    intro m hm
    rcases List.mem_pair.1 hm with rfl | rfl
    · exact getPackedSize_emptyJoin
    · exact getPackedSize_emptyJoin
  rcases Tracing.logs_of_queue referenceProtobuf_conforms hqueue hdaemon hsize with
    ⟨n', hsteps', hlog'⟩
  rw [hlog, List.nil_append] at hlog'
  exact ⟨n', _, _, ⟨bootTime, by decide, hsteps.trans hsteps'⟩, hlog'⟩

/-- The records of these joins: each has its times in order, and the daemon's times do not
decrease. -/
theorem log_order_twoJoins : ∃ (n : Tracing Bool) (e e' : Entry Bool),
    n.Reachable referenceProtobuf twoJoins ∧ n.log = [e.written, e'.written] ∧
      e.sender = true ∧ e.call = emptyJoin ∧ e'.sender = false ∧ e'.call = emptyJoin ∧
      e.record.daemonTime ≤ e'.record.daemonTime ∧
      (e.record.tsOrigin.toNat : Int) ≤ e.record.daemonTime ∧
      (e'.record.tsOrigin.toNat : Int) ≤ e'.record.daemonTime := by
  rcases twoJoins_reachable with ⟨n, line, line', hreachable, hlog⟩
  rcases log_order referenceProtobuf_conforms hreachable with
    ⟨logged, hlogged, hcalls, hstored, _, htimes⟩
  rw [hlogged] at hlog
  rcases logged with _ | ⟨e, _ | ⟨e', _ | ⟨e'', logged⟩⟩⟩
  · simp at hlog
  · simp at hlog
  · simp only [List.map_cons, List.map_nil, List.cons.injEq, and_true] at hlog
    have hfirst : e.sender = true := congrArg Prod.fst hlog.1
    have hsecond : e'.sender = false := congrArg Prod.fst hlog.2
    have hcall : e.call = emptyJoin := by
      simpa [callsOf, twoJoins, hfirst, hsecond, List.prefix_cons_iff] using hcalls true
    have hcall' : e'.call = emptyJoin := by
      simpa [callsOf, twoJoins, hfirst, hsecond, List.prefix_cons_iff] using hcalls false
    have hle : e.record.daemonTime ≤ e'.record.daemonTime := by simpa using hstored
    exact ⟨n, e, e', hreachable, hlogged, hfirst, hcall, hsecond, hcall', hle,
      htimes e (by simp), htimes e' (by simp)⟩
  · simp at hlog

end Trace
end Clacks
