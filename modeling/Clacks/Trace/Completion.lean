import Clacks.Trace.ClientCalls
import Clacks.Trace.LogFormat
import Clacks.Trace.Ordering
import Clacks.Trace.ReceiveLoop
import Mathlib.Algebra.BigOperators.Group.Finset.Piecewise
import Mathlib.Algebra.BigOperators.Ring.Finset

/-!
# Every call is logged

Every step of a tracing process takes a call closer to its line in the log.  Each call
accounts for ten steps at most: its client begins it and makes up to four system calls,
and the daemon receives the message and makes up to four more.  The queue of the daemon's
socket holds as many datagrams as it has room for, and {lit}`sendto` waits while it is full.

Main results:

- Theorem {lit}`moves_within`: how many steps an interleaving can have.
- Theorem {lit}`Tracing.Invariant.stuck_of_within`: a full queue keeps nobody waiting for ever.
- Theorem {lit}`every_call_logged`: what is in the log when no process can move.
- Theorem {lit}`concurrent_log_decoded`: what a reader finds in the log meanwhile.
-/

namespace Clacks
namespace Trace

open Foundation Program Monitor

/-! ## How long the programs are -/

/-- A datagram is sent from an open socket to the socket of the daemon. -/
def ClientFair : ClientOp → Prop
  | .sendto fd _ path => fd ≠ none ∧ path = clTransportDomSocket
  | _ => True

/-- A line is written to an open file. -/
def StoreFair : StoreOp → Prop
  | .write fd _ => fd ≠ none
  | _ => True

theorem sendTraceMessage_endsIn (pb : ProtobufC) (tMsg : TraceMessage) (domSock : Fd) :
    EndsIn ClientFair ClientSucceeded 2
      (sendTraceMessage pb tMsg domSock >>= fun r => Program.done r.2) := by
  have hsend : ∀ fd : Nat, EndsIn ClientFair ClientSucceeded 1
      (Program.ask (.sendto (some fd) (datagram pb tMsg) clTransportDomSocket) fun ok =>
        (if ok = true then Program.done ((0 : Int), some fd)
          else Program.done (-1, some fd)) >>= fun r => Program.done r.2) := by
    intro fd
    apply EndsIn.ask ⟨by simp, rfl⟩
    intro ok _
    cases ok with
    | true => exact .done _
    | false => exact .done _
  cases domSock with
  | some fd => exact (hsend fd).mono (by decide)
  | none =>
      apply EndsIn.ask trivial
      intro fd hfd
      cases fd with
      | none => exact absurd rfl hfd
      | some fd => exact hsend fd

/-- A call of the client library makes at most four system calls. -/
theorem ApiCall.program_endsIn (pb : ProtobufC) (call : ApiCall) (domSock : Fd) :
    EndsIn ClientFair ClientSucceeded 4 (call.program pb domSock) := by
  cases call with
  | trace id text =>
      apply EndsIn.ask trivial
      intro ok hok
      have htrue : ok = true := hok
      subst htrue
      apply EndsIn.ask trivial
      intro time _
      exact sendTraceMessage_endsIn pb _ domSock
  | join id jId =>
      have hrest : EndsIn ClientFair ClientSucceeded 3 (joinIdString pb id jId domSock) := by
        apply EndsIn.ask trivial
        intro time _
        exact sendTraceMessage_endsIn pb _ domSock
      exact hrest.mono (by decide)

theorem writeLine_endsIn (fd : Nat) (toWrite : List UInt8) :
    EndsIn StoreFair Succeeded 1
      (writeLine fd toWrite >>= fun r => Program.done r.2) := by
  apply EndsIn.ask (by simp [StoreFair])
  intro answer _
  cases answer with
  | none => exact .done _
  | some count => exact .done _

/-- A turn of the daemon makes at most four system calls behind its {lit}`recv`. -/
theorem receiveTurn_endsIn (pb : ProtobufC) (received : Option (Chunk 1024)) (outFile : Fd) :
    EndsIn StoreFair Succeeded 4 (receiveTurn pb received outFile) := by
  rw [receiveTurn_eq]
  cases unpackedFrom pb received with
  | none => exact .done _
  | some msg =>
      simp only [storeMessage]
      rw [storeRecord_eq]
      apply EndsIn.ask trivial
      intro time _
      apply EndsIn.ask trivial
      intro ok hok
      have htrue : ok = true := hok
      subst htrue
      cases outFile with
      | some fd => exact (writeLine_endsIn fd _).mono (by decide)
      | none =>
          apply EndsIn.ask trivial
          intro opened hopened
          cases opened with
          | none => exact absurd rfl hopened
          | some fd => exact writeLine_endsIn fd _

/-! ## What is left to do -/

variable {ι : Type}

/-- The steps a client accounts for when its program asks at most {lit}`ahead` more
operations. -/
def Sender.load (s : Sender) (ahead : Nat) : Nat :=
  10 * s.waiting.length + 5 * s.current.toList.length + ahead

/-- The programs of all processes end in as many steps. -/
structure Tracing.Ahead (n : Tracing ι) (sender : ι → Nat) (daemon : Nat) : Prop where
  sender : ∀ i, EndsIn ClientFair ClientSucceeded (sender i) (n.sender i).prog
  daemon : EndsIn StoreFair Succeeded daemon n.daemon

/-- All steps that are left. -/
def Tracing.load [Fintype ι] (n : Tracing ι) (sender : ι → Nat) (daemon : Nat) : Nat :=
  ∑ i, (n.sender i).load (sender i) + 5 * n.queue.length + daemon

/-- At most {lit}`budget` steps are left. -/
def Tracing.Within [Fintype ι] (n : Tracing ι) (budget : Nat) : Prop :=
  ∃ sender daemon, n.Ahead sender daemon ∧ n.load sender daemon ≤ budget

/-- A step of a host whose queue holds at most {lit}`capacity` datagrams: a client only goes
on with its {lit}`sendto` while there is room for one more. -/
def Tracing.StepWithin [DecidableEq ι] (pb : ProtobufC) (capacity : Nat) (n n' : Tracing ι) :
    Prop :=
  n.Step pb n' ∧ n'.queue.length ≤ capacity

/-- Only the clock is different. -/
def Tracing.Idle (n n' : Tracing ι) : Prop :=
  ∃ clock, n' = { n with clock := clock }

/-- At the beginning, each call has ten steps to go. -/
theorem Tracing.initial_load [Fintype ι] (calls : ι → List ApiCall) (clock : Timespec) :
    (Tracing.initial calls clock).load (fun _ => 0) 0 = 10 * ∑ i, (calls i).length := by
  simp [Tracing.load, Tracing.initial, Sender.load, Finset.mul_sum]

theorem Tracing.Idle.same {n n' : Tracing ι} (h : n.Idle n') :
    n'.sender = n.sender ∧ n'.queue = n.queue ∧ n'.daemon = n.daemon := by
  rcases h with ⟨clock, rfl⟩
  exact ⟨rfl, rfl, rfl⟩

section Steps

variable {n n' : Tracing ι} {ahead : ι → Nat} {daemonAhead : Nat}

/-- A daemon that makes a system call has one step less to do. -/
theorem Tracing.Ahead.resumeDaemon [Fintype ι] (h : n.Ahead ahead daemonAhead) {op : StoreOp}
    {k : op.Ans → StoreProgram Fd} (hdaemon : n.daemon = .ask op k) (answer : op.Ans)
    (hgood : Succeeded ⟨op, answer⟩) (log : List (ι × List UInt8)) :
    ∃ left < n.load ahead daemonAhead,
      { n with
        daemon := k answer
        log := log }.Within left := by
  have hprog := h.daemon
  rw [hdaemon] at hprog
  rcases hprog.resume with ⟨_, hpos, hrest⟩
  refine ⟨_, ?_, ahead, daemonAhead - 1, ⟨h.sender, hrest answer hgood⟩, Nat.le_refl _⟩
  simp only [Tracing.load]
  omega

variable [DecidableEq ι]

theorem Tracing.Ahead.set (h : n.Ahead ahead daemonAhead) {i : ι} {s : Sender} {left : Nat}
    (hs : EndsIn ClientFair ClientSucceeded left s.prog) :
    (n.set i s).Ahead (Function.update ahead i left) daemonAhead := by
  constructor
  · intro j
    by_cases hji : j = i
    · subst hji
      simpa [Tracing.set] using hs
    · simpa [Tracing.set, hji] using h.sender j
  · exact h.daemon

variable [Fintype ι]

/-- Only the load of the client that steps changes. -/
theorem Tracing.load_set (n : Tracing ι) (ahead : ι → Nat) (daemonAhead : Nat) (i : ι)
    (s : Sender) (left : Nat) :
    (n.set i s).load (Function.update ahead i left) daemonAhead + (n.sender i).load (ahead i) =
      n.load ahead daemonAhead + s.load left := by
  have hupdate : (fun j => ((n.set i s).sender j).load (Function.update ahead i left j)) =
      Function.update (fun j => (n.sender j).load (ahead j)) i (s.load left) := by
    ext j
    by_cases hji : j = i
    · subst hji
      simp [Tracing.set]
    · simp [Tracing.set, hji]
  have hsum := Finset.sum_update_of_mem (Finset.mem_univ i)
    (fun j => (n.sender j).load (ahead j)) (s.load left)
  have hsplit := Finset.sum_eq_add_sum_sdiff_singleton_of_mem (Finset.mem_univ i)
    (fun j => (n.sender j).load (ahead j))
  rw [← hupdate] at hsum
  have hqueue : (n.set i s).queue = n.queue := rfl
  unfold Tracing.load
  rw [hsum, hsplit, hqueue]
  omega

/-- So has a client. -/
theorem Tracing.Ahead.resume (h : n.Ahead ahead daemonAhead) (i : ι) {op : ClientOp}
    {k : op.Ans → ClientProgram Fd} (hprog : (n.sender i).prog = .ask op k) (answer : op.Ans)
    (hgood : ClientSucceeded ⟨op, answer⟩) :
    ∃ left < n.load ahead daemonAhead, (n.resume i (k answer)).Within left := by
  have hsender := h.sender i
  rw [hprog] at hsender
  rcases hsender.resume with ⟨_, hpos, hrest⟩
  have hload := n.load_set ahead daemonAhead i
    ⟨(n.sender i).waiting, (n.sender i).current, k answer⟩ (ahead i - 1)
  refine ⟨_, ?_, _, _, h.set (hrest answer hgood), Nat.le_refl _⟩
  simp only [Tracing.resume, Sender.load] at hload ⊢
  omega

/-- A step takes time to pass or leaves less to do. -/
theorem Tracing.Invariant.within_step {pb : ProtobufC} {calls : ι → List ApiCall}
    {logged : List (Entry ι)} {handled : Option (Posted ι)} {queued : List (Posted ι)}
    (hinv : n.Invariant pb calls logged handled queued)
    (h : n.Ahead ahead daemonAhead) (hstep : n.Step pb n') :
    n.Idle n' ∨ ∃ left < n.load ahead daemonAhead, n'.Within left := by
  cases hstep with
  | tick _ _ => exact .inl ⟨_, rfl⟩
  | @begin i call rest domSock hwaiting hprog =>
      have hcurrent := (hinv.senderAt hprog).done
      have hprogram := call.program_endsIn pb domSock
      have hload := n.load_set ahead daemonAhead i ⟨rest, some call, call.program pb domSock⟩ 4
      refine .inr ⟨_, ?_, _, _, h.set hprogram, Nat.le_refl _⟩
      simp only [Sender.load, hwaiting, hcurrent, List.length_cons, Option.toList_some,
        Option.toList_none, List.length_nil] at hload
      omega
  | vasprintf i hprog => exact .inr (h.resume i hprog true rfl)
  | readTime i _ hprog _ => exact .inr (h.resume i hprog n.clock trivial)
  | socket i fd hprog => exact .inr (h.resume i hprog (some fd) (by simp [ClientSucceeded]))
  | @sendto i fd bytes k hprog =>
      rcases (hinv.senderAt hprog).sendto with ⟨m, _, _, hcurrent, _⟩
      have hsender := h.sender i
      rw [hprog] at hsender
      rcases hsender.resume with ⟨_, hpos, hrest⟩
      have hset : (n.set i ⟨(n.sender i).waiting, none, k true⟩).Ahead _ daemonAhead :=
        h.set (hrest true rfl)
      have hload := n.load_set ahead daemonAhead i ⟨(n.sender i).waiting, none, k true⟩
        (ahead i - 1)
      refine .inr ⟨_, ?_, _, _, ⟨hset.sender, hset.daemon⟩, Nat.le_refl _⟩
      have hqueue : (n.set i ⟨(n.sender i).waiting, none, k true⟩).queue = n.queue := rfl
      simp only [Tracing.load, Sender.load, hcurrent, hqueue, Option.toList_some,
        Option.toList_none, List.length_cons, List.length_nil, List.length_append] at hload ⊢
      omega
  | @recv i bytes rest outFile hqueue hdaemon =>
      have hends := receiveTurn_endsIn pb (some (receive bytes)) outFile
      refine .inr ⟨_, ?_, ahead, 4, ⟨h.sender, hends⟩, Nat.le_refl _⟩
      simp only [Tracing.load, hqueue, List.length_cons]
      omega
  | getLocalTime hdaemon => exact .inr (h.resumeDaemon hdaemon n.clock trivial n.log)
  | asprintf hdaemon => exact .inr (h.resumeDaemon hdaemon true rfl n.log)
  | openFile fd hdaemon =>
      exact .inr (h.resumeDaemon hdaemon (some fd) (by simp [Succeeded]) n.log)
  | write _ hdaemon => exact .inr (h.resumeDaemon hdaemon (some (Fin.last _)) rfl _)

end Steps

/-! ## When no process can move -/

section Stuck

variable [DecidableEq ι] {pb : ProtobufC} {calls : ι → List ApiCall} {n : Tracing ι}
  {logged : List (Entry ι)} {handled : Option (Posted ι)} {queued : List (Posted ι)}
  {ahead : ι → Nat} {daemonAhead capacity : Nat}

/-- A daemon that cannot move waits in its loop. -/
theorem Tracing.Invariant.daemon_done (hinv : n.Invariant pb calls logged handled queued)
    (h : n.Ahead ahead daemonAhead) (hroom : n.queue.length ≤ capacity)
    (hstuck : ∀ n', n.StepWithin pb capacity n' → n.Idle n') :
    ∃ outFile, n.daemon = .done outFile := by
  cases hdaemon : n.daemon with
  | done outFile => exact ⟨outFile, rfl⟩
  | ask op k =>
      exfalso
      have hmoves : ∀ (answer : op.Ans) (n' : Tracing ι), n.Step pb n' → n'.daemon = k answer →
          n'.queue = n.queue → False := by
        intro answer n' hstep hn' hqueue
        have hsame := (hstuck n' ⟨hstep, hqueue ▸ hroom⟩).same.2.2
        rw [hn', hdaemon] at hsame
        exact resume_ne answer hsame
      cases op with
      | clockGettime => exact hmoves _ _ (.getLocalTime hdaemon) rfl rfl
      | asprintf text => exact hmoves true _ (.asprintf hdaemon) rfl rfl
      | openFile => exact hmoves (some 0) _ (.openFile 0 hdaemon) rfl rfl
      | write fd bytes =>
          rcases (hinv.daemonAt hdaemon).write with ⟨e, _, _, hhandling, _⟩
          have hprog := h.daemon
          rw [hdaemon] at hprog
          rcases Option.ne_none_iff_exists'.1 hprog.resume.1 with ⟨fd', rfl⟩
          exact hmoves (some (Fin.last _)) _ (.write hhandling hdaemon) rfl rfl

/-- Nor has it left a message in the queue. -/
theorem Tracing.queue_empty (hroom : n.queue.length ≤ capacity)
    (hstuck : ∀ n', n.StepWithin pb capacity n' → n.Idle n') {outFile : Fd}
    (hdaemon : n.daemon = .done outFile) : n.queue = [] := by
  cases hqueue : n.queue with
  | nil => rfl
  | cons m rest =>
      have hrest : rest.length ≤ capacity := by
        rw [hqueue, List.length_cons] at hroom
        omega
      have hsame := (hstuck _ ⟨.recv hqueue hdaemon, hrest⟩).same.2.1
      rw [hqueue] at hsame
      have hlength := congrArg List.length hsame
      simp at hlength

/-- One step puts at most one datagram into the queue. -/
theorem Tracing.Step.length_queue_le {n' : Tracing ι} (h : n.Step pb n') :
    n'.queue.length ≤ n.queue.length + 1 := by
  cases h with
  | sendto => simp
  | @recv _ _ rest _ hqueue _ =>
      change rest.length ≤ n.queue.length + 1
      rw [hqueue, List.length_cons]
      omega
  | _ => exact Nat.le_succ _

/-- When no process can move, it is not for want of room: the daemon has emptied the queue,
so that nobody could move with a longer one either. -/
theorem Tracing.Invariant.stuck_of_within (hinv : n.Invariant pb calls logged handled queued)
    (h : n.Ahead ahead daemonAhead) (hcapacity : 0 < capacity) (hroom : n.queue.length ≤ capacity)
    (hstuck : ∀ n', n.StepWithin pb capacity n' → n.Idle n') :
    n.queue = [] ∧ (∃ outFile, n.daemon = .done outFile) ∧ ∀ n', n.Step pb n' → n.Idle n' := by
  rcases hinv.daemon_done h hroom hstuck with ⟨outFile, hdaemon⟩
  have hqueue := Tracing.queue_empty hroom hstuck hdaemon
  refine ⟨hqueue, ⟨outFile, hdaemon⟩, ?_⟩
  intro n' hstep
  have hlength := hstep.length_queue_le
  rw [hqueue, List.length_nil] at hlength
  exact hstuck n' ⟨hstep, by omega⟩

/-- A client that is about to read the clock is in one of its calls. -/
theorem Tracing.Invariant.current_mem (hinv : n.Invariant pb calls logged handled queued) {i : ι}
    {k : Timespec → ClientProgram Fd} (hprog : (n.sender i).prog = .ask .clockGettime k) :
    ∃ call ∈ calls i, (n.sender i).current = some call := by
  have hat := hinv.senderAt hprog
  cases hcurrent : (n.sender i).current with
  | none =>
      rw [hcurrent] at hat
      cases hat
  | some call =>
      refine ⟨call, ?_, rfl⟩
      rw [← hinv.calls i, hcurrent]
      simp

/-- A client that cannot move has made all its calls. -/
theorem Tracing.Invariant.sender_done (hinv : n.Invariant pb calls logged handled queued)
    (h : n.Ahead ahead daemonAhead) (hstuck : ∀ n', n.Step pb n' → n.Idle n')
    (hsize : ∀ i, ∀ call ∈ calls i, ∀ time, pb.getPackedSize (call.message time) ≤ 1024) (i : ι) :
    (n.sender i).waiting = [] ∧ ∃ domSock, (n.sender i).prog = .done domSock := by
  have hsame : ∀ {n' : Tracing ι}, n.Step pb n' → n'.sender i = n.sender i := fun hstep =>
    congrFun (hstuck _ hstep).same.1 i
  cases hprog : (n.sender i).prog with
  | done domSock =>
      refine ⟨?_, domSock, rfl⟩
      cases hwaiting : (n.sender i).waiting with
      | nil => rfl
      | cons call rest =>
          have hbegin := congrArg Sender.waiting (hsame (.begin i hwaiting hprog))
          simp [Tracing.set, hwaiting] at hbegin
  | ask op k =>
      exfalso
      have hmoves : ∀ (answer : op.Ans) (n' : Tracing ι), (n'.sender i).prog = k answer →
          ¬n.Step pb n' := by
        intro answer n' hn' hstep
        have hprog' := congrArg Sender.prog (hsame hstep)
        rw [hn', hprog] at hprog'
        exact resume_ne answer hprog'
      have hresume : ∀ answer : op.Ans, ((n.resume i (k answer)).sender i).prog = k answer := by
        intro answer
        simp [Tracing.resume, Tracing.set]
      cases op with
      | vasprintf text => exact hmoves true _ (hresume true) (.vasprintf i hprog)
      | clockGettime =>
          rcases hinv.current_mem hprog with ⟨call, hcall, hcurrent⟩
          exact hmoves n.clock _ (hresume n.clock)
            (.readTime i hcurrent hprog (hsize i call hcall n.clock))
      | socket => exact hmoves (some 0) _ (hresume (some 0)) (.socket i 0 hprog)
      | sendto fd bytes path =>
          have hsender := h.sender i
          rw [hprog] at hsender
          rcases hsender.resume.1 with ⟨hfd, rfl⟩
          rcases Option.ne_none_iff_exists'.1 hfd with ⟨fd', rfl⟩
          refine hmoves true _ ?_ (.sendto i hprog)
          simp [Tracing.set]

end Stuck

/-! ## Runs -/

section Runs

variable [DecidableEq ι] {pb : ProtobufC} {calls : ι → List ApiCall} {n : Tracing ι}
  {capacity : Nat}

/-- {lit}`n.Moves pb capacity k n'`: an interleaving that leads from {lit}`n` to {lit}`n'`, in
which the processes make {lit}`k` steps while time passes. -/
inductive Tracing.Moves (pb : ProtobufC) (capacity : Nat) (n : Tracing ι) :
    Nat → Tracing ι → Prop where
  | start : Moves pb capacity n 0 n
  | idle {k : Nat} {n' n'' : Tracing ι} : Moves pb capacity n k n' →
      n'.StepWithin pb capacity n'' → n'.Idle n'' → Moves pb capacity n k n''
  | move {k : Nat} {n' n'' : Tracing ι} : Moves pb capacity n k n' →
      n'.StepWithin pb capacity n'' → ¬n'.Idle n'' → Moves pb capacity n (k + 1) n''

theorem Tracing.Moves.reachable {clock : Timespec} (hbound : clock.us < 2 ^ 63) {k : Nat}
    (h : (Tracing.initial calls clock).Moves pb capacity k n) : n.Reachable pb calls := by
  refine ⟨clock, hbound, ?_⟩
  induction h with
  | start => exact .refl
  | idle _ hstep _ ih => exact ih.tail hstep.1
  | move _ hstep _ ih => exact ih.tail hstep.1

/-- There are never more datagrams in the queue than it has room for. -/
theorem Tracing.Moves.length_queue_le {clock : Timespec} {k : Nat}
    (h : (Tracing.initial calls clock).Moves pb capacity k n) : n.queue.length ≤ capacity := by
  cases h with
  | start => exact Nat.zero_le capacity
  | idle _ hstep _ => exact hstep.2
  | move _ hstep _ => exact hstep.2

/-- The steps that were made and those that are left add up to no more than there were. -/
theorem moves_within [Fintype ι] (hpb : pb.Conforms) {clock : Timespec}
    (hbound : clock.us < 2 ^ 63) {k : Nat}
    (hrun : (Tracing.initial calls clock).Moves pb capacity k n) :
    (∃ logged handled queued, n.Invariant pb calls logged handled queued) ∧
      ∃ ahead daemonAhead, n.Ahead ahead daemonAhead ∧
        k + n.load ahead daemonAhead ≤ 10 * ∑ i, (calls i).length := by
  induction hrun with
  | start =>
      refine ⟨⟨[], none, [], .initial pb calls hbound⟩, fun _ => 0, 0, ?_, ?_⟩
      · exact ⟨fun _ => .done _, .done _⟩
      · rw [Tracing.initial_load, Nat.zero_add]
  | idle _ hstep hidle ih =>
      rcases ih with ⟨⟨logged, handled, queued, hinv⟩, ahead, daemonAhead, hahead, hle⟩
      refine ⟨hinv.step hpb hstep.1, ahead, daemonAhead, ?_, ?_⟩
      · rcases hidle with ⟨clock', rfl⟩
        exact ⟨hahead.sender, hahead.daemon⟩
      · rcases hidle with ⟨clock', rfl⟩
        exact hle
  | move _ hstep hmove ih =>
      rcases ih with ⟨⟨logged, handled, queued, hinv⟩, ahead, daemonAhead, hahead, hle⟩
      refine ⟨hinv.step hpb hstep.1, ?_⟩
      rcases hinv.within_step hahead hstep.1 with
        hidle | ⟨left, hless, ahead', daemon', hahead', hle'⟩
      · exact absurd hidle hmove
      · exact ⟨ahead', daemon', hahead', by omega⟩

/-- Every call is logged.  With finitely many clients whose messages fit the receive
buffer, and room for one datagram at least, every interleaving ends: the processes make at
most ten steps for each call, however long they wait in between.  And when no process can
move, the log holds all calls of all clients, those of each client in call order and each
once. -/
theorem every_call_logged [Fintype ι] (hpb : pb.Conforms)
    (hsize : ∀ i, ∀ call ∈ calls i, ∀ time, pb.getPackedSize (call.message time) ≤ 1024)
    (hcapacity : 0 < capacity) {clock : Timespec} (hbound : clock.us < 2 ^ 63) {k : Nat}
    (hrun : (Tracing.initial calls clock).Moves pb capacity k n) :
    k ≤ 10 * ∑ i, (calls i).length ∧
      ((∀ n', n.StepWithin pb capacity n' → n.Idle n') → ∃ logged : List (Entry ι),
        n.log = logged.map Entry.written ∧
          ∀ i, callsOf i (logged.map Entry.toPosted) = calls i) := by
  rcases moves_within hpb hbound hrun with
    ⟨⟨logged, handled, queued, hinv⟩, ahead, daemonAhead, hahead, hle⟩
  constructor
  · omega
  · intro hstuck
    rcases hinv.stuck_of_within hahead hcapacity hrun.length_queue_le hstuck with
      ⟨hqueue, ⟨outFile, hdaemon⟩, hfree⟩
    rcases log_complete hpb (hrun.reachable hbound) hqueue hdaemon with ⟨logged, hlog, hcomplete⟩
    refine ⟨logged, hlog, ?_⟩
    intro i
    rcases hinv.sender_done hahead hfree hsize i with ⟨hwaiting, domSock, hprog⟩
    exact hcomplete i domSock hwaiting hprog

/-- The processes can always go on until none of them can. -/
theorem Tracing.exists_finished [Fintype ι] (hpb : pb.Conforms) (calls : ι → List ApiCall)
    (capacity : Nat) {clock : Timespec} (hbound : clock.us < 2 ^ 63) :
    ∃ k n, (Tracing.initial calls clock).Moves pb capacity k n ∧
      ∀ n', n.StepWithin pb capacity n' → n.Idle n' := by
  by_contra hnone
  push Not at hnone
  have hlong : ∀ k, ∃ n, (Tracing.initial calls clock).Moves pb capacity k n := by
    intro k
    induction k with
    | zero => exact ⟨_, .start⟩
    | succ k ih =>
        rcases ih with ⟨n, hrun⟩
        rcases hnone k n hrun with ⟨n', hstep, hmove⟩
        exact ⟨n', hrun.move hstep hmove⟩
  rcases hlong (10 * ∑ i, (calls i).length + 1) with ⟨n, hrun⟩
  rcases moves_within hpb hbound hrun with ⟨_, _, _, _, hle⟩
  omega

/-- Two clients with a queue for one datagram can run until both joins are in the log. -/
theorem every_call_logged_two : ∃ (k : Nat) (n : Tracing Bool) (logged : List (Entry Bool)),
    (Tracing.initial twoJoins bootTime).Moves referenceProtobuf 1 k n ∧ k ≤ 20 ∧
    n.log = logged.map Entry.written ∧
      ∀ i, callsOf i (logged.map Entry.toPosted) = [emptyJoin] := by
  have hsize : ∀ i, ∀ call ∈ twoJoins i, ∀ time,
      referenceProtobuf.getPackedSize (call.message time) ≤ 1024 := by
    intro i call hcall time
    have hjoin : call = emptyJoin := List.mem_singleton.1 hcall
    subst hjoin
    exact getPackedSize_le referenceProtobuf_conforms (by decide) time
  have hbound : bootTime.us < 2 ^ 63 := by decide
  rcases Tracing.exists_finished referenceProtobuf_conforms twoJoins 1 hbound with
    ⟨k, n, hrun, hstuck⟩
  rcases every_call_logged referenceProtobuf_conforms hsize Nat.one_pos hbound hrun with
    ⟨hsteps, hlogged⟩
  rcases hlogged hstuck with ⟨logged, hlog, hcalls⟩
  exact ⟨k, n, logged, hrun, hsteps, hlog, hcalls⟩

end Runs

/-! ## What a reader finds -/

/-- The log can be read at every moment of every interleaving: a reader finds one entry
for each message the daemon has logged, with the strings of its call; the calls of each
client come in call order, each once; the daemon's times do not decrease, and none is
before the time at which the client of the message took its own. -/
theorem concurrent_log_decoded [DecidableEq ι] {pb : ProtobufC} (hpb : pb.Conforms)
    {calls : ι → List ApiCall} {n : Tracing ι} (h : n.Reachable pb calls)
    (hclear : ∀ i, ∀ call ∈ calls i, call.Clear) :
    ∃ logged : List (Entry ι), n.log = logged.map Entry.written ∧
      decodeLog (n.log.flatMap Prod.snd) = some (logged.map fun e => e.record.fields) ∧
      (∀ i, callsOf i (logged.map Entry.toPosted) <+: calls i) ∧
      ((logged.map fun e => e.record.fields).Pairwise fun a b => a.daemonTime ≤ b.daemonTime) ∧
      ∀ f ∈ logged.map fun e => e.record.fields, (f.tsOrigin.toNat : Int) ≤ f.daemonTime := by
  rcases h.invariant hpb with ⟨logged, handled, queued, hinv⟩
  have hfirst : ∀ i, callsOf i (logged.map Entry.toPosted) <+: calls i := by
    intro i
    rw [← hinv.calls i, messages, callsOf_append, List.append_assoc]
    exact List.prefix_append _ _
  refine ⟨logged, hinv.log, ?_, hfirst, ?_, ?_⟩
  · have hlog : n.log.flatMap Prod.snd = logOf (logged.map Entry.record) := by
      rw [hinv.log, logOf, List.flatMap_map, List.flatMap_map]
      rfl
    have hall : ∀ r ∈ logged.map Entry.record, r.Clear := by
      intro r hr
      rcases List.mem_map.1 hr with ⟨e, he, rfl⟩
      apply ApiCall.Clear.record
      apply hclear e.sender
      apply (hfirst e.sender).subset
      simp only [callsOf, List.mem_map, List.mem_filter]
      exact ⟨e.toPosted, ⟨⟨e, he, rfl⟩, by simp⟩, rfl⟩
    rw [hlog, decodeLog_logOf hall, List.map_map]
    rfl
  · rw [List.pairwise_map]
    simpa [Entry.record, Record.fields] using hinv.chronicle.stored
  · intro f hf
    rcases List.mem_map.1 hf with ⟨e, he, rfl⟩
    have horigin := hinv.tsOrigin_eq he
    have hdaemon : e.record.daemonTime = e.stored.us := by simp [Entry.record]
    simp only [Record.fields, horigin, hdaemon]
    exact hinv.chronicle.origin_le e he

/-- A reader finds the joins of two clients. -/
theorem concurrent_log_decoded_two : ∃ (n : Tracing Bool) (f f' : Fields),
    n.Reachable referenceProtobuf twoJoins ∧
    decodeLog (n.log.flatMap Prod.snd) = some [f, f'] ∧ f.daemonTime ≤ f'.daemonTime ∧
      (f.tsOrigin.toNat : Int) ≤ f.daemonTime ∧ (f'.tsOrigin.toNat : Int) ≤ f'.daemonTime := by
  rcases twoJoins_reachable with ⟨n, line, line', hreachable, hlog⟩
  have hclear : ∀ i, ∀ call ∈ twoJoins i, call.Clear := by
    intro i call hcall
    have hjoin : call = emptyJoin := List.mem_singleton.1 hcall
    subst hjoin
    exact ⟨by decide, by decide, by decide⟩
  rcases concurrent_log_decoded referenceProtobuf_conforms hreachable hclear with
    ⟨logged, hlogged, hdecoded, _, hstored, htimes⟩
  have hlength : logged.length = 2 := by
    have hlines := congrArg List.length (hlogged.symm.trans hlog)
    simpa using hlines
  rcases List.length_eq_two.1 hlength with ⟨e, e', rfl⟩
  exact ⟨n, e.record.fields, e'.record.fields, hreachable, hdecoded, by simpa using hstored,
    htimes _ (by simp), htimes _ (by simp)⟩

end Trace
end Clacks
