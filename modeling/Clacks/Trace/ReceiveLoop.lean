import Clacks.Foundation.Slot
import Clacks.Trace.Delivery
import Clacks.Trace.LogFormat
import Clacks.Trace.Recording

/-!
# The loop of the tracing daemon

The loop of {lit}`start_transport` over any results of its {lit}`recv` calls, among them
failures and datagrams that do not unpack, and under any answers of the calls by which
the messages are stored.

Main results:

- Theorem {lit}`receiveLoop_log`: what the loop leaves in the log, message by message.
- Theorem {lit}`receiveLoop_decoded`: what a reader finds in it when no write was cut.
- Theorem {lit}`receiveLoop_one_file`: the log file is opened once, and every write goes
  to it.
-/

namespace Clacks
namespace Trace

open Foundation Program

/-- The loop of {lit}`start_transport`, by the results of its {lit}`recv` calls. -/
def receiveLoop (pb : ProtobufC) : List (Option (Chunk 1024)) → Fd → StoreProgram Fd
  | [], outFile => return outFile
  | received :: rest, outFile => do
      let outFile ← receiveTurn pb received outFile
      receiveLoop pb rest outFile

/-- The message in what one {lit}`recv` delivered. -/
def unpackedFrom (pb : ProtobufC) (received : Option (Chunk 1024)) : Option TraceMessage :=
  received.bind fun rdBuf => pb.unpack rdBuf.bytes

/-- The messages the daemon received. -/
def unpacked (pb : ProtobufC) (received : List (Option (Chunk 1024))) : List TraceMessage :=
  received.filterMap (unpackedFrom pb)

/-! ## What reaches the log -/

/-- What the store made of one message: the clock reading it took, and how many bytes of
the line it got into the log. -/
structure Deposit where
  msg : TraceMessage
  time : Timespec
  count : Nat

/-- The record of the message. -/
def Deposit.record (d : Deposit) : Record :=
  d.msg.record d.time.us

/-- The bytes that reached the log. -/
def Deposit.bytes (d : Deposit) : List UInt8 :=
  d.record.line.take d.count

/-- The whole line reached the log. -/
def Deposit.Full (d : Deposit) : Prop :=
  d.record.line.length ≤ d.count

instance (d : Deposit) : Decidable d.Full :=
  inferInstanceAs (Decidable (_ ≤ _))

/-- Every write of the run took all its bytes or none. -/
def Uncut (events : List StoreEvent) : Prop :=
  ∀ fd bytes count, ⟨.write fd bytes, some count⟩ ∈ events →
    count.val = 0 ∨ count.val = bytes.length

/-- A run stored {lit}`messages`, one after another, as {lit}`deposits` says. -/
structure Deposited (messages : List TraceMessage) (events : List StoreEvent)
    (deposits : List Deposit) : Prop where
  messages_eq : deposits.map Deposit.msg = messages
  clock_eq : clockReadings events = deposits.map Deposit.time
  log_eq : appended events = deposits.flatMap Deposit.bytes
  full : (∀ e ∈ events, Succeeded e) → ∀ d ∈ deposits, d.Full
  uncut : Uncut events → ∀ d ∈ deposits, d.count = 0 ∨ d.Full

namespace Deposited

variable {messages messages' : List TraceMessage} {events events' : List StoreEvent}
  {deposits deposits' : List Deposit}

/-- Without a message nothing is stored. -/
protected theorem nil : Deposited [] [] [] where
  messages_eq := rfl
  clock_eq := rfl
  log_eq := rfl
  full _ d hd := by cases hd
  uncut _ d hd := by cases hd

/-- Runs that follow each other add up. -/
protected theorem append (h : Deposited messages events deposits)
    (h' : Deposited messages' events' deposits') :
    Deposited (messages ++ messages') (events ++ events') (deposits ++ deposits') where
  messages_eq := by simp [h.messages_eq, h'.messages_eq]
  clock_eq := by
    have hclock := h.clock_eq
    have hclock' := h'.clock_eq
    unfold clockReadings at hclock hclock' ⊢
    rw [List.filterMap_append, hclock, hclock', List.map_append]
  log_eq := by
    have hlog := h.log_eq
    have hlog' := h'.log_eq
    unfold appended at hlog hlog' ⊢
    rw [List.flatMap_append, hlog, hlog', List.flatMap_append]
  full hsucceeded := by
    rw [List.forall_mem_append] at hsucceeded ⊢
    exact ⟨h.full hsucceeded.1, h'.full hsucceeded.2⟩
  uncut huncut := by
    rw [List.forall_mem_append]
    constructor
    · apply h.uncut
      intro fd bytes count hmem
      exact huncut fd bytes count (List.mem_append_left _ hmem)
    · apply h'.uncut
      intro fd bytes count hmem
      exact huncut fd bytes count (List.mem_append_right _ hmem)

end Deposited

/-! ## One turn -/

/-- A turn stores the message that it received, or does nothing. -/
theorem receiveTurn_eq (pb : ProtobufC) (received : Option (Chunk 1024)) (outFile : Fd) :
    receiveTurn pb received outFile =
      match unpackedFrom pb received with
      | none => done outFile
      | some msg => storeMessage (some msg) outFile >>= fun r => done r.2 := by
  cases received with
  | none => rfl
  | some rdBuf =>
      simp only [receiveTurn, handleMessage, unpackedFrom, Option.bind_some]
      cases pb.unpack rdBuf.bytes with
      | none => rfl
      | some msg =>
          simp only
          split
          · rfl
          · rfl

section Turn

variable {pb : ProtobufC} {outFile outFile' : Fd} {events : List StoreEvent}

/-- A call that gives up before its write leaves nothing in the log. -/
theorem Front.deposited {time : Timespec} {before : List StoreEvent} (h : Front time before)
    (msg : TraceMessage) (hfailed : ¬∀ e ∈ before, Succeeded e) :
    Deposited [msg] before [⟨msg, time, 0⟩] where
  messages_eq := rfl
  clock_eq := h.clock_eq
  log_eq := by simp [h.appended_eq, Deposit.bytes]
  full hsucceeded := absurd hsucceeded hfailed
  uncut _ := by simp

/-- A call that writes leaves what its write took. -/
theorem Front.deposited_write {time : Timespec} {before : List StoreEvent}
    (h : Front time before) (msg : TraceMessage) (fd : Nat)
    (answer : Option (Fin ((msg.record time.us).line.length + 1))) :
    Deposited [msg] (before ++ [⟨.write (some fd) (msg.record time.us).line, answer⟩])
      [⟨msg, time, (answer.map Fin.val).getD 0⟩] where
  messages_eq := rfl
  clock_eq := by
    have hclock := h.clock_eq
    unfold clockReadings at hclock ⊢
    rw [List.filterMap_append, hclock]
    rfl
  log_eq := by
    rw [h.appended_concat]
    cases answer with
    | none => simp [appendedBy, Deposit.bytes]
    | some count => simp [appendedBy, Deposit.bytes, Deposit.record]
  full hsucceeded := by
    have hwrite := hsucceeded ⟨.write (some fd) (msg.record time.us).line, answer⟩ (by simp)
    have hanswer : answer = some (Fin.last _) := hwrite
    simp [hanswer, Deposit.Full, Deposit.record]
  uncut huncut := by
    cases answer with
    | none => simp
    | some count =>
        have hcount := huncut (some fd) _ count (by simp)
        simp only [List.mem_singleton, forall_eq, Deposit.Full, Deposit.record, Option.map_some,
          Option.getD_some]
        omega

/-- Whatever the system calls answer, a message is stored under one clock reading, and
the log gains the front of its line. -/
theorem storeMessage_deposited {msg : TraceMessage} {ret : Int}
    (hrun : (storeMessage (some msg) outFile).Runs events (ret, outFile')) :
    ∃ d, Deposited [msg] events [d] := by
  rcases storeRecord_shape hrun with ⟨time, before, hfront, hend⟩
  rcases hend with ⟨rfl, rfl⟩ | ⟨fd, answer, rfl, _⟩
  · refine ⟨_, hfront.deposited msg ?_⟩
    intro hsucceeded
    have hrecorded := @recorded_of_succeeded ⟨some msg, events, -1⟩ _ _ (by simp) hrun hsucceeded
    have hret : (-1 : Int) = 0 := hrecorded.1
    cases hret
  · exact ⟨_, hfront.deposited_write msg fd answer⟩

theorem receiveTurn_deposited {received : Option (Chunk 1024)}
    (hrun : (receiveTurn pb received outFile).Runs events outFile') :
    ∃ deposits, Deposited (unpackedFrom pb received).toList events deposits := by
  rw [receiveTurn_eq] at hrun
  cases hmsg : unpackedFrom pb received with
  | none =>
      rw [hmsg] at hrun
      rcases Runs_done.1 hrun with ⟨rfl, _⟩
      exact ⟨[], .nil⟩
  | some msg =>
      rw [hmsg] at hrun
      rcases Runs_bind.1 hrun with ⟨before, ⟨ret, outFile''⟩, after, rfl, hstore, hdone⟩
      rcases Runs_done.1 hdone with ⟨rfl, _⟩
      rcases storeMessage_deposited hstore with ⟨d, hd⟩
      rw [List.append_nil]
      exact ⟨[d], hd⟩

end Turn

/-! ## The loop -/

section Loop

variable {pb : ProtobufC} {received : List (Option (Chunk 1024))} {outFile outFile' : Fd}
  {events : List StoreEvent}

/-- The loop stores the messages that unpack, and nothing else. -/
theorem receiveLoop_deposited (hrun : (receiveLoop pb received outFile).Runs events outFile') :
    ∃ deposits, Deposited (unpacked pb received) events deposits := by
  induction received generalizing outFile events with
  | nil =>
      rcases Runs_done.1 hrun with ⟨rfl, _⟩
      exact ⟨[], .nil⟩
  | cons r received ih =>
      rcases Runs_bind.1 hrun with ⟨before, outFile'', after, rfl, hturn, hrest⟩
      rcases receiveTurn_deposited hturn with ⟨first, hfirst⟩
      rcases ih hrest with ⟨rest, hrest⟩
      refine ⟨first ++ rest, ?_⟩
      have hsplit : unpacked pb (r :: received) =
          (unpackedFrom pb r).toList ++ unpacked pb received := by
        rw [unpacked, List.filterMap_cons]
        cases unpackedFrom pb r <;> rfl
      rw [hsplit]
      exact hfirst.append hrest

/-- What the loop leaves in the log, for any results of {lit}`recv` and any answers of the
other calls: each message that unpacks is handled once, in the order of arrival, under a
clock reading of its own, and the log gains the front of its line; nothing else reads the
clock or gets into the log. -/
theorem receiveLoop_log (hrun : (receiveLoop pb received outFile).Runs events outFile') :
    ∃ counts : List Nat, counts.length = (unpacked pb received).length ∧
      (clockReadings events).length = (unpacked pb received).length ∧
      appended events = ((unpacked pb received).zip ((clockReadings events).zip counts)).flatMap
        fun d => (d.1.record d.2.1.us).line.take d.2.2 := by
  rcases receiveLoop_deposited hrun with ⟨deposits, h⟩
  refine ⟨deposits.map Deposit.count, ?_, ?_, ?_⟩
  · simp [← h.messages_eq]
  · simp [h.clock_eq, ← h.messages_eq]
  · rw [h.log_eq, h.clock_eq, ← h.messages_eq, List.zip_map', List.zip_map', List.flatMap_map]
    rfl

end Loop

/-! ## What a reader finds -/

/-- The printed fields of a message keep clear of the separators behind them. -/
def TraceMessage.Clear (msg : TraceMessage) : Prop :=
  ∀ us, (msg.record us).Clear

/-- The records whose lines reached the log. -/
def stored (deposits : List Deposit) : List Record :=
  (deposits.filter fun d => decide d.Full).map Deposit.record

/-- A log without cut lines is the log of the records that were stored. -/
theorem flatMap_bytes_eq {deposits : List Deposit}
    (h : ∀ d ∈ deposits, d.count = 0 ∨ d.Full) :
    deposits.flatMap Deposit.bytes = logOf (stored deposits) := by
  induction deposits with
  | nil => rfl
  | cons d deposits ih =>
      rw [List.forall_mem_cons] at h
      have hrest := ih h.2
      unfold stored at hrest ⊢
      rw [List.flatMap_cons, hrest]
      by_cases hfull : d.Full
      · have hbytes : d.bytes = d.record.line := List.take_of_length_le hfull
        simp [hfull, hbytes, logOf]
      · have hnone : d.count = 0 := h.1.resolve_right hfull
        simp [hfull, Deposit.bytes, hnone]

/-- A reader finds the records of messages whose line reached the log. -/
theorem Deposited.decoded {messages : List TraceMessage} {events : List StoreEvent}
    {deposits : List Deposit} (h : Deposited messages events deposits)
    (hclear : ∀ msg ∈ messages, msg.Clear) (huncut : Uncut events) :
    ∃ kept : List (TraceMessage × Timespec),
      decodeLog (appended events) = some (kept.map fun m => (m.1.record m.2.us).fields) ∧
      kept.Sublist (messages.zip (clockReadings events)) ∧
      ((∀ e ∈ events, Succeeded e) → kept.map Prod.fst = messages) := by
  let pair : Deposit → TraceMessage × Timespec := fun d => (d.msg, d.time)
  have hzip : messages.zip (clockReadings events) = deposits.map pair := by
    rw [← h.messages_eq, h.clock_eq, List.zip_map']
  refine ⟨(deposits.filter fun d => decide d.Full).map pair, ?_, ?_, ?_⟩
  · have hall : ∀ r ∈ stored deposits, r.Clear := by
      intro r hr
      rcases List.mem_map.1 hr with ⟨d, hd, rfl⟩
      apply hclear
      rw [← h.messages_eq]
      exact List.mem_map_of_mem (List.mem_of_mem_filter hd)
    rw [h.log_eq, flatMap_bytes_eq (h.uncut huncut), decodeLog_logOf hall, stored,
      List.map_map, List.map_map]
    rfl
  · rw [hzip]
    exact List.filter_sublist.map pair
  · intro hsucceeded
    have hkept : (deposits.filter fun d => decide d.Full) = deposits := by
      rw [List.filter_eq_self]
      intro d hd
      exact decide_eq_true (h.full hsucceeded d hd)
    rw [hkept, List.map_map, ← h.messages_eq]
    rfl

/-- What a reader finds in the log of a run, when no write was cut and the messages keep
clear of the separators: a record for some of the messages that were received, in their
order, each with the clock reading of its message; and one for each of them when nothing
failed.  Datagrams that do not unpack and failed {lit}`recv` calls leave no trace. -/
theorem receiveLoop_decoded {pb : ProtobufC} {received : List (Option (Chunk 1024))}
    {outFile outFile' : Fd} {events : List StoreEvent}
    (hrun : (receiveLoop pb received outFile).Runs events outFile')
    (hclear : ∀ msg ∈ unpacked pb received, msg.Clear) (huncut : Uncut events) :
    ∃ kept : List (TraceMessage × Timespec),
      decodeLog (appended events) = some (kept.map fun m => (m.1.record m.2.us).fields) ∧
      kept.Sublist ((unpacked pb received).zip (clockReadings events)) ∧
      ((∀ e ∈ events, Succeeded e) → kept.map Prod.fst = unpacked pb received) := by
  rcases receiveLoop_deposited hrun with ⟨deposits, h⟩
  exact h.decoded hclear huncut

/-! ## The log file -/

/-- The variable {lit}`out_file`. -/
def logSlot : Slot StoreOp StoreOp.Ans Nat where
  asks
    | .openFile => true
    | _ => false
  brought
    | ⟨.openFile, fd⟩ => fd
    | _ => none
  uses
    | .write fd _ => some fd
    | _ => none
  brought_asked e he := by
    rcases e with ⟨op, answer⟩
    cases op with
    | openFile => rfl
    | clockGettime => exact absurd rfl he
    | asprintf text => exact absurd rfl he
    | write fd bytes => exact absurd rfl he

theorem writeLine_verified (fd : Nat) (toWrite : List UInt8) :
    logSlot.monitor.Verified (fun r s => r.2 = s) (writeLine fd toWrite) (some fd) := by
  apply Slot.verified_use rfl rfl
  intro answer
  cases answer with
  | none => rfl
  | some count => rfl

/-- A call opens the file when it is closed, and writes to the file that is open. -/
theorem storeMessage_verified (msg : Option TraceMessage) (outFile : Fd) :
    logSlot.monitor.Verified (fun r s => r.2 = s) (storeMessage msg outFile) outFile := by
  cases msg with
  | none => rfl
  | some msg =>
      rw [storeMessage, storeRecord_eq]
      apply Slot.verified_other rfl rfl
      intro time
      apply Slot.verified_other rfl rfl
      intro ok
      cases ok with
      | false => rfl
      | true =>
          cases outFile with
          | some fd => exact writeLine_verified fd _
          | none =>
              apply Slot.verified_ask rfl
              intro opened
              cases opened with
              | none => rfl
              | some fd => exact writeLine_verified fd _

theorem receiveLoop_verified (pb : ProtobufC) (received : List (Option (Chunk 1024)))
    (outFile : Fd) : logSlot.monitor.Verified (fun r s => r = s)
      (receiveLoop pb received outFile) outFile := by
  induction received generalizing outFile with
  | nil => rfl
  | cons r received ih =>
      apply Monitor.Verified.bind
      have hturn : logSlot.monitor.Verified (fun r s => r = s) (receiveTurn pb r outFile)
          outFile := by
        rw [receiveTurn_eq]
        cases unpackedFrom pb r with
        | none => rfl
        | some msg => exact Monitor.Verified.bind (storeMessage_verified (some msg) outFile)
      apply hturn.mono
      intro outFile' s hs
      rw [← hs]
      exact ih outFile'

/-- The log file is opened with success at most once in the life of the daemon, however
many messages it receives and whatever fails; every write goes to the descriptor that
this {lit}`open` returned, never to {lit}`-1`; and it is what {lit}`out_file` holds in
the end. -/
theorem receiveLoop_one_file {pb : ProtobufC} {received : List (Option (Chunk 1024))}
    {outFile : Fd} {events : List StoreEvent}
    (hrun : (receiveLoop pb received none).Runs events outFile) :
    events.countP (fun e => (logSlot.brought e).isSome) ≤ 1 ∧
      ∀ fd bytes answer, ⟨.write fd bytes, answer⟩ ∈ events →
        fd ≠ none ∧ fd = outFile ∧ ⟨.openFile, fd⟩ ∈ events := by
  rcases (receiveLoop_verified pb received none).run hrun Slot.expected with ⟨hallowed, hlast⟩
  constructor
  · exact Slot.brought_once hallowed
  · intro fd bytes answer hmem
    rcases Slot.uses_brought hallowed hmem rfl with ⟨hne, hafter, ⟨op, opened⟩, hopen, hbrought⟩
    refine ⟨hne, hafter.trans hlast.symm, ?_⟩
    cases op with
    | openFile =>
        have hfd : opened = fd := hbrought
        rwa [← hfd]
    | clockGettime => exact absurd hbrought.symm hne
    | asprintf text => exact absurd hbrought.symm hne
    | write fd' bytes' => exact absurd hbrought.symm hne

/-! ## A noisy run -/

/-- A failed {lit}`recv`, an empty datagram, and a join that arrives twice. -/
def noisyInput : List (Option (Chunk 1024)) :=
  let join := some (receive (datagram referenceProtobuf (emptyJoin.message bootTime)))
  [none, some (receive []), join, join]

/-- What the daemon unpacks from a join. -/
def joinMessage : TraceMessage :=
  (emptyJoin.message bootTime).received

theorem unpacked_noisyInput :
    unpacked referenceProtobuf noisyInput = [joinMessage, joinMessage] := by
  have hjoin := referenceProtobuf_conforms.unpack_pack (emptyJoin.message bootTime)
  rw [← receive_datagram_of_le getPackedSize_emptyJoin] at hjoin
  have hempty : referenceProtobuf.unpack (receive []).bytes = none :=
    referenceProtobuf_conforms.unpack_missing [] 1 (by decide) (by simp)
  simp [unpacked, noisyInput, List.filterMap_cons, unpackedFrom, hjoin, hempty, joinMessage]

/-- The log gains the fronts of two lines, one for each of them. -/
theorem receiveLoop_log_noisy : ∃ (events : List StoreEvent) (counts : List Nat),
    counts.length = 2 ∧ (clockReadings events).length = 2 ∧
      appended events = ([joinMessage, joinMessage].zip ((clockReadings events).zip counts)).flatMap
        fun d => (d.1.record d.2.1.us).line.take d.2.2 := by
  rcases exists_succeeded (receiveLoop referenceProtobuf noisyInput none) with
    ⟨events, outFile, hrun, _⟩
  have hlog := receiveLoop_log hrun
  rw [unpacked_noisyInput] at hlog
  rcases hlog with ⟨counts, hcounts, hclock, hlog⟩
  exact ⟨events, counts, hcounts, hclock, hlog⟩

theorem uncut_of_succeeded {events : List StoreEvent} (h : ∀ e ∈ events, Succeeded e) :
    Uncut events := by
  intro fd bytes count hmem
  have hlast : some count = some (Fin.last _) := h _ hmem
  rw [Option.some.inj hlast]
  exact .inr rfl

/-- A reader finds them both. -/
theorem receiveLoop_decoded_noisy : ∃ (events : List StoreEvent) (times : List Int),
    decodeLog (appended events) = some (times.map fun us => (joinMessage.record us).fields) ∧
      times.length = 2 := by
  rcases exists_succeeded (receiveLoop referenceProtobuf noisyInput none) with
    ⟨events, outFile, hrun, hsucceeded⟩
  have hclear : ∀ msg ∈ unpacked referenceProtobuf noisyInput, msg.Clear := by
    rw [unpacked_noisyInput]
    intro msg hmsg us
    have hjoin : msg = joinMessage := by simpa using hmsg
    subst hjoin
    have hid : bar ∉ nullId.bytes ∧ 10 ∉ nullId.bytes := by decide
    have hpayload : 10 ∉ CString.empty.bytes := by decide
    exact ⟨hid.1, hid.2, hpayload⟩
  rcases receiveLoop_decoded hrun hclear (uncut_of_succeeded hsucceeded) with
    ⟨kept, hdecoded, _, hall⟩
  have hkept := hall hsucceeded
  rw [unpacked_noisyInput] at hkept
  have hmessage : ∀ m ∈ kept, m.1 = joinMessage := by
    intro m hm
    have hmem : m.1 ∈ [joinMessage, joinMessage] := hkept ▸ List.mem_map_of_mem hm
    simpa using hmem
  refine ⟨events, kept.map fun m => m.2.us, ?_, ?_⟩
  · rw [hdecoded, List.map_map]
    congr 1
    apply List.map_congr_left
    intro m hm
    rw [hmessage m hm]
    rfl
  · have hlength := congrArg List.length hkept
    simpa using hlength

/-- The log file is opened at most once for them. -/
theorem receiveLoop_one_file_noisy : ∃ (events : List StoreEvent) (outFile : Fd),
    (receiveLoop referenceProtobuf noisyInput none).Runs events outFile ∧
      events.countP (fun e => (logSlot.brought e).isSome) ≤ 1 := by
  rcases exists_succeeded (receiveLoop referenceProtobuf noisyInput none) with
    ⟨events, outFile, hrun, _⟩
  exact ⟨events, outFile, hrun, (receiveLoop_one_file hrun).1⟩

end Trace
end Clacks
