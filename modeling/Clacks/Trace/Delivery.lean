import Clacks.Trace.Transport

/-!
# What becomes of one message

One message on its way from {lit}`send_trace_message` through the datagram to
{lit}`handle_message`, for strings of every length.

Main results:

- Theorem {lit}`trace_path_integrity`: the log gains exactly the record of the
  message, or nothing at all.
- Theorem {lit}`sent_message_recorded_iff`: a message that was sent is recorded if
  and only if its packed form has at most 1024 bytes.
-/

namespace Clacks
namespace Trace

open Foundation Program

section Delivery

variable {pb : ProtobufC} {call : ApiCall} {time : Timespec} {outFile outFile' : Fd}
  {events : List StoreEvent}

/-- A message that fits is recorded under the daemon's clock reading. -/
theorem recorded_of_le (hpb : pb.Conforms) (hsize : pb.getPackedSize (call.message time) ≤ 1024)
    (hrun : (receiveTurn pb (some (receive (datagram pb (call.message time)))) outFile).Runs
      events outFile') (hsucceeded : ∀ e ∈ events, Succeeded e) :
    ∃ now : Timespec, clockReadings events = [now] ∧
      appended events = (call.record time now.us).line := by
  have hunpack := hpb.unpack_pack (call.message time)
  rw [← receive_datagram_of_le hsize] at hunpack
  rcases (handleMessage_stamps hunpack outFile).run hrun hsucceeded with ⟨now, hclock, hline⟩
  rw [call.record_received] at hline
  exact ⟨now, hclock, hline⟩

/-- Of a message that does not fit nothing is recorded. -/
theorem not_recorded_of_lt (hpb : pb.Conforms)
    (hsize : 1024 < pb.getPackedSize (call.message time))
    (hrun : (receiveTurn pb (some (receive (datagram pb (call.message time)))) outFile).Runs
      events outFile') : appended events = [] := by
  have hunpack := hpb.unpack_short (receive_datagram_of_lt hsize)
  rw [receiveTurn, handleMessage_none hunpack] at hrun
  rcases Runs_done.1 hrun with ⟨rfl, _⟩
  rfl

end Delivery

/-- Trace path integrity.  When a call sent its message and the daemon stored without
a failure what {lit}`recv` delivered of it, the log gained exactly the record of that
message, under the one clock reading of the daemon, if the packed message has at most
1024 bytes, and nothing if it is longer. -/
theorem trace_path_integrity {pb : ProtobufC} (hpb : pb.Conforms) {call : ApiCall}
    {time : Timespec} {domSock domSock' outFile outFile' : Fd} {clientEvents : List ClientEvent}
    (hsend : (sendTraceMessage pb (call.message time) domSock).Runs clientEvents (0, domSock'))
    {d : List UInt8} (hd : d ∈ sent clientEvents) {events : List StoreEvent}
    (hstore : (receiveTurn pb (some (receive d)) outFile).Runs events outFile')
    (hsucceeded : ∀ e ∈ events, Succeeded e) :
    (pb.getPackedSize (call.message time) ≤ 1024 → ∃ now : Timespec,
      clockReadings events = [now] ∧ appended events = (call.record time now.us).line) ∧
    (1024 < pb.getPackedSize (call.message time) → appended events = []) := by
  rw [sendTraceMessage_sent hsend, List.mem_singleton] at hd
  subst hd
  exact ⟨fun hsize => recorded_of_le hpb hsize hstore hsucceeded,
    fun hsize => not_recorded_of_lt hpb hsize hstore⟩

/-- A message for which {lit}`send_trace_message` returned 0 is recorded with its
identifier and its whole text, provided storage succeeds, if and only if its packed
form has at most 1024 bytes. -/
theorem sent_message_recorded_iff {pb : ProtobufC} (hpb : pb.Conforms) {call : ApiCall}
    {time : Timespec} {domSock domSock' outFile outFile' : Fd} {clientEvents : List ClientEvent}
    (hsend : (sendTraceMessage pb (call.message time) domSock).Runs clientEvents (0, domSock'))
    {d : List UInt8} (hd : d ∈ sent clientEvents) {events : List StoreEvent}
    (hstore : (receiveTurn pb (some (receive d)) outFile).Runs events outFile')
    (hsucceeded : ∀ e ∈ events, Succeeded e) :
    (∃ r : Record, appended events = r.line ∧ r.actId = call.id ∧ r.payload = call.payload) ↔
      pb.getPackedSize (call.message time) ≤ 1024 := by
  rw [sendTraceMessage_sent hsend, List.mem_singleton] at hd
  subst hd
  constructor
  · rintro ⟨r, hline, _⟩
    by_contra hsize
    rw [not_recorded_of_lt hpb (Nat.not_le.1 hsize) hstore] at hline
    simp [Record.line] at hline
  · intro hsize
    rcases recorded_of_le hpb hsize hstore hsucceeded with ⟨now, _, hline⟩
    refine ⟨_, hline, ?_, ?_⟩
    · cases call <;> rfl
    · cases call <;> rfl

/-! ## Two messages -/

/-- The start of the clock. -/
def bootTime : Timespec where
  tvSec := 0
  tvNsec := 0
  tvNsec_lt := by decide

/-- A join with an empty identifier. -/
def emptyJoin : ApiCall := .join nullId CString.empty

/-- A trace whose text alone fills the receive buffer. -/
def longTrace : ApiCall :=
  .trace nullId
    { bytes := List.replicate 1024 120
      nul_free := fun h => absurd (List.eq_of_mem_replicate h) (by decide) }

theorem getPackedSize_emptyJoin :
    referenceProtobuf.getPackedSize (emptyJoin.message bootTime) ≤ 1024 := by
  have hus : bootTime.us = 0 := rfl
  simp [ProtobufC.getPackedSize, referenceProtobuf, emptyJoin, ApiCall.message, hus,
    TraceMessage.wireFields, TraceMessage.init, requiredString, encodeFields, encodeField,
    encodeValue, FieldValue.kind, encodeVarint_of_lt, nullId, CString.empty, ascii]
  rw [encodeVarint_of_lt (by decide)]
  decide

/-- The text is part of the packed message. -/
theorem length_payload_lt_getPackedSize {pb : ProtobufC} (hpb : pb.Conforms) (call : ApiCall)
    (time : Timespec) :
    call.payload.bytes.length < pb.getPackedSize (call.message time) := by
  have hlength := length_encodeVarint_pos call.payload.bytes.length
  rw [ProtobufC.getPackedSize, hpb.pack_eq]
  cases call with
  | trace id text =>
      simp only [ApiCall.payload] at hlength
      simp [ApiCall.message, ApiCall.payload, TraceMessage.wireFields, TraceMessage.init,
        requiredString, encodeFields, encodeField, encodeValue]
      omega
  | join id jId =>
      simp only [ApiCall.payload] at hlength
      simp [ApiCall.message, ApiCall.payload, TraceMessage.wireFields, TraceMessage.init,
        requiredString, encodeFields, encodeField, encodeValue]
      omega

/-- A client that opens its socket and sends. -/
def sendEvents (call : ApiCall) : List ClientEvent :=
  [⟨.socket, some 3⟩,
    ⟨.sendto (some 3) (datagram referenceProtobuf (call.message bootTime)) clTransportDomSocket,
      true⟩]

theorem sendEvents_runs (call : ApiCall) :
    (sendTraceMessage referenceProtobuf (call.message bootTime) none).Runs (sendEvents call)
      (0, some 3) :=
  .ask (.ask (.done _))

/-- A join with an empty identifier is recorded as a join. -/
theorem trace_path_integrity_emptyJoin :
    ∃ (events : List StoreEvent) (now : Timespec),
      appended events = (emptyJoin.record bootTime now.us).line := by
  rcases exists_succeeded (receiveTurn referenceProtobuf
    (some (receive (datagram referenceProtobuf (emptyJoin.message bootTime)))) none) with
    ⟨events, outFile, hrun, hsucceeded⟩
  rcases (trace_path_integrity referenceProtobuf_conforms (sendEvents_runs emptyJoin)
    (by simp [sent, sendEvents]) hrun hsucceeded).1 getPackedSize_emptyJoin with
    ⟨now, _, hline⟩
  exact ⟨events, now, hline⟩

/-- The same message, seen from the client that sent it. -/
theorem sent_message_recorded_emptyJoin :
    ∃ (events : List StoreEvent) (r : Record), appended events = r.line ∧
      r.actId = emptyJoin.id ∧ r.payload = emptyJoin.payload := by
  rcases exists_succeeded (receiveTurn referenceProtobuf
    (some (receive (datagram referenceProtobuf (emptyJoin.message bootTime)))) none) with
    ⟨events, outFile, hrun, hsucceeded⟩
  exact ⟨events, (sent_message_recorded_iff referenceProtobuf_conforms (sendEvents_runs emptyJoin)
    (by simp [sent, sendEvents]) hrun hsucceeded).2 getPackedSize_emptyJoin⟩

/-- A text of 1024 bytes is sent with success and never recorded. -/
theorem sent_message_lost :
    ∃ (d : List UInt8) (events : List StoreEvent) (outFile' : Fd),
      (sendTraceMessage referenceProtobuf (longTrace.message bootTime) none).Runs
        (sendEvents longTrace) (0, some 3) ∧
      d ∈ sent (sendEvents longTrace) ∧
      (receiveTurn referenceProtobuf (some (receive d)) (some 4)).Runs events outFile' ∧
      (∀ e ∈ events, Succeeded e) ∧
      ¬∃ r : Record, appended events = r.line ∧ r.actId = longTrace.id ∧
        r.payload = longTrace.payload := by
  have hsize : 1024 < referenceProtobuf.getPackedSize (longTrace.message bootTime) := by
    have h := length_payload_lt_getPackedSize referenceProtobuf_conforms longTrace bootTime
    rwa [show longTrace.payload.bytes.length = 1024 from List.length_replicate] at h
  rcases exists_succeeded (receiveTurn referenceProtobuf
    (some (receive (datagram referenceProtobuf (longTrace.message bootTime)))) (some 4)) with
    ⟨events, outFile', hrun, hsucceeded⟩
  refine ⟨_, events, outFile', sendEvents_runs longTrace, by simp [sent, sendEvents], hrun,
    hsucceeded, ?_⟩
  rintro ⟨r, hline, _⟩
  rw [not_recorded_of_lt referenceProtobuf_conforms hsize hrun] at hline
  simp [Record.line] at hline

end Trace
end Clacks
