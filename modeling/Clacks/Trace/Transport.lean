import Clacks.Common
import Clacks.Trace.Storage

/-!
# From a client call to the log

Model of the tracing half of {lit}`clacks.c`, of
{lit}`cl_transport_domsock_client.c` and of the receiving half of
{lit}`cl_transport_domsock.c`.  A message travels as one datagram; the receiver
takes at most 1024 bytes of it.

Main results:

- Theorem {lit}`sendTraceMessage_sent`: a call that returned 0 sent its message.
- Theorem {lit}`handleMessage_stamps`: a message that unpacks is stored once.
- Theorems {lit}`receive_datagram_of_le` and {lit}`receive_datagram_of_lt`: which
  messages arrive whole.
-/

namespace Clacks
namespace Trace

open Foundation Program

/-! ## The client -/

/-- Calls of the client library; the arguments of {lit}`vasprintf` are given by the
text they format to. -/
inductive ClientOp where
  | vasprintf (text : CString)
  | clockGettime
  | socket
  | sendto (fd : Fd) (bytes : List UInt8) (path : List UInt8)

/-- Their answers: whether {lit}`vasprintf` could allocate, and whether
{lit}`sendto` took the datagram. -/
@[reducible]
def ClientOp.Ans : ClientOp → Type
  | vasprintf _ => Bool
  | clockGettime => Timespec
  | socket => Fd
  | sendto _ _ _ => Bool

/-- Programs of the client library. -/
abbrev ClientProgram (α : Type) := Program ClientOp ClientOp.Ans α

/-- One call of the client library with its answer. -/
abbrev ClientEvent := Event ClientOp ClientOp.Ans

/-- The program that makes one call. -/
def clientCall (op : ClientOp) : ClientProgram op.Ans :=
  ask op done

/-- The bytes {lit}`send_trace_message` hands to {lit}`sendto`: {lit}`len` is an
{lit}`unsigned`. -/
def datagram (pb : ProtobufC) (tMsg : TraceMessage) : List UInt8 :=
  (pb.pack tMsg).take (pb.getPackedSize tMsg % 2 ^ 32)

/-- {lit}`send_trace_message`: its return value and {lit}`dom_sock`. -/
def sendTraceMessage (pb : ProtobufC) (tMsg : TraceMessage) (domSock : Fd) :
    ClientProgram (Int × Fd) := do
  let domSock ←
    match domSock with
    | none => clientCall .socket
    | some fd => pure (some fd)
  let some fd := domSock | return (-1, none)
  if ← clientCall (.sendto (some fd) (datagram pb tMsg) clTransportDomSocket) then
    return (0, some fd)
  else
    return (-1, some fd)

/-- A call of the tracing interface with non-NULL arguments. -/
inductive ApiCall where
  | trace (id text : CString)
  | join (id jId : CString)
deriving DecidableEq

/-- The identifier a call is made for. -/
def ApiCall.id : ApiCall → CString
  | trace id _ => id
  | join id _ => id

/-- The text or the joined identifier of a call. -/
def ApiCall.payload : ApiCall → CString
  | trace _ text => text
  | join _ jId => jId

/-- The message a call builds after it read the clock. -/
def ApiCall.message (time : Timespec) : ApiCall → TraceMessage
  | trace id text =>
      { TraceMessage.init with
        actId := some id
        msg := some text
        tsOrigin := (Int64.ofInt time.us).toUInt64
        flags := 0 }
  | join id jId =>
      { TraceMessage.init with
        actId := some id
        joinId := some jId
        tsOrigin := (Int64.ofInt time.us).toUInt64
        flags := 0 }

/-- {lit}`_clacks_trace_id_string`. -/
def traceIdString (pb : ProtobufC) (id text : CString) (domSock : Fd) : ClientProgram Fd := do
  if ← clientCall (.vasprintf text) then
    let time ← clientCall .clockGettime
    let (_, domSock) ← sendTraceMessage pb ((ApiCall.trace id text).message time) domSock
    return domSock
  else
    return domSock

/-- {lit}`_clacks_join_id`. -/
def joinIdString (pb : ProtobufC) (id jId : CString) (domSock : Fd) : ClientProgram Fd := do
  let time ← clientCall .clockGettime
  let (_, domSock) ← sendTraceMessage pb ((ApiCall.join id jId).message time) domSock
  return domSock

/-- The program of a call. -/
def ApiCall.program (pb : ProtobufC) : ApiCall → Fd → ClientProgram Fd
  | trace id text => traceIdString pb id text
  | join id jId => joinIdString pb id jId

/-- The record that stands for a call in the log. -/
def ApiCall.record (time : Timespec) (us : Int) : ApiCall → Record
  | trace id text => ⟨.trace, us, (Int64.ofInt time.us).toUInt64, id, text⟩
  | join id jId => ⟨.join, us, (Int64.ofInt time.us).toUInt64, id, jId⟩

@[simp]
theorem ApiCall.record_daemonTime (call : ApiCall) (time : Timespec) (us : Int) :
    (call.record time us).daemonTime = us := by
  cases call <;> rfl

@[simp]
theorem ApiCall.record_tsOrigin (call : ApiCall) (time : Timespec) (us : Int) :
    (call.record time us).tsOrigin = (Int64.ofInt time.us).toUInt64 := by
  cases call <;> rfl

/-- The datagrams that were sent in a run. -/
def sent (events : List ClientEvent) : List (List UInt8) :=
  events.filterMap fun
    | ⟨.sendto _ bytes _, true⟩ => some bytes
    | _ => none

/-- A call that returned 0 sent its message, and only that. -/
theorem sendTraceMessage_sent {pb : ProtobufC} {tMsg : TraceMessage} {domSock domSock' : Fd}
    {events : List ClientEvent}
    (hrun : (sendTraceMessage pb tMsg domSock).Runs events (0, domSock')) :
    sent events = [datagram pb tMsg] := by
  have hsend : ∀ (fd : Nat) (events : List ClientEvent),
      Runs (clientCall (.sendto (some fd) (datagram pb tMsg) clTransportDomSocket) >>= fun ok =>
        if ok = true then done ((0 : Int), some fd) else done (-1, some fd)) events (0, domSock') →
      sent events = [datagram pb tMsg] := by
    intro fd events hrun
    rcases Runs_ask.1 hrun with ⟨ok, rest, rfl, hrest⟩
    cases ok with
    | true =>
        rcases Runs_done.1 hrest with ⟨rfl, _⟩
        rfl
    | false =>
        rcases Runs_done.1 hrest with ⟨_, hret⟩
        cases hret
  cases domSock with
  | some fd => exact hsend fd events hrun
  | none =>
      rcases Runs_ask.1 hrun with ⟨fd, rest, rfl, hrest⟩
      cases fd with
      | none =>
          rcases Runs_done.1 hrest with ⟨_, hret⟩
          cases hret
      | some fd => exact hsend fd rest hrest

/-! ## The daemon -/

/-- {lit}`handle_message`; the result is {lit}`out_file`. -/
def handleMessage (pb : ProtobufC) (rdBuf : List UInt8) (outFile : Fd) : StoreProgram Fd := do
  match pb.unpack rdBuf with
  | none => return outFile
  | some tMsg =>
      -- Decide what kind of message it is; both are stored by the same function.
      if tMsg.joinId.isSome then
        let (_, outFile) ← storeMessage (some tMsg) outFile
        return outFile
      else
        let (_, outFile) ← storeMessage (some tMsg) outFile
        return outFile

/-- What {lit}`recv` delivers of a datagram to the 1024-byte buffer. -/
def receive (d : List UInt8) : Chunk 1024 :=
  Chunk.front 1024 d

/-- One turn of the loop of {lit}`start_transport`, with the result of its
{lit}`recv`. -/
def receiveTurn (pb : ProtobufC) (received : Option (Chunk 1024)) (outFile : Fd) :
    StoreProgram Fd :=
  match received with
  | none => return outFile
  | some rdBuf => handleMessage pb rdBuf.bytes outFile

/-- Nothing is stored of a datagram that does not unpack. -/
theorem handleMessage_none {pb : ProtobufC} {rdBuf : List UInt8} (h : pb.unpack rdBuf = none)
    (outFile : Fd) : handleMessage pb rdBuf outFile = done outFile := by
  simp [handleMessage, h]

/-- A message that unpacks is stored under one clock reading. -/
theorem handleMessage_stamps {pb : ProtobufC} {rdBuf : List UInt8} {tMsg : TraceMessage}
    (h : pb.unpack rdBuf = some tMsg) (outFile : Fd) :
    Stamps (fun time => (tMsg.record time.us).line) (handleMessage pb rdBuf outFile) := by
  have hboth : handleMessage pb rdBuf outFile =
      storeMessage (some tMsg) outFile >>= fun r => done r.2 := by
    simp only [handleMessage, h]
    split <;> rfl
  rw [hboth]
  exact storeMessage_stamps tMsg outFile Prod.snd

/-- A message the client built unpacks to its own record. -/
theorem ApiCall.record_received (call : ApiCall) (time : Timespec) (us : Int) :
    (call.message time).received.record us = call.record time us := by
  cases call with
  | trace id text => rfl
  | join id jId => rfl

section Limit

variable {pb : ProtobufC} {tMsg : TraceMessage}

/-- A message of at most 1024 bytes arrives whole. -/
theorem receive_datagram_of_le (hsize : pb.getPackedSize tMsg ≤ 1024) :
    (receive (datagram pb tMsg)).bytes = pb.pack tMsg := by
  have hlen : pb.getPackedSize tMsg % 2 ^ 32 = pb.getPackedSize tMsg :=
    Nat.mod_eq_of_lt (by omega)
  rw [receive, Chunk.front_bytes, datagram, hlen, List.take_take]
  apply List.take_of_length_le
  rw [Nat.min_eq_right hsize]
  exact Nat.le_refl _

/-- A longer one loses bytes at its end. -/
theorem receive_datagram_of_lt (hsize : 1024 < pb.getPackedSize tMsg) :
    CutOff (receive (datagram pb tMsg)).bytes (pb.pack tMsg) := by
  rw [receive, Chunk.front_bytes, datagram, List.take_take]
  apply cutOff_take
  exact Nat.lt_of_le_of_lt (Nat.min_le_left _ _) hsize

end Limit

end Trace
end Clacks
