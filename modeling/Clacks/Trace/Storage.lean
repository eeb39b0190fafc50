import Clacks.Foundation.Program
import Clacks.Foundation.Sockets
import Clacks.Foundation.Text
import Clacks.Trace.Message

/-!
# The log file

Model of {lit}`cl_file_module.c`: one line for each message, written to a file that
is opened at the first message.

Main results:

- Theorem {lit}`storeMessage_stamps`: a call reads the clock once and writes the line
  of its message and nothing else.
- Theorem {lit}`Stamps.run`: what such a program appends when nothing fails.
- Theorem {lit}`Stored.log_eq`: the log after any number of calls.
-/

namespace Clacks
namespace Trace

open Foundation Program

/-! ## Lines -/

/-- What a line records. -/
inductive Kind where
  | trace
  | join
deriving DecidableEq

/-- The letter that starts a line. -/
def Kind.letter : Kind → UInt8
  | trace => 84
  | join => 74

/-- What {lit}`_store_trace_message` prints. -/
structure Record where
  kind : Kind
  daemonTime : Int
  tsOrigin : UInt64
  actId : CString
  payload : CString
deriving DecidableEq

/-- The separator {lit}`||`. -/
def bar : UInt8 := 124

/-- {lit}`"T:%lld||%lu||%s||%s"` and its variant for joins. -/
def Record.text (r : Record) : List UInt8 :=
  r.kind.letter :: 58 :: integer r.daemonTime ++ bar :: bar :: decimal r.tsOrigin.toNat ++
    bar :: bar :: r.actId.bytes ++ bar :: bar :: r.payload.bytes

/-- The text with the newline that ends both formats. -/
def Record.line (r : Record) : List UInt8 :=
  r.text ++ [10]

/-- The bytes below the minus sign stand in a text only where its strings have them. -/
theorem Record.not_mem_text {r : Record} {b : UInt8} (hb : b.toNat < 45)
    (hid : b ∉ r.actId.bytes) (hpayload : b ∉ r.payload.bytes) : b ∉ r.text := by
  have hne : ∀ c : UInt8, 45 ≤ c.toNat → b ≠ c := by
    rintro c hc rfl
    omega
  have hbar : b ≠ bar := hne bar (by decide)
  have hletter : b ≠ r.kind.letter := hne _ (by cases r.kind <;> decide)
  have htime : b ∉ integer r.daemonTime := by
    intro h
    rcases isDigit_of_mem_integer h with hdigit | hsign
    · exact hne b (Nat.le_trans (by decide) hdigit.1) rfl
    · exact hne 45 (by decide) hsign
  have hts : b ∉ decimal r.tsOrigin.toNat := fun h =>
    hne b (Nat.le_trans (by decide) (isDigit_of_mem_decimal h).1) rfl
  simp [text, hbar, hletter, hne 58 (by decide), htime, hts, hid, hpayload]

/-- {lit}`strlen` measures a whole line. -/
theorem Record.cstr_line (r : Record) : cstr r.line = r.line := by
  apply cstr_of_nul_free
  have htext := not_mem_text (by decide) r.actId.nul_free r.payload.nul_free
  simp [line, htext]

/-- What {lit}`%s` prints for a pointer. -/
def printed (s : Option CString) : CString :=
  s.getD { bytes := ascii "(null)", nul_free := by decide }

/-- The branch of {lit}`_store_trace_message` and its arguments to {lit}`asprintf`. -/
def TraceMessage.record (m : TraceMessage) (us : Int) : Record :=
  match m.joinId with
  | some joinId => ⟨.join, us, m.tsOrigin, printed m.actId, joinId⟩
  | none => ⟨.trace, us, m.tsOrigin, printed m.actId, printed m.msg⟩

/-! ## Storing -/

/-- Calls of the storage module. -/
inductive StoreOp where
  | clockGettime
  | asprintf (text : List UInt8)
  | openFile
  | write (fd : Fd) (bytes : List UInt8)

/-- Their answers; {lit}`asprintf` fails when it cannot allocate. -/
@[reducible]
def StoreOp.Ans : StoreOp → Type
  | clockGettime => Timespec
  | asprintf _ => Bool
  | openFile => Fd
  | write _ bytes => Option (Fin (bytes.length + 1))

/-- Programs of the storage module. -/
abbrev StoreProgram (α : Type) := Program StoreOp StoreOp.Ans α

/-- The program that makes one call. -/
def storeCall (op : StoreOp) : StoreProgram op.Ans :=
  ask op done

/-- {lit}`_store_trace_message`: its return value and {lit}`out_file`. -/
def storeRecord (msg : TraceMessage) (outFile : Fd) : StoreProgram (Int × Fd) := do
  let time ← storeCall .clockGettime
  let toWrite := (msg.record time.us).line
  if !(← storeCall (.asprintf toWrite)) then
    return (-1, outFile)
  let outFile ←
    match outFile with
    | none => storeCall .openFile
    | some fd => pure (some fd)
  let some fd := outFile | return (-1, none)
  let some _ ← storeCall (.write (some fd) (cstr toWrite)) | return (-1, some fd)
  return (0, some fd)

/-- {lit}`store_trace_message` and {lit}`store_join_message`, which do the same. -/
def storeMessage (msg : Option TraceMessage) (outFile : Fd) : StoreProgram (Int × Fd) :=
  match msg with
  | some msg => storeRecord msg outFile
  | none => return (-1, outFile)

/-! ## What a call appends -/

/-- One call of the storage module with its answer. -/
abbrev StoreEvent := Event StoreOp StoreOp.Ans

/-- The answer is not a failure, and a write took everything. -/
def Succeeded : StoreEvent → Prop
  | ⟨.clockGettime, _⟩ => True
  | ⟨.asprintf _, ok⟩ => ok = true
  | ⟨.openFile, fd⟩ => fd ≠ none
  | ⟨.write _ _, count⟩ => count = some (Fin.last _)

/-- What one call adds to the log file. -/
def appendedBy : StoreEvent → List UInt8
  | ⟨.write (some _) bytes, some count⟩ => bytes.take count
  | _ => []

/-- What a run adds to the log file. -/
def appended (events : List StoreEvent) : List UInt8 :=
  events.flatMap appendedBy

/-- The clock readings of a run of the storage module. -/
def clockReadings (events : List StoreEvent) : List Timespec :=
  events.filterMap fun
    | ⟨.clockGettime, time⟩ => some time
    | _ => none

/-- A program that writes {lit}`text` once, after it has allocated it and opened the
file where needed, and reads no clock. -/
inductive Writes {α : Type} (text : List UInt8) : StoreProgram α → Prop where
  | asprintf {t : List UInt8} {k : Bool → StoreProgram α} (hrest : Writes text (k true)) :
      Writes text (.ask (.asprintf t) k)
  | openFile {k : Fd → StoreProgram α} (hrest : ∀ fd, Writes text (k (some fd))) :
      Writes text (.ask .openFile k)
  | write {fd : Nat} {bytes : List UInt8} {k : Option (Fin (bytes.length + 1)) → StoreProgram α}
      {a : α} (hbytes : bytes = text) (hdone : k (some (Fin.last _)) = .done a) :
      Writes text (.ask (.write (some fd) bytes) k)

/-- A program that reads the clock once and then writes {lit}`line` of what it read. -/
def Stamps {α : Type} (line : Timespec → List UInt8) (p : StoreProgram α) : Prop :=
  ∃ k, p = .ask .clockGettime k ∧ ∀ time, Writes (line time) (k time)

/-- A call writes the line of its message under its own clock reading. -/
theorem storeMessage_stamps {α : Type} (msg : TraceMessage) (outFile : Fd)
    (next : Int × Fd → α) : Stamps (fun time => (msg.record time.us).line)
      (storeMessage (some msg) outFile >>= fun r => done (next r)) := by
  refine ⟨_, rfl, fun time => ?_⟩
  apply Writes.asprintf
  cases outFile with
  | none => exact .openFile fun fd => .write (Record.cstr_line _) rfl
  | some fd => exact .write (Record.cstr_line _) rfl

theorem storeMessage_some_stamps (msg : TraceMessage) (outFile : Fd) :
    Stamps (fun time => (msg.record time.us).line) (storeMessage (some msg) outFile) := by
  have hstamps := storeMessage_stamps msg outFile id
  rwa [show (storeMessage (some msg) outFile >>= fun r => done (id r)) = _ from
    bind_pure _] at hstamps

/-- When nothing fails, such a program appends its text and nothing else. -/
theorem Writes.appended_eq {α : Type} {text : List UInt8} {p : StoreProgram α} (h : Writes text p)
    {events : List StoreEvent} {a : α} (hrun : p.Runs events a)
    (hsucceeded : ∀ e ∈ events, Succeeded e) : appended events = text := by
  induction h generalizing events with
  | asprintf _ ih =>
      rcases Runs_ask.1 hrun with ⟨ok, rest, rfl, hrest⟩
      rw [List.forall_mem_cons] at hsucceeded
      have hok : ok = true := hsucceeded.1
      subst hok
      simpa [appended, appendedBy] using ih hrest hsucceeded.2
  | openFile _ ih =>
      rcases Runs_ask.1 hrun with ⟨fd, rest, rfl, hrest⟩
      rw [List.forall_mem_cons] at hsucceeded
      cases fd with
      | none => exact absurd rfl hsucceeded.1
      | some fd => simpa [appended, appendedBy] using ih fd hrest hsucceeded.2
  | write hbytes hdone =>
      rcases Runs_ask.1 hrun with ⟨count, rest, rfl, hrest⟩
      rw [List.forall_mem_cons] at hsucceeded
      have hcount : count = some (Fin.last _) := hsucceeded.1
      subst hcount
      rw [hdone] at hrest
      rcases Runs_done.1 hrest with ⟨rfl, _⟩
      simp [appended, appendedBy, hbytes]

/-- Nor does it read the clock. -/
theorem Writes.clockReadings_eq {α : Type} {text : List UInt8} {p : StoreProgram α}
    (h : Writes text p) {events : List StoreEvent} {a : α} (hrun : p.Runs events a)
    (hsucceeded : ∀ e ∈ events, Succeeded e) : clockReadings events = [] := by
  induction h generalizing events with
  | asprintf _ ih =>
      rcases Runs_ask.1 hrun with ⟨ok, rest, rfl, hrest⟩
      rw [List.forall_mem_cons] at hsucceeded
      have hok : ok = true := hsucceeded.1
      subst hok
      simpa [clockReadings] using ih hrest hsucceeded.2
  | openFile _ ih =>
      rcases Runs_ask.1 hrun with ⟨fd, rest, rfl, hrest⟩
      rw [List.forall_mem_cons] at hsucceeded
      cases fd with
      | none => exact absurd rfl hsucceeded.1
      | some fd => simpa [clockReadings] using ih fd hrest hsucceeded.2
  | write hbytes hdone =>
      rcases Runs_ask.1 hrun with ⟨count, rest, rfl, hrest⟩
      rw [List.forall_mem_cons] at hsucceeded
      have hcount : count = some (Fin.last _) := hsucceeded.1
      subst hcount
      rw [hdone] at hrest
      rcases Runs_done.1 hrest with ⟨rfl, _⟩
      rfl

/-- When nothing fails, a program that stamps a line appends it under its one clock
reading. -/
theorem Stamps.run {α : Type} {line : Timespec → List UInt8} {p : StoreProgram α}
    (h : Stamps line p) {events : List StoreEvent} {a : α} (hrun : p.Runs events a)
    (hsucceeded : ∀ e ∈ events, Succeeded e) :
    ∃ time, clockReadings events = [time] ∧ appended events = line time := by
  rcases h with ⟨k, rfl, hwrites⟩
  rcases Runs_ask.1 hrun with ⟨time, rest, rfl, hrest⟩
  rw [List.forall_mem_cons] at hsucceeded
  have htext := (hwrites time).appended_eq hrest hsucceeded.2
  have hclock := (hwrites time).clockReadings_eq hrest hsucceeded.2
  refine ⟨time, ?_, ?_⟩
  · simpa [clockReadings] using hclock
  · simpa [appended, appendedBy] using htext

/-- Storage can always succeed. -/
theorem exists_succeeded {α : Type} (p : StoreProgram α) :
    ∃ events a, p.Runs events a ∧ ∀ e ∈ events, Succeeded e := by
  apply Runs_exists
  intro op
  cases op with
  | clockGettime => exact ⟨⟨0, 0, by decide⟩, trivial⟩
  | asprintf text => exact ⟨true, rfl⟩
  | openFile => exact ⟨some 4, by simp [Succeeded]⟩
  | write fd bytes => exact ⟨some (Fin.last _), rfl⟩

/-- A program that stamps a line can succeed under every clock reading. -/
theorem Stamps.exists_run {α : Type} {line : Timespec → List UInt8} {p : StoreProgram α}
    (h : Stamps line p) (time : Timespec) : ∃ events a, p.Runs events a ∧
      (∀ e ∈ events, Succeeded e) ∧ clockReadings events = [time] := by
  rcases h with ⟨k, rfl, hwrites⟩
  rcases exists_succeeded (k time) with ⟨events, a, hrun, hsucceeded⟩
  have hclock := (hwrites time).clockReadings_eq hrun hsucceeded
  refine ⟨⟨.clockGettime, time⟩ :: events, a, .ask hrun, ?_, ?_⟩
  · rw [List.forall_mem_cons]
    exact ⟨trivial, hsucceeded⟩
  · simpa [clockReadings] using hclock

/-! ## Sequences of calls -/

/-- The log after {lit}`records` were stored in order. -/
def logOf (records : List Record) : List UInt8 :=
  records.flatMap Record.line

/-- {lit}`Stored records outFile log`: from an empty log and a closed file, successive
calls that did not fail printed {lit}`records` and left {lit}`outFile` and
{lit}`log`. -/
inductive Stored : List Record → Fd → List UInt8 → Prop where
  | start : Stored [] none []
  | call {records : List Record} {outFile outFile' : Fd} {log : List UInt8} {msg : TraceMessage}
      {ret : Int} {events : List StoreEvent} {time : Timespec} :
      Stored records outFile log →
      (storeMessage (some msg) outFile).Runs events (ret, outFile') →
      (∀ e ∈ events, Succeeded e) → clockReadings events = [time] →
      Stored (records ++ [msg.record time.us]) outFile' (log ++ appended events)

/-- The log holds the lines of the stored records in order. -/
theorem Stored.log_eq {records : List Record} {outFile : Fd} {log : List UInt8}
    (h : Stored records outFile log) : log = logOf records := by
  induction h with
  | start => rfl
  | @call _ outFile _ _ msg _ _ _ _ hrun hsucceeded htime ih =>
      rcases (storeMessage_some_stamps msg outFile).run hrun hsucceeded with
        ⟨time, htime', hline⟩
      rw [htime] at htime'
      cases htime'
      simp [logOf, ih, hline]

/-- Every sequence of messages can be stored, each under any clock reading. -/
theorem Stored.exists_messages (messages : List (TraceMessage × Timespec)) :
    ∃ outFile log, Stored (messages.map fun m => m.1.record m.2.us) outFile log := by
  induction messages using List.reverseRecOn with
  | nil => exact ⟨none, [], .start⟩
  | append_singleton messages m ih =>
      rcases ih with ⟨outFile, log, hstored⟩
      rcases (storeMessage_some_stamps m.1 outFile).exists_run m.2 with
        ⟨events, ⟨ret, outFile'⟩, hrun, hsucceeded, hclock⟩
      rw [List.map_append]
      exact ⟨outFile', _, hstored.call hrun hsucceeded hclock⟩

end Trace
end Clacks
