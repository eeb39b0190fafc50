import Clacks.Trace.Storage

/-!
# What the store says it recorded

Histories of {lit}`store_trace_message` and {lit}`store_join_message` under any answers
of the system calls inside them.  The result of {lit}`write` is only compared with zero,
so a call whose line was taken in part returns 0.

Main results:

- Theorem {lit}`storeMessage_outcome`: one call, whatever its system calls answer.
- Theorem {lit}`flatMap_eq_iff_of_front`: pieces that are prefixes of the wanted ones
  add up to the same only when they are the same.
- Theorem {lit}`recorded_iff`: when the log is what the return values say.
-/

namespace Clacks
namespace Trace

open Foundation Program

/-! ## One call -/

/-- A call that was made: its argument, the system calls with their answers, and what it
returned. -/
structure StoreCall where
  msg : Option TraceMessage
  events : List StoreEvent
  ret : Int

/-- The line of the call's message under the call's clock reading. -/
def StoreCall.line (c : StoreCall) : List UInt8 :=
  match c.msg, clockReadings c.events with
  | some msg, time :: _ => (msg.record time.us).line
  | _, _ => []

/-- Every write of the call that did not fail took all its bytes. -/
def StoreCall.Whole (c : StoreCall) : Prop :=
  ∀ fd bytes count, ⟨.write fd bytes, some count⟩ ∈ c.events → count.val = bytes.length

/-- The front of a run before its write: it reads the clock once and writes nothing. -/
structure Front (time : Timespec) (before : List StoreEvent) : Prop where
  clock_eq : clockReadings before = [time]
  appended_eq : appended before = []
  no_write : ∀ fd bytes answer, ⟨.write fd bytes, answer⟩ ∉ before

/-- What is left of a call once the file is open. -/
def writeLine (fd : Nat) (toWrite : List UInt8) : StoreProgram (Int × Fd) := do
  let some _ ← storeCall (.write (some fd) toWrite) | return (-1, some fd)
  return (0, some fd)

theorem writeLine_shape {fd : Nat} {toWrite : List UInt8} {events : List StoreEvent} {ret : Int}
    {outFile : Fd} (hrun : (writeLine fd toWrite).Runs events (ret, outFile)) :
    ∃ answer, events = [⟨.write (some fd) toWrite, answer⟩] ∧
      ret = if answer = none then -1 else 0 := by
  rcases Runs_ask.1 hrun with ⟨answer, rest, rfl, hdone⟩
  cases answer with
  | none =>
      rcases Runs_done.1 hdone with ⟨rfl, hret⟩
      cases hret
      exact ⟨none, rfl, rfl⟩
  | some count =>
      rcases Runs_done.1 hdone with ⟨rfl, hret⟩
      cases hret
      exact ⟨some count, rfl, by simp⟩

/-- The call, with its last step under a name. -/
theorem storeRecord_eq (msg : TraceMessage) (outFile : Fd) :
    storeRecord msg outFile = .ask .clockGettime fun time =>
      .ask (.asprintf (msg.record time.us).line) fun
        | false => .done (-1, outFile)
        | true =>
            match outFile with
            | some fd => writeLine fd (cstr (msg.record time.us).line)
            | none => .ask .openFile fun
                | none => .done (-1, none)
                | some fd => writeLine fd (cstr (msg.record time.us).line) := by
  unfold storeRecord
  apply ask_congr
  intro time
  apply ask_congr
  intro ok
  cases ok with
  | false => rfl
  | true =>
      cases outFile with
      | some fd =>
          apply ask_congr
          intro answer
          cases answer with
          | none => rfl
          | some count => rfl
      | none =>
          apply ask_congr
          intro opened
          cases opened with
          | none => rfl
          | some fd =>
              apply ask_congr
              intro answer
              cases answer with
              | none => rfl
              | some count => rfl

/-- A call gives up before its write, or it ends with one write of its line, whose result
decides what it returns. -/
theorem storeRecord_shape {msg : TraceMessage} {outFile outFile' : Fd} {events : List StoreEvent}
    {ret : Int} (hrun : (storeRecord msg outFile).Runs events (ret, outFile')) :
    ∃ time before, Front time before ∧
      ((ret = -1 ∧ events = before) ∨
        ∃ fd answer, events = before ++ [⟨.write (some fd) (msg.record time.us).line, answer⟩] ∧
          ret = if answer = none then -1 else 0) := by
  rw [storeRecord_eq] at hrun
  rcases Runs_ask.1 hrun with ⟨time, rest, rfl, hprint⟩
  rcases Runs_ask.1 hprint with ⟨ok, rest, rfl, hopen⟩
  cases ok with
  | false =>
      rcases Runs_done.1 hopen with ⟨rfl, hret⟩
      cases hret
      exact ⟨time, _, ⟨rfl, rfl, by simp⟩, .inl ⟨rfl, rfl⟩⟩
  | true =>
      cases outFile with
      | some fd =>
          rw [Record.cstr_line] at hopen
          rcases writeLine_shape hopen with ⟨answer, rfl, hret⟩
          exact ⟨time, [⟨.clockGettime, time⟩, ⟨.asprintf _, true⟩], ⟨rfl, rfl, by simp⟩,
            .inr ⟨fd, answer, rfl, hret⟩⟩
      | none =>
          rcases Runs_ask.1 hopen with ⟨opened, rest, rfl, hrest⟩
          cases opened with
          | none =>
              rcases Runs_done.1 hrest with ⟨rfl, hret⟩
              cases hret
              exact ⟨time, _, ⟨rfl, rfl, by simp⟩, .inl ⟨rfl, rfl⟩⟩
          | some fd =>
              rw [Record.cstr_line] at hrest
              rcases writeLine_shape hrest with ⟨answer, rfl, hret⟩
              exact ⟨time, [⟨.clockGettime, time⟩, ⟨.asprintf _, true⟩, ⟨.openFile, some fd⟩],
                ⟨rfl, rfl, by simp⟩, .inr ⟨fd, answer, rfl, hret⟩⟩

namespace Front

variable {time : Timespec} {before : List StoreEvent}

/-- After the front, the log holds what the last system call appended. -/
theorem appended_concat (hfront : Front time before) (e : StoreEvent) :
    appended (before ++ [e]) = appendedBy e := by
  have hbefore := hfront.appended_eq
  unfold appended at hbefore ⊢
  rw [List.flatMap_append, hbefore]
  simp

/-- A write after the front is the last system call. -/
theorem write_mem_concat (hfront : Front time before) {e : StoreEvent} {fd : Fd}
    {bytes : List UInt8} {answer : Option (Fin (bytes.length + 1))}
    (hmem : ⟨.write fd bytes, answer⟩ ∈ before ++ [e]) : e = ⟨.write fd bytes, answer⟩ := by
  rcases List.mem_append.1 hmem with hmem | hmem
  · exact absurd hmem (hfront.no_write _ _ _)
  · exact (List.mem_singleton.1 hmem).symm

/-- The line of a call is the one its only clock reading stamps. -/
theorem line_eq (hfront : Front time before) (msg : TraceMessage) (fd : Fd)
    (bytes : List UInt8) (answer : Option (Fin (bytes.length + 1))) (ret : Int) :
    StoreCall.line ⟨some msg, before ++ [⟨.write fd bytes, answer⟩], ret⟩ =
      (msg.record time.us).line := by
  have hclock := hfront.clock_eq
  unfold clockReadings at hclock
  simp [StoreCall.line, clockReadings, hclock]

end Front

/-- A call returns {lit}`-1` and leaves the log alone, or returns 0 after a write that
took the front of its line. -/
theorem storeMessage_outcome {c : StoreCall} {outFile outFile' : Fd}
    (hrun : (storeMessage c.msg outFile).Runs c.events (c.ret, outFile')) :
    (c.ret = -1 ∧ appended c.events = [] ∧ c.Whole) ∨
      (c.ret = 0 ∧ ∃ count ≤ c.line.length, appended c.events = c.line.take count ∧
        (c.Whole ↔ count = c.line.length)) := by
  rcases c with ⟨msg, events, ret⟩
  cases msg with
  | none =>
      rcases Runs_done.1 hrun with ⟨hevents, hret⟩
      cases hret
      subst hevents
      exact .inl ⟨rfl, rfl, by simp [StoreCall.Whole]⟩
  | some msg =>
      rcases storeRecord_shape hrun with ⟨time, before, hfront, hend⟩
      rcases hend with ⟨hret, hevents⟩ | ⟨fd, answer, hevents, hret⟩
      · subst hevents
        refine .inl ⟨hret, hfront.appended_eq, ?_⟩
        intro fd bytes count hmem
        exact absurd hmem (hfront.no_write _ _ _)
      · simp only at hevents hret
        subst hevents
        cases answer with
        | none =>
            refine .inl ⟨hret, hfront.appended_concat _, ?_⟩
            intro fd' bytes count hmem
            cases hfront.write_mem_concat hmem
        | some count =>
            refine .inr ⟨by simpa using hret, count.val, ?_⟩
            rw [hfront.line_eq]
            refine ⟨by omega, hfront.appended_concat _, ?_⟩
            constructor
            · intro hwhole
              exact hwhole (some fd) _ count (by simp)
            · intro hcount fd' bytes count' hmem
              cases hfront.write_mem_concat hmem
              exact hcount

/-- A call whose system calls succeed returns 0 and records its line. -/
theorem recorded_of_succeeded {c : StoreCall} {outFile outFile' : Fd} (hmsg : c.msg ≠ none)
    (hrun : (storeMessage c.msg outFile).Runs c.events (c.ret, outFile'))
    (hsucceeded : ∀ e ∈ c.events, Succeeded e) : c.ret = 0 ∧ appended c.events = c.line := by
  have hwhole : c.Whole := by
    intro fd bytes count hmem
    have hlast : some count = some (Fin.last _) := hsucceeded _ hmem
    rw [Option.some.inj hlast]
    rfl
  rcases storeMessage_outcome hrun with ⟨_, happended, _⟩ | ⟨hret, count, _, happended, hcount⟩
  · rcases Option.ne_none_iff_exists'.1 hmsg with ⟨msg, hsome⟩
    rw [hsome] at hrun
    rcases (storeMessage_some_stamps msg outFile).run hrun hsucceeded with ⟨time, _, hline⟩
    simp [happended, Record.line] at hline
  · rw [happended, hcount.1 hwhole, List.take_length]
    exact ⟨hret, rfl⟩

/-! ## Pieces of lines -/

section Pieces

variable {α β : Type*} {f g : α → List β} {xs : List α}

theorem length_flatMap_le_of_front (h : ∀ x ∈ xs, f x <+: g x) :
    (xs.flatMap f).length ≤ (xs.flatMap g).length := by
  induction xs with
  | nil => simp
  | cons x xs ih =>
      rw [List.forall_mem_cons] at h
      have hx := h.1.length_le
      have hxs := ih h.2
      simp only [List.flatMap_cons, List.length_append]
      omega

/-- Pieces that are prefixes of the wanted ones add up to the same list only when each
of them is the wanted one. -/
theorem flatMap_eq_iff_of_front (h : ∀ x ∈ xs, f x <+: g x) :
    xs.flatMap f = xs.flatMap g ↔ ∀ x ∈ xs, f x = g x := by
  induction xs with
  | nil => simp
  | cons x xs ih =>
      rw [List.forall_mem_cons] at h
      rw [List.forall_mem_cons, List.flatMap_cons, List.flatMap_cons, ← ih h.2]
      constructor
      · intro heq
        have hlength := congrArg List.length heq
        have hx := h.1.length_le
        have hxs := length_flatMap_le_of_front h.2
        rw [List.length_append, List.length_append] at hlength
        have hsame : f x = g x := h.1.eq_of_length (by omega)
        rw [hsame] at heq
        exact ⟨hsame, List.append_cancel_left heq⟩
      · intro hall
        rw [hall.1, hall.2]

end Pieces

/-! ## Histories -/

/-- {lit}`Recorded history outFile log`: from a closed file, the calls of
{lit}`history` were made in order under any answers, and left {lit}`outFile`; together
they added {lit}`log` to the file. -/
inductive Recorded : List StoreCall → Fd → List UInt8 → Prop where
  | start : Recorded [] none []
  | call {history : List StoreCall} {outFile outFile' : Fd} {log : List UInt8} {c : StoreCall} :
      Recorded history outFile log →
      (storeMessage c.msg outFile).Runs c.events (c.ret, outFile') →
      Recorded (history ++ [c]) outFile' (log ++ appended c.events)

/-- What a call that kept its word added: its line if it returned 0, and nothing
otherwise. -/
def StoreCall.promised (c : StoreCall) : List UInt8 :=
  if c.ret = 0 then c.line else []

section Histories

variable {history : List StoreCall} {outFile : Fd} {log : List UInt8}

theorem Recorded.log_eq (h : Recorded history outFile log) :
    log = history.flatMap fun c => appended c.events := by
  induction h with
  | start => rfl
  | call _ _ ih => simp [ih]

/-- Each call of a history was made in some state of the file. -/
theorem Recorded.outcome (h : Recorded history outFile log) {c : StoreCall} (hc : c ∈ history) :
    (c.ret = -1 ∧ appended c.events = [] ∧ c.Whole) ∨
      (c.ret = 0 ∧ ∃ count ≤ c.line.length, appended c.events = c.line.take count ∧
        (c.Whole ↔ count = c.line.length)) := by
  induction h with
  | start => cases hc
  | call _ hrun ih =>
      rcases List.mem_append.1 hc with hc | hc
      · exact ih hc
      · rw [List.mem_singleton.1 hc]
        exact storeMessage_outcome hrun

/-- A call adds the front of what it promised, and all of it when its write was whole. -/
theorem Recorded.promised (h : Recorded history outFile log) {c : StoreCall} (hc : c ∈ history) :
    appended c.events <+: c.promised ∧ (appended c.events = c.promised ↔ c.Whole) := by
  unfold StoreCall.promised
  rcases h.outcome hc with ⟨hret, happended, hwhole⟩ | ⟨hret, count, hle, happended, hwhole⟩
  · simp [hret, happended, hwhole]
  · rw [if_pos hret, happended, hwhole]
    refine ⟨List.take_prefix _ _, ?_⟩
    constructor
    · intro heq
      have hlength := congrArg List.length heq
      rw [List.length_take] at hlength
      omega
    · intro hcount
      rw [hcount, List.take_length]

theorem flatMap_promised (history : List StoreCall) :
    history.flatMap StoreCall.promised = (history.filter (·.ret = 0)).flatMap StoreCall.line := by
  induction history with
  | nil => rfl
  | cons c history ih =>
      by_cases hret : c.ret = 0
      · simp [StoreCall.promised, hret, ih]
      · simp [StoreCall.promised, hret, ih]

/-- The store reports what it recorded exactly when no write took a proper part of its
line.  Then, and only then, the log is made of the lines of the calls that returned 0;
a call that returned a negative value added nothing; and a later call whose system calls
succeed is recorded, whatever the earlier ones returned. -/
theorem recorded_iff (h : Recorded history outFile log) :
    (log = (history.filter (·.ret = 0)).flatMap StoreCall.line ∧
        (∀ c ∈ history, c.ret < 0 → appended c.events = []) ∧
        ∀ (c : StoreCall) outFile', c.msg ≠ none →
          (storeMessage c.msg outFile).Runs c.events (c.ret, outFile') →
          (∀ e ∈ c.events, Succeeded e) → c.ret = 0 ∧ appended c.events = c.line) ↔
      ∀ c ∈ history, c.Whole := by
  have hlog : log = (history.filter (·.ret = 0)).flatMap StoreCall.line ↔
      ∀ c ∈ history, c.Whole := by
    rw [h.log_eq, ← flatMap_promised,
      flatMap_eq_iff_of_front fun c hc => (h.promised hc).1]
    exact forall₂_congr fun c hc => (h.promised hc).2
  constructor
  · intro hall
    exact hlog.1 hall.1
  · intro hwhole
    refine ⟨hlog.2 hwhole, ?_, ?_⟩
    · intro c hc hneg
      rcases h.outcome hc with ⟨_, happended, _⟩ | ⟨hret, _⟩
      · exact happended
      · omega
    · intro c outFile' hmsg hrun hsucceeded
      exact recorded_of_succeeded hmsg hrun hsucceeded

end Histories

/-! ## Short writes -/

theorem zero_lt_second : 0 < 1000000000 := by
  decide

/-- A trace without activity. -/
def emptyTrace : TraceMessage :=
  { TraceMessage.init with actId := some nullId, msg := some CString.empty }

/-- The line of this trace when the clock shows nothing yet. -/
def emptyLine : List UInt8 :=
  (emptyTrace.record (Timespec.us ⟨0, 0, zero_lt_second⟩)).line

/-- The last system call on {lit}`emptyLine`; it takes {lit}`count` bytes. -/
def writeEvent (count : Nat) : StoreEvent :=
  ⟨.write (some 4) emptyLine, some (Fin.ofNat _ count)⟩

/-- A call for {lit}`emptyTrace` whose clock reading is zero: it goes on with
{lit}`events`, and returns {lit}`ret`. -/
def traceCall (events : List StoreEvent) (ret : Int) : StoreCall where
  msg := some emptyTrace
  events := ⟨.clockGettime, ⟨0, 0, zero_lt_second⟩⟩ :: ⟨.asprintf emptyLine, true⟩ :: events
  ret := ret

/-- The file cannot be opened. -/
def failedCall : StoreCall :=
  traceCall [⟨.openFile, none⟩] (-1)

/-- The file is opened as descriptor 4, and the write takes {lit}`count` bytes. -/
def firstCall (count : Nat) : StoreCall :=
  traceCall [⟨.openFile, some 4⟩, writeEvent count] 0

/-- The file is open, and the write takes {lit}`count` bytes. -/
def nextCall (count : Nat) : StoreCall :=
  traceCall [writeEvent count] 0

theorem failedCall_runs :
    (storeMessage failedCall.msg none).Runs failedCall.events (failedCall.ret, none) := by
  simp only [failedCall, traceCall, storeMessage]
  rw [storeRecord_eq]
  exact .ask (.ask (.ask (.done _)))

theorem firstCall_runs (count : Nat) :
    (storeMessage (firstCall count).msg none).Runs (firstCall count).events
      ((firstCall count).ret, some 4) := by
  simp only [firstCall, traceCall, storeMessage]
  rw [storeRecord_eq]
  refine .ask (.ask (.ask ?_))
  rw [Record.cstr_line]
  exact .ask (.done _)

theorem nextCall_runs (count : Nat) :
    (storeMessage (nextCall count).msg (some 4)).Runs (nextCall count).events
      ((nextCall count).ret, some 4) := by
  simp only [nextCall, traceCall, storeMessage]
  rw [storeRecord_eq]
  refine .ask (.ask ?_)
  rw [Record.cstr_line]
  exact .ask (.done _)

theorem appended_writeEvent {count : Nat} (h : count ≤ emptyLine.length) :
    appendedBy (writeEvent count) = emptyLine.take count := by
  simp only [writeEvent, appendedBy, Fin.val_ofNat]
  rw [Nat.mod_eq_of_lt (Nat.lt_succ_of_le h)]

theorem appended_firstCall {count : Nat} (h : count ≤ emptyLine.length) :
    appended (firstCall count).events = emptyLine.take count := by
  rw [← appended_writeEvent h]
  exact List.append_nil _

theorem appended_nextCall {count : Nat} (h : count ≤ emptyLine.length) :
    appended (nextCall count).events = emptyLine.take count := by
  rw [← appended_writeEvent h]
  exact List.append_nil _

/-- A history of three calls: one that cannot open the file, and two whose writes take the
whole line. -/
theorem recorded_whole :
    let history := [failedCall, firstCall emptyLine.length, nextCall emptyLine.length]
    ∃ log, Recorded history (some 4) log ∧
      log = (history.filter (·.ret = 0)).flatMap StoreCall.line ∧
      ∀ c ∈ history, c.ret < 0 → appended c.events = [] := by
  intro history
  have hrecorded := ((Recorded.start.call failedCall_runs).call
    (firstCall_runs emptyLine.length)).call (nextCall_runs emptyLine.length)
  have hwhole : ∀ c ∈ history, c.Whole := by
    intro c hc
    simp only [history, List.mem_cons, List.not_mem_nil, or_false] at hc
    rcases hc with rfl | rfl | rfl
    · exact (hrecorded.promised (by simp)).2.1 rfl
    · apply (hrecorded.promised (by simp)).2.1
      rw [appended_firstCall (Nat.le_refl _), List.take_length]
      rfl
    · apply (hrecorded.promised (by simp)).2.1
      rw [appended_nextCall (Nat.le_refl _), List.take_length]
      rfl
  rcases (recorded_iff hrecorded).2 hwhole with ⟨hlog, hfailed, _⟩
  exact ⟨_, hrecorded, hlog, hfailed⟩

/-- A write that takes nothing, or only the front of the line, is no failure: the call
returns 0 and the log does not have its line. -/
theorem short_write_unrecorded :
    (Recorded [firstCall 0] (some 4) [] ∧ (firstCall 0).ret = 0 ∧ (firstCall 0).line ≠ []) ∧
      Recorded [firstCall 5] (some 4) ((firstCall 5).line.take 5) ∧ (firstCall 5).ret = 0 ∧
        (firstCall 5).line.take 5 ≠ (firstCall 5).line := by
  have hlength : 5 < emptyLine.length := by decide
  have hline : ∀ count, (firstCall count).line = emptyLine := fun _ => rfl
  have hnone := Recorded.start.call (firstCall_runs 0)
  have hfront := Recorded.start.call (firstCall_runs 5)
  rw [appended_firstCall (Nat.zero_le _), List.take_zero] at hnone
  rw [appended_firstCall (Nat.le_of_lt hlength)] at hfront
  rw [hline, hline]
  refine ⟨⟨hnone, rfl, ?_⟩, hfront, rfl, ?_⟩
  · intro hnil
    rw [hnil] at hlength
    exact absurd hlength (by decide)
  · intro hsame
    have htake := congrArg List.length hsame
    rw [List.length_take] at htake
    omega

end Trace
end Clacks
