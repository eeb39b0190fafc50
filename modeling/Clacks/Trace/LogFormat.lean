import Clacks.Identifier.Libuuid
import Clacks.Trace.Storage

/-!
# Reading the log

The log is read as lines, and a line as a kind letter and four fields that end at the
first three doubled bars.  The writer escapes nothing, so what a reader finds depends
on where newlines and bars occur in the strings that clients choose.

Main results:

- Theorem {lit}`log_decoded`: a log whose fields keep clear of the separators is
  decoded to exactly the records that were written.
- Theorem {lit}`id_lines_eq`: which messages can add lines to those of an identifier
  that is not their own.
-/

namespace Clacks
namespace Trace

open Foundation Identifier

/-- What a reader finds in a line. -/
structure Fields where
  kind : Kind
  daemonTime : Int
  tsOrigin : UInt64
  actId : List UInt8
  payload : List UInt8
deriving DecidableEq

/-- What a reader should find in the line of a record. -/
def Record.fields (r : Record) : Fields where
  kind := r.kind
  daemonTime := r.daemonTime
  tsOrigin := r.tsOrigin
  actId := r.actId.bytes
  payload := r.payload.bytes

/-- The kind a letter stands for. -/
def kindOf (letter : UInt8) : Option Kind :=
  if letter = Kind.trace.letter then some .trace
  else if letter = Kind.join.letter then some .join
  else none

/-- The decoder of a line: the kind letter, then the first three doubled bars. -/
def decodeLine : List UInt8 → Option Fields
  | letter :: 58 :: rest => do
      let kind ← kindOf letter
      let (daemonTime, rest) ← splitPair bar rest
      let (tsOrigin, rest) ← splitPair bar rest
      let (actId, payload) ← splitPair bar rest
      return {
        kind
        daemonTime := parseInteger daemonTime
        tsOrigin := UInt64.ofNat (parseDecimal tsOrigin)
        actId
        payload }
  | _ => none

/-- The decoder of a log: all its lines. -/
def decodeLog (log : List UInt8) : Option (List Fields) :=
  (splitLines log).mapM decodeLine

/-- The identifier a reader finds in a line. -/
def lineId (line : List UInt8) : Option (List UInt8) :=
  (decodeLine line).map Fields.actId

theorem bar_not_mem_decimal (n : Nat) : bar ∉ decimal n := by
  intro h
  exact absurd (isDigit_of_mem_decimal h).2 (by decide)

theorem bar_not_mem_integer (z : Int) : bar ∉ integer z := by
  intro h
  rcases isDigit_of_mem_integer h with hdigit | hsign
  · exact absurd hdigit.2 (by decide)
  · exact absurd hsign (by decide)

/-- The first two fields are read back whatever the strings behind them hold. -/
theorem decodeLine_text (r : Record) :
    decodeLine r.text = (splitPair bar (r.actId.bytes ++ bar :: bar :: r.payload.bytes)).map
      fun x => { r.fields with actId := x.1, payload := x.2 } := by
  have hkind : kindOf r.kind.letter = some r.kind := by
    cases r.kind <;> rfl
  have htime := splitPair_append (bar_not_mem_integer r.daemonTime)
    (decimal r.tsOrigin.toNat ++ bar :: bar :: (r.actId.bytes ++ bar :: bar :: r.payload.bytes))
  have hts := splitPair_append (bar_not_mem_decimal r.tsOrigin.toNat)
    (r.actId.bytes ++ bar :: bar :: r.payload.bytes)
  have htext : r.text = r.kind.letter :: 58 :: (integer r.daemonTime ++ bar :: bar ::
      (decimal r.tsOrigin.toNat ++ bar :: bar ::
        (r.actId.bytes ++ bar :: bar :: r.payload.bytes))) := by
    simp [Record.text]
  rw [htext, decodeLine]
  simp only [hkind, htime, hts, Option.bind_eq_bind, Option.bind_some]
  cases splitPair bar (r.actId.bytes ++ bar :: bar :: r.payload.bytes) with
  | none => rfl
  | some x => simp [Record.fields, parseInteger_integer, parseDecimal_decimal]

/-- A line whose identifier has no bar is read back whole. -/
theorem decodeLine_of_bar_free {r : Record} (h : bar ∉ r.actId.bytes) :
    decodeLine r.text = some r.fields := by
  rw [decodeLine_text, splitPair_append h]
  rfl

/-! ## Logs that can be decoded -/

/-- The fields of a record keep clear of the separators behind them. -/
structure Record.Clear (r : Record) : Prop where
  bar_actId : bar ∉ r.actId.bytes
  newline_actId : 10 ∉ r.actId.bytes
  newline_payload : 10 ∉ r.payload.bytes

theorem splitLines_logOf (records : List Record) :
    splitLines (logOf records) = records.flatMap fun r => r.text.splitOn 10 :=
  splitLines_flatMap Record.text records

/-- A record without newlines is one line. -/
theorem splitOn_text {r : Record} (hid : 10 ∉ r.actId.bytes) (hpayload : 10 ∉ r.payload.bytes) :
    r.text.splitOn 10 = [r.text] :=
  List.splitOn_eq_singleton (Record.not_mem_text (by decide) hid hpayload)

theorem decodeLog_logOf {records : List Record} (hclear : ∀ r ∈ records, r.Clear) :
    decodeLog (logOf records) = some (records.map Record.fields) := by
  rw [decodeLog, splitLines_logOf]
  induction records with
  | nil => rfl
  | cons r records ih =>
      rw [List.forall_mem_cons] at hclear
      have hr := hclear.1
      rw [List.flatMap_cons, splitOn_text hr.newline_actId hr.newline_payload,
        List.singleton_append, List.mapM_cons, decodeLine_of_bar_free hr.bar_actId, ih hclear.2]
      rfl

/-- Decoding gives back exactly the records that were written, for any clock values,
and payloads with any number of bars anywhere; in particular those of every sequence of
calls of the storage module. -/
theorem log_decoded {records : List Record} (hclear : ∀ r ∈ records, r.Clear) :
    decodeLog (logOf records) = some (records.map Record.fields) ∧
      ∀ outFile log, Stored records outFile log →
        decodeLog log = some (records.map Record.fields) := by
  refine ⟨decodeLog_logOf hclear, ?_⟩
  intro outFile log hstored
  rw [hstored.log_eq]
  exact decodeLog_logOf hclear

/-! ## The lines of one identifier -/

/-- The lines of a log whose identifier field is {lit}`a`. -/
def idLines (a : List UInt8) (log : List UInt8) : List (List UInt8) :=
  (splitLines log).filter fun line => decide (lineId line = some a)

/-- The printed record contains a line that a reader takes for one of {lit}`a`. -/
def Record.Shows (a : List UInt8) (r : Record) : Prop :=
  ∃ line ∈ r.text.splitOn 10, lineId line = some a

theorem lineId_text (r : Record) : lineId r.text =
    (splitPair bar (r.actId.bytes ++ bar :: bar :: r.payload.bytes)).map Prod.fst := by
  rw [lineId, decodeLine_text, Option.map_map]
  rfl

/-- A record without newlines shows {lit}`a` if its identifier is {lit}`a`, {lit}`a`
followed by one bar, or {lit}`a` followed by two bars and anything. -/
theorem shows_iff {a : List UInt8} (ha : bar ∉ a) {r : Record} (hid : 10 ∉ r.actId.bytes)
    (hpayload : 10 ∉ r.payload.bytes) : r.Shows a ↔
      r.actId.bytes = a ∨ r.actId.bytes = a ++ [bar] ∨ a ++ [bar, bar] <+: r.actId.bytes := by
  rw [← field_read_iff ha _ r.payload.bytes, Record.Shows, splitOn_text hid hpayload]
  simp only [List.mem_singleton, exists_eq_left, lineId_text, Option.map_eq_some_iff]
  constructor
  · rintro ⟨⟨field, rest⟩, hsplit, rfl⟩
    exact ⟨rest, splitPair_sound hsplit⟩
  · rintro ⟨rest, heq⟩
    exact ⟨(a, rest), by rw [heq, splitPair_append ha], rfl⟩

/-- The lines of {lit}`a` come record by record, and those that do not show {lit}`a`
contribute none. -/
theorem idLines_logOf {a : CString} {records : List Record}
    (hothers : ∀ r ∈ records, r.actId ≠ a → ¬r.Shows a.bytes) :
    idLines a.bytes (logOf records) = idLines a.bytes (logOf
      (records.filter fun r => decide (r.actId = a))) := by
  induction records with
  | nil => rfl
  | cons r records ih =>
      rw [List.forall_mem_cons] at hothers
      have hrest := ih hothers.2
      simp only [idLines, splitLines_logOf, List.flatMap_cons, List.filter_append] at hrest ⊢
      rw [List.filter_cons, hrest]
      by_cases hr : r.actId = a
      · simp [hr]
      · have hnone : (r.text.splitOn 10).filter
            (fun line => decide (lineId line = some a.bytes)) = [] := by
          rw [List.filter_eq_nil_iff]
          intro line hline hshows
          exact hothers.1 hr ⟨line, hline, of_decide_eq_true hshows⟩
        simp [hr, hnone]

/-- The text of an id the service hands out has no bar. -/
theorem bar_not_mem_issued {lib : Libuuid} (hlib : lib.Conforms) {uuid : Uuid} {a : CString}
    (hissued : (lib.unparse uuid).bytes = a.terminated) : bar ∉ a.bytes := by
  rcases hlib.unparse_text uuid with ⟨text, hchars, htext⟩
  have ha : text = a.bytes := List.append_cancel_right (htext.symm.trans hissued)
  rw [← ha]
  intro hbar
  exact absurd (hchars bar hbar) (by decide)

/-- For an identifier the service issued, two logs whose messages under it are the same
have the same lines under it, as long as no other message prints a line that reads as
one of its own; and a message without newlines prints such a line only if its own
identifier is the issued one followed by a bar at its end, or by two bars. -/
theorem id_lines_eq {lib : Libuuid} (hlib : lib.Conforms) {uuid : Uuid} {a : CString}
    (hissued : (lib.unparse uuid).bytes = a.terminated) :
    (∀ (records records' : List Record) (outFile outFile' : Fd) (log log' : List UInt8),
      Stored records outFile log → Stored records' outFile' log' →
      (∀ r ∈ records ++ records', r.actId ≠ a → ¬r.Shows a.bytes) →
      (records.filter fun r => decide (r.actId = a)) =
        (records'.filter fun r => decide (r.actId = a)) →
      idLines a.bytes log = idLines a.bytes log') ∧
    ∀ r : Record, r.actId ≠ a → 10 ∉ r.actId.bytes → 10 ∉ r.payload.bytes →
      (r.Shows a.bytes ↔ r.actId.bytes = a.bytes ++ [bar] ∨
        a.bytes ++ [bar, bar] <+: r.actId.bytes) := by
  refine ⟨?_, ?_⟩
  · intro records records' outFile outFile' log log' hstored hstored' hothers hsame
    rw [List.forall_mem_append] at hothers
    rw [hstored.log_eq, hstored'.log_eq, idLines_logOf hothers.1, hsame,
      ← idLines_logOf hothers.2]
  · intro r hr hid hpayload
    have hne : r.actId.bytes ≠ a.bytes := fun h => hr (CString.ext h)
    rw [shows_iff (bar_not_mem_issued hlib hissued) hid hpayload]
    simp [hne]

/-! ## Two forged lines -/

/-- The text of the first id a service with {lit}`timeLibuuid` generates. -/
def issuedId : CString := uuidText (timeUuid 0)

/-- A clock reading. -/
def fiveUs : Timespec where
  tvSec := 0
  tvNsec := 5000
  tvNsec_lt := by decide

/-- A trace under another identifier, with a whole line in its text. -/
def forgedByText : TraceMessage :=
  { TraceMessage.init with
    actId := some nullId
    msg := some
      { bytes := 10 :: ascii "T:5||4||" ++ issuedId.bytes ++ ascii "||forged"
        nul_free := by decide }
    tsOrigin := 4 }

/-- A trace under the issued id with two bars behind it. -/
def forgedByBars : TraceMessage :=
  { TraceMessage.init with
    actId := some { bytes := issuedId.bytes ++ ascii "||", nul_free := by decide }
    msg := some { bytes := ascii "forged", nul_free := by decide }
    tsOrigin := 4 }

theorem idLines_forged : ∀ msg ∈ [forgedByText, forgedByBars],
    idLines issuedId.bytes (logOf [msg.record fiveUs.us]) ≠ idLines issuedId.bytes [] := by
  decide

/-- Each of the two messages adds a line under the issued id to an empty log. -/
theorem id_lines_forged :
    (timeLibuuid.unparse (timeUuid 0)).bytes = issuedId.terminated ∧
    ∀ msg ∈ [forgedByText, forgedByBars], msg.actId ≠ some issuedId ∧
      ∃ outFile log, Stored [msg.record fiveUs.us] outFile log ∧ Stored [] none [] ∧
        idLines issuedId.bytes log ≠ idLines issuedId.bytes [] := by
  refine ⟨rfl, ?_⟩
  intro msg hmsg
  refine ⟨?_, ?_⟩
  · revert msg
    decide
  · rcases Stored.exists_messages [(msg, fiveUs)] with ⟨outFile, log, hstored⟩
    refine ⟨outFile, log, hstored, .start, ?_⟩
    rw [hstored.log_eq]
    exact idLines_forged msg hmsg

/-- A trace under the issued id. -/
def ownTrace : TraceMessage :=
  { TraceMessage.init with
    actId := some issuedId
    msg := some { bytes := ascii "own", nul_free := by decide }
    tsOrigin := 4 }

/-- A trace under another identifier whose text has bars but no newline. -/
def plainTrace : TraceMessage :=
  { forgedByText with msg := some { bytes := ascii "||a|b||", nul_free := by decide } }

/-- The plain trace leaves the lines under the issued id alone. -/
theorem id_lines_eq_plain : ∃ outFile outFile' log log',
    Stored [plainTrace.record fiveUs.us, ownTrace.record fiveUs.us] outFile log ∧
    Stored [ownTrace.record fiveUs.us] outFile' log' ∧
    idLines issuedId.bytes log = idLines issuedId.bytes log' := by
  have hissued : (timeLibuuid.unparse (timeUuid 0)).bytes = issuedId.terminated := rfl
  have hmain := id_lines_eq timeLibuuid_conforms hissued
  rcases Stored.exists_messages [(plainTrace, fiveUs), (ownTrace, fiveUs)] with
    ⟨outFile, log, hstored⟩
  rcases Stored.exists_messages [(ownTrace, fiveUs)] with ⟨outFile', log', hstored'⟩
  refine ⟨outFile, outFile', log, log', hstored, hstored', ?_⟩
  apply hmain.1 _ _ _ _ _ _ hstored hstored'
  · intro r hr hne
    have hplain : r = plainTrace.record fiveUs.us := by
      simp only [List.map_cons, List.map_nil, List.mem_append, List.mem_cons, List.not_mem_nil,
        or_false] at hr
      rcases hr with (rfl | rfl) | rfl
      · rfl
      · exact absurd rfl hne
      · exact absurd rfl hne
    subst hplain
    rw [hmain.2 _ hne (by decide) (by decide)]
    decide
  · decide

/-- A join and a trace whose payloads are made of bars are read back. -/
theorem log_decoded_bars :
    let trace := plainTrace.record fiveUs.us
    let join : Record := { trace with kind := .join, daemonTime := -1 }
    decodeLog (logOf [join, trace]) = some [join.fields, trace.fields] := by
  intro trace join
  apply And.left (log_decoded _)
  intro r hr
  rcases List.mem_cons.1 hr with rfl | hr
  · exact ⟨by decide, by decide, by decide⟩
  · rw [List.mem_singleton.1 hr]
    exact ⟨by decide, by decide, by decide⟩

end Trace
end Clacks
