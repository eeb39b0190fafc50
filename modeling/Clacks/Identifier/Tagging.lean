import Clacks.Identifier.Accounting
import Clacks.Identifier.Exchange

/-!
# What a tag exchange stores

The client writes the bytes of the derived id without its terminator, and the
service hands its whole array to {lit}`tag_id`.  The stored key is therefore the
received bytes together with whatever the array held behind them, up to the first
NUL byte.  Neither side looks at the number of bytes that arrived.

Main results:

- Theorem {lit}`Completed.outcome`: the table after an undisturbed exchange.
- Theorem {lit}`tag_exchange_addsExactly_iff`: an exchange stores exactly its own
  entry when the leftover byte is a terminator, and in hardly any other case.
- Theorem {lit}`handleTagOperation_complete_iff`: under arbitrary answers, when a
  tag operation leaves the table alone unless both parts of the request arrived.
-/

namespace Clacks
namespace Identifier

open Foundation Program LockStep Client

/-! ## Undisturbed exchanges -/

/-- {lit}`l` is reached when {lit}`call` runs against the accept loop until both ends
have returned, without an I/O error. -/
structure Completed (lib : Libuuid) (frame : Frame) (fd sockMsg : Nat) (s : Service)
    (call : Call) (l : Link (Option Service)) : Prop where
  steps : (Link.fresh (connected fd call.program) (serverProgram lib frame sockMsg s)).Steps l
  returned : ∀ side, ∃ result, l.prog side = .done result

section Exchange

variable {lib : Libuuid} {frame : Frame} {fd sockMsg : Nat} {s : Service} {call : Call}
  {l : Link (Option Service)}

/-- However the exchange was scheduled, the service ends in {lit}`Call.outcome`. -/
theorem Completed.outcome (h : Completed lib frame fd sockMsg s call l) :
    l.prog .server = .done (some (call.outcome lib frame s)) := by
  have hsync := (sync_fresh lib frame fd sockMsg s call).steps call.framed h.steps
  rcases (hsync.finished call.framed h.returned .server).2 with ⟨result, hprog, hresult⟩
  rw [hprog, hresult]

/-- Some schedule takes the exchange to its end. -/
theorem exists_completed (lib : Libuuid) (frame : Frame) (fd sockMsg : Nat) (s : Service)
    (call : Call) : ∃ l, Completed lib frame fd sockMsg s call l := by
  rcases (sync_fresh lib frame fd sockMsg s call).completes call.framed with ⟨l, hsteps, hdone⟩
  refine ⟨l, hsteps, fun side => ?_⟩
  rcases (hdone side).2 with ⟨result, hprog, _⟩
  exact ⟨result, hprog⟩

end Exchange

/-- The string {lit}`tag_id` finds when {lit}`received` arrived in the array: it runs
on into what the array and the memory above it held before. -/
theorem cstr_received (frame : Frame) {received : List UInt8} (hnul : 0 ∉ received)
    (hfit : received.length ≤ 128) :
    cstr ((frame.derrived.store (Chunk.front 128 received)).bytes ++ frame.aboveDerrived) =
      received ++ cstr (frame.derrived.bytes.drop received.length ++ frame.aboveDerrived) := by
  rw [Buffer.store_bytes, Chunk.front_bytes, List.take_of_length_le hfit, List.append_assoc,
    cstr_append hnul]

/-- Nothing is appended exactly when the leftover byte is a terminator. -/
theorem cstr_drop_append_eq_nil_iff {mem above : List UInt8} {n : Nat} (hn : n < mem.length) :
    cstr (mem.drop n ++ above) = [] ↔ mem[n]? = some 0 := by
  rw [List.drop_eq_getElem_cons hn, List.cons_append, List.getElem?_eq_getElem hn]
  by_cases hbyte : mem[n] = 0
  · simp [hbyte]
  · simp [hbyte, cstr_cons_of_ne hbyte]

/-- An exchange that ran to its end without an I/O error stores exactly the entry it
was made for if and only if the byte of the service's array behind the received
derived id is a NUL byte, or the derived id and the string it is mistaken for are
both tagged already, so that there is nothing to add. -/
theorem tag_exchange_addsExactly_iff (lib : Libuuid) (frame : Frame) (fd sockMsg : Nat)
    (s : Service) {clId : Buffer 37} {c d : CString} (hclId : clId.bytes = c.terminated)
    (hfit : d.bytes.length ≤ 127) :
    (∀ l, Completed lib frame fd sockMsg s (.tagId clId d) l →
      ∃ s' : Service, l.prog .server = .done (some s') ∧
        s.tags.AddsExactly d.bytes c.bytes s'.tags) ↔
    frame.derrived.bytes[d.bytes.length]? = some 0 ∨
      s.tags.Tagged d.bytes ∧ s.tags.Tagged (d.bytes ++
        cstr (frame.derrived.bytes.drop d.bytes.length ++ frame.aboveDerrived)) := by
  have hc : cstr clId.bytes = c.bytes := by
    rw [hclId]
    exact cstr_append_nul c.nul_free []
  have hclength : c.bytes.length < 37 := by
    have hlength := clId.length_eq
    simp only [hclId, CString.terminated, List.length_append, List.length_singleton] at hlength
    omega
  -- The table after every completed run, compared with what it should be.
  have hstored : s.tags.AddsExactly d.bytes c.bytes
      ((Call.tagId clId d).outcome lib frame s).tags ↔
      frame.derrived.bytes[d.bytes.length]? = some 0 ∨
        s.tags.Tagged d.bytes ∧ s.tags.Tagged (d.bytes ++
          cstr (frame.derrived.bytes.drop d.bytes.length ++ frame.aboveDerrived)) := by
    have hn : d.bytes.length < frame.derrived.bytes.length := by
      rw [frame.derrived.length_eq]
      omega
    simp only [Call.outcome, ← hc]
    rw [addsExactly_tagId_iff _ (by omega) (by rw [hc]; exact hclength),
      cstr_received frame d.nul_free (by omega), List.append_right_eq_self,
      cstr_drop_append_eq_nil_iff hn]
  rw [← hstored]
  constructor
  · intro hall
    rcases exists_completed lib frame fd sockMsg s (.tagId clId d) with ⟨l, hl⟩
    rcases hall l hl with ⟨s', hprog, hadds⟩
    rw [hl.outcome] at hprog
    cases hprog
    exact hadds
  · intro hadds l hl
    exact ⟨_, hl.outcome, hadds⟩

/-- The id the examples of this module tag. -/
def exampleId : Buffer 37 := timeLibuuid.unparse (timeUuid 0)

/-- The text of {lit}`exampleId`. -/
def exampleText : CString := uuidText (timeUuid 0)

/-- A derived id. -/
def exampleName : CString where
  bytes := ascii "TEST"
  nul_free := by decide

/-- A frame whose {lit}`derrived` array still holds an earlier derived id. -/
def staleFrame : Frame :=
  { Frame.zero with derrived := Frame.zero.derrived.store (Chunk.front 128 (ascii "BUILD-42")) }

/-- On a frame of NUL bytes the example name is stored as it is. -/
theorem tag_exchange_addsExactly_zero :
    exampleId.bytes = exampleText.terminated ∧ exampleName.bytes.length ≤ 127 ∧
      ∀ l, Completed timeLibuuid Frame.zero 3 4 ⟨timePool 0, []⟩ (.tagId exampleId exampleName) l →
        ∃ s' : Service, l.prog .server = .done (some s') ∧
          TagTable.AddsExactly [] exampleName.bytes exampleText.bytes s'.tags :=
  ⟨rfl, by decide,
    (tag_exchange_addsExactly_iff timeLibuuid Frame.zero 3 4 ⟨timePool 0, []⟩ rfl
      (by decide)).2 (.inl (by decide))⟩

/-- After a connection that tagged {lit}`BUILD-42`, tagging {lit}`TEST` stores the key
{lit}`TESTD-42`. -/
theorem tag_exchange_stores_leftover :
    ∃ l s', Completed timeLibuuid staleFrame 3 4 ⟨timePool 0, []⟩ (.tagId exampleId exampleName) l ∧
      l.prog .server = .done (some s') ∧ s'.tags.map TaggedId.key = [ascii "TESTD-42"] ∧
      ¬TagTable.AddsExactly [] exampleName.bytes exampleText.bytes s'.tags := by
  rcases exists_completed timeLibuuid staleFrame 3 4 ⟨timePool 0, []⟩
    (.tagId exampleId exampleName) with ⟨l, hl⟩
  have hkeys : ((Call.tagId exampleId exampleName).outcome timeLibuuid staleFrame
      ⟨timePool 0, []⟩).tags.map TaggedId.key = [ascii "TESTD-42"] := by
    decide
  refine ⟨l, _, hl, hl.outcome, hkeys, ?_⟩
  rintro ⟨t, happend, hkey, _⟩
  rw [happend, List.nil_append, List.map_singleton, hkey] at hkeys
  exact absurd hkeys (by decide)

/-! ## Arbitrary answers -/

/-- The branches of a tag operation: a step failed and the table is as it was, or both
reads returned and {lit}`tag_id` was called on what the arrays then held. -/
theorem handleTagOperation_cases {frame : Frame} {sockCon : Fd} {tags tags' : TagTable}
    {events : List StreamEvent} (hrun : (handleTagOperation frame sockCon tags).Runs events tags') :
    ((readsOf events).length ≤ 1 ∧ tags' = tags) ∨
      ∃ (uuid : Chunk 37) (derrived : Chunk 128),
        readsOf events = [uuid.bytes, derrived.bytes] ∧
          tags' = (tagId tags (frame.uuid.store uuid).bytes
            ((frame.derrived.store derrived).bytes ++ frame.aboveDerrived) frame.heap).2 := by
  rcases Runs_ask.1 hrun with ⟨started, rest, rfl, h₁⟩
  cases started with
  | none =>
      rcases Runs_done.1 h₁ with ⟨rfl, rfl⟩
      exact .inl ⟨by simp [readsOf], rfl⟩
  | some count =>
      rcases Runs_ask.1 h₁ with ⟨uuid, rest, rfl, h₂⟩
      cases uuid with
      | none =>
          rcases Runs_done.1 h₂ with ⟨rfl, rfl⟩
          exact .inl ⟨by simp [readsOf], rfl⟩
      | some uuid =>
          rcases Runs_ask.1 h₂ with ⟨continued, rest, rfl, h₃⟩
          cases continued with
          | none =>
              rcases Runs_done.1 h₃ with ⟨rfl, rfl⟩
              exact .inl ⟨by simp [readsOf], rfl⟩
          | some count =>
              rcases Runs_ask.1 h₃ with ⟨derrived, rest, rfl, h₄⟩
              cases derrived with
              | none =>
                  rcases Runs_done.1 h₄ with ⟨rfl, rfl⟩
                  exact .inl ⟨by simp [readsOf], rfl⟩
              | some derrived =>
                  rcases Runs_done.1 h₄ with ⟨rfl, rfl⟩
                  exact .inr ⟨uuid, derrived, by simp [readsOf], rfl⟩

/-- Both parts of a tag request arrived: a whole uuid and a derived id. -/
def Received (events : List StreamEvent) : Prop :=
  ∃ uuid derrived, readsOf events = [uuid, derrived] ∧ uuid.length = 37 ∧ derrived ≠ []

/-- Under any answers of the operating system a tag operation leaves the table alone
or has received both parts of its request, if and only if one of these held: the run
did not get past its second read; both parts arrived; or the string the array then
held was tagged before. -/
theorem handleTagOperation_complete_iff {frame : Frame} {sockCon : Fd} {tags tags' : TagTable}
    {events : List StreamEvent} (hrun : (handleTagOperation frame sockCon tags).Runs events tags') :
    (tags' = tags ∨ Received events) ↔
      ∀ uuid derrived, readsOf events = [uuid, derrived] →
        uuid.length = 37 ∧ derrived ≠ [] ∨
          tags.Tagged (cstr (derrived ++ (frame.derrived.bytes.drop derrived.length ++
            frame.aboveDerrived))) := by
  rcases handleTagOperation_cases hrun with ⟨hreads, rfl⟩ | ⟨uuid, derrived, hreads, rfl⟩
  · refine ⟨fun _ uuid derrived h => ?_, fun _ => .inl rfl⟩
    simp [h] at hreads
  · rw [tagId_snd_eq_iff, frame.derrived.store_bytes, List.append_assoc]
    constructor
    · intro h uuid' derrived' hreads'
      rw [hreads] at hreads'
      cases hreads'
      rcases h with hsame | ⟨uuid', derrived', hreads', hcomplete⟩
      · exact .inr hsame
      · rw [hreads] at hreads'
        cases hreads'
        exact .inl hcomplete
    · intro h
      rcases h _ _ hreads with hcomplete | htagged
      · exact .inr ⟨_, _, hreads, hcomplete⟩
      · exact .inl htagged

/-- The operations of a tag request whose last read delivers {lit}`derrived`. -/
def tagEvents (derrived : Chunk 128) : List StreamEvent :=
  [⟨.write (some 4) continueCommand, some (Fin.last _)⟩,
    ⟨.read (some 4) 37, some ⟨exampleId.bytes, Nat.le_of_eq exampleId.length_eq⟩⟩,
    ⟨.write (some 4) continueCommand, some (Fin.last _)⟩,
    ⟨.read (some 4) 128, some derrived⟩]

theorem tagEvents_runs (frame : Frame) (tags : TagTable) (derrived : Chunk 128) :
    (handleTagOperation frame (some 4) tags).Runs (tagEvents derrived)
      (tagId tags (frame.uuid.store ⟨exampleId.bytes, Nat.le_of_eq exampleId.length_eq⟩).bytes
        ((frame.derrived.store derrived).bytes ++ frame.aboveDerrived) frame.heap).2 :=
  .ask (.ask (.ask (.ask (.done _))))

/-- A request that arrives whole meets the condition. -/
theorem handleTagOperation_complete_whole :
    ∃ tags', (handleTagOperation staleFrame (some 4) []).Runs
      (tagEvents (Chunk.front 128 (ascii "TEST"))) tags' ∧
      (tags' = [] ∨ Received (tagEvents (Chunk.front 128 (ascii "TEST")))) := by
  refine ⟨_, tagEvents_runs _ _ _, (handleTagOperation_complete_iff (tagEvents_runs _ _ _)).2 ?_⟩
  intro uuid derrived hreads
  cases hreads
  exact .inl (by decide)

/-- A client sends its uuid, gets the second continue and closes, so that the last
read returns no byte: the service tags it with the derived id of an earlier client. -/
theorem handleTagOperation_tags_leftover :
    ∃ tags', (handleTagOperation staleFrame (some 4) []).Runs (tagEvents (Chunk.front 128 []))
      tags' ∧ tags'.map TaggedId.key = [ascii "BUILD-42"] ∧
      ¬(tags' = [] ∨ Received (tagEvents (Chunk.front 128 []))) := by
  refine ⟨_, tagEvents_runs _ _ _, by decide, ?_⟩
  rintro (hnone | ⟨uuid, derrived, hreads, _, hderrived⟩)
  · exact absurd hnone (by decide)
  · cases hreads
    exact hderrived rfl

end Identifier
end Clacks
