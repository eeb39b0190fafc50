import Clacks.Identifier.Accounting

/-!
# Which command a connection asked for

{lit}`handle_connection` compares its whole buffer with the command words and drops the
number of bytes it received, so what an earlier connection left in the buffer takes part
in the comparison.  A command that brings its terminator is read as it was sent; the
beginning of a command word without one is completed by whatever is left over.

Main results:

- Theorem {lit}`perform_injective`: the three actions are different programs.
- Theorem {lit}`command_store_eq_wanted`: when the leftover bytes play no part.
- Theorem {lit}`dispatch_iff`: for which received strings the action is the one that was
  asked for, whatever the buffer held.
-/

namespace Clacks
namespace Identifier

open Foundation Program

/-! ## The action asked for -/

/-- The command in the received bytes alone, up to their first NUL byte. -/
def wanted (received : List UInt8) : Command :=
  if cstr received = ascii "GET" then .get
  else if cstr received = ascii "TAG" then .tag
  else .other

section Perform

variable (lib : Libuuid) (frame : Frame) (sockCon : Fd) (s : Service)

/-- The action for a command: hand out an id, start the tag exchange, or nothing. -/
def perform : Command → StreamProgram Service
  | .get => .ask (.write sockCon (nextUuid lib s.pool).1.bytes) fun _ =>
      .done { s with pool := checkPool lib (nextUuid lib s.pool).2 }
  | .tag => handleTagOperation frame sockCon s.tags >>= fun tags => .done { s with tags }
  | .other => .done s

theorem afterCommand_eq_perform (received : Chunk 1024) :
    afterCommand lib frame sockCon s (some received) =
      perform lib frame sockCon s (command (frame.buf.store received).bytes) := by
  simp only [afterCommand]
  cases command (frame.buf.store received).bytes with
  | get => rfl
  | tag => rfl
  | other => rfl

/-- What the program offers to its first {lit}`write`, if it begins with one. -/
def firstWrite {α : Type} : StreamProgram α → Option (List UInt8)
  | .ask (.write _ bytes) _ => some bytes
  | _ => none

/-- Handing out an id offers 37 bytes, the tag exchange begins with four, and the third
action performs no operation. -/
theorem perform_injective : Function.Injective (perform lib frame sockCon s) := by
  have hlength : ∀ c, (firstWrite (perform lib frame sockCon s c)).map List.length =
      match c with
      | .get => some 37
      | .tag => some 4
      | .other => none := by
    intro c
    cases c with
    | get => exact congrArg some (nextUuid lib s.pool).1.length_eq
    | tag => rfl
    | other => rfl
  intro c c' h
  have hcode := congrArg (fun p => (firstWrite p).map List.length) h
  simp only [hlength] at hcode
  cases c <;> cases c' <;> simp at hcode ⊢

end Perform

/-! ## What the leftover bytes do -/

/-- A terminator among the received bytes hides the leftover. -/
theorem cstr_append_of_mem {s : List UInt8} (h : 0 ∈ s) (rest : List UInt8) :
    cstr (s ++ rest) = cstr s := by
  induction s with
  | nil => exact absurd h (List.not_mem_nil)
  | cons b s ih =>
      by_cases hb : b = 0
      · simp [hb]
      · have hs : 0 ∈ s := by simpa [Ne.symm hb] using h
        rw [List.cons_append, cstr_cons_of_ne hb, cstr_cons_of_ne hb, ih hs]

/-- A string that is not the beginning of a word makes that word neither alone nor
together with leftover bytes. -/
theorem cstr_store_eq_iff {n : Nat} (buf : Buffer n) {received : Chunk n} {word : List UInt8}
    (h : ¬received.bytes <+: word) :
    cstr (buf.store received).bytes = word ↔ cstr received.bytes = word := by
  rw [Buffer.store_bytes]
  by_cases hnul : 0 ∈ received.bytes
  · rw [cstr_append_of_mem hnul]
  · rw [cstr_append hnul, cstr_of_nul_free hnul]
    constructor
    · intro hword
      exact absurd ⟨_, hword⟩ h
    · intro hword
      exact absurd ⟨[], by rw [List.append_nil, hword]⟩ h

/-- The buffer's contents select the action that was asked for, unless the received
bytes are the beginning of a command word. -/
theorem command_store_eq_wanted (buf : Buffer 1024) {received : Chunk 1024}
    (hget : ¬received.bytes <+: ascii "GET") (htag : ¬received.bytes <+: ascii "TAG") :
    command (buf.store received).bytes = wanted received.bytes := by
  have hcget : cstr clIdGet = ascii "GET" := by decide
  have hctag : cstr clIdTag = ascii "TAG" := by decide
  simp only [command, wanted, strcmp_eq_zero_iff, hcget, hctag, cstr_store_eq_iff buf hget,
    cstr_store_eq_iff buf htag]

/-- The beginning of a word is completed when the buffer holds that word from an earlier
connection. -/
theorem cstr_store_word {n : Nat} {received : Chunk n} {word : List UInt8} (hnul : 0 ∉ word)
    (hfit : word.length < n) (h : received.bytes <+: word) :
    cstr ((strncpy word n).store received).bytes = word := by
  have hword : (cstr word).length < n := by rwa [cstr_of_nul_free hnul]
  have hcopy : word <+: (strncpy word n).bytes := by
    simp only [strncpy, cstr_of_nul_free hnul, List.take_of_length_le hfit.le]
    exact List.prefix_append _ _
  have hsame : received.bytes ++ (strncpy word n).bytes.drop received.bytes.length =
      (strncpy word n).bytes :=
    (List.prefix_iff_eq_append.1 (h.trans hcopy))
  rw [Buffer.store_bytes, hsame, ← List.append_nil (strncpy word n).bytes,
    cstr_strncpy_append hword, cstr_of_nul_free hnul]

/-- Bytes {lit}`x` left over up to the end of the buffer complete no command word. -/
theorem command_store_fill {received : Chunk 1024} (hnul : 0 ∉ received.bytes) :
    command ((Buffer.fill 1024 120).store received).bytes = .other := by
  have hlen : (cstr ((Buffer.fill 1024 120).store received).bytes).length = 1024 := by
    have hfree : 0 ∉ ((Buffer.fill 1024 120).store received).bytes := by
      rw [Buffer.store_bytes, List.mem_append, not_or]
      refine ⟨hnul, fun hmem => ?_⟩
      have hx := List.eq_of_mem_replicate (List.mem_of_mem_drop hmem)
      simp at hx
    rw [cstr_of_nul_free hfree, Buffer.length_eq]
  cases hcommand : command ((Buffer.fill 1024 120).store received).bytes with
  | get =>
      rw [(command_eq_get_iff _).1 hcommand] at hlen
      simp [ascii] at hlen
  | tag =>
      rw [(command_eq_tag_iff _).1 hcommand] at hlen
      simp [ascii] at hlen
  | other => rfl

/-- The beginning of a word selects two commands, depending on the leftover. -/
theorem exists_leftovers_differ {received : Chunk 1024}
    (h : received.bytes <+: ascii "GET" ∨ received.bytes <+: ascii "TAG") :
    ∃ buf buf' : Buffer 1024,
      command (buf.store received).bytes ≠ command (buf'.store received).bytes := by
  have hother : ∀ word, 0 ∉ word → received.bytes <+: word →
      command ((Buffer.fill 1024 120).store received).bytes = .other :=
    fun word hnul hfront => command_store_fill fun hmem => hnul (hfront.subset hmem)
  rcases h with hget | htag
  · have hword : cstr ((strncpy (ascii "GET") 1024).store received).bytes = ascii "GET" :=
      cstr_store_word (by decide) (by decide) hget
    refine ⟨strncpy (ascii "GET") 1024, Buffer.fill 1024 120, ?_⟩
    rw [(command_eq_get_iff _).2 hword, hother _ (by decide) hget]
    decide
  · have hword : cstr ((strncpy (ascii "TAG") 1024).store received).bytes = ascii "TAG" :=
      cstr_store_word (by decide) (by decide) htag
    refine ⟨strncpy (ascii "TAG") 1024, Buffer.fill 1024 120, ?_⟩
    rw [(command_eq_tag_iff _).2 hword, hother _ (by decide) htag]
    decide

/-! ## Dispatch -/

/-- The action after a read of {lit}`received` is the same for any two prior contents of
the command buffer, and is the one the received bytes ask for, exactly when they are not
the beginning of a command word: not empty, {lit}`G`, {lit}`GE`, {lit}`GET`, {lit}`T`,
{lit}`TA` or {lit}`TAG`, each without a terminator. -/
theorem dispatch_iff (lib : Libuuid) (frame : Frame) (sockCon : Fd) (s : Service)
    (received : Chunk 1024) :
    (∀ buf buf' : Buffer 1024,
        afterCommand lib { frame with buf := buf } sockCon s (some received) =
            afterCommand lib { frame with buf := buf' } sockCon s (some received) ∧
          afterCommand lib { frame with buf := buf } sockCon s (some received) =
            perform lib frame sockCon s (wanted received.bytes)) ↔
      ¬received.bytes <+: ascii "GET" ∧ ¬received.bytes <+: ascii "TAG" := by
  have hperform : ∀ buf : Buffer 1024,
      afterCommand lib { frame with buf := buf } sockCon s (some received) =
        perform lib frame sockCon s (command (buf.store received).bytes) := by
    intro buf
    rw [afterCommand_eq_perform]
    cases command (buf.store received).bytes with
    | get => rfl
    | tag => rfl
    | other => rfl
  simp only [hperform]
  constructor
  · intro hsame
    by_contra hfront
    rw [← not_or, not_not] at hfront
    rcases exists_leftovers_differ hfront with ⟨buf, buf', hdiffer⟩
    exact hdiffer (perform_injective lib frame sockCon s (hsame buf buf').1)
  · intro h buf buf'
    rcases h with ⟨hget, htag⟩
    rw [command_store_eq_wanted buf hget htag, command_store_eq_wanted buf' hget htag]
    exact ⟨rfl, rfl⟩

/-- A client that connects to a fresh service and closes without sending.  When the
buffer holds {lit}`GET` from an earlier connection the client is handed an id, when it
holds NUL bytes nothing is done, and nothing was asked for. -/
theorem empty_command_draws_id :
    let s := Service.start timeLibuuid fun _ => Buffer.fill 16 0
    let leftover := strncpy (ascii "GET") 1024
    afterCommand timeLibuuid { Frame.zero with buf := leftover } (some 4) s
        (some ⟨[], by decide⟩) = perform timeLibuuid Frame.zero (some 4) s .get ∧
      afterCommand timeLibuuid Frame.zero (some 4) s (some ⟨[], by decide⟩) =
        perform timeLibuuid Frame.zero (some 4) s .other ∧
      wanted [] = .other := by
  intro s leftover
  have hget : command (leftover.store ⟨[], by decide⟩).bytes = .get :=
    (command_eq_get_iff _).2 (cstr_store_word (by decide) (by decide) List.nil_prefix)
  have hother : command (Frame.zero.buf.store ⟨[], by decide⟩).bytes = .other := by
    unfold command
    rw [if_neg, if_neg]
    · rw [strcmp_eq_zero_iff]
      decide
    · rw [strcmp_eq_zero_iff]
      decide
  refine ⟨?_, ?_, by decide⟩
  · rw [afterCommand_eq_perform, hget]
    rfl
  · rw [afterCommand_eq_perform, hother]

end Identifier
end Clacks
