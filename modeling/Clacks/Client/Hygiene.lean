import Clacks.Client.Interface
import Clacks.Foundation.Descriptors

/-!
# Connection hygiene of the client

Every call of {lit}`clacks_new_id` and {lit}`clacks_tag_id` is verified against the
monitor of a session on one socket.  {lit}`cl_id_tag_id` carries on after a step that
failed, but with {lit}`dom_sock` at {lit}`-1`, so the rest of its steps reach nothing.

Main results:

- Theorem {lit}`verified_clIdTagId`: one tagging call, whichever of its steps fail.
- Theorem {lit}`calls_hygienic`: every sequence of calls.
-/

namespace Clacks
namespace Client

open Foundation Program Monitor

/-! ## One call -/

/-- {lit}`domSock` is the only descriptor the call has open, and it is connected. -/
structure Has (domSock : Fd) (s : Session) : Prop where
  table_eq : s.table = FdTable.only .connected domSock
  opened : s.opened = true

/-- Between two steps of an exchange, no step has failed while there is a descriptor. -/
structure Holding (domSock : Fd) (s : Session) : Prop extends Has domSock s where
  not_failed : domSock ≠ none → s.failed = false

/-- The call is over and has given its descriptor back. -/
def Over (domSock : Fd) (s : Session) : Prop :=
  domSock = none ∧ s.table = FdTable.idle

section Steps

variable {α : Type} {post : α → Session → Prop} {domSock : Fd} {s : Session}

theorem Has.table_some {fd : Nat} (h : Has (some fd) s) : s.table fd = .connected := by
  rw [h.table_eq]
  simp [FdTable.only]

theorem Has.allows_close (h : Has domSock s) : session.allows s (.close domSock) := by
  cases domSock with
  | none => trivial
  | some fd =>
      change s.table fd ≠ .closed
      rw [h.table_some]
      decide

/-- Closing the only descriptor empties the table. -/
theorem after_close {status : FdStatus} (htable : s.table = FdTable.only status domSock) :
    (session.next s ⟨.close domSock, ()⟩).table = FdTable.idle := by
  change s.table.after ⟨.close domSock, ()⟩ = FdTable.idle
  rw [htable]
  cases domSock with
  | none => rfl
  | some fd =>
      simp only [FdTable.after, FdTable.only, Function.update_idem]
      exact Function.update_eq_self fd FdTable.idle

/-- A transfer that succeeded changes nothing the monitor remembers. -/
theorem Holding.kept (h : Holding domSock s) {e : StreamEvent} (htable : s.table.after e = s.table)
    (hfailed : Failed e = false) : Holding domSock (session.next s e) where
  table_eq := htable.trans h.table_eq
  opened := by simp [session, h.opened]
  not_failed hsome := by simp [session, h.not_failed hsome, hfailed]

/-- After a transfer that failed the descriptor is closed and there is none any more. -/
theorem Holding.given_up (h : Holding domSock s) {e : StreamEvent}
    (htable : s.table.after e = s.table) :
    session.allows (session.next s e) (.close domSock) ∧
      Holding none (session.next (session.next s e) ⟨.close domSock, ()⟩) := by
  have hhas : Has domSock (session.next s e) :=
    ⟨htable.trans h.table_eq, by simp [session, h.opened]⟩
  refine ⟨hhas.allows_close, ⟨after_close hhas.table_eq, by simp [session, h.opened]⟩, ?_⟩
  intro hsome
  exact absurd rfl hsome

/-- A {lit}`read` of the exchange, with the error handling behind it. -/
theorem verified_read {size : Nat} {next : Fd → StreamProgram α} (h : Holding domSock s)
    (hnext : ∀ domSock s, Holding domSock s → session.Verified post (next domSock) s) :
    session.Verified post
      (.ask (.read domSock size) fun rtn => closeOnError rtn domSock >>= next) s := by
  constructor
  · cases domSock with
    | none => trivial
    | some fd => exact h.table_some
  · intro rtn _
    cases rtn with
    | some chunk => exact hnext domSock _ (h.kept (by cases domSock <;> rfl) rfl)
    | none =>
        rcases h.given_up (e := ⟨.read domSock size, none⟩) (by cases domSock <;> rfl) with
          ⟨hclose, hnone⟩
        exact ⟨hclose, fun _ _ => hnext none _ hnone⟩

/-- A {lit}`write` of the exchange, with the error handling behind it. -/
theorem verified_write {bytes : List UInt8} {next : Fd → StreamProgram α} (h : Holding domSock s)
    (hnext : ∀ domSock s, Holding domSock s → session.Verified post (next domSock) s) :
    session.Verified post
      (.ask (.write domSock bytes) fun rtn => closeOnError rtn domSock >>= next) s := by
  constructor
  · cases domSock with
    | none => trivial
    | some fd => exact ⟨h.table_some, h.not_failed (by simp)⟩
  · intro rtn _
    cases rtn with
    | some count => exact hnext domSock _ (h.kept (by cases domSock <;> rfl) rfl)
    | none =>
        rcases h.given_up (e := ⟨.write domSock bytes, none⟩) (by cases domSock <;> rfl) with
          ⟨hclose, hnone⟩
        exact ⟨hclose, fun _ _ => hnext none _ hnone⟩

/-- The last {lit}`close` of a call. -/
theorem verified_close (h : Has domSock s) {a : α}
    (hpost : ∀ s, s.table = FdTable.idle → post a s) :
    session.Verified post (.ask (.close domSock) fun _ => .done a) s :=
  ⟨h.allows_close, fun _ _ => hpost _ (after_close h.table_eq)⟩

end Steps

/-- Connecting first: an exchange that is verified on a connected descriptor is verified
with the opening of that descriptor in front. -/
theorem verified_dial {α : Type} {post : α → Session → Prop} {failed : α}
    {exchange : Nat → StreamProgram α}
    (hfailed : ∀ s, s.table = FdTable.idle → post failed s)
    (hexchange : ∀ fd s, Holding (some fd) s → session.Verified post (exchange fd) s) :
    session.Verified post (dial failed exchange) (Session.start .idle) := by
  refine ⟨rfl, ?_⟩
  intro answer _
  cases answer with
  | none => exact hfailed _ rfl
  | some fd =>
      have hfresh : ∀ ok, (session.next (session.next (Session.start .idle) ⟨.socket, some fd⟩)
          ⟨.connect (some fd) clIdDomSocket, ok⟩).table =
            FdTable.only (if ok then .connected else .refused) (some fd) := by
        intro ok
        exact Function.update_idem _ _ _
      refine ⟨?_, ?_⟩
      · simp [session, Session.start, FdTable.after]
      · intro ok _
        cases ok with
        | true =>
            apply hexchange
            exact ⟨⟨hfresh true, rfl⟩, fun _ => rfl⟩
        | false =>
            refine ⟨?_, fun _ _ => hfailed _ (after_close (hfresh false))⟩
            change (session.next (session.next (Session.start .idle) ⟨.socket, some fd⟩)
              ⟨.connect (some fd) clIdDomSocket, false⟩).table fd ≠ .closed
            rw [hfresh false]
            simp [FdTable.only]

/-- Getting an id. -/
theorem verified_getNewId (buf : Buffer 1024) :
    session.Verified (fun r s => Over r.domSock s) (getNewId buf none) (Session.start .idle) := by
  rw [getNewId_eq]
  apply verified_dial
  · intro s hidle
    exact ⟨rfl, hidle⟩
  · intro fd s h
    unfold getExchange
    refine ⟨⟨h.table_some, h.not_failed (by simp)⟩, ?_⟩
    intro wrote _
    cases wrote with
    | none =>
        rcases h.given_up (e := ⟨.write (some fd) clIdGet, none⟩) rfl with ⟨hclose, hnone⟩
        exact ⟨hclose, fun _ _ => ⟨rfl, hnone.table_eq⟩⟩
    | some count =>
        have hwrote := h.kept (e := ⟨.write (some fd) clIdGet, some count⟩) rfl rfl
        refine ⟨hwrote.table_some, ?_⟩
        intro answer _
        cases answer with
        | none =>
            rcases hwrote.given_up (e := ⟨.read (some fd) 1024, none⟩) rfl with ⟨hclose, hnone⟩
            exact ⟨hclose, fun _ _ => ⟨rfl, hnone.table_eq⟩⟩
        | some received =>
            have hread := hwrote.kept (e := ⟨.read (some fd) 1024, some received⟩) rfl rfl
            exact verified_close hread.toHas fun s hidle => ⟨rfl, hidle⟩

/-- Tagging, whichever steps fail. -/
theorem verified_clIdTagId (clId : Buffer 37) (derrived : CString) :
    session.Verified Over (clIdTagId clId derrived none) (Session.start .idle) := by
  rw [clIdTagId_eq]
  apply verified_dial
  · intro s hidle
    exact ⟨rfl, hidle⟩
  · intro fd s h
    unfold tagExchange
    apply verified_write h
    intro domSock s h
    apply verified_read h
    intro domSock s h
    apply verified_write h
    intro domSock s h
    apply verified_read h
    intro domSock s h
    apply verified_write h
    intro domSock s h
    apply verified_close h.toHas
    intro s hidle
    exact ⟨rfl, hidle⟩

/-! ## Sequences of calls -/

/-- A call of the library with arguments that are not {lit}`NULL`, and the local array
that {lit}`get_new_id` does not initialise. -/
inductive ApiCall where
  | newId (buf : Buffer 1024) (id : Buffer 37)
  | tagId (clId : Buffer 37) (derrived : CString)

/-- The program of a call; the result is {lit}`dom_sock` afterwards. -/
def ApiCall.program (domSock : Fd) : ApiCall → StreamProgram Fd
  | newId buf id => do
      let r ← clacksNewId buf (some id) domSock
      return r.domSock
  | tagId clId derrived => clacksTagId clId derrived domSock

/-- {lit}`Calls history domSock table`: the process made the calls of {lit}`history`, each
with the operations it performed and their answers, and stands with {lit}`domSock` and
with the descriptors {lit}`table` open. -/
inductive Calls : List (ApiCall × List StreamEvent) → Fd → FdTable → Prop where
  | nil : Calls [] none .idle
  | snoc {history : List (ApiCall × List StreamEvent)} {domSock domSock' : Fd} {table : FdTable}
      {call : ApiCall} {events : List StreamEvent} :
      Calls history domSock table →
      (call.program domSock).Runs events domSock' →
      session.Expected (Session.start table) events →
      Calls (history ++ [(call, events)]) domSock' (session.after (Session.start table) events).table

/-- One call on no open descriptor. -/
theorem verified_program (call : ApiCall) :
    session.Verified Over (call.program none) (Session.start .idle) := by
  cases call with
  | newId buf id =>
      apply Verified.bind
      apply Verified.bind
      apply (verified_getNewId buf).mono
      intro r s hover
      exact hover
  | tagId clId derrived => exact verified_clIdTagId clId derrived

/-- Whatever fails in a sequence of calls, each call returns with {lit}`dom_sock` at
{lit}`-1` and no descriptor open.  In every call each operation was one that its
descriptor was good for: connects on a fresh socket, transfers on a connected one, closes
on an open one.  A descriptor obtained from {lit}`socket` was closed exactly once, and
nothing was sent after a step that failed. -/
theorem calls_hygienic {history : List (ApiCall × List StreamEvent)} {domSock : Fd}
    {table : FdTable} (hcalls : Calls history domSock table) :
    (domSock = none ∧ table = FdTable.idle) ∧
      ∀ entry ∈ history,
        session.Allowed (Session.start .idle) entry.2 ∧
        (∀ fd, ⟨.socket, some fd⟩ ∈ entry.2 → entry.2.countP (Closes fd) = 1) ∧
        ∀ before e later, entry.2 = before ++ e :: later → Failed e = true →
          sentBytes later = [] := by
  induction hcalls with
  | nil => exact ⟨⟨rfl, rfl⟩, by simp⟩
  | @snoc history domSock domSock' table call events _ hrun hexpected ih =>
      rcases ih with ⟨⟨rfl, rfl⟩, hhistory⟩
      rcases (verified_program call).run hrun hexpected with ⟨hallowed, hover⟩
      refine ⟨hover, ?_⟩
      intro entry hentry
      rcases List.mem_append.1 hentry with hentry | hentry
      · exact hhistory entry hentry
      · rw [List.mem_singleton.1 hentry]
        refine ⟨hallowed, ?_, ?_⟩
        · intro fd hopened
          exact closes_eq_one hallowed hexpected rfl (congrFun hover.2 fd) hopened
        · intro before e later hsplit hfailed
          exact sent_after_failure hallowed hexpected hsplit hfailed

/-- A tagging call on descriptor 3 whose first write fails. -/
def abortedTagEvents (clId : Buffer 37) (derrived : CString) : List StreamEvent :=
  [⟨.socket, some 3⟩, ⟨.connect (some 3) clIdDomSocket, true⟩, ⟨.write (some 3) clIdTag, none⟩,
    ⟨.close (some 3), ()⟩, ⟨.read none 4, none⟩, ⟨.close none, ()⟩, ⟨.write none clId.bytes, none⟩,
    ⟨.close none, ()⟩, ⟨.read none 4, none⟩, ⟨.close none, ()⟩,
    ⟨.write none derrived.bytes, none⟩, ⟨.close none, ()⟩, ⟨.close none, ()⟩]

/-- A new id, and then a tagging call that is aborted. -/
theorem calls_hygienic_aborted_tag :
    (abortedTagEvents (Buffer.fill 37 97) CString.empty).countP (Closes 3) = 1 := by
  have hnewId : Calls [(.newId (Buffer.fill 1024 0) (Buffer.fill 37 0),
      newIdEvents ⟨[], by decide⟩)] none .idle := by
    have hrun : Calls ([] ++ [(.newId (Buffer.fill 1024 0) (Buffer.fill 37 0),
        newIdEvents ⟨[], by decide⟩)]) none _ :=
      .snoc .nil (.ask (.ask (.ask (.ask (.ask (.done _))))))
        (by simp [newIdEvents, session, Expected, Session.start, FdTable.idle])
    rwa [(calls_hygienic hrun).1.2] at hrun
  have htag : Calls ([_] ++ [(.tagId (Buffer.fill 37 97) CString.empty,
      abortedTagEvents (Buffer.fill 37 97) CString.empty)]) none _ := hnewId.snoc
    (.ask (.ask (.ask (.ask (.ask (.ask (.ask (.ask (.ask (.ask (.ask (.ask (.ask (.done _))))))))))))))
    (by simp [abortedTagEvents, session, Expected, Session.start, FdTable.idle])
  exact ((calls_hygienic htag).2 _ List.mem_concat_self).2.1 3 (by simp [abortedTagEvents])

end Client
end Clacks
