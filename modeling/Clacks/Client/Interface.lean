import Clacks.Client.IdClient

/-!
# The library's front end for ids

{lit}`clacks_new_id` and {lit}`clacks_tag_id` of {lit}`clacks.c`, and what a new id
that was reported as received consists of.

Main results:

- Theorem {lit}`getNewId_outcome`: a call fails, or stores what its one read left in the
  local buffer.
- Theorem {lit}`new_id_received_iff`: when success means that the id was received.
-/

namespace Clacks
namespace Client

open Foundation Program

/-- What {lit}`clacks_new_id` leaves behind: its return value, the caller's array, and
{lit}`dom_sock`. -/
structure ClacksNewId where
  ret : Int
  id : Option (Buffer 37)
  domSock : Fd

/-- {lit}`clacks_new_id`; {lit}`id` is the caller's array, {lit}`none` for
{lit}`NULL`. -/
def clacksNewId (buf : Buffer 1024) (id : Option (Buffer 37)) (domSock : Fd) :
    StreamProgram ClacksNewId :=
  match id with
  | none => return { ret := -1, id := none, domSock }
  | some array => do
      let r ← getNewId buf domSock
      return { ret := r.ret, id := some (r.id.getD array), domSock := r.domSock }

/-- {lit}`clacks_tag_id`. -/
def clacksTagId (clId : Buffer 37) (derrived : CString) (domSock : Fd) : StreamProgram Fd :=
  clIdTagId clId derrived domSock

/-! ## Connecting receives nothing -/

/-- {lit}`connect_to_id_service` reads nothing. -/
theorem readsOf_connectToIdService {domSock : Fd} {events : List StreamEvent} {r : Int × Fd}
    (hrun : (connectToIdService domSock).Runs events r) : readsOf events = [] := by
  -- After the socket, new or kept, there is a connect and, if it failed, a close.
  have hconnect : ∀ {fd : Nat} {rest : List StreamEvent},
      (connectToIdService (some fd)).Runs rest r → readsOf rest = [] := by
    intro fd rest hrest
    simp only [connectToIdService, pure_eq_done, done_bind, Sys.connect_bind] at hrest
    rcases Runs_ask.1 hrest with ⟨ok, rest', rfl, hrest'⟩
    cases ok with
    | true =>
        rcases Runs_done.1 hrest' with ⟨rfl, _⟩
        rfl
    | false =>
        rcases Runs_ask.1 hrest' with ⟨_, _, rfl, hdone⟩
        rcases Runs_done.1 hdone with ⟨rfl, _⟩
        rfl
  cases domSock with
  | some fd => exact hconnect hrun
  | none =>
      rcases Runs_ask.1 hrun with ⟨answer, rest, rfl, hrest⟩
      cases answer with
      | none =>
          rcases Runs_done.1 hrest with ⟨rfl, _⟩
          rfl
      | some fd =>
          have hnone : readsOf rest = [] := hconnect hrest
          exact hnone

/-! ## What a new id consists of -/

/-- A call returns {lit}`-1` without having received anything, or its one successful
read left the stored id in the local buffer. -/
theorem getNewId_outcome {buf : Buffer 1024} {domSock : Fd} {events : List StreamEvent}
    {r : NewId} (hrun : (getNewId buf domSock).Runs events r) :
    (r.ret = -1 ∧ r.id = none ∧ readsOf events = []) ∨
      ∃ received : Chunk 1024, readsOf events = [received.bytes] ∧ r.ret = 0 ∧
        r.id = some ((buf.store received).front 37 (by decide)) := by
  rcases Runs_bind.1 hrun with ⟨before, ⟨rtn, fd⟩, rest, rfl, hconnect, hrest⟩
  have hbefore := readsOf_connectToIdService hconnect
  have happend : readsOf (before ++ rest) = readsOf rest := by
    unfold readsOf at hbefore ⊢
    rw [List.filterMap_append, hbefore, List.nil_append]
  rw [happend]
  by_cases hrtn : rtn = -1
  · simp only [hrtn, if_true, pure_eq_done] at hrest
    rcases Runs_done.1 hrest with ⟨rfl, rfl⟩
    exact .inl ⟨rfl, rfl, rfl⟩
  · simp only [hrtn, if_false, Sys.write_bind, Sys.read_bind, Sys.close_bind,
      pure_eq_done] at hrest
    rcases Runs_ask.1 hrest with ⟨wrote, rest, rfl, hread⟩
    cases wrote with
    | none =>
        rcases Runs_ask.1 hread with ⟨_, _, rfl, hdone⟩
        rcases Runs_done.1 hdone with ⟨rfl, rfl⟩
        exact .inl ⟨rfl, rfl, rfl⟩
    | some count =>
        rcases Runs_ask.1 hread with ⟨answer, rest, rfl, hclose⟩
        cases answer with
        | none =>
            rcases Runs_ask.1 hclose with ⟨_, _, rfl, hdone⟩
            rcases Runs_done.1 hdone with ⟨rfl, rfl⟩
            exact .inl ⟨rfl, rfl, rfl⟩
        | some received =>
            rcases Runs_ask.1 hclose with ⟨_, _, rfl, hdone⟩
            rcases Runs_done.1 hdone with ⟨rfl, rfl⟩
            exact .inr ⟨received, rfl, rfl, rfl⟩

/-- A call on the caller's array {lit}`array` succeeds with an id that it received, or
returns {lit}`-1`, exactly when every read of the call that did not fail delivered at
least 37 bytes. -/
theorem new_id_received_iff {buf : Buffer 1024} {array : Buffer 37} {domSock : Fd}
    {events : List StreamEvent} {r : ClacksNewId}
    (hrun : (clacksNewId buf (some array) domSock).Runs events r) :
    ((r.ret = 0 ∧ ∃ received ∈ readsOf events, 37 ≤ received.length ∧
          r.id.map Buffer.bytes = some (received.take 37)) ∨ r.ret = -1) ↔
      ∀ received ∈ readsOf events, 37 ≤ received.length := by
  rcases Runs_bind.1 hrun with ⟨before, s, rest, rfl, hget, hdone⟩
  rcases Runs_done.1 hdone with ⟨rfl, rfl⟩
  rw [List.append_nil]
  rcases getNewId_outcome hget with ⟨hret, _, hreads⟩ | ⟨received, hreads, hret, hid⟩
  · simp [hret, hreads]
  · simp only [hreads, hret, hid, List.mem_singleton, exists_eq_left, forall_eq]
    constructor
    · intro h
      rcases h with ⟨_, hlength, _⟩ | hfailed
      · exact hlength
      · cases hfailed
    · intro hlength
      refine .inl ⟨trivial, hlength, ?_⟩
      have hfront : ((buf.store received).front 37 (by decide)).bytes = received.bytes.take 37 := by
        simp only [Buffer.front, Buffer.store_bytes]
        exact List.take_append_of_le_length hlength
      simp [hfront]

/-! ## A service that answers with any bytes -/

/-- The steps of a call on descriptor 3 whose read delivers {lit}`received`. -/
def newIdEvents (received : Chunk 1024) : List StreamEvent :=
  [⟨.socket, some 3⟩, ⟨.connect (some 3) clIdDomSocket, true⟩,
    ⟨.write (some 3) clIdGet, some (Fin.last _)⟩, ⟨.read (some 3) 1024, some received⟩,
    ⟨.close (some 3), ()⟩]

theorem clacksNewId_runs (buf : Buffer 1024) (array : Buffer 37) (received : Chunk 1024) :
    (clacksNewId buf (some array) none).Runs (newIdEvents received)
      ⟨0, some ((buf.store received).front 37 (by decide)), none⟩ :=
  .ask (.ask (.ask (.ask (.ask (.done _)))))

/-- A reply of 37 bytes is the id. -/
theorem new_id_received_whole :
    ∃ received ∈ readsOf (newIdEvents (Chunk.front 1024 (List.replicate 37 97))),
      37 ≤ received.length := by
  have hrun := clacksNewId_runs (Buffer.fill 1024 0) (Buffer.fill 37 0)
    (Chunk.front 1024 (List.replicate 37 97))
  have hlength : ∀ received ∈ readsOf (newIdEvents (Chunk.front 1024 (List.replicate 37 97))),
      37 ≤ received.length := by
    intro received hmem
    simp [newIdEvents, readsOf] at hmem
    simp [hmem]
  rcases (new_id_received_iff hrun).2 hlength with ⟨_, received, hmem, hle, _⟩ | hfailed
  · exact ⟨received, hmem, hle⟩
  · cases hfailed

/-- The service closes the connection without a reply: the call returns 0 and the id is
what the local buffer held from before. -/
theorem new_id_leftover :
    let events := newIdEvents (Chunk.front 1024 [])
    (clacksNewId (Buffer.fill 1024 120) (some (Buffer.fill 37 0)) none).Runs events
        ⟨0, some (Buffer.fill 37 120), none⟩ ∧ readsOf events = [[]] := by
  have hfront : (List.replicate 1024 (120 : UInt8)).take 37 = List.replicate 37 120 :=
    List.take_replicate
  have hid : ((Buffer.fill 1024 120).store (Chunk.front 1024 [])).front 37 (by decide) =
      Buffer.fill 37 120 := by
    simp only [Buffer.front, Buffer.store, Buffer.fill, Chunk.front_bytes, List.take_nil,
      List.nil_append, List.length_nil, List.drop_zero, hfront]
  have hrun := clacksNewId_runs (Buffer.fill 1024 120) (Buffer.fill 37 0) (Chunk.front 1024 [])
  rw [hid] at hrun
  exact ⟨hrun, rfl⟩

end Client
end Clacks
