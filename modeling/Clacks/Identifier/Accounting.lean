import Clacks.Identifier.DomSocket

/-!
# Ids handed out over a service run

A run of {lit}`clacksidd` after its start-up refill is a sequence of accepted
connections, each served to its end under arbitrary answers of the operating
system.  The pool after the run is determined by the number of connections that
asked for an id, and so is the generator output each of them was sent.

Main results:

- Theorem {lit}`serveConnection_pool`: one connection moves the pool by one draw or
  not at all.
- Theorem {lit}`Serves.pool_at`: the pool after a run of any length.
- Theorem {lit}`ids_handed_out_once`: the accounting of a whole run.
-/

namespace Clacks
namespace Identifier

open Foundation Program

/-- The static state of {lit}`id_generator.c` when the process starts. -/
def Pool.static (surrounding : Int → Uuid) : Pool where
  uuidListHd := 0
  uuidList := fun _ => Buffer.fill 16 0
  drawn := 0
  surrounding := surrounding

/-- The service after {lit}`update_uuid_pool()` in {lit}`main`. -/
def Service.start (lib : Libuuid) (surrounding : Int → Uuid) : Service where
  pool := updateUuidPool lib (Pool.static surrounding)
  tags := []

/-- One accepted connection of a run: the uninitialised memory it met, its
descriptor, and every operation performed on it with its answer. -/
structure Connection where
  frame : Frame
  sockMsg : Fd
  events : List StreamEvent

/-- The command buffer made {lit}`handle_connection` take its {lit}`GET` branch. -/
def Connection.isGet (c : Connection) : Bool :=
  match readsOf c.events with
  | [] => false
  | received :: _ =>
      command (received ++ c.frame.buf.bytes.drop received.length) == .get

/-- What the connection offered to {lit}`write`. -/
def Connection.sent (c : Connection) : List (List UInt8) :=
  writesOf c.events

/-- {lit}`Serves lib start conns s`: the accept loop served {lit}`conns` in order,
starting from {lit}`start` and ending in {lit}`s`. -/
inductive Serves (lib : Libuuid) (start : Service) : List Connection → Service → Prop where
  | nil : Serves lib start [] start
  | snoc {conns : List Connection} {s s' : Service} {c : Connection} :
      Serves lib start conns s →
      (serveConnection lib c.frame c.sockMsg s).Runs c.events s' →
      Serves lib start (conns ++ [c]) s'

/-! ## One connection -/

/-- The tagging exchange begins with a write and never draws an id. -/
theorem handleTagOperation_pool {frame : Frame} {sockCon : Fd} {s s' : Service}
    {events : List StreamEvent}
    (hrun : (handleTagOperation frame sockCon s.tags >>= fun tags =>
      .ask (.close sockCon) fun _ => .done { s with tags }).Runs events s') :
    s'.pool = s.pool := by
  rcases Runs_bind.1 hrun with ⟨_, tags, _, _, _, hclose⟩
  rcases Runs_ask.1 hclose with ⟨_, _, _, hdone⟩
  rcases Runs_done.1 hdone with ⟨_, rfl⟩
  rfl

/-- A connection either asked for an id, sent exactly the next one and moved the
pool by one draw, or left the pool alone. -/
theorem serveConnection_pool {lib : Libuuid} {c : Connection} {s s' : Service}
    (hrun : (serveConnection lib c.frame c.sockMsg s).Runs c.events s') :
    (c.isGet = true ∧ c.sent = [(nextUuid lib s.pool).1.bytes] ∧
      s'.pool = checkPool lib (nextUuid lib s.pool).2) ∨
    (c.isGet = false ∧ s'.pool = s.pool) := by
  rw [serveConnection_eq] at hrun
  rcases Runs_ask.1 hrun with ⟨answer, rest, hevents, hrun⟩
  cases answer with
  | none =>
      -- The read failed: the only other event is the close.
      rcases Runs_ask.1 hrun with ⟨_, _, rfl, hdone⟩
      rcases Runs_done.1 hdone with ⟨rfl, rfl⟩
      exact .inr ⟨by simp [Connection.isGet, hevents, readsOf], rfl⟩
  | some received =>
      have hget : c.isGet = (command (c.frame.buf.store received).bytes == .get) := by
        simp [Connection.isGet, hevents, readsOf, Buffer.store_bytes]
      cases hcommand : command (c.frame.buf.store received).bytes with
      | get =>
          simp only [afterCommand, hcommand, ask_bind, done_bind] at hrun
          rcases Runs_ask.1 hrun with ⟨_, _, rfl, hclose⟩
          rcases Runs_ask.1 hclose with ⟨_, _, rfl, hdone⟩
          rcases Runs_done.1 hdone with ⟨rfl, rfl⟩
          exact .inl ⟨by simp [hget, hcommand], by simp [Connection.sent, hevents, writesOf], rfl⟩
      | tag =>
          simp only [afterCommand, hcommand, bind_assoc, done_bind] at hrun
          exact .inr ⟨by simp [hget, hcommand], handleTagOperation_pool hrun⟩
      | other =>
          simp only [afterCommand, hcommand, done_bind] at hrun
          rcases Runs_ask.1 hrun with ⟨_, _, _, hdone⟩
          rcases Runs_done.1 hdone with ⟨_, rfl⟩
          exact .inr ⟨by simp [hget, hcommand], rfl⟩

/-! ## Whole runs -/

section Run

variable {lib : Libuuid} {surrounding : Int → Uuid} {conns : List Connection} {s : Service}

/-- The pool after a run is the pool after as many draws as there were requests,
and draw number {lit}`k` was sent to request number {lit}`k`. -/
theorem Serves.pool_at (hrun : Serves lib (Service.start lib surrounding) conns s) :
    s.pool.At lib (conns.filter Connection.isGet).length ∧
      (conns.filter Connection.isGet).map Connection.sent =
        (List.range (conns.filter Connection.isGet).length).map fun k =>
          [(lib.unparse (lib.generateTimeSafe (drawIndex k))).bytes] := by
  induction hrun with
  | nil => exact ⟨updateUuidPool_at_zero lib rfl rfl, rfl⟩
  | @snoc conns s s' c _ hc ih =>
      rcases ih with ⟨hat, hsent⟩
      rcases serveConnection_pool hc with ⟨hget, hwrote, hpool⟩ | ⟨hget, hpool⟩
      · rcases hat.draw with ⟨huuid, hnext⟩
        simp only [List.filter_append, List.filter_cons, hget, if_true, List.filter_nil,
          List.length_append, List.length_singleton, List.map_append, List.map_cons,
          List.map_nil, List.range_succ]
        rw [hpool, hsent, hwrote, huuid]
        exact ⟨hnext, rfl⟩
      · simp only [List.filter_append, List.filter_cons, hget, Bool.false_eq_true, if_false,
          List.filter_nil, List.append_nil]
        rw [hpool]
        exact ⟨hat, hsent⟩

/-- No text is sent twice when the uuids behind the draws are pairwise different. -/
theorem nodup_drawn_texts (hlib : lib.Conforms) (n : Nat)
    (hfresh : lib.FreshUpTo (128 * (n / 128) + 128)) :
    ((List.range n).map fun k =>
      (lib.unparse (lib.generateTimeSafe (drawIndex k))).bytes).Nodup := by
  refine List.Nodup.map_on ?_ List.nodup_range
  intro j hj k hk hjk
  rw [List.mem_range] at hj hk
  have hbuffer : lib.unparse (lib.generateTimeSafe (drawIndex j)) =
      lib.unparse (lib.generateTimeSafe (drawIndex k)) := by
    cases hj' : lib.unparse (lib.generateTimeSafe (drawIndex j))
    cases hk' : lib.unparse (lib.generateTimeSafe (drawIndex k))
    simpa [hj', hk'] using hjk
  exact drawIndex_involutive.injective
    (hfresh (drawIndex_lt_drawn hj) (drawIndex_lt_drawn hk)
      (hlib.unparse_injective hbuffer))

/-- Accounting of a run of any length under any answers of the operating system.
Before every connection the head indexes a slot of the array; request number
{lit}`k` is sent generator output {lit}`drawIndex k`; no two requests are sent the
same id; and the outputs used are the completed batches together with the top of
the current one, each once. -/
theorem ids_handed_out_once (hlib : lib.Conforms)
    (hrun : Serves lib (Service.start lib surrounding) conns s)
    (hfresh : lib.FreshUpTo s.pool.drawn) :
    let gets := conns.filter Connection.isGet
    let n := gets.length
    (∀ before s₀, before <+: conns → Serves lib (Service.start lib surrounding) before s₀ →
      0 ≤ s₀.pool.uuidListHd ∧ s₀.pool.uuidListHd < clMaxFreeUuids) ∧
    gets.map Connection.sent = (List.range n).map (fun k =>
      [(lib.unparse (lib.generateTimeSafe (128 * (k / 128) + 127 - k % 128))).bytes]) ∧
    (gets.flatMap Connection.sent).Nodup ∧
    ((List.range n).map fun k => 128 * (k / 128) + 127 - k % 128).Perm
      (List.range (128 * (n / 128)) ++
        List.range' (128 * (n / 128) + (128 - n % 128)) (n % 128)) := by
  rcases hrun.pool_at with ⟨hat, hsent⟩
  refine ⟨?_, hsent, ?_, range_map_drawIndex_perm _⟩
  · intro before s₀ _ hbefore
    exact hbefore.pool_at.1.hd_mem
  · rw [List.flatMap_def, hsent, ← List.flatMap_def, ← List.map_eq_flatMap]
    exact nodup_drawn_texts hlib _ (hat.drawn_eq ▸ hfresh)

end Run

/-! ## A run of two requests -/

/-- The pool after {lit}`n` requests of a process that uses {lit}`timeLibuuid`. -/
def timePool : Nat → Pool
  | 0 => updateUuidPool timeLibuuid (Pool.static fun _ => Buffer.fill 16 0)
  | n + 1 => checkPool timeLibuuid (nextUuid timeLibuuid (timePool n)).2

/-- A request for an id whose reply is written with result {lit}`answer`. -/
def getConnection (n : Nat)
    (answer : Option (Fin ((nextUuid timeLibuuid (timePool n)).1.bytes.length + 1))) :
    Connection where
  frame := Frame.zero
  sockMsg := some 4
  events := [⟨.read (some 4) 1024, some ⟨clIdGet, by decide⟩⟩,
    ⟨.write (some 4) (nextUuid timeLibuuid (timePool n)).1.bytes, answer⟩,
    ⟨.close (some 4), ()⟩]

theorem getConnection_runs (n : Nat)
    (answer : Option (Fin ((nextUuid timeLibuuid (timePool n)).1.bytes.length + 1))) :
    (serveConnection timeLibuuid (getConnection n answer).frame (getConnection n answer).sockMsg
      ⟨timePool n, []⟩).Runs (getConnection n answer).events ⟨timePool (n + 1), []⟩ := by
  have hcommand : ∀ h, command (Frame.zero.buf.store ⟨clIdGet, h⟩).bytes = .get := by
    intro h
    rw [command_eq_get_iff]
    rfl
  rw [serveConnection_eq]
  refine .ask ?_
  simp only [getConnection, afterCommand, hcommand, ask_bind, done_bind]
  exact .ask (.ask (.done _))

/-- Two requests, the first with a failing write: the lost id is not sent again. -/
theorem ids_handed_out_once_two_gets :
    timeLibuuid.Conforms ∧ timeLibuuid.FreshUpTo (timePool 2).drawn ∧
      ([getConnection 0 none, getConnection 1 (some (Fin.last _))].flatMap
        Connection.sent).Nodup := by
  have hrun : Serves timeLibuuid (Service.start timeLibuuid fun _ => Buffer.fill 16 0)
      [getConnection 0 none, getConnection 1 (some (Fin.last _))] ⟨timePool 2, []⟩ :=
    .snoc (.snoc .nil (getConnection_runs 0 none)) (getConnection_runs 1 _)
  have hgets : [getConnection 0 none, getConnection 1 (some (Fin.last _))].filter
      Connection.isGet = [getConnection 0 none, getConnection 1 (some (Fin.last _))] := by
    rfl
  have hfresh : timeLibuuid.FreshUpTo (timePool 2).drawn := by
    have hdrawn : (timePool 2).drawn = 128 := by
      simpa [hgets] using hrun.pool_at.1.drawn_eq
    rw [hdrawn]
    exact timeLibuuid_freshUpTo.mono (by decide)
  have hmain := ids_handed_out_once timeLibuuid_conforms hrun hfresh
  rw [hgets] at hmain
  exact ⟨timeLibuuid_conforms, hfresh, hmain.2.2.1⟩

end Identifier
end Clacks
