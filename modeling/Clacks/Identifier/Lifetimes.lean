import Clacks.Identifier.Accounting

/-!
# Ids over restarts of the service

The pool lives in the memory of the process.  When the process is killed, at whatever
point, the ids left in its pool are lost, and the next process begins with a batch of its
own.  The generator belongs to the host and goes on.

Main results:

- Theorem {lit}`Cut.ids`: what a connection was sent that the process did not survive.
- Theorem {lit}`ids_unique_over_restarts`: no id is handed out twice, in all lifetimes of
  the service together, and no lifetime loses more than a batch.
-/

namespace Clacks
namespace Identifier

open Foundation Program

/-- The generator for a process that starts when {lit}`base` uuids have been generated on
the host. -/
def Libuuid.after (lib : Libuuid) (base : Nat) : Libuuid where
  generateTimeSafe k := lib.generateTimeSafe (base + k)
  unparse := lib.unparse

/-- The text of the {lit}`k`-th uuid that is generated. -/
def Libuuid.text (lib : Libuuid) (k : Nat) : List UInt8 :=
  (lib.unparse (lib.generateTimeSafe k)).bytes

/-- The ids that connections were sent. -/
def idsSent (conns : List Connection) : List (List UInt8) :=
  (conns.filter Connection.isGet).flatMap Connection.sent

/-- {lit}`Cut lib s last drawn`: the process was killed between two connections, or in the
middle of {lit}`last`, of which it had made the calls in {lit}`last.events`; by then it
had called the generator {lit}`drawn` times.  A refill comes behind the write of the id. -/
inductive Cut (lib : Libuuid) (s : Service) : List Connection → Nat → Prop where
  | between : Cut lib s [] s.pool.drawn
  | unsent {c : Connection} {more : List StreamEvent} {s' : Service}
      (hrun : (serveConnection lib c.frame c.sockMsg s).Runs (c.events ++ more) s')
      (hsent : c.sent = []) : Cut lib s [c] s.pool.drawn
  | sent {c : Connection} {more : List StreamEvent} {s' : Service} {drawn : Nat}
      (hrun : (serveConnection lib c.frame c.sockMsg s).Runs (c.events ++ more) s')
      (hsent : c.sent ≠ []) (hle : s.pool.drawn ≤ drawn) (hle' : drawn ≤ s'.pool.drawn) :
      Cut lib s [c] drawn

/-- {lit}`Lifetimes lib lives base ids`: on a host that has generated {lit}`base` uuids,
{lit}`lives` processes of the service have run, one after another, each until it was
killed; together they sent {lit}`ids`. -/
inductive Lifetimes (lib : Libuuid) : Nat → Nat → List (List UInt8) → Prop where
  | none : Lifetimes lib 0 0 []
  | life {lives base drawn : Nat} {ids : List (List UInt8)} {surrounding : Int → Uuid}
      {conns last : List Connection} {s : Service} (hbefore : Lifetimes lib lives base ids)
      (hserves : Serves (lib.after base) (Service.start (lib.after base) surrounding) conns s)
      (hcut : Cut (lib.after base) s last drawn) :
      Lifetimes lib (lives + 1) (base + drawn) (ids ++ idsSent (conns ++ last))

/-! ## One lifetime -/

section Lifetime

variable {lib : Libuuid} {surrounding : Int → Uuid} {conns last : List Connection} {s : Service}

theorem idsSent_append (first second : List Connection) :
    idsSent (first ++ second) = idsSent first ++ idsSent second := by
  simp [idsSent]

/-- The ids of the connections that were served. -/
theorem Serves.ids (hrun : Serves lib (Service.start lib surrounding) conns s) :
    ∃ n, s.pool.At lib n ∧ idsSent conns = (List.range n).map fun k => lib.text (drawIndex k) := by
  rcases hrun.pool_at with ⟨hat, hsent⟩
  refine ⟨_, hat, ?_⟩
  rw [idsSent, List.flatMap_def, hsent, ← List.flatMap_def, ← List.map_eq_flatMap]
  rfl

theorem idsSent_of_unsent {c : Connection} (hsent : c.sent = []) : idsSent [c] = [] := by
  cases hget : c.isGet <;> simp [idsSent, hget, hsent]

/-- By its first write, a connection has shown whether it asks for an id. -/
theorem isGet_of_sent {c : Connection} {more : List StreamEvent} {s' : Service}
    (hrun : (serveConnection lib c.frame c.sockMsg s).Runs (c.events ++ more) s')
    (hsent : c.sent ≠ []) :
    Connection.isGet { c with events := c.events ++ more } = c.isGet := by
  rcases c with ⟨frame, sockMsg, events⟩
  dsimp only at hrun ⊢
  rw [serveConnection_eq] at hrun
  rcases Runs_ask.1 hrun with ⟨answer, rest, hevents, hrest⟩
  cases events with
  | nil => exact absurd rfl hsent
  | cons e events =>
      rw [List.cons_append, List.cons.injEq] at hevents
      rcases hevents with ⟨rfl, hevents⟩
      cases answer with
      | none =>
          -- After a failed read there is only the close.
          rcases Runs_ask.1 hrest with ⟨_, _, rfl, hdone⟩
          rcases Runs_done.1 hdone with ⟨rfl, _⟩
          exfalso
          apply hsent
          rcases List.append_eq_cons_iff.1 hevents with ⟨rfl, _⟩ | ⟨tail, rfl, htail⟩
          · rfl
          · rw [List.nil_eq, List.append_eq_nil_iff] at htail
            rw [htail.1]
            rfl
      | some received => simp [Connection.isGet, readsOf]

/-- A connection that the process did not survive was sent the next id, or none; and no
more than a batch was generated and not sent. -/
theorem Cut.ids {n drawn : Nat} (hcut : Cut lib s last drawn) (hat : s.pool.At lib n) :
    ∃ m, idsSent last = ((List.range' n m).map fun k => lib.text (drawIndex k)) ∧ m ≤ 1 ∧
      s.pool.drawn ≤ drawn ∧ drawn ≤ n + m + 128 := by
  have hdrawn := hat.drawn_eq
  cases hcut with
  | between => exact ⟨0, rfl, by omega, Nat.le_refl _, by omega⟩
  | unsent _ hsent => exact ⟨0, idsSent_of_unsent hsent, by omega, Nat.le_refl _, by omega⟩
  | @sent c more s' _ hrun hsent hle hle' =>
      have hsame := isGet_of_sent hrun hsent
      rcases @serveConnection_pool lib { c with events := c.events ++ more } s s' hrun with
        ⟨hget, hwrote, hpool⟩ | ⟨hget, hpool⟩
      · rw [hsame] at hget
        rcases hat.draw with ⟨huuid, hnext⟩
        have hid : c.sent = [lib.text (drawIndex n)] := by
          have hall : c.sent ++ writesOf more = [lib.text (drawIndex n)] := by
            rw [Libuuid.text, ← huuid, ← hwrote]
            simp [Connection.sent, writesOf]
          rcases List.append_eq_singleton_iff.1 hall with ⟨hnone, _⟩ | ⟨hone, _⟩
          · exact absurd hnone hsent
          · exact hone
        have hdrawn' := hnext.drawn_eq
        rw [← hpool] at hdrawn'
        refine ⟨1, ?_, Nat.le_refl 1, hle, by omega⟩
        simp [idsSent, hget, hid]
      · rw [hsame] at hget
        rw [hpool] at hle'
        exact ⟨0, by simp [idsSent, hget], by omega, hle, by omega⟩

end Lifetime

/-! ## All lifetimes -/

section All

variable {lib : Libuuid} {lives base : Nat} {ids : List (List UInt8)}

/-- The ids that were sent are texts of different outputs of the generator. -/
theorem Lifetimes.used (h : Lifetimes lib lives base ids) :
    ∃ used : List Nat, ids = used.map lib.text ∧ used.Nodup ∧ (∀ k ∈ used, k < base) ∧
      base ≤ ids.length + 128 * lives := by
  induction h with
  | none => exact ⟨[], rfl, .nil, by simp, by simp⟩
  | @life lives base drawn ids _ conns last s _ hserves hcut ih =>
      rcases ih with ⟨used, hids, hnodup, hlt, hlost⟩
      rcases hserves.ids with ⟨n, hat, hconns⟩
      rcases hcut.ids hat with ⟨m, hlast, hm, hdrawn, hdrawn'⟩
      have hlife : idsSent (conns ++ last) =
          (List.range (n + m)).map fun k => lib.text (base + drawIndex k) := by
        rw [idsSent_append, hconns, hlast, ← List.map_append, List.range_eq_range',
          List.range_eq_range', ← List.range'_append_1, Nat.zero_add]
        rfl
      have hbelow : ∀ k < n + m, drawIndex k < drawn := by
        intro k hk
        have hat' := hat.drawn_eq
        unfold drawIndex
        omega
      refine ⟨used ++ (List.range (n + m)).map (fun k => base + drawIndex k), ?_, ?_, ?_, ?_⟩
      · rw [hlife, hids, List.map_append, List.map_map]
        rfl
      · rw [List.nodup_append]
        refine ⟨hnodup, ?_, ?_⟩
        · apply List.nodup_range.map
          intro j k hjk
          exact drawIndex_involutive.injective (Nat.add_left_cancel hjk)
        · intro j hj k hk
          have hjbase := hlt j hj
          rcases List.mem_map.1 hk with ⟨i, _, rfl⟩
          omega
      · intro k hk
        rcases List.mem_append.1 hk with hold | hnew
        · have hkbase := hlt k hold
          omega
        · rcases List.mem_map.1 hnew with ⟨i, hi, rfl⟩
          have hi' := hbelow i (List.mem_range.1 hi)
          omega
      · rw [List.length_append, hlife, List.length_map, List.length_range]
        omega

/-- No id is handed out twice, over any number of lifetimes of the service, each of them
with any connections and killed at any point, if no two uuids that were generated are the
same.  The service may lose ids when it is killed, but not more than a batch each time. -/
theorem ids_unique_over_restarts (hlib : lib.Conforms) (h : Lifetimes lib lives base ids)
    (hfresh : lib.FreshUpTo base) : ids.Nodup ∧ base ≤ ids.length + 128 * lives := by
  rcases h.used with ⟨used, rfl, hnodup, hlt, hlost⟩
  refine ⟨?_, hlost⟩
  refine List.Nodup.map_on ?_ hnodup
  intro j hj k hk hjk
  have hbuffer : lib.unparse (lib.generateTimeSafe j) = lib.unparse (lib.generateTimeSafe k) :=
    Buffer.ext hjk
  exact hfresh (hlt j hj) (hlt k hk) (hlib.unparse_injective hbuffer)

end All

/-! ## Two lifetimes -/

theorem length_clIdGet_le : clIdGet.length ≤ 1024 := by
  decide

/-- A request for an id whose process is killed behind the write. -/
def lastRequest (lib : Libuuid) (s : Service) : Connection where
  frame := Frame.zero
  sockMsg := some 4
  events := [⟨.read (some 4) 1024, some ⟨clIdGet, length_clIdGet_le⟩⟩,
    ⟨.write (some 4) (nextUuid lib s.pool).1.bytes, some (Fin.last _)⟩]

theorem lastRequest_runs (lib : Libuuid) (s : Service) :
    ∃ s', (serveConnection lib (lastRequest lib s).frame (lastRequest lib s).sockMsg s).Runs
      ((lastRequest lib s).events ++ [⟨.close (some 4), ()⟩]) s' ∧
      s'.pool = checkPool lib (nextUuid lib s.pool).2 := by
  have hcommand : ∀ h, command (Frame.zero.buf.store ⟨clIdGet, h⟩).bytes = .get := by
    intro h
    rw [command_eq_get_iff]
    rfl
  refine ⟨{ s with pool := checkPool lib (nextUuid lib s.pool).2 }, ?_, rfl⟩
  rw [serveConnection_eq]
  refine .ask ?_
  simp only [lastRequest, afterCommand, hcommand, ask_bind, done_bind]
  exact .ask (.ask (.done _))

/-- A process that is killed in its first request has sent one id. -/
theorem Lifetimes.request {lib : Libuuid} {lives base : Nat} {ids : List (List UInt8)}
    (h : Lifetimes lib lives base ids) :
    ∃ id, Lifetimes lib (lives + 1) (base + 128) (ids ++ [id]) := by
  let start := Service.start (lib.after base) fun _ => Buffer.fill 16 0
  have hat : start.pool.At (lib.after base) 0 := updateUuidPool_at_zero _ rfl rfl
  have hdrawn : start.pool.drawn = 128 := hat.drawn_eq
  rcases lastRequest_runs (lib.after base) start with ⟨s', hrun, hpool⟩
  have hdrawn' : s'.pool.drawn = 128 := by
    rw [hpool]
    exact hat.draw.2.drawn_eq
  have hlife := h.life .nil (.sent hrun (by simp [Connection.sent, lastRequest, writesOf])
    (Nat.le_of_eq hdrawn) (Nat.le_of_eq hdrawn'.symm))
  refine ⟨(nextUuid (lib.after base) start.pool).1.bytes, ?_⟩
  exact hlife

/-- Two processes that are killed in their first requests send different ids. -/
theorem ids_unique_over_restarts_two : ∃ first second : List UInt8,
    Lifetimes timeLibuuid 2 256 [first, second] ∧ first ≠ second := by
  have hboot : Lifetimes timeLibuuid 0 0 [] := .none
  rcases hboot.request with ⟨first, hone⟩
  rcases hone.request with ⟨second, htwo⟩
  have hnodup := (ids_unique_over_restarts timeLibuuid_conforms htwo
    (timeLibuuid_freshUpTo.mono (by decide))).1
  exact ⟨first, second, htwo, by simpa using hnodup⟩

end Identifier
end Clacks
