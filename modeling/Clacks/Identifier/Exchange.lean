import Clacks.Client.IdClient
import Clacks.Foundation.LockStep
import Clacks.Identifier.DomSocket

/-!
# The two hand-written scripts of the identifier protocol

A client call and {lit}`handle_connection` are written independently.  Here both
are shown to follow one script for each kind of call, whatever the uninitialised
memory of the two processes holds.

Main results:

- Theorem {lit}`follows_program`: a connected client follows the script of its
  call.
- Theorem {lit}`follows_serveConnection`: the accept loop follows it from the other
  end, and ends with {lit}`Call.outcome`.
-/

namespace Clacks
namespace Identifier

open Foundation Program LockStep Client

/-- A call of the client library, with the memory it starts from. -/
inductive Call where
  | newId (buf : Buffer 1024)
  | tagId (clId : Buffer 37) (derrived : CString)

/-- The program a call runs.  Both ends of a connection share one result type; a
client returns {lit}`none`. -/
def Call.program : Call → StreamProgram (Option Service)
  | newId buf => getNewId buf none >>= fun _ => done none
  | tagId clId derrived => clIdTagId clId derrived none >>= fun _ => done none

/-- The program of a call after its connect. -/
def Call.exchange (fd : Nat) : Call → StreamProgram (Option Service)
  | newId buf => getExchange buf fd >>= fun _ => done none
  | tagId clId derrived => tagExchange clId derrived fd >>= fun _ => done none

theorem dial_bind {α β : Type} (failed : α) (exchange : Nat → StreamProgram α)
    (next : α → StreamProgram β) {failed' : β} (hfailed : next failed = done failed') :
    dial failed exchange >>= next = dial failed' fun fd => exchange fd >>= next := by
  unfold dial
  rw [ask_bind]
  apply ask_congr
  intro answer
  cases answer with
  | none => exact hfailed
  | some fd =>
      simp only [ask_bind]
      apply ask_congr
      intro connected
      cases connected with
      | true => rfl
      | false => simp [hfailed]

theorem Call.program_eq (call : Call) : call.program = dial none fun fd => call.exchange fd := by
  cases call with
  | newId buf =>
      simp only [program, exchange]
      rw [getNewId_eq]
      exact dial_bind _ _ _ rfl
  | tagId clId derrived =>
      simp only [program, exchange]
      rw [clIdTagId_eq]
      exact dial_bind _ _ _ rfl

/-- What a call does after its connect succeeded. -/
theorem Call.connected_program (call : Call) (fd : Nat) :
    connected fd call.program = call.exchange fd := by
  rw [call.program_eq]
  rfl

/-- The accept loop's program for one connection. -/
def serverProgram (lib : Libuuid) (frame : Frame) (sockMsg : Nat) (s : Service) :
    StreamProgram (Option Service) :=
  serveConnection lib frame (some sockMsg) s >>= fun s' => done (some s')

/-- The messages of a call in order, and the size of the read that takes each. -/
def Call.script : Call → List Turn
  | newId _ =>
      [{ sender := .client, allowed := fun bytes => bytes = clIdGet, limit := 1024 },
        { sender := .server, allowed := fun bytes => bytes.length = 37, limit := 1024 }]
  | tagId clId derrived =>
      [{ sender := .client, allowed := fun bytes => bytes = clIdTag, limit := 1024 },
        { sender := .server, allowed := fun bytes => bytes = continueCommand, limit := 4 },
        { sender := .client, allowed := fun bytes => bytes = clId.bytes, limit := 37 },
        { sender := .server, allowed := fun bytes => bytes = continueCommand, limit := 4 },
        { sender := .client, allowed := fun bytes => bytes = derrived.bytes, limit := 128 }]

/-- The service after a connection on which {lit}`call` ran undisturbed. -/
def Call.outcome (lib : Libuuid) (frame : Frame) (s : Service) : Call → Service
  | newId _ => { s with pool := checkPool lib (nextUuid lib s.pool).2 }
  | tagId clId derrived =>
      { s with tags := (Identifier.tagId s.tags clId.bytes
          ((frame.derrived.store (Chunk.front 128 derrived.bytes)).bytes ++
            frame.aboveDerrived) frame.heap).2 }

/-- What the two ends return. -/
def Call.fin (lib : Libuuid) (frame : Frame) (s : Service) (call : Call) :
    Side → Option Service → Prop
  | .client, result => result = none
  | .server, result => result = some (call.outcome lib frame s)

theorem Call.framed (call : Call) : Framed call.script := by
  cases call with
  | newId buf =>
      refine ⟨rfl, ?_, trivial⟩
      rintro bytes rfl
      decide
  | tagId clId derrived =>
      have hid : clId.bytes ≠ [] ∧ clId.bytes.length ≤ 37 := by
        have hlength := clId.length_eq
        refine ⟨?_, Nat.le_of_eq hlength⟩
        intro hnil
        simp [hnil] at hlength
      refine ⟨rfl, ?_, rfl, ?_, rfl, ?_, rfl, ?_, trivial⟩
      · rintro bytes rfl
        decide
      · rintro bytes rfl
        decide
      · rintro bytes rfl
        exact hid
      · rintro bytes rfl
        decide

/-- A connected client follows the script of its call. -/
theorem follows_program (call : Call) (fd : Nat) (fin : Option Service → Prop)
    (hfin : fin none) : Follows .client fin call.script (connected fd call.program) := by
  rw [call.connected_program]
  cases call with
  | newId buf =>
      refine .send rfl rfl (.receive rfl fun bytes _ => ?_)
      exact .close rfl hfin
  | tagId clId derrived =>
      refine .send rfl rfl (.receive rfl fun bytes _ => ?_)
      refine .send rfl rfl (.receive rfl fun bytes _ => ?_)
      refine .send rfl rfl ?_
      exact .close rfl hfin

/-- The accept loop follows the script of the call at the other end. -/
theorem follows_serveConnection (lib : Libuuid) (frame : Frame) (sockMsg : Nat) (s : Service)
    (call : Call) : Follows .server (call.fin lib frame s .server) call.script
      (serverProgram lib frame sockMsg s) := by
  unfold serverProgram
  rw [serveConnection_eq]
  cases call with
  | newId buf =>
      refine .receive rfl ?_
      rintro bytes rfl
      have hget : command (frame.buf.store (Chunk.front 1024 clIdGet)).bytes = .get := by
        rw [command_eq_get_iff]
        exact cstr_store_terminated _ (by decide) (by decide)
      simp only [afterCommand, hget]
      refine .send rfl (Buffer.length_eq _) ?_
      exact .close rfl rfl
  | tagId clId derrived =>
      refine .receive rfl ?_
      rintro bytes rfl
      have htag : command (frame.buf.store (Chunk.front 1024 clIdTag)).bytes = .tag := by
        rw [command_eq_tag_iff]
        exact cstr_store_terminated _ (by decide) (by decide)
      simp only [afterCommand, htag]
      refine .send rfl rfl (.receive rfl ?_)
      rintro bytes rfl
      refine .send rfl rfl (.receive rfl ?_)
      rintro bytes rfl
      refine .close rfl ?_
      simp only [Call.fin, Call.outcome, Buffer.store_front]

/-- The two ends of a call are in step from the beginning. -/
theorem sync_fresh (lib : Libuuid) (frame : Frame) (fd sockMsg : Nat) (s : Service)
    (call : Call) : Sync (call.fin lib frame s) call.script
      (Link.fresh (connected fd call.program) (serverProgram lib frame sockMsg s)) :=
  Sync.init (follows_program call fd _ rfl) (follows_serveConnection lib frame sockMsg s call)

end Identifier
end Clacks
