import Clacks.Common
import Clacks.Foundation.Sockets
import Clacks.Identifier.Generator
import Clacks.Identifier.TagManager

/-!
# Serving one connection of the identifier service

Model of {lit}`id_dom_socket.c` from {lit}`send_uuid` to the body of the accept
loop.  The static state of the process is passed along explicitly; the stack
arrays of the two handlers are not initialised by the source, so whatever they
hold when the connection is accepted is a parameter.

Main results:

- Theorem {lit}`command_eq_get_iff`, {lit}`command_eq_tag_iff`: which buffer
  contents select which branch of {lit}`handle_connection`.
- Theorems {lit}`handleConnection_eq` and {lit}`serveConnection_eq`: the program
  that runs after the command was read, branch by branch.
-/

namespace Clacks
namespace Identifier

open Foundation Program

/-- The memory of {lit}`int continue_command = 1`. -/
def continueCommand : List UInt8 := [1, 0, 0, 0]

/-- What the stack and the heap hold when a connection is accepted: the arrays of
{lit}`handle_connection` and {lit}`handle_tag_operation`, the memory above
{lit}`derrived`, and the tail of the next struct {lit}`malloc` returns. -/
structure Frame where
  buf : Buffer 1024
  uuid : Buffer 37
  derrived : Buffer 128
  aboveDerrived : List UInt8
  heap : List UInt8

/-- A frame whose arrays hold NUL bytes. -/
def Frame.zero : Frame where
  buf := Buffer.fill 1024 0
  uuid := Buffer.fill 37 0
  derrived := Buffer.fill 128 0
  aboveDerrived := []
  heap := []

/-- The static state of {lit}`clacksidd`. -/
structure Service where
  pool : Pool
  tags : TagTable

/-- {lit}`send_uuid`. -/
def sendUuid (lib : Libuuid) (sockCon : Fd) (pool : Pool) : StreamProgram (Int × Pool) := do
  let (uuid, pool) := nextUuid lib pool
  let rtn ← Sys.write sockCon uuid.bytes
  -- Refresh the pool if necessary
  return (writeReturn rtn, checkPool lib pool)

/-- {lit}`handle_tag_operation`. -/
def handleTagOperation (frame : Frame) (sockCon : Fd) (tags : TagTable) :
    StreamProgram TagTable := do
  -- server -> 1 -> client
  let some _ ← Sys.write sockCon continueCommand | return tags
  -- server <- uuid <- client
  let some received ← Sys.read sockCon 37 | return tags
  let uuid := frame.uuid.store received
  -- server -> 1 -> client
  let some _ ← Sys.write sockCon continueCommand | return tags
  -- server <- derrived <- client
  let some received ← Sys.read sockCon 128 | return tags
  let derrived := frame.derrived.store received
  return (tagId tags uuid.bytes (derrived.bytes ++ frame.aboveDerrived) frame.heap).2

/-- {lit}`handle_connection`. -/
def handleConnection (lib : Libuuid) (frame : Frame) (sockCon : Fd) (s : Service) :
    StreamProgram Service := do
  let some received ← Sys.read sockCon 1024 | return s
  let buf := frame.buf.store received
  if strcmp buf.bytes clIdGet = 0 then do
    let (_, pool) ← sendUuid lib sockCon s.pool
    return { s with pool }
  else if strcmp buf.bytes clIdTag = 0 then do
    let tags ← handleTagOperation frame sockCon s.tags
    return { s with tags }
  else
    return s

/-- One turn of the accept loop: {lit}`handle_connection(sock_msg); close(sock_msg);`. -/
def serveConnection (lib : Libuuid) (frame : Frame) (sockMsg : Fd) (s : Service) :
    StreamProgram Service := do
  let s ← handleConnection lib frame sockMsg s
  Sys.close sockMsg
  return s

/-! ## Dispatch -/

/-- The branch of {lit}`handle_connection` a command buffer selects. -/
inductive Command where
  | get
  | tag
  | other
deriving DecidableEq

/-- The two comparisons of {lit}`handle_connection`. -/
def command (buf : List UInt8) : Command :=
  if strcmp buf clIdGet = 0 then .get
  else if strcmp buf clIdTag = 0 then .tag
  else .other

theorem command_eq_get_iff (buf : List UInt8) : command buf = .get ↔ cstr buf = ascii "GET" := by
  have hget : cstr clIdGet = ascii "GET" := by decide
  rw [← hget, ← strcmp_eq_zero_iff, command]
  split
  · simp [*]
  · split <;> simp [*]

theorem command_eq_tag_iff (buf : List UInt8) : command buf = .tag ↔ cstr buf = ascii "TAG" := by
  have hget : cstr clIdGet = ascii "GET" := by decide
  have htag : cstr clIdTag = ascii "TAG" := by decide
  have hne : ascii "GET" ≠ ascii "TAG" := by decide
  simp only [command, strcmp_eq_zero_iff, hget, htag]
  by_cases h : cstr buf = ascii "GET"
  · simp [h, hne]
  · by_cases h' : cstr buf = ascii "TAG" <;> simp [h, h', Ne.symm hne]

section Branches

variable (lib : Libuuid) (frame : Frame) (sockCon : Fd) (s : Service)

/-- What {lit}`handle_connection` does with the answer of its first read. -/
def afterCommand : Option (Chunk 1024) → StreamProgram Service
  | none => .done s
  | some received =>
      match command (frame.buf.store received).bytes with
      | .get => .ask (.write sockCon (nextUuid lib s.pool).1.bytes) fun _ =>
          .done { s with pool := checkPool lib (nextUuid lib s.pool).2 }
      | .tag => handleTagOperation frame sockCon s.tags >>= fun tags => .done { s with tags }
      | .other => .done s

theorem handleConnection_eq :
    handleConnection lib frame sockCon s =
      .ask (.read sockCon 1024) (afterCommand lib frame sockCon s) := by
  simp only [handleConnection, Sys.read_bind]
  apply ask_congr
  intro answer
  cases answer with
  | none => rfl
  | some received =>
      simp only [afterCommand, command]
      split
      · rfl
      · split <;> rfl

theorem serveConnection_eq :
    serveConnection lib frame sockCon s =
      .ask (.read sockCon 1024) fun answer =>
        afterCommand lib frame sockCon s answer >>= fun s' =>
          .ask (.close sockCon) fun _ => .done s' := by
  simp only [serveConnection, handleConnection_eq, ask_bind, Sys.close_bind, pure_eq_done]

end Branches

end Identifier
end Clacks
