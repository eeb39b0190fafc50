import Clacks.Common
import Clacks.Foundation.Sockets

/-!
# The client of the identifier service

Model of {lit}`id_client.c`.  The static descriptor {lit}`dom_sock` is passed along
and returned; the local array of {lit}`get_new_id` is not initialised, so its
contents are a parameter.

Main results:

- Theorems {lit}`getNewId_eq` and {lit}`clIdTagId_eq`: a call that starts without a
  descriptor opens a socket, connects it, and only then exchanges messages.
-/

namespace Clacks
namespace Client

open Foundation Program

/-- {lit}`connect_to_id_service`: its return value and {lit}`dom_sock` afterwards. -/
def connectToIdService (domSock : Fd) : StreamProgram (Int × Fd) := do
  let domSock ←
    match domSock with
    | none => Sys.socket -- Setup a new domain socket
    | some fd => pure (some fd)
  let some fd := domSock | return (-1, none)
  if ← Sys.connect (some fd) clIdDomSocket then
    return (0, some fd)
  else
    Sys.close (some fd)
    return (-1, none)

/-- What {lit}`get_new_id` leaves behind: its return value, the 37 bytes it copied
to the caller's array, if it did, and {lit}`dom_sock`. -/
structure NewId where
  ret : Int
  id : Option (Buffer 37)
  domSock : Fd

/-- {lit}`get_new_id`. -/
def getNewId (buf : Buffer 1024) (domSock : Fd) : StreamProgram NewId := do
  let (rtn, domSock) ← connectToIdService domSock
  if rtn = -1 then
    return { ret := -1, id := none, domSock }
  let some _ ← Sys.write domSock clIdGet
    | do
      Sys.close domSock
      return { ret := -1, id := none, domSock := none }
  let some received ← Sys.read domSock 1024
    | do
      Sys.close domSock
      return { ret := -1, id := none, domSock := none }
  let id := (buf.store received).front 37 (by decide)
  Sys.close domSock
  return { ret := 0, id := some id, domSock := none }

/-- What {lit}`cl_id_tag_id` does after each step that returned a negative value:
{lit}`close(dom_sock); dom_sock = -1;`, and on with the next step. -/
def closeOnError {α : Type} (rtn : Option α) (domSock : Fd) : StreamProgram Fd :=
  match rtn with
  | none => do
      Sys.close domSock
      return none
  | some _ => return domSock

/-- {lit}`cl_id_tag_id`; the result is {lit}`dom_sock`.  What the two reads store in
{lit}`cmd_rcv_buf` is not looked at. -/
def clIdTagId (clId : Buffer 37) (derrived : CString) (domSock : Fd) : StreamProgram Fd := do
  let (rtn, domSock) ← connectToIdService domSock
  if rtn = -1 then
    return domSock
  let rtn ← Sys.write domSock clIdTag
  let domSock ← closeOnError rtn domSock
  -- server -> 1 -> client
  let rtn ← Sys.read domSock 4
  let domSock ← closeOnError rtn domSock
  -- server <- uuid <- client
  let rtn ← Sys.write domSock clId.bytes
  let domSock ← closeOnError rtn domSock
  -- server -> 1 -> client
  let rtn ← Sys.read domSock 4
  let domSock ← closeOnError rtn domSock
  -- server <- derrived <- client
  let rtn ← Sys.write domSock derrived.bytes
  let domSock ← closeOnError rtn domSock
  Sys.close domSock
  return none

/-! ## Connecting first -/

/-- A program that opens a socket, connects it, and goes on with
{lit}`exchange fd`; when either fails it stops with {lit}`failed`. -/
def dial {α : Type} (failed : α) (exchange : Nat → StreamProgram α) : StreamProgram α :=
  ask .socket fun
    | none => done failed
    | some fd => ask (.connect (some fd) clIdDomSocket) fun
        | true => exchange fd
        | false => ask (.close (some fd)) fun _ => done failed

theorem connectToIdService_bind {α : Type} (next : Int × Fd → StreamProgram α)
    (failed : α) (hfailed : next (-1, none) = done failed) :
    connectToIdService none >>= next = dial failed fun fd => next (0, some fd) := by
  unfold connectToIdService dial
  simp only [Sys.socket_bind, ask_bind]
  apply ask_congr
  intro answer
  cases answer with
  | none => exact hfailed
  | some fd =>
      simp only [Sys.connect_bind, ask_bind]
      apply ask_congr
      intro connected
      cases connected with
      | true => rfl
      | false => simp [hfailed]

/-- {lit}`get_new_id` after a successful connect. -/
def getExchange (buf : Buffer 1024) (fd : Nat) : StreamProgram NewId := do
  let some _ ← Sys.write (some fd) clIdGet
    | do
      Sys.close (some fd)
      return { ret := -1, id := none, domSock := none }
  let some received ← Sys.read (some fd) 1024
    | do
      Sys.close (some fd)
      return { ret := -1, id := none, domSock := none }
  let id := (buf.store received).front 37 (by decide)
  Sys.close (some fd)
  return { ret := 0, id := some id, domSock := none }

theorem getNewId_eq (buf : Buffer 1024) :
    getNewId buf none = dial { ret := -1, id := none, domSock := none } (getExchange buf) := by
  unfold getNewId getExchange
  exact connectToIdService_bind _ _ rfl

/-- {lit}`cl_id_tag_id` after a successful connect. -/
def tagExchange (clId : Buffer 37) (derrived : CString) (fd : Nat) : StreamProgram Fd := do
  let rtn ← Sys.write (some fd) clIdTag
  let domSock ← closeOnError rtn (some fd)
  let rtn ← Sys.read domSock 4
  let domSock ← closeOnError rtn domSock
  let rtn ← Sys.write domSock clId.bytes
  let domSock ← closeOnError rtn domSock
  let rtn ← Sys.read domSock 4
  let domSock ← closeOnError rtn domSock
  let rtn ← Sys.write domSock derrived.bytes
  let domSock ← closeOnError rtn domSock
  Sys.close domSock
  return none

theorem clIdTagId_eq (clId : Buffer 37) (derrived : CString) :
    clIdTagId clId derrived none = dial none (tagExchange clId derrived) := by
  unfold clIdTagId tagExchange
  exact connectToIdService_bind _ _ rfl

end Client
end Clacks
