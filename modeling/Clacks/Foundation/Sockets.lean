import Clacks.Foundation.Memory
import Clacks.Foundation.Program

/-!
# Stream-socket operations

The operations a program performs on connected stream sockets, with their
answers.  A descriptor is {lit}`none` where the C value is {lit}`-1`; an answer
is {lit}`none` where the call returns {lit}`-1`.
-/

namespace Clacks
namespace Foundation

/-- A descriptor; {lit}`none` is the C value {lit}`-1`. -/
abbrev Fd := Option Nat

/-- Operations on stream sockets. -/
inductive StreamOp where
  | socket
  | connect (fd : Fd) (path : List UInt8)
  | read (fd : Fd) (size : Nat)
  | write (fd : Fd) (bytes : List UInt8)
  | close (fd : Fd)
deriving DecidableEq

/-- What each operation answers.  A read delivers at most the requested size and
a write takes at most the offered bytes. -/
@[reducible]
def StreamOp.Ans : StreamOp → Type
  | socket => Fd
  | connect _ _ => Bool
  | read _ size => Option (Chunk size)
  | write _ bytes => Option (Fin (bytes.length + 1))
  | close _ => Unit

/-- Programs over stream sockets. -/
abbrev StreamProgram (α : Type) := Program StreamOp StreamOp.Ans α

/-- One socket operation with its answer. -/
abbrev StreamEvent := Program.Event StreamOp StreamOp.Ans

/-! ## The calls a program makes -/

namespace Sys

open Program

def socket : StreamProgram Fd :=
  ask .socket done

def connect (fd : Fd) (path : List UInt8) : StreamProgram Bool :=
  ask (.connect fd path) done

def read (fd : Fd) (size : Nat) : StreamProgram (Option (Chunk size)) :=
  ask (.read fd size) done

def write (fd : Fd) (bytes : List UInt8) : StreamProgram (Option (Fin (bytes.length + 1))) :=
  ask (.write fd bytes) done

def close (fd : Fd) : StreamProgram Unit :=
  ask (.close fd) done

variable {β : Type}

@[simp]
theorem socket_bind (next : Fd → StreamProgram β) : socket >>= next = ask .socket next :=
  rfl

@[simp]
theorem connect_bind (fd : Fd) (path : List UInt8) (next : Bool → StreamProgram β) :
    connect fd path >>= next = ask (.connect fd path) next :=
  rfl

@[simp]
theorem read_bind (fd : Fd) (size : Nat) (next : Option (Chunk size) → StreamProgram β) :
    read fd size >>= next = ask (.read fd size) next :=
  rfl

@[simp]
theorem write_bind (fd : Fd) (bytes : List UInt8)
    (next : Option (Fin (bytes.length + 1)) → StreamProgram β) :
    write fd bytes >>= next = ask (.write fd bytes) next :=
  rfl

@[simp]
theorem close_bind (fd : Fd) (next : Unit → StreamProgram β) :
    close fd >>= next = ask (.close fd) next :=
  rfl

end Sys

/-- What is left of a program after its first {lit}`socket` call returned {lit}`fd`
and the {lit}`connect` that follows succeeded. -/
def connected {α : Type} (fd : Nat) : StreamProgram α → StreamProgram α
  | .ask .socket k =>
      match k (some fd) with
      | .ask (.connect _ _) k' => k' true
      | p => p
  | p => p

/-! ## Reading a run -/

/-- The C return value of a {lit}`write`. -/
def writeReturn {n : Nat} : Option (Fin n) → Int
  | none => -1
  | some count => count.val

/-- The bytes a run offered to {lit}`write`, call by call. -/
def writesOf (events : List StreamEvent) : List (List UInt8) :=
  events.filterMap fun
    | ⟨.write _ bytes, _⟩ => some bytes
    | _ => none

/-- The bytes a run received from {lit}`read`, call by call; a failed call
receives nothing. -/
def readsOf (events : List StreamEvent) : List (List UInt8) :=
  events.filterMap fun
    | ⟨.read _ _, some chunk⟩ => some chunk.bytes
    | _ => none

end Foundation
end Clacks
