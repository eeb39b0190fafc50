import Clacks.Foundation.Program

/-!
# Starting a daemon

Model of {lit}`main`, {lit}`already_running`, {lit}`listen_on_dom_socket` of
{lit}`clacksidd` and of {lit}`main`, {lit}`start_transport` of {lit}`clacksd`, as
programs over the system calls that create, serve and remove the socket.  A call
that fails ends the process where the source calls {lit}`exit` or
{lit}`err_quit`; a loop without an exit is an operation without an answer.

Main results:

- Theorem {lit}`main_disciplined`: a daemon is past its {lit}`bind` only after a
  {lit}`bind` that succeeded.
-/

namespace Clacks
namespace Lifecycle

open Foundation Program

/-- The two daemons. -/
inductive Daemon where
  | clacksidd
  | clacksd
deriving DecidableEq

/-- Calls of a starting daemon.  {lit}`acceptLoop` is the loop of
{lit}`listen_on_dom_socket`, left when {lit}`accept` fails; {lit}`receiveLoop` is
the loop of {lit}`start_transport` and {lit}`sleepLoop` that of {lit}`main`, both
without an exit. -/
inductive Call where
  | daemonize
  | openLockfile
  | createThread
  | stat
  | mkdir
  | socket
  | bind
  | listen
  | acceptLoop
  | receiveLoop
  | sleepLoop
  | close
  | unlink
deriving DecidableEq

/-- Answers: whether a call succeeded, for {lit}`stat` whether it found a
directory. -/
@[reducible]
def Call.Ans : Call → Type
  | daemonize | openLockfile | createThread | stat | socket | bind | listen => Bool
  | mkdir | acceptLoop | close | unlink => Unit
  | receiveLoop | sleepLoop => Empty

/-- Programs of a starting daemon. -/
abbrev StartProgram (α : Type) := Program Call Call.Ans α

/-- The program that makes one call. -/
def call (c : Call) : StartProgram c.Ans :=
  ask c done

/-- {lit}`already_running`; {lit}`none` is {lit}`exit(1)`.  The call of
{lit}`lockfile` is commented out in the source. -/
def alreadyRunning : StartProgram (Option Int) := do
  if ← call .openLockfile then
    return some 0
  else
    return none

/-- {lit}`check_dom_dir`. -/
def checkDomDir : StartProgram Int := do
  if ← call .stat then
    return 1
  call .mkdir
  if ← call .stat then
    return 1
  else
    return -1

/-- The label {lit}`error` of both functions. -/
def closeAndUnlink : StartProgram Unit := do
  call .close
  call .unlink

/-- {lit}`listen_on_dom_socket`. -/
def listenOnDomSocket : StartProgram Int := do
  if (← checkDomDir) = 0 then
    return -1
  if !(← call .socket) then
    return -1
  if !(← call .bind) then
    closeAndUnlink
    return -1
  if !(← call .listen) then
    closeAndUnlink
    return -1
  call .acceptLoop
  closeAndUnlink
  return -1

/-- {lit}`start_transport`. -/
def startTransport : StartProgram Unit := do
  if (← checkDomDir) = 0 then
    return
  if !(← call .socket) then
    return
  if !(← call .bind) then
    closeAndUnlink
    return
  let never ← call .receiveLoop
  nomatch never

/-- {lit}`main` after its arguments were read.  The transport of {lit}`clacksd` has
a thread of its own; the main thread sleeps for ever, also when the transport has
ended or its thread was not created. -/
def main (d : Daemon) : StartProgram Unit := do
  if !(← call .daemonize) then
    return
  -- Ensure we're the only daemon running
  let some running ← alreadyRunning | return
  if running ≠ 0 then
    return
  if !(← call .createThread) then
    return
  match d with
  | .clacksidd =>
      let _ ← listenOnDomSocket
      return
  | .clacksd =>
      if ← call .createThread then
        startTransport
      let never ← call .sleepLoop
      nomatch never

/-! ## Being past the bind -/

/-- The program is past its {lit}`bind` and has not left its loop. -/
def Bound {α : Type} : StartProgram α → Prop
  | .ask .listen _ | .ask .acceptLoop _ | .ask .receiveLoop _ => True
  | _ => False

/-- The program is in the loop in which it serves its socket. -/
def Serving {α : Type} : StartProgram α → Prop
  | .ask .acceptLoop _ | .ask .receiveLoop _ => True
  | _ => False

theorem Serving.bound {α : Type} {p : StartProgram α} (h : Serving p) : Bound p := by
  cases p with
  | done a => exact h
  | ask c k => cases c <;> first | exact h | exact trivial

/-- The call was a {lit}`bind` that succeeded. -/
def BindSucceeded : (c : Call) → c.Ans → Prop
  | .bind, ok => ok = true
  | _, _ => False

/-- At every point of the program, an answer takes it past its {lit}`bind` only when
it was past it already, or when the answer is the success of a {lit}`bind`. -/
def Disciplined {α : Type} : StartProgram α → Prop
  | .done _ => True
  | .ask c k => ∀ answer, (Bound (k answer) → BindSucceeded c answer ∨ Bound (.ask c k)) ∧
      Disciplined (k answer)

/-- A daemon starts before its {lit}`bind` and gets past it only by one that
succeeds. -/
theorem main_disciplined (d : Daemon) : Disciplined (main d) ∧ ¬Bound (main d) := by
  cases d with
  | clacksidd =>
      simp [main, alreadyRunning, listenOnDomSocket, checkDomDir, closeAndUnlink, call,
        Disciplined, Bound, BindSucceeded]
  | clacksd =>
      simp [main, alreadyRunning, startTransport, checkDomDir, closeAndUnlink, call,
        Disciplined, Bound, BindSucceeded]

end Lifecycle
end Clacks
