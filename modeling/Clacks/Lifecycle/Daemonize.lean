import Clacks.Foundation.Memory
import Clacks.Foundation.Sockets
import Mathlib.Logic.Function.Basic

/-!
# Becoming a daemon

Model of {lit}`daemonize`, which both daemons share, as a program over the system calls
that change a process, and of what these do to its descriptors, directory and session.
A {lit}`fork` that succeeds goes on twice, in the parent and in the child.

Main results:

- Theorem {lit}`daemonize_detached`: which processes come out of the call, and what has
  become of the one that returns.
-/

namespace Clacks
namespace Lifecycle

open Foundation Program

/-! ## The program -/

/-- Calls of {lit}`daemonize`. -/
inductive ProcessOp where
  | getrlimit
  | fork
  | umask
  | setsid
  | ignoreHangup
  | chdir
  | close (fd : Nat)
  | openNull
  | dup (fd : Nat)
deriving DecidableEq

/-- The result of {lit}`fork`. -/
inductive Forked where
  | failed
  | parent
  | child

/-- Answers: whether a call succeeded, or its result. -/
@[reducible]
def ProcessOp.Ans : ProcessOp → Type
  | getrlimit | setsid | ignoreHangup | chdir => Bool
  | fork => Forked
  | umask | close _ => Unit
  | openNull | dup _ => Fd

/-- Programs over these calls. -/
abbrev ProcessProgram (α : Type) := Program ProcessOp ProcessOp.Ans α

/-- The program that makes one call. -/
def processCall (op : ProcessOp) : ProcessProgram op.Ans :=
  ask op done

/-- How a call of {lit}`daemonize` ends; {lit}`err_quit` exits with status 1. -/
inductive Outcome where
  | returned
  | exited (status : Nat)
deriving DecidableEq

/-- {lit}`daemonize`.  The loop that would close all descriptors is commented out. -/
def daemonize : ProcessProgram Outcome := do
  if !(← processCall .getrlimit) then
    return .exited 1
  match ← processCall .fork with
  | .failed => return .exited 1
  | .parent => return .exited 0
  | .child =>
      let _ ← processCall .umask
      let _ ← processCall .setsid
      if !(← processCall .ignoreHangup) then
        return .exited 1
      match ← processCall .fork with
      | .failed => return .exited 1
      | .parent => return .exited 0
      | .child =>
          if !(← processCall .chdir) then
            return .exited 1
          let _ ← processCall (.close 0)
          let _ ← processCall (.close 1)
          let _ ← processCall (.close 2)
          let fd0 ← processCall .openNull
          let fd1 ← processCall (.dup 0)
          let fd2 ← processCall (.dup 0)
          if fd0 ≠ some 0 ∨ fd1 ≠ some 1 ∨ fd2 ≠ some 2 then
            return .exited 1
          else
            return .returned

/-! ## Processes -/

/-- What {lit}`daemonize` changes of a process; {lit}`φ` are the open files. -/
structure Process (φ : Type) where
  fds : Nat → Option φ
  cwd : List UInt8
  mask : Nat
  groupLeader : Bool
  sessionLeader : Bool
  terminal : Bool
  hangupIgnored : Bool

variable {φ : Type}

/-- The child of a {lit}`fork` leads nothing. -/
def Process.child (p : Process φ) : Process φ :=
  { p with groupLeader := false, sessionLeader := false }

/-- The process leads a session of its own that has no terminal. -/
def Process.newSession (p : Process φ) : Process φ :=
  { p with groupLeader := true, sessionLeader := true, terminal := false }

/-- Descriptor {lit}`fd` leads to {lit}`file`. -/
def Process.setFd (p : Process φ) (fd : Nat) (file : Option φ) : Process φ :=
  { p with fds := Function.update p.fds fd file }

/-- The lowest descriptor that is not in use. -/
def Process.Lowest (p : Process φ) (fd : Nat) : Prop :=
  p.fds fd = none ∧ ∀ fd' < fd, p.fds fd' ≠ none

/-- What a call other than {lit}`fork` does.  Calls fail only when {lit}`faulty`, except
that {lit}`setsid` fails for the leader of a process group. -/
inductive Kernel (faulty : Prop) (devNull : φ) (p : Process φ) :
    (op : ProcessOp) → op.Ans → Process φ → Prop where
  | getrlimit : Kernel faulty devNull p .getrlimit true p
  | umask : Kernel faulty devNull p .umask () { p with mask := 0 }
  | setsid (hleader : p.groupLeader = false) :
      Kernel faulty devNull p .setsid true p.newSession
  | setsidFails (hleader : p.groupLeader = true) : Kernel faulty devNull p .setsid false p
  | ignoreHangup : Kernel faulty devNull p .ignoreHangup true { p with hangupIgnored := true }
  | chdir : Kernel faulty devNull p .chdir true { p with cwd := ascii "/" }
  | close (fd : Nat) : Kernel faulty devNull p (.close fd) () (p.setFd fd none)
  | openNull {fd : Nat} (hfd : p.Lowest fd) :
      Kernel faulty devNull p .openNull (some fd) (p.setFd fd (some devNull))
  | dup {old fd : Nat} {file : φ} (hold : p.fds old = some file) (hfd : p.Lowest fd) :
      Kernel faulty devNull p (.dup old) (some fd) (p.setFd fd (some file))
  | dupClosed {old : Nat} (hold : p.fds old = none) : Kernel faulty devNull p (.dup old) none p
  | getrlimitFails (hfaulty : faulty) : Kernel faulty devNull p .getrlimit false p
  | ignoreHangupFails (hfaulty : faulty) : Kernel faulty devNull p .ignoreHangup false p
  | chdirFails (hfaulty : faulty) : Kernel faulty devNull p .chdir false p
  | openNullFails (hfaulty : faulty) : Kernel faulty devNull p .openNull none p
  | dupFails {old : Nat} (hfaulty : faulty) : Kernel faulty devNull p (.dup old) none p

/-- All processes a program leads to, with the way each of them ended. -/
inductive Leads (faulty : Prop) (devNull : φ) :
    ProcessProgram Outcome → Process φ → List (Outcome × Process φ) → Prop where
  | done (r : Outcome) (p : Process φ) : Leads faulty devNull (.done r) p [(r, p)]
  | call {op : ProcessOp} {k : op.Ans → ProcessProgram Outcome} {p p' : Process φ}
      {answer : op.Ans} {ends : List (Outcome × Process φ)}
      (hcall : Kernel faulty devNull p op answer p')
      (hrest : Leads faulty devNull (k answer) p' ends) :
      Leads faulty devNull (.ask op k) p ends
  | fork {k : Forked → ProcessProgram Outcome} {p : Process φ}
      {ends ends' : List (Outcome × Process φ)} (hparent : Leads faulty devNull (k .parent) p ends)
      (hchild : Leads faulty devNull (k .child) p.child ends') :
      Leads faulty devNull (.ask .fork k) p (ends ++ ends')
  | forkFails {k : Forked → ProcessProgram Outcome} {p : Process φ}
      {ends : List (Outcome × Process φ)} (hfaulty : faulty)
      (hrest : Leads faulty devNull (k .failed) p ends) :
      Leads faulty devNull (.ask .fork k) p ends

section Inversion

variable {faulty : Prop} {devNull : φ} {p p' : Process φ} {ends : List (Outcome × Process φ)}

theorem Leads.done_inv {r : Outcome} (h : Leads faulty devNull (.done r) p ends) :
    ends = [(r, p)] := by
  cases h with
  | done => rfl

theorem Leads.call_inv {op : ProcessOp} {k : op.Ans → ProcessProgram Outcome}
    (h : Leads faulty devNull (.ask op k) p ends) (hop : op ≠ .fork) :
    ∃ answer p', Kernel faulty devNull p op answer p' ∧
      Leads faulty devNull (k answer) p' ends := by
  cases h with
  | call hcall hrest => exact ⟨_, _, hcall, hrest⟩
  | fork => exact absurd rfl hop
  | forkFails => exact absurd rfl hop

theorem Kernel.getrlimit_inv {ok : Bool} (h : Kernel faulty devNull p .getrlimit ok p') :
    (faulty ∧ ok = false) ∨ (ok = true ∧ p = p') := by
  cases h with
  | getrlimit => exact .inr ⟨rfl, rfl⟩
  | getrlimitFails hfaulty => exact .inl ⟨hfaulty, rfl⟩

theorem Kernel.setsid_inv {ok : Bool} (h : Kernel faulty devNull p .setsid ok p')
    (hleader : p.groupLeader = false) : p' = p.newSession := by
  cases h with
  | setsid => rfl
  | setsidFails hgroup =>
      rw [hleader] at hgroup
      cases hgroup

theorem Kernel.ignoreHangup_inv {ok : Bool} (h : Kernel faulty devNull p .ignoreHangup ok p') :
    (faulty ∧ ok = false) ∨ (ok = true ∧ p' = { p with hangupIgnored := true }) := by
  cases h with
  | ignoreHangup => exact .inr ⟨rfl, rfl⟩
  | ignoreHangupFails hfaulty => exact .inl ⟨hfaulty, rfl⟩

theorem Kernel.chdir_inv {ok : Bool} (h : Kernel faulty devNull p .chdir ok p') :
    (faulty ∧ ok = false) ∨ (ok = true ∧ p' = { p with cwd := ascii "/" }) := by
  cases h with
  | chdir => exact .inr ⟨rfl, rfl⟩
  | chdirFails hfaulty => exact .inl ⟨hfaulty, rfl⟩

theorem Leads.fork_inv {k : Forked → ProcessProgram Outcome}
    (h : Leads faulty devNull (.ask .fork k) p ends) :
    (faulty ∧ Leads faulty devNull (k .failed) p ends) ∨
      ∃ parents children, ends = parents ++ children ∧
        Leads faulty devNull (k .parent) p parents ∧
        Leads faulty devNull (k .child) p.child children := by
  cases h with
  | call hcall => cases hcall
  | fork hparent hchild => exact .inr ⟨_, _, rfl, hparent, hchild⟩
  | forkFails hfaulty hrest => exact .inl ⟨hfaulty, hrest⟩

end Inversion

/-- What comes out of a program that forks {lit}`n` times: one parent for each
{lit}`fork`, which exits with status 0, and a last process that returns as {lit}`result`
says; a failure ends the last process with status 1. -/
inductive Ends (faulty : Prop) (result : Process φ → Prop) :
    Nat → List (Outcome × Process φ) → Prop where
  | returned {p : Process φ} (hresult : result p) : Ends faulty result 0 [(.returned, p)]
  | failed {n : Nat} {p : Process φ} (hfaulty : faulty) :
      Ends faulty result n [(.exited 1, p)]
  | forked {n : Nat} {p : Process φ} {ends : List (Outcome × Process φ)}
      (hchild : Ends faulty result n ends) :
      Ends faulty result (n + 1) ((.exited 0, p) :: ends)

section Ends

variable {faulty : Prop} {result result' : Process φ → Prop} {n : Nat}
  {ends : List (Outcome × Process φ)}

theorem Ends.mono (h : Ends faulty result n ends) (hresult : ∀ p, result p → result' p) :
    Ends faulty result' n ends := by
  induction h with
  | returned hp => exact .returned (hresult _ hp)
  | failed hfaulty => exact .failed hfaulty
  | forked _ ih => exact .forked ih

/-- All but the last process exit with status 0. -/
theorem Ends.split (h : Ends faulty result n ends) :
    ∃ parents last, ends = parents ++ [last] ∧ parents.length ≤ n ∧
      (∀ e ∈ parents, e.1 = .exited 0) ∧
      (last.1 = .exited 1 ∨ last.1 = .returned ∧ result last.2) := by
  induction h with
  | returned hp => exact ⟨[], _, rfl, Nat.le_refl 0, by simp, .inr ⟨rfl, hp⟩⟩
  | failed _ => exact ⟨[], _, rfl, Nat.zero_le _, by simp, .inl rfl⟩
  | @forked n p _ _ ih =>
      rcases ih with ⟨parents, last, rfl, hlength, hparents, hlast⟩
      refine ⟨(.exited 0, p) :: parents, last, rfl, ?_, ?_, hlast⟩
      · simpa using hlength
      · rw [List.forall_mem_cons]
        exact ⟨rfl, hparents⟩

/-- Without a failure all parents are there, and the last process returns. -/
theorem Ends.outcomes (h : Ends faulty result n ends) (hgood : ¬faulty) :
    ends.map Prod.fst = List.replicate n (.exited 0) ++ [.returned] := by
  induction h with
  | returned _ => rfl
  | failed hfaulty => exact absurd hfaulty hgood
  | forked _ ih => rw [List.map_cons, ih, List.replicate_succ, List.cons_append]

end Ends

/-! ## The standard descriptors -/

/-- What is left of {lit}`daemonize` behind its {lit}`chdir`. -/
def redirect : ProcessProgram Outcome := do
  let _ ← processCall (.close 0)
  let _ ← processCall (.close 1)
  let _ ← processCall (.close 2)
  let fd0 ← processCall .openNull
  let fd1 ← processCall (.dup 0)
  let fd2 ← processCall (.dup 0)
  if fd0 ≠ some 0 ∨ fd1 ≠ some 1 ∨ fd2 ≠ some 2 then
    return .exited 1
  else
    return .returned

/-- The descriptors below {lit}`n` lead to {lit}`file`, the others up to 2 are closed, and
nothing else is different from {lit}`p`. -/
def Process.standard (p : Process φ) (file : φ) (n : Nat) : Process φ :=
  { p with fds := fun fd => if fd < n then some file else if fd < 3 then none else p.fds fd }

section Redirect

variable {faulty : Prop} {devNull : φ} {p p' : Process φ} {ends : List (Outcome × Process φ)}

theorem Process.standard_closed (p : Process φ) (file : φ) :
    ((p.setFd 0 none).setFd 1 none).setFd 2 none = p.standard file 0 := by
  unfold Process.standard Process.setFd
  congr 1
  ext fd : 1
  rcases fd with _ | _ | _ | fd
  · simp
  · simp
  · simp
  · have hge : ¬fd + 1 + 1 + 1 < 3 := by omega
    simp [hge]

theorem Process.standard_setFd (p : Process φ) (file : φ) (n : Nat) :
    (p.standard file n).setFd n (some file) = p.standard file (n + 1) := by
  unfold Process.standard Process.setFd
  congr 1
  ext fd : 1
  rw [Function.update_apply]
  split
  · simp [*]
  · have hlt : fd < n + 1 ↔ fd < n := by omega
    simp [hlt]

/-- The next descriptor is the lowest that is not in use. -/
theorem Process.standard_lowest {file : φ} {n fd : Nat} (hn : n < 3)
    (h : (p.standard file n).Lowest fd) : fd = n := by
  rcases h with ⟨hfree, hbelow⟩
  have hge : ¬fd < n := by
    intro hlt
    simp [Process.standard, hlt] at hfree
  have hle : ¬n < fd := by
    intro hlt
    have hclosed := hbelow n hlt
    simp [Process.standard, hn] at hclosed
  omega

theorem Kernel.openNull_inv {answer : Fd}
    (h : Kernel faulty devNull (p.standard devNull 0) .openNull answer p') :
    (answer = some 0 ∧ p' = p.standard devNull 1) ∨ (faulty ∧ answer = none) := by
  cases h with
  | openNull hfd =>
      have hzero := Process.standard_lowest (by decide) hfd
      subst hzero
      exact .inl ⟨rfl, Process.standard_setFd p devNull 0⟩
  | openNullFails hfaulty => exact .inr ⟨hfaulty, rfl⟩

theorem Kernel.dup_inv {n : Nat} (hpos : 0 < n) (hn : n < 3) {answer : Fd}
    (h : Kernel faulty devNull (p.standard devNull n) (.dup 0) answer p') :
    (answer = some n ∧ p' = p.standard devNull (n + 1)) ∨ (faulty ∧ answer = none) := by
  have hzero : (p.standard devNull n).fds 0 = some devNull := by
    simp [Process.standard, hpos]
  cases h with
  | dup hold hfd =>
      rw [hzero] at hold
      cases hold
      have hnext := Process.standard_lowest hn hfd
      subst hnext
      exact .inl ⟨rfl, Process.standard_setFd p devNull _⟩
  | dupClosed hold =>
      rw [hzero] at hold
      cases hold
  | dupFails hfaulty => exact .inr ⟨hfaulty, rfl⟩

/-- The end of the call returns with three descriptors on the null device. -/
theorem redirect_ends (h : Leads faulty devNull redirect p ends) :
    Ends faulty (· = p.standard devNull 3) 0 ends := by
  rcases h.call_inv (by decide) with ⟨_, _, hclose, h⟩
  cases hclose
  rcases h.call_inv (by decide) with ⟨_, _, hclose, h⟩
  cases hclose
  rcases h.call_inv (by decide) with ⟨_, _, hclose, h⟩
  cases hclose
  rw [Process.standard_closed p devNull] at h
  rcases h.call_inv (by decide) with ⟨fd0, p0, hopen, h⟩
  rcases h.call_inv (by decide) with ⟨fd1, p1, hdup1, h⟩
  rcases h.call_inv (by decide) with ⟨fd2, p2, hdup2, h⟩
  rcases hopen.openNull_inv with ⟨rfl, rfl⟩ | ⟨hfaulty, rfl⟩
  · rcases hdup1.dup_inv (by decide) (by decide) with ⟨rfl, rfl⟩ | ⟨hfaulty, rfl⟩
    · rcases hdup2.dup_inv (by decide) (by decide) with ⟨rfl, rfl⟩ | ⟨hfaulty, rfl⟩
      · rw [h.done_inv]
        exact .returned rfl
      · rw [h.done_inv]
        exact .failed hfaulty
    · rw [h.done_inv]
      exact .failed hfaulty
  · rw [h.done_inv]
    exact .failed hfaulty

end Redirect

/-! ## The whole call -/

/-- {lit}`p` is what became of {lit}`before` when it was detached from its terminal: the
descriptors above 2 are the inherited ones. -/
structure Process.Detached (devNull : φ) (before p : Process φ) : Prop where
  standard : ∀ fd < 3, p.fds fd = some devNull
  inherited : ∀ fd, 3 ≤ fd → p.fds fd = before.fds fd
  cwd : p.cwd = ascii "/"
  mask : p.mask = 0
  sessionLeader : p.sessionLeader = false
  terminal : p.terminal = false
  hangupIgnored : p.hangupIgnored = true

section Whole

variable {faulty : Prop} {devNull : φ} {p : Process φ} {ends : List (Outcome × Process φ)}

/-- Every step of the call on the way to its end. -/
theorem daemonize_ends (h : Leads faulty devNull daemonize p ends) :
    Ends faulty (p.Detached devNull) 2 ends := by
  rcases h.call_inv (by decide) with ⟨_, _, hcall, h⟩
  rcases hcall.getrlimit_inv with ⟨hfaulty, rfl⟩ | ⟨rfl, rfl⟩
  · rw [h.done_inv]
    exact .failed hfaulty
  rcases h.fork_inv with ⟨hfaulty, h⟩ | ⟨_, _, rfl, hparent, h⟩
  · rw [h.done_inv]
    exact .failed hfaulty
  rw [hparent.done_inv]
  apply Ends.forked
  rcases h.call_inv (by decide) with ⟨_, _, hcall, h⟩
  cases hcall
  rcases h.call_inv (by decide) with ⟨_, _, hcall, h⟩
  -- The child leads no process group, so it gets a session.
  rcases hcall.setsid_inv rfl with rfl
  rcases h.call_inv (by decide) with ⟨_, _, hcall, h⟩
  rcases hcall.ignoreHangup_inv with ⟨hfaulty, rfl⟩ | ⟨rfl, rfl⟩
  · rw [h.done_inv]
    exact .failed hfaulty
  rcases h.fork_inv with ⟨hfaulty, h⟩ | ⟨_, _, rfl, hparent, h⟩
  · rw [h.done_inv]
    exact .failed hfaulty
  rw [hparent.done_inv]
  apply Ends.forked
  rcases h.call_inv (by decide) with ⟨_, _, hcall, h⟩
  rcases hcall.chdir_inv with ⟨hfaulty, rfl⟩ | ⟨rfl, rfl⟩
  · rw [h.done_inv]
    exact .failed hfaulty
  have hends : Leads faulty devNull redirect _ _ := h
  apply (redirect_ends hends).mono
  rintro _ rfl
  constructor
  · intro fd hfd
    simp [Process.standard, hfd]
  · intro fd hge
    simp [Process.standard, Nat.not_lt.2 hge, Process.child, Process.newSession]
  · rfl
  · rfl
  · rfl
  · rfl
  · rfl

/-- What comes out of the call, whatever fails: at most two parents that exit with status
0, and one process that exits with status 1 or returns detached.  That one has left its
terminal and, as it leads no session, gets no other; it works in the root directory, and
has the null device for its standard descriptors and all others as inherited.  When no
call fails, both parents exit and it returns. -/
theorem daemonize_detached (h : Leads faulty devNull daemonize p ends) :
    (∃ parents last, ends = parents ++ [last] ∧ parents.length ≤ 2 ∧
      (∀ e ∈ parents, e.1 = .exited 0) ∧
      (last.1 = .exited 1 ∨ last.1 = .returned ∧ p.Detached devNull last.2)) ∧
    (¬faulty → ends.map Prod.fst = [.exited 0, .exited 0, .returned]) := by
  constructor
  · exact (daemonize_ends h).split
  · exact (daemonize_ends h).outcomes

end Whole

/-! ## A daemon from a shell -/

theorem Process.standard_self_lowest (p : Process φ) (file : φ) {n : Nat} (hn : n < 3) :
    (p.standard file n).Lowest n := by
  constructor
  · simp [Process.standard, hn]
  · intro fd hfd
    simp [Process.standard, hfd]

/-- The standard descriptors can be led to the null device. -/
theorem leads_redirect {faulty : Prop} (devNull : φ) (p : Process φ) :
    Leads faulty devNull redirect p [(.returned, p.standard devNull 3)] := by
  have hdup : ∀ n, 0 < n → n < 3 → Kernel faulty devNull (p.standard devNull n) (.dup 0)
      (some n) (p.standard devNull (n + 1)) := by
    intro n hpos hn
    rw [← Process.standard_setFd]
    apply Kernel.dup
    · simp [Process.standard, hpos]
    · exact p.standard_self_lowest devNull hn
  have hopen : Kernel faulty devNull (p.standard devNull 0) .openNull (some 0)
      (p.standard devNull 1) := by
    rw [← Process.standard_setFd]
    exact .openNull (p.standard_self_lowest devNull (by decide))
  apply Leads.call (.close 0)
  apply Leads.call (.close 1)
  apply Leads.call (.close 2)
  rw [Process.standard_closed p devNull]
  apply Leads.call hopen
  apply Leads.call (hdup 1 (by decide) (by decide))
  apply Leads.call (hdup 2 (by decide) (by decide))
  exact .done _ _

/-- A process with five open files in a shell's session. -/
def shellJob : Process Nat where
  fds fd := if fd < 5 then some fd else none
  cwd := ascii "/root"
  mask := 18
  groupLeader := true
  sessionLeader := false
  terminal := true
  hangupIgnored := false

/-- It becomes a daemon that keeps the files behind the standard ones. -/
theorem daemonize_detached_shell : ∃ ends : List (Outcome × Process Nat),
    Leads False 100 daemonize shellJob ends ∧
      ends.map Prod.fst = [.exited 0, .exited 0, .returned] := by
  have hleads : ∃ ends, Leads False 100 daemonize shellJob ends := by
    constructor
    apply Leads.call .getrlimit
    apply Leads.fork (.done _ _)
    apply Leads.call .umask
    apply Leads.call (.setsid rfl)
    apply Leads.call .ignoreHangup
    apply Leads.fork (.done _ _)
    apply Leads.call .chdir
    exact leads_redirect 100 _
  rcases hleads with ⟨ends, hends⟩
  exact ⟨ends, hends, (daemonize_detached hends).2 (fun h => h)⟩

end Lifecycle
end Clacks
