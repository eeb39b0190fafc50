import Clacks.Foundation.Sockets
import Clacks.Foundation.Text
import Clacks.Lifecycle.Startup
import Mathlib.Logic.Function.Basic
import Mathlib.Logic.Relation

/-!
# The file with the process id

Model of {lit}`already_running` down to the file it writes.  With the call of
{lit}`lockfile` commented out, any number of instances truncate the file and write to it
at the same time, each through an open file of its own with its own offset.

Main results:

- Theorem {lit}`alreadyRunning_refines`: the call as the start of a daemon sees it.
- Theorem {lit}`pid_file_readable`: what the file holds at every moment.
-/

namespace Clacks
namespace Lifecycle
namespace PidFile

open Foundation Program

/-! ## The program -/

/-- Calls on the file. -/
inductive PidOp where
  | openLockfile
  | ftruncate (fd : Nat)
  | write (fd : Nat) (bytes : List UInt8)

/-- Their answers. -/
@[reducible]
def PidOp.Ans : PidOp → Type
  | openLockfile => Fd
  | ftruncate _ => Bool
  | write _ bytes => Option (Fin (bytes.length + 1))

/-- Programs over the file. -/
abbrev PidProgram (α : Type) := Program PidOp PidOp.Ans α

/-- The program that makes one call. -/
def pidCall (op : PidOp) : PidProgram op.Ans :=
  ask op done

/-- What {lit}`sprintf(buf, "%ld", (long)getpid())` leaves in {lit}`buf`. -/
def buf (pid : Nat) : List UInt8 :=
  decimal pid ++ [0]

/-- {lit}`already_running`; {lit}`none` is {lit}`exit(1)`.  The results of
{lit}`ftruncate` and {lit}`write` are not looked at. -/
def alreadyRunning (pid : Nat) : PidProgram (Option Int) := do
  let some fd ← pidCall .openLockfile | return none
  let _ ← pidCall (.ftruncate fd)
  -- strlen(buf) + 1: the terminator is written, too
  let _ ← pidCall (.write fd ((buf pid).take ((cstr (buf pid)).length + 1)))
  return some 0

theorem nul_not_mem_decimal (n : Nat) : 0 ∉ decimal n := by
  intro h
  exact absurd (isDigit_of_mem_decimal h).1 (by decide)

/-- The digits and their terminator are written. -/
theorem take_buf (pid : Nat) : (buf pid).take ((cstr (buf pid)).length + 1) = buf pid := by
  rw [buf, cstr_append_nul (nul_not_mem_decimal pid)]
  apply List.take_of_length_le
  simp

/-- The start of a daemon sees of the call whether the file could be opened. -/
theorem alreadyRunning_refines {pid : Nat} {events : List (Event PidOp PidOp.Ans)}
    {r : Option Int} (hrun : (alreadyRunning pid).Runs events r) :
    ∃ opened, Lifecycle.alreadyRunning.Runs [⟨.openLockfile, opened⟩] r := by
  rcases Runs_ask.1 hrun with ⟨fd, rest, rfl, hrest⟩
  cases fd with
  | none =>
      rcases Runs_done.1 hrest with ⟨_, rfl⟩
      exact ⟨false, .ask (.done _)⟩
  | some fd =>
      rcases Runs_ask.1 hrest with ⟨truncated, rest, rfl, hwrite⟩
      rcases Runs_ask.1 hwrite with ⟨count, rest, rfl, hdone⟩
      rcases Runs_done.1 hdone with ⟨_, rfl⟩
      exact ⟨true, .ask (.done _)⟩

/-! ## The file -/

/-- An instance: what is left of its call, and the offset of its open file. -/
structure Instance where
  prog : PidProgram (Option Int)
  offset : Nat

/-- What has happened to the file.  A write that is {lit}`cut` took only {lit}`count` bytes. -/
inductive Change (ι : Type) where
  | truncated (i : ι)
  | written (i : ι)
  | cut (i : ι) (count : Nat)

/-- The file, unless there is none, all instances, and what has happened so far. -/
structure Machine (ι : Type) where
  file : Option (List UInt8)
  inst : ι → Instance
  changes : List (Change ι)

variable {ι : Type}

/-- What a reader finds in the file. -/
def Machine.content (n : Machine ι) : List UInt8 :=
  n.file.getD []

/-- What is in a file after {lit}`bytes` were written at {lit}`offset`; a gap is filled with
zeros. -/
def writeAt (content : List UInt8) (offset : Nat) (bytes : List UInt8) : List UInt8 :=
  (content ++ List.replicate (offset - content.length) 0).take offset ++ bytes ++
    content.drop (offset + bytes.length)

@[simp]
theorem writeAt_zero (content bytes : List UInt8) :
    writeAt content 0 bytes = bytes ++ content.drop bytes.length := by
  simp [writeAt]

/-- The system before any instance has begun its call. -/
def Machine.initial (pid : ι → Nat) (file : Option (List UInt8)) : Machine ι where
  file := file
  inst i := ⟨alreadyRunning (pid i), 0⟩
  changes := []

variable [DecidableEq ι]

/-- Instance {lit}`i` becomes {lit}`s`. -/
def Machine.set (n : Machine ι) (i : ι) (s : Instance) : Machine ι :=
  { n with inst := Function.update n.inst i s }

/-- One call of one instance. -/
inductive Machine.Step (n : Machine ι) : Machine ι → Prop where
  | openLockfile (i : ι) (fd : Nat) {k : Fd → PidProgram (Option Int)}
      (hprog : (n.inst i).prog = .ask .openLockfile k) :
      Step n { n.set i ⟨k (some fd), 0⟩ with file := some (n.file.getD []) }
  | openFails (i : ι) {k : Fd → PidProgram (Option Int)}
      (hprog : (n.inst i).prog = .ask .openLockfile k) :
      Step n (n.set i ⟨k none, (n.inst i).offset⟩)
  | ftruncate (i : ι) {fd : Nat} {k : Bool → PidProgram (Option Int)}
      (hprog : (n.inst i).prog = .ask (.ftruncate fd) k) :
      Step n { n.set i ⟨k true, (n.inst i).offset⟩ with
        file := some []
        changes := n.changes ++ [.truncated i] }
  | ftruncateFails (i : ι) {fd : Nat} {k : Bool → PidProgram (Option Int)}
      (hprog : (n.inst i).prog = .ask (.ftruncate fd) k) :
      Step n (n.set i ⟨k false, (n.inst i).offset⟩)
  | write (i : ι) {fd : Nat} {bytes : List UInt8}
      {k : Option (Fin (bytes.length + 1)) → PidProgram (Option Int)}
      (hprog : (n.inst i).prog = .ask (.write fd bytes) k) :
      Step n { n.set i ⟨k (some (Fin.last _)), (n.inst i).offset + bytes.length⟩ with
        file := some (writeAt n.content (n.inst i).offset bytes)
        changes := n.changes ++ [.written i] }
  | writeCut (i : ι) {fd : Nat} {bytes : List UInt8}
      {k : Option (Fin (bytes.length + 1)) → PidProgram (Option Int)}
      (hprog : (n.inst i).prog = .ask (.write fd bytes) k) (count : Fin bytes.length) :
      Step n { n.set i ⟨k (some count.castSucc), (n.inst i).offset + count⟩ with
        file := some (writeAt n.content (n.inst i).offset (bytes.take count))
        changes := n.changes ++ [.cut i count] }
  | writeFails (i : ι) {fd : Nat} {bytes : List UInt8}
      {k : Option (Fin (bytes.length + 1)) → PidProgram (Option Int)}
      (hprog : (n.inst i).prog = .ask (.write fd bytes) k) :
      Step n (n.set i ⟨k none, (n.inst i).offset⟩)

/-- The states of all interleavings. -/
def Machine.Reachable (pid : ι → Nat) (file : Option (List UInt8)) (n : Machine ι) : Prop :=
  Relation.ReflTransGen Step (initial pid file) n

/-! ## Where an instance stands -/

/-- What is left of a call behind its {lit}`open`. -/
def truncateAndWrite (pid fd : Nat) : PidProgram (Option Int) :=
  .ask (.ftruncate fd) fun _ => .ask (.write fd (buf pid)) fun _ => .done (some 0)

theorem alreadyRunning_eq (pid : Nat) :
    alreadyRunning pid = .ask .openLockfile fun
      | none => .done none
      | some fd => truncateAndWrite pid fd := by
  unfold alreadyRunning truncateAndWrite
  rw [take_buf]
  apply ask_congr
  intro fd
  cases fd with
  | none => rfl
  | some fd => rfl

/-- Where an instance with process id {lit}`pid` stands between two calls.  It writes at
offset 0. -/
inductive At (pid : Nat) : Instance → Prop where
  | opening (offset : Nat) : At pid ⟨alreadyRunning pid, offset⟩
  | truncating (fd : Nat) : At pid ⟨truncateAndWrite pid fd, 0⟩
  | writing (fd : Nat) : At pid ⟨.ask (.write fd (buf pid)) fun _ => .done (some 0), 0⟩
  | returned (offset : Nat) : At pid ⟨.done (some 0), offset⟩
  | exited (offset : Nat) : At pid ⟨.done none, offset⟩

theorem At.openLockfile {pid : Nat} {s : Instance} (h : At pid s)
    {k : Fd → PidProgram (Option Int)} (hprog : s.prog = .ask .openLockfile k) (fd : Fd) :
    At pid ⟨k fd, 0⟩ ∧ (fd = none → ∀ offset, At pid ⟨k fd, offset⟩) := by
  cases h with
  | opening offset =>
      rw [alreadyRunning_eq] at hprog
      cases hprog
      cases fd with
      | none => exact ⟨.exited 0, fun _ offset => .exited offset⟩
      | some fd => exact ⟨.truncating fd, by simp⟩
  | truncating fd => cases hprog
  | writing fd => cases hprog
  | returned offset => cases hprog
  | exited offset => cases hprog

theorem At.ftruncate {pid : Nat} {s : Instance} (h : At pid s) {fd : Nat}
    {k : Bool → PidProgram (Option Int)} (hprog : s.prog = .ask (.ftruncate fd) k) (ok : Bool) :
    At pid ⟨k ok, s.offset⟩ := by
  cases h with
  | opening offset =>
      rw [alreadyRunning_eq] at hprog
      cases hprog
  | truncating fd =>
      cases hprog
      exact .writing fd
  | writing fd => cases hprog
  | returned offset => cases hprog
  | exited offset => cases hprog

/-- What an instance writes is its own process id, at the beginning of the file. -/
theorem At.write {pid : Nat} {s : Instance} (h : At pid s) {fd : Nat} {bytes : List UInt8}
    {k : Option (Fin (bytes.length + 1)) → PidProgram (Option Int)}
    (hprog : s.prog = .ask (.write fd bytes) k) :
    bytes = buf pid ∧ s.offset = 0 ∧ ∀ answer offset, At pid ⟨k answer, offset⟩ := by
  cases h with
  | opening offset =>
      rw [alreadyRunning_eq] at hprog
      cases hprog
  | truncating fd => cases hprog
  | writing fd =>
      cases hprog
      exact ⟨rfl, rfl, fun _ offset => .returned offset⟩
  | returned offset => cases hprog
  | exited offset => cases hprog

/-! ## What the file holds -/

/-- What the last change left at the beginning of the file. -/
def Machine.Shows (pid : ι → Nat) (file : Option (List UInt8)) (n : Machine ι) : Prop :=
  match n.changes.getLast? with
  | none => n.content = file.getD []
  | some (.truncated _) => n.content = []
  | some (.written i) => ∃ rest, n.content = buf (pid i) ++ rest
  | some (.cut i count) => ∃ rest, n.content = (buf (pid i)).take count ++ rest

/-- The invariant of all interleavings. -/
structure Machine.Invariant (pid : ι → Nat) (file : Option (List UInt8)) (n : Machine ι) :
    Prop where
  stands : ∀ i, At (pid i) (n.inst i)
  shows : n.Shows pid file

section Steps

variable {pid : ι → Nat} {file : Option (List UInt8)} {n n' : Machine ι}

theorem Machine.Invariant.stands_set (h : n.Invariant pid file) {i : ι} {s : Instance}
    (hs : At (pid i) s) (j : ι) : At (pid j) ((n.set i s).inst j) := by
  by_cases hji : j = i
  · subst hji
    simpa [Machine.set] using hs
  · simpa [Machine.set, hji] using h.stands j

/-- Every call of every instance keeps the invariant. -/
theorem Machine.Invariant.step (h : n.Invariant pid file) (hstep : n.Step n') :
    n'.Invariant pid file := by
  have hshows := h.shows
  cases hstep with
  | openLockfile i fd hprog =>
      exact ⟨h.stands_set ((h.stands i).openLockfile hprog (some fd)).1, hshows⟩
  | openFails i hprog =>
      exact ⟨h.stands_set (((h.stands i).openLockfile hprog none).2 rfl _), hshows⟩
  | ftruncate i hprog =>
      refine ⟨h.stands_set ((h.stands i).ftruncate hprog true), ?_⟩
      simp [Machine.Shows, Machine.content]
  | ftruncateFails i hprog =>
      exact ⟨h.stands_set ((h.stands i).ftruncate hprog false), hshows⟩
  | write i hprog =>
      rcases (h.stands i).write hprog with ⟨hbytes, hoffset, hnext⟩
      refine ⟨h.stands_set (hnext _ _), ?_⟩
      simp [Machine.Shows, Machine.content, hoffset, hbytes]
  | writeCut i hprog count =>
      rcases (h.stands i).write hprog with ⟨hbytes, hoffset, hnext⟩
      refine ⟨h.stands_set (hnext _ _), ?_⟩
      simp [Machine.Shows, Machine.content, hoffset, hbytes]
  | writeFails i hprog =>
      rcases (h.stands i).write hprog with ⟨_, _, hnext⟩
      exact ⟨h.stands_set (hnext _ _), hshows⟩

theorem Machine.Reachable.invariant (h : n.Reachable pid file) : n.Invariant pid file := by
  induction h with
  | refl => exact ⟨fun i => .opening 0, rfl⟩
  | tail _ hstep ih => exact ih.step hstep

/-- At every moment of every interleaving of any number of instances, whatever fails, the
file shows what changed it last: nothing behind a truncation, and behind a write the
process id of the instance that wrote, when it is read as a string.  Behind a write that was
cut it begins with the bytes that were taken, and without a change it is what it was.  No
instance ever finds that another one is running. -/
theorem pid_file_readable (h : n.Reachable pid file) :
    (n.changes = [] → n.content = file.getD []) ∧
      (∀ before i, n.changes = before ++ [.truncated i] → n.content = []) ∧
      (∀ before i, n.changes = before ++ [.written i] → cstr n.content = decimal (pid i)) ∧
      (∀ before i count, n.changes = before ++ [.cut i count] →
        (buf (pid i)).take count <+: n.content) ∧
      ∀ i r, (n.inst i).prog = .done r → r = some 0 ∨ r = none := by
  have hshows := h.invariant.shows
  refine ⟨?_, ?_, ?_, ?_, ?_⟩
  · intro hchanges
    simpa [Machine.Shows, hchanges] using hshows
  · intro before i hchanges
    simpa [Machine.Shows, hchanges] using hshows
  · intro before i hchanges
    have hwritten : ∃ rest, n.content = buf (pid i) ++ rest := by
      simpa [Machine.Shows, hchanges] using hshows
    rcases hwritten with ⟨rest, hrest⟩
    rw [hrest, buf, List.append_assoc, List.singleton_append]
    exact cstr_append_nul (nul_not_mem_decimal (pid i)) rest
  · intro before i count hchanges
    have hcut : ∃ rest, n.content = (buf (pid i)).take count ++ rest := by
      simpa [Machine.Shows, hchanges] using hshows
    rcases hcut with ⟨rest, hrest⟩
    rw [hrest]
    exact List.prefix_append _ rest
  · intro i r hdone
    have hat := h.invariant.stands i
    generalize n.inst i = s at hat hdone
    cases hat with
    | opening offset =>
        rw [alreadyRunning_eq] at hdone
        cases hdone
    | truncating fd => cases hdone
    | writing fd => cases hdone
    | returned offset =>
        cases hdone
        exact .inl rfl
    | exited offset =>
        cases hdone
        exact .inr rfl

end Steps

/-! ## Two instances -/

/-- The process ids of two instances. -/
def twoPids (second : Bool) : Nat :=
  if second then 7 else 12345

/-- Both truncate the file before one of them writes.  The longer id is left behind the
shorter one, where no reader of strings finds it. -/
theorem pid_file_readable_leftover : ∃ n : Machine Bool, n.Reachable twoPids none ∧
    n.content = ascii "7" ++ 0 :: ascii "345" ++ [0] ∧ cstr n.content = decimal 7 := by
  have hsteps : ∃ n : Machine Bool, n.Reachable twoPids none ∧
      n.changes = [.truncated false, .truncated true, .written false] ++ [.written true] ∧
      n.content = ascii "7" ++ 0 :: ascii "345" ++ [0] := by
    have hopen : Machine.Reachable twoPids none _ :=
      (Relation.ReflTransGen.single (.openLockfile false 3 rfl)).tail (.openLockfile true 3 rfl)
    have htruncate := (hopen.tail (.ftruncate false rfl)).tail (.ftruncate true rfl)
    exact ⟨_, (htruncate.tail (.write false rfl)).tail (.write true rfl), rfl, rfl⟩
  rcases hsteps with ⟨n, hreachable, hchanges, hcontent⟩
  exact ⟨n, hreachable, hcontent, (pid_file_readable hreachable).2.2.1 _ _ hchanges⟩

end PidFile
end Lifecycle
end Clacks
