import Clacks.Identifier.Network
import Mathlib.Data.DFinsupp.WellFounded

/-!
# Interleavings of the service

A run of the network with the log of its {lit}`accept` steps, in which clients the service took
and what memory each of their connections met.  With finitely many clients every run comes to
an end, whatever the scheduler does: each step takes a connection to its next phase or one of
the two programs on it forward.

Main results:

- Theorem {lit}`reachable_iff_acceptedIn`: every interleaving has a log.
- Theorem {lit}`step_wf`: there is no endless interleaving.
- Theorem {lit}`exists_stuck`: every interleaving can be taken to its end.
-/

namespace Clacks
namespace Identifier

open Foundation Program LockStep Client

/-! ## The accept log -/

variable {ι : Type}

/-- The service accepts the connection of a client, which meets the given memory. -/
def Net.Accept [DecidableEq ι] (lib : Libuuid) (n : Net ι) (x : ι × Frame) (n' : Net ι) : Prop :=
  (∃ rest, n.backlog = x.1 :: rest) ∧ (∀ j, n.phase j ≠ .accepted) ∧ ∃ sockMsg,
    n' = { n.set x.1 .accepted
        ((n.link x.1).attach (serverProgram lib x.2 sockMsg n.service)) with
      backlog := n.backlog.tail }

/-- A run with the clients it accepts, each with the memory that its connection meets.  A
step that accepts nobody brings no connection into the phase {lit}`accepted`. -/
inductive Net.Accepts [DecidableEq ι] (lib : Libuuid) (n : Net ι) :
    List (ι × Frame) → Net ι → Prop where
  | refl : Accepts lib n [] n
  | accept {log : List (ι × Frame)} {x : ι × Frame} {n' n'' : Net ι} :
      Accepts lib n log n' → n'.Accept lib x n'' → Accepts lib n (log ++ [x]) n''
  | other {log : List (ι × Frame)} {n' n'' : Net ι} :
      Accepts lib n log n' → n'.Step lib n'' →
      (∀ j, n''.phase j = .accepted → n'.phase j = .accepted) → Accepts lib n log n''

/-- The state is reached in a run that has accepted exactly the clients of {lit}`order`, in
this order. -/
def Net.AcceptedIn [DecidableEq ι] (lib : Libuuid) (calls : ι → Call) (start : Service) (n : Net ι)
    (order : List (ι × Frame)) : Prop :=
  (Net.initial calls start).Accepts lib order n

section Accepts

variable [DecidableEq ι] {lib : Libuuid} {calls : ι → Call} {start : Service}
  {n n' n'' : Net ι} {log later : List (ι × Frame)}

theorem Net.Accept.step {x : ι × Frame} (h : n.Accept lib x n') : n.Step lib n' := by
  rcases h with ⟨⟨rest, hbacklog⟩, hidle, sockMsg, rfl⟩
  rw [hbacklog, List.tail_cons]
  exact .accept x.1 x.2 sockMsg hbacklog hidle

/-- A step accepts a client, or brings nobody into the phase. -/
theorem Net.Step.accept_or (h : n.Step lib n') :
    (∃ x, n.Accept lib x n') ∨ ∀ j, n'.phase j = .accepted → n.phase j = .accepted := by
  have hset : ∀ (i : ι) (phase : Phase) (l : Link (Option Service)),
      (phase = .accepted → n.phase i = .accepted) →
        ∀ j, (n.set i phase l).phase j = .accepted → n.phase j = .accepted := by
    intro i phase l hphase j hj
    by_cases hji : j = i
    · subst hji
      simp only [Net.set, Function.update_self] at hj
      exact hphase hj
    · simpa [Net.set, hji] using hj
  cases h with
  | socket i fd hphase hprog => exact .inr (hset i .opened _ (by simp))
  | @connect i fd path k hphase hprog hroom =>
      exact .inr (hset i .pending (Link.fresh (k true) (.done none)) (by simp))
  | client i hphase hmove => exact .inr (hset i (n.phase i) _ id)
  | @accept i rest frame sockMsg hbacklog hidle =>
      refine .inl ⟨(i, frame), ⟨rest, hbacklog⟩, hidle, sockMsg, ?_⟩
      rw [hbacklog, List.tail_cons]
  | server i hphase hmove => exact .inr (hset i .accepted _ fun _ => hphase)
  | next i hphase hdone => exact .inr (hset i .served (n.link i) (by simp))

theorem Net.Accepts.steps (h : n.Accepts lib log n') :
    Relation.ReflTransGen (Net.Step lib) n n' := by
  induction h with
  | refl => exact .refl
  | accept _ haccept ih => exact ih.tail haccept.step
  | other _ hstep _ ih => exact ih.tail hstep

theorem Net.Accepts.trans (h : n.Accepts lib log n') (h' : n'.Accepts lib later n'') :
    n.Accepts lib (log ++ later) n'' := by
  induction h' with
  | refl =>
      rw [List.append_nil]
      exact h
  | accept _ haccept ih =>
      rw [← List.append_assoc]
      exact ih.accept haccept
  | other _ hstep hsame ih => exact ih.other hstep hsame

/-- Every run has a log. -/
theorem Net.exists_accepts (h : Relation.ReflTransGen (Net.Step lib) n n') :
    ∃ log, n.Accepts lib log n' := by
  induction h with
  | refl => exact ⟨[], .refl⟩
  | tail _ hstep ih =>
      rcases ih with ⟨log, hlog⟩
      rcases hstep.accept_or with ⟨x, haccept⟩ | hsame
      · exact ⟨log ++ [x], hlog.accept haccept⟩
      · exact ⟨log, hlog.other hstep hsame⟩

/-- The runs with a log are all runs. -/
theorem reachable_iff_acceptedIn :
    Reachable lib calls start n ↔ ∃ order, n.AcceptedIn lib calls start order :=
  ⟨Net.exists_accepts, fun ⟨_, h⟩ => h.steps⟩

theorem Net.AcceptedIn.reachable (h : n.AcceptedIn lib calls start log) :
    Reachable lib calls start n :=
  h.steps

end Accepts

/-! ## What is left to do -/

/-- The number of phases a connection has ahead of it. -/
def Phase.ahead : Phase → Nat
  | fresh => 4
  | opened => 3
  | pending => 2
  | accepted => 1
  | served => 0

/-- A phase ahead and two programs. -/
abbrev Left := Nat × (StreamProgram (Option Service) × StreamProgram (Option Service))

/-- A connection goes to a later phase, or stays and one of its programs goes on. -/
def Left.Less : Left → Left → Prop :=
  Prod.Lex (· < ·) (Prod.GameAdd Continues Continues)

theorem Left.less_wf : WellFounded Left.Less :=
  WellFounded.prod_lex Nat.lt_wfRel.wf (continues_wf.prod_gameAdd continues_wf)

section Left

variable [DecidableEq ι] {lib : Libuuid} {calls : ι → Call} {n n' : Net ι}

/-- What is left of the connection of client {lit}`i`. -/
def Net.left (n : Net ι) (i : ι) : Left :=
  ((n.phase i).ahead, (n.link i).prog .client, (n.link i).prog .server)

theorem Net.set_left (n : Net ι) (i : ι) (phase : Phase) (l : Link (Option Service)) (j : ι) :
    (n.set i phase l).left j =
      if j = i then (phase.ahead, l.prog .client, l.prog .server) else n.left j := by
  by_cases hji : j = i
  · subst hji
    simp [left, set]
  · simp [left, set, hji]

theorem Net.left_less_of_set {i : ι} {phase : Phase} {l : Link (Option Service)}
    (hless : Left.Less (phase.ahead, l.prog .client, l.prog .server) (n.left i))
    (hset : ∀ j, n'.left j = (n.set i phase l).left j) :
    ∃ i, Left.Less (n'.left i) (n.left i) ∧ ∀ j, j ≠ i → n'.left j = n.left j := by
  refine ⟨i, ?_, ?_⟩
  · rw [hset, Net.set_left, if_pos rfl]
    exact hless
  · intro j hj
    rw [hset, Net.set_left, if_neg hj]

/-- One step leaves less of one connection and all of the others. -/
theorem Net.Invariant.left_less (h : n.Invariant lib calls) (hstep : n.Step lib n') :
    ∃ i, Left.Less (n'.left i) (n.left i) ∧ ∀ j, j ≠ i → n'.left j = n.left j := by
  have hlater : ∀ {i : ι} {phase : Phase} (p : StreamProgram (Option Service) × _),
      phase.ahead < (n.phase i).ahead → Left.Less (phase.ahead, p) (n.left i) :=
    fun p hlt => .left p _ hlt
  have hwithin : ∀ {i : ι} {side : Side} {l : Link (Option Service)},
      (n.link i).Step side l →
        Left.Less ((n.phase i).ahead, l.prog .client, l.prog .server) (n.left i) :=
    fun hmove => .right _ hmove.continues
  cases hstep with
  | socket i fd hphase hprog =>
      refine Net.left_less_of_set (hlater _ ?_) fun _ => rfl
      simp [hphase, Phase.ahead]
  | connect i hphase hprog hroom =>
      refine Net.left_less_of_set (hlater _ ?_) fun _ => rfl
      simp [hphase, Phase.ahead]
  | client i hphase hmove => exact Net.left_less_of_set (hwithin hmove) fun _ => rfl
  | @accept i rest frame sockMsg hbacklog hidle =>
      have hphase : n.phase i = .pending := by
        rw [← h.waiting i, hbacklog]
        exact List.mem_cons_self
      refine Net.left_less_of_set (hlater _ ?_) fun _ => rfl
      simp [hphase, Phase.ahead]
  | server i hphase hmove =>
      have hless := hwithin hmove
      rw [hphase] at hless
      exact Net.left_less_of_set hless fun _ => rfl
  | next i hphase hdone =>
      refine Net.left_less_of_set (hlater _ ?_) fun _ => rfl
      simp [hphase, Phase.ahead]

/-- Steps of finitely many clients cannot go on forever. -/
theorem step_wf [Finite ι] (lib : Libuuid) (calls : ι → Call) :
    WellFounded fun n' n : Net ι => n.Invariant lib calls ∧ n.Step lib n' := by
  have hpi : WellFounded (Pi.Lex (WellOrderingRel : ι → ι → Prop)
      (@fun _ => Left.Less)) :=
    Pi.Lex.wellFounded WellOrderingRel fun _ => Left.less_wf
  refine Subrelation.wf ?_ (InvImage.wf Net.left hpi)
  rintro n' n ⟨hinv, hstep⟩
  rcases hinv.left_less hstep with ⟨i, hless, hsame⟩
  refine ⟨i, ?_, hless⟩
  intro j hj
  apply hsame
  rintro rfl
  exact irrefl _ hj

/-- No run takes a step after each of its states. -/
theorem Net.Invariant.exists_no_step [Finite ι] (h : n.Invariant lib calls) {run : Nat → Net ι}
    (hrun : run 0 = n) : ∃ k, ¬(run k).Step lib (run (k + 1)) := by
  by_contra hforever
  simp only [not_exists, not_not] at hforever
  have hinv : ∀ k, (run k).Invariant lib calls := by
    intro k
    induction k with
    | zero =>
        rw [hrun]
        exact h
    | succ k ih => exact ih.step (hforever k)
  -- The states of the run would have no least one.
  rcases (step_wf lib calls).has_min (Set.range run) ⟨_, 0, rfl⟩ with ⟨_, ⟨k, rfl⟩, hmin⟩
  exact hmin _ ⟨k + 1, rfl⟩ ⟨hinv k, hforever k⟩

/-- From every state on the interleaving can be taken to its end, with any memory under the
connections that are still accepted. -/
theorem exists_stuck [Finite ι] (h : n.Invariant lib calls) (frame : Frame) :
    ∃ n' later, n.Accepts lib later n' ∧ (∀ n'', ¬n'.Step lib n'') ∧
      ∀ x ∈ later, x.2 = frame := by
  induction n using (step_wf lib calls).induction with
  | _ n ih =>
      by_cases hmove : ∃ n', n.Step lib n'
      · rcases hmove with ⟨n', hstep⟩
        rcases hstep.accept_or with ⟨⟨i, _⟩, hbacklog, hidle, _⟩ | hsame
        · have haccept : n.Accept lib (i, frame) _ := ⟨hbacklog, hidle, 0, rfl⟩
          rcases ih _ ⟨h, haccept.step⟩ (h.step haccept.step) with ⟨n', later, hlater, hstuck, hall⟩
          refine ⟨n', _, (Net.Accepts.refl.accept haccept).trans hlater, hstuck, ?_⟩
          intro x hx
          rcases List.mem_append.1 hx with hx | hx
          · rw [List.nil_append, List.mem_singleton] at hx
            rw [hx]
          · exact hall x hx
        · rcases ih n' ⟨h, hstep⟩ (h.step hstep) with ⟨n'', later, hlater, hstuck, hall⟩
          refine ⟨n'', _, (Net.Accepts.refl.other hstep hsame).trans hlater, hstuck, ?_⟩
          simpa using hall
      · exact ⟨n, [], .refl, not_exists.1 hmove, by simp⟩

/-- When no process can move every client was served, and both ends of its connection have
returned. -/
theorem Net.Invariant.served_of_stuck (h : n.Invariant lib calls)
    (hstuck : ∀ n', ¬n.Step lib n') (i : ι) :
    n.phase i = .served ∧ ∀ side, ∃ result, (n.link i).prog side = .done result := by
  have hidle : ∀ i, n.phase i ≠ .accepted := by
    intro i hphase
    rcases h.progress_accepted hphase with ⟨n', hstep⟩
    exact hstuck n' hstep
  have hbacklog : n.backlog = [] := by
    cases hbacklog : n.backlog with
    | nil => rfl
    | cons i rest => exact absurd (.accept i Frame.zero 0 hbacklog hidle) (hstuck _)
  rcases h.progress_idle hbacklog hidle i with ⟨n', hstep⟩ | hserved
  · exact absurd hstep (hstuck n')
  · exact hserved

end Left

end Identifier
end Clacks
