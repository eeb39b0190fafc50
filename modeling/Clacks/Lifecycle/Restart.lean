import Clacks.Foundation.Monitor
import Clacks.Lifecycle.Instances

/-!
# Starting again after a stop

A start that nothing but its {lit}`bind` can stop runs to one end, which is decided by
whether the socket path exists.  The path outlives an instance that is stopped by
{lit}`SIGTERM` after its {lit}`bind`; an instance that ends by itself removes it first.

Main results:

- Theorem {lit}`startListens_iff`: a start listens exactly when the path is free.
- Theorem {lit}`main_ledger`: a daemon that ends after its {lit}`bind` has unlinked the
  path.
- Theorem {lit}`restart_listens`: starting again after runs in which no instance is
  stopped while the path leads to it, and in any state.
-/

namespace Clacks
namespace Lifecycle

open Foundation Program

variable {ι : Type} [DecidableEq ι]

/-! ## A start that is left to itself -/

/-- The answer is not a failure of its own: the system has what the daemon asks for, the
directory exists, and the accept loop is not left.  A {lit}`bind` is answered by the
host. -/
def Untroubled : (c : Call) → c.Ans → Prop
  | .daemonize, ok | .openLockfile, ok | .createThread, ok | .stat, ok | .socket, ok
  | .listen, ok => ok = true
  | .acceptLoop, _ => False
  | _, _ => True

/-- One call of instance {lit}`i` in a start that is left to itself. -/
def Host.StartStep (d : Daemon) (i : ι) (h h' : Host ι) : Prop :=
  ∃ c answer, Untroubled c answer ∧ Host.Step d h i (.ask c answer) h'

/-- The next start of instance {lit}`i`, left to itself, reaches the loop in which it
serves its socket: it is still ahead at every point of the start. -/
def Host.StartListens (d : Daemon) (h : Host ι) (i : ι) : Prop :=
  ∀ h₁ h₂, Host.Step d h i .start h₁ → Relation.ReflTransGen (Host.StartStep d i) h₁ h₂ →
    ∃ h₃, Relation.ReflTransGen (Host.StartStep d i) h₂ h₃ ∧ h₃.ServedBy i

/-- The answer of a call in such a start and the path afterwards; a loop has none. -/
def hostAnswer (i : ι) (path : Option ι) : (c : Call) → Option (c.Ans × Option ι)
  | .bind =>
      match path with
      | none => some (true, some i)
      | some _ => some (false, path)
  | .daemonize | .openLockfile | .createThread | .stat | .socket | .listen => some (true, path)
  | .mkdir | .close => some ((), path)
  | .unlink => some ((), none)
  | .acceptLoop | .receiveLoop | .sleepLoop => none

/-- Where such a start ends: the path and the point of the program. -/
def settle (i : ι) : Option ι → StartProgram Unit → Option ι × StartProgram Unit
  | path, .done a => (path, .done a)
  | path, .ask c k =>
      match hostAnswer i path c with
      | none => (path, .ask c k)
      | some (answer, path') => settle i path' (k answer)

/-- A call that is neither {lit}`bind` nor {lit}`unlink` leaves the path alone. -/
theorem answered_other_iff {ι : Type} {i : ι} {path path' : Option ι} {c : Call}
    {answer : c.Ans} (hbind : c ≠ .bind) (hunlink : c ≠ .unlink) :
    Answered path i c answer path' ↔ path = path' := by
  constructor
  · intro h
    cases h with
    | bound hfree => exact absurd rfl hbind
    | refused htaken => exact absurd rfl hbind
    | unlinked => exact absurd rfl hunlink
    | other => rfl
  · intro h
    subst h
    exact .other answer hbind hunlink

theorem answered_bind_iff {ι : Type} {i : ι} {path path' : Option ι} {ok : Bool} :
    Answered path i .bind ok path' ↔ hostAnswer i path .bind = some (ok, path') := by
  constructor
  · intro h
    cases h with
    | bound hfree => simp [hostAnswer, hfree]
    | refused htaken => simp [hostAnswer, htaken]
    | other _ hbind => exact absurd rfl hbind
  · intro h
    cases path with
    | none =>
        cases h
        exact .bound rfl
    | some j =>
        cases h
        exact .refused rfl

theorem answered_unlink_iff {ι : Type} {i : ι} {path path' : Option ι} :
    Answered path i .unlink () path' ↔ none = path' := by
  constructor
  · intro h
    cases h with
    | unlinked => rfl
    | other _ _ hunlink => exact absurd rfl hunlink
  · intro h
    subst h
    exact .unlinked

/-- The answers of the host in such a start are determined. -/
theorem hostAnswer_eq_some_iff {ι : Type} {i : ι} {path path' : Option ι} {c : Call}
    {answer : c.Ans} :
    hostAnswer i path c = some (answer, path') ↔
      Untroubled c answer ∧ Answered path i c answer path' := by
  cases c with
  | bind => simp [Untroubled, answered_bind_iff]
  | unlink =>
      cases answer
      simp [Untroubled, hostAnswer, answered_unlink_iff]
  | acceptLoop => simp [Untroubled, hostAnswer]
  | receiveLoop => exact answer.elim
  | sleepLoop => exact answer.elim
  | _ => simp [Untroubled, hostAnswer, answered_other_iff, eq_comm]

section Settle

variable {d : Daemon} {i : ι} {h h' : Host ι}

/-- A step of such a start does not change where it ends. -/
theorem settle_step {p : StartProgram Unit} (hp : h.status i = .running p)
    (hstep : Host.StartStep d i h h') :
    ∃ p', h'.status i = .running p' ∧ settle i h'.path p' = settle i h.path p := by
  rcases hstep with ⟨c, answer, huntroubled, hstep⟩
  cases hstep with
  | @ask c k answer path hrunning hanswer =>
      rw [hp] at hrunning
      cases hrunning
      have hhost := hostAnswer_eq_some_iff.2 ⟨huntroubled, hanswer⟩
      refine ⟨k answer, Function.update_self i _ _, ?_⟩
      simp only [settle, hhost]

theorem settle_run {p : StartProgram Unit} (hp : h.status i = .running p)
    (hrun : Relation.ReflTransGen (Host.StartStep d i) h h') :
    ∃ p', h'.status i = .running p' ∧ settle i h'.path p' = settle i h.path p := by
  induction hrun with
  | refl => exact ⟨p, hp, rfl⟩
  | tail _ hstep ih =>
      rcases ih with ⟨p', hp', hsettle⟩
      rcases settle_step hp' hstep with ⟨p'', hp'', hsettle'⟩
      exact ⟨p'', hp'', hsettle'.trans hsettle⟩

/-- The start can go on to its end. -/
theorem exists_settled (p : StartProgram Unit) (path : Option ι) (status : ι → Status) :
    Relation.ReflTransGen (Host.StartStep d i) (.mk (Function.update status i (.running p)) path)
      (.mk (Function.update status i (.running (settle i path p).2)) (settle i path p).1) := by
  induction p generalizing path with
  | done a => exact .refl
  | ask c k ih =>
      cases hhost : hostAnswer i path c with
      | none =>
          simp only [settle, hhost]
          exact .refl
      | some answered =>
          rcases answered with ⟨answer, path'⟩
          rcases hostAnswer_eq_some_iff.1 hhost with ⟨huntroubled, hanswer⟩
          have hstep : Host.Step d (.mk (Function.update status i (.running (.ask c k))) path) i
              (.ask c answer) _ := .ask (Function.update_self i _ status) hanswer
          rw [Function.update_idem] at hstep
          simp only [settle, hhost]
          exact .head ⟨c, answer, huntroubled, hstep⟩ (ih answer path')

/-- A serving instance stays in its loop. -/
theorem settle_of_serving {ι : Type} {i : ι} {p : StartProgram Unit} (hserving : Serving p)
    (path : Option ι) : (settle i path p).2 = p := by
  cases p with
  | done a => rfl
  | ask c k => cases c <;> first | rfl | exact hserving.elim

end Settle

/-- Where the start of a daemon ends: in its loop when the path is free, and otherwise
after its error path. -/
theorem settle_main {ι : Type} (d : Daemon) (i : ι) (path : Option ι) :
    Serving (settle i path (main d)).2 ↔ path = none := by
  cases d with
  | clacksidd =>
      cases path with
      | none => exact iff_of_true trivial rfl
      | some j => exact iff_of_false id (by simp)
  | clacksd =>
      cases path with
      | none => exact iff_of_true trivial rfl
      | some j => exact iff_of_false id (by simp)

/-- The next start of an instance listens exactly when the path is free. -/
theorem startListens_iff {d : Daemon} {h : Host ι} {i : ι} (hidle : h.status i = .idle) :
    h.StartListens d i ↔ h.path = none := by
  rw [← settle_main d i]
  constructor
  · intro hlistens
    rcases hlistens _ _ (.start hidle) .refl with ⟨h₃, hrun, p, hp, hserving⟩
    rcases settle_run (Function.update_self i _ _) hrun with ⟨p', hp', hsettle⟩
    rw [hp] at hp'
    cases hp'
    rw [← hsettle, settle_of_serving hserving]
    exact hserving
  · intro hserving h₁ h₂ hstart hrun
    cases hstart
    rcases settle_run (Function.update_self i _ _) hrun with ⟨p, hp, hsettle⟩
    have hself : h₂ = .mk (Function.update h₂.status i (.running p)) h₂.path := by
      rw [← hp, Function.update_eq_self]
    have hrest := exists_settled (d := d) (i := i) p h₂.path h₂.status
    rw [← hself] at hrest
    refine ⟨_, hrest, _, Function.update_self i _ _, ?_⟩
    rw [hsettle]
    exact hserving

/-! ## What an instance leaves behind -/

/-- A monitor that remembers whether the program has bound the path and not unlinked it
since. -/
def ledger : Monitor Call Call.Ans Bool where
  allows _ _ := True
  expects _ _ := True
  next
    | _, ⟨.bind, true⟩ => true
    | _, ⟨.unlink, _⟩ => false
    | owes, _ => owes

/-- The program ends with nothing owed. -/
abbrev Settles (p : StartProgram Unit) (owes : Bool) : Prop :=
  ledger.Verified (fun _ owes => owes = false) p owes

/-- A daemon that ends by itself after its {lit}`bind` has unlinked the path. -/
theorem main_ledger (d : Daemon) : Settles (main d) false := by
  cases d with
  | clacksidd =>
      simp [main, alreadyRunning, listenOnDomSocket, checkDomDir, closeAndUnlink, call, Settles,
        Monitor.Verified, ledger]
  | clacksd =>
      simp [main, alreadyRunning, startTransport, checkDomDir, closeAndUnlink, call, Settles,
        Monitor.Verified, ledger]

/-- The path belongs to a running instance that has still to unlink it. -/
structure Host.Accounted (h : Host ι) : Prop where
  settles : ∀ i p, h.status i = .running p →
    ∃ owes, Settles p owes ∧ (h.path = some i → owes = true)
  owner : ∀ i, h.path = some i → ∃ p, h.status i = .running p

/-- The step does not stop an instance by {lit}`SIGTERM` while the path leads to it. -/
def Host.Tidy (h : Host ι) (i : ι) (move : Move) : Prop :=
  move = .sigterm → h.path ≠ some i

/-- Any number of tidy steps. -/
def Host.TidyRun (d : Daemon) : Host ι → Host ι → Prop :=
  Relation.ReflTransGen fun h h' => ∃ i move, Host.Step d h i move h' ∧ h.Tidy i move

section Step

variable {d : Daemon} {h h' : Host ι} {i : ι} {move : Move}

/-- What has to be shown when instance {lit}`i` changes its status and the path. -/
theorem Host.Accounted.update (ha : h.Accounted) {status : Status} {path : Option ι}
    (hsettles : ∀ p, status = .running p →
      ∃ owes, Settles p owes ∧ (path = some i → owes = true))
    (howner : path = some i → ∃ p, status = .running p)
    (hothers : ∀ j, j ≠ i → path = some j → h.path = some j) :
    (Host.mk (Function.update h.status i status) path).Accounted where
  settles j p hj := by
    by_cases hji : j = i
    · subst hji
      exact hsettles p (by simpa using hj)
    · rcases ha.settles j p (by simpa [hji] using hj) with ⟨owes, hsettles', howes⟩
      exact ⟨owes, hsettles', fun hpath => howes (hothers j hji hpath)⟩
  owner j hpath := by
    by_cases hji : j = i
    · subst hji
      simpa using howner hpath
    · simpa [hji] using ha.owner j (hothers j hji hpath)

/-- Instance {lit}`i` runs on. -/
theorem Host.Accounted.run (ha : h.Accounted) {p : StartProgram Unit} {path : Option ι}
    {owes : Bool} (hsettles : Settles p owes) (howes : path = some i → owes = true)
    (hothers : ∀ j, j ≠ i → path = some j → h.path = some j) :
    (Host.mk (Function.update h.status i (.running p)) path).Accounted := by
  apply ha.update ?_ (fun _ => ⟨p, rfl⟩) hothers
  intro q hq
  cases hq
  exact ⟨owes, hsettles, howes⟩

/-- Instance {lit}`i` stops while the path does not lead to it. -/
theorem Host.Accounted.stop (ha : h.Accounted) (hpath : h.path ≠ some i) :
    (Host.mk (Function.update h.status i .stopped) h.path).Accounted :=
  ha.update (by simp) (fun hself => absurd hself hpath) fun _ _ hj => hj

/-- An answer of the host. -/
theorem Host.Accounted.answered (ha : h.Accounted) {c : Call} {k : c.Ans → StartProgram Unit}
    {answer : c.Ans} {path : Option ι} (hrunning : h.status i = .running (.ask c k))
    (hanswer : Answered h.path i c answer path) :
    (Host.mk (Function.update h.status i (.running (k answer))) path).Accounted := by
  rcases ha.settles i _ hrunning with ⟨owes, hsettles, howes⟩
  have hnext := hsettles.2 answer trivial
  cases hanswer with
  | bound hfree =>
      refine ha.run hnext (fun _ => rfl) ?_
      intro j hji hpath
      exact absurd (Option.some.inj hpath).symm hji
  | refused htaken => exact ha.run hnext howes fun _ _ hpath => hpath
  | unlinked => exact ha.run hnext (by simp) (by simp)
  | other _ hbind hunlink =>
      have hsame : ledger.next owes ⟨c, answer⟩ = owes := by
        cases c <;> simp_all [ledger]
      rw [hsame] at hnext
      exact ha.run hnext howes fun _ _ hpath => hpath

/-- A tidy step keeps the path accounted for. -/
theorem Host.Accounted.step (ha : h.Accounted) (hstep : Host.Step d h i move h')
    (htidy : h.Tidy i move) : h'.Accounted := by
  cases hstep with
  | start hidle =>
      refine ha.run (main_ledger d) ?_ fun _ _ hpath => hpath
      intro hpath
      rcases ha.owner i hpath with ⟨p, hp⟩
      rw [hidle] at hp
      cases hp
  | ask hrunning hanswer => exact ha.answered hrunning hanswer
  | exit hdone =>
      apply ha.stop
      intro hpath
      rcases ha.settles i _ hdone with ⟨owes, hsettles, howes⟩
      have hnothing : owes = false := hsettles
      rw [howes hpath] at hnothing
      cases hnothing
  | sigterm hrunning => exact ha.stop (htidy rfl)

/-- The invariant holds after every run of tidy steps. -/
theorem Host.TidyRun.accounted (hrun : Host.TidyRun d Host.fresh h) : h.Accounted := by
  induction hrun with
  | refl => exact ⟨by simp [fresh], by simp [fresh]⟩
  | tail _ hstep ih =>
      rcases hstep with ⟨i, move, hstep, htidy⟩
      exact ih.step hstep htidy

end Step

/-! ## Starting again -/

/-- No instance is running. -/
def Host.Quiet (h : Host ι) : Prop :=
  ∀ i p, h.status i ≠ .running p

/-- After a run in which no instance was stopped by {lit}`SIGTERM` while the path led to
it, a start on the quiet host listens.  In any reachable quiet state the next start
listens exactly when the path is free. -/
theorem restart_listens {d : Daemon} {h : Host ι} (hquiet : h.Quiet) {i : ι}
    (hidle : h.status i = .idle) :
    (Host.TidyRun d Host.fresh h → h.StartListens d i) ∧
      (h.Reachable d → (h.StartListens d i ↔ h.path = none)) := by
  refine ⟨?_, fun _ => startListens_iff hidle⟩
  intro hrun
  rw [startListens_iff hidle]
  cases hpath : h.path with
  | none => rfl
  | some j =>
      rcases hrun.accounted.owner j hpath with ⟨p, hp⟩
      exact absurd hp (hquiet j p)

/-- A running instance can be stopped at any time. -/
theorem Host.Step.stop (d : Daemon) (i : ι) (status : ι → Status) (p : StartProgram Unit)
    (path : Option ι) : Host.Step d (.mk (Function.update status i (.running p)) path) i .sigterm
      (.mk (Function.update status i .stopped) path) := by
  have hstep : Host.Step d (.mk (Function.update status i (.running p)) path) i .sigterm _ :=
    .sigterm (p := p) (Function.update_self i _ status)
  rwa [Function.update_idem] at hstep

/-- Instance 0 is stopped before its {lit}`bind`; the start of instance 1 listens. -/
theorem restart_listens_early_stop : ∃ h : Host Nat, h.Quiet ∧ h.StartListens .clacksidd 1 := by
  have hstart : Host.Step .clacksidd (Host.fresh : Host Nat) 0 .start _ := .start rfl
  have hstop := Host.Step.stop .clacksidd 0 (fun _ => .idle) (main .clacksidd) none
  have hrun : Host.TidyRun .clacksidd Host.fresh
      (.mk (Function.update (fun _ : Nat => Status.idle) 0 .stopped) none) :=
    .tail (.single ⟨0, .start, hstart, fun hmove => by cases hmove⟩)
      ⟨0, .sigterm, hstop, fun _ => by simp [Host.fresh]⟩
  have hquiet : (Host.mk (Function.update (fun _ : Nat => Status.idle) 0 .stopped) none).Quiet := by
    intro i p
    by_cases hi : i = 0 <;> simp [hi]
  exact ⟨_, hquiet, (restart_listens hquiet (i := 1) (by simp)).1 hrun⟩

/-- An instance that serves is stopped by {lit}`SIGTERM`: the host is quiet, and the next
start does not listen. -/
theorem stop_blocks_restart (d : Daemon) : ∃ h : Host Nat, h.Reachable d ∧ h.Quiet ∧
    h.status 1 = .idle ∧ ¬h.StartListens d 1 := by
  rcases advances_serving d 0 with ⟨p, hadvances, _⟩
  have hserved : (Host.mk (Function.update (fun _ : Nat => Status.idle) 0 (.running p))
      (some 0)).Reachable d := Host.Reachable.run .refl (hadvances.start rfl)
  have hstop := Host.Step.stop d 0 (fun _ => .idle) p (some 0)
  have hidle : (Function.update (fun _ : Nat => Status.idle) 0 .stopped) 1 = .idle := by simp
  refine ⟨_, hserved.tail ⟨0, .sigterm, hstop⟩, ?_, hidle, ?_⟩
  · intro i p
    by_cases hi : i = 0 <;> simp [hi]
  · rw [startListens_iff hidle]
    simp

/-- For both daemons. -/
theorem stop_blocks_restart_daemons :
    (∃ h : Host Nat, h.Reachable .clacksidd ∧ h.Quiet ∧ h.status 1 = .idle ∧
        ¬h.StartListens .clacksidd 1) ∧
      ∃ h : Host Nat, h.Reachable .clacksd ∧ h.Quiet ∧ h.status 1 = .idle ∧
        ¬h.StartListens .clacksd 1 :=
  ⟨stop_blocks_restart .clacksidd, stop_blocks_restart .clacksd⟩

end Lifecycle
end Clacks
