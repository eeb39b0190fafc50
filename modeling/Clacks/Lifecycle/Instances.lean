import Clacks.Lifecycle.Startup
import Mathlib.Logic.Relation

/-!
# Instances of one daemon on one host

Any number of instances of a daemon share one socket path.  {lit}`bind` fails if
and only if the path exists, {lit}`unlink` removes the path whoever created it, and
a process that ends leaves the path in place.

Main results:

- Theorem {lit}`Sound.step`: what one step of one instance does to the path.
- Theorem {lit}`served_path_of_sparing`: the socket of a serving instance stays
  reachable as long as no instance unlinks the path of another.
-/

namespace Clacks
namespace Lifecycle

open Foundation Program

/-- An instance has not been started, runs, or has ended. -/
inductive Status where
  | idle
  | running (prog : StartProgram Unit)
  | stopped

/-- The host: its instances, and the instance whose socket the path leads to, if the
path exists. -/
structure Host (ι : Type) where
  status : ι → Status
  path : Option ι

variable {ι : Type} [DecidableEq ι]

/-- A host on which no instance was started yet. -/
def Host.fresh : Host ι where
  status _ := .idle
  path := none

/-- Instance {lit}`i` is past its {lit}`bind` and in or before its loop. -/
def Host.BoundBy (h : Host ι) (i : ι) : Prop :=
  ∃ p, h.status i = .running p ∧ Bound p

/-- Instance {lit}`i` serves its socket. -/
def Host.ServedBy (h : Host ι) (i : ι) : Prop :=
  ∃ p, h.status i = .running p ∧ Serving p

/-- What an instance does or undergoes in one step. -/
inductive Move where
  | start
  | ask (c : Call) (answer : c.Ans)
  | exit
  | sigterm

/-- The answers the host gives, and the path afterwards. -/
inductive Answered (path : Option ι) (i : ι) : (c : Call) → c.Ans → Option ι → Prop where
  | bound (hfree : path = none) : Answered path i .bind true (some i)
  | refused {j : ι} (htaken : path = some j) : Answered path i .bind false path
  | unlinked : Answered path i .unlink () none
  | other {c : Call} (answer : c.Ans) (hbind : c ≠ .bind) (hunlink : c ≠ .unlink) :
      Answered path i c answer path

/-- One step of instance {lit}`i` of daemon {lit}`d`. -/
inductive Host.Step (d : Daemon) (h : Host ι) (i : ι) : Move → Host ι → Prop where
  | start (hidle : h.status i = .idle) :
      Step d h i .start { h with status := Function.update h.status i (.running (main d)) }
  | ask {c : Call} {k : c.Ans → StartProgram Unit} {answer : c.Ans} {path : Option ι}
      (hrunning : h.status i = .running (.ask c k)) (hanswer : Answered h.path i c answer path) :
      Step d h i (.ask c answer) { status := Function.update h.status i (.running (k answer)), path }
  | exit {a : Unit} (hdone : h.status i = .running (.done a)) :
      Step d h i .exit { h with status := Function.update h.status i .stopped }
  | sigterm {p : StartProgram Unit} (hrunning : h.status i = .running p) :
      Step d h i .sigterm { h with status := Function.update h.status i .stopped }

/-- The hosts reached by any interleaving of the instances. -/
def Host.Reachable (d : Daemon) : Host ι → Prop :=
  Relation.ReflTransGen (fun h h' => ∃ i move, Host.Step d h i move h') Host.fresh

/-- The step does not unlink the path while it leads to another instance that is past
its {lit}`bind`. -/
def Host.Sparing (h : Host ι) (i : ι) (move : Move) : Prop :=
  ∀ j, move = .ask .unlink () → h.path = some j → j ≠ i → ¬h.BoundBy j

/-- Any number of sparing steps. -/
def Host.SparingRun (d : Daemon) : Host ι → Host ι → Prop :=
  Relation.ReflTransGen fun h h' => ∃ i move, Host.Step d h i move h' ∧ h.Sparing i move

/-! ## The invariant -/

/-- Every running program is at a point of {lit}`main`, and the path leads to every
instance that is past its {lit}`bind`. -/
structure Host.Sound (h : Host ι) : Prop where
  disciplined : ∀ i p, h.status i = .running p → Disciplined p
  path : ∀ i, h.BoundBy i → h.path = some i

/-- At most one instance is past its {lit}`bind`. -/
theorem Host.Sound.unique {ι : Type} {h : Host ι} (hs : h.Sound) {i j : ι} (hi : h.BoundBy i)
    (hj : h.BoundBy j) : i = j := by
  have hpath := (hs.path i hi).symm.trans (hs.path j hj)
  exact Option.some.inj hpath

section Step

variable {d : Daemon} {h h' : Host ι} {i : ι} {move : Move}

/-- What has to be shown when instance {lit}`i` changes its status and the path. -/
theorem Host.Sound.update (hs : h.Sound) {status : Status} {path : Option ι}
    (hdisciplined : ∀ p, status = .running p → Disciplined p)
    (hself : ∀ p, status = .running p → Bound p → path = some i)
    (hothers : ∀ j, j ≠ i → h.BoundBy j → path = some j) :
    (Host.mk (Function.update h.status i status) path).Sound where
  disciplined j p hj := by
    by_cases hji : j = i
    · subst hji
      exact hdisciplined p (by simpa using hj)
    · exact hs.disciplined j p (by simpa [hji] using hj)
  path j hj := by
    rcases hj with ⟨p, hp, hbound⟩
    by_cases hji : j = i
    · subst hji
      exact hself p (by simpa using hp) hbound
    · exact hothers j hji ⟨p, by simpa [hji] using hp, hbound⟩

/-- An answer of the host keeps the invariant, unless it takes the path away. -/
theorem Host.Sound.answered (hs : h.Sound) {c : Call} {k : c.Ans → StartProgram Unit}
    {answer : c.Ans} {path : Option ι} (hrunning : h.status i = .running (.ask c k))
    (hanswer : Answered h.path i c answer path) (hspare : h.Sparing i (.ask c answer)) :
    (Host.mk (Function.update h.status i (.running (k answer))) path).Sound := by
  have hpoint := hs.disciplined i _ hrunning answer
  -- Past the bind after this answer: a bind that succeeded, or past it before.
  have hbefore : Bound (k answer) → BindSucceeded c answer ∨ h.path = some i := by
    intro hbound
    rcases hpoint.1 hbound with hbind | hbound
    · exact .inl hbind
    · exact .inr (hs.path i ⟨_, hrunning, hbound⟩)
  refine hs.update ?_ ?_ ?_
  · intro p hp
    cases hp
    exact hpoint.2
  · intro p hp hbound
    cases hp
    cases hanswer with
    | bound hfree => rfl
    | refused htaken => exact (hbefore hbound).resolve_left (by simp [BindSucceeded])
    | unlinked =>
        rcases hpoint.1 hbound with hbind | hbound
        · exact absurd hbind (by simp [BindSucceeded])
        · exact absurd hbound (by simp [Bound])
    | other _ hbind hunlink =>
        apply (hbefore hbound).resolve_left
        intro hsucceeded
        cases c <;> simp_all [BindSucceeded]
  · intro j hji hj
    have hpath := hs.path j hj
    cases hanswer with
    | bound hfree => simp [hfree] at hpath
    | refused htaken => exact hpath
    | unlinked => exact absurd hj (hspare j rfl hpath hji)
    | other _ hbind hunlink => exact hpath

/-- A sparing step keeps the invariant. -/
theorem Host.Sound.step (hs : h.Sound) (hstep : h.Step d i move h') (hspare : h.Sparing i move) :
    h'.Sound := by
  cases hstep with
  | start hidle =>
      refine hs.update ?_ ?_ fun j _ hj => hs.path j hj
      · intro p hp
        cases hp
        exact (main_disciplined d).1
      · intro p hp hbound
        cases hp
        exact absurd hbound (main_disciplined d).2
  | ask hrunning hanswer => exact hs.answered hrunning hanswer hspare
  | exit hdone =>
      exact hs.update (by simp) (by simp) fun j _ hj => hs.path j hj
  | sigterm hrunning =>
      exact hs.update (by simp) (by simp) fun j _ hj => hs.path j hj

/-- The invariant holds after every run of sparing steps. -/
theorem Host.SparingRun.sound (hrun : Host.SparingRun d Host.fresh h) : h.Sound := by
  induction hrun with
  | refl => exact ⟨by simp [fresh], by simp [fresh, BoundBy]⟩
  | tail _ hstep ih =>
      rcases hstep with ⟨i, move, hstep, hspare⟩
      exact ih.step hstep hspare

end Step

/-- As long as no instance unlinks the path while it leads to another instance that is
past its {lit}`bind`, at most one instance serves, and the path leads to it. -/
theorem served_path_of_sparing {d : Daemon} {h : Host ι} (hrun : Host.SparingRun d Host.fresh h) :
    (∀ i j, h.ServedBy i → h.ServedBy j → i = j) ∧ ∀ i, h.ServedBy i → h.path = some i := by
  have hbound : ∀ i, h.ServedBy i → h.BoundBy i := by
    rintro i ⟨p, hp, hserving⟩
    exact ⟨p, hp, hserving.bound⟩
  refine ⟨fun i j hi hj => hrun.sound.unique (hbound i hi) (hbound j hj), fun i hi => ?_⟩
  exact hrun.sound.path i (hbound i hi)

/-! ## Starting next to other instances -/

/-- Sparing steps are steps. -/
theorem Host.Reachable.run {d : Daemon} {h h' : Host ι} (hreach : h.Reachable d)
    (hrun : Host.SparingRun d h h') : h'.Reachable d := by
  induction hrun with
  | refl => exact hreach
  | tail _ hstep ih =>
      rcases hstep with ⟨i, move, hstep, _⟩
      exact ih.tail ⟨i, move, hstep⟩

/-- Answers of the host that take instance {lit}`i` from one point of its program to
another without an {lit}`unlink`, and the path before and after. -/
inductive Advances (i : ι) : Option ι → StartProgram Unit → Option ι → StartProgram Unit → Prop where
  | refl (path : Option ι) (p : StartProgram Unit) : Advances i path p path p
  | ask {path path' path'' : Option ι} {c : Call} {k : c.Ans → StartProgram Unit}
      {answer : c.Ans} {p : StartProgram Unit} (hanswer : Answered path i c answer path')
      (hunlink : c ≠ .unlink) (hrest : Advances i path' (k answer) path'' p) :
      Advances i path (.ask c k) path'' p

/-- A call without effect on the path that succeeds. -/
theorem Advances.call {ι : Type} {i : ι} {path path' : Option ι} {c : Call}
    {k : c.Ans → StartProgram Unit} {p : StartProgram Unit} (answer : c.Ans)
    (hcall : c ≠ .bind ∧ c ≠ .unlink) (hrest : Advances i path (k answer) path' p) :
    Advances i path (.ask c k) path' p :=
  .ask (.other answer hcall.1 hcall.2) hcall.2 hrest

/-- When the path is free, a daemon can reach its loop. -/
theorem advances_serving {ι : Type} (d : Daemon) (i : ι) :
    ∃ p, Advances i none (main d) (some i) p ∧ Serving p := by
  cases d with
  | clacksidd =>
      apply Exists.intro
      apply And.intro
      · iterate 5 apply Advances.call true (by decide)
        apply Advances.ask (.bound rfl) (by decide)
        apply Advances.call true (by decide)
        exact .refl _ _
      · trivial
  | clacksd =>
      apply Exists.intro
      apply And.intro
      · iterate 6 apply Advances.call true (by decide)
        apply Advances.ask (.bound rfl) (by decide)
        exact .refl _ _
      · trivial

/-- When the path exists, a daemon that gets to its {lit}`bind` goes on to unlink the
path, whoever it belongs to. -/
theorem advances_unlink {ι : Type} (d : Daemon) (i j : ι) :
    ∃ k, Advances i (some j) (main d) (some j) (.ask .unlink k) := by
  cases d with
  | clacksidd =>
      apply Exists.intro
      iterate 5 apply Advances.call true (by decide)
      apply Advances.ask (.refused rfl) (by decide)
      apply Advances.call () (by decide)
      exact .refl _ _
  | clacksd =>
      apply Exists.intro
      iterate 6 apply Advances.call true (by decide)
      apply Advances.ask (.refused rfl) (by decide)
      apply Advances.call () (by decide)
      exact .refl _ _

section Start

variable {d : Daemon} {status : ι → Status} {path path' : Option ι} {i : ι}

/-- What an instance can do alone it can do next to others. -/
theorem Advances.run {p p' : StartProgram Unit} (h : Advances i path p path' p') :
    Host.SparingRun d (.mk (Function.update status i (.running p)) path)
      (.mk (Function.update status i (.running p')) path') := by
  induction h with
  | refl => exact .refl
  | @ask path path' path'' c k answer p hanswer hunlink _ ih =>
      have hstep : Host.Step d (.mk (Function.update status i (.running (.ask c k))) path) i
          (.ask c answer) _ := .ask (Function.update_self i _ status) hanswer
      rw [Function.update_idem] at hstep
      refine .head ⟨i, _, hstep, fun j h => ?_⟩ ih
      cases h
      exact absurd rfl hunlink

/-- A fresh instance runs from the start of {lit}`main`. -/
theorem Advances.start {p : StartProgram Unit} (hidle : status i = .idle)
    (h : Advances i path (main d) path' p) : Host.SparingRun d (.mk status path)
      (.mk (Function.update status i (.running p)) path') :=
  .head ⟨i, .start, .start hidle, fun _ hmove => by cases hmove⟩ h.run

end Start

/-- With one instance serving, a second one that fails takes its path away, and then a
third one serves next to the first. -/
theorem second_start_unlinks (d : Daemon) :
    (∃ h : Host Nat, h.Reachable d ∧ h.ServedBy 0 ∧ h.path = none) ∧
      ∃ h : Host Nat, h.Reachable d ∧ h.ServedBy 0 ∧ h.ServedBy 2 := by
  rcases advances_serving d 0 with ⟨first, hfirst, hserving⟩
  rcases advances_unlink d 1 0 with ⟨k, hsecond⟩
  rcases advances_serving d 2 with ⟨third, hthird, hserving'⟩
  have hone := Host.Reachable.run .refl (hfirst.start rfl)
  have htwo := hone.run (hsecond.start (by simp))
  have hpoint : (Function.update (Function.update (fun _ => Status.idle) 0 (.running first)) 1
      (.running (.ask .unlink k)) : Nat → Status) 1 = .running (.ask .unlink k) :=
    Function.update_self _ _ _
  have hunlinked := htwo.tail ⟨1, _, .ask hpoint .unlinked⟩
  have hthree := Host.Reachable.run hunlinked (hthird.start (by simp))
  refine ⟨⟨_, hunlinked, ⟨first, by simp, hserving⟩, rfl⟩, ⟨_, hthree, ?_, ?_⟩⟩
  · exact ⟨first, by simp, hserving⟩
  · exact ⟨third, by simp, hserving'⟩

/-- The two failures, for both daemons. -/
theorem second_start_unlinks_daemons :
    ((∃ h : Host Nat, h.Reachable .clacksidd ∧ h.ServedBy 0 ∧ h.path = none) ∧
      ∃ h : Host Nat, h.Reachable .clacksidd ∧ h.ServedBy 0 ∧ h.ServedBy 2) ∧
    ((∃ h : Host Nat, h.Reachable .clacksd ∧ h.ServedBy 0 ∧ h.path = none) ∧
      ∃ h : Host Nat, h.Reachable .clacksd ∧ h.ServedBy 0 ∧ h.ServedBy 2) :=
  ⟨second_start_unlinks .clacksidd, second_start_unlinks .clacksd⟩

/-- A {lit}`clacksidd` whose {lit}`listen` fails goes on to unlink its own path. -/
theorem advances_own_unlink {ι : Type} (i : ι) :
    ∃ k, Advances i none (main .clacksidd) (some i) (.ask .unlink k) := by
  apply Exists.intro
  iterate 5 apply Advances.call true (by decide)
  apply Advances.ask (.bound rfl) (by decide)
  apply Advances.call false (by decide)
  apply Advances.call () (by decide)
  exact .refl _ _

/-- One whose {lit}`socket` fails returns without touching the path. -/
theorem advances_no_socket {ι : Type} (i : ι) (path : Option ι) :
    Advances i path (main .clacksidd) path (.done ()) := by
  iterate 4 apply Advances.call true (by decide)
  apply Advances.call false (by decide)
  exact .refl _ _

/-- An instance whose {lit}`listen` fails unlinks its own path, another one then serves, and a
third one that fails to start does it no harm. -/
theorem served_path_of_sparing_three : ∃ h : Host Nat,
    Host.SparingRun .clacksidd Host.fresh h ∧ h.ServedBy 0 ∧ h.path = some 0 ∧
      (∃ p, h.status 1 = .running p) ∧ h.status 2 = .running (.done ()) ∧
      ∀ j, h.ServedBy j → j = 0 := by
  rcases advances_own_unlink 1 with ⟨k, hfirst⟩
  rcases advances_serving .clacksidd 0 with ⟨p, hserver, hserving⟩
  have hone : Host.SparingRun .clacksidd Host.fresh _ := hfirst.start rfl
  have hpoint : (Function.update (fun _ => Status.idle) 1 (.running (.ask .unlink k)) :
      Nat → Status) 1 = .running (.ask .unlink k) := Function.update_self _ _ _
  have hunlinked := hone.tail ⟨1, _, .ask hpoint .unlinked, fun j _ hpath hj =>
    absurd (Option.some.inj hpath).symm hj⟩
  have htwo := Relation.ReflTransGen.trans hunlinked (hserver.start (by simp))
  have hthree := Relation.ReflTransGen.trans htwo ((advances_no_socket 2 (some 0)).start (by simp))
  rcases served_path_of_sparing hthree with ⟨hunique, hpath⟩
  refine ⟨_, hthree, ⟨p, by simp, hserving⟩, hpath 0 ⟨p, by simp, hserving⟩, ⟨k (), by simp⟩,
    by simp, ?_⟩
  intro j hj
  exact hunique j 0 hj ⟨p, by simp, hserving⟩

end Lifecycle
end Clacks
