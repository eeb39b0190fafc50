import Clacks.Identifier.ServiceOrder

/-!
# Every call returns

When no process can move, every client was served in full, in the order of the
{lit}`accept` steps.

Main results:

- Theorem {lit}`complete_of_stuck`: what has happened when no process can move.
- Theorem {lit}`every_call_returns`: every interleaving comes to this end.
-/

namespace Clacks
namespace Identifier

open Foundation Program LockStep Client

variable {ι : Type} [DecidableEq ι] {lib : Libuuid} {calls : ι → Call} {start : Service}
  {n : Net ι} {order : List (ι × Frame)}

/-- Every client was served in full: the calls were made one after another in
{lit}`order`, which has all clients, and every connection has its whole history. -/
structure Net.Complete (lib : Libuuid) (calls : ι → Call) (start : Service) (n : Net ι)
    (order : List (ι × Frame)) : Prop where
  nodup : (order.map Prod.fst).Nodup
  everyone : ∀ i, i ∈ order.map Prod.fst
  served : ∀ i, n.phase i = .served
  returned : ∀ i side, ∃ result, (n.link i).prog side = .done result
  service : n.service = replay lib calls start order
  history : ∀ before i frame after, order = before ++ (i, frame) :: after →
    (n.link i).history = (calls i).transcript lib (replay lib calls start before)

/-- No process can move only when every client was served in full. -/
theorem complete_of_stuck (h : n.InOrder lib calls start order)
    (hstuck : ∀ n', ¬n.Step lib n') : n.Complete lib calls start order := by
  have hserved := h.inv.served_of_stuck hstuck
  have hidle : ∀ i, n.phase i ≠ .accepted := by
    intro i
    simp [(hserved i).1]
  refine ⟨h.nodup, ?_, fun i => (hserved i).1, fun i => (hserved i).2, h.idle hidle, ?_⟩
  · intro i
    rw [h.taken i]
    exact .inr (hserved i).1
  · intro before i frame after hsplit
    exact history_of_dialogue_done lib _ (calls i) (h.talking before i frame after hsplit)
      (hserved i).2

/-- With finitely many clients every interleaving of the clients and the service comes to an
end, and it ends when every client has been served in full, one after another in the
order in which they were accepted. -/
theorem every_call_returns [Finite ι] (h : n.AcceptedIn lib calls start order) :
    (∀ run : Nat → Net ι, run 0 = n → ∃ k, ¬(run k).Step lib (run (k + 1))) ∧
      ((∀ n', ¬n.Step lib n') → n.Complete lib calls start order) :=
  ⟨fun _ hrun => h.reachable.invariant.exists_no_step hrun, complete_of_stuck h.inOrder⟩

/-- Two clients, at the end of an interleaving. -/
theorem every_call_returns_two : ∃ (n : Net Bool) (order : List (Bool × Frame)),
    n.AcceptedIn timeLibuuid twoCalls ⟨timePool 0, []⟩ order ∧
    (∀ n', ¬n.Step timeLibuuid n') ∧
    (∀ run : Nat → Net Bool, run 0 = n → ∃ k, ¬(run k).Step timeLibuuid (run (k + 1))) ∧
    n.Complete timeLibuuid twoCalls ⟨timePool 0, []⟩ order := by
  have hinitial : Reachable timeLibuuid twoCalls ⟨timePool 0, []⟩ _ := .refl
  rcases exists_stuck hinitial.invariant Frame.zero with ⟨n, order, horder, hstuck, _⟩
  rcases every_call_returns horder with ⟨hends, hcomplete⟩
  exact ⟨n, order, horder, hstuck, hends, hcomplete hstuck⟩

/-- Clients that meet the memory {lit}`frame` can all be served. -/
theorem exists_complete [Finite ι] (lib : Libuuid) (calls : ι → Call) (start : Service)
    (frame : Frame) : ∃ (n : Net ι) (order : List (ι × Frame)),
      n.AcceptedIn lib calls start order ∧ n.Complete lib calls start order ∧
        ∀ x ∈ order, x.2 = frame := by
  have hinitial : Reachable lib calls start _ := .refl
  rcases exists_stuck hinitial.invariant frame with ⟨n, order, horder, hstuck, hframes⟩
  exact ⟨n, order, horder, complete_of_stuck (Net.AcceptedIn.inOrder horder) hstuck, hframes⟩

end Identifier
end Clacks
