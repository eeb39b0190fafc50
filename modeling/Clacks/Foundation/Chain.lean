import Mathlib.Data.List.Nodup
import Mathlib.Data.List.Basic
import Mathlib.Logic.Function.Iterate

/-!
# Chains of linked cells

Cells are linked by pointers that are fields of the cells, so a write to one cell can
change what a walk visits.  {lit}`Path` says which cells a walk along {lit}`next`
visits, {lit}`Backed` that their back links lead to the cell before.  A loop that
follows pointers is {lit}`follow`; it is given a number of turns after which it counts
as not having ended.

Main results:

- Theorem {lit}`Path.nodup`: a walk that ends visits no cell twice.
- Theorems {lit}`Path.congr`, {lit}`Path.push`, {lit}`Path.snoc` and their
  {lit}`Backed` counterparts: the effect of writes on a chain.
- Theorems {lit}`follow_eq_foldl`, {lit}`follow_search` and {lit}`follow_backed`: what
  a loop along a chain computes.
-/

namespace Clacks
namespace Foundation
namespace Chain

variable {α : Type} {next next' prev prev' : α → Option α} {first before : Option α}
  {xs ys : List α} {a b : α}

/-- A walk along {lit}`next` from {lit}`first` visits {lit}`xs` and ends. -/
def Path (next : α → Option α) : Option α → List α → Prop
  | first, [] => first = none
  | first, a :: rest => first = some a ∧ Path next (next a) rest

/-- The back link of each cell leads to the cell before it, the first one's to
{lit}`before`. -/
def Backed (prev : α → Option α) : Option α → List α → Prop
  | _, [] => True
  | before, a :: rest => prev a = before ∧ Backed prev (some a) rest

/-! ## What a walk visits -/

theorem Path.first_eq (h : Path next first xs) : first = xs.head? := by
  cases xs with
  | nil => exact h
  | cons a rest => exact h.1

/-- The cells visited are determined by where the walk starts. -/
theorem Path.unique (hx : Path next first xs) (hy : Path next first ys) : xs = ys := by
  induction xs generalizing first ys with
  | nil =>
      cases ys with
      | nil => rfl
      | cons b ys => exact absurd (hx.symm.trans hy.1) (by simp)
  | cons a xs ih =>
      cases ys with
      | nil => exact absurd (hy.symm.trans hx.1) (by simp)
      | cons b ys =>
          have hab := hx.1.symm.trans hy.1
          cases hab
          rw [ih hx.2 hy.2]

/-- The walk from a cell in the middle. -/
theorem Path.suffix (h : Path next first (xs ++ a :: ys)) : Path next (some a) (a :: ys) := by
  induction xs generalizing first with
  | nil => exact ⟨rfl, h.2⟩
  | cons x xs ih => exact ih h.2

/-- A walk that ends visits no cell twice: from the second visit on it would repeat what
came after the first. -/
theorem Path.nodup (h : Path next first xs) : xs.Nodup := by
  induction xs generalizing first with
  | nil => exact List.nodup_nil
  | cons a rest ih =>
      rw [List.nodup_cons]
      refine ⟨?_, ih h.2⟩
      intro hmem
      rcases List.append_of_mem hmem with ⟨before, after, hsplit⟩
      have hfirst : Path next (some a) (a :: rest) := ⟨rfl, h.2⟩
      have hagain : Path next (some a) (a :: after) := Path.suffix (hsplit ▸ h.2)
      have hsame := hfirst.unique hagain
      have hlength := congrArg List.length ((List.cons.inj hsame).2.symm.trans hsplit)
      simp only [List.length_append, List.length_cons] at hlength
      omega

/-! ## Writes -/

/-- A walk depends on the links of the cells it visits. -/
theorem Path.congr (h : Path next first xs) (hsame : ∀ x ∈ xs, next' x = next x) :
    Path next' first xs := by
  induction xs generalizing first with
  | nil => exact h
  | cons a rest ih =>
      rw [List.forall_mem_cons] at hsame
      refine ⟨h.1, ?_⟩
      rw [hsame.1]
      exact ih h.2 hsame.2

theorem Backed.congr (h : Backed prev before xs) (hsame : ∀ x ∈ xs, prev' x = prev x) :
    Backed prev' before xs := by
  induction xs generalizing before with
  | nil => trivial
  | cons a rest ih =>
      rw [List.forall_mem_cons] at hsame
      exact ⟨hsame.1.trans h.1, ih h.2 hsame.2⟩

/-- A cell put in front of a chain. -/
theorem Path.push (h : Path next first xs) (ha : next' a = first)
    (hsame : ∀ x ∈ xs, next' x = next x) : Path next' (some a) (a :: xs) := by
  refine ⟨rfl, ?_⟩
  rw [ha]
  exact h.congr hsame

/-- The cell in front and the one that was in front get new back links. -/
theorem Backed.push (h : Backed prev none xs) (ha : prev' a = none)
    (hhead : ∀ x ∈ xs.head?, prev' x = some a) (hsame : ∀ x ∈ xs.tail, prev' x = prev x) :
    Backed prev' none (a :: xs) := by
  refine ⟨ha, ?_⟩
  cases xs with
  | nil => trivial
  | cons b rest => exact ⟨hhead b rfl, h.2.congr hsame⟩

/-- A cell put behind the last one. -/
theorem Path.snoc (h : Path next first (xs ++ [b])) (hsame : ∀ x ∈ xs, next' x = next x)
    (hb : next' b = some a) (ha : next' a = none) : Path next' first (xs ++ [b] ++ [a]) := by
  induction xs generalizing first with
  | nil =>
      refine ⟨h.1, ?_⟩
      rw [hb]
      exact ⟨rfl, ha⟩
  | cons x xs ih =>
      rw [List.forall_mem_cons] at hsame
      refine ⟨h.1, ?_⟩
      rw [hsame.1]
      exact ih h.2 hsame.2

theorem Backed.snoc (h : Backed prev before (xs ++ [b]))
    (hsame : ∀ x ∈ xs ++ [b], prev' x = prev x) (ha : prev' a = some b) :
    Backed prev' before (xs ++ [b] ++ [a]) := by
  induction xs generalizing before with
  | nil => exact ⟨(hsame b (by simp)).trans h.1, ha, trivial⟩
  | cons x xs ih =>
      rw [List.cons_append, List.forall_mem_cons] at hsame
      exact ⟨hsame.1.trans h.1, ih h.2 hsame.2⟩

/-! ## Loops along a chain -/

section Loops

variable {σ ε ι : Type}

/-- {lit}`while (p != NULL)`.  The body {lit}`turn` changes the state and says where
{lit}`p` goes next, or leaves the program; {lit}`late` stands for a loop that has not
ended after the given number of turns. -/
def follow (turn : α → σ → Except ε (Option α × σ)) (late : ε) :
    Nat → Option α → σ → Except ε σ
  | _, none, s => .ok s
  | 0, some _, _ => .error late
  | turns + 1, some a, s =>
      match turn a s with
      | .error e => .error e
      | .ok (p, s') => follow turn late turns p s'

variable {turn : α → σ → Except ε (Option α × σ)} {late : ε} {turns : Nat}

/-- A loop whose body reads the link of its cell before it changes it, and leaves the
links of all other cells alone, handles the cells of the chain in order. -/
theorem follow_eq_foldl {link : σ → α → Option α} {body : σ → α → σ} {s : σ}
    (hturn : ∀ a s, turn a s = .ok (link s a, body s a))
    (hkeep : ∀ a b s, b ≠ a → link (body s a) b = link s b)
    (h : Path (link s) first xs) (hturns : xs.length ≤ turns) :
    follow turn late turns first s = .ok (xs.foldl body s) := by
  induction xs generalizing first s turns with
  | nil =>
      rw [show first = none from h]
      unfold follow
      rfl
  | cons a rest ih =>
      have hnodup := List.nodup_cons.1 h.nodup
      rw [h.1]
      cases turns with
      | zero => simp at hturns
      | succ turns =>
          simp only [follow, hturn]
          apply ih
          · apply h.2.congr
            intro x hx
            apply hkeep
            rintro rfl
            exact hnodup.1 hx
          · simpa using hturns

/-- The links of cells that are not handled stay as they are. -/
theorem foldl_link_eq {link : σ → α → Option α} {body : σ → α → σ}
    (hkeep : ∀ a b s, b ≠ a → link (body s a) b = link s b) {xs : List α} {b : α} (hb : b ∉ xs)
    (s : σ) : link (xs.foldl body s) b = link s b := by
  induction xs generalizing s with
  | nil => rfl
  | cons a rest ih =>
      rw [List.mem_cons, not_or] at hb
      rw [List.foldl_cons, ih hb.2, hkeep a b s hb.1]

/-- Such loops one after another, over chains that share no cell. -/
theorem foldlM_follow_eq_foldl {link : σ → α → Option α} {body : σ → α → σ} {s : σ}
    {heads : ι → Option α} {chain : ι → List α} {is : List ι}
    (hturn : ∀ a s, turn a s = .ok (link s a, body s a))
    (hkeep : ∀ a b s, b ≠ a → link (body s a) b = link s b)
    (hpaths : ∀ i ∈ is, Path (link s) (heads i) (chain i))
    (hnodup : (is.flatMap chain).Nodup) (hturns : ∀ i ∈ is, (chain i).length ≤ turns) :
    is.foldlM (fun s i => follow turn late turns (heads i) s) s =
      .ok ((is.flatMap chain).foldl body s) := by
  induction is generalizing s with
  | nil => rfl
  | cons i is ih =>
      rw [List.forall_mem_cons] at hpaths hturns
      rw [List.flatMap_cons, List.nodup_append] at hnodup
      rcases hnodup with ⟨_, hrest, hdisjoint⟩
      rw [List.foldlM_cons, follow_eq_foldl hturn hkeep hpaths.1 hturns.1,
        List.flatMap_cons, List.foldl_append]
      apply ih
      · intro j hj
        apply (hpaths.2 j hj).congr
        intro x hx
        apply foldl_link_eq hkeep
        intro hmem
        exact hdisjoint x hmem x (List.mem_flatMap.2 ⟨j, hj, hx⟩) rfl
      · exact hrest
      · exact hturns.2

/-- A loop that looks for a cell and breaks when it has found one. -/
theorem follow_search {turn : α → Option α → Except ε (Option α × Option α)} {p : α → Bool}
    (hturn : ∀ a found, turn a found = .ok (if p a then (none, some a) else (next a, none)))
    (h : Path next first xs) (hturns : xs.length ≤ turns) :
    follow turn late turns first none = .ok (xs.find? p) := by
  induction xs generalizing first turns with
  | nil =>
      rw [show first = none from h]
      unfold follow
      rfl
  | cons a rest ih =>
      rw [h.1]
      cases turns with
      | zero => simp at hturns
      | succ turns =>
          simp only [follow, hturn]
          cases hp : p a with
          | true =>
              rw [List.find?_cons_of_pos hp]
              unfold follow
              rfl
          | false =>
              rw [List.find?_cons_of_neg (by simp [hp])]
              exact ih h.2 (by simpa using hturns)

/-- A loop that compares back links and counts cells with {lit}`inc`. -/
theorem follow_backed {turn : α → Option α × σ → Except ε (Option α × (Option α × σ))}
    {inc : σ → σ} (hturn : ∀ a count, turn a (prev a, count) = .ok (next a, (some a, inc count)))
    (h : Path next first xs) (hback : Backed prev before xs) (hturns : xs.length ≤ turns)
    (count : σ) : ∃ last, follow turn late turns first (before, count) =
      .ok (last, inc^[xs.length] count) := by
  induction xs generalizing first before turns count with
  | nil =>
      rw [show first = none from h]
      unfold follow
      exact ⟨before, rfl⟩
  | cons a rest ih =>
      rw [h.1, ← hback.1]
      cases turns with
      | zero => simp at hturns
      | succ turns =>
          simp only [follow, hturn]
          exact ih h.2 hback.2 (by simpa using hturns) (inc count)

end Loops

end Chain
end Foundation
end Clacks
