import Clacks.Identifier.Accounting
import Mathlib.Data.List.Chain
import Mathlib.Data.List.Induction

/-!
# Refills at any moment

The functions of {lit}`id_generator.c` in any order, as a program that links the
module could call them.  A refill of a partly used pool generates the slots from the
head upward and moves the head to the last slot, so the slots below the head keep
uuids of an earlier batch.

Main results:

- Theorems {lit}`Pool.Stocked.update` and {lit}`Pool.Stocked.next`: what a refill and
  a draw do to the slots that hold unused uuids.
- Theorem {lit}`runCalls_sound`: the pool after any sequence of calls.
- Theorem {lit}`refills_safe`: no sequence of calls hands out a uuid twice.
-/

namespace Clacks
namespace Identifier

open Foundation

/-! ## Slots in stock -/

/-- The slots below {lit}`top` hold different generator outputs, none of which is among
the outputs {lit}`handed` that were given away. -/
structure Pool.Stocked (lib : Libuuid) (p : Pool) (top : Int) (handed : List Nat) : Prop where
  stock : ∃ output : Fin clMaxFreeUuids → Nat,
    (∀ i j : Fin clMaxFreeUuids, (i.val : Int) < top → (j.val : Int) < top →
      output i = output j → i = j) ∧
    ∀ j : Fin clMaxFreeUuids, (j.val : Int) < top →
      p.uuidList j = lib.generateTimeSafe (output j) ∧ output j < p.drawn ∧ output j ∉ handed
  handed_lt : ∀ k ∈ handed, k < p.drawn
  handed_nodup : handed.Nodup

section Stocked

variable {lib : Libuuid} {p : Pool} {handed : List Nat}

/-- A refill completes the stock: it keeps the slots below the head and generates the
others. -/
theorem Pool.Stocked.update (h : p.Stocked lib p.uuidListHd handed)
    (hhd : p.uuidListHd ≤ clMaxFreeUuids) :
    (updateUuidPool lib p).Stocked lib clMaxFreeUuids handed := by
  have hdrawn := updateUuidPool_drawn lib hhd
  rcases h.stock with ⟨output, hinj, hslots⟩
  refine ⟨⟨fun j => if p.uuidListHd.toNat ≤ j.val then p.drawn + (j.val - p.uuidListHd.toNat)
    else output j, ?_, ?_⟩, ?_, h.handed_nodup⟩
  · intro i j _ _ hij
    -- The old outputs are below the number of outputs drawn before, the new ones above.
    have hold : ∀ k : Fin clMaxFreeUuids, ¬p.uuidListHd.toNat ≤ k.val → output k < p.drawn :=
      fun k hk => (hslots k (by omega)).2.1
    by_cases hi : p.uuidListHd.toNat ≤ i.val
    · by_cases hj : p.uuidListHd.toNat ≤ j.val
      · simp only [hi, hj, if_true] at hij
        ext
        omega
      · simp only [hi, hj, if_true, if_false] at hij
        have hlt := hold j hj
        omega
    · by_cases hj : p.uuidListHd.toNat ≤ j.val
      · simp only [hi, hj, if_true, if_false] at hij
        have hlt := hold i hi
        omega
      · simp only [hi, hj, if_false] at hij
        exact hinj i j (by omega) (by omega) hij
  · intro j _
    rw [updateUuidPool_uuidList lib hhd]
    by_cases hj : p.uuidListHd.toNat ≤ j.val
    · simp only [hj, if_true, true_and]
      constructor
      · have hjlt := j.isLt
        omega
      · intro hmem
        have hlt := h.handed_lt _ hmem
        omega
    · simp only [hj, if_false]
      rcases hslots j (by omega) with ⟨hslot, hlt, hfresh⟩
      exact ⟨hslot, by omega, hfresh⟩
  · intro k hk
    have hlt := h.handed_lt k hk
    omega

/-- A draw takes the slot at the head out of the stock. -/
theorem Pool.Stocked.next (h : p.Stocked lib (p.uuidListHd + 1) handed)
    (hhd : 0 ≤ p.uuidListHd ∧ p.uuidListHd < clMaxFreeUuids) :
    ∃ k, (nextUuid lib p).1 = lib.unparse (lib.generateTimeSafe k) ∧
      (nextUuid lib p).2.Stocked lib ((nextUuid lib p).2.uuidListHd + 1) (handed ++ [k]) := by
  rcases h.stock with ⟨output, hinj, hslots⟩
  have hlt : p.uuidListHd.toNat < clMaxFreeUuids := by omega
  have hhead : (p.uuidListHd.toNat : Int) < p.uuidListHd + 1 := by omega
  rcases hslots ⟨p.uuidListHd.toNat, hlt⟩ hhead with ⟨hslot, hdrawn, hfresh⟩
  refine ⟨output ⟨p.uuidListHd.toNat, hlt⟩, ?_, ⟨output, ?_, ?_⟩, ?_, ?_⟩
  · simp only [nextUuid, Pool.slot, dif_pos hhd, hslot]
  · intro i j hi hj hij
    simp only [nextUuid] at hi hj
    exact hinj i j (by omega) (by omega) hij
  · intro j hj
    simp only [nextUuid] at hj ⊢
    rcases hslots j (by omega) with ⟨hslot', hdrawn', hfresh'⟩
    refine ⟨hslot', hdrawn', ?_⟩
    intro hmem
    rcases List.mem_append.1 hmem with hmem | hmem
    · exact hfresh' hmem
    · have hsame := hinj _ _ (by omega) hhead (List.mem_singleton.1 hmem)
      have hval := congrArg Fin.val hsame
      simp only at hval
      omega
  · intro k hk
    simp only [nextUuid]
    rcases List.mem_append.1 hk with hk | hk
    · exact h.handed_lt k hk
    · rw [List.mem_singleton.1 hk]
      exact hdrawn
  · rw [List.nodup_append]
    refine ⟨h.handed_nodup, List.nodup_singleton _, ?_⟩
    intro a ha b hb hab
    rw [List.mem_singleton.1 hb] at hab
    exact hfresh (hab ▸ ha)

/-- Fewer slots are in stock when the top is lower. -/
theorem Pool.Stocked.mono {top top' : Int} (h : p.Stocked lib top handed) (hle : top' ≤ top) :
    p.Stocked lib top' handed := by
  rcases h.stock with ⟨output, hinj, hslots⟩
  refine ⟨⟨output, ?_, ?_⟩, h.handed_lt, h.handed_nodup⟩
  · intro i j hi hj hij
    exact hinj i j (by omega) (by omega) hij
  · intro j hj
    exact hslots j (by omega)

end Stocked

/-! ## The pool between calls -/

/-- The pool between two calls: the head is in range or spent, and {lit}`out`, the
texts handed out so far, came from outputs that the slots up to the head do not hold. -/
structure Pool.Sound (lib : Libuuid) (p : Pool) (out : List (Buffer 37)) : Prop where
  hd_ge : -1 ≤ p.uuidListHd
  hd_lt : p.uuidListHd < clMaxFreeUuids
  ledger : ∃ handed : List Nat, out = handed.map (fun k => lib.unparse (lib.generateTimeSafe k)) ∧
    p.Stocked lib (p.uuidListHd + 1) handed

section Sound

variable {lib : Libuuid} {p : Pool} {out : List (Buffer 37)}

/-- The first refill of the process. -/
theorem Pool.Sound.first (surrounding : Int → Uuid) :
    (updateUuidPool lib (Pool.static surrounding)).Sound lib [] where
  hd_ge := by simp [clMaxFreeUuids]
  hd_lt := by simp [clMaxFreeUuids]
  ledger := by
    -- The head of the static pool is 0, so it has no slot in stock.
    have hempty : (Pool.static surrounding).Stocked lib 0 [] :=
      ⟨⟨fun _ => 0, fun _ _ hi => by omega, fun _ hj => by omega⟩, by simp, by simp⟩
    exact ⟨[], rfl, hempty.update (by simp [Pool.static])⟩

/-- A refill at any head. -/
theorem Pool.Sound.update (h : p.Sound lib out) : (updateUuidPool lib p).Sound lib out where
  hd_ge := by simp [clMaxFreeUuids]
  hd_lt := by simp [clMaxFreeUuids]
  ledger := by
    rcases h.ledger with ⟨handed, hout, hstocked⟩
    exact ⟨handed, hout, (hstocked.mono (by omega)).update h.hd_lt.le⟩

/-- A check leaves a head inside the array. -/
theorem Pool.Sound.check (h : p.Sound lib out) :
    (checkPool lib p).Sound lib out ∧ 0 ≤ (checkPool lib p).uuidListHd := by
  have hge := h.hd_ge
  unfold checkPool
  split
  · exact ⟨h.update, by simp [clMaxFreeUuids]⟩
  · exact ⟨h, by omega⟩

/-- A draw from a head inside the array. -/
theorem Pool.Sound.next (h : p.Sound lib out) (hhd : 0 ≤ p.uuidListHd) :
    (nextUuid lib p).2.Sound lib (out ++ [(nextUuid lib p).1]) := by
  have hlt := h.hd_lt
  rcases h.ledger with ⟨handed, hout, hstocked⟩
  rcases hstocked.next ⟨hhd, hlt⟩ with ⟨k, htext, hnext⟩
  refine ⟨?_, ?_, handed ++ [k], ?_, hnext⟩
  · simp only [nextUuid]
    omega
  · simp only [nextUuid]
    omega
  · rw [hout, htext, List.map_append, List.map_singleton]

/-- What a sound pool gives to the next draw, for a generator that did not repeat. -/
theorem Pool.Sound.unused (h : p.Sound lib out) (hlib : lib.Conforms)
    (hfresh : lib.FreshUpTo p.drawn) :
    (∀ i j : Fin clMaxFreeUuids, (i.val : Int) ≤ p.uuidListHd → (j.val : Int) ≤ p.uuidListHd →
      p.uuidList i = p.uuidList j → i = j) ∧
    (∀ j : Fin clMaxFreeUuids, (j.val : Int) ≤ p.uuidListHd →
      lib.unparse (p.uuidList j) ∉ out) ∧
    out.Nodup := by
  rcases h.ledger with ⟨handed, rfl, hstocked⟩
  rcases hstocked.stock with ⟨output, hinj, hslots⟩
  refine ⟨?_, ?_, ?_⟩
  · intro i j hi hj hij
    rcases hslots i (by omega) with ⟨hslot, hlt, _⟩
    rcases hslots j (by omega) with ⟨hslot', hlt', _⟩
    rw [hslot, hslot'] at hij
    exact hinj i j (by omega) (by omega) (hfresh hlt hlt' hij)
  · intro j hj hmem
    rcases hslots j (by omega) with ⟨hslot, hlt, hunused⟩
    rcases List.mem_map.1 hmem with ⟨k, hk, htext⟩
    rw [hslot] at htext
    have hsame := hfresh (hstocked.handed_lt k hk) hlt (hlib.unparse_injective htext)
    exact hunused (hsame ▸ hk)
  · apply List.Nodup.map_on ?_ hstocked.handed_nodup
    intro j hj k hk hjk
    exact hfresh (hstocked.handed_lt j hj) (hstocked.handed_lt k hk)
      (hlib.unparse_injective hjk)

end Sound

/-! ## Any sequence of calls -/

/-- A call of one of the three functions. -/
inductive PoolCall where
  | update
  | check
  | next
  deriving DecidableEq, Repr

/-- One call: the pool it leaves, and the texts handed out so far. -/
def PoolCall.run (lib : Libuuid) (st : Pool × List (Buffer 37)) :
    PoolCall → Pool × List (Buffer 37)
  | .update => (updateUuidPool lib st.1, st.2)
  | .check => (checkPool lib st.1, st.2)
  | .next => ((nextUuid lib st.1).2, st.2 ++ [(nextUuid lib st.1).1])

/-- The calls of a process in order, from its static state. -/
def runCalls (lib : Libuuid) (surrounding : Int → Uuid) (calls : List PoolCall) :
    Pool × List (Buffer 37) :=
  calls.foldl (PoolCall.run lib) (Pool.static surrounding, [])

/-- No two draws follow each other directly. -/
def Spaced (calls : List PoolCall) : Prop :=
  calls.IsChain fun a b => ¬(a = .next ∧ b = .next)

instance : DecidablePred Spaced := fun calls => inferInstanceAs (Decidable (calls.IsChain _))

section Run

variable {lib : Libuuid} {surrounding : Int → Uuid}

@[simp]
theorem runCalls_append (calls later : List PoolCall) :
    runCalls lib surrounding (calls ++ later) =
      later.foldl (PoolCall.run lib) (runCalls lib surrounding calls) := by
  simp [runCalls]

/-- No call takes back a generator output. -/
theorem PoolCall.drawn_le (st : Pool × List (Buffer 37)) (call : PoolCall) :
    st.1.drawn ≤ (call.run lib st).1.drawn := by
  have hfill : ∀ (slots : List (Fin clMaxFreeUuids)) (p : Pool),
      p.drawn ≤ (slots.foldl (fillSlot lib) p).drawn := by
    intro slots
    induction slots with
    | nil => simp
    | cons i slots ih => exact fun p => (Nat.le_succ _).trans (ih (fillSlot lib p i))
  cases call with
  | update => exact hfill _ _
  | check =>
      simp only [run, checkPool]
      split
      · exact hfill _ _
      · exact Nat.le_refl _
  | next => exact Nat.le_refl _

theorem drawn_le_foldl (calls : List PoolCall) (st : Pool × List (Buffer 37)) :
    st.1.drawn ≤ (calls.foldl (PoolCall.run lib) st).1.drawn := by
  induction calls generalizing st with
  | nil => exact Nat.le_refl _
  | cons call calls ih => exact (PoolCall.drawn_le st call).trans (ih _)

/-- One call keeps the pool sound when a draw finds the head inside the array; after
the two other calls it is there. -/
theorem PoolCall.sound {st : Pool × List (Buffer 37)} {call : PoolCall}
    (h : st.1.Sound lib st.2) (hdraw : call = .next → 0 ≤ st.1.uuidListHd) :
    (call.run lib st).1.Sound lib (call.run lib st).2 ∧
      (call ≠ .next → 0 ≤ (call.run lib st).1.uuidListHd) := by
  cases call with
  | update => exact ⟨h.update, fun _ => by simp [run, clMaxFreeUuids]⟩
  | check => exact ⟨h.check.1, fun _ => h.check.2⟩
  | next => exact ⟨h.next (hdraw rfl), fun hne => absurd rfl hne⟩

/-- The pool after any sequence of calls that begins with a refill and keeps its draws
apart. -/
theorem runCalls_sound (lib : Libuuid) (surrounding : Int → Uuid) (calls : List PoolCall)
    (hspaced : Spaced (.update :: calls)) :
    let st := runCalls lib surrounding (.update :: calls)
    st.1.Sound lib st.2 ∧
      ((.update :: calls).getLast? ≠ some .next → 0 ≤ st.1.uuidListHd) := by
  -- Induction on the calls after the first, from the last one backwards.
  induction calls using List.reverseRecOn with
  | nil =>
      exact ⟨Pool.Sound.first surrounding, fun _ => by
        simp [runCalls, PoolCall.run, clMaxFreeUuids]⟩
  | append_singleton calls call ih =>
      rw [← List.cons_append] at hspaced ⊢
      rcases List.isChain_append.1 hspaced with ⟨hbefore, _, hlast⟩
      rcases ih hbefore with ⟨hsound, hhd⟩
      have hdraw : call = .next →
          0 ≤ (runCalls lib surrounding (.update :: calls)).1.uuidListHd := by
        intro hnext
        apply hhd
        intro hend
        exact hlast .next hend call rfl ⟨rfl, hnext⟩
      rcases PoolCall.sound hsound hdraw with ⟨hsound', hhd'⟩
      simp only [runCalls_append, List.foldl_cons, List.foldl_nil]
      refine ⟨hsound', ?_⟩
      intro hend
      apply hhd'
      intro hnext
      apply hend
      rw [hnext, List.getLast?_concat]

/-- Refills and checks in any order are safe.  Before every draw the head is inside the
array, the slots up to it hold pairwise different uuids, and none of them was handed
out; over the whole sequence no text is handed out twice. -/
theorem refills_safe (hlib : lib.Conforms) (calls : List PoolCall)
    (hspaced : Spaced (.update :: calls))
    (hfresh : lib.FreshUpTo (runCalls lib surrounding (.update :: calls)).1.drawn) :
    (∀ before after, .update :: calls = before ++ .next :: after →
      let p := (runCalls lib surrounding before).1
      let out := (runCalls lib surrounding before).2
      (0 ≤ p.uuidListHd ∧ p.uuidListHd < clMaxFreeUuids) ∧
      (∀ i j : Fin clMaxFreeUuids, (i.val : Int) ≤ p.uuidListHd →
        (j.val : Int) ≤ p.uuidListHd → p.uuidList i = p.uuidList j → i = j) ∧
      (∀ j : Fin clMaxFreeUuids, (j.val : Int) ≤ p.uuidListHd →
        lib.unparse (p.uuidList j) ∉ out)) ∧
    (runCalls lib surrounding (.update :: calls)).2.Nodup := by
  constructor
  · intro before after hcalls
    cases before with
    | nil => simp at hcalls
    | cons call before =>
        rw [List.cons_append, List.cons.injEq] at hcalls
        rcases hcalls with ⟨rfl, rfl⟩
        rw [← List.cons_append] at hspaced hfresh
        rcases List.isChain_append.1 hspaced with ⟨hbefore, _, hlast⟩
        rcases runCalls_sound lib surrounding before hbefore with ⟨hsound, hhd⟩
        rw [runCalls_append] at hfresh
        have hunused := hsound.unused hlib (hfresh.mono (drawn_le_foldl _ _))
        refine ⟨⟨hhd ?_, hsound.hd_lt⟩, hunused.1, hunused.2.1⟩
        intro hend
        exact hlast .next hend .next rfl ⟨rfl, rfl⟩
  · exact ((runCalls_sound lib surrounding calls hspaced).1.unused hlib hfresh).2.2

end Run

/-- A refill in the middle of a batch: it generates slot 125 again before its use. -/
theorem refills_safe_mid_batch :
    (runCalls timeLibuuid (fun _ => Buffer.fill 16 0)
      [.update, .next, .check, .next, .update, .next]).2.Nodup := by
  refine (refills_safe timeLibuuid_conforms [.next, .check, .next, .update, .next] (by decide)
    (timeLibuuid_freshUpTo.mono ?_)).2
  simp only [runCalls, PoolCall.run, List.foldl_cons, List.foldl_nil, checkPool, nextUuid,
    updateUuidPool_uuidListHd, Pool.static]
  rw [if_neg (by decide), updateUuidPool_drawn _ (by decide), updateUuidPool_drawn _ (by decide)]
  decide

end Identifier
end Clacks
