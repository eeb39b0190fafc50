import Clacks.Identifier.Libuuid
import Mathlib.Data.List.FinRange

/-!
# The uuid pool

Model of {lit}`id_generator.c`: an array of pre-generated uuids and a head index
that counts down.  The head reaches {lit}`-1` after the last slot is used, and
only then does {lit}`check_pool` generate a new batch.

Main results:

- Theorem {lit}`updateUuidPool_uuidList`: the slots a refill writes, for every
  head index.
- Theorem {lit}`Pool.At.draw`: the pool after {lit}`n` draws gives generator
  output {lit}`drawIndex n` and becomes the pool after {lit}`n + 1` draws.
- Theorem {lit}`range_map_drawIndex_perm`: which generator outputs {lit}`n` draws
  have used.
-/

namespace Clacks
namespace Identifier

open Foundation

/-- {lit}`CL_MAX_FREE_UUIDS`. -/
def clMaxFreeUuids : Nat := 128

/-- The static state of {lit}`id_generator.c`.  {lit}`drawn` counts the calls made
to the generator and {lit}`surrounding` is the memory an index outside the array
would reach. -/
structure Pool where
  uuidListHd : Int
  uuidList : Fin clMaxFreeUuids → Uuid
  drawn : Nat
  surrounding : Int → Uuid

/-- The loop body {lit}`uuid_generate_time_safe(uuid_list[i])`. -/
def fillSlot (lib : Libuuid) (p : Pool) (i : Fin clMaxFreeUuids) : Pool :=
  { p with
    uuidList := Function.update p.uuidList i (lib.generateTimeSafe p.drawn)
    drawn := p.drawn + 1 }

/-- {lit}`update_uuid_pool`: clamp the head, generate the slots from the head
upward, and put the head on the last slot. -/
def updateUuidPool (lib : Libuuid) (p : Pool) : Pool :=
  let hd := if p.uuidListHd < 0 then 0 else p.uuidListHd
  let filled := ((List.finRange clMaxFreeUuids).drop hd.toNat).foldl (fillSlot lib) p
  { filled with uuidListHd := clMaxFreeUuids - 1 }

/-- {lit}`uuid_list[i]` for any index. -/
def Pool.slot (p : Pool) (i : Int) : Uuid :=
  if h : 0 ≤ i ∧ i < clMaxFreeUuids then p.uuidList ⟨i.toNat, by omega⟩
  else p.surrounding i

/-- {lit}`next_uuid`: the text of the slot at the head; the head moves down. -/
def nextUuid (lib : Libuuid) (p : Pool) : Buffer 37 × Pool :=
  (lib.unparse (p.slot p.uuidListHd), { p with uuidListHd := p.uuidListHd - 1 })

/-- {lit}`check_pool`. -/
def checkPool (lib : Libuuid) (p : Pool) : Pool :=
  if p.uuidListHd = -1 then updateUuidPool lib p else p

/-! ## One refill -/

section Refill

variable (lib : Libuuid)

theorem foldl_fillSlot (p : Pool) {h : Nat} (hh : h ≤ clMaxFreeUuids) :
    let q := ((List.finRange clMaxFreeUuids).drop h).foldl (fillSlot lib) p
    q.drawn = p.drawn + (clMaxFreeUuids - h) ∧ q.surrounding = p.surrounding ∧
      ∀ j, q.uuidList j =
        if h ≤ j.val then lib.generateTimeSafe (p.drawn + (j.val - h)) else p.uuidList j := by
  -- Induction on the number of slots left; each step writes the lowest one.
  obtain ⟨left, hleft⟩ : ∃ left, clMaxFreeUuids - h = left := ⟨_, rfl⟩
  induction left generalizing p h with
  | zero =>
      have hnil : (List.finRange clMaxFreeUuids).drop h = [] :=
        List.drop_eq_nil_of_le (by simp only [List.length_finRange]; omega)
      simp only [hnil, List.foldl_nil, hleft, Nat.add_zero, true_and]
      intro j
      rw [if_neg (by omega)]
  | succ left ih =>
      have hlt : h < clMaxFreeUuids := by omega
      have hcons : (List.finRange clMaxFreeUuids).drop h =
          ⟨h, hlt⟩ :: (List.finRange clMaxFreeUuids).drop (h + 1) := by
        rw [List.drop_eq_getElem_cons (by simpa using hlt), List.getElem_finRange]
        rfl
      rcases ih (fillSlot lib p ⟨h, hlt⟩) (h := h + 1) hlt (by omega) with ⟨hdrawn, hsurr, hslots⟩
      simp only [hcons, List.foldl_cons]
      refine ⟨?_, hsurr, ?_⟩
      · rw [hdrawn]
        simp only [fillSlot]
        omega
      · intro j
        rw [hslots j]
        by_cases hj : h + 1 ≤ j.val
        · rw [if_pos hj, if_pos (by omega)]
          simp only [fillSlot]
          congr 1
          omega
        · rw [if_neg hj]
          by_cases heq : h ≤ j.val
          · have hjh : j = ⟨h, hlt⟩ := by
              ext
              change j.val = h
              omega
            subst hjh
            simp [fillSlot]
          · have hne : j ≠ ⟨h, hlt⟩ := fun e => heq (by simp [e])
            simp [fillSlot, heq, hne]

@[simp]
theorem updateUuidPool_uuidListHd (p : Pool) :
    (updateUuidPool lib p).uuidListHd = clMaxFreeUuids - 1 :=
  rfl

/-- The number of generator calls of a refill is the number of slots it writes. -/
theorem updateUuidPool_drawn {p : Pool} (hhd : p.uuidListHd ≤ clMaxFreeUuids) :
    (updateUuidPool lib p).drawn = p.drawn + (clMaxFreeUuids - p.uuidListHd.toNat) := by
  have hclamp : (if p.uuidListHd < 0 then 0 else p.uuidListHd).toNat = p.uuidListHd.toNat := by
    split <;> omega
  simp only [updateUuidPool, hclamp]
  exact (foldl_fillSlot lib p (by omega)).1

/-- A refill writes the slots from the clamped head upward, in order, and no other. -/
theorem updateUuidPool_uuidList {p : Pool} (hhd : p.uuidListHd ≤ clMaxFreeUuids)
    (j : Fin clMaxFreeUuids) :
    (updateUuidPool lib p).uuidList j =
      if p.uuidListHd.toNat ≤ j.val then
        lib.generateTimeSafe (p.drawn + (j.val - p.uuidListHd.toNat))
      else p.uuidList j := by
  have hclamp : (if p.uuidListHd < 0 then 0 else p.uuidListHd).toNat = p.uuidListHd.toNat := by
    split <;> omega
  simp only [updateUuidPool, hclamp]
  exact (foldl_fillSlot lib p (by omega)).2.2 j

end Refill

/-! ## The pool after a number of draws -/

/-- The generator output handed out by draw number {lit}`k`, counting from zero. -/
def drawIndex (k : Nat) : Nat :=
  128 * (k / 128) + 127 - k % 128

/-- The pool as it stands between requests, {lit}`n` draws after its first refill. -/
structure Pool.At (lib : Libuuid) (n : Nat) (p : Pool) : Prop where
  hd_eq : p.uuidListHd = 127 - (n % 128 : Nat)
  drawn_eq : p.drawn = 128 * (n / 128) + 128
  slot_eq : ∀ j, p.uuidList j = lib.generateTimeSafe (128 * (n / 128) + j.val)

/-- The head stays inside the array between requests. -/
theorem Pool.At.hd_mem {lib : Libuuid} {n : Nat} {p : Pool} (h : p.At lib n) :
    0 ≤ p.uuidListHd ∧ p.uuidListHd < clMaxFreeUuids := by
  have hhd := h.hd_eq
  unfold clMaxFreeUuids
  omega

/-- The pool of a fresh process is at its start after the first refill. -/
theorem updateUuidPool_at_zero (lib : Libuuid) {p : Pool} (hhd : p.uuidListHd = 0)
    (hdrawn : p.drawn = 0) : (updateUuidPool lib p).At lib 0 where
  hd_eq := rfl
  drawn_eq := by
    rw [updateUuidPool_drawn lib (by simp [hhd]), hhd, hdrawn]
    rfl
  slot_eq j := by
    rw [updateUuidPool_uuidList lib (by simp [hhd]), hhd, hdrawn]
    simp

/-- One request: the uuid handed out and the pool left behind. -/
theorem Pool.At.draw {lib : Libuuid} {n : Nat} {p : Pool} (h : p.At lib n) :
    (nextUuid lib p).1 = lib.unparse (lib.generateTimeSafe (drawIndex n)) ∧
      (checkPool lib (nextUuid lib p).2).At lib (n + 1) := by
  have hhd := h.hd_eq
  constructor
  · have hrange := h.hd_mem
    simp only [nextUuid, Pool.slot, dif_pos hrange, h.slot_eq, drawIndex]
    congr 2
    omega
  · by_cases hlast : n % 128 = 127
    · -- The last slot of the batch was used: the head is -1 and a new batch is generated.
      have hneg : (nextUuid lib p).2.uuidListHd = -1 := by
        simp only [nextUuid]
        omega
      rw [checkPool, if_pos hneg]
      refine ⟨?_, ?_, ?_⟩
      · rw [updateUuidPool_uuidListHd]
        unfold clMaxFreeUuids
        omega
      · rw [updateUuidPool_drawn lib (by simp [hneg]), hneg]
        simp only [nextUuid, h.drawn_eq, clMaxFreeUuids]
        omega
      · intro j
        rw [updateUuidPool_uuidList lib (by simp [hneg]), hneg]
        simp only [nextUuid, h.drawn_eq]
        rw [if_pos (by simp)]
        congr 1
        omega
    · have hnn : (nextUuid lib p).2.uuidListHd ≠ -1 := by
        simp only [nextUuid]
        omega
      have hdiv : (n + 1) / 128 = n / 128 := by omega
      rw [checkPool, if_neg hnn]
      refine ⟨?_, ?_, ?_⟩
      · simp only [nextUuid]
        omega
      · simp only [nextUuid, h.drawn_eq, hdiv]
      · intro j
        simp only [nextUuid, h.slot_eq, hdiv]

/-! ## Which outputs have been handed out -/

/-- Inside its batch, draw {lit}`k` and output {lit}`k` mirror each other. -/
theorem drawIndex_involutive : Function.Involutive drawIndex := by
  intro k
  unfold drawIndex
  omega

/-- A generator output has been handed out within {lit}`n` draws exactly when it
belongs to a completed batch or to the used top of the current one. -/
theorem drawIndex_lt_iff (n a : Nat) :
    drawIndex a < n ↔
      a < 128 * (n / 128) ∨
        128 * (n / 128) + (128 - n % 128) ≤ a ∧ a < 128 * (n / 128) + 128 := by
  unfold drawIndex
  omega

/-- Every output handed out within {lit}`n` draws was generated by then. -/
theorem drawIndex_lt_drawn {n k : Nat} (hk : k < n) : drawIndex k < 128 * (n / 128) + 128 := by
  unfold drawIndex
  omega

/-- The outputs of {lit}`n` draws: every completed batch, and the last
{lit}`n % 128` outputs of the current one. -/
theorem range_map_drawIndex_perm (n : Nat) :
    ((List.range n).map drawIndex).Perm
      (List.range (128 * (n / 128)) ++
        List.range' (128 * (n / 128) + (128 - n % 128)) (n % 128)) := by
  have hleft : ((List.range n).map drawIndex).Nodup :=
    List.nodup_range.map drawIndex_involutive.injective
  have hright : (List.range (128 * (n / 128)) ++
      List.range' (128 * (n / 128) + (128 - n % 128)) (n % 128)).Nodup := by
    refine List.nodup_append.2 ⟨List.nodup_range, List.nodup_range', ?_⟩
    intro a ha b hb
    simp only [List.mem_range, List.mem_range'_1] at ha hb
    omega
  rw [List.perm_ext_iff_of_nodup hleft hright]
  intro a
  have hmem : a ∈ (List.range n).map drawIndex ↔ drawIndex a < n := by
    simp only [List.mem_map, List.mem_range]
    constructor
    · rintro ⟨k, hk, rfl⟩
      rwa [drawIndex_involutive k]
    · intro h
      exact ⟨drawIndex a, h, drawIndex_involutive a⟩
  rw [hmem, drawIndex_lt_iff]
  simp only [List.mem_append, List.mem_range, List.mem_range'_1]
  omega

end Identifier
end Clacks
