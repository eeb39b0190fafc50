import Mathlib.Algebra.BigOperators.Ring.Finset
import Mathlib.Algebra.Order.Floor.Div
import Clacks.Uthash.Integrity

/-!
# What an expansion measures

While {lit}`HASH_EXPAND_BUCKETS` moves the items it counts those that stand too far back
in their chains, and gives each bucket that is too long a multiplier that delays the next
expansion.  Here is what these numbers say about the chains behind it, and the bound on
the load of the table that they give.

Main results:

- Theorem {lit}`Filed.measured`: the ideal chain length, the number of items beyond it
  and the multipliers.
- Theorem {lit}`Measured.budget`: the chains and the room the multipliers leave add up
  to at most 19 items a bucket.
- Theorem {lit}`Table.Step.budget`: so it is after every addition, until expansion is
  inhibited.
-/

namespace Clacks
namespace Uthash

open Foundation Chain

variable {α : Type}

/-! ## Counting while items move -/

theorem lt_ofNat_add_one_iff {m : UInt32} {n : Nat} (h : n + 1 < 2 ^ 32) :
    m < UInt32.ofNat n + 1 ↔ m.toNat ≤ n := by
  have hsucc : UInt32.ofNat n + 1 = UInt32.ofNat (n + 1) := by
    rw [UInt32.ofNat_add]
    rfl
  rw [hsucc, UInt32.lt_ofNat_iff h, Nat.lt_succ_iff]

theorem ofNat_div {m : UInt32} {n : Nat} (h : n < 2 ^ 32) :
    UInt32.ofNat n / m = UInt32.ofNat (n / m.toNat) := by
  rw [← UInt32.toNat_inj, UInt32.toNat_div, UInt32.toNat_ofNat', UInt32.toNat_ofNat',
    Nat.mod_eq_of_lt h, Nat.mod_eq_of_lt ((Nat.div_le_self _ _).trans_lt h)]

section Moved

variable [DecidableEq α] {ideal numBkts : UInt32} {hh : α → Handle α} {xs : List α} {n : Nat}

/-- The turn that moves {lit}`a`, in terms of the chain it goes to. -/
theorem Rehash.after_move (hnodup : xs.Nodup) (hfew : xs.length + 1 < 2 ^ 32) (a : α) :
    ((Rehash.after ideal numBkts hh xs).move ideal numBkts a).nonidealItems =
        (Rehash.after ideal numBkts hh xs).nonidealItems +
          (if ideal.toNat ≤ (bin (placeOf hh numBkts) xs (placeOf hh numBkts a)).length then 1
            else 0) ∧
      ∀ b, (((Rehash.after ideal numBkts hh xs).move ideal numBkts a).newBuckets b).expandMult =
        if b = placeOf hh numBkts a ∧
            ideal.toNat ≤ (bin (placeOf hh numBkts) xs (placeOf hh numBkts a)).length then
          UInt32.ofNat
            (((bin (placeOf hh numBkts) xs (placeOf hh numBkts a)).length + 1) / ideal.toNat)
        else ((Rehash.after ideal numBkts hh xs).newBuckets b).expandMult := by
  have hplace : hashToBkt ((Rehash.after ideal numBkts hh xs).hh a).hashv numBkts =
      placeOf hh numBkts a := placeOf_congr (Rehash.after_core xs a) numBkts
  have hcount : ((Rehash.after ideal numBkts hh xs).newBuckets (placeOf hh numBkts a)).count =
      UInt32.ofNat (bin (placeOf hh numBkts) xs (placeOf hh numBkts a)).length := by
    rw [(Rehash.after_chained hnodup).count, List.length_reverse]
  have hlength : (bin (placeOf hh numBkts) xs (placeOf hh numBkts a)).length + 1 < 2 ^ 32 :=
    (Nat.succ_le_succ length_bin_le).trans_lt hfew
  have hmult : (UInt32.ofNat (bin (placeOf hh numBkts) xs (placeOf hh numBkts a)).length + 1) /
      ideal = UInt32.ofNat
        (((bin (placeOf hh numBkts) xs (placeOf hh numBkts a)).length + 1) / ideal.toNat) := by
    rw [← ofNat_div hlength, UInt32.ofNat_add]
    rfl
  simp only [Rehash.move, hplace, hcount, lt_ofNat_add_one_iff hlength, hmult]
  constructor
  · split
    · rfl
    · rw [UInt32.add_zero]
  · intro b
    by_cases hb : b = placeOf hh numBkts a
    · subst hb
      simp
    · simp [hb]

/-- Every item that finds its new chain at the ideal length or longer is counted. -/
theorem Rehash.after_nonidealItems (hplace : ∀ a, placeOf hh numBkts a < n) (hnodup : xs.Nodup)
    (hfew : xs.length < 2 ^ 32) : (Rehash.after ideal numBkts hh xs).nonidealItems =
      UInt32.ofNat (∑ b ∈ Finset.range n,
        ((bin (placeOf hh numBkts) xs b).length - ideal.toNat)) := by
  induction xs using List.reverseRecOn with
  | nil => simp [after]
  | append_singleton xs a ih =>
      have hxs := (List.nodup_append.1 hnodup).1
      rw [List.length_append, List.length_singleton] at hfew
      rw [after_concat, (after_move hxs hfew a).1, ih hxs (Nat.lt_of_succ_lt hfew),
        sum_excess_concat (hplace a), UInt32.ofNat_add]
      congr 1
      split
      · rfl
      · rfl

/-- The multiplier of a bucket is the length of its chain in ideal lengths, or zero when
the chain is not longer than one. -/
theorem Rehash.after_expandMult (hnodup : xs.Nodup) (hfew : xs.length < 2 ^ 32) (b : Nat) :
    ((Rehash.after ideal numBkts hh xs).newBuckets b).expandMult =
      if ideal.toNat < (bin (placeOf hh numBkts) xs b).length then
        UInt32.ofNat ((bin (placeOf hh numBkts) xs b).length / ideal.toNat)
      else 0 := by
  induction xs using List.reverseRecOn with
  | nil => rfl
  | append_singleton xs a ih =>
      have hxs := (List.nodup_append.1 hnodup).1
      rw [List.length_append, List.length_singleton] at hfew
      rw [after_concat, (after_move hxs hfew a).2 b, ih hxs (Nat.lt_of_succ_lt hfew),
        length_bin_concat]
      by_cases hb : b = placeOf hh numBkts a
      · subst hb
        by_cases hlong : ideal.toNat ≤
            (bin (placeOf hh numBkts) xs (placeOf hh numBkts a)).length
        · have hlonger := Nat.lt_succ_of_le hlong
          simp [hlong, hlonger]
        · have hshort : ¬ideal.toNat <
              (bin (placeOf hh numBkts) xs (placeOf hh numBkts a)).length + 1 := by omega
          have hshorter : ¬ideal.toNat <
              (bin (placeOf hh numBkts) xs (placeOf hh numBkts a)).length := by omega
          simp [hlong, hshort, hshorter]
      · simp [hb]

end Moved

/-! ## Behind an expansion -/

/-- What the fields that an expansion sets say about the chains of a table. -/
structure Measured (tbl : Table α) (chain : Nat → List α) (items : Nat) : Prop where
  ideal : tbl.idealChainMaxlen.toNat = items ⌈/⌉ tbl.numBuckets.toNat
  nonideal : tbl.nonidealItems.toNat = ∑ b ∈ Finset.range tbl.numBuckets.toNat,
    ((chain b).drop tbl.idealChainMaxlen.toNat).length
  expandMult : ∀ b, (tbl.buckets b).expandMult.toNat =
    if tbl.idealChainMaxlen.toNat < (chain b).length then
      (chain b).length / tbl.idealChainMaxlen.toNat
    else 0

section Filed

variable {hh : α → Handle α} {tbl : Table α} {order : List α} {chain : Nat → List α}

theorem Filed.length_le (h : Filed hh tbl order chain) (b : Nat) :
    (chain b).length ≤ order.length := by
  rw [(h.bins b).length_eq]
  exact length_bin_le

/-- The lengths of the chains add up to the number of elements. -/
theorem Filed.sum_length (h : Filed hh tbl order chain) :
    ∑ b ∈ Finset.range tbl.numBuckets.toNat, (chain b).length = order.length := by
  rw [← sum_length_bins fun a _ => h.place_lt a]
  exact Finset.sum_congr rfl fun b _ => (h.bins b).length_eq

theorem Filed.count_toNat (h : Filed hh tbl order chain) (hfew : order.length < 2 ^ 32)
    (b : Nat) : (tbl.buckets b).count.toNat = (chain b).length := by
  rw [h.chained.count b, UInt32.toNat_ofNat', Nat.mod_eq_of_lt ((h.length_le b).trans_lt hfew)]

theorem Filed.numBuckets_pos (h : Filed hh tbl order chain) : 0 < tbl.numBuckets.toNat := by
  rw [h.size]
  exact Nat.two_pow_pos _

/-- The numbers behind an expansion. -/
theorem Filed.measured [DecidableEq α] {alloc : Nat → Bool} (h : Filed hh tbl order chain)
    (hnodup : order.Nodup) (hitems : tbl.numItems = UInt32.ofNat order.length)
    (hfew : order.length < 2 ^ 32) (hlimit : ∀ n, 2 ^ 36 ≤ n → alloc n = false)
    (hgrant : alloc (2 * tbl.numBuckets.toNat * sizeofBucket) = true) :
    Measured (tbl.expanded (Rehash.after tbl.ideal (tbl.numBuckets * 2) hh (tbl.items chain)))
      (fun b => (bin (placeOf hh (tbl.numBuckets * 2)) (tbl.items chain) b).reverse)
      order.length := by
  rcases h.double hlimit hgrant with ⟨hlog, hlog_le, hsize⟩
  have hxs : (tbl.items chain).Nodup := h.items_perm.nodup_iff.2 hnodup
  have hlength : (tbl.items chain).length < 2 ^ 32 := by
    rw [h.items_perm.length_eq]
    exact hfew
  have hplace : ∀ a, placeOf hh (tbl.numBuckets * 2) a < (tbl.numBuckets * 2).toNat :=
    fun a => hashToBkt_lt hsize _
  refine ⟨?_, ?_, ?_⟩
  · simp only [Table.expanded]
    rw [Table.ideal_toNat hlog hlog_le hsize, hitems, UInt32.toNat_ofNat', Nat.mod_eq_of_lt hfew,
      Nat.ceilDiv_eq_add_pred_div, hsize]
    have hpos := Nat.two_pow_pos (tbl.log2NumBuckets.toNat + 1)
    congr 1
    omega
  · have hle : ∑ b ∈ Finset.range (tbl.numBuckets * 2).toNat,
        ((bin (placeOf hh (tbl.numBuckets * 2)) (tbl.items chain) b).length - tbl.ideal.toNat) ≤
        (tbl.items chain).length := by
      rw [← sum_length_bins fun a _ => hplace a]
      exact Finset.sum_le_sum fun b _ => Nat.sub_le _ _
    simp only [Table.expanded, List.length_drop, List.length_reverse]
    rw [Rehash.after_nonidealItems hplace hxs hlength, UInt32.toNat_ofNat',
      Nat.mod_eq_of_lt (hle.trans_lt hlength)]
  · intro b
    simp only [Table.expanded, List.length_reverse]
    rw [Rehash.after_expandMult hxs hlength]
    split
    · rw [UInt32.toNat_ofNat', Nat.mod_eq_of_lt]
      exact (Nat.div_le_self _ _).trans_lt (length_bin_le.trans_lt hlength)
    · rfl

end Filed

/-! ## The load of a table -/

/-- What a bucket may hold before it calls for an expansion, or what it does hold. -/
def Table.reach (tbl : Table α) (b : Nat) : Nat :=
  max (tbl.buckets b).count.toNat (10 * (tbl.buckets b).expandMult.toNat + 9)

/-- A bucket may hold 19 items on average. -/
def Table.Budget (tbl : Table α) : Prop :=
  ∑ b ∈ Finset.range tbl.numBuckets.toNat, tbl.reach b ≤ 19 * tbl.numBuckets.toNat

section Budget

variable {hh : α → Handle α} {tbl : Table α} {order : List α} {chain : Nat → List α}

theorem budget_made (head : α) : (Table.made head).Budget := by
  simp only [Table.Budget, Table.made, Table.reach, Bucket.zero, UInt32.toNat_zero, Nat.mul_zero,
    Nat.zero_add, Nat.zero_max, Finset.sum_const, Finset.card_range, smul_eq_mul]
  omega

/-- A table within the budget has at most 19 items a bucket. -/
theorem Filed.length_le_of_budget (h : Filed hh tbl order chain) (hfew : order.length < 2 ^ 32)
    (hbudget : tbl.Budget) : order.length ≤ 19 * tbl.numBuckets.toNat := by
  rw [← h.sum_length]
  refine le_trans (Finset.sum_le_sum fun b _ => ?_) hbudget
  rw [← h.count_toNat hfew b]
  exact le_max_left _ _

/-- When there are ten items a bucket or fewer, the multipliers of an expansion are within
the budget: a chain of ideal length {lit}`m` gets room for at most ten times its length
and nine times {lit}`m` more. -/
theorem Measured.budget (h : Filed hh tbl order chain) (hmeasured : Measured tbl chain order.length)
    (hfew : order.length < 2 ^ 32) (hne : order ≠ [])
    (hload : order.length ≤ 10 * tbl.numBuckets.toNat) : tbl.Budget := by
  have hpos := h.numBuckets_pos
  have hideal_le : tbl.idealChainMaxlen.toNat ≤ 10 := by
    rw [hmeasured.ideal, ceilDiv_le_iff_le_mul hpos, Nat.mul_comm]
    exact hload
  have hcover : order.length ≤ tbl.numBuckets.toNat * tbl.idealChainMaxlen.toNat := by
    rw [hmeasured.ideal, ← ceilDiv_le_iff_le_mul hpos]
  have hideal_pos : 0 < tbl.idealChainMaxlen.toNat := by
    by_contra hzero
    rw [Nat.eq_zero_of_not_pos hzero, Nat.mul_zero] at hcover
    exact hne (List.eq_nil_of_length_eq_zero (Nat.le_zero.1 hcover))
  have hreach : ∀ b, tbl.idealChainMaxlen.toNat * tbl.reach b ≤
      10 * (chain b).length + 9 * tbl.idealChainMaxlen.toNat := by
    intro b
    rw [Table.reach, h.count_toNat hfew, hmeasured.expandMult]
    by_cases hlong : tbl.idealChainMaxlen.toNat < (chain b).length
    · rw [if_pos hlong, ← Nat.mul_max_mul_left, max_le_iff]
      have hdiv := Nat.div_mul_le_self (chain b).length tbl.idealChainMaxlen.toNat
      constructor
      · exact (Nat.mul_le_mul_right _ hideal_le).trans (Nat.le_add_right _ _)
      · rw [Nat.mul_add, Nat.mul_left_comm, Nat.mul_comm tbl.idealChainMaxlen.toNat (_ / _),
          Nat.mul_comm tbl.idealChainMaxlen.toNat 9]
        omega
    · rw [if_neg hlong, ← Nat.mul_max_mul_left, max_le_iff]
      constructor
      · exact (Nat.mul_le_mul_right _ hideal_le).trans (Nat.le_add_right _ _)
      · omega
  have hsum : tbl.idealChainMaxlen.toNat *
      ∑ b ∈ Finset.range tbl.numBuckets.toNat, tbl.reach b ≤
        tbl.idealChainMaxlen.toNat * (19 * tbl.numBuckets.toNat) := by
    calc tbl.idealChainMaxlen.toNat * ∑ b ∈ Finset.range tbl.numBuckets.toNat, tbl.reach b
        = ∑ b ∈ Finset.range tbl.numBuckets.toNat, tbl.idealChainMaxlen.toNat * tbl.reach b :=
          Finset.mul_sum _ _ _
      _ ≤ ∑ b ∈ Finset.range tbl.numBuckets.toNat,
            (10 * (chain b).length + 9 * tbl.idealChainMaxlen.toNat) :=
          Finset.sum_le_sum fun b _ => hreach b
      _ = 10 * order.length + tbl.numBuckets.toNat * (9 * tbl.idealChainMaxlen.toNat) := by
          rw [Finset.sum_add_distrib, ← Finset.mul_sum, h.sum_length, Finset.sum_const,
            Finset.card_range, smul_eq_mul]
      _ ≤ tbl.idealChainMaxlen.toNat * (19 * tbl.numBuckets.toNat) := by
          rw [Nat.mul_left_comm _ 9, Nat.mul_left_comm _ 19,
            Nat.mul_comm tbl.idealChainMaxlen.toNat]
          omega
  exact Nat.le_of_mul_le_mul_left hsum hideal_pos

/-- An element put into a chain that is not full stays within the room of its bucket. -/
theorem Table.reach_countIn [DecidableEq α] {bkt : Nat} (hfull : ¬tbl.Full bkt)
    (hnoexpand : tbl.noexpand ≠ 1) (hcount : (tbl.buckets bkt).count.toNat + 1 < 2 ^ 32) (a : α)
    (b : Nat) : (tbl.countIn bkt a).reach b ≤ tbl.reach b := by
  by_cases hb : b = bkt
  · subst hb
    have hroom : ((tbl.buckets b).count + 1).toNat <
        (((tbl.buckets b).expandMult + 1) * bktCapacityThresh).toNat := by
      rw [← UInt32.lt_iff_toNat_lt, ← UInt32.not_le]
      exact fun hle => hfull ⟨hle, hnoexpand⟩
    have hsucc : ((tbl.buckets b).count + 1).toNat = (tbl.buckets b).count.toNat + 1 := by
      rw [UInt32.toNat_add, UInt32.toNat_one, Nat.mod_eq_of_lt hcount]
    -- A threshold that wraps around is lower than the one that is meant.
    have hthresh : (((tbl.buckets b).expandMult + 1) * bktCapacityThresh).toNat ≤
        ((tbl.buckets b).expandMult.toNat + 1) * 10 := by
      rw [UInt32.toNat_mul, UInt32.toNat_add]
      exact (Nat.mod_le _ _).trans (Nat.mul_le_mul_right _ (Nat.mod_le _ _))
    simp only [reach, countIn, Function.update_self, hsucc]
    omega
  · simp [reach, countIn, hb]

end Budget

/-! ## One addition -/

/-- The buckets stay, but for one element more. -/
structure Table.Keeps (tbl tbl' : Table α) : Prop where
  numBuckets : tbl'.numBuckets = tbl.numBuckets
  ideal : tbl'.idealChainMaxlen = tbl.idealChainMaxlen
  ineffExpands : tbl'.ineffExpands = tbl.ineffExpands
  noexpand : tbl'.noexpand = tbl.noexpand
  reach : tbl.noexpand ≠ 1 → ∀ b, tbl'.reach b ≤ tbl.reach b

/-- Behind an expansion more than half of the items are beyond the ideal length. -/
def Table.Ineffective (tbl : Table α) : Prop :=
  tbl.numItems >>> 1 < tbl.nonidealItems

instance (tbl : Table α) : Decidable tbl.Ineffective :=
  inferInstanceAs (Decidable (_ < _))

/-- The number of buckets is doubled. -/
structure Table.Doubles (tbl tbl' : Table α) : Prop where
  allowed : tbl.noexpand ≠ 1
  numBuckets : tbl'.numBuckets.toNat = 2 * tbl.numBuckets.toNat
  ineffExpands : tbl'.ineffExpands = if tbl'.Ineffective then tbl.ineffExpands + 1 else 0
  noexpand : tbl'.noexpand = if 1 < tbl'.ineffExpands then 1 else tbl.noexpand

/-- What an addition that ends with the elements {lit}`order` does to the buckets. -/
def Table.Step (tbl : Table α) (hh' : α → Handle α) (tbl' : Table α) (order : List α) : Prop :=
  tbl.Keeps tbl' ∨
    tbl.Doubles tbl' ∧ ∃ chain, Filed hh' tbl' order chain ∧ Measured tbl' chain order.length

section Step

variable {hh hh' : α → Handle α} {tbl tbl' : Table α} {order : List α} {chain : Nat → List α}
  {a : α} {alloc : Nat → Bool} {turns : Nat}

/-- {lit}`HASH_ADD_TO_BKT` keeps the buckets or doubles them. -/
theorem addToBkt_step [DecidableEq α] (h : Filed hh tbl order chain) (hnodup : (order ++ [a]).Nodup)
    (hitems : tbl.numItems = UInt32.ofNat (order ++ [a]).length)
    (hfew : (order ++ [a]).length < 2 ^ 32) (hlimit : ∀ n, 2 ^ 36 ≤ n → alloc n = false)
    (hturns : (order ++ [a]).length ≤ turns)
    (hok : addToBkt alloc turns tbl hh (placeOf hh tbl.numBuckets a) a = .ok (tbl', hh')) :
    tbl.Step hh' tbl' (order ++ [a]) := by
  rcases addToBkt_cases h hnodup hitems hfew hlimit hturns with
    ⟨hrefused, _⟩ | ⟨hh₁, chain₁, hfiled, _, ⟨hfull, hkeep⟩ | ⟨hfull, hgrant, moved, hmoved, hmove⟩⟩
  · rw [hrefused] at hok
    cases hok
  · rw [hkeep] at hok
    cases hok
    refine .inl ⟨rfl, rfl, rfl, rfl, ?_⟩
    intro hnoexpand b
    have hcount : (tbl.buckets (placeOf hh tbl.numBuckets a)).count.toNat + 1 < 2 ^ 32 := by
      rw [List.length_append, List.length_singleton] at hfew
      rw [h.count_toNat (Nat.lt_of_succ_lt hfew)]
      exact (Nat.succ_le_succ (h.length_le _)).trans_lt hfew
    exact Table.reach_countIn hfull hnoexpand hcount a b
  · subst hmoved
    rw [hmove] at hok
    cases hok
    refine .inr ⟨⟨hfull.2, ?_, rfl, rfl⟩, _, hfiled.expanded hnodup hlimit hgrant _,
      hfiled.measured hnodup hitems hfew hlimit hgrant⟩
    rcases h.double hlimit hgrant with ⟨_, _, hsize⟩
    simp only [Table.expanded, Table.countIn, hsize, h.size]
    rw [Nat.pow_succ, Nat.mul_comm]

/-- Before an expansion there were 19 items a bucket or fewer, so there are ten or fewer
behind it. -/
theorem Filed.length_le_of_doubles (h : Filed hh tbl order chain)
    (hfew : (order ++ [a]).length < 2 ^ 32) (hbudget : tbl.noexpand ≠ 1 → tbl.Budget)
    (hdoubles : tbl.Doubles tbl') : (order ++ [a]).length ≤ 10 * tbl'.numBuckets.toNat := by
  rw [List.length_append, List.length_singleton] at hfew ⊢
  have hload := h.length_le_of_budget (Nat.lt_of_succ_lt hfew) (hbudget hdoubles.allowed)
  have hpos := h.numBuckets_pos
  rw [hdoubles.numBuckets]
  omega

/-- The load stays within the budget until expansion is inhibited. -/
theorem Table.Step.budget (h : Filed hh tbl order chain) (hfew : (order ++ [a]).length < 2 ^ 32)
    (hbudget : tbl.noexpand ≠ 1 → tbl.Budget) (hstep : tbl.Step hh' tbl' (order ++ [a])) :
    tbl'.noexpand ≠ 1 → tbl'.Budget := by
  intro hnoexpand
  rcases hstep with hkeeps | ⟨hdoubles, chain', hfiled', hmeasured⟩
  · rw [hkeeps.noexpand] at hnoexpand
    unfold Table.Budget
    rw [hkeeps.numBuckets]
    exact (Finset.sum_le_sum fun b _ => hkeeps.reach hnoexpand b).trans (hbudget hnoexpand)
  · exact hmeasured.budget hfiled' hfew (by simp) (h.length_le_of_doubles hfew hbudget hdoubles)

/-- The ideal chain length never grows beyond ten. -/
theorem Table.Step.ideal_le (h : Filed hh tbl order chain) (hfew : (order ++ [a]).length < 2 ^ 32)
    (hbudget : tbl.noexpand ≠ 1 → tbl.Budget) (hideal : tbl.idealChainMaxlen.toNat ≤ 10)
    (hstep : tbl.Step hh' tbl' (order ++ [a])) : tbl'.idealChainMaxlen.toNat ≤ 10 := by
  rcases hstep with hkeeps | ⟨hdoubles, chain', hfiled', hmeasured⟩
  · rw [hkeeps.ideal]
    exact hideal
  · rw [hmeasured.ideal, ceilDiv_le_iff_le_mul hfiled'.numBuckets_pos, Nat.mul_comm]
    exact h.length_le_of_doubles hfew hbudget hdoubles

end Step

end Uthash
end Clacks
