import Clacks.Foundation.Bins
import Clacks.Uthash.Table

/-!
# What holds of the table

The elements of a hash stand in one list in application order, and each of them in the
chain of its bucket.  Adding an element and doubling the number of buckets keep this, so
that a search finds an element exactly when its key was added, and the table's own
integrity check never fails.

Main results:

- Theorem {lit}`Chained.link`: the effect of the three pointer writes that put a handle
  in front of a chain.
- Theorem {lit}`rehash_eq`: the nested loops of an expansion move every item once.
- Theorem {lit}`hashAdd_holds`: adding an element, with or without an expansion.
- Theorem {lit}`hashFind_spec`: what a search returns.
- Theorem {lit}`hashFsck_eq`: the integrity check.
-/

namespace Clacks
namespace Uthash

open Foundation Chain

variable {α : Type}

/-! ## Writes to handles -/

/-- The fields of a handle that expansions do not touch. -/
def Handle.core (h : Handle α) : Handle α :=
  { h with hhPrev := none, hhNext := none }

theorem Handle.core_eq_iff {h h' : Handle α} : h'.core = h.core ↔
    h'.prev = h.prev ∧ h'.next = h.next ∧ h'.key = h.key ∧ h'.keylen = h.keylen ∧
      h'.hashv = h.hashv := by
  simp [core]

section LinkFront

variable [DecidableEq α] {hh : α → Handle α} {a x : α} {hhHead : Option α}

theorem linkFront_apply : linkFront hh a hhHead x =
    { hh x with
      hhPrev := if hhHead = some x then some a else if x = a then none else (hh x).hhPrev
      hhNext := if x = a then hhHead else (hh x).hhNext } := by
  cases hhHead with
  | none =>
      by_cases hx : x = a
      · subst hx
        simp [linkFront]
      · simp [linkFront, hx]
  | some head =>
      by_cases hhead : head = x
      · subst hhead
        by_cases hx : head = a
        · subst hx
          simp [linkFront]
        · simp [linkFront, hx]
      · by_cases hx : x = a
        · subst hx
          simp [linkFront, hhead, Ne.symm hhead]
        · simp [linkFront, hhead, Ne.symm hhead, hx]

@[simp]
theorem linkFront_core : (linkFront hh a hhHead x).core = (hh x).core := by
  rw [linkFront_apply]
  rfl

theorem linkFront_hhNext :
    (linkFront hh a hhHead x).hhNext = if x = a then hhHead else (hh x).hhNext := by
  rw [linkFront_apply]

theorem linkFront_hhPrev : (linkFront hh a hhHead x).hhPrev =
    if hhHead = some x then some a else if x = a then none else (hh x).hhPrev := by
  rw [linkFront_apply]

end LinkFront

/-! ## Bucket chains -/

/-- Every bucket holds its chain, linked in both directions, and counts it. -/
structure Chained (hh : α → Handle α) (buckets : Nat → Bucket α) (chain : Nat → List α) :
    Prop where
  path : ∀ b, Path (fun a => (hh a).hhNext) (buckets b).hhHead (chain b)
  back : ∀ b, Backed (fun a => (hh a).hhPrev) none (chain b)
  count : ∀ b, (buckets b).count = UInt32.ofNat (chain b).length

theorem chained_zero (hh : α → Handle α) :
    Chained hh (fun _ => Bucket.zero) fun _ => [] :=
  ⟨fun _ => rfl, fun _ => trivial, fun _ => rfl⟩

/-- A handle that stands in no chain is put in front of one. -/
theorem Chained.link [DecidableEq α] {hh : α → Handle α} {buckets : Nat → Bucket α}
    {chain : Nat → List α} (h : Chained hh buckets chain) (a : α) (bkt : Nat)
    (ha : ∀ b, a ∉ chain b)
    (hdisjoint : ∀ b, b ≠ bkt → ∀ x ∈ chain bkt, x ∉ chain b) (expandMult : UInt32) :
    Chained (linkFront hh a (buckets bkt).hhHead)
      (Function.update buckets bkt ⟨some a, (buckets bkt).count + 1, expandMult⟩)
      (Function.update chain bkt (a :: chain bkt)) := by
  have hfirst : (buckets bkt).hhHead = (chain bkt).head? := (h.path bkt).first_eq
  -- The back links that are written are those of the handle and of the old head.
  have hprev : ∀ b x, x ∈ chain b → (b = bkt → x ∉ (chain bkt).head?) →
      (linkFront hh a (buckets bkt).hhHead x).hhPrev = (hh x).hhPrev := by
    intro b x hx hnot
    have hne : x ≠ a := fun heq => ha b (heq ▸ hx)
    have hhead : (buckets bkt).hhHead ≠ some x := by
      intro hhead
      rw [hfirst] at hhead
      by_cases hb : b = bkt
      · exact hnot hb hhead
      · exact hdisjoint b hb x (List.mem_of_head? hhead) hx
    simp [linkFront_hhPrev, hhead, hne]
  have hnext : ∀ b, ∀ x ∈ chain b,
      (linkFront hh a (buckets bkt).hhHead x).hhNext = (hh x).hhNext := by
    intro b x hx
    have hne : x ≠ a := fun heq => ha b (heq ▸ hx)
    simp [linkFront_hhNext, hne]
  constructor
  · intro b
    by_cases hb : b = bkt
    · subst hb
      simp only [Function.update_self]
      exact (h.path b).push (by simp [linkFront_hhNext]) (hnext b)
    · simp only [Function.update_of_ne hb]
      exact (h.path b).congr (hnext b)
  · intro b
    by_cases hb : b = bkt
    · subst hb
      simp only [Function.update_self]
      apply (h.back b).push
      · have hnot : (buckets b).hhHead ≠ some a := by
          intro hhead
          rw [hfirst] at hhead
          exact ha b (List.mem_of_head? hhead)
        simp [linkFront_hhPrev, hnot]
      · intro x hx
        have hhead : (buckets b).hhHead = some x := hfirst.trans hx
        simp [linkFront_hhPrev, hhead]
      · intro x hx
        apply hprev b x (List.mem_of_mem_tail hx)
        intro _ hhead
        have hnodup := (h.path b).nodup
        cases hchain : chain b with
        | nil => simp [hchain] at hx
        | cons y rest =>
            simp only [hchain, List.head?_cons, Option.mem_def, Option.some.injEq,
              List.tail_cons] at hhead hx
            subst hhead
            rw [hchain] at hnodup
            exact (List.nodup_cons.1 hnodup).1 hx
    · simp only [Function.update_of_ne hb]
      apply (h.back b).congr
      intro x hx
      exact hprev b x hx fun heq => absurd heq hb
  · intro b
    by_cases hb : b = bkt
    · subst hb
      simp [h.count b, UInt32.ofNat_add]
    · simp [hb, h.count b]

/-! ## Expansion -/

/-- The bucket of an element in a table of {lit}`numBkts` buckets. -/
def placeOf (hh : α → Handle α) (numBkts : UInt32) (a : α) : Nat :=
  hashToBkt (hh a).hashv numBkts

theorem placeOf_congr {hh hh' : α → Handle α} {a : α} (h : (hh' a).core = (hh a).core)
    (numBkts : UInt32) : placeOf hh' numBkts a = placeOf hh numBkts a := by
  rw [placeOf, placeOf, (Handle.core_eq_iff.1 h).2.2.2.2]

section Rehash

variable [DecidableEq α] {ideal numBkts : UInt32} {hh : α → Handle α} {xs : List α}

@[simp]
theorem Rehash.move_core (s : Rehash α) (a x : α) :
    ((s.move ideal numBkts a).hh x).core = (s.hh x).core :=
  linkFront_core

theorem Rehash.move_hhNext (a b : α) (s : Rehash α) (hne : b ≠ a) :
    ((s.move ideal numBkts a).hh b).hhNext = (s.hh b).hhNext := by
  simp [move, linkFront_hhNext, hne]

/-- The state after some items were moved. -/
def Rehash.after (ideal numBkts : UInt32) (hh : α → Handle α) (xs : List α) : Rehash α :=
  xs.foldl (Rehash.move ideal numBkts) { newBuckets := fun _ => .zero, nonidealItems := 0, hh }

theorem Rehash.after_concat (xs : List α) (a : α) :
    Rehash.after ideal numBkts hh (xs ++ [a]) =
      (Rehash.after ideal numBkts hh xs).move ideal numBkts a := by
  simp [after]

theorem Rehash.after_core (xs : List α) (x : α) :
    ((Rehash.after ideal numBkts hh xs).hh x).core = (hh x).core := by
  induction xs using List.reverseRecOn with
  | nil => rfl
  | append_singleton xs a ih => rw [after_concat, move_core, ih]

/-- Each new bucket holds its items, the last one moved in front. -/
theorem Rehash.after_chained (hnodup : xs.Nodup) :
    Chained (Rehash.after ideal numBkts hh xs).hh (Rehash.after ideal numBkts hh xs).newBuckets
      fun b => (bin (placeOf hh numBkts) xs b).reverse := by
  induction xs using List.reverseRecOn with
  | nil => exact chained_zero hh
  | append_singleton xs a ih =>
      rw [List.nodup_append] at hnodup
      rcases hnodup with ⟨hxs, _, hnot⟩
      have ha : a ∉ xs := fun hmem => hnot a hmem a (by simp) rfl
      have hplace : hashToBkt ((Rehash.after ideal numBkts hh xs).hh a).hashv numBkts =
          placeOf hh numBkts a := placeOf_congr (after_core xs a) numBkts
      have hlinked := (ih hxs).link a (placeOf hh numBkts a) (by simp [ha])
        (by
          intro b hb x hx hx'
          simp only [List.mem_reverse, mem_bin] at hx hx'
          exact hb (hx'.2.symm.trans hx.2))
      have hchain : (fun b => (bin (placeOf hh numBkts) (xs ++ [a]) b).reverse) =
          Function.update (fun b => (bin (placeOf hh numBkts) xs b).reverse)
            (placeOf hh numBkts a)
            (a :: (bin (placeOf hh numBkts) xs (placeOf hh numBkts a)).reverse) := by
        ext1 b
        by_cases hb : placeOf hh numBkts a = b
        · subst hb
          simp [bin_append, bin_singleton]
        · simp [bin_append, bin_singleton, hb, Ne.symm hb]
      rw [hchain, after_concat]
      simp only [Rehash.move, hplace]
      exact hlinked _

end Rehash

/-- Every element stands in the chain of its bucket; the number of buckets is a power of
two. -/
structure Filed (hh : α → Handle α) (tbl : Table α) (order : List α)
    (chain : Nat → List α) : Prop where
  size : tbl.numBuckets.toNat = 2 ^ tbl.log2NumBuckets.toNat
  log2_le : tbl.log2NumBuckets.toNat ≤ 31
  chained : Chained hh tbl.buckets chain
  bins : ∀ b, (chain b).Perm (bin (placeOf hh tbl.numBuckets) order b)

/-- The items in the order in which an expansion moves them. -/
def Table.items (tbl : Table α) (chain : Nat → List α) : List α :=
  (List.range tbl.numBuckets.toNat).flatMap chain

section Filed

variable {hh : α → Handle α} {tbl : Table α} {order : List α} {chain : Nat → List α}

theorem Filed.place_lt (h : Filed hh tbl order chain) (a : α) :
    placeOf hh tbl.numBuckets a < tbl.numBuckets.toNat :=
  hashToBkt_lt h.size _

theorem Filed.items_perm (h : Filed hh tbl order chain) : (tbl.items chain).Perm order := by
  have hbins : (tbl.items chain).Perm ((List.range tbl.numBuckets.toNat).flatMap
      (bin (placeOf hh tbl.numBuckets) order)) :=
    List.Perm.flatMap_left _ fun b _ => h.bins b
  exact hbins.trans (perm_flatMap_bins fun a _ => h.place_lt a)

/-- The nested loops of an expansion move every item once. -/
theorem rehash_eq [DecidableEq α] (h : Filed hh tbl order chain) (hnodup : order.Nodup)
    {ideal : UInt32} (hideal : ideal ≠ 0) {turns : Nat} (hturns : order.length ≤ turns) :
    rehash turns ideal tbl hh =
      .ok (Rehash.after ideal (tbl.numBuckets * 2) hh (tbl.items chain)) := by
  have hturn : ∀ a (s : Rehash α), Rehash.turn ideal (tbl.numBuckets * 2) a s =
      .ok ((s.hh a).hhNext, s.move ideal (tbl.numBuckets * 2) a) := by
    intro a s
    simp [Rehash.turn, hideal]
  refine foldlM_follow_eq_foldl hturn Rehash.move_hhNext ?_ ?_ ?_
  · intro b _
    exact h.chained.path b
  · exact h.items_perm.nodup_iff.2 hnodup
  · intro b _
    rw [(h.bins b).length_eq]
    exact length_bin_le.trans hturns

/-- The number of buckets doubles. -/
theorem Filed.double {alloc : Nat → Bool} (h : Filed hh tbl order chain)
    (hlimit : ∀ n, 2 ^ 36 ≤ n → alloc n = false)
    (hgrant : alloc (2 * tbl.numBuckets.toNat * sizeofBucket) = true) :
    (tbl.log2NumBuckets + 1).toNat = tbl.log2NumBuckets.toNat + 1 ∧
      tbl.log2NumBuckets.toNat + 1 ≤ 31 ∧
      (tbl.numBuckets * 2).toNat = 2 ^ (tbl.log2NumBuckets.toNat + 1) := by
  have hsmall : 2 * tbl.numBuckets.toNat * sizeofBucket < 2 ^ 36 := by
    by_contra hlarge
    rw [hlimit _ (Nat.le_of_not_lt hlarge)] at hgrant
    cases hgrant
  rw [sizeofBucket, h.size] at hsmall
  have hlog : tbl.log2NumBuckets.toNat < 31 := by
    by_contra hge
    have hpow := Nat.pow_le_pow_right (n := 2) (by decide) (Nat.le_of_not_lt hge)
    omega
  have hpow := Nat.pow_le_pow_right (n := 2) (by decide) (Nat.succ_le_of_lt hlog)
  refine ⟨?_, hlog, ?_⟩
  · rw [UInt32.toNat_add, UInt32.toNat_one, Nat.mod_eq_of_lt (by omega)]
  · rw [UInt32.toNat_mul, h.size, show (2 : UInt32).toNat = 2 from rfl, ← Nat.pow_succ,
      Nat.mod_eq_of_lt (by omega)]

/-- After an expansion every element stands in the chain of its new bucket. -/
theorem Filed.expanded [DecidableEq α] {alloc : Nat → Bool} (h : Filed hh tbl order chain)
    (hnodup : order.Nodup) (hlimit : ∀ n, 2 ^ 36 ≤ n → alloc n = false)
    (hgrant : alloc (2 * tbl.numBuckets.toNat * sizeofBucket) = true) (ideal : UInt32) :
    Filed (Rehash.after ideal (tbl.numBuckets * 2) hh (tbl.items chain)).hh
      (tbl.expanded (Rehash.after ideal (tbl.numBuckets * 2) hh (tbl.items chain))) order
      fun b => (bin (placeOf hh (tbl.numBuckets * 2)) (tbl.items chain) b).reverse := by
  rcases h.double hlimit hgrant with ⟨hlog, hlog_le, hsize⟩
  refine ⟨?_, ?_, ?_, ?_⟩
  · simp only [Table.expanded, hlog, hsize]
  · simp only [Table.expanded, hlog, hlog_le]
  · exact Rehash.after_chained (h.items_perm.nodup_iff.2 hnodup)
  · intro b
    have hplace : placeOf (Rehash.after ideal (tbl.numBuckets * 2) hh (tbl.items chain)).hh
        (tbl.numBuckets * 2) = placeOf hh (tbl.numBuckets * 2) := by
      ext1 a
      exact placeOf_congr (Rehash.after_core _ a) _
    simp only [Table.expanded, hplace]
    exact (List.reverse_perm _).trans (h.items_perm.filter _)

/-- The ideal chain length is the number of items divided by the new number of buckets,
rounded up. -/
theorem Table.ideal_toNat {l : Nat} (hlog : (tbl.log2NumBuckets + 1).toNat = l) (hl : l ≤ 31)
    (hsize : (tbl.numBuckets * 2).toNat = 2 ^ l) :
    tbl.ideal.toNat = (tbl.numItems.toNat + (2 ^ l - 1)) / 2 ^ l := by
  have hpos := Nat.two_pow_pos l
  have hmask : (tbl.numItems &&& (tbl.numBuckets * 2 - 1)).toNat = tbl.numItems.toNat % 2 ^ l := by
    have hmod := hashToBkt_eq_mod hsize tbl.numItems
    rwa [hsize] at hmod
  have hshift : (tbl.numItems >>> (tbl.log2NumBuckets + 1)).toNat =
      tbl.numItems.toNat / 2 ^ l := by
    rw [UInt32.toNat_shiftRight, hlog, Nat.mod_eq_of_lt (by omega), Nat.shiftRight_eq_div_pow]
  have hdiv := Nat.div_add_mod tbl.numItems.toNat (2 ^ l)
  have hmod := Nat.mod_lt tbl.numItems.toNat hpos
  by_cases hzero : tbl.numItems.toNat % 2 ^ l = 0
  · have hnone : tbl.numItems &&& (tbl.numBuckets * 2 - 1) = 0 := by
      rw [← UInt32.toNat_inj, hmask, hzero]
      rfl
    rw [ideal, hnone, if_neg (by simp), UInt32.add_zero, hshift]
    symm
    rw [Nat.div_eq_iff hpos]
    rw [hzero, Nat.mul_comm] at hdiv
    omega
  · have hsome : tbl.numItems &&& (tbl.numBuckets * 2 - 1) ≠ 0 := by
      intro h
      rw [h] at hmask
      exact hzero hmask.symm
    have hlt : tbl.numItems.toNat / 2 ^ l + 1 < 2 ^ 32 := by
      have hitems := tbl.numItems.toNat_lt
      have htwo : 2 ≤ 2 ^ l := by
        by_contra hone
        have hl : 2 ^ l = 1 := by omega
        rw [hl, Nat.mod_one] at hzero
        exact hzero rfl
      have hle := Nat.div_le_div_left (a := tbl.numItems.toNat) htwo (by decide)
      omega
    rw [ideal, if_pos hsome, UInt32.toNat_add, hshift, UInt32.toNat_one, Nat.mod_eq_of_lt hlt]
    symm
    rw [Nat.div_eq_iff hpos]
    rw [Nat.mul_comm] at hdiv
    rw [Nat.add_mul]
    omega

theorem Table.ideal_ne_zero {l : Nat} (hlog : (tbl.log2NumBuckets + 1).toNat = l) (hl : l ≤ 31)
    (hsize : (tbl.numBuckets * 2).toNat = 2 ^ l) (hitems : tbl.numItems.toNat ≠ 0) :
    tbl.ideal ≠ 0 := by
  intro hzero
  have hideal := Table.ideal_toNat hlog hl hsize
  rw [hzero, UInt32.toNat_zero] at hideal
  have hlt := (Nat.div_eq_zero_iff_lt (Nat.two_pow_pos l)).1 hideal.symm
  omega

/-- An expansion moves every item, or the process has ended because {lit}`malloc`
refused. -/
theorem expandBuckets_cases [DecidableEq α] (h : Filed hh tbl order chain)
    (hnodup : order.Nodup) (hitems : tbl.numItems = UInt32.ofNat order.length)
    (hne : order ≠ []) (hfew : order.length < 2 ^ 32) {alloc : Nat → Bool} {turns : Nat}
    (hlimit : ∀ n, 2 ^ 36 ≤ n → alloc n = false) (hturns : order.length ≤ turns) :
    (expandBuckets alloc turns tbl hh = .error .outOfMemory ∧
        alloc (2 * tbl.numBuckets.toNat * sizeofBucket) = false) ∨
      alloc (2 * tbl.numBuckets.toNat * sizeofBucket) = true ∧
        expandBuckets alloc turns tbl hh =
          .ok (tbl.expanded (Rehash.after tbl.ideal (tbl.numBuckets * 2) hh (tbl.items chain)),
            (Rehash.after tbl.ideal (tbl.numBuckets * 2) hh (tbl.items chain)).hh) := by
  unfold expandBuckets
  cases hgrant : alloc (2 * tbl.numBuckets.toNat * sizeofBucket) with
  | false => exact .inl ⟨rfl, rfl⟩
  | true =>
      rcases h.double hlimit hgrant with ⟨hlog, hlog_le, hsize⟩
      have hideal : tbl.ideal ≠ 0 := by
        apply Table.ideal_ne_zero hlog hlog_le hsize
        rw [hitems, UInt32.toNat_ofNat', Nat.mod_eq_of_lt hfew]
        simpa using hne
      rw [rehash_eq h hnodup hideal hturns]
      exact .inr ⟨rfl, rfl⟩

/-- An element that is in no chain yet is put into the chain of its bucket. -/
theorem Filed.countIn [DecidableEq α] (h : Filed hh tbl order chain) {a : α} (ha : a ∉ order) :
    Filed (linkFront hh a (tbl.buckets (placeOf hh tbl.numBuckets a)).hhHead)
      (tbl.countIn (placeOf hh tbl.numBuckets a) a) (order ++ [a])
      (Function.update chain (placeOf hh tbl.numBuckets a)
        (a :: chain (placeOf hh tbl.numBuckets a))) := by
  have hmem : ∀ b x, x ∈ chain b ↔ x ∈ order ∧ placeOf hh tbl.numBuckets x = b := by
    intro b x
    rw [(h.bins b).mem_iff, mem_bin]
  have hlinked := h.chained.link a (placeOf hh tbl.numBuckets a)
    (fun b hb => ha ((hmem b a).1 hb).1)
    (fun b hb x hx hx' => hb (((hmem b x).1 hx').2.symm.trans ((hmem _ x).1 hx).2))
    (tbl.buckets (placeOf hh tbl.numBuckets a)).expandMult
  have hplace : placeOf (linkFront hh a (tbl.buckets (placeOf hh tbl.numBuckets a)).hhHead)
      tbl.numBuckets = placeOf hh tbl.numBuckets := by
    ext1 x
    exact placeOf_congr linkFront_core _
  refine ⟨h.size, h.log2_le, hlinked, ?_⟩
  intro b
  simp only [Table.countIn, hplace]
  rw [bin_append, bin_singleton]
  by_cases hb : placeOf hh tbl.numBuckets a = b
  · subst hb
    simp only [Function.update_self, if_true]
    exact ((h.bins _).cons a).trans (List.perm_append_singleton a _).symm
  · simp only [Function.update_of_ne (Ne.symm hb), hb, if_false, List.append_nil]
    exact h.bins b

/-- The condition under which {lit}`HASH_ADD_TO_BKT` expands the table. -/
def Table.Full (tbl : Table α) (bkt : Nat) : Prop :=
  ((tbl.buckets bkt).expandMult + 1) * bktCapacityThresh ≤ (tbl.buckets bkt).count + 1 ∧
    tbl.noexpand ≠ 1

instance (tbl : Table α) (bkt : Nat) : Decidable (tbl.Full bkt) :=
  inferInstanceAs (Decidable (_ ∧ _))

theorem addToBkt_eq [DecidableEq α] (alloc : Nat → Bool) (turns : Nat) (tbl : Table α)
    (hh : α → Handle α) (bkt : Nat) (a : α) : addToBkt alloc turns tbl hh bkt a =
      if tbl.Full bkt then
        expandBuckets alloc turns (tbl.countIn bkt a) (linkFront hh a (tbl.buckets bkt).hhHead)
      else .ok (tbl.countIn bkt a, linkFront hh a (tbl.buckets bkt).hhHead) :=
  rfl

/-- {lit}`HASH_ADD_TO_BKT` for an element that is in no chain yet: the element is put into
the chain of its bucket, and all items are moved when that chain is full. -/
theorem addToBkt_cases [DecidableEq α] (h : Filed hh tbl order chain) {a : α}
    (hnodup : (order ++ [a]).Nodup) (hitems : tbl.numItems = UInt32.ofNat (order ++ [a]).length)
    (hfew : (order ++ [a]).length < 2 ^ 32) {alloc : Nat → Bool} {turns : Nat}
    (hlimit : ∀ n, 2 ^ 36 ≤ n → alloc n = false) (hturns : (order ++ [a]).length ≤ turns) :
    (addToBkt alloc turns tbl hh (placeOf hh tbl.numBuckets a) a = .error .outOfMemory ∧
        alloc (2 * tbl.numBuckets.toNat * sizeofBucket) = false) ∨
      ∃ hh₁ chain₁, Filed hh₁ (tbl.countIn (placeOf hh tbl.numBuckets a) a) (order ++ [a]) chain₁ ∧
        (∀ x, (hh₁ x).core = (hh x).core) ∧
        (¬tbl.Full (placeOf hh tbl.numBuckets a) ∧
            addToBkt alloc turns tbl hh (placeOf hh tbl.numBuckets a) a =
              .ok (tbl.countIn (placeOf hh tbl.numBuckets a) a, hh₁) ∨
          tbl.Full (placeOf hh tbl.numBuckets a) ∧
            alloc (2 * tbl.numBuckets.toNat * sizeofBucket) = true ∧
            ∃ moved, moved = Rehash.after (tbl.countIn (placeOf hh tbl.numBuckets a) a).ideal
                (tbl.numBuckets * 2) hh₁
                ((tbl.countIn (placeOf hh tbl.numBuckets a) a).items chain₁) ∧
              addToBkt alloc turns tbl hh (placeOf hh tbl.numBuckets a) a =
                .ok ((tbl.countIn (placeOf hh tbl.numBuckets a) a).expanded moved, moved.hh)) := by
  have ha : a ∉ order := by
    rw [List.nodup_append] at hnodup
    exact fun hmem => hnodup.2.2 a hmem a (by simp) rfl
  have hfiled := h.countIn ha
  rw [addToBkt_eq]
  by_cases hfull : tbl.Full (placeOf hh tbl.numBuckets a)
  · rw [if_pos hfull]
    rcases expandBuckets_cases hfiled hnodup hitems (by simp) hfew hlimit hturns with
      hrefused | ⟨hgrant, hok⟩
    · exact .inl hrefused
    · exact .inr ⟨_, _, hfiled, fun x => linkFront_core, .inr ⟨hfull, hgrant, _, rfl, hok⟩⟩
  · rw [if_neg hfull]
    exact .inr ⟨_, _, hfiled, fun x => linkFront_core, .inl ⟨hfull, rfl⟩⟩

/-- Either way every element stands in the chain of its bucket. -/
theorem addToBkt_filed [DecidableEq α] (h : Filed hh tbl order chain) {a : α}
    (hnodup : (order ++ [a]).Nodup) (hitems : tbl.numItems = UInt32.ofNat (order ++ [a]).length)
    (hfew : (order ++ [a]).length < 2 ^ 32) {alloc : Nat → Bool} {turns : Nat}
    (hlimit : ∀ n, 2 ^ 36 ≤ n → alloc n = false) (hturns : (order ++ [a]).length ≤ turns) :
    (addToBkt alloc turns tbl hh (placeOf hh tbl.numBuckets a) a = .error .outOfMemory ∧
        alloc (2 * tbl.numBuckets.toNat * sizeofBucket) = false) ∨
      ∃ tbl' hh' chain', addToBkt alloc turns tbl hh (placeOf hh tbl.numBuckets a) a =
          .ok (tbl', hh') ∧ Filed hh' tbl' (order ++ [a]) chain' ∧
        (∀ x, (hh' x).core = (hh x).core) ∧ tbl'.numItems = tbl.numItems ∧
        tbl'.tail = tbl.tail := by
  rcases addToBkt_cases h hnodup hitems hfew hlimit hturns with
    hrefused | ⟨hh₁, chain₁, hfiled, hcore, ⟨_, hok⟩ | ⟨_, hgrant, moved, hmoved, hok⟩⟩
  · exact .inl hrefused
  · exact .inr ⟨_, _, _, hok, hfiled, hcore, rfl, rfl⟩
  · subst hmoved
    refine .inr ⟨_, _, _, hok, hfiled.expanded hnodup hlimit hgrant _, ?_, rfl, rfl⟩
    intro x
    rw [Rehash.after_core, hcore]

end Filed

/-! ## The whole table -/

/-- The elements in application order, linked in both directions. -/
structure Ordered (hh : α → Handle α) (head tail : α) (order : List α) : Prop where
  path : Path (fun a => (hh a).next) (some head) order
  back : Backed (fun a => (hh a).prev) none order
  last : ∃ front, order = front ++ [tail]

/-- Every handle has the length and the hash value of its key. -/
def Keyed (fcn : List UInt8 → UInt32) (hh : α → Handle α) (order : List α) : Prop :=
  ∀ a ∈ order, (hh a).key.length < 2 ^ 32 ∧ (hh a).keylen = UInt32.ofNat (hh a).key.length ∧
    (hh a).hashv = fcn (hh a).key

/-- What holds of a table and its elements. -/
structure Linked (fcn : List UInt8 → UInt32) (hh : α → Handle α) (head : α) (tbl : Table α)
    (order : List α) (chain : Nat → List α) : Prop where
  ordered : Ordered hh head tbl.tail order
  keyed : Keyed fcn hh order
  filed : Filed hh tbl order chain
  items : tbl.numItems = UInt32.ofNat order.length
  few : order.length < 2 ^ 32

/-- The hash holds the elements {lit}`order`, in application order. -/
def Hash.Holds (fcn : List UInt8 → UInt32) (s : Hash α) (order : List α) : Prop :=
  match s.root with
  | none => order = []
  | some (head, tbl) => ∃ chain, Linked fcn s.hh head tbl order chain

section Ordered

variable {hh hh' : α → Handle α} {head tail a : α} {order : List α}

theorem Ordered.congr (h : Ordered hh head tail order) (hcore : ∀ x, (hh' x).core = (hh x).core) :
    Ordered hh' head tail order where
  path := h.path.congr fun x _ => (Handle.core_eq_iff.1 (hcore x)).2.1
  back := h.back.congr fun x _ => (Handle.core_eq_iff.1 (hcore x)).1
  last := h.last

theorem Keyed.congr {fcn : List UInt8 → UInt32} (h : Keyed fcn hh order)
    (hcore : ∀ x, (hh' x).core = (hh x).core) : Keyed fcn hh' order := by
  intro x hx
  rcases Handle.core_eq_iff.1 (hcore x) with ⟨_, _, hkey, hkeylen, hhashv⟩
  rw [hkey, hkeylen, hhashv]
  exact h x hx

theorem Ordered.nodup (h : Ordered hh head tail order) : order.Nodup :=
  h.path.nodup

/-- The first element of a table. -/
theorem ordered_singleton (hnext : (hh a).next = none) (hprev : (hh a).prev = none) :
    Ordered hh a a [a] :=
  ⟨⟨rfl, hnext⟩, ⟨hprev, trivial⟩, [], rfl⟩

/-- An element put behind the last one. -/
theorem Ordered.snoc (h : Ordered hh head tail order) (hlast : (hh' tail).next = some a)
    (hnext : (hh' a).next = none) (hprev : (hh' a).prev = some tail)
    (hsame : ∀ x ∈ order, (hh' x).prev = (hh x).prev ∧ (x ≠ tail → (hh' x).next = (hh x).next)) :
    Ordered hh' head a (order ++ [a]) := by
  have hnodup := h.nodup
  rcases h with ⟨hpath, hback, front, rfl⟩
  rw [List.nodup_append] at hnodup
  refine ⟨hpath.snoc ?_ hlast hnext, hback.snoc (fun x hx => (hsame x hx).1) hprev, _, rfl⟩
  intro x hx
  apply (hsame x (by simp [hx])).2
  rintro rfl
  exact hnodup.2.2 x hx x (by simp) rfl

end Ordered

/-! ## Adding an element -/

/-- The fields of a handle that the links in application order do not touch. -/
def Handle.filing (h : Handle α) : Handle α :=
  { h with prev := none, next := none }

theorem Handle.filing_eq_iff {h h' : Handle α} : h'.filing = h.filing ↔
    h'.hhPrev = h.hhPrev ∧ h'.hhNext = h.hhNext ∧ h'.key = h.key ∧ h'.keylen = h.keylen ∧
      h'.hashv = h.hashv := by
  simp [filing]

/-- The bucket chains depend on the elements that stand in them. -/
theorem Filed.congr {hh hh' : α → Handle α} {tbl : Table α} {order : List α}
    {chain : Nat → List α} (h : Filed hh tbl order chain)
    (hsame : ∀ x ∈ order, (hh' x).filing = (hh x).filing) : Filed hh' tbl order chain := by
  have hmem : ∀ b, ∀ x ∈ chain b, (hh' x).filing = (hh x).filing := by
    intro b x hx
    exact hsame x (mem_bin.1 ((h.bins b).mem_iff.1 hx)).1
  refine ⟨h.size, h.log2_le, ⟨?_, ?_, h.chained.count⟩, ?_⟩
  · intro b
    exact (h.chained.path b).congr fun x hx => (Handle.filing_eq_iff.1 (hmem b x hx)).2.1
  · intro b
    exact (h.chained.back b).congr fun x hx => (Handle.filing_eq_iff.1 (hmem b x hx)).1
  · intro b
    have hbin : bin (placeOf hh' tbl.numBuckets) order b =
        bin (placeOf hh tbl.numBuckets) order b := by
      apply List.filter_congr
      intro x hx
      have hplace : placeOf hh' tbl.numBuckets x = placeOf hh tbl.numBuckets x := by
        rw [placeOf, placeOf, (Handle.filing_eq_iff.1 (hsame x hx)).2.2.2.2]
      rw [hplace]
    rw [hbin]
    exact h.bins b

/-- A new table has no elements. -/
theorem filed_made (hh : α → Handle α) (head : α) :
    Filed hh (Table.made head) [] fun _ => [] where
  size := show initialNumBuckets.toNat = 2 ^ initialNumBucketsLog2.toNat by decide
  log2_le := show initialNumBucketsLog2.toNat ≤ 31 by decide
  chained := chained_zero hh
  bins _ := .refl _

/-- The number of buckets, from the first addition on. -/
def Hash.numBuckets (s : Hash α) : UInt32 :=
  match s.root with
  | none => initialNumBuckets
  | some (_, tbl) => tbl.numBuckets

/-- What an addition may ask {lit}`malloc` for. -/
def Hash.requests (s : Hash α) : List Nat :=
  [sizeofTable, initialNumBuckets.toNat * sizeofBucket, 2 * s.numBuckets.toNat * sizeofBucket]

theorem makeTable_cases (alloc : Nat → Bool) (s : Hash α) (head : α) :
    (makeTable alloc head = .error .outOfMemory ∧ ∃ n ∈ s.requests, alloc n = false) ∨
      makeTable alloc head = .ok (Table.made head) := by
  unfold makeTable
  cases htable : alloc sizeofTable with
  | false => exact .inl ⟨rfl, _, by simp [Hash.requests], htable⟩
  | true =>
      cases hbuckets : alloc (initialNumBuckets.toNat * sizeofBucket) with
      | false => exact .inl ⟨rfl, _, by simp [Hash.requests], hbuckets⟩
      | true => exact .inr rfl

/-- The table to whose buckets {lit}`HASH_ADD_KEYPTR` adds the element {lit}`a`. -/
def Hash.entered (s : Hash α) (a : α) : Table α :=
  match s.root with
  | none => { Table.made a with numItems := (Table.made a).numItems + 1 }
  | some (_, tbl) => { tbl with tail := a, numItems := tbl.numItems + 1 }

theorem Hash.entered_numBuckets (s : Hash α) (a : α) :
    (s.entered a).numBuckets = s.numBuckets := by
  unfold entered numBuckets
  cases s.root with
  | none => rfl
  | some root => rfl

section Add

variable [DecidableEq α] {fcn : List UInt8 → UInt32} {s : Hash α} {order : List α} {a : α}
  {alloc : Nat → Bool} {turns : Nat}

/-- The element stands behind the others in application order, and the buckets are as
they were. -/
theorem addToOrder_cases (alloc : Nat → Bool) (h : s.Holds fcn order) (ha : a ∉ order)
    (add : Handle α) (hnext : add.next = none) :
    (addToOrder alloc { s with hh := Function.update s.hh a add } a = .error .outOfMemory ∧
        ∃ n ∈ s.requests, alloc n = false) ∨
      ∃ head tbl hh chain, addToOrder alloc { s with hh := Function.update s.hh a add } a =
          .ok (head, tbl, hh) ∧ { tbl with numItems := tbl.numItems + 1 } = s.entered a ∧
        Ordered hh head a (order ++ [a]) ∧ Keyed fcn s.hh order ∧
        Filed s.hh (s.entered a) order chain ∧
        tbl.numItems = UInt32.ofNat order.length ∧
        (∀ x ∈ order, (hh x).filing = (s.hh x).filing) ∧ (hh a).filing = add.filing := by
  unfold Hash.Holds at h
  unfold addToOrder Hash.entered
  cases hroot : s.root with
  | none =>
      rw [hroot] at h
      subst h
      rcases makeTable_cases alloc s a with ⟨hmake, hrefused⟩ | hmake
      · simp only [hmake]
        exact .inl ⟨rfl, hrefused⟩
      · simp only [hmake]
        have hfiled := filed_made s.hh a
        refine .inr ⟨_, _, _, _, rfl, rfl, ?_, by simp [Keyed],
          ⟨hfiled.size, hfiled.log2_le, hfiled.chained, hfiled.bins⟩, rfl, by simp, ?_⟩
        · exact ordered_singleton (by simp [hnext]) (by simp)
        · simp [Handle.filing]
  | some root =>
      rcases root with ⟨head, tbl⟩
      rw [hroot] at h
      rcases h with ⟨chain, hlinked⟩
      have htail : tbl.tail ∈ order := by
        rcases hlinked.ordered.last with ⟨front, hlast⟩
        simp [hlast]
      have hne : a ≠ tbl.tail := fun heq => ha (heq ▸ htail)
      refine .inr ⟨_, _, _, _, rfl, rfl, ?_, hlinked.keyed,
        ⟨hlinked.filed.size, hlinked.filed.log2_le, hlinked.filed.chained, hlinked.filed.bins⟩,
        hlinked.items, ?_, ?_⟩
      · apply hlinked.ordered.snoc
        · simp [Ne.symm hne]
        · simp [hne, hnext]
        · simp
        · intro x hx
          have hxa : x ≠ a := fun heq => ha (heq ▸ hx)
          by_cases hxt : x = tbl.tail
          · subst hxt
            simp [hxa]
          · simp [hxa, hxt]
      · intro x hx
        have hxa : x ≠ a := fun heq => ha (heq ▸ hx)
        by_cases hxt : x = tbl.tail
        · subst hxt
          simp [hxa, Handle.filing]
        · simp [hxa, hxt]
      · simp [hne, Handle.filing]

/-- {lit}`HASH_ADD_KEYPTR` up to {lit}`HASH_ADD_TO_BKT`. -/
theorem hashAdd_entered (alloc : Nat → Bool) (turns : Nat) (h : s.Holds fcn order)
    (ha : a ∉ order) {key : List UInt8} (hkey : key.length < 2 ^ 32) :
    (hashAdd fcn alloc turns s key a = .error .outOfMemory ∧
        ∃ n ∈ s.requests, alloc n = false) ∨
      ∃ head hh chain, Ordered hh head a (order ++ [a]) ∧ Keyed fcn hh (order ++ [a]) ∧
        Filed hh (s.entered a) order chain ∧
        (s.entered a).numItems = UInt32.ofNat (order ++ [a]).length ∧ (s.entered a).tail = a ∧
        (hh a).key = key ∧ (∀ x ∈ order, (hh x).key = (s.hh x).key) ∧
        hashAdd fcn alloc turns s key a =
          (addToBkt alloc turns (s.entered a) hh (placeOf hh (s.entered a).numBuckets a) a).map
            fun out => { root := some (head, out.1), hh := out.2 } := by
  unfold hashAdd
  rcases addToOrder_cases alloc h ha
      { s.hh a with next := none, key, keylen := UInt32.ofNat key.length } rfl with
    ⟨horder, hrefused⟩ |
      ⟨head, tbl, hh, chain, horder, htable, hordered, hkeyed, hfiled, hitems, hsame, hadd⟩
  · simp only [horder]
    exact .inl ⟨rfl, hrefused⟩
  · rcases Handle.filing_eq_iff.1 hadd with ⟨_, _, hnewKey, hnewKeylen, _⟩
    simp only at hnewKey hnewKeylen
    -- Setting the hash value touches neither the order nor the other handles.
    have hothers : ∀ x ∈ order,
        (Function.update hh a { hh a with hashv := fcn key } x).filing = (s.hh x).filing := by
      intro x hx
      have hxa : x ≠ a := fun heq => ha (heq ▸ hx)
      simpa [hxa] using hsame x hx
    have hlinks : ∀ x, (Function.update hh a { hh a with hashv := fcn key } x).next = (hh x).next ∧
        (Function.update hh a { hh a with hashv := fcn key } x).prev = (hh x).prev := by
      intro x
      by_cases hxa : x = a
      · subst hxa
        simp
      · simp [hxa]
    have hplace : placeOf (Function.update hh a { hh a with hashv := fcn key })
        (s.entered a).numBuckets a = hashToBkt (fcn key) (s.entered a).numBuckets := by
      simp [placeOf]
    refine .inr ⟨head, Function.update hh a { hh a with hashv := fcn key }, chain, ?_, ?_,
      hfiled.congr hothers, ?_, ?_, ?_, ?_, ?_⟩
    · exact ⟨hordered.path.congr fun x _ => (hlinks x).1,
        hordered.back.congr fun x _ => (hlinks x).2, hordered.last⟩
    · intro x hx
      rcases List.mem_append.1 hx with hx | hx
      · rcases Handle.filing_eq_iff.1 (hothers x hx) with ⟨_, _, hk, hkl, hhv⟩
        rw [hk, hkl, hhv]
        exact hkeyed x hx
      · rw [List.mem_singleton.1 hx]
        simpa [hnewKey, hnewKeylen] using hkey
    · rw [← htable]
      simp only [hitems, List.length_append, UInt32.ofNat_add]
      rfl
    · unfold Hash.entered
      cases s.root with
      | none => rfl
      | some root => rfl
    · simp [hnewKey]
    · intro x hx
      exact (Handle.filing_eq_iff.1 (hothers x hx)).2.2.1
    · rw [hplace, ← htable]
      simp only [horder]
      change (addToBkt _ _ _ _ _ _ >>= _) = _
      cases addToBkt alloc turns { tbl with numItems := tbl.numItems + 1 }
        (Function.update hh a { hh a with hashv := fcn key })
        (hashToBkt (fcn key) { tbl with numItems := tbl.numItems + 1 }.numBuckets) a with
      | error halt => rfl
      | ok out => rfl

/-- {lit}`HASH_ADD_KEYPTR` of an element that is not in the table: the elements are those
of before and the new one, each with its key, or the process has ended because
{lit}`malloc` refused. -/
theorem hashAdd_holds (h : s.Holds fcn order) (ha : a ∉ order) {key : List UInt8}
    (hkey : key.length < 2 ^ 32) (hfew : (order ++ [a]).length < 2 ^ 32)
    (hlimit : ∀ n, 2 ^ 36 ≤ n → alloc n = false) (hturns : (order ++ [a]).length ≤ turns) :
    (hashAdd fcn alloc turns s key a = .error .outOfMemory ∧
        ∃ n ∈ s.requests, alloc n = false) ∨
      ∃ s', hashAdd fcn alloc turns s key a = .ok s' ∧ s'.Holds fcn (order ++ [a]) ∧
        (s'.hh a).key = key ∧ ∀ x ∈ order, (s'.hh x).key = (s.hh x).key := by
  rcases hashAdd_entered alloc turns h ha hkey with
    hrefused | ⟨head, hh, chain, hordered, hkeyed, hfiled, hitems, htail, hnewKey, hkeys, hadd⟩
  · exact .inl hrefused
  rcases addToBkt_filed hfiled hordered.nodup hitems hfew hlimit hturns with
    ⟨hbkt, hrefused⟩ | ⟨tbl', hh', chain', hbkt, hfiled', hcore, hitems', htail'⟩
  · refine .inl ⟨?_, _, ?_, hrefused⟩
    · rw [hadd, hbkt]
      rfl
    · simp [Hash.requests, Hash.entered_numBuckets]
  · refine .inr ⟨{ root := some (head, tbl'), hh := hh' }, ?_, ⟨chain', ?_⟩, ?_, ?_⟩
    · rw [hadd, hbkt]
      rfl
    · refine ⟨?_, hkeyed.congr hcore, hfiled', hitems'.trans hitems, hfew⟩
      rw [htail', htail]
      exact hordered.congr hcore
    · rw [(Handle.core_eq_iff.1 (hcore a)).2.2.1, hnewKey]
    · intro x hx
      rw [(Handle.core_eq_iff.1 (hcore x)).2.2.1, hkeys x hx]

end Add

/-! ## Finding an element -/

/-- Lengths below {lit}`2 ^ 32` survive the conversion to {lit}`unsigned`, so the comparison
of lengths and bytes is that of the keys. -/
theorem Handle.matches_iff {h : Handle α} {keyptr : List UInt8}
    (hkeylen : h.keylen = UInt32.ofNat h.key.length) (hkey : h.key.length < 2 ^ 32)
    (hptr : keyptr.length < 2 ^ 32) : h.matches keyptr = true ↔ h.key = keyptr := by
  have hlen : (UInt32.ofNat keyptr.length).toNat = keyptr.length := by
    rw [UInt32.toNat_ofNat', Nat.mod_eq_of_lt hptr]
  constructor
  · intro hmatch
    simp only [Handle.matches, Bool.and_eq_true, beq_iff_eq, hlen] at hmatch
    rcases hmatch with ⟨hkl, hbytes⟩
    have hlengths : h.key.length = keyptr.length := by
      have hnat := congrArg UInt32.toNat (hkeylen.symm.trans hkl)
      rwa [hlen, UInt32.toNat_ofNat', Nat.mod_eq_of_lt hkey] at hnat
    rwa [← hlengths, List.take_length, hlengths, List.take_length] at hbytes
  · rintro rfl
    simp [Handle.matches, hkeylen]

section Find

variable {fcn : List UInt8 → UInt32} {s : Hash α} {order : List α} {turns : Nat}

/-- A search looks through one bucket, which is enough: it returns an element that was
added under the key, and none exactly when there is no such element. -/
theorem hashFind_spec (h : s.Holds fcn order) {key : List UInt8} (hkey : key.length < 2 ^ 32)
    (hturns : order.length ≤ turns) :
    ∃ out, hashFind fcn turns s key = .ok out ∧ (∀ a, out = some a → a ∈ order ∧
      (s.hh a).key = key) ∧ (out = none → ∀ a ∈ order, (s.hh a).key ≠ key) := by
  unfold Hash.Holds at h
  unfold hashFind
  cases hroot : s.root with
  | none =>
      rw [hroot] at h
      subst h
      exact ⟨none, rfl, by simp, by simp⟩
  | some root =>
      rcases root with ⟨head, tbl⟩
      rw [hroot] at h
      rcases h with ⟨chain, hlinked⟩
      have hmem : ∀ a, a ∈ chain (hashToBkt (fcn key) tbl.numBuckets) ↔
          a ∈ order ∧ hashToBkt (s.hh a).hashv tbl.numBuckets =
            hashToBkt (fcn key) tbl.numBuckets := by
        intro a
        rw [(hlinked.filed.bins _).mem_iff, mem_bin, placeOf]
      have hmatches : ∀ a ∈ order, (s.hh a).matches key = true ↔ (s.hh a).key = key := by
        intro a ha
        rcases hlinked.keyed a ha with ⟨hlen, hkeylen, _⟩
        exact Handle.matches_iff hkeylen hlen hkey
      have hlength : (chain (hashToBkt (fcn key) tbl.numBuckets)).length ≤ turns := by
        rw [(hlinked.filed.bins _).length_eq]
        exact length_bin_le.trans hturns
      refine ⟨_, follow_search (fun _ _ => rfl) (hlinked.filed.chained.path _) hlength, ?_, ?_⟩
      · intro a hout
        have ha := ((hmem a).1 (List.mem_of_find?_eq_some hout)).1
        have hfound : (s.hh a).matches key = true := by
          simpa using List.find?_some hout
        exact ⟨ha, (hmatches a ha).1 hfound⟩
      · intro hnone a ha heq
        -- An element with the key has its hash value, so it would be in this bucket.
        rcases hlinked.keyed a ha with ⟨_, _, hhashv⟩
        have hin : a ∈ chain (hashToBkt (fcn key) tbl.numBuckets) := by
          rw [hmem]
          refine ⟨ha, ?_⟩
          rw [hhashv, heq]
        exact List.find?_eq_none.1 hnone a hin ((hmatches a ha).2 heq)

end Find

/-! ## The integrity check -/

section Fsck

variable [DecidableEq α] {fcn : List UInt8 → UInt32} {s : Hash α} {order : List α} {turns : Nat}

theorem iterate_add_one (n : Nat) (count : UInt32) :
    (fun count => count + 1)^[n] count = count + UInt32.ofNat n := by
  induction n with
  | zero => simp
  | succ n ih =>
      rw [Function.iterate_succ_apply', ih, UInt32.ofNat_add, UInt32.add_assoc]
      rfl

/-- A walk along a chain that is linked in both directions counts its cells. -/
theorem fsckWalk_eq {next prev : α → Option α} {first : Option α} {xs : List α}
    (h : Path next first xs) (hback : Backed prev none xs) (hturns : xs.length ≤ turns) :
    fsckWalk turns next prev first = .ok (UInt32.ofNat xs.length) := by
  have hturn : ∀ (a : α) (count : UInt32), fsckTurn next prev a (prev a, count) =
      .ok (next a, (some a, count + 1)) := by
    intro a count
    simp [fsckTurn]
  rcases follow_backed hturn h hback hturns 0 with ⟨last, hwalk⟩
  rw [fsckWalk, hwalk, iterate_add_one, UInt32.zero_add]
  rfl

/-- The outer loop adds up the lengths of the chains. -/
theorem foldlM_fsckBucket {hh : α → Handle α} {tbl : Table α} {chain : Nat → List α}
    (h : Filed hh tbl order chain) (hturns : order.length ≤ turns) (bs : List Nat)
    (count : UInt32) :
    bs.foldlM (fun count i => fsckBucket turns hh (tbl.buckets i) count) count =
      .ok (count + UInt32.ofNat (bs.flatMap chain).length) := by
  induction bs generalizing count with
  | nil => simp; rfl
  | cons b bs ih =>
      have hlength : (chain b).length ≤ turns := by
        rw [(h.bins b).length_eq]
        exact length_bin_le.trans hturns
      have hbucket : fsckBucket turns hh (tbl.buckets b) count =
          .ok (count + UInt32.ofNat (chain b).length) := by
        have hwalk := fsckWalk_eq (h.chained.path b) (h.chained.back b) hlength
        change (fsckWalk _ _ _ _ >>= _) = _
        rw [hwalk]
        change (if _ then _ else _) = _
        rw [h.chained.count b, if_neg (by simp)]
      rw [List.foldlM_cons, hbucket]
      change List.foldlM _ _ bs = _
      rw [ih, List.flatMap_cons, List.length_append, UInt32.ofNat_add, UInt32.add_assoc]

/-- {lit}`HASH_FSCK` finds nothing wrong. -/
theorem hashFsck_eq (h : s.Holds fcn order) (hturns : order.length ≤ turns) :
    hashFsck turns s = .ok () := by
  unfold Hash.Holds at h
  unfold hashFsck
  cases hroot : s.root with
  | none => rfl
  | some root =>
      rcases root with ⟨head, tbl⟩
      rw [hroot] at h
      rcases h with ⟨chain, hlinked⟩
      have hbuckets := foldlM_fsckBucket hlinked.filed hturns (List.range tbl.numBuckets.toNat) 0
      have hcount : ((List.range tbl.numBuckets.toNat).flatMap chain).length = order.length :=
        hlinked.filed.items_perm.length_eq
      rw [hcount, UInt32.zero_add] at hbuckets
      have hwalk := fsckWalk_eq hlinked.ordered.path hlinked.ordered.back hturns
      simp only [hbuckets, hwalk, hlinked.items]
      simp [bind, Except.bind]

end Fsck

end Uthash
end Clacks
