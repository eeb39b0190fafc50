import Mathlib.Algebra.Ring.Nat
import Clacks.Foundation.Chain

/-!
# The hash table of uthash

Model of the macros of {lit}`uthash.h` that the tag manager uses.  Elements are known by
their addresses, of any type; an element and the handle inside it have one address here,
since {lit}`ELMT_FROM_HH` and its converse only add and subtract a constant.  A handle's
{lit}`key` is given by the bytes it points to, which an element must not change while it
is in a table.  The hash function is a parameter, as {lit}`HASH_FCN` is; the default is
{lit}`hashJen`.

Main results:

- Theorem {lit}`hashToBkt_eq_mod`: masking with one less than a power of two is taking
  the remainder.
- Theorem {lit}`hashToBkt_lt`: no bucket index is out of range.
-/

namespace Clacks
namespace Uthash

open Foundation Chain

/-- {lit}`UT_hash_handle` without its {lit}`tbl`: there is one table. -/
structure Handle (α : Type) where
  prev : Option α
  next : Option α
  hhPrev : Option α
  hhNext : Option α
  key : List UInt8
  keylen : UInt32
  hashv : UInt32

/-- {lit}`UT_hash_bucket`. -/
structure Bucket (α : Type) where
  hhHead : Option α
  count : UInt32
  expandMult : UInt32

/-- A bucket after {lit}`memset`. -/
def Bucket.zero {α : Type} : Bucket α where
  hhHead := none
  count := 0
  expandMult := 0

/-- {lit}`UT_hash_table`. -/
structure Table (α : Type) where
  buckets : Nat → Bucket α
  numBuckets : UInt32
  log2NumBuckets : UInt32
  numItems : UInt32
  tail : α
  idealChainMaxlen : UInt32
  nonidealItems : UInt32
  ineffExpands : UInt32
  noexpand : UInt32

/-- The head pointer with the table its handle points to, and the handles in memory. -/
structure Hash (α : Type) where
  root : Option (α × Table α)
  hh : α → Handle α

/-- A hash whose head is {lit}`NULL`. -/
def Hash.empty {α : Type} (hh : α → Handle α) : Hash α where
  root := none
  hh := hh

/-- Why a macro does not go on behind its last statement: {lit}`uthash_fatal`, a division
by zero, {lit}`HASH_OOPS`, or a loop that has not ended within its turns. -/
inductive Halt where
  | outOfMemory
  | divideByZero
  | oops
  | unfinished
deriving DecidableEq

/-! ## Hash functions -/

/-- {lit}`HASH_JEN_MIX`. -/
def hashJenMix (a b c : UInt32) : UInt32 × UInt32 × UInt32 :=
  let a := (a - b - c) ^^^ (c >>> 13)
  let b := (b - c - a) ^^^ (a <<< 8)
  let c := (c - a - b) ^^^ (b >>> 13)
  let a := (a - b - c) ^^^ (c >>> 12)
  let b := (b - c - a) ^^^ (a <<< 16)
  let c := (c - a - b) ^^^ (b >>> 5)
  let a := (a - b - c) ^^^ (c >>> 3)
  let b := (b - c - a) ^^^ (a <<< 10)
  let c := (c - a - b) ^^^ (b >>> 15)
  (a, b, c)

/-- Four bytes of a key at {lit}`i`; a byte past the end counts as zero. -/
def keyWord (key : List UInt8) (i : Nat) : UInt32 :=
  (key.getD i 0).toUInt32 + ((key.getD (i + 1) 0).toUInt32 <<< 8) +
    ((key.getD (i + 2) 0).toUInt32 <<< 16) + ((key.getD (i + 3) 0).toUInt32 <<< 24)

/-- The loop of {lit}`HASH_JEN` and the mix behind it.  The {lit}`switch` adds those of
the last 11 bytes that are there; the lowest byte of its third word is the length. -/
def hashJenLoop (keylen : UInt32) (key : List UInt8) (i j hashv : UInt32) : UInt32 :=
  match key with
  | k₀ :: k₁ :: k₂ :: k₃ :: k₄ :: k₅ :: k₆ :: k₇ :: k₈ :: k₉ :: k₁₀ :: k₁₁ :: rest =>
      let block := [k₀, k₁, k₂, k₃, k₄, k₅, k₆, k₇, k₈, k₉, k₁₀, k₁₁]
      let (i, j, hashv) :=
        hashJenMix (i + keyWord block 0) (j + keyWord block 4) (hashv + keyWord block 8)
      hashJenLoop keylen rest i j hashv
  | rest =>
      let hashv := hashv + keylen + ((rest.getD 10 0).toUInt32 <<< 24) +
        ((rest.getD 9 0).toUInt32 <<< 16) + ((rest.getD 8 0).toUInt32 <<< 8)
      (hashJenMix (i + keyWord rest 0) (j + keyWord rest 4) hashv).2.2

/-- {lit}`HASH_JEN`. -/
def hashJen (key : List UInt8) : UInt32 :=
  hashJenLoop (UInt32.ofNat key.length) key 0x9e3779b9 0x9e3779b9 0xfeedbeef

/-- {lit}`HASH_TO_BKT`, and the last line of every hash function. -/
def hashToBkt (hashv numBkts : UInt32) : Nat :=
  (hashv &&& (numBkts - 1)).toNat

theorem hashToBkt_eq_mod {numBkts : UInt32} {k : Nat} (h : numBkts.toNat = 2 ^ k)
    (hashv : UInt32) : hashToBkt hashv numBkts = hashv.toNat % numBkts.toNat := by
  have hone : (1 : UInt32) ≤ numBkts := by
    rw [UInt32.le_iff_toNat_le, h]
    exact Nat.one_le_two_pow
  rw [hashToBkt, UInt32.toNat_and, UInt32.toNat_sub_of_le _ _ hone, h]
  exact Nat.and_two_pow_sub_one_eq_mod _ _

/-- No bucket index is out of range. -/
theorem hashToBkt_lt {numBkts : UInt32} {k : Nat} (h : numBkts.toNat = 2 ^ k) (hashv : UInt32) :
    hashToBkt hashv numBkts < numBkts.toNat := by
  rw [hashToBkt_eq_mod h]
  apply Nat.mod_lt
  rw [h]
  exact Nat.two_pow_pos k

/-! ## Buckets -/

section Macros

variable {α : Type} [DecidableEq α]

/-- The handle of {lit}`a` is put in front of the bucket chain that starts at
{lit}`hhHead`. -/
def linkFront (hh : α → Handle α) (a : α) (hhHead : Option α) : α → Handle α :=
  let hh := Function.update hh a { hh a with hhPrev := none, hhNext := hhHead }
  match hhHead with
  | none => hh
  | some head => Function.update hh head { hh head with hhPrev := some a }

/-- What {lit}`HASH_EXPAND_BUCKETS` changes while it moves the items: the new buckets,
{lit}`nonideal_items` and the handles. -/
structure Rehash (α : Type) where
  newBuckets : Nat → Bucket α
  nonidealItems : UInt32
  hh : α → Handle α

/-- The body of its inner loop for the item {lit}`a`, with the ideal chain length and the
number of new buckets. -/
def Rehash.move (ideal numBkts : UInt32) (s : Rehash α) (a : α) : Rehash α :=
  let bkt := hashToBkt (s.hh a).hashv numBkts
  let newbkt := s.newBuckets bkt
  let count := newbkt.count + 1
  { newBuckets := Function.update s.newBuckets bkt
      { hhHead := some a
        count := count
        expandMult := if ideal < count then count / ideal else newbkt.expandMult }
    nonidealItems := if ideal < count then s.nonidealItems + 1 else s.nonidealItems
    hh := linkFront s.hh a newbkt.hhHead }

/-- One turn of the inner loop.  The link to the next item is read first; the division
is only made for a chain that is longer than the ideal. -/
def Rehash.turn (ideal numBkts : UInt32) (a : α) (s : Rehash α) :
    Except Halt (Option α × Rehash α) :=
  let nxt := (s.hh a).hhNext
  if ideal < (s.newBuckets (hashToBkt (s.hh a).hashv numBkts)).count + 1 ∧ ideal = 0 then
    .error .divideByZero
  else
    .ok (nxt, s.move ideal numBkts a)

/-- The nested loops of {lit}`HASH_EXPAND_BUCKETS`. -/
def rehash (turns : Nat) (ideal : UInt32) (tbl : Table α) (hh : α → Handle α) :
    Except Halt (Rehash α) :=
  (List.range tbl.numBuckets.toNat).foldlM
    (fun s i => follow (Rehash.turn ideal (tbl.numBuckets * 2)) .unfinished turns
      (tbl.buckets i).hhHead s)
    { newBuckets := fun _ => .zero, nonidealItems := 0, hh }

/-- The sizes of {lit}`UT_hash_bucket` and {lit}`UT_hash_table`. -/
def sizeofBucket : Nat := 16

/-- The size of {lit}`UT_hash_table`. -/
def sizeofTable : Nat := 64

/-- {lit}`tbl->ideal_chain_maxlen` of an expansion. -/
def Table.ideal (tbl : Table α) : UInt32 :=
  (tbl.numItems >>> (tbl.log2NumBuckets + 1)) +
    if tbl.numItems &&& (tbl.numBuckets * 2 - 1) ≠ 0 then 1 else 0

/-- The table behind the loops of {lit}`HASH_EXPAND_BUCKETS`. -/
def Table.expanded (tbl : Table α) (moved : Rehash α) : Table α :=
  let ineffExpands :=
    if tbl.numItems >>> 1 < moved.nonidealItems then tbl.ineffExpands + 1 else 0
  { tbl with
    buckets := moved.newBuckets
    numBuckets := tbl.numBuckets * 2
    log2NumBuckets := tbl.log2NumBuckets + 1
    idealChainMaxlen := tbl.ideal
    nonidealItems := moved.nonidealItems
    ineffExpands
    noexpand := if 1 < ineffExpands then 1 else tbl.noexpand }

/-- {lit}`HASH_EXPAND_BUCKETS`; {lit}`alloc` says which sizes {lit}`malloc` grants. -/
def expandBuckets (alloc : Nat → Bool) (turns : Nat) (tbl : Table α) (hh : α → Handle α) :
    Except Halt (Table α × (α → Handle α)) :=
  if alloc (2 * tbl.numBuckets.toNat * sizeofBucket) then do
    let moved ← rehash turns tbl.ideal tbl hh
    return (tbl.expanded moved, moved.hh)
  else
    .error .outOfMemory

/-- {lit}`HASH_BKT_CAPACITY_THRESH`. -/
def bktCapacityThresh : UInt32 := 10

/-- The table when the bucket {lit}`bkt` counts {lit}`a` and starts with it. -/
def Table.countIn (tbl : Table α) (bkt : Nat) (a : α) : Table α :=
  let head := tbl.buckets bkt
  { tbl with
    buckets := Function.update tbl.buckets bkt
      { head with hhHead := some a, count := head.count + 1 } }

/-- {lit}`HASH_ADD_TO_BKT`. -/
def addToBkt (alloc : Nat → Bool) (turns : Nat) (tbl : Table α) (hh : α → Handle α) (bkt : Nat)
    (a : α) : Except Halt (Table α × (α → Handle α)) :=
  let head := tbl.buckets bkt
  let hh := linkFront hh a head.hhHead
  if (head.expandMult + 1) * bktCapacityThresh ≤ head.count + 1 ∧ tbl.noexpand ≠ 1 then
    expandBuckets alloc turns (tbl.countIn bkt a) hh
  else
    .ok (tbl.countIn bkt a, hh)

/-! ## Adding and finding -/

/-- {lit}`HASH_INITIAL_NUM_BUCKETS`. -/
def initialNumBuckets : UInt32 := 32

/-- {lit}`HASH_INITIAL_NUM_BUCKETS_LOG2`. -/
def initialNumBucketsLog2 : UInt32 := 5

/-- The table that {lit}`HASH_MAKE_TABLE` makes for the first element. -/
def Table.made (head : α) : Table α where
  buckets := fun _ => .zero
  numBuckets := initialNumBuckets
  log2NumBuckets := initialNumBucketsLog2
  numItems := 0
  tail := head
  idealChainMaxlen := 0
  nonidealItems := 0
  ineffExpands := 0
  noexpand := 0

/-- {lit}`HASH_MAKE_TABLE`. -/
def makeTable (alloc : Nat → Bool) (head : α) : Except Halt (Table α) :=
  if alloc sizeofTable then
    if alloc (initialNumBuckets.toNat * sizeofBucket) then .ok (Table.made head)
    else .error .outOfMemory
  else .error .outOfMemory

/-- The part of {lit}`HASH_ADD_KEYPTR` that puts the element behind the last one in
application order. -/
def addToOrder (alloc : Nat → Bool) (s : Hash α) (a : α) :
    Except Halt (α × Table α × (α → Handle α)) :=
  match s.root with
  | none => do
      let hh := Function.update s.hh a { s.hh a with prev := none }
      let tbl ← makeTable alloc a
      return (a, tbl, hh)
  | some (head, tbl) =>
      let hh := Function.update s.hh tbl.tail { s.hh tbl.tail with next := some a }
      let hh := Function.update hh a { hh a with prev := some tbl.tail }
      .ok (head, { tbl with tail := a }, hh)

/-- {lit}`HASH_ADD_KEYPTR` of the element at {lit}`a`, whose key is {lit}`key`. -/
def hashAdd (fcn : List UInt8 → UInt32) (alloc : Nat → Bool) (turns : Nat) (s : Hash α)
    (key : List UInt8) (a : α) : Except Halt (Hash α) := do
  let add := { s.hh a with next := none, key, keylen := UInt32.ofNat key.length }
  let (head, tbl, hh) ← addToOrder alloc { s with hh := Function.update s.hh a add } a
  let tbl := { tbl with numItems := tbl.numItems + 1 }
  let hh := Function.update hh a { hh a with hashv := fcn key }
  let (tbl, hh) ← addToBkt alloc turns tbl hh (hashToBkt (fcn key) tbl.numBuckets) a
  return { root := some (head, tbl), hh }

/-- The comparison of {lit}`HASH_FIND_IN_BKT`: equal lengths, and {lit}`memcmp` over that
many bytes. -/
def Handle.matches (h : Handle α) (keyptr : List UInt8) : Bool :=
  let keylen := UInt32.ofNat keyptr.length
  h.keylen == keylen && h.key.take keylen.toNat == keyptr.take keylen.toNat

/-- One turn of {lit}`HASH_FIND_IN_BKT`. -/
def findTurn (hh : α → Handle α) (keyptr : List UInt8) (a : α) (_out : Option α) :
    Except Halt (Option α × Option α) :=
  .ok (if (hh a).matches keyptr then (none, some a) else ((hh a).hhNext, none))

/-- {lit}`HASH_FIND`. -/
def hashFind (fcn : List UInt8 → UInt32) (turns : Nat) (s : Hash α) (keyptr : List UInt8) :
    Except Halt (Option α) :=
  match s.root with
  | none => .ok none
  | some (_, tbl) =>
      follow (findTurn s.hh keyptr) .unfinished turns
        (tbl.buckets (hashToBkt (fcn keyptr) tbl.numBuckets)).hhHead none

/-! ## The integrity check -/

/-- One turn of the two walks of {lit}`HASH_FSCK`: {lit}`_prev` is compared with the back
link and the cell is counted. -/
def fsckTurn (next prev : α → Option α) (a : α) (walk : Option α × UInt32) :
    Except Halt (Option α × (Option α × UInt32)) :=
  if walk.1 ≠ prev a then .error .oops else .ok (next a, (some a, walk.2 + 1))

/-- A whole walk, with the number of cells. -/
def fsckWalk (turns : Nat) (next prev : α → Option α) (first : Option α) : Except Halt UInt32 := do
  let walk ← follow (fsckTurn next prev) .unfinished turns first (none, 0)
  return walk.2

/-- The walk along a bucket chain, and the comparison with the bucket's {lit}`count`. -/
def fsckBucket (turns : Nat) (hh : α → Handle α) (bucket : Bucket α) (count : UInt32) :
    Except Halt UInt32 := do
  let bktCount ← fsckWalk turns (fun a => (hh a).hhNext) (fun a => (hh a).hhPrev) bucket.hhHead
  if bucket.count ≠ bktCount then .error .oops else .ok (count + bktCount)

/-- {lit}`HASH_FSCK`. -/
def hashFsck (turns : Nat) (s : Hash α) : Except Halt Unit :=
  match s.root with
  | none => .ok ()
  | some (head, tbl) => do
      let count ← (List.range tbl.numBuckets.toNat).foldlM
        (fun count i => fsckBucket turns s.hh (tbl.buckets i) count) 0
      if count ≠ tbl.numItems then
        .error .oops
      -- traverse hh in app order
      let count ← fsckWalk turns (fun a => (s.hh a).next) (fun a => (s.hh a).prev) (some head)
      if count ≠ tbl.numItems then .error .oops else .ok ()

end Macros

end Uthash
end Clacks
