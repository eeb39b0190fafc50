import Clacks.Uthash.Table

/-!
# What the hash function reads

{lit}`HASH_JEN` as it runs over memory: a pointer that moves by twelve bytes, an unsigned
counter, and a {lit}`switch` that falls through.  It reads the bytes of the key, all of them
and no others, and computes the hash value that {lit}`hashJen` gives for them.

Main results:

- Theorem {lit}`jenSwitch_eq`: the labels that a {lit}`switch` falls through.
- Theorem {lit}`hashJenAt_eq`: the whole macro over any memory.
-/

namespace Clacks
namespace Uthash

/-! ## The macro -/

/-- The variables {lit}`_hj_i`, {lit}`_hj_j` and {lit}`hashv`. -/
structure Jen where
  i : UInt32
  j : UInt32
  hashv : UInt32

/-- {lit}`HASH_JEN_MIX` of the three. -/
def Jen.mix (r : Jen) : Jen :=
  let (i, j, hashv) := hashJenMix r.i r.j r.hashv
  { i, j, hashv }

/-- Four bytes of memory at the address {lit}`o`, if they are there. -/
def loadWord (mem : List UInt8) (o : Nat) : Option UInt32 := do
  let b₀ ← mem[o]?
  let b₁ ← mem[o + 1]?
  let b₂ ← mem[o + 2]?
  let b₃ ← mem[o + 3]?
  return b₀.toUInt32 + (b₁.toUInt32 <<< 8) + (b₂.toUInt32 <<< 16) + (b₃.toUInt32 <<< 24)

/-- The loop, with {lit}`_hj_key` and {lit}`_hj_k`. -/
def jenWhile (mem : List UInt8) (key : Nat) (k : UInt32) (r : Jen) :
    Option (Nat × UInt32 × Jen) :=
  if 12 ≤ k then do
    let i ← loadWord mem key
    let j ← loadWord mem (key + 4)
    let hashv ← loadWord mem (key + 8)
    jenWhile mem (key + 12) (k - 12) (Jen.mix ⟨r.i + i, r.j + j, r.hashv + hashv⟩)
  else
    some (key, k, r)
termination_by k.toNat
decreasing_by
  rw [UInt32.toNat_sub_of_le _ _ (by assumption)]
  have hk : (12 : UInt32).toNat ≤ k.toNat := UInt32.le_iff_toNat_le.1 (by assumption)
  simp only [UInt32.reduceToNat] at hk ⊢
  omega

/-- What the statement behind a label does with its byte. -/
def Jen.add (r : Jen) (label : Nat) (b : UInt32) : Jen :=
  match label with
  | 11 => { r with hashv := r.hashv + (b <<< 24) }
  | 10 => { r with hashv := r.hashv + (b <<< 16) }
  | 9 => { r with hashv := r.hashv + (b <<< 8) }
  | 8 => { r with j := r.j + (b <<< 24) }
  | 7 => { r with j := r.j + (b <<< 16) }
  | 6 => { r with j := r.j + (b <<< 8) }
  | 5 => { r with j := r.j + b }
  | 4 => { r with i := r.i + (b <<< 24) }
  | 3 => { r with i := r.i + (b <<< 16) }
  | 2 => { r with i := r.i + (b <<< 8) }
  | 1 => { r with i := r.i + b }
  | _ => r

/-- The {lit}`switch`, entered at a label; the loop has left less than twelve. -/
def jenSwitch (mem : List UInt8) (key : Nat) : Nat → Jen → Option Jen
  | 0, r => some r
  | label + 1, r => do
      let b ← mem[key + label]?
      -- FALLTHROUGH
      jenSwitch mem key label (r.add (label + 1) b.toUInt32)

/-- {lit}`HASH_JEN` of {lit}`keylen` bytes at the address {lit}`key`, without its last line;
{lit}`none` if it reads what is not there. -/
def hashJenAt (mem : List UInt8) (key : Nat) (keylen : UInt32) : Option UInt32 := do
  let (key, k, r) ← jenWhile mem key keylen ⟨0x9e3779b9, 0x9e3779b9, 0xfeedbeef⟩
  let r ← jenSwitch mem key k.toNat { r with hashv := r.hashv + keylen }
  return r.mix.hashv

/-! ## Its reads -/

theorem loadWord_of_lt {mem : List UInt8} {o : Nat} (h : o + 3 < mem.length) :
    loadWord mem o = some (keyWord mem o) := by
  have h₀ : o < mem.length := by omega
  have h₁ : o + 1 < mem.length := by omega
  have h₂ : o + 2 < mem.length := by omega
  simp [loadWord, keyWord, h, h₀, h₁, h₂]

theorem loadWord_of_le {mem : List UInt8} {o : Nat} (h : mem.length ≤ o + 3) :
    loadWord mem o = none := by
  have h₃ : mem[o + 3]? = none := List.getElem?_eq_none h
  simp [loadWord, h₃]

/-- The registers behind the {lit}`switch` when {lit}`rest` is left of the key, added up in
the order of the labels. -/
def Jen.tail (r : Jen) (rest : List UInt8) : Jen :=
  let byte := fun o => (rest.getD o 0).toUInt32
  { i := r.i + (byte 3 <<< 24) + (byte 2 <<< 16) + (byte 1 <<< 8) + byte 0
    j := r.j + (byte 7 <<< 24) + (byte 6 <<< 16) + (byte 5 <<< 8) + byte 4
    hashv := r.hashv + (byte 10 <<< 24) + (byte 9 <<< 16) + (byte 8 <<< 8) }

theorem jenSwitch_self {rest : List UInt8} (h : rest.length < 12) (r : Jen) :
    jenSwitch rest 0 rest.length r = some (r.tail rest) := by
  rcases rest with _ | ⟨b₀, _ | ⟨b₁, _ | ⟨b₂, _ | ⟨b₃, _ | ⟨b₄, _ | ⟨b₅, _ | ⟨b₆, _ | ⟨b₇, _ | ⟨b₈,
    _ | ⟨b₉, _ | ⟨b₁₀, _ | ⟨b₁₁, rest⟩⟩⟩⟩⟩⟩⟩⟩⟩⟩⟩⟩
  case cons.cons.cons.cons.cons.cons.cons.cons.cons.cons.cons.cons =>
    simp only [List.length_cons] at h
    omega
  all_goals simp [jenSwitch, Jen.add, Jen.tail]

/-- The {lit}`switch` sees of the memory what is left of the key. -/
theorem jenSwitch_congr {mem mem' : List UInt8} {key key' label : Nat}
    (h : ∀ o < label, mem[key + o]? = mem'[key' + o]?) (r : Jen) :
    jenSwitch mem key label r = jenSwitch mem' key' label r := by
  induction label generalizing r with
  | zero => rfl
  | succ label ih =>
      simp only [jenSwitch, h label (Nat.lt_succ_self label)]
      congr 1
      funext b
      exact ih (fun o ho => h o (Nat.lt_succ_of_lt ho)) _

/-- The {lit}`switch` reads all that is left of the key, and fails if it is not there. -/
theorem jenSwitch_eq (mem : List UInt8) (key : Nat) {label : Nat} (h : label < 12) (r : Jen) :
    jenSwitch mem key label r =
      if label ≤ (mem.drop key).length then some (r.tail ((mem.drop key).take label))
      else none := by
  by_cases hthere : label ≤ (mem.drop key).length
  · have hlength : ((mem.drop key).take label).length = label := List.length_take_of_le hthere
    rw [if_pos hthere, ← jenSwitch_self (Nat.lt_of_le_of_lt (Nat.le_of_eq hlength) h), hlength]
    apply jenSwitch_congr
    intro o ho
    rw [Nat.zero_add, List.getElem?_take_of_lt ho, List.getElem?_drop]
  · rw [if_neg hthere]
    cases label with
    | zero => exact absurd (Nat.zero_le _) hthere
    | succ label =>
        have hnone : mem[key + label]? = none := by
          rw [List.length_drop] at hthere
          apply List.getElem?_eq_none
          omega
        rw [jenSwitch, hnone]
        rfl

/-- A word in the order of the labels. -/
theorem add_keyWord (x : UInt32) (key : List UInt8) (o : Nat) :
    x + keyWord key o =
      x + ((key.getD (o + 3) 0).toUInt32 <<< 24) + ((key.getD (o + 2) 0).toUInt32 <<< 16) +
        ((key.getD (o + 1) 0).toUInt32 <<< 8) + (key.getD o 0).toUInt32 := by
  have hsum : ∀ a b c d : UInt32, x + (a + b + c + d) = x + d + c + b + a := by
    intro a b c d
    ac_rfl
  exact hsum _ _ _ _

theorem hashJenLoop_of_lt {rest : List UInt8} (h : rest.length < 12) (keylen : UInt32) (r : Jen) :
    hashJenLoop keylen rest r.i r.j r.hashv =
      (Jen.tail { r with hashv := r.hashv + keylen } rest).mix.hashv := by
  unfold hashJenLoop
  split
  · simp only [List.length_cons] at h
    omega
  · rw [add_keyWord, add_keyWord]
    rfl

theorem keyWord_drop (mem : List UInt8) (key o : Nat) :
    keyWord (mem.drop key) o = keyWord mem (key + o) := by
  simp [keyWord, Nat.add_assoc]

theorem keyWord_take (xs : List UInt8) {n o : Nat} (h : o + 3 < n) :
    keyWord (xs.take n) o = keyWord xs o := by
  have h₀ : o < n := by omega
  have h₁ : o + 1 < n := by omega
  have h₂ : o + 2 < n := by omega
  simp [keyWord, h, h₀, h₁, h₂, List.getElem?_take_of_lt]

/-- A turn of the loop takes twelve bytes off the key. -/
theorem hashJenLoop_of_le {xs : List UInt8} (h : 12 ≤ xs.length) (keylen : UInt32) (r : Jen) :
    hashJenLoop keylen xs r.i r.j r.hashv =
      let r := Jen.mix ⟨r.i + keyWord xs 0, r.j + keyWord xs 4, r.hashv + keyWord xs 8⟩
      hashJenLoop keylen (xs.drop 12) r.i r.j r.hashv := by
  rcases xs with _ | ⟨b₀, _ | ⟨b₁, _ | ⟨b₂, _ | ⟨b₃, _ | ⟨b₄, _ | ⟨b₅, _ | ⟨b₆, _ | ⟨b₇, _ | ⟨b₈,
    _ | ⟨b₉, _ | ⟨b₁₀, _ | ⟨b₁₁, rest⟩⟩⟩⟩⟩⟩⟩⟩⟩⟩⟩⟩
  case cons.cons.cons.cons.cons.cons.cons.cons.cons.cons.cons.cons => rw [hashJenLoop]; rfl
  all_goals simp at h

/-- What is left of the macro at any turn of the loop. -/
theorem jenWhile_eq (mem : List UInt8) (keylen : UInt32) (key : Nat) (k : UInt32) (r : Jen) :
    (do
      let (key, k, r) ← jenWhile mem key k r
      let r ← jenSwitch mem key k.toNat { r with hashv := r.hashv + keylen }
      return r.mix.hashv) =
      if k.toNat ≤ (mem.drop key).length then
        some (hashJenLoop keylen ((mem.drop key).take k.toNat) r.i r.j r.hashv)
      else none := by
  induction key, k, r using jenWhile.induct with
  | case1 key k r hmore ih =>
      have hle : 12 ≤ k.toNat := UInt32.le_iff_toNat_le.1 hmore
      have hsub : (k - 12).toNat = k.toNat - 12 := UInt32.toNat_sub_of_le _ _ hmore
      rw [jenWhile, if_pos hmore]
      by_cases hblock : 12 ≤ (mem.drop key).length
      · have hroom : key + 11 < mem.length := by
          rw [List.length_drop] at hblock
          omega
        have hi : loadWord mem key = some (keyWord (mem.drop key) 0) := by
          rw [keyWord_drop]
          exact loadWord_of_lt (by omega)
        have hj : loadWord mem (key + 4) = some (keyWord (mem.drop key) 4) := by
          rw [keyWord_drop]
          exact loadWord_of_lt (by omega)
        have hhashv : loadWord mem (key + 8) = some (keyWord (mem.drop key) 8) := by
          rw [keyWord_drop]
          exact loadWord_of_lt (by omega)
        simp only [hi, hj, hhashv, Option.bind_eq_bind, Option.bind_some]
        have hdrop : (mem.drop key).drop 12 = mem.drop (key + 12) := List.drop_drop
        refine (ih _ _ _).trans ?_
        by_cases hthere : k.toNat ≤ (mem.drop key).length
        · have hthere' : (k - 12).toNat ≤ (mem.drop (key + 12)).length := by
            rw [hsub, ← hdrop, List.length_drop]
            omega
          have hlength : 12 ≤ ((mem.drop key).take k.toNat).length := by
            rw [List.length_take]
            omega
          rw [if_pos hthere', if_pos hthere, hashJenLoop_of_le hlength, List.drop_take, hdrop,
            hsub, keyWord_take _ (by omega), keyWord_take _ (by omega), keyWord_take _ (by omega)]
        · have hthere' : ¬(k - 12).toNat ≤ (mem.drop (key + 12)).length := by
            rw [hsub, ← hdrop, List.length_drop]
            omega
          rw [if_neg hthere', if_neg hthere]
      · have hnone : loadWord mem (key + 8) = none := by
          rw [List.length_drop] at hblock
          apply loadWord_of_le
          omega
        have hshort : ¬k.toNat ≤ (mem.drop key).length := by omega
        rw [if_neg hshort, hnone]
        cases loadWord mem key with
        | none => rfl
        | some i =>
            cases loadWord mem (key + 4) with
            | none => rfl
            | some j => rfl
  | case2 key k r hmore =>
      have hlt : k.toNat < 12 := by
        rw [UInt32.le_iff_toNat_le] at hmore
        exact Nat.lt_of_not_le hmore
      rw [jenWhile, if_neg hmore]
      simp only [Option.bind_eq_bind, Option.bind_some, jenSwitch_eq mem key hlt]
      by_cases hthere : k.toNat ≤ (mem.drop key).length
      · simp only [if_pos hthere]
        rw [hashJenLoop_of_lt]
        · rfl
        · rw [List.length_take]
          omega
      · simp only [if_neg hthere]
        rfl

/-- {lit}`HASH_JEN` never reads behind the key, wherever it lies and whatever follows it, and
its value is that of the bytes of the key alone.  It reads all of them, and so it fails
exactly when the memory ends inside the key. -/
theorem hashJenAt_eq (mem : List UInt8) (key : Nat) (keylen : UInt32) :
    hashJenAt mem key keylen =
      if keylen.toNat ≤ (mem.drop key).length then
        some (hashJen ((mem.drop key).take keylen.toNat))
      else none := by
  rw [hashJenAt, jenWhile_eq]
  by_cases hthere : keylen.toNat ≤ (mem.drop key).length
  · rw [if_pos hthere, if_pos hthere, hashJen, List.length_take_of_le hthere,
      UInt32.ofNat_toNat]
  · rw [if_neg hthere, if_neg hthere]

end Uthash
end Clacks
