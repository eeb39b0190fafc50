import Mathlib.Data.List.Basic

/-!
# Byte buffers and C strings

Fixed arrays, partial reads into them, and the string functions of the C library
that look for a terminating NUL byte.  Memory is a list of bytes starting at the
address a pointer holds; a function that runs past the end of the list behaves as
if the memory ended in a NUL byte there.

Main results:

- Theorem {lit}`cstr_store_terminated`: a string that is sent with its terminator is
  read back whatever was left over.
- Theorem {lit}`strcmp_eq_zero_iff`: comparison succeeds exactly when both
  memories start with the same C string.
- Theorem {lit}`cstr_strncpy_append`: a bounded copy keeps a string that fits.
-/

namespace Clacks
namespace Foundation

/-- The bytes of an ASCII literal. -/
def ascii (s : String) : List UInt8 :=
  s.toList.map fun c => UInt8.ofNat c.toNat

/-! ## Arrays and what a read delivers -/

/-- The bytes delivered by a read of size {lit}`n`. -/
structure Chunk (n : Nat) where
  bytes : List UInt8
  length_le : bytes.length ≤ n
deriving DecidableEq

/-- The chunk a reader of size {lit}`n` takes from the front of {lit}`bytes`. -/
def Chunk.front (n : Nat) (bytes : List UInt8) : Chunk n where
  bytes := bytes.take n
  length_le := List.length_take_le n bytes

@[simp]
theorem Chunk.front_bytes (n : Nat) (bytes : List UInt8) :
    (Chunk.front n bytes).bytes = bytes.take n :=
  rfl

/-- A {lit}`char` array of {lit}`n` bytes. -/
structure Buffer (n : Nat) where
  bytes : List UInt8
  length_eq : bytes.length = n
deriving DecidableEq

@[ext]
theorem Buffer.ext {n : Nat} {a b : Buffer n} (h : a.bytes = b.bytes) : a = b := by
  cases a
  cases b
  cases h
  rfl

/-- An array filled with one byte. -/
def Buffer.fill (n : Nat) (b : UInt8) : Buffer n where
  bytes := List.replicate n b
  length_eq := List.length_replicate

/-- The array after a read delivered {lit}`chunk` into its front; the bytes past
the chunk keep their old value. -/
def Buffer.store {n : Nat} (buffer : Buffer n) (chunk : Chunk n) : Buffer n where
  bytes := chunk.bytes ++ buffer.bytes.drop chunk.bytes.length
  length_eq := by
    have hchunk := chunk.length_le
    have hbuffer := buffer.length_eq
    simp only [List.length_append, List.length_drop]
    omega

theorem Buffer.store_bytes {n : Nat} (buffer : Buffer n) (chunk : Chunk n) :
    (buffer.store chunk).bytes = chunk.bytes ++ buffer.bytes.drop chunk.bytes.length :=
  rfl

/-- A full read leaves nothing of the old contents. -/
theorem Buffer.store_full {n : Nat} (buffer : Buffer n) (chunk : Chunk n)
    (hfull : chunk.bytes.length = n) : (buffer.store chunk).bytes = chunk.bytes := by
  rw [store_bytes, List.drop_eq_nil_of_le (by simp [buffer.length_eq, hfull]),
    List.append_nil]

/-- Receiving a whole array copies it. -/
theorem Buffer.store_front {n : Nat} (buffer src : Buffer n) :
    (buffer.store (Chunk.front n src.bytes)).bytes = src.bytes := by
  have hfull : (Chunk.front n src.bytes).bytes = src.bytes :=
    List.take_of_length_le (Nat.le_of_eq src.length_eq)
  rw [store_full _ _ (by rw [hfull, src.length_eq]), hfull]

/-- {lit}`memcpy` of the first {lit}`m` bytes of an array. -/
def Buffer.front {n : Nat} (buffer : Buffer n) (m : Nat) (hm : m ≤ n) : Buffer m where
  bytes := buffer.bytes.take m
  length_eq := by
    rw [List.length_take, buffer.length_eq]
    exact Nat.min_eq_left hm

/-! ## NUL-terminated strings -/

/-- The C string that starts a memory: the bytes before its first NUL byte. -/
def cstr (mem : List UInt8) : List UInt8 :=
  mem.takeWhile (· != 0)

@[simp]
theorem cstr_nil : cstr [] = [] :=
  rfl

@[simp]
theorem cstr_nul (rest : List UInt8) : cstr (0 :: rest) = [] :=
  rfl

theorem cstr_cons_of_ne {b : UInt8} (hb : b ≠ 0) (rest : List UInt8) :
    cstr (b :: rest) = b :: cstr rest := by
  simp [cstr, hb]

theorem cstr_nul_free (mem : List UInt8) : 0 ∉ cstr mem := by
  induction mem with
  | nil => simp
  | cons b mem ih =>
      by_cases hb : b = 0
      · simp [hb]
      · simp [cstr_cons_of_ne hb, ih, Ne.symm hb]

/-- A NUL-free prefix is kept whole and the search goes on behind it. -/
theorem cstr_append {s : List UInt8} (hs : 0 ∉ s) (rest : List UInt8) :
    cstr (s ++ rest) = s ++ cstr rest := by
  induction s with
  | nil => rfl
  | cons b s ih =>
      rw [List.mem_cons, not_or] at hs
      rw [List.cons_append, cstr_cons_of_ne (Ne.symm hs.1), ih hs.2, List.cons_append]

theorem cstr_of_nul_free {s : List UInt8} (hs : 0 ∉ s) : cstr s = s := by
  simpa using cstr_append hs []

/-- A string followed by its terminator reads back as that string. -/
theorem cstr_append_nul {s : List UInt8} (hs : 0 ∉ s) (rest : List UInt8) :
    cstr (s ++ 0 :: rest) = s := by
  rw [cstr_append hs, cstr_nul, List.append_nil]

/-- A string that cannot contain a NUL byte. -/
structure CString where
  bytes : List UInt8
  nul_free : 0 ∉ bytes
deriving DecidableEq

theorem CString.ext {s t : CString} (h : s.bytes = t.bytes) : s = t := by
  cases s
  cases t
  simp_all

/-- The string found at a memory. -/
def CString.ofMemory (mem : List UInt8) : CString where
  bytes := cstr mem
  nul_free := cstr_nul_free mem

@[simp]
theorem CString.ofMemory_bytes (s : CString) : CString.ofMemory s.bytes = s :=
  CString.ext (cstr_of_nul_free s.nul_free)

/-- The empty string. -/
def CString.empty : CString where
  bytes := []
  nul_free := by simp

/-- The memory of a string literal: its bytes and the terminator. -/
def CString.terminated (s : CString) : List UInt8 :=
  s.bytes ++ [0]

/-- A string read together with its terminator replaces whatever the array held. -/
theorem cstr_store_terminated {n : Nat} (buffer : Buffer n) {s : List UInt8} (hs : 0 ∉ s)
    (hfit : s.length < n) : cstr (buffer.store (Chunk.front n (s ++ [0]))).bytes = s := by
  have htake : (s ++ [0]).take n = s ++ [0] := List.take_of_length_le (by simp; omega)
  rw [Buffer.store_bytes, Chunk.front_bytes, htake, List.append_assoc, List.singleton_append]
  exact cstr_append_nul hs _

/-! ## Library string functions -/

/-- {lit}`strcmp`: the difference of the first bytes that differ, zero when the
terminators are reached together. -/
def strcmp : List UInt8 → List UInt8 → Int
  | [], [] => 0
  | a :: _, [] => a.toNat
  | [], b :: _ => -b.toNat
  | a :: as, b :: bs =>
      if a = b then if a = 0 then 0 else strcmp as bs
      else (a.toNat : Int) - b.toNat

private theorem toNat_eq_zero_iff (b : UInt8) : b.toNat = 0 ↔ b = 0 := by
  rw [← UInt8.toNat_inj]
  simp

theorem strcmp_eq_zero_iff (m n : List UInt8) : strcmp m n = 0 ↔ cstr m = cstr n := by
  induction m generalizing n with
  | nil =>
      cases n with
      | nil => simp [strcmp]
      | cons b bs =>
          by_cases hb : b = 0
          · simp [strcmp, hb]
          · simp [strcmp, cstr_cons_of_ne hb, toNat_eq_zero_iff, hb]
  | cons a as ih =>
      cases n with
      | nil =>
          by_cases ha : a = 0
          · simp [strcmp, ha]
          · simp [strcmp, cstr_cons_of_ne ha, toNat_eq_zero_iff, ha]
      | cons b bs =>
          by_cases hab : a = b
          · subst b
            by_cases ha : a = 0
            · simp [strcmp, ha]
            · simp [strcmp, ha, cstr_cons_of_ne ha, ih]
          · have hne : (a.toNat : Int) - b.toNat ≠ 0 := by
              intro h
              exact hab (UInt8.toNat_inj.1 (by omega))
            have hstr : cstr (a :: as) ≠ cstr (b :: bs) := by
              by_cases ha : a = 0
              · have hb : b ≠ 0 := fun hb => hab (ha.trans hb.symm)
                simp [ha, cstr_cons_of_ne hb]
              · by_cases hb : b = 0
                · simp [hb, cstr_cons_of_ne ha]
                · simp [cstr_cons_of_ne ha, cstr_cons_of_ne hb, hab]
            simp [strcmp, hab, hne, hstr]

/-- {lit}`strncpy` into a field of {lit}`n` bytes: at most {lit}`n` bytes of the
source string, padded with NUL bytes.  Every byte of the field is written. -/
def strncpy (src : List UInt8) (n : Nat) : Buffer n where
  bytes := (cstr src).take n ++ List.replicate (n - (cstr src).length) 0
  length_eq := by
    simp only [List.length_append, List.length_take, List.length_replicate]
    omega

/-- A string with room for its terminator is found again at the start of the
field, whatever lies behind the field. -/
theorem cstr_strncpy_append {src : List UInt8} {n : Nat} (hfit : (cstr src).length < n)
    (rest : List UInt8) : cstr ((strncpy src n).bytes ++ rest) = cstr src := by
  obtain ⟨m, hm⟩ : ∃ m, n - (cstr src).length = m + 1 := ⟨n - (cstr src).length - 1, by omega⟩
  simp only [strncpy, List.take_of_length_le (Nat.le_of_lt hfit), hm, List.replicate_succ,
    List.append_assoc, List.cons_append]
  exact cstr_append_nul (cstr_nul_free src) _

/-- A string that fills the field runs on into the memory behind it. -/
theorem cstr_strncpy_append_of_le {src : List UInt8} {n : Nat} (hfull : n ≤ (cstr src).length)
    (rest : List UInt8) :
    cstr ((strncpy src n).bytes ++ rest) = (cstr src).take n ++ cstr rest := by
  have hpad : n - (cstr src).length = 0 := by omega
  simp only [strncpy, hpad, List.replicate_zero, List.append_nil]
  exact cstr_append (fun h => cstr_nul_free src (List.mem_of_mem_take h)) rest

end Foundation
end Clacks
