import Clacks.Foundation.Memory
import Mathlib.Algebra.Group.Nat.Defs
import Mathlib.Data.Set.Function
import Mathlib.Order.Interval.Set.Defs

/-!
# libuuid

The library the identifier service draws its uuids from is not part of the
repository.  It is a parameter of the model: the sequence of uuids it generates
for the process and the function that prints one.  What the service relies on is
stated as properties of that parameter, and a concrete library with version-1
uuids shows that they can be met.

Main results:

- Theorem {lit}`timeLibuuid_conforms`: the concrete library prints as documented.
- Theorem {lit}`timeLibuuid_freshUpTo`: it repeats no uuid for {lit}`2 ^ 32` calls.
-/

namespace Clacks
namespace Identifier

open Foundation

/-- {lit}`uuid_t`: sixteen bytes. -/
abbrev Uuid := Buffer 16

/-- The part of libuuid the service calls. -/
structure Libuuid where
  /-- The result of the process's {lit}`k`-th {lit}`uuid_generate_time_safe`. -/
  generateTimeSafe : Nat → Uuid
  /-- {lit}`uuid_unparse`: 36 characters and a terminator. -/
  unparse : Uuid → Buffer 37

/-- A character of a uuid's text form. -/
def IsUuidChar (b : UInt8) : Prop :=
  b ∈ ascii "0123456789abcdef-"

instance : DecidablePred IsUuidChar := fun _ => inferInstanceAs (Decidable (_ ∈ _))

/-- What libuuid documents about the text form. -/
structure Libuuid.Conforms (lib : Libuuid) : Prop where
  unparse_injective : Function.Injective lib.unparse
  unparse_text : ∀ u, ∃ text : List UInt8, (∀ b ∈ text, IsUuidChar b) ∧
    (lib.unparse u).bytes = text ++ [0]

/-- The first {lit}`n` uuids generated are pairwise different. -/
def Libuuid.FreshUpTo (lib : Libuuid) (n : Nat) : Prop :=
  Set.InjOn lib.generateTimeSafe (Set.Iio n)

theorem Libuuid.FreshUpTo.mono {lib : Libuuid} {m n : Nat} (h : lib.FreshUpTo n) (hmn : m ≤ n) :
    lib.FreshUpTo m :=
  Set.InjOn.mono (fun _ hk => lt_of_lt_of_le hk hmn) h

/-! ## Hexadecimal text -/

/-- One lower-case hexadecimal digit. -/
def hexDigit (n : Nat) : UInt8 :=
  if n < 10 then UInt8.ofNat (48 + n) else UInt8.ofNat (87 + n)

/-- Two digits for each byte. -/
def hexText : List UInt8 → List UInt8
  | [] => []
  | b :: bs => hexDigit (b.toNat / 16) :: hexDigit (b.toNat % 16) :: hexText bs

private theorem hexDigit_injective :
    ∀ m < 16, ∀ n < 16, hexDigit m = hexDigit n → m = n := by
  decide

private theorem hexDigit_isUuidChar : ∀ n < 16, IsUuidChar (hexDigit n) ∧ hexDigit n ≠ 45 := by
  decide

theorem hexText_append (as bs : List UInt8) : hexText (as ++ bs) = hexText as ++ hexText bs := by
  induction as with
  | nil => rfl
  | cons a as ih => simp [hexText, ih]

theorem length_hexText (bs : List UInt8) : (hexText bs).length = 2 * bs.length := by
  induction bs with
  | nil => rfl
  | cons b bs ih =>
      simp only [hexText, List.length_cons, ih]
      omega

theorem hexText_injective : Function.Injective hexText := by
  intro as
  induction as with
  | nil =>
      intro bs h
      cases bs with
      | nil => rfl
      | cons b bs => simp [hexText] at h
  | cons a as ih =>
      intro bs h
      cases bs with
      | nil => simp [hexText] at h
      | cons b bs =>
          simp only [hexText, List.cons.injEq] at h
          rcases h with ⟨hhigh, hlow, hrest⟩
          have ha := a.toNat_lt
          have hb := b.toNat_lt
          have hdiv := hexDigit_injective _ (by omega) _ (by omega) hhigh
          have hmod := hexDigit_injective _ (by omega) _ (by omega) hlow
          rw [ih hrest, UInt8.toNat_inj.1 (show a.toNat = b.toNat by omega)]

theorem hexText_chars {bs : List UInt8} {c : UInt8} (hc : c ∈ hexText bs) :
    IsUuidChar c ∧ c ≠ 45 := by
  induction bs with
  | nil => simp [hexText] at hc
  | cons b bs ih =>
      have hb := b.toNat_lt
      simp only [hexText, List.mem_cons] at hc
      rcases hc with rfl | rfl | hc
      · exact hexDigit_isUuidChar _ (by omega)
      · exact hexDigit_isUuidChar _ (by omega)
      · exact ih hc

/-! ## A concrete library -/

/-- The dashed text {lit}`xxxxxxxx-xxxx-xxxx-xxxx-xxxxxxxxxxxx`. -/
def dashedText (bs : List UInt8) : List UInt8 :=
  hexText (bs.take 4) ++ 45 :: (hexText ((bs.drop 4).take 2) ++ 45 ::
    (hexText ((bs.drop 6).take 2) ++ 45 :: (hexText ((bs.drop 8).take 2) ++ 45 ::
      hexText (bs.drop 10))))

/-- Dropping the dashes gives back the plain hexadecimal text. -/
theorem filter_dashedText (bs : List UInt8) :
    (dashedText bs).filter (· != 45) = hexText bs := by
  have hkeep : ∀ cs, (hexText cs).filter (· != 45) = hexText cs := by
    intro cs
    rw [List.filter_eq_self]
    intro c hc
    simpa using (hexText_chars hc).2
  have hsplit : bs = bs.take 4 ++ ((bs.drop 4).take 2 ++ ((bs.drop 6).take 2 ++
      ((bs.drop 8).take 2 ++ bs.drop 10))) := by
    rw [show bs.drop 10 = (bs.drop 8).drop 2 by simp, List.take_append_drop,
      show bs.drop 8 = (bs.drop 6).drop 2 by simp, List.take_append_drop,
      show bs.drop 6 = (bs.drop 4).drop 2 by simp, List.take_append_drop,
      List.take_append_drop]
  conv_rhs => rw [hsplit]
  simp only [dashedText, List.filter_append, List.filter_cons, bne_self_eq_false,
    Bool.false_eq_true, if_false, hkeep, hexText_append]

theorem dashedText_chars {bs : List UInt8} {c : UInt8} (hc : c ∈ dashedText bs) :
    IsUuidChar c := by
  have hdash : IsUuidChar 45 := by decide
  simp only [dashedText, List.mem_append, List.mem_cons] at hc
  rcases hc with hc | rfl | hc | rfl | hc | rfl | hc | rfl | hc
  all_goals first
    | exact hdash
    | exact (hexText_chars hc).1

/-- The dashed text of a uuid as a C string. -/
def uuidText (u : Uuid) : CString where
  bytes := dashedText u.bytes
  nul_free := fun h => absurd (dashedText_chars h) (by decide)

/-- A version-1 uuid whose time field is the number of the call. -/
def timeUuid (k : Nat) : Uuid where
  bytes := [UInt8.ofNat (k / 2 ^ 24), UInt8.ofNat (k / 2 ^ 16), UInt8.ofNat (k / 2 ^ 8),
    UInt8.ofNat k, 0, 0, 0x10, 0, 0x80, 0, 2, 0, 0, 0, 0, 1]
  length_eq := rfl

/-- A library that generates version-1 uuids and prints them in lower case. -/
def timeLibuuid : Libuuid where
  generateTimeSafe := timeUuid
  unparse u :=
    { bytes := dashedText u.bytes ++ [0]
      length_eq := by
        have hlen := u.length_eq
        simp only [dashedText, List.length_append, List.length_cons, List.length_nil,
          length_hexText, List.length_take, List.length_drop]
        omega }

theorem timeLibuuid_conforms : timeLibuuid.Conforms where
  unparse_injective := by
    intro u v huv
    have htext : dashedText u.bytes = dashedText v.bytes :=
      List.append_cancel_right (congrArg Buffer.bytes huv)
    have hhex : hexText u.bytes = hexText v.bytes := by
      rw [← filter_dashedText, ← filter_dashedText, htext]
    cases u
    cases v
    simpa using hexText_injective hhex
  unparse_text u := ⟨dashedText u.bytes, fun _ hc => dashedText_chars hc, rfl⟩

theorem timeLibuuid_freshUpTo : timeLibuuid.FreshUpTo (2 ^ 32) := by
  intro j hj k hk hjk
  simp only [Set.mem_Iio] at hj hk
  have hbytes := congrArg Buffer.bytes hjk
  simp only [timeLibuuid, timeUuid, List.cons.injEq, ← UInt8.toNat_inj, UInt8.toNat_ofNat'] at hbytes
  omega

end Identifier
end Clacks
