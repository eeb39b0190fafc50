import Mathlib.Data.List.Basic
import Mathlib.Data.List.Infix
import Mathlib.Algebra.Ring.Nat

/-!
# The tag-and-value wire format

A message is a list of numbered fields.  A field is written as a tag, which joins
its number and the kind of its value, and the value: a variable-length integer, or a
length followed by that many bytes.  Variable-length integers carry seven bits in
each byte, lowest first, with the top bit set on all but the last.

Main results:

- Theorem {lit}`cutOff_encodeFields`: a message with bytes missing at its end is a
  list of complete fields, possibly followed by a field that is cut off.
- Theorem {lit}`scanFields_encodeFields`: scanning undoes encoding.
- Theorem {lit}`scanFields_cutOff`: scanning rejects a message whose last field is
  cut off.
-/

namespace Clacks
namespace Foundation

/-! ## Cut-off data -/

/-- {lit}`part` is {lit}`whole` with at least one byte missing at the end. -/
def CutOff (part whole : List UInt8) : Prop :=
  part <+: whole ∧ part ≠ whole

theorem cutOff_nil {part : List UInt8} : ¬CutOff part [] := by
  rintro ⟨hfront, hproper⟩
  exact hproper (List.prefix_nil.1 hfront)

theorem cutOff_cons {part whole : List UInt8} {b : UInt8} (h : CutOff part (b :: whole)) :
    part = [] ∨ ∃ part', part = b :: part' ∧ CutOff part' whole := by
  rcases h with ⟨hfront, hproper⟩
  cases part with
  | nil => exact .inl rfl
  | cons b' part =>
      rw [List.cons_prefix_cons] at hfront
      rcases hfront with ⟨rfl, hfront⟩
      exact .inr ⟨part, rfl, hfront, fun h => hproper (by rw [h])⟩

/-- A cut falls into the first of two pieces or into the second. -/
theorem cutOff_append {part first second : List UInt8} (h : CutOff part (first ++ second)) :
    CutOff part first ∨ ∃ part', part = first ++ part' ∧ CutOff part' second := by
  rcases h with ⟨hfront, hproper⟩
  rcases Nat.lt_or_ge part.length first.length with hlt | hge
  · refine .inl ⟨?_, fun h => by simp [h] at hlt⟩
    exact List.prefix_of_prefix_length_le hfront (List.prefix_append _ _) (Nat.le_of_lt hlt)
  · rcases List.prefix_of_prefix_length_le (List.prefix_append first second) hfront hge with
      ⟨part', rfl⟩
    rw [List.prefix_append_right_inj] at hfront
    exact .inr ⟨part', rfl, hfront, fun h => hproper (by rw [h])⟩

/-- Receiving too few bytes cuts the data off. -/
theorem cutOff_take {whole : List UInt8} {n : Nat} (h : n < whole.length) :
    CutOff (whole.take n) whole := by
  refine ⟨List.take_prefix n whole, fun heq => ?_⟩
  have hlength := congrArg List.length heq
  rw [List.length_take] at hlength
  omega

/-! ## Variable-length integers -/

/-- Seven bits in each byte, lowest first. -/
def encodeVarint (n : Nat) : List UInt8 :=
  if n < 128 then [UInt8.ofNat n]
  else UInt8.ofNat (n % 128 + 128) :: encodeVarint (n / 128)

/-- The integer at the front of a buffer and the bytes behind it. -/
def decodeVarint : List UInt8 → Option (Nat × List UInt8)
  | [] => none
  | b :: rest =>
      if b.toNat < 128 then some (b.toNat, rest)
      else (decodeVarint rest).map fun x => (b.toNat - 128 + 128 * x.1, x.2)

theorem encodeVarint_of_lt {n : Nat} (h : n < 128) : encodeVarint n = [UInt8.ofNat n] := by
  rw [encodeVarint, if_pos h]

theorem encodeVarint_of_le {n : Nat} (h : 128 ≤ n) :
    encodeVarint n = UInt8.ofNat (n % 128 + 128) :: encodeVarint (n / 128) := by
  rw [encodeVarint, if_neg (Nat.not_lt.2 h)]

theorem length_encodeVarint_pos (n : Nat) : 0 < (encodeVarint n).length := by
  rw [encodeVarint]
  split <;> simp

/-- An integer of at most {lit}`7 * k` bits has at most {lit}`k` bytes. -/
theorem length_encodeVarint_le {n k : Nat} (hk : 0 < k) (h : n < 128 ^ k) :
    (encodeVarint n).length ≤ k := by
  induction k generalizing n with
  | zero => exact absurd hk (Nat.lt_irrefl 0)
  | succ k ih =>
      rcases Nat.lt_or_ge n 128 with hlt | hge
      · rw [encodeVarint_of_lt hlt]
        simp
      · rw [encodeVarint_of_le hge, List.length_cons]
        have hpos : 0 < k := by
          rcases Nat.eq_zero_or_pos k with rfl | hpos
          · simp at h
            omega
          · exact hpos
        have hshort := ih hpos (n := n / 128) (by
          rw [Nat.div_lt_iff_lt_mul (by decide)]
          rwa [Nat.pow_succ] at h)
        omega

theorem decodeVarint_encodeVarint (n : Nat) (rest : List UInt8) :
    decodeVarint (encodeVarint n ++ rest) = some (n, rest) := by
  induction n using encodeVarint.induct with
  | case1 n hlt =>
      have hbyte : n % 256 = n := Nat.mod_eq_of_lt (by omega)
      simp [encodeVarint_of_lt hlt, decodeVarint, hbyte, hlt]
  | case2 n hle ih =>
      have hbyte : (n % 128 + 128) % 256 = n % 128 + 128 := Nat.mod_eq_of_lt (by omega)
      have hmore : ¬n % 128 + 128 < 128 := by omega
      rw [encodeVarint_of_le (Nat.not_lt.1 hle), List.cons_append, decodeVarint, ih]
      simp only [UInt8.toNat_ofNat', Nat.reducePow, hbyte, hmore, if_false, Option.map_some,
        Nat.add_sub_cancel, Nat.mod_add_div]

/-- A variable-length integer that is cut off cannot be read. -/
theorem decodeVarint_cutOff {n : Nat} {part : List UInt8} (h : CutOff part (encodeVarint n)) :
    decodeVarint part = none := by
  induction n using encodeVarint.induct generalizing part with
  | case1 n hlt =>
      rw [encodeVarint_of_lt hlt] at h
      rcases cutOff_cons h with rfl | ⟨part', _, hcut⟩
      · rfl
      · exact absurd hcut cutOff_nil
  | case2 n hle ih =>
      rw [encodeVarint_of_le (Nat.not_lt.1 hle)] at h
      rcases cutOff_cons h with rfl | ⟨part', rfl, hcut⟩
      · rfl
      · have hbyte : (n % 128 + 128) % 256 = n % 128 + 128 := Nat.mod_eq_of_lt (by omega)
        have hmore : ¬n % 128 + 128 < 128 := by omega
        simp only [decodeVarint, UInt8.toNat_ofNat', Nat.reducePow, hbyte, hmore, if_false,
          ih hcut, Option.map_none]

/-! ## Fields -/

/-- The values a field can have. -/
inductive FieldValue where
  | varint (n : Nat)
  | bytes (b : List UInt8)
deriving DecidableEq

/-- The number of a kind of value. -/
def FieldValue.kind : FieldValue → Nat
  | varint _ => 0
  | bytes _ => 2

/-- A numbered value. -/
structure Field where
  number : Nat
  value : FieldValue
deriving DecidableEq

/-- What follows the tag. -/
def encodeValue : FieldValue → List UInt8
  | .varint n => encodeVarint n
  | .bytes b => encodeVarint b.length ++ b

/-- A field: the tag has the kind of the value in its three low bits. -/
def encodeField (f : Field) : List UInt8 :=
  encodeVarint (8 * f.number + f.value.kind) ++ encodeValue f.value

/-- The tag of a field with a small number is one byte. -/
theorem length_encodeField_le {f : Field} (hnumber : f.number < 15) :
    (encodeField f).length ≤ 1 + (encodeValue f.value).length := by
  have hkind : f.value.kind ≤ 2 := by
    cases f.value <;> simp [FieldValue.kind]
  have htag : (encodeVarint (8 * f.number + f.value.kind)).length ≤ 1 :=
    length_encodeVarint_le (by decide) (by omega)
  rw [encodeField, List.length_append]
  omega

/-- A message: its fields one after another. -/
def encodeFields (fs : List Field) : List UInt8 :=
  fs.flatMap encodeField

theorem encodeFields_cons (f : Field) (fs : List Field) :
    encodeFields (f :: fs) = encodeField f ++ encodeFields fs :=
  List.flatMap_cons

/-- Whatever is missing at the end of a message, what is left are complete fields,
possibly followed by the beginning of the next field. -/
theorem cutOff_encodeFields {part : List UInt8} {fs : List Field}
    (h : CutOff part (encodeFields fs)) : ∃ before f after part',
      fs = before ++ f :: after ∧ part = encodeFields before ++ part' ∧
        CutOff part' (encodeField f) := by
  induction fs generalizing part with
  | nil => exact absurd h cutOff_nil
  | cons f fs ih =>
      rw [encodeFields_cons] at h
      rcases cutOff_append h with hcut | ⟨part', rfl, hcut⟩
      · exact ⟨[], f, fs, part, rfl, rfl, hcut⟩
      · rcases ih hcut with ⟨before, g, after, part'', rfl, rfl, hcut'⟩
        refine ⟨f :: before, g, after, part'', rfl, ?_, hcut'⟩
        rw [encodeFields_cons, List.append_assoc]

/-! ## Reading fields back -/

/-- The value of a given kind at the front of a buffer and the bytes behind it. -/
def decodeValue (kind : Nat) (buffer : List UInt8) : Option (FieldValue × List UInt8) :=
  match decodeVarint buffer with
  | none => none
  | some (n, rest) =>
      if kind = 0 then some (.varint n, rest)
      else if kind = 2 ∧ n ≤ rest.length then some (.bytes (rest.take n), rest.drop n)
      else none

/-- The field at the front of a buffer and the bytes behind it. -/
def decodeField (buffer : List UInt8) : Option (Field × List UInt8) :=
  match decodeVarint buffer with
  | none => none
  | some (tag, rest) =>
      (decodeValue (tag % 8) rest).map fun x => ({ number := tag / 8, value := x.1 }, x.2)

/-- The fields of a buffer that consists of complete fields.  Every field takes at
least one byte, so the length of the buffer is enough {lit}`fuel`. -/
def scanFieldsAux : Nat → List UInt8 → Option (List Field)
  | _, [] => some []
  | 0, _ :: _ => none
  | fuel + 1, b :: buffer =>
      match decodeField (b :: buffer) with
      | none => none
      | some (f, rest) => (scanFieldsAux fuel rest).map fun fs => f :: fs

/-- The fields of a buffer, {lit}`none` when it does not consist of complete fields. -/
def scanFields (buffer : List UInt8) : Option (List Field) :=
  scanFieldsAux buffer.length buffer

theorem decodeValue_encodeValue (v : FieldValue) (rest : List UInt8) :
    decodeValue v.kind (encodeValue v ++ rest) = some (v, rest) := by
  cases v with
  | varint n => simp [decodeValue, encodeValue, FieldValue.kind, decodeVarint_encodeVarint]
  | bytes b =>
      simp [decodeValue, encodeValue, FieldValue.kind, List.append_assoc,
        decodeVarint_encodeVarint]

theorem decodeValue_cutOff {v : FieldValue} {part : List UInt8}
    (h : CutOff part (encodeValue v)) : decodeValue v.kind part = none := by
  cases v with
  | varint n => simp [decodeValue, decodeVarint_cutOff h]
  | bytes b =>
      rcases cutOff_append h with hcut | ⟨part', rfl, hcut⟩
      · simp [decodeValue, decodeVarint_cutOff hcut]
      · -- The length arrived, but not all the bytes it announces.
        have hshort : part'.length < b.length := by
          rcases Nat.lt_or_ge part'.length b.length with hlt | hge
          · exact hlt
          · exact absurd (hcut.1.eq_of_length_le hge) hcut.2
        simp [decodeValue, FieldValue.kind, decodeVarint_encodeVarint, Nat.not_le.2 hshort]

theorem FieldValue.kind_lt (v : FieldValue) : v.kind < 8 := by
  cases v <;> simp [kind]

theorem decodeField_encodeField (f : Field) (rest : List UInt8) :
    decodeField (encodeField f ++ rest) = some (f, rest) := by
  have hkind := f.value.kind_lt
  have hmod : (8 * f.number + f.value.kind) % 8 = f.value.kind := by omega
  have hdiv : (8 * f.number + f.value.kind) / 8 = f.number := by omega
  simp only [decodeField, encodeField, List.append_assoc, decodeVarint_encodeVarint, hmod, hdiv,
    decodeValue_encodeValue, Option.map_some]

theorem decodeField_cutOff {f : Field} {part : List UInt8} (h : CutOff part (encodeField f)) :
    decodeField part = none := by
  have hkind := f.value.kind_lt
  have hmod : (8 * f.number + f.value.kind) % 8 = f.value.kind := by omega
  rcases cutOff_append h with hcut | ⟨part', rfl, hcut⟩
  · simp only [decodeField, decodeVarint_cutOff hcut]
  · simp only [decodeField, decodeVarint_encodeVarint, hmod, decodeValue_cutOff hcut,
      Option.map_none]

theorem encodeField_ne_nil (f : Field) : encodeField f ≠ [] := by
  intro h
  have hdecode := decodeField_encodeField f []
  simp [h, decodeField, decodeVarint] at hdecode

/-- Fields in front of a buffer are read one after another. -/
theorem scanFieldsAux_encodeFields (fs : List Field) (rest : List UInt8) {fuel : Nat}
    (hfuel : fs.length ≤ fuel) :
    scanFieldsAux fuel (encodeFields fs ++ rest) =
      (scanFieldsAux (fuel - fs.length) rest).map fun gs => fs ++ gs := by
  induction fs generalizing fuel with
  | nil => simp [encodeFields]
  | cons f fs ih =>
      cases fuel with
      | zero => simp at hfuel
      | succ fuel =>
          rw [encodeFields_cons, List.append_assoc]
          have hfield := decodeField_encodeField f (encodeFields fs ++ rest)
          cases hbytes : encodeField f ++ (encodeFields fs ++ rest) with
          | nil => simp [encodeField_ne_nil] at hbytes
          | cons b buffer =>
              rw [hbytes] at hfield
              simp only [List.length_cons, Nat.add_le_add_iff_right] at hfuel
              simp only [scanFieldsAux, hfield, ih hfuel, Option.map_map, List.length_cons,
                Nat.add_sub_add_right]
              rfl

theorem length_le_length_encodeFields (fs : List Field) :
    fs.length ≤ (encodeFields fs).length := by
  induction fs with
  | nil => simp
  | cons f fs ih =>
      have hpos := List.length_pos_of_ne_nil (encodeField_ne_nil f)
      rw [encodeFields_cons, List.length_append, List.length_cons]
      omega

/-- Scanning undoes encoding. -/
theorem scanFields_encodeFields (fs : List Field) : scanFields (encodeFields fs) = some fs := by
  have hscan := scanFieldsAux_encodeFields fs [] (length_le_length_encodeFields fs)
  simpa [scanFields, scanFieldsAux] using hscan

/-- A message whose last field is cut off is rejected. -/
theorem scanFields_cutOff (fs : List Field) {f : Field} {part : List UInt8}
    (hcut : CutOff part (encodeField f)) (hpart : part ≠ []) :
    scanFields (encodeFields fs ++ part) = none := by
  have hle : fs.length ≤ (encodeFields fs ++ part).length := by
    have h := length_le_length_encodeFields fs
    rw [List.length_append]
    omega
  rw [scanFields, scanFieldsAux_encodeFields fs part hle]
  cases part with
  | nil => exact absurd rfl hpart
  | cons b part =>
      cases (encodeFields fs ++ b :: part).length - fs.length with
      | zero => rfl
      | succ fuel => simp [scanFieldsAux, decodeField_cutOff hcut]

end Foundation
end Clacks
