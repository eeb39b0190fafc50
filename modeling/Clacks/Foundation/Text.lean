import Clacks.Foundation.Memory

/-!
# Decimal numbers, separators and lines

Numbers as the {lit}`printf` family prints them, fields that end at a doubled
separator, and newline-terminated lines, each with the function that reads it back.

Main results:

- Theorem {lit}`parseInteger_integer`: reading a printed number gives it back.
- Theorem {lit}`splitPair_append`: a field without the separator ends at the first
  doubled separator behind it.
- Theorem {lit}`field_read_iff`: which fields are mistaken for a given one.
- Theorem {lit}`splitLines_flatMap`: the lines of a file that was written entry by
  entry.
-/

namespace Clacks
namespace Foundation

/-! ## Decimal numbers -/

/-- {lit}`%lu`: the decimal digits of a natural number. -/
def decimal (n : Nat) : List UInt8 :=
  (Nat.toDigits 10 n).map fun c => UInt8.ofNat c.toNat

/-- {lit}`%lld`: a sign in front of the digits of a negative number. -/
def integer : Int → List UInt8
  | .ofNat n => decimal n
  | .negSucc n => 45 :: decimal (n + 1)

/-- The number a string of digits stands for. -/
def parseDecimal (digits : List UInt8) : Nat :=
  digits.foldl (fun value b => 10 * value + (b.toNat - 48)) 0

/-- The number a string of digits with an optional sign stands for. -/
def parseInteger : List UInt8 → Int
  | [] => 0
  | b :: digits =>
      if b = 45 then -(parseDecimal digits : Int) else (parseDecimal (b :: digits) : Int)

/-- The bytes of printed numbers. -/
def IsDigit (b : UInt8) : Prop :=
  48 ≤ b.toNat ∧ b.toNat ≤ 57

theorem isDigit_ofNat_toNat {c : Char} (h : c.isDigit = true) :
    (UInt8.ofNat c.toNat).toNat = c.toNat ∧ 48 ≤ c.toNat ∧ c.toNat ≤ 57 := by
  simp only [Char.isDigit, Bool.and_eq_true, decide_eq_true_eq, UInt32.le_iff_toNat_le] at h
  have hlow : 48 ≤ c.toNat := h.1
  have hhigh : c.toNat ≤ 57 := h.2
  refine ⟨?_, hlow, hhigh⟩
  rw [UInt8.toNat_ofNat', Nat.mod_eq_of_lt (by omega)]

theorem isDigit_of_mem_decimal {n : Nat} {b : UInt8} (h : b ∈ decimal n) : IsDigit b := by
  rcases List.mem_map.1 h with ⟨c, hc, rfl⟩
  have hdigit := isDigit_ofNat_toNat (Nat.isDigit_of_mem_toDigits (by decide) (by decide) hc)
  rw [IsDigit, hdigit.1]
  exact hdigit.2

theorem parseDecimal_decimal (n : Nat) : parseDecimal (decimal n) = n := by
  -- Both readers do the same with each digit.
  have hfold : ∀ (cs : List Char) (value : Nat), (∀ c ∈ cs, c.isDigit = true) →
      (cs.map fun c => UInt8.ofNat c.toNat).foldl
        (fun value b => 10 * value + (b.toNat - 48)) value = Nat.ofDigitChars 10 cs value := by
    intro cs
    induction cs with
    | nil => simp
    | cons c cs ih =>
        intro value hcs
        rw [List.forall_mem_cons] at hcs
        rw [List.map_cons, List.foldl_cons, (isDigit_ofNat_toNat hcs.1).1, ih _ hcs.2,
          Nat.ofDigitChars_cons]
        rfl
  rw [parseDecimal, decimal, hfold _ _ fun c hc =>
    Nat.isDigit_of_mem_toDigits (by decide) (by decide) hc]
  exact Nat.ofDigitChars_ten_toDigits

theorem decimal_ne_nil (n : Nat) : decimal n ≠ [] := by
  simp [decimal, Nat.toDigits_ne_nil]

/-- A printed number consists of digits, possibly behind a sign. -/
theorem isDigit_of_mem_integer {z : Int} {b : UInt8} (h : b ∈ integer z) :
    IsDigit b ∨ b = 45 := by
  cases z with
  | ofNat n => exact .inl (isDigit_of_mem_decimal h)
  | negSucc n =>
      rcases List.mem_cons.1 h with rfl | h
      · exact .inr rfl
      · exact .inl (isDigit_of_mem_decimal h)

theorem parseInteger_integer (z : Int) : parseInteger (integer z) = z := by
  cases z with
  | ofNat n =>
      cases hdigits : decimal n with
      | nil => exact absurd hdigits (decimal_ne_nil n)
      | cons b digits =>
          have hdigit := isDigit_of_mem_decimal (hdigits ▸ List.mem_cons_self : b ∈ decimal n)
          have hsign : b ≠ 45 := by
            rintro rfl
            exact absurd hdigit.1 (by decide)
          rw [integer, hdigits, parseInteger, if_neg hsign, ← hdigits, parseDecimal_decimal]
          rfl
  | negSucc n =>
      rw [integer, parseInteger, if_pos rfl, parseDecimal_decimal]
      rfl

/-! ## Separators and lines -/

/-- The bytes before the first doubled separator and the bytes behind it. -/
def splitPair (sep : UInt8) : List UInt8 → Option (List UInt8 × List UInt8)
  | a :: b :: rest =>
      if a = sep ∧ b = sep then some ([], rest)
      else (splitPair sep (b :: rest)).map fun x => (a :: x.1, x.2)
  | _ => none

/-- A field without the separator ends at the first doubled separator behind it. -/
theorem splitPair_append {sep : UInt8} {field : List UInt8} (h : sep ∉ field)
    (rest : List UInt8) : splitPair sep (field ++ sep :: sep :: rest) = some (field, rest) := by
  induction field with
  | nil => simp [splitPair]
  | cons a field ih =>
      rw [List.mem_cons, not_or] at h
      have ha : a ≠ sep := Ne.symm h.1
      cases field with
      | nil => simp [splitPair, ha]
      | cons b field =>
          have hrest := ih h.2
          simp only [List.cons_append] at hrest ⊢
          simp [splitPair, ha, hrest]

/-- A field that was split off is followed by a doubled separator. -/
theorem splitPair_sound {sep : UInt8} {text field rest : List UInt8}
    (h : splitPair sep text = some (field, rest)) : text = field ++ sep :: sep :: rest := by
  induction text generalizing field with
  | nil => simp [splitPair] at h
  | cons a text ih =>
      cases text with
      | nil => simp [splitPair] at h
      | cons b text =>
          rw [splitPair] at h
          split at h
          next hsep =>
            cases h
            rw [hsep.1, hsep.2]
            rfl
          next =>
            rcases Option.map_eq_some_iff.1 h with ⟨⟨field', rest'⟩, hsplit, heq⟩
            cases heq
            rw [ih hsplit]
            rfl

/-- When a doubled separator is printed behind {lit}`written`, a reader finds the field
{lit}`a` exactly in these cases. -/
theorem field_read_iff {sep : UInt8} {a : List UInt8} (ha : sep ∉ a)
    (written rest : List UInt8) :
    (∃ rest', written ++ sep :: sep :: rest = a ++ sep :: sep :: rest') ↔
      written = a ∨ written = a ++ [sep] ∨ a ++ [sep, sep] <+: written := by
  induction a generalizing written with
  | nil =>
      cases written with
      | nil => simp
      | cons x written =>
          cases written with
          | nil => simp
          | cons y written => simp [List.cons_prefix_cons, eq_comm]
  | cons c a ih =>
      rw [List.mem_cons, not_or] at ha
      cases written with
      | nil => simp [ha.1]
      | cons x written =>
          by_cases hx : x = c
          · subst hx
            simpa [List.cons_prefix_cons] using ih ha.2 written
          · simp [List.cons_prefix_cons, hx, Ne.symm hx]

/-- The newline-terminated lines of a file, without their terminators. -/
def splitLines (file : List UInt8) : List (List UInt8) :=
  (file.splitOn 10).dropLast

/-- What stands in front of a newline contributes its own lines and nothing else. -/
theorem splitLines_append (text file : List UInt8) :
    splitLines (text ++ 10 :: file) = text.splitOn 10 ++ splitLines file := by
  rw [splitLines, List.splitOn_append_cons_self,
    List.dropLast_append_of_ne_nil (List.splitOn_ne_nil _ _), splitLines]

/-- The lines of a file that was written entry by entry. -/
theorem splitLines_flatMap {α : Type} (text : α → List UInt8) (entries : List α) :
    splitLines (entries.flatMap fun x => text x ++ [10]) =
      entries.flatMap fun x => (text x).splitOn 10 := by
  induction entries with
  | nil => rfl
  | cons x entries ih =>
      rw [List.flatMap_cons, List.flatMap_cons, List.append_assoc, List.singleton_append,
        splitLines_append, ih]

end Foundation
end Clacks
