import Clacks.Foundation.Memory

/-!
# The tag table

Model of {lit}`id_tag_manager.c`: a hash table of {lit}`struct tagged_id`, keyed by
the C string found at the entry's {lit}`derrived_id` field.  The field is 128 bytes
long and is followed in memory by {lit}`cl_id` and the hash handle, so a key that
fills it runs on into them.

Main results:

- Theorem {lit}`tagId_of_tagged` and {lit}`tagId_of_not_tagged`: the two outcomes
  of one tagging call.
- Theorem {lit}`addsExactly_tagId_iff`: when a call adds exactly the entry it was
  made for.
-/

namespace Clacks
namespace Identifier

open Foundation

/-- {lit}`struct tagged_id`.  {lit}`behind` is what follows {lit}`cl_id` in memory:
padding and the hash handle. -/
structure TaggedId where
  derrivedId : Buffer 128
  clId : Buffer 37
  behind : List UInt8
deriving DecidableEq

/-- The key {lit}`HASH_ADD_STR` registers: {lit}`strlen` bytes from the start of
the {lit}`derrived_id` field. -/
def TaggedId.key (t : TaggedId) : List UInt8 :=
  cstr (t.derrivedId.bytes ++ (t.clId.bytes ++ t.behind))

/-- The string found at the {lit}`cl_id` field. -/
def TaggedId.clIdString (t : TaggedId) : List UInt8 :=
  cstr (t.clId.bytes ++ t.behind)

/-- {lit}`all_tagged_ids`, in the order of insertion. -/
abbrev TagTable := List TaggedId

/-- {lit}`HASH_FIND_STR`: the entry whose key is the string at {lit}`findstr`. -/
def hashFindStr (table : TagTable) (findstr : List UInt8) : Option TaggedId :=
  table.find? fun t => decide (t.key = cstr findstr)

/-- {lit}`tag_id`.  The arguments are the memory at the two pointers, and
{lit}`behind` is what the allocated struct holds behind its {lit}`cl_id` field; both
string fields are written whole by {lit}`strncpy`. -/
def tagId (table : TagTable) (clId derrivedId behind : List UInt8) : Int × TagTable :=
  match hashFindStr table derrivedId with
  | none => (0, table ++ [⟨strncpy derrivedId 128, strncpy clId 37, behind⟩])
  | some _ => (-1, table)

/-- Some entry has the key {lit}`d`. -/
def TagTable.Tagged (table : TagTable) (d : List UInt8) : Prop :=
  ∃ t ∈ table, t.key = d

instance (table : TagTable) (d : List UInt8) : Decidable (table.Tagged d) :=
  inferInstanceAs (Decidable (∃ t ∈ table, t.key = d))

theorem hashFindStr_eq_none_iff (table : TagTable) (findstr : List UInt8) :
    hashFindStr table findstr = none ↔ ¬table.Tagged (cstr findstr) := by
  simp [hashFindStr, TagTable.Tagged]

theorem tagId_of_tagged {table : TagTable} {derrivedId : List UInt8}
    (h : table.Tagged (cstr derrivedId)) (clId behind : List UInt8) :
    tagId table clId derrivedId behind = (-1, table) := by
  cases hfind : hashFindStr table derrivedId with
  | none => exact absurd h ((hashFindStr_eq_none_iff table derrivedId).1 hfind)
  | some t => simp [tagId, hfind]

theorem tagId_of_not_tagged {table : TagTable} {derrivedId : List UInt8}
    (h : ¬table.Tagged (cstr derrivedId)) (clId behind : List UInt8) :
    tagId table clId derrivedId behind =
      (0, table ++ [⟨strncpy derrivedId 128, strncpy clId 37, behind⟩]) := by
  simp [tagId, (hashFindStr_eq_none_iff table derrivedId).2 h]

/-- A call leaves the table as it was exactly when the key was there already. -/
theorem tagId_snd_eq_iff (table : TagTable) (clId derrivedId behind : List UInt8) :
    (tagId table clId derrivedId behind).2 = table ↔ table.Tagged (cstr derrivedId) := by
  by_cases h : table.Tagged (cstr derrivedId)
  · simp [tagId_of_tagged h, h]
  · simp [tagId_of_not_tagged h, h]

/-- The key of a freshly written entry when the derived id fits its field. -/
theorem TaggedId.key_of_fits {derrivedId : List UInt8} (hfit : (cstr derrivedId).length < 128)
    (clId : Buffer 37) (behind : List UInt8) :
    (TaggedId.mk (strncpy derrivedId 128) clId behind).key = cstr derrivedId :=
  cstr_strncpy_append hfit _

/-- A derived id that fills its field gives a key at least as long as the field. -/
theorem TaggedId.length_key_of_full {derrivedId : List UInt8}
    (hfull : 128 ≤ (cstr derrivedId).length) (clId : Buffer 37) (behind : List UInt8) :
    128 ≤ (TaggedId.mk (strncpy derrivedId 128) clId behind).key.length := by
  rw [key, cstr_strncpy_append_of_le hfull, List.length_append, List.length_take]
  omega

/-- The table {lit}`new` is {lit}`old` with one entry for {lit}`d` standing for
{lit}`c`, or {lit}`old` itself when {lit}`d` was tagged before. -/
def TagTable.AddsExactly (old : TagTable) (d c : List UInt8) (new : TagTable) : Prop :=
  if old.Tagged d then new = old
  else ∃ t : TaggedId, new = old ++ [t] ∧ t.key = d ∧ t.clIdString = c

/-- The key of a new entry is the wanted one exactly when the string it was built
from is, provided the wanted one fits the field. -/
theorem TaggedId.key_eq_iff {derrivedId d : List UInt8} (hd : d.length < 128)
    (clId : Buffer 37) (behind : List UInt8) :
    (TaggedId.mk (strncpy derrivedId 128) clId behind).key = d ↔ cstr derrivedId = d := by
  by_cases hfit : (cstr derrivedId).length < 128
  · rw [key_of_fits hfit]
  · have hkey := length_key_of_full (Nat.le_of_not_lt hfit) clId behind
    constructor
    · rintro rfl
      omega
    · rintro rfl
      omega

/-- A call made for {lit}`d` with the memory {lit}`derrivedId` does what the table is
for exactly when that memory holds {lit}`d`, or when both strings were tagged
before, so that there was nothing to add. -/
theorem addsExactly_tagId_iff (table : TagTable) {clId derrivedId d : List UInt8}
    (hd : d.length < 128) (hc : (cstr clId).length < 37) (behind : List UInt8) :
    table.AddsExactly d (cstr clId) (tagId table clId derrivedId behind).2 ↔
      cstr derrivedId = d ∨ table.Tagged d ∧ table.Tagged (cstr derrivedId) := by
  unfold TagTable.AddsExactly
  by_cases hold : table.Tagged (cstr derrivedId)
  · rw [tagId_of_tagged hold]
    by_cases hnew : table.Tagged d
    · simp [hold, hnew]
    · have hne : cstr derrivedId ≠ d := fun h => hnew (h ▸ hold)
      simp [hnew, hne]
  · rw [tagId_of_not_tagged hold]
    by_cases hnew : table.Tagged d
    · have hne : cstr derrivedId ≠ d := fun h => hold (h ▸ hnew)
      simp [hold, hnew, hne]
    · rw [if_neg hnew]
      simp only [hnew, false_and, or_false]
      constructor
      · rintro ⟨t, happend, hkey, _⟩
        have ht := (List.append_cancel_left happend)
        rw [← List.singleton_inj.1 ht] at hkey
        exact (TaggedId.key_eq_iff hd _ _).1 hkey
      · intro h
        exact ⟨_, rfl, (TaggedId.key_eq_iff hd _ _).2 h, cstr_strncpy_append hc _⟩

end Identifier
end Clacks
