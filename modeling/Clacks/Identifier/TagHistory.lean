import Clacks.Foundation.FirstWins
import Clacks.Identifier.TagManager
import Mathlib.Data.Finset.Card

/-!
# Histories of tagging calls

The table after any sequence of {lit}`tag_id` calls.  While every string fits its field
the table holds a first-writer-wins map.  A derived id that fills its field is looked up
under its own bytes and stored under the first 128 of them followed by the id behind, so
whether a repetition is noticed depends on how the two agree.

Main results:

- Theorem {lit}`tagAll_holds`: the table holds the map of first writes.
- Theorem {lit}`first_writer_wins`: the entry of each derived id after every call.
- Theorem {lit}`tagged_tagAll_iff`: the keys in the table when all repetitions so far
  were noticed.
- Theorem {lit}`retagging_noticed_iff`: when all repetitions are noticed.
-/

namespace Clacks
namespace Identifier

open Foundation

/-- One {lit}`tag_id` call: the memory at its two arguments and the bytes that the
allocated struct holds behind its {lit}`cl_id` field. -/
structure TagCall where
  clId : List UInt8
  derrivedId : List UInt8
  behind : List UInt8

/-- The derived id of a call. -/
def TagCall.derived (call : TagCall) : List UInt8 :=
  cstr call.derrivedId

/-- What the call returns and the table it leaves. -/
def TagCall.run (call : TagCall) (table : TagTable) : Int × TagTable :=
  tagId table call.clId call.derrivedId call.behind

/-- The entry the call appends when it appends one. -/
def TagCall.entry (call : TagCall) : TaggedId :=
  ⟨strncpy call.derrivedId 128, strncpy call.clId 37, call.behind⟩

/-- The table after a sequence of calls of a fresh process. -/
def tagAll (calls : List TagCall) : TagTable :=
  calls.foldl (fun table call => (call.run table).2) []

/-- {lit}`call` is in the sequence and no call before it had its derived id. -/
def FirstCall (calls : List TagCall) (call : TagCall) : Prop :=
  ∃ before after, calls = before ++ call :: after ∧ ∀ e ∈ before, e.derived ≠ call.derived

@[simp]
theorem tagAll_append (calls : List TagCall) (call : TagCall) :
    tagAll (calls ++ [call]) = (call.run (tagAll calls)).2 := by
  simp [tagAll]

theorem TagCall.run_of_tagged {call : TagCall} {table : TagTable}
    (h : table.Tagged call.derived) : call.run table = (-1, table) :=
  tagId_of_tagged h _ _

theorem TagCall.run_of_not_tagged {call : TagCall} {table : TagTable}
    (h : ¬table.Tagged call.derived) : call.run table = (0, table ++ [call.entry]) :=
  tagId_of_not_tagged h _ _

/-- No call removes or changes an entry. -/
theorem tagAll_extends (calls later : List TagCall) : tagAll calls <+: tagAll (calls ++ later) := by
  induction later using List.reverseRecOn with
  | nil => simp
  | append_singleton later call ih =>
      rw [← List.append_assoc, tagAll_append]
      apply ih.trans
      by_cases h : (tagAll (calls ++ later)).Tagged call.derived
      · rw [TagCall.run_of_tagged h]
      · rw [TagCall.run_of_not_tagged h]
        exact List.prefix_append _ _

/-! ## Strings that fit -/

/-- Both strings fit their fields with their terminators. -/
structure TagCall.Fits (call : TagCall) : Prop where
  clId_le : (cstr call.clId).length ≤ 36
  derived_le : call.derived.length ≤ 127

/-- The contents of an entry's two fields. -/
def TaggedId.fields (t : TaggedId) : List UInt8 × List UInt8 :=
  (t.derrivedId.bytes, t.clId.bytes)

/-- The write to the abstract map that a call stands for. -/
def TagCall.write (call : TagCall) : List UInt8 × (List UInt8 × List UInt8) :=
  (call.derived, call.entry.fields)

theorem TagCall.Fits.entry_key {call : TagCall} (h : call.Fits) : call.entry.key = call.derived :=
  TaggedId.key_of_fits (Nat.lt_succ_of_le h.derived_le) _ _

/-- The fields hold the strings, padded with NUL bytes. -/
theorem TagCall.Fits.entry_fields {call : TagCall} (h : call.Fits) :
    call.entry.fields =
      (call.derived ++ List.replicate (128 - call.derived.length) 0,
        cstr call.clId ++ List.replicate (37 - (cstr call.clId).length) 0) := by
  have hd := h.derived_le
  have hc := h.clId_le
  unfold TagCall.derived at hd ⊢
  simp only [TaggedId.fields, TagCall.entry, strncpy]
  rw [List.take_of_length_le (by omega), List.take_of_length_le (by omega)]

/-- The table simulates the map: one call is one write. -/
theorem TagCall.Fits.holds_run {call : TagCall} (hfits : call.Fits) {table : TagTable}
    {m : List UInt8 → Option (List UInt8 × List UInt8)}
    (h : Holds TaggedId.key TaggedId.fields table m) :
    Holds TaggedId.key TaggedId.fields (call.run table).2
      (writeFirst m call.write.1 call.write.2) := by
  by_cases htagged : table.Tagged call.derived
  · rw [TagCall.run_of_tagged htagged]
    rcases Option.ne_none_iff_exists'.1 ((h.exists_key_iff _).1 htagged) with ⟨v, hv⟩
    have hsame : writeFirst m call.write.1 call.write.2 = m := writeFirst_of_some hv _
    rw [hsame]
    exact h
  · rw [TagCall.run_of_not_tagged htagged]
    have hnone : m call.entry.key = none := by
      rw [hfits.entry_key]
      by_contra hsome
      exact htagged ((h.exists_key_iff _).2 hsome)
    have happend := h.append hnone
    rw [hfits.entry_key] at happend
    exact happend

/-- The table after a sequence of calls holds the map after their writes. -/
theorem tagAll_holds {calls : List TagCall} (hfits : ∀ call ∈ calls, call.Fits) :
    Holds TaggedId.key TaggedId.fields (tagAll calls) (firstWrites (calls.map TagCall.write)) := by
  induction calls using List.reverseRecOn with
  | nil => exact holds_nil
  | append_singleton calls call ih =>
      rw [tagAll_append, List.map_append, List.map_singleton, firstWrites_append]
      apply TagCall.Fits.holds_run
      · exact hfits call (by simp)
      · exact ih fun e he => hfits e (by simp [he])

theorem find_write_eq_none {calls : List TagCall} {d : List UInt8}
    (h : ∀ call ∈ calls, call.derived ≠ d) :
    (calls.map TagCall.write).find? (·.1 = d) = none := by
  rw [List.find?_eq_none]
  intro w hw
  rcases List.mem_map.1 hw with ⟨call, hcall, rfl⟩
  intro hsame
  exact h call hcall (of_decide_eq_true hsame)

/-- A derived id that no call tagged has no value. -/
theorem firstWrites_of_no_call {calls : List TagCall} {d : List UInt8}
    (h : ∀ call ∈ calls, call.derived ≠ d) : firstWrites (calls.map TagCall.write) d = none := by
  rw [firstWrites_eq_find, find_write_eq_none h, Option.map_none]

/-- The value of a derived id is that of its first call. -/
theorem firstWrites_of_firstCall {calls : List TagCall} {call : TagCall}
    (h : FirstCall calls call) :
    firstWrites (calls.map TagCall.write) call.derived = some call.entry.fields := by
  rcases h with ⟨before, after, rfl, hnew⟩
  rw [firstWrites_eq_find, List.map_append, List.find?_append, find_write_eq_none hnew]
  simp [TagCall.write]

/-- A derived id that was tagged has a first call. -/
theorem exists_firstCall {calls : List TagCall} {d : List UInt8}
    (h : ∃ call ∈ calls, call.derived = d) : ∃ call, FirstCall calls call ∧ call.derived = d := by
  cases hfind : calls.find? (·.derived = d) with
  | none =>
      rcases h with ⟨call, hcall, hd⟩
      have hnone := List.find?_eq_none.1 hfind call hcall
      simp [hd] at hnone
  | some call =>
      rcases List.find?_eq_some_iff_append.1 hfind with ⟨hd, before, after, hsplit, hnew⟩
      have hderived : call.derived = d := by simpa using hd
      refine ⟨call, ⟨before, after, hsplit, ?_⟩, hderived⟩
      intro e he
      rw [hderived]
      simpa using hnew e he

/-- The tag table is a first-writer-wins map.  After the calls {lit}`calls` of any
sequence {lit}`calls ++ later` whose strings fit, a derived id that was tagged has
exactly one entry: it holds the derived id and the id of the first call, both padded
with NUL bytes, and it is the same after the rest of the sequence.  A derived id that
was not tagged has no entry. -/
theorem first_writer_wins (calls later : List TagCall)
    (hfits : ∀ call ∈ calls ++ later, call.Fits) (d : List UInt8) :
    ((∃ call ∈ calls, call.derived = d) →
      ∃ first t, FirstCall calls first ∧ first.derived = d ∧
        (tagAll calls).filter (·.key = d) = [t] ∧
        t.derrivedId.bytes = d ++ List.replicate (128 - d.length) 0 ∧
        t.clId.bytes =
          cstr first.clId ++ List.replicate (37 - (cstr first.clId).length) 0 ∧
        (tagAll (calls ++ later)).filter (·.key = d) = [t]) ∧
    ((∀ call ∈ calls, call.derived ≠ d) → ∀ t ∈ tagAll calls, t.key ≠ d) := by
  have hholds := tagAll_holds fun call hcall => hfits call (List.mem_append_left _ hcall)
  constructor
  · intro htagged
    rcases exists_firstCall htagged with ⟨first, hfirst, rfl⟩
    rcases hholds.exists_entry (firstWrites_of_firstCall hfirst) with ⟨t, ht, hfields⟩
    have hfirstFits : first.Fits := by
      rcases hfirst with ⟨before, after, rfl, _⟩
      exact hfits first (by simp)
    rw [hfirstFits.entry_fields] at hfields
    have hlater := (tagAll_holds hfits).filter_eq_of_extends (tagAll_extends calls later) ht
    exact ⟨first, t, hfirst, rfl, ht, congrArg Prod.fst hfields, congrArg Prod.snd hfields, hlater⟩
  · intro hnew t ht hkey
    have hsome := (hholds.exists_key_iff d).1 ⟨t, ht, hkey⟩
    exact hsome (firstWrites_of_no_call hnew)

/-- Two calls for one derived id: the entry stands for the first. -/
theorem first_writer_wins_two_calls :
    let calls := [TagCall.mk (ascii "A") (ascii "TEST") [], TagCall.mk (ascii "B") (ascii "TEST") []]
    ∃ t, (tagAll calls).filter (·.key = ascii "TEST") = [t] ∧
      t.clId.bytes = ascii "A" ++ List.replicate 36 0 := by
  intro calls
  have hfits : ∀ call ∈ calls ++ [], call.Fits := by
    intro call hcall
    simp only [calls, List.append_nil, List.mem_cons, List.not_mem_nil, or_false] at hcall
    rcases hcall with rfl | rfl
    · exact ⟨by decide, by decide⟩
    · exact ⟨by decide, by decide⟩
  rcases (first_writer_wins calls [] hfits (ascii "TEST")).1 ⟨_, List.mem_cons_self, rfl⟩ with
    ⟨first, t, ⟨before, after, hsplit, hnew⟩, hderived, ht, _, hclId, _⟩
  refine ⟨t, ht, ?_⟩
  cases before with
  | nil =>
      rw [List.nil_append] at hsplit
      rw [hclId, ← (List.cons.inj hsplit).1]
      rfl
  | cons e before =>
      have he := (List.cons.inj hsplit).1
      subst he
      exact absurd hderived.symm (hnew _ List.mem_cons_self)

/-! ## Strings of any length -/

/-- The key under which the entry of the call is found again. -/
def TagCall.storedKey (call : TagCall) : List UInt8 :=
  if call.derived.length < 128 then call.derived
  else call.derived.take 128 ++ cstr call.clId

theorem TagCall.entry_key {call : TagCall} (hc : (cstr call.clId).length ≤ 36) :
    call.entry.key = call.storedKey := by
  unfold storedKey
  split
  · rename_i hfit
    exact TaggedId.key_of_fits hfit _ _
  · rename_i hfull
    unfold TaggedId.key entry
    rw [cstr_strncpy_append_of_le (Nat.le_of_not_lt hfull),
      cstr_strncpy_append (Nat.lt_succ_of_le hc)]
    rfl

/-- Every call returns {lit}`-1` for a derived id that an earlier call had, and
{lit}`0` for any other. -/
def RepetitionsNoticed (calls : List TagCall) : Prop :=
  ∀ before call after, calls = before ++ call :: after →
    (call.run (tagAll before)).1 = if ∃ e ∈ before, e.derived = call.derived then -1 else 0

/-- At every call, an earlier call had its derived id exactly when some derived id was
stored under it. -/
def KeysAgree (calls : List TagCall) : Prop :=
  ∀ before call after, calls = before ++ call :: after →
    ((∃ e ∈ before, e.derived = call.derived) ↔
      ∃ first, FirstCall before first ∧ first.storedKey = call.derived)

/-- An element of a list with one more is the last one or stands before it. -/
private theorem append_singleton_split {α : Type*} {xs before after : List α} {x y : α}
    (h : xs ++ [x] = before ++ y :: after) :
    (before = xs ∧ y = x) ∨ ∃ after', xs = before ++ y :: after' := by
  rcases List.eq_nil_or_concat' after with rfl | ⟨after', z, rfl⟩
  · rcases List.append_singleton_inj.1 h with ⟨rfl, rfl⟩
    exact .inl ⟨rfl, rfl⟩
  · rw [← List.cons_append, ← List.append_assoc] at h
    exact .inr ⟨after', (List.append_singleton_inj.1 h).1⟩

/-- A property of every element and what precedes it, for a list with one more element. -/
private theorem forall_split_concat {α : Type*} (P : List α → α → Prop) (xs : List α) (x : α) :
    (∀ before y after, xs ++ [x] = before ++ y :: after → P before y) ↔
      (∀ before y after, xs = before ++ y :: after → P before y) ∧ P xs x := by
  constructor
  · intro h
    constructor
    · intro before y after hsplit
      exact h before y (after ++ [x]) (by simp [hsplit])
    · exact h xs x [] rfl
  · intro h before y after hsplit
    rcases h with ⟨hall, hlast⟩
    rcases append_singleton_split hsplit with ⟨rfl, rfl⟩ | ⟨after', hbefore⟩
    · exact hlast
    · exact hall before y after' hbefore

/-- The first calls of a sequence with one more call. -/
theorem firstCall_append (calls : List TagCall) (call j : TagCall) :
    FirstCall (calls ++ [call]) j ↔
      FirstCall calls j ∨ j = call ∧ ∀ e ∈ calls, e.derived ≠ call.derived := by
  constructor
  · intro h
    rcases h with ⟨before, after, hsplit, hnew⟩
    rcases append_singleton_split hsplit with ⟨rfl, rfl⟩ | ⟨after', hbefore⟩
    · exact .inr ⟨rfl, hnew⟩
    · exact .inl ⟨before, after', hbefore, hnew⟩
  · intro h
    rcases h with ⟨before, after, rfl, hnew⟩ | ⟨rfl, hnew⟩
    · exact ⟨before, after ++ [call], by simp, hnew⟩
    · exact ⟨calls, [], rfl, hnew⟩

section AnyLength

variable {calls : List TagCall} {call : TagCall}

/-- A repeated call is not a first call. -/
theorem firstCall_append_of_repeated (hrepeated : ∃ e ∈ calls, e.derived = call.derived)
    (j : TagCall) : FirstCall (calls ++ [call]) j ↔ FirstCall calls j := by
  rw [firstCall_append]
  constructor
  · intro h
    rcases h with hj | ⟨_, hnew⟩
    · exact hj
    · rcases hrepeated with ⟨e, he, heq⟩
      exact absurd heq (hnew e he)
  · exact .inl

/-- A call with a new derived id adds its stored key to those of the first calls. -/
theorem exists_firstCall_append_of_new (hnew : ∀ e ∈ calls, e.derived ≠ call.derived)
    (k : List UInt8) :
    (∃ first, FirstCall (calls ++ [call]) first ∧ first.storedKey = k) ↔
      (∃ first, FirstCall calls first ∧ first.storedKey = k) ∨ call.storedKey = k := by
  constructor
  · intro h
    rcases h with ⟨j, hj, hk⟩
    rcases (firstCall_append calls call j).1 hj with hj | ⟨rfl, _⟩
    · exact .inl ⟨j, hj, hk⟩
    · exact .inr hk
  · intro h
    rcases h with ⟨j, hj, hk⟩ | hk
    · exact ⟨j, (firstCall_append calls call j).2 (.inl hj), hk⟩
    · exact ⟨call, (firstCall_append calls call call).2 (.inr ⟨rfl, hnew⟩), hk⟩

/-- The table after one more call whose client id fits, when its derived id is new. -/
theorem tagged_append_entry (hc : (cstr call.clId).length ≤ 36) (tagged : TagTable)
    (k : List UInt8) :
    TagTable.Tagged (tagged ++ [call.entry]) k ↔ tagged.Tagged k ∨ call.storedKey = k := by
  simp [TagTable.Tagged, or_and_right, exists_or, TagCall.entry_key hc]

/-- The return value of a call says whether its derived id was found. -/
theorem TagCall.run_fst_eq_ite_iff (tagged : TagTable) (p : Prop) [Decidable p] :
    (call.run tagged).1 = (if p then -1 else 0) ↔ (p ↔ tagged.Tagged call.derived) := by
  by_cases htagged : tagged.Tagged call.derived
  · rw [TagCall.run_of_tagged htagged]
    by_cases hp : p
    · simp [hp, htagged]
    · simp [hp, htagged]
  · rw [TagCall.run_of_not_tagged htagged]
    by_cases hp : p
    · simp [hp, htagged]
    · simp [hp, htagged]

/-- When all repetitions so far were noticed, the table has one entry for each first
call, found under that call's stored key. -/
theorem tagged_tagAll_iff (hc : ∀ call ∈ calls, (cstr call.clId).length ≤ 36)
    (hnoticed : RepetitionsNoticed calls) :
    (∀ k, (tagAll calls).Tagged k ↔ ∃ first, FirstCall calls first ∧ first.storedKey = k) ∧
      (tagAll calls).length = (calls.map TagCall.derived).toFinset.card := by
  induction calls using List.reverseRecOn with
  | nil =>
      refine ⟨?_, rfl⟩
      intro k
      simp [tagAll, TagTable.Tagged, FirstCall]
  | append_singleton calls call ih =>
      rcases (forall_split_concat _ calls call).1 hnoticed with ⟨hbefore, hlast⟩
      rcases ih (fun e he => hc e (by simp [he])) hbefore with ⟨hkeys, hcard⟩
      rw [TagCall.run_fst_eq_ite_iff] at hlast
      rw [tagAll_append]
      by_cases hrepeated : ∃ e ∈ calls, e.derived = call.derived
      · -- The call was noticed as a repetition, so it added nothing.
        have htagged := hlast.1 hrepeated
        have hmem : call.derived ∈ (calls.map TagCall.derived).toFinset := by
          simpa using hrepeated
        rw [TagCall.run_of_tagged htagged]
        constructor
        · intro k
          rw [hkeys k]
          apply exists_congr
          intro j
          rw [firstCall_append_of_repeated hrepeated]
        · rw [hcard, List.map_append, List.toFinset_append]
          simp [hmem]
      · -- The call was not taken for a repetition, so its entry was appended.
        have hnew : ¬(tagAll calls).Tagged call.derived :=
          fun htagged => hrepeated (hlast.2 htagged)
        have hmem : call.derived ∉ (calls.map TagCall.derived).toFinset := by
          simpa using hrepeated
        have hfirst : ∀ e ∈ calls, e.derived ≠ call.derived :=
          fun e he heq => hrepeated ⟨e, he, heq⟩
        rw [TagCall.run_of_not_tagged hnew]
        constructor
        · intro k
          rw [tagged_append_entry (hc call (by simp)), hkeys k, exists_firstCall_append_of_new hfirst]
        · rw [List.length_append, hcard, List.map_append, List.toFinset_append,
            List.map_singleton, List.toFinset_cons, List.toFinset_nil, insert_empty_eq,
            Finset.union_singleton, Finset.card_insert_of_notMem hmem, List.length_singleton]

/-- All repetitions are noticed exactly when the keys agree. -/
theorem repetitionsNoticed_iff (hc : ∀ call ∈ calls, (cstr call.clId).length ≤ 36) :
    RepetitionsNoticed calls ↔ KeysAgree calls := by
  induction calls using List.reverseRecOn with
  | nil => simp [RepetitionsNoticed, KeysAgree]
  | append_singleton calls call ih =>
      have hbefore : ∀ e ∈ calls, (cstr e.clId).length ≤ 36 := fun e he => hc e (by simp [he])
      unfold RepetitionsNoticed KeysAgree
      rw [forall_split_concat, forall_split_concat]
      change RepetitionsNoticed calls ∧ _ ↔ KeysAgree calls ∧ _
      rw [ih hbefore]
      apply and_congr_right
      intro hagree
      have hkeys := (tagged_tagAll_iff hbefore ((ih hbefore).2 hagree)).1 call.derived
      rw [TagCall.run_fst_eq_ite_iff, hkeys]

/-- The keys agree when every derived id is stored under its own bytes, in particular
when it fits its field. -/
theorem keysAgree_of_storedKey_eq (h : ∀ call ∈ calls, call.storedKey = call.derived) :
    KeysAgree calls := by
  intro before call after hsplit
  constructor
  · intro hrepeated
    rcases exists_firstCall hrepeated with ⟨first, hfirst, hd⟩
    refine ⟨first, hfirst, ?_⟩
    rcases hfirst with ⟨_, _, rfl, _⟩
    rw [h first (by simp [hsplit]), hd]
  · intro hstored
    rcases hstored with ⟨first, ⟨_, _, hbefore, _⟩, hkey⟩
    have hmem : first ∈ before := by simp [hbefore]
    rw [h first (by simp [hsplit, hmem])] at hkey
    exact ⟨first, hmem, hkey⟩

end AnyLength

/-- When tagging notices every repetition and the table has as many entries as
derived ids were tagged. -/
theorem retagging_noticed_iff (calls : List TagCall)
    (hc : ∀ call ∈ calls, (cstr call.clId).length ≤ 36) :
    ((∀ before call after, calls = before ++ call :: after →
        (call.run (tagAll before)).1 =
          if ∃ e ∈ before, e.derived = call.derived then -1 else 0) ∧
      (tagAll calls).length = (calls.map TagCall.derived).toFinset.card) ↔
      KeysAgree calls := by
  rw [← repetitionsNoticed_iff hc]
  constructor
  · intro h
    exact h.1
  · intro hnoticed
    exact ⟨hnoticed, (tagged_tagAll_iff hc hnoticed).2⟩

/-- Two tagging calls for {lit}`TEST`: the second is noticed. -/
theorem retagging_noticed_two_calls :
    let call := TagCall.mk (ascii "A") (ascii "TEST") []
    (call.run (tagAll [call])).1 = -1 := by
  intro call
  have hc : ∀ e ∈ [call, call], (cstr e.clId).length ≤ 36 := by decide
  have hagree : KeysAgree [call, call] := keysAgree_of_storedKey_eq (by decide)
  have hnoticed := (retagging_noticed_iff [call, call] hc).2 hagree
  exact hnoticed.1 [call] call [] rfl

/-- A call for id {lit}`A` with 128 bytes {lit}`x` as the derived id. -/
def fillingCall : TagCall :=
  ⟨ascii "A", List.replicate 128 120, []⟩

/-- A call for the derived id under which {lit}`fillingCall` is stored. -/
def spilledCall : TagCall :=
  ⟨ascii "B", List.replicate 128 120 ++ ascii "A", []⟩

theorem fillingCall_derived : fillingCall.derived = List.replicate 128 120 :=
  cstr_of_nul_free (by simp [fillingCall])

theorem spilledCall_derived : spilledCall.derived = List.replicate 128 120 ++ ascii "A" :=
  cstr_of_nul_free (by simp [spilledCall, ascii])

theorem fillingCall_storedKey : fillingCall.storedKey = spilledCall.derived := by
  unfold TagCall.storedKey
  rw [fillingCall_derived, spilledCall_derived, if_neg (by simp),
    List.take_of_length_le (by simp)]
  rfl

/-- The table after one call of a fresh process. -/
theorem tagged_tagAll_singleton {call : TagCall} (hc : (cstr call.clId).length ≤ 36)
    (k : List UInt8) : (tagAll [call]).Tagged k ↔ call.storedKey = k := by
  have hempty : ¬TagTable.Tagged [] call.derived := by simp [TagTable.Tagged]
  simp [tagAll, TagCall.run_of_not_tagged hempty, TagTable.Tagged, TagCall.entry_key hc]

/-- A derived id of 128 bytes is tagged twice and both calls return 0; and the derived
id it was stored under, which no call had, is taken for a repetition. -/
theorem retagging_missed :
    (fillingCall.run (tagAll [fillingCall])).1 = 0 ∧
      (tagAll [fillingCall, fillingCall]).length = 2 ∧
      (spilledCall.run (tagAll [fillingCall])).1 = -1 ∧
      spilledCall.derived ≠ fillingCall.derived := by
  have hc : (cstr fillingCall.clId).length ≤ 36 := by decide
  have hne : spilledCall.derived ≠ fillingCall.derived := by
    rw [spilledCall_derived, fillingCall_derived]
    simp [ascii]
  have hmissed : ¬(tagAll [fillingCall]).Tagged fillingCall.derived := by
    rw [tagged_tagAll_singleton hc, fillingCall_storedKey]
    exact hne
  have hfound : (tagAll [fillingCall]).Tagged spilledCall.derived := by
    rw [tagged_tagAll_singleton hc, fillingCall_storedKey]
  have htwo : tagAll [fillingCall, fillingCall] = (fillingCall.run (tagAll [fillingCall])).2 :=
    tagAll_append [fillingCall] fillingCall
  have hone : (tagAll [fillingCall]).length = 1 := by
    have hempty : ¬TagTable.Tagged [] fillingCall.derived := by simp [TagTable.Tagged]
    simp [tagAll, TagCall.run_of_not_tagged hempty]
  refine ⟨?_, ?_, ?_, hne⟩
  · rw [TagCall.run_of_not_tagged hmissed]
  · rw [htwo, TagCall.run_of_not_tagged hmissed, List.length_append, hone]
    rfl
  · rw [TagCall.run_of_tagged hfound]

end Identifier
end Clacks
