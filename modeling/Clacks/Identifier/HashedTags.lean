import Clacks.Identifier.TagHistory
import Clacks.Uthash.Runs

/-!
# The tag table in memory

{lit}`tag_id` over the hash table that uthash builds in memory, with everything
{lit}`malloc` can do, against the list of entries of {lit}`TagTable`.  Reads through
{lit}`all_tagged_ids` and the list of the same calls give the same replies, however often
the table is expanded, and the structs the table holds are the entries of the list.

Main results:

- Theorem {lit}`TagMemory.tagId_refines`: one call.
- Theorem {lit}`tagRun_refines`: all calls of a process.
- Theorem {lit}`tagRun_first_wins`: what is found in memory behind them.
-/

namespace Clacks
namespace Identifier

open Foundation Uthash

/-- {lit}`all_tagged_ids` and the structs in memory, by address. -/
structure TagMemory (α : Type) where
  allTaggedIds : Hash α
  structs : α → TaggedId

/-- What {lit}`malloc` answers during one call: the address of the struct, and the sizes
it grants to the hash table. -/
structure Grants (α : Type) where
  block : Option α
  alloc : Nat → Bool

/-- How a call ends when it does not return: a macro of uthash does not go on, or
{lit}`strncpy` writes through {lit}`NULL`. -/
inductive TagEnd where
  | uthash (halt : Halt)
  | nullWrite
deriving DecidableEq

variable {α : Type} {fcn : List UInt8 → UInt32} {turns : Nat}

/-- {lit}`tag_id` in memory.  The hash function is a parameter, and no loop takes more
than {lit}`turns` turns. -/
def TagMemory.tagId [DecidableEq α] (fcn : List UInt8 → UInt32) (turns : Nat) (m : TagMemory α)
    (call : TagCall) (grants : Grants α) : Except TagEnd (Int × TagMemory α) :=
  match hashFind fcn turns m.allTaggedIds call.derived with
  | .error halt => .error (.uthash halt)
  | .ok (some _) => .ok (-1, m)
  | .ok none =>
      match grants.block with
      | none => .error .nullWrite
      | some currTag =>
          let structs := Function.update m.structs currTag call.entry
          match hashAdd fcn grants.alloc turns m.allTaggedIds call.entry.key currTag with
          | .error halt => .error (.uthash halt)
          | .ok allTaggedIds => .ok (0, { allTaggedIds, structs })

/-- The key of the call's entry ends inside the two fields. -/
def TagCall.Ends (call : TagCall) : Prop :=
  (cstr call.clId).length ≤ 36 ∨ call.derived.length ≤ 127

theorem TagCall.Ends.key_length {call : TagCall} (h : call.Ends) :
    call.entry.key.length < 2 ^ 32 := by
  rcases h with hc | hd
  · rw [TagCall.entry_key hc, TagCall.storedKey]
    split
    · omega
    · rw [List.length_append, List.length_take]
      omega
  · have hkey : call.entry.key = call.derived := TaggedId.key_of_fits (Nat.lt_succ_of_le hd) _ _
    rw [hkey]
    omega

/-! ## One call -/

/-- The hash holds the structs at {lit}`order`, and these are the entries of {lit}`table`. -/
structure TagMemory.Stores (fcn : List UInt8 → UInt32) (m : TagMemory α) (order : List α)
    (table : TagTable) : Prop where
  holds : m.allTaggedIds.Holds fcn order
  entries : order.map m.structs = table
  keys : ∀ a ∈ order, (m.allTaggedIds.hh a).key = (m.structs a).key

/-- What a call needs: strings of lengths {lit}`unsigned` can hold, a fresh struct, and
room in the counters. -/
structure Grants.Allowed (grants : Grants α) (call : TagCall) (order : List α) : Prop where
  ends : call.Ends
  derived_length : call.derived.length < 2 ^ 32
  few : order.length + 1 < 2 ^ 32
  fresh : ∀ a, grants.block = some a → a ∉ order
  limit : ∀ n, 2 ^ 36 ≤ n → grants.alloc n = false

/-- {lit}`malloc` refuses the struct or something that the table is to grow with. -/
def Grants.Refused (grants : Grants α) (m : TagMemory α) : Prop :=
  grants.block = none ∨ ∃ n ∈ m.allTaggedIds.requests, grants.alloc n = false

/-- The search finds a struct exactly when the list has an entry with the key. -/
theorem TagMemory.Stores.hashFind {m : TagMemory α} {order : List α} {table : TagTable}
    (h : m.Stores fcn order table) {d : List UInt8} (hd : d.length < 2 ^ 32)
    (hturns : order.length ≤ turns) :
    (∃ a ∈ order, hashFind fcn turns m.allTaggedIds d = .ok (some a) ∧ (m.structs a).key = d) ∨
      hashFind fcn turns m.allTaggedIds d = .ok none ∧ ¬table.Tagged d := by
  rcases hashFind_spec h.holds hd hturns with ⟨out, hfind, hsome, hnone⟩
  cases out with
  | some a =>
      rcases hsome a rfl with ⟨ha, hkey⟩
      exact .inl ⟨a, ha, hfind, (h.keys a ha).symm.trans hkey⟩
  | none =>
      refine .inr ⟨hfind, ?_⟩
      rintro ⟨t, ht, hkey⟩
      rw [← h.entries, List.mem_map] at ht
      rcases ht with ⟨a, ha, rfl⟩
      exact hnone rfl a ha ((h.keys a ha).trans hkey)

/-- A call replies what the call on the list replies and does to the hash what that one
does to the list, or the process ends because {lit}`malloc` has refused. -/
theorem TagMemory.tagId_refines [DecidableEq α] {m : TagMemory α} {order : List α}
    {table : TagTable} {call : TagCall} {grants : Grants α} (h : m.Stores fcn order table)
    (hallowed : grants.Allowed call order) (hturns : order.length + 1 ≤ turns) :
    (∃ m' order', m.tagId fcn turns call grants = .ok ((call.run table).1, m') ∧
        m'.Stores fcn order' (call.run table).2 ∧
        (order' = order ∨ ∃ a, grants.block = some a ∧ order' = order ++ [a])) ∨
      (m.tagId fcn turns call grants = .error .nullWrite ∨
          m.tagId fcn turns call grants = .error (.uthash .outOfMemory)) ∧ grants.Refused m := by
  unfold tagId
  rcases h.hashFind hallowed.derived_length (Nat.le_of_succ_le hturns) with
    ⟨a, ha, hfind, hkey⟩ | ⟨hfind, hnew⟩
  · have htagged : table.Tagged call.derived := by
      refine ⟨m.structs a, ?_, hkey⟩
      rw [← h.entries]
      exact List.mem_map_of_mem ha
    rw [hfind, TagCall.run_of_tagged htagged]
    exact .inl ⟨m, order, rfl, h, .inl rfl⟩
  · rw [hfind, TagCall.run_of_not_tagged hnew]
    cases hblock : grants.block with
    | none => exact .inr ⟨.inl rfl, .inl hblock⟩
    | some a =>
        have ha := hallowed.fresh a hblock
        simp only
        rcases hashAdd_holds h.holds ha hallowed.ends.key_length (by simpa using hallowed.few)
            hallowed.limit (by simpa using hturns) with
          ⟨hadd, hrefused⟩ | ⟨hash, hadd, hholds, hnewKey, hkeys⟩
        · rw [hadd]
          exact .inr ⟨.inr rfl, .inr hrefused⟩
        · rw [hadd]
          have hne : ∀ x ∈ order, x ≠ a := fun x hx heq => ha (heq ▸ hx)
          refine .inl ⟨_, _, rfl, ⟨hholds, ?_, ?_⟩, .inr ⟨a, rfl, rfl⟩⟩
          · simp only [List.map_append, List.map_singleton, Function.update_self, ← h.entries]
            congr 1
            exact List.map_congr_left fun x hx => Function.update_of_ne (hne x hx) _ _
          · intro x hx
            rcases List.mem_append.1 hx with hx | hx
            · simp only [Function.update_of_ne (hne x hx), hkeys x hx]
              exact h.keys x hx
            · simp only [List.mem_singleton.1 hx, Function.update_self, hnewKey]

/-! ## All calls of a process -/

/-- The calls of a process, each with what {lit}`malloc` answers, and their replies. -/
def tagRun [DecidableEq α] (fcn : List UInt8 → UInt32) (turns : Nat)
    (calls : List (TagCall × Grants α)) (structs : α → TaggedId) (hh : α → Handle α) :
    Except TagEnd (List Int × TagMemory α) :=
  calls.foldlM
    (fun out c => (out.2.tagId fcn turns c.1 c.2).map fun next => (out.1 ++ [next.1], next.2))
    ([], { allTaggedIds := Hash.empty hh, structs })

/-- The replies of the same calls on the list. -/
def tagReplies (calls : List TagCall) : List Int :=
  (calls.foldl (fun out call => (out.1 ++ [(call.run out.2).1], (call.run out.2).2))
    (([], []) : List Int × TagTable)).1

theorem tagReplies_append (calls : List TagCall) (call : TagCall) :
    tagReplies (calls ++ [call]) = tagReplies calls ++ [(call.run (tagAll calls)).1] := by
  have hsnd : ∀ calls : List TagCall,
      (calls.foldl (fun out call => (out.1 ++ [(call.run out.2).1], (call.run out.2).2))
        (([], []) : List Int × TagTable)).2 = tagAll calls := by
    intro calls
    induction calls using List.reverseRecOn with
    | nil => rfl
    | append_singleton calls call ih => simp [ih]
  simp [tagReplies, hsnd]

/-- What a process needs: keys that end, lengths that {lit}`unsigned` can hold, and a
{lit}`malloc` that grants no struct twice and no 64 GiB. -/
structure Callable (calls : List (TagCall × Grants α)) : Prop where
  ends : ∀ c ∈ calls, c.1.Ends
  derived_length : ∀ c ∈ calls, c.1.derived.length < 2 ^ 32
  few : calls.length < 2 ^ 32
  blocks : (calls.filterMap fun c => c.2.block).Nodup
  limit : ∀ c ∈ calls, ∀ n, 2 ^ 36 ≤ n → c.2.alloc n = false

theorem Callable.front {calls : List (TagCall × Grants α)} {c : TagCall × Grants α}
    (h : Callable (calls ++ [c])) : Callable calls where
  ends d hd := h.ends d (List.mem_append_left _ hd)
  derived_length d hd := h.derived_length d (List.mem_append_left _ hd)
  few := by
    have hfew := h.few
    rw [List.length_append] at hfew
    omega
  blocks := by
    have hblocks := h.blocks
    rw [List.filterMap_append, List.nodup_append] at hblocks
    exact hblocks.1
  limit d hd := h.limit d (List.mem_append_left _ hd)

/-- The last call finds its struct fresh when those in use were granted before. -/
theorem Callable.allowed {calls : List (TagCall × Grants α)} {c : TagCall × Grants α}
    (h : Callable (calls ++ [c])) {order : List α} (hlength : order.length ≤ calls.length)
    (hblocks : ∀ a ∈ order, a ∈ calls.filterMap fun c => c.2.block) : c.2.Allowed c.1 order := by
  have hmem : c ∈ calls ++ [c] := by simp
  have hfew := h.few
  have hnodup := h.blocks
  rw [List.length_append, List.length_singleton] at hfew
  rw [List.filterMap_append, List.nodup_append] at hnodup
  refine ⟨h.ends c hmem, h.derived_length c hmem, by omega, ?_, h.limit c hmem⟩
  intro a hblock ha
  exact hnodup.2.2 a (hblocks a ha) a (by simp [hblock]) rfl

/-- Some call comes to a state in which {lit}`malloc` refuses what it asks for. -/
def RunsOut [DecidableEq α] (fcn : List UInt8 → UInt32) (turns : Nat)
    (calls : List (TagCall × Grants α)) (structs : α → TaggedId) (hh : α → Handle α) : Prop :=
  ∃ before c after out, calls = before ++ c :: after ∧
    tagRun fcn turns before structs hh = .ok out ∧ c.2.Refused out.2

/-- While all strings fit their fields, a search for a derived id finds a struct with the
strings of the first call for it. -/
theorem stores_first_wins {m : TagMemory α} {order : List α} {tagged : List TagCall}
    (h : m.Stores fcn order (tagAll tagged)) (hfits : ∀ call ∈ tagged, call.Fits)
    (hturns : order.length ≤ turns) {d : List UInt8} (hd : d.length < 2 ^ 32) :
    (∀ first, FirstCall tagged first → first.derived = d →
        ∃ a, hashFind fcn turns m.allTaggedIds d = .ok (some a) ∧
          (m.structs a).fields = first.entry.fields) ∧
      ((∀ call ∈ tagged, call.derived ≠ d) →
        hashFind fcn turns m.allTaggedIds d = .ok none) := by
  have hmap := tagAll_holds hfits
  have hfound := h.hashFind hd hturns
  have hentry : ∀ a ∈ order, m.structs a ∈ tagAll tagged := by
    intro a ha
    rw [← h.entries]
    exact List.mem_map_of_mem ha
  constructor
  · rintro first hfirst rfl
    rcases hmap.exists_entry (firstWrites_of_firstCall hfirst) with ⟨t, ht, hfields⟩
    have hunique : ∀ t' ∈ tagAll tagged, t'.key = first.derived → t' = t := by
      intro t' ht' hkey
      have hmem : t' ∈ (tagAll tagged).filter (·.key = first.derived) := by
        simp [ht', hkey]
      rw [ht] at hmem
      exact List.mem_singleton.1 hmem
    rcases hfound with ⟨a, ha, hfind, hkey⟩ | ⟨_, hnot⟩
    · refine ⟨a, hfind, ?_⟩
      rw [hunique _ (hentry a ha) hkey]
      exact hfields
    · refine absurd ((hmap.exists_key_iff _).2 ?_) hnot
      rw [firstWrites_of_firstCall hfirst]
      simp
  · intro hno
    rcases hfound with ⟨a, ha, _, hkey⟩ | ⟨hfind, _⟩
    · have hsome := (hmap.exists_key_iff d).1 ⟨_, hentry a ha, hkey⟩
      exact absurd (firstWrites_of_no_call hno) hsome
    · exact hfind

section Run

variable [DecidableEq α] {calls : List (TagCall × Grants α)}

/-- The calls of a process in memory and on the list, with where the structs lie. -/
theorem tagRun_stores (h : Callable calls) (hturns : calls.length ≤ turns)
    (structs : α → TaggedId) (hh : α → Handle α) :
    (∃ m order, tagRun fcn turns calls structs hh = .ok (tagReplies (calls.map Prod.fst), m) ∧
        m.Stores fcn order (tagAll (calls.map Prod.fst)) ∧ order.length ≤ calls.length ∧
        ∀ a ∈ order, a ∈ calls.filterMap fun c => c.2.block) ∨
      (tagRun fcn turns calls structs hh = .error .nullWrite ∨
          tagRun fcn turns calls structs hh = .error (.uthash .outOfMemory)) ∧
        RunsOut fcn turns calls structs hh := by
  induction calls using List.reverseRecOn with
  | nil =>
      refine .inl ⟨_, [], rfl, ⟨rfl, rfl, ?_⟩, Nat.le_refl _, ?_⟩
      · simp
      · simp
  | append_singleton calls c ih =>
      have hrun : tagRun fcn turns (calls ++ [c]) structs hh =
          tagRun fcn turns calls structs hh >>= fun out =>
            (out.2.tagId fcn turns c.1 c.2).map fun next => (out.1 ++ [next.1], next.2) := by
        simp [tagRun]
      rw [List.length_append, List.length_singleton] at hturns
      rw [hrun, List.map_append, List.map_singleton, tagReplies_append, tagAll_append]
      rcases ih h.front (Nat.le_of_succ_le hturns) with
        ⟨m, order, hok, hstores, hlength, hblocks⟩ |
          ⟨hends, before, d, after, out, hsplit, hbefore, hrefused⟩
      · rw [hok]
        have hroom : order.length + 1 ≤ turns := by omega
        rcases TagMemory.tagId_refines hstores (h.allowed hlength hblocks) hroom with
          ⟨m', order', hcall, hstores', horder⟩ | ⟨hends, hrefused⟩
        · refine .inl ⟨m', order', ?_, hstores', ?_, ?_⟩
          · change (m.tagId fcn turns c.1 c.2).map _ = _
            rw [hcall]
            rfl
          · rw [List.length_append, List.length_singleton]
            rcases horder with rfl | ⟨a, _, rfl⟩
            · exact Nat.le_succ_of_le hlength
            · simpa using hlength
          · intro x hx
            rw [List.filterMap_append, List.mem_append]
            rcases horder with rfl | ⟨a, hblock, rfl⟩
            · exact .inl (hblocks x hx)
            · rcases List.mem_append.1 hx with hx | hx
              · exact .inl (hblocks x hx)
              · rw [List.mem_singleton.1 hx]
                simp [hblock]
        · refine .inr ⟨?_, calls, c, [], _, rfl, hok, hrefused⟩
          change (m.tagId fcn turns c.1 c.2).map _ = _ ∨ (m.tagId fcn turns c.1 c.2).map _ = _
          rcases hends with hcall | hcall
          · rw [hcall]
            exact .inl rfl
          · rw [hcall]
            exact .inr rfl
      · refine .inr ⟨?_, before, d, after ++ [c], out, ?_, hbefore, hrefused⟩
        · rcases hends with hearlier | hearlier
          · rw [hearlier]
            exact .inl rfl
          · rw [hearlier]
            exact .inr rfl
        · rw [hsplit, List.append_assoc, List.cons_append]

/-- The calls in memory reply what those on the list reply, and the structs in the hash
are the entries of the list, unless {lit}`malloc` refuses something. -/
theorem tagRun_refines (h : Callable calls) (hturns : calls.length ≤ turns)
    (structs : α → TaggedId) (hh : α → Handle α) :
    (∃ m order, tagRun fcn turns calls structs hh = .ok (tagReplies (calls.map Prod.fst), m) ∧
        m.allTaggedIds.Holds fcn order ∧ order.map m.structs = tagAll (calls.map Prod.fst)) ∨
      (tagRun fcn turns calls structs hh = .error .nullWrite ∨
          tagRun fcn turns calls structs hh = .error (.uthash .outOfMemory)) ∧
        RunsOut fcn turns calls structs hh := by
  rcases tagRun_stores h hturns structs hh with ⟨m, order, hok, hstores, _⟩ | hends
  · exact .inl ⟨m, order, hok, hstores.holds, hstores.entries⟩
  · exact .inr hends

/-- The memory behind calls that have all returned. -/
theorem tagRun_ok_stores (h : Callable calls) (hturns : calls.length ≤ turns)
    {structs : α → TaggedId} {hh : α → Handle α} {replies : List Int} {m : TagMemory α}
    (hrun : tagRun fcn turns calls structs hh = .ok (replies, m)) :
    ∃ order, m.Stores fcn order (tagAll (calls.map Prod.fst)) ∧ order.length ≤ turns := by
  rcases tagRun_stores h hturns structs hh with
    ⟨m', order, hok, hstores, hlength, _⟩ | ⟨hend | hend, _⟩
  · rw [hrun] at hok
    cases hok
    exact ⟨order, hstores, hlength.trans hturns⟩
  · rw [hrun] at hend
    cases hend
  · rw [hrun] at hend
    cases hend

/-- In the memory behind the calls, while all strings fit their fields, a search for a
derived id finds a struct with the strings of the first call for it. -/
theorem tagRun_first_wins (h : Callable calls) (hfits : ∀ c ∈ calls, c.1.Fits)
    (hturns : calls.length ≤ turns) {structs : α → TaggedId} {hh : α → Handle α}
    {replies : List Int} {m : TagMemory α}
    (hrun : tagRun fcn turns calls structs hh = .ok (replies, m)) {d : List UInt8}
    (hd : d.length < 2 ^ 32) :
    (∀ first, FirstCall (calls.map Prod.fst) first → first.derived = d →
        ∃ a, hashFind fcn turns m.allTaggedIds d = .ok (some a) ∧
          (m.structs a).fields = first.entry.fields) ∧
      ((∀ c ∈ calls, c.1.derived ≠ d) → hashFind fcn turns m.allTaggedIds d = .ok none) := by
  have hfits' : ∀ call ∈ calls.map Prod.fst, call.Fits := by
    intro call hcall
    rcases List.mem_map.1 hcall with ⟨c, hc, rfl⟩
    exact hfits c hc
  rcases tagRun_ok_stores h hturns hrun with ⟨order, hstores, hlength⟩
  rcases stores_first_wins hstores hfits' hlength hd with ⟨hfound, hnone⟩
  refine ⟨hfound, fun hno => hnone ?_⟩
  intro call hcall
  rcases List.mem_map.1 hcall with ⟨c, hc, rfl⟩
  exact hno c hc

end Run

/-- Two calls for one derived id. -/
def twoTags : List (TagCall × Grants Nat) :=
  [(⟨ascii "A", ascii "TEST", []⟩, ⟨some 7, fun n => decide (n < 2 ^ 36)⟩),
    (⟨ascii "B", ascii "TEST", []⟩, ⟨some 3, fun n => decide (n < 2 ^ 36)⟩)]

/-- What the structs hold before. -/
def unusedStructs : Nat → TaggedId := fun _ => ⟨.fill 128 0, .fill 37 0, []⟩

theorem twoTags_fit : ∀ c ∈ twoTags, c.1.Fits := by
  intro c hc
  simp only [twoTags, List.mem_cons, List.not_mem_nil, or_false] at hc
  rcases hc with rfl | rfl
  · exact ⟨by decide, by decide⟩
  · exact ⟨by decide, by decide⟩

theorem twoTags_callable : Callable twoTags where
  ends c hc := .inr (twoTags_fit c hc).derived_le
  derived_length c hc := by
    have hd := (twoTags_fit c hc).derived_le
    omega
  few := by decide
  blocks := by decide
  limit c hc := by
    intro n hn
    simp only [twoTags, List.mem_cons, List.not_mem_nil, or_false] at hc
    rcases hc with rfl | rfl
    · simpa using hn
    · simpa using hn

theorem twoTags_run : ∃ replies m,
    tagRun hashJen 2 twoTags unusedStructs freshHandles = .ok (replies, m) :=
  ⟨_, _, rfl⟩

/-- The second call is refused in memory as it is on the list. -/
theorem tagRun_refines_two : ∃ m order,
    tagRun hashJen 2 twoTags unusedStructs freshHandles = .ok ([0, -1], m) ∧
      m.allTaggedIds.Holds hashJen order ∧
      order.map m.structs = tagAll (twoTags.map Prod.fst) := by
  have hrefines := @tagRun_refines Nat hashJen 2 _ _ twoTags_callable (Nat.le_refl 2)
    unusedStructs freshHandles
  rcases hrefines with ⟨m, order, hok, hholds, hentries⟩ | ⟨hend, _⟩
  · exact ⟨m, order, hok, hholds, hentries⟩
  · rcases twoTags_run with ⟨replies, m, hok⟩
    rcases hend with hend | hend
    · rw [hok] at hend
      cases hend
    · rw [hok] at hend
      cases hend

/-- A search finds the struct of the first call. -/
theorem tagRun_first_wins_two : ∃ replies m a,
    tagRun hashJen 2 twoTags unusedStructs freshHandles = .ok (replies, m) ∧
      hashFind hashJen 2 m.allTaggedIds (ascii "TEST") = .ok (some a) ∧
      (m.structs a).clId.bytes = ascii "A" ++ List.replicate 36 0 := by
  rcases twoTags_run with ⟨replies, m, hok⟩
  have hfound := (tagRun_first_wins twoTags_callable twoTags_fit (Nat.le_refl 2) hok
    (d := ascii "TEST") (by decide)).1 ⟨ascii "A", ascii "TEST", []⟩
    ⟨[], [⟨ascii "B", ascii "TEST", []⟩], rfl, by simp⟩ rfl
  rcases hfound with ⟨a, hfind, hfields⟩
  exact ⟨replies, m, a, hok, hfind, congrArg Prod.snd hfields⟩

end Identifier
end Clacks
