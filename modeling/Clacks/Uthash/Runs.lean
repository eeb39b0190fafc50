import Clacks.Uthash.Expansion

/-!
# Filling a table

A table is filled by one addition after another, each of an element that is not in it.
What one addition keeps holds of every table that can be filled in this way, whatever the
hash function does and whenever {lit}`malloc` refuses.

Main results:

- Theorem {lit}`Run.hashAdd_cases`: an addition succeeds or {lit}`malloc` has refused.
- Theorem {lit}`Run.hashFsck_ok`: the integrity check never fails.
- Theorem {lit}`Run.hashFind_cases`: a search finds what was added.
- Theorem {lit}`Run.load_le`: the load of the table.
- Theorem {lit}`Run.expansion_measured`: the numbers behind every expansion.
- Theorem {lit}`Run.noexpand_iff`: when expansion is inhibited.
-/

namespace Clacks
namespace Uthash

open Foundation Chain

variable {α : Type}

/-- An element to add under a key, and the sizes that {lit}`malloc` grants meanwhile. -/
structure Addition (α : Type) where
  key : List UInt8
  elt : α
  alloc : Nat → Bool

/-- The element is not in the table yet, {lit}`unsigned` holds the length of the key and
the number of elements, and no 64 GiB are granted. -/
structure Addition.Allowed (c : Addition α) (calls : List (Addition α)) : Prop where
  fresh : c.elt ∉ calls.map Addition.elt
  key_length : c.key.length < 2 ^ 32
  few : calls.length + 1 < 2 ^ 32
  limit : ∀ n, 2 ^ 36 ≤ n → c.alloc n = false

/-- The expansions between two states, each with whether it was ineffective. -/
def Hash.expansions (s s' : Hash α) : List Bool :=
  match s'.root with
  | none => []
  | some (_, tbl) =>
      if tbl.numBuckets = s.numBuckets then [] else [decide tbl.Ineffective]

/-- The table {lit}`s` is filled by {lit}`calls`; {lit}`log` tells of its expansions.  No
loop takes more turns than there are elements. -/
inductive Run [DecidableEq α] (fcn : List UInt8 → UInt32) :
    List (Addition α) → List Bool → Hash α → Prop
  | empty (hh : α → Handle α) : Run fcn [] [] (Hash.empty hh)
  | add {calls : List (Addition α)} {log : List Bool} {s s' : Hash α} {c : Addition α} :
      Run fcn calls log s → c.Allowed calls →
      hashAdd fcn c.alloc (calls.length + 1) s c.key c.elt = .ok s' →
      Run fcn (calls ++ [c]) (log ++ s.expansions s') s'

/-- One addition after another to a table of {lit}`n` elements, with what became of the
table and a log of its expansions. -/
def addAll [DecidableEq α] (fcn : List UInt8 → UInt32) :
    Nat → Hash α → List Bool → List (Addition α) → Except Halt (Hash α × List Bool)
  | _, s, log, [] => .ok (s, log)
  | n, s, log, c :: later => do
      let s' ← hashAdd fcn c.alloc (n + 1) s c.key c.elt
      addAll fcn (n + 1) s' (log ++ s.expansions s') later

/-- Additions of different elements that all succeed fill a table. -/
theorem Run.of_addAll [DecidableEq α] {fcn : List UInt8 → UInt32} {calls later : List (Addition α)}
    {log log' : List Bool} {s s' : Hash α} (h : Run fcn calls log s)
    (hnodup : ((calls ++ later).map Addition.elt).Nodup) (hfew : (calls ++ later).length < 2 ^ 32)
    (hbounds : ∀ c ∈ later, c.key.length < 2 ^ 32 ∧ ∀ n, 2 ^ 36 ≤ n → c.alloc n = false)
    (hok : addAll fcn calls.length s log later = .ok (s', log')) :
    Run fcn (calls ++ later) log' s' := by
  induction later generalizing calls log s with
  | nil =>
      cases hok
      simpa using h
  | cons c later ih =>
      rw [List.append_cons] at hnodup hfew ⊢
      have hfront := hnodup
      rw [List.map_append, List.nodup_append] at hfront
      have hallowed : c.Allowed calls := by
        refine ⟨?_, (hbounds c List.mem_cons_self).1, ?_, (hbounds c List.mem_cons_self).2⟩
        · have hlast := hfront.1
          rw [List.map_append, List.nodup_append] at hlast
          exact fun hmem => hlast.2.2 _ hmem _ (by simp) rfl
        · simp only [List.length_append, List.length_singleton] at hfew
          omega
      unfold addAll at hok
      cases hadd : hashAdd fcn c.alloc (calls.length + 1) s c.key c.elt with
      | error halt =>
          rw [hadd] at hok
          cases hok
      | ok next =>
          rw [hadd] at hok
          apply ih (h.add hallowed hadd) hnodup hfew
          · exact fun d hd => hbounds d (List.mem_cons_of_mem c hd)
          · rw [List.length_append, List.length_singleton]
            exact hok

/-! ## A table that is expanded twice -/

/-- Memory before the first addition. -/
def freshHandles : Nat → Handle Nat := fun _ =>
  { prev := none, next := none, hhPrev := none, hhNext := none, key := [], keylen := 0, hashv := 0 }

/-- A hash function that looks at the first byte only. -/
def hashFirst (key : List UInt8) : UInt32 :=
  (key.getD 0 0).toUInt32

/-- The {lit}`i`th addition, with all memory the process can have: keys of two bytes, the
first of which is 0 for ten of them and 1 for the others. -/
def nthAddition (i : Nat) : Addition Nat where
  key := [if i < 10 then 0 else 1, UInt8.ofNat i]
  elt := i
  alloc := fun n => decide (n < 2 ^ 36)

/-- The first {lit}`n` additions. -/
def additions (n : Nat) : List (Addition Nat) :=
  (List.range n).map nthAddition

theorem additions_succ (n : Nat) : additions (n + 1) = additions n ++ [nthAddition n] := by
  simp [additions, List.range_succ]

theorem nthAddition_bounds (i : Nat) : (nthAddition i).key.length < 2 ^ 32 ∧
    ∀ n, 2 ^ 36 ≤ n → (nthAddition i).alloc n = false := by
  refine ⟨by simp [nthAddition], ?_⟩
  intro n hn
  simpa [nthAddition] using hn

theorem nthAddition_allowed {n : Nat} (h : n + 1 < 2 ^ 32) :
    (nthAddition n).Allowed (additions n) where
  fresh := by simp [additions, nthAddition]
  key_length := (nthAddition_bounds n).1
  few := by simpa [additions] using h
  limit := (nthAddition_bounds n).2

/-- How large a table is, and whether its expansion is inhibited. -/
structure Numbers where
  numItems : UInt32
  numBuckets : UInt32
  noexpand : UInt32
deriving DecidableEq

def Hash.numbers (s : Hash α) : Option Numbers :=
  s.root.map fun root => ⟨root.2.numItems, root.2.numBuckets, root.2.noexpand⟩

theorem eq_ok_of_toOption {ε β : Type} {out : Except ε β} {b : β} (h : out.toOption = some b) :
    out = .ok b := by
  cases out with
  | error e => cases h
  | ok b' =>
      cases h
      rfl

/-- Ten items in one bucket double the table, and as they stay together this expansion is
ineffective.  So is the one that the last of ten other items makes. -/
theorem addAll_nineteen :
    ((addAll hashFirst 0 (Hash.empty freshHandles) [] (additions 19)).toOption.bind fun out =>
      (hashAdd hashFirst (nthAddition 19).alloc 20 out.1 (nthAddition 19).key 19).toOption.map
        fun s' => ((out.2, out.1.numbers), out.1.expansions s', s'.numbers)) =
      some (([true], some ⟨19, 64, 0⟩), [true], some ⟨20, 128, 1⟩) := by
  decide +kernel

/-- Nineteen additions, and what the next one makes of the table. -/
theorem run_nineteen : ∃ s s', Run hashFirst (additions 19) [true] s ∧
    s.numbers = some ⟨19, 64, 0⟩ ∧
    hashAdd hashFirst (nthAddition 19).alloc 20 s (nthAddition 19).key 19 = .ok s' ∧
    s.expansions s' = [true] ∧ s'.numbers = some ⟨20, 128, 1⟩ := by
  rcases Option.bind_eq_some_iff.1 addAll_nineteen with ⟨⟨s, log⟩, hfill, hnext⟩
  rcases Option.map_eq_some_iff.1 hnext with ⟨s', hadd, hnumbers⟩
  simp only [Prod.mk.injEq] at hnumbers
  rcases hnumbers with ⟨⟨rfl, hbefore⟩, hexpansions, hafter⟩
  refine ⟨s, s', ?_, hbefore, eq_ok_of_toOption hadd, hexpansions, hafter⟩
  apply Run.of_addAll (.empty freshHandles) _ _ _ (eq_ok_of_toOption hfill)
  · simp [additions, nthAddition, Function.comp_def, List.nodup_range]
  · simp [additions]
  · intro c hc
    rcases List.mem_map.1 hc with ⟨i, _, rfl⟩
    exact nthAddition_bounds i

theorem run_twenty : ∃ s, Run hashFirst (additions 20) [true, true] s ∧
    s.numbers = some ⟨20, 128, 1⟩ := by
  rcases run_nineteen with ⟨s, s', hrun, _, hadd, hexpansions, hafter⟩
  have hnext := hrun.add (nthAddition_allowed (by decide)) hadd
  rw [hexpansions, ← additions_succ] at hnext
  exact ⟨s', hnext, hafter⟩

/-- The table behind the numbers. -/
theorem Hash.exists_table {s : Hash α} {items buckets noexpand : UInt32}
    (h : s.numbers = some ⟨items, buckets, noexpand⟩) : ∃ head tbl, s.root = some (head, tbl) ∧
      tbl.numItems = items ∧ tbl.numBuckets = buckets ∧ tbl.noexpand = noexpand := by
  rcases Option.map_eq_some_iff.1 h with ⟨⟨head, tbl⟩, hroot, hnumbers⟩
  cases hnumbers
  exact ⟨head, tbl, hroot, rfl, rfl, rfl⟩

/-! ## What a table holds -/

section Content

variable [DecidableEq α] {fcn : List UInt8 → UInt32} {calls : List (Addition α)}
  {log : List Bool} {s s' : Hash α} {c : Addition α}

/-- One addition, for tables that hold what was added. -/
theorem hashAdd_run (h : s.Holds fcn (calls.map Addition.elt)) (hallowed : c.Allowed calls) :
    (hashAdd fcn c.alloc (calls.length + 1) s c.key c.elt = .error .outOfMemory ∧
        ∃ n ∈ s.requests, c.alloc n = false) ∨
      ∃ s', hashAdd fcn c.alloc (calls.length + 1) s c.key c.elt = .ok s' ∧
        s'.Holds fcn ((calls ++ [c]).map Addition.elt) ∧ (s'.hh c.elt).key = c.key ∧
        ∀ x ∈ calls.map Addition.elt, (s'.hh x).key = (s.hh x).key := by
  rw [List.map_append, List.map_singleton]
  apply hashAdd_holds h hallowed.fresh hallowed.key_length
  · simpa using hallowed.few
  · exact hallowed.limit
  · simp

/-- The table holds the elements that were added, each under its key. -/
theorem Run.holds (h : Run fcn calls log s) :
    s.Holds fcn (calls.map Addition.elt) ∧ ∀ c ∈ calls, (s.hh c.elt).key = c.key := by
  induction h with
  | empty hh => exact ⟨rfl, by simp⟩
  | @add calls log s s' c _ hallowed hok ih =>
      rcases hashAdd_run ih.1 hallowed with ⟨hrefused, _⟩ | ⟨s'', hok', hholds, hkey, hkeys⟩
      · rw [hrefused] at hok
        cases hok
      · rw [hok'] at hok
        cases hok
        refine ⟨hholds, ?_⟩
        intro d hd
        rcases List.mem_append.1 hd with hd | hd
        · rw [hkeys _ (List.mem_map_of_mem hd)]
          exact ih.2 d hd
        · rw [List.mem_singleton.1 hd]
          exact hkey

/-- An addition succeeds, or the process ends because {lit}`malloc` refused: there is no
division by zero, and every loop ends. -/
theorem Run.hashAdd_cases (h : Run fcn calls log s) (hallowed : c.Allowed calls) :
    (∃ s', hashAdd fcn c.alloc (calls.length + 1) s c.key c.elt = .ok s') ∨
      hashAdd fcn c.alloc (calls.length + 1) s c.key c.elt = .error .outOfMemory ∧
        ∃ n ∈ s.requests, c.alloc n = false := by
  rcases hashAdd_run h.holds.1 hallowed with hrefused | ⟨s', hok, _⟩
  · exact .inr hrefused
  · exact .inl ⟨s', hok⟩

/-- The addition that expands a table for the second time. -/
theorem hashAdd_cases_twenty : ∃ s, Run hashFirst (additions 19) [true] s ∧
    s.numbers = some ⟨19, 64, 0⟩ ∧
    ((∃ s', hashAdd hashFirst (nthAddition 19).alloc 20 s (nthAddition 19).key 19 = .ok s') ∨
      hashAdd hashFirst (nthAddition 19).alloc 20 s (nthAddition 19).key 19 =
          .error .outOfMemory ∧
        ∃ n ∈ s.requests, (nthAddition 19).alloc n = false) := by
  rcases run_nineteen with ⟨s, _, hrun, hnumbers, _⟩
  exact ⟨s, hrun, hnumbers, hrun.hashAdd_cases (nthAddition_allowed (by decide))⟩

/-- {lit}`HASH_FSCK` finds nothing wrong with a table that is filled. -/
theorem Run.hashFsck_ok (h : Run fcn calls log s) : hashFsck calls.length s = .ok () :=
  hashFsck_eq h.holds.1 (by simp)

theorem hashFsck_ok_twenty : ∃ s, Run hashFirst (additions 20) [true, true] s ∧
    s.numbers = some ⟨20, 128, 1⟩ ∧ hashFsck 20 s = .ok () := by
  rcases run_twenty with ⟨s, hrun, hnumbers⟩
  exact ⟨s, hrun, hnumbers, hrun.hashFsck_ok⟩

/-- A search for a key returns an element that was added under it, and nothing exactly
when there is none. -/
theorem Run.hashFind_cases (h : Run fcn calls log s) (key : List UInt8)
    (hkey : key.length < 2 ^ 32) :
    (∃ c ∈ calls, c.key = key ∧ hashFind fcn calls.length s key = .ok (some c.elt)) ∨
      (∀ c ∈ calls, c.key ≠ key) ∧ hashFind fcn calls.length s key = .ok none := by
  rcases h.holds with ⟨hholds, hkeys⟩
  rcases hashFind_spec hholds hkey (by simp : _ ≤ calls.length) with ⟨out, hfind, hsome, hnone⟩
  cases out with
  | none =>
      refine .inr ⟨?_, hfind⟩
      intro c hc
      rw [← hkeys c hc]
      exact hnone rfl _ (List.mem_map_of_mem hc)
  | some a =>
      rcases hsome a rfl with ⟨ha, hkey⟩
      rcases List.mem_map.1 ha with ⟨c, hc, rfl⟩
      exact .inl ⟨c, hc, (hkeys c hc).symm.trans hkey, hfind⟩

/-- A key whose bucket holds nine other items, and one that was not added to that
bucket. -/
theorem hashFind_cases_twenty : ∃ s, Run hashFirst (additions 20) [true, true] s ∧
    hashFind hashFirst 20 s [1, 15] = .ok (some 15) ∧
    hashFind hashFirst 20 s [1, 5] = .ok none := by
  rcases run_twenty with ⟨s, hrun, _⟩
  have hnot : ∀ c ∈ additions 20, c.key ≠ [1, 5] := by decide
  have honly : ∀ c ∈ additions 20, c.key = [1, 15] → c.elt = 15 := by decide
  have hadded : nthAddition 15 ∈ additions 20 := List.mem_map_of_mem (by decide)
  refine ⟨s, hrun, ?_, ?_⟩
  · rcases hrun.hashFind_cases [1, 15] (by decide) with ⟨c, hc, hkey, hfind⟩ | ⟨hno, _⟩
    · rwa [honly c hc hkey] at hfind
    · exact absurd rfl (hno (nthAddition 15) hadded)
  · rcases hrun.hashFind_cases [1, 5] (by decide) with ⟨c, hc, hkey, _⟩ | ⟨_, hfind⟩
    · exact absurd hkey (hnot c hc)
    · exact hfind

end Content

/-! ## Growth -/

/-- How many of the last expansions were ineffective. -/
def streak (log : List Bool) : Nat :=
  (log.reverse.takeWhile id).length

theorem streak_concat (log : List Bool) (ineffective : Bool) :
    streak (log ++ [ineffective]) = if ineffective then streak log + 1 else 0 := by
  cases ineffective with
  | false => simp [streak]
  | true => simp [streak]

theorem one_lt_streak_iff {log : List Bool} : 1 < streak log ↔ [true, true] <:+ log := by
  rw [← List.reverse_prefix, streak]
  rcases log.reverse with _ | ⟨x, _ | ⟨y, rest⟩⟩
  · simp
  · cases x with
    | false => simp
    | true => simp
  · cases x with
    | false => simp
    | true =>
        cases y with
        | false => simp
        | true => simp

/-- What holds of a table with the expansions {lit}`log`. -/
structure Table.Grown (tbl : Table α) (log : List Bool) : Prop where
  budget : tbl.noexpand ≠ 1 → tbl.Budget
  ideal : tbl.idealChainMaxlen.toNat ≤ 10
  numBuckets : tbl.numBuckets.toNat = 32 * 2 ^ log.length
  ineffExpands : tbl.ineffExpands.toNat = streak log
  noexpand : tbl.noexpand = if 1 < streak log then 1 else 0
  earlier : ∀ front, front <+: log → front ≠ log → streak front ≤ 1

theorem grown_made (head : α) : (Table.made head).Grown [] where
  budget _ := budget_made head
  ideal := Nat.zero_le _
  numBuckets := rfl
  ineffExpands := rfl
  noexpand := rfl
  earlier _ hfront hne := absurd (List.prefix_nil.1 hfront) hne

/-- The same for a hash, before the first addition too. -/
def Hash.Grown (s : Hash α) (log : List Bool) : Prop :=
  match s.root with
  | none => log = []
  | some (_, tbl) => tbl.Grown log

theorem Hash.entered_grown {s : Hash α} {log : List Bool} (h : s.Grown log) (a : α) :
    (s.entered a).Grown log := by
  unfold Hash.Grown at h
  unfold entered
  cases hroot : s.root with
  | none =>
      rw [hroot] at h
      subst h
      have hmade := grown_made a
      exact ⟨hmade.budget, hmade.ideal, hmade.numBuckets, hmade.ineffExpands, hmade.noexpand,
        hmade.earlier⟩
  | some root =>
      rw [hroot] at h
      exact ⟨h.budget, h.ideal, h.numBuckets, h.ineffExpands, h.noexpand, h.earlier⟩

/-- An expansion is only made while at most one of the last ones was ineffective. -/
theorem Table.Grown.streak_le {tbl : Table α} {log : List Bool} (h : tbl.Grown log)
    (hnoexpand : tbl.noexpand ≠ 1) : streak log ≤ 1 := by
  by_contra hlong
  rw [h.noexpand, if_pos (Nat.lt_of_not_le hlong)] at hnoexpand
  exact hnoexpand rfl

theorem Table.Grown.doubles {tbl tbl' : Table α} {log : List Bool} (h : tbl.Grown log)
    (hdoubles : tbl.Doubles tbl') :
    tbl'.numBuckets ≠ tbl.numBuckets ∧
      tbl'.ineffExpands.toNat = streak (log ++ [decide tbl'.Ineffective]) ∧
      tbl'.noexpand = if 1 < streak (log ++ [decide tbl'.Ineffective]) then 1 else 0 := by
  have hstreak := h.streak_le hdoubles.allowed
  have hineff : tbl'.ineffExpands.toNat = streak (log ++ [decide tbl'.Ineffective]) := by
    rw [hdoubles.ineffExpands, streak_concat]
    by_cases hbad : tbl'.Ineffective
    · simp only [hbad, if_true, decide_true]
      rw [UInt32.toNat_add, h.ineffExpands, UInt32.toNat_one, Nat.mod_eq_of_lt]
      omega
    · simp [hbad]
  refine ⟨?_, hineff, ?_⟩
  · intro hsame
    have hnum := hdoubles.numBuckets
    rw [hsame, h.numBuckets] at hnum
    have hpos := Nat.two_pow_pos log.length
    omega
  · have hinhibited : 1 < tbl'.ineffExpands ↔ 1 < streak (log ++ [decide tbl'.Ineffective]) := by
      rw [UInt32.lt_iff_toNat_lt, hineff, UInt32.toNat_one]
    rw [hdoubles.noexpand, h.noexpand, if_neg (Nat.not_lt.2 hstreak)]
    simp only [hinhibited]

/-- One addition. -/
theorem Table.Grown.step {tbl tbl' : Table α} {hh hh' : α → Handle α} {order : List α}
    {chain : Nat → List α} {a : α} {log : List Bool} (h : tbl.Grown log)
    (hfiled : Filed hh tbl order chain) (hfew : (order ++ [a]).length < 2 ^ 32)
    (hstep : tbl.Step hh' tbl' (order ++ [a])) :
    tbl'.Grown (log ++
      if tbl'.numBuckets = tbl.numBuckets then [] else [decide tbl'.Ineffective]) := by
  have hbudget := hstep.budget hfiled hfew h.budget
  have hideal := hstep.ideal_le hfiled hfew h.budget h.ideal
  rcases hstep with hkeeps | ⟨hdoubles, _⟩
  · rw [if_pos hkeeps.numBuckets, List.append_nil]
    refine ⟨hbudget, hideal, ?_, ?_, ?_, h.earlier⟩
    · rw [hkeeps.numBuckets, h.numBuckets]
    · rw [hkeeps.ineffExpands, h.ineffExpands]
    · rw [hkeeps.noexpand, h.noexpand]
  · rcases h.doubles hdoubles with ⟨hne, hineff, hnoexpand⟩
    rw [if_neg hne]
    refine ⟨hbudget, hideal, ?_, hineff, hnoexpand, ?_⟩
    · rw [hdoubles.numBuckets, h.numBuckets, List.length_append, List.length_singleton,
        Nat.pow_succ]
      omega
    · intro front hfront hfront_ne
      rcases List.prefix_concat_iff.1 hfront with heq | hprefix
      · exact absurd heq hfront_ne
      · by_cases hlog : front = log
        · rw [hlog]
          exact h.streak_le hdoubles.allowed
        · exact h.earlier front hprefix hlog

section Growth

variable [DecidableEq α] {fcn : List UInt8 → UInt32} {calls : List (Addition α)}
  {log : List Bool} {s s' : Hash α} {c : Addition α}

/-- What an addition does to the buckets of a table that is filled. -/
theorem hashAdd_step (h : s.Holds fcn (calls.map Addition.elt)) (hallowed : c.Allowed calls)
    (hok : hashAdd fcn c.alloc (calls.length + 1) s c.key c.elt = .ok s') :
    ∃ hh chain head tbl', Filed hh (s.entered c.elt) (calls.map Addition.elt) chain ∧
      s'.root = some (head, tbl') ∧
      (s.entered c.elt).Step s'.hh tbl' (calls.map Addition.elt ++ [c.elt]) := by
  rcases hashAdd_entered c.alloc (calls.length + 1) h hallowed.fresh
      hallowed.key_length with
    ⟨hrefused, _⟩ | ⟨head, hh, chain, hordered, _, hfiled, hitems, _, _, _, hadd⟩
  · rw [hrefused] at hok
    cases hok
  · rw [hadd] at hok
    cases hbkt : addToBkt c.alloc (calls.length + 1) (s.entered c.elt) hh
        (placeOf hh (s.entered c.elt).numBuckets c.elt) c.elt with
    | error halt =>
        rw [hbkt] at hok
        cases hok
    | ok out =>
        rw [hbkt] at hok
        cases hok
        refine ⟨hh, chain, head, out.1, hfiled, rfl, ?_⟩
        apply addToBkt_step hfiled hordered.nodup hitems _ hallowed.limit _ hbkt
        · simpa using hallowed.few
        · simp

theorem Run.grown (h : Run fcn calls log s) : s.Grown log := by
  induction h with
  | empty hh => rfl
  | @add calls log s s' c hrun hallowed hok ih =>
      rcases hashAdd_step hrun.holds.1 hallowed hok with
        ⟨hh, chain, head, tbl', hfiled, hroot, hstep⟩
      have hfew : (calls.map Addition.elt ++ [c.elt]).length < 2 ^ 32 := by
        simpa using hallowed.few
      have hgrown' := (Hash.entered_grown ih c.elt).step hfiled hfew hstep
      unfold Hash.Grown Hash.expansions
      rw [hroot, ← Hash.entered_numBuckets s c.elt]
      exact hgrown'

/-- A table whose expansion is not inhibited has at most 19 items a bucket, and the ideal
chain length is never more than ten. -/
theorem Run.load_le (h : Run fcn calls log s) {head : α} {tbl : Table α}
    (hroot : s.root = some (head, tbl)) : tbl.idealChainMaxlen.toNat ≤ 10 ∧
      (tbl.noexpand ≠ 1 → tbl.numItems.toNat ≤ 19 * tbl.numBuckets.toNat) := by
  have hgrown := h.grown
  have hholds := h.holds.1
  unfold Hash.Grown at hgrown
  unfold Hash.Holds at hholds
  rw [hroot] at hgrown hholds
  rcases hholds with ⟨chain, hlinked⟩
  refine ⟨hgrown.ideal, ?_⟩
  intro hnoexpand
  rw [hlinked.items, UInt32.toNat_ofNat', Nat.mod_eq_of_lt hlinked.few]
  exact hlinked.filed.length_le_of_budget hlinked.few (hgrown.budget hnoexpand)

/-- A table of 64 buckets with ten items in one chain and nine in another. -/
theorem load_le_nineteen : ∃ s head tbl, Run hashFirst (additions 19) [true] s ∧
    s.root = some (head, tbl) ∧ tbl.idealChainMaxlen.toNat ≤ 10 ∧
      tbl.numItems.toNat ≤ 19 * tbl.numBuckets.toNat := by
  rcases run_nineteen with ⟨s, _, hrun, hnumbers, _⟩
  rcases Hash.exists_table hnumbers with ⟨head, tbl, hroot, _, _, hnoexpand⟩
  rcases hrun.load_le hroot with ⟨hideal, hload⟩
  refine ⟨s, head, tbl, hrun, hroot, hideal, hload ?_⟩
  rw [hnoexpand]
  decide

/-- Every addition that changes the number of buckets doubles it, and leaves numbers that
say what they are documented to say: the ideal chain length is the number of items divided
by the number of buckets, rounded up; the items that stand beyond it in their chains are
counted; a longer chain has a multiplier, which is its length in ideal lengths. -/
theorem Run.expansion_measured (h : Run fcn calls log s) (hallowed : c.Allowed calls)
    (hok : hashAdd fcn c.alloc (calls.length + 1) s c.key c.elt = .ok s') :
    ∃ head tbl chain, s'.root = some (head, tbl) ∧
      (∀ b, Path (fun a => (s'.hh a).hhNext) (tbl.buckets b).hhHead (chain b)) ∧
      (tbl.numBuckets = s.numBuckets ∨
        tbl.numBuckets.toNat = 2 * s.numBuckets.toNat ∧ Measured tbl chain (calls.length + 1)) := by
  rcases hashAdd_step h.holds.1 hallowed hok with
    ⟨hh, chain, head, tbl', hfiled, hroot, hstep⟩
  have hnum := Hash.entered_numBuckets s c.elt
  rcases hstep with hkeeps | ⟨hdoubles, chain', hfiled', hmeasured⟩
  · have hholds := (Run.add h hallowed hok).holds.1
    unfold Hash.Holds at hholds
    rw [hroot] at hholds
    rcases hholds with ⟨chain', hlinked⟩
    exact ⟨head, tbl', chain', hroot, hlinked.filed.chained.path,
      .inl (hkeeps.numBuckets.trans hnum)⟩
  · refine ⟨head, tbl', chain', hroot, hfiled'.chained.path, .inr ⟨?_, ?_⟩⟩
    · rw [hdoubles.numBuckets, hnum]
    · simpa using hmeasured

/-- The second expansion: from 64 to 128 buckets, with what it measures. -/
theorem expansion_measured_twenty : ∃ s s' head tbl chain,
    Run hashFirst (additions 19) [true] s ∧
    hashAdd hashFirst (nthAddition 19).alloc 20 s (nthAddition 19).key 19 = .ok s' ∧
      s'.root = some (head, tbl) ∧
      (∀ b, Path (fun a => (s'.hh a).hhNext) (tbl.buckets b).hhHead (chain b)) ∧
      tbl.numBuckets.toNat = 2 * s.numBuckets.toNat ∧ Measured tbl chain 20 := by
  rcases run_nineteen with ⟨s, s', hrun, hbefore, hadd, _, hafter⟩
  rcases hrun.expansion_measured (nthAddition_allowed (by decide)) hadd with
    ⟨head, tbl, chain, hroot, hpath, hgrown⟩
  refine ⟨s, s', head, tbl, chain, hrun, hadd, hroot, hpath, ?_⟩
  rcases Hash.exists_table hbefore with ⟨head', tbl', hroot', _, hbuckets', _⟩
  rcases Hash.exists_table hafter with ⟨head'', tbl'', hroot'', _, hbuckets'', _⟩
  rcases hgrown with hkept | hdoubled
  · rw [hroot] at hroot''
    cases hroot''
    have hnum : s.numBuckets = 64 := by simp only [Hash.numBuckets, hroot', hbuckets']
    rw [hbuckets'', hnum] at hkept
    exact absurd hkept (by decide)
  · exact hdoubled

/-- Expansion is inhibited exactly when the last two expansions were ineffective; they were
the first two in succession, and there are no others after them. -/
theorem Run.noexpand_iff (h : Run fcn calls log s) {head : α} {tbl : Table α}
    (hroot : s.root = some (head, tbl)) :
    (tbl.noexpand = 1 ↔ [true, true] <:+ log) ∧
      (∀ front, front <+: log → front ≠ log → ¬[true, true] <:+ front) ∧
      tbl.numBuckets.toNat = 32 * 2 ^ log.length := by
  have hgrown := h.grown
  unfold Hash.Grown at hgrown
  rw [hroot] at hgrown
  refine ⟨?_, ?_, hgrown.numBuckets⟩
  · rw [hgrown.noexpand, ← one_lt_streak_iff]
    by_cases hlong : 1 < streak log
    · simp [hlong]
    · simp [hlong]
  · intro front hfront hne hsuffix
    have hle := hgrown.earlier front hfront hne
    exact absurd (one_lt_streak_iff.2 hsuffix) (Nat.not_lt.2 hle)

/-- Two ineffective expansions in succession. -/
theorem noexpand_iff_twenty : ∃ s head tbl, Run hashFirst (additions 20) [true, true] s ∧
    s.root = some (head, tbl) ∧ tbl.noexpand = 1 ∧
      (∀ front, front <+: [true, true] → front ≠ [true, true] → ¬[true, true] <:+ front) ∧
      tbl.numBuckets.toNat = 32 * 2 ^ 2 := by
  rcases run_twenty with ⟨s, hrun, hnumbers⟩
  rcases Hash.exists_table hnumbers with ⟨head, tbl, hroot, _⟩
  rcases hrun.noexpand_iff hroot with ⟨hiff, hfirst, hbuckets⟩
  exact ⟨s, head, tbl, hrun, hroot, hiff.2 (List.suffix_refl _), hfirst, hbuckets⟩

end Growth

end Uthash
end Clacks
