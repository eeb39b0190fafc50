import Clacks.Identifier.HashedTags
import Clacks.Identifier.Outcomes

/-!
# The service's tags in memory

The hash table that the service has built in memory while it served its clients, in any
interleaving.  It holds the tag table of the model of the network, and a derived id is
found there with the id of the client that tagged it first.

Main results:

- Theorem {lit}`callable_of_fits`: what the calls need from {lit}`malloc`.
- Theorem {lit}`tags_in_memory`: the hash behind the clients that were served.
-/

namespace Clacks
namespace Identifier

open Foundation Client Uthash

variable {α : Type}

/-! ## The memory behind a list of calls -/

/-- The answers of {lit}`malloc` to the calls of a process: no struct is granted twice and
no 64 GiB, and the calls are fewer than the counters can hold. -/
structure Allocated (answers : List (Grants α)) : Prop where
  few : answers.length < 2 ^ 32
  blocks : (answers.filterMap Grants.block).Nodup
  limit : ∀ g ∈ answers, ∀ n, 2 ^ 36 ≤ n → g.alloc n = false

/-- The calls have all returned and have left {lit}`m`. -/
def TagMemory.Behind [DecidableEq α] (fcn : List UInt8 → UInt32) (turns : Nat) (m : TagMemory α)
    (tagged : List TagCall) : Prop :=
  ∃ (answers : List (Grants α)) (structs : α → TaggedId) (hh : α → Handle α) (replies : List Int),
    answers.length = tagged.length ∧ Allocated answers ∧
      tagRun fcn turns (tagged.zip answers) structs hh = .ok (replies, m)

/-- Calls whose strings fit their fields need nothing more. -/
theorem callable_of_fits {tagged : List TagCall} {answers : List (Grants α)}
    (hfits : ∀ call ∈ tagged, call.Fits) (h : Allocated answers)
    (hlength : answers.length = tagged.length) : Callable (tagged.zip answers) where
  ends c hc := .inr (hfits c.1 (List.of_mem_zip hc).1).derived_le
  derived_length c hc := by
    have hd := (hfits c.1 (List.of_mem_zip hc).1).derived_le
    omega
  few := by
    rw [List.length_zip, hlength, Nat.min_self, ← hlength]
    exact h.few
  blocks := by
    have hanswers : (tagged.zip answers).map Prod.snd = answers :=
      List.map_snd_zip (Nat.le_of_eq hlength)
    have hblocks := h.blocks
    rw [← hanswers, List.filterMap_map] at hblocks
    exact hblocks
  limit c hc := h.limit c.2 (List.of_mem_zip hc).2

theorem TagMemory.Behind.stores [DecidableEq α] {fcn : List UInt8 → UInt32} {turns : Nat}
    {m : TagMemory α} {tagged : List TagCall} (h : m.Behind fcn turns tagged)
    (hfits : ∀ call ∈ tagged, call.Fits) (hturns : tagged.length ≤ turns) :
    ∃ addresses, m.Stores fcn addresses (tagAll tagged) ∧ addresses.length ≤ turns := by
  rcases h with ⟨answers, structs, hh, replies, hlength, hallocated, hrun⟩
  have hcalls : (tagged.zip answers).map Prod.fst = tagged :=
    List.map_fst_zip (Nat.le_of_eq hlength.symm)
  have hcount : (tagged.zip answers).length ≤ turns := by
    rw [List.length_zip, hlength, Nat.min_self]
    exact hturns
  have hstores := tagRun_ok_stores (callable_of_fits hfits hallocated hlength) hcount hrun
  rwa [hcalls] at hstores

/-! ## The memory behind the clients that were served -/

section Served

variable {ι : Type} {lib : Libuuid} {calls : ι → Call} {surrounding : Int → Uuid} {n : Net ι}
  {order : List (ι × Frame)}

/-- In every interleaving, while the arguments fit and the array on the stack terminates
what it receives, the memory behind the clients that were served holds the tags of the
service: a search for a derived id that a served client tagged finds a struct with the id of
the client that was accepted first among those that tag it, and a search for another one
finds nothing. -/
theorem tags_in_memory [DecidableEq ι] [DecidableEq α] (hfits : ∀ i, (calls i).Fits)
    (h : n.AcceptedIn lib calls (Service.start lib surrounding) order)
    (hterminated : ∀ x ∈ order, n.phase x.1 = .served → (calls x.1).Terminated x.2)
    {fcn : List UInt8 → UInt32} {turns : Nat} {m : TagMemory α}
    (hturns : (order.filter fun x => n.phase x.1 = .served).length ≤ turns)
    (hbehind : m.Behind fcn turns
      (tagCalls calls (order.filter fun x => n.phase x.1 = .served))) :
    (∃ addresses, m.allTaggedIds.Holds fcn addresses ∧
      addresses.map m.structs = n.service.tags) ∧
    (∀ y ∈ order, n.phase y.1 = .served → ∀ clId' d, calls y.1 = .tagId clId' d →
      ∃ x clId a, FirstTagger calls order x clId d ∧
        hashFind fcn turns m.allTaggedIds d.bytes = .ok (some a) ∧
        (m.structs a).clId.bytes =
          cstr clId.bytes ++ List.replicate (37 - (cstr clId.bytes).length) 0) ∧
    ∀ d : CString, d.bytes.length < 2 ^ 32 →
      (∀ x ∈ order, n.phase x.1 = .served → ∀ clId d', calls x.1 = .tagId clId d' → d' ≠ d) →
      hashFind fcn turns m.allTaggedIds d.bytes = .ok none := by
  have hends := terminated_of_served hterminated
  have hcallsFit : ∀ call ∈ tagCalls calls (order.filter fun x => n.phase x.1 = .served),
      call.Fits := fun call hcall => (mem_tagCalls hfits hends hcall).1
  have hcount : (tagCalls calls (order.filter fun x => n.phase x.1 = .served)).length ≤ turns :=
    (List.length_filterMap_le _ _).trans hturns
  rcases hbehind.stores hcallsFit hcount with ⟨addresses, hstores, hlength⟩
  refine ⟨⟨addresses, hstores.holds, ?_⟩, ?_, ?_⟩
  · rw [hstores.entries, h.inOrder.service_eq, replay_tags]
  · intro y hy hserved clId' d htag
    rcases exists_firstTagger hy htag with ⟨x, clId, hx⟩
    rcases h.inOrder.firstCall hfits hends hx hy hserved htag with
      ⟨first, hfirst, hfirstFits, hderived, hclId⟩
    have hd : d.bytes.length < 2 ^ 32 := by
      have hle := hfirstFits.derived_le
      rw [hderived] at hle
      omega
    rcases (stores_first_wins hstores hcallsFit hlength hd).1 first hfirst hderived with
      ⟨a, hfind, hfields⟩
    refine ⟨x, clId, a, hx, hfind, ?_⟩
    rw [hfirstFits.entry_fields, hclId] at hfields
    exact congrArg Prod.snd hfields
  · intro d hd hno
    refine (stores_first_wins hstores hcallsFit hlength hd).2 ?_
    intro call hcall
    rcases mem_tagCalls hfits hends hcall with ⟨_, x, hx, clId, d', hcall', hderived⟩
    rcases List.mem_filter.1 hx with ⟨hx, hphase⟩
    rw [hderived]
    intro hsame
    exact hno x hx (of_decide_eq_true hphase) clId d' hcall' (CString.ext hsame)

end Served

/-- What {lit}`malloc` answers to two calls. -/
def twoGrants : List (Grants Nat) :=
  [⟨some 7, fun n => decide (n < 2 ^ 36)⟩, ⟨some 3, fun n => decide (n < 2 ^ 36)⟩]

theorem twoGrants_allocated : Allocated twoGrants where
  few := by decide
  blocks := by simp [twoGrants]
  limit g hg n hn := by
    rcases List.mem_pair.1 hg with rfl | rfl
    · simpa using hn
    · simpa using hn

/-- The order of the two taggers when the one given is accepted first. -/
def taggerOrder (first : Bool) : List (Bool × Frame) :=
  [(first, Frame.zero), (!first, Frame.zero)]

/-- This is enough for the table that is made and for one struct; the second call finds it. -/
theorem taggers_run (first : Bool) : ∃ m : TagMemory Nat,
    tagRun hashJen 2 ((tagCalls twoTaggers (taggerOrder first)).zip twoGrants) unusedStructs
      freshHandles = .ok ([0, -1], m) := by
  cases first with
  | false => exact ⟨_, rfl⟩
  | true => exact ⟨_, rfl⟩

/-- There is no other order of all two. -/
theorem exists_taggerOrder {order : List (Bool × Frame)} (hnodup : (order.map Prod.fst).Nodup)
    (heveryone : ∀ i, i ∈ order.map Prod.fst) (hframes : ∀ x ∈ order, x.2 = Frame.zero) :
    ∃ first, order = taggerOrder first := by
  have hlength := hnodup.length_le_card
  rw [List.length_map, Fintype.card_bool] at hlength
  rcases order with _ | ⟨⟨i, frame⟩, _ | ⟨⟨j, frame'⟩, rest⟩⟩
  · exact absurd (heveryone true) List.not_mem_nil
  · have hone : (!i) = i := by simpa using heveryone !i
    exact absurd hone (Bool.not_ne_self i)
  · have hrest : rest = [] := by
      rw [List.length_cons, List.length_cons] at hlength
      exact List.length_eq_zero_iff.1 (by omega)
    subst hrest
    have hne : i ≠ j := by simpa using hnodup
    have hi : frame = Frame.zero := hframes (i, frame) (by simp)
    have hj : frame' = Frame.zero := hframes (j, frame') (by simp)
    subst hi hj
    exact ⟨i, by rw [taggerOrder, Bool.eq_not_of_ne hne.symm]⟩

/-- When both have returned, the derived id is found in memory with the id of the client that
was accepted first. -/
theorem tags_in_memory_two : ∃ (n : Net Bool) (order : List (Bool × Frame)) (m : TagMemory Nat)
    (x : Bool × Frame) (clId : Buffer 37) (a : Nat),
    n.AcceptedIn timeLibuuid twoTaggers startedService order ∧
    m.Behind hashJen 2 (tagCalls twoTaggers (order.filter fun x => n.phase x.1 = .served)) ∧
    (∃ addresses, m.allTaggedIds.Holds hashJen addresses ∧
      addresses.map m.structs = n.service.tags) ∧
    FirstTagger twoTaggers order x clId exampleName ∧
    hashFind hashJen 2 m.allTaggedIds exampleName.bytes = .ok (some a) ∧
    (m.structs a).clId.bytes =
      cstr clId.bytes ++ List.replicate (37 - (cstr clId.bytes).length) 0 := by
  rcases exists_complete timeLibuuid twoTaggers startedService Frame.zero with
    ⟨n, order, horder, hcomplete, hframes⟩
  rcases exists_taggerOrder hcomplete.nodup hcomplete.everyone hframes with ⟨first, rfl⟩
  have hterminated := twoTaggers_terminated hframes n
  have hserved : ((taggerOrder first).filter fun x => n.phase x.1 = .served) =
      taggerOrder first := by
    rw [List.filter_eq_self]
    exact fun x _ => decide_eq_true (hcomplete.served x.1)
  rcases taggers_run first with ⟨m, hrun⟩
  have hbehind : m.Behind hashJen 2
      (tagCalls twoTaggers ((taggerOrder first).filter fun x => n.phase x.1 = .served)) := by
    rw [hserved]
    refine ⟨twoGrants, unusedStructs, freshHandles, [0, -1], ?_, twoGrants_allocated, hrun⟩
    cases first with
    | false => rfl
    | true => rfl
  have hturns : ((taggerOrder first).filter fun x => n.phase x.1 = .served).length ≤ 2 := by
    rw [hserved]
    exact Nat.le_refl 2
  rcases twoTaggers_tag first with ⟨clId', htag⟩
  rcases tags_in_memory twoTaggers_fit horder hterminated hturns hbehind with
    ⟨haddresses, hfound, _⟩
  rcases hfound (first, Frame.zero) List.mem_cons_self (hcomplete.served first) clId' exampleName
    htag with ⟨x, clId, a, hx, hfind, hfield⟩
  exact ⟨n, taggerOrder first, m, x, clId, a, horder, hbehind, haddresses, hx, hfind, hfield⟩

end Identifier
end Clacks
