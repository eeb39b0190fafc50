import Clacks.Identifier.Completion
import Clacks.Identifier.TagHistory
import Clacks.Identifier.Tagging

/-!
# What the clients get

The ids that concurrent clients receive and the tags that they store, from the order of
service.

Main results:

- Theorem {lit}`received_ids`: which id each client receives; no two receive the same.
- Theorem {lit}`tags_first_wins`: which id a derived id stands for.
-/

namespace Clacks
namespace Identifier

open Foundation Program LockStep Client

variable {ι : Type}

/-! ## The ids that are received -/

/-- The call asks for an id. -/
def Call.isNewId : Call → Bool
  | newId _ => true
  | tagId _ _ => false

section Ids

variable {lib : Libuuid} {calls : ι → Call} {surrounding : Int → Uuid} {n : Net ι}
  {order : List (ι × Frame)}

/-- The pool after some calls has been drawn from once for each that asked for an id. -/
theorem replay_pool (lib : Libuuid) (calls : ι → Call) (surrounding : Int → Uuid)
    (order : List (ι × Frame)) :
    (replay lib calls (Service.start lib surrounding) order).pool.At lib
      (order.countP fun x => (calls x.1).isNewId) := by
  induction order using List.reverseRecOn with
  | nil => exact updateUuidPool_at_zero lib rfl rfl
  | append_singleton order x ih =>
      rw [replay_concat, List.countP_append, List.countP_singleton]
      cases hcall : calls x.1 with
      | newId buf => exact ih.draw.2
      | tagId clId derrived => exact ih

theorem drawIndex_lt_of_le {k m : Nat} (h : k ≤ m) : drawIndex k < 128 * (m / 128) + 128 := by
  unfold drawIndex
  omega

/-- Whoever has received an id was taken, and the id is that of the next draw after those
of the clients before it. -/
theorem Net.InOrder.received (h : n.InOrder lib calls (Service.start lib surrounding) order)
    {i : ι} {id : List UInt8} (hcall : (calls i).isNewId = true)
    (hid : .got .client id ∈ (n.link i).history) :
    ∃ before frame after, order = before ++ (i, frame) :: after ∧
      id = (lib.unparse (lib.generateTimeSafe
        (drawIndex (before.countP fun x => (calls x.1).isNewId)))).bytes := by
  have htaken : (n.phase i).Taken := by
    by_contra hnot
    exact (h.quiet i hnot).2.2 id hid
  rw [← h.taken i, List.mem_map] at htaken
  rcases htaken with ⟨⟨j, frame⟩, hmem, rfl⟩
  rcases List.append_of_mem hmem with ⟨before, after, hsplit⟩
  refine ⟨before, frame, after, hsplit, ?_⟩
  have hsync := h.talking before j frame after hsplit
  rcases hsync.got_allowed hid with ⟨t, ht, hsender, sent, hallowed, hsent⟩
  cases hcall' : calls j with
  | tagId clId derrived => simp [hcall', Call.isNewId] at hcall
  | newId buf =>
      rw [hcall'] at ht
      simp only [Call.dialogue, List.mem_cons, List.not_mem_nil, or_false] at ht
      rcases ht with rfl | rfl
      · simp [Side.other] at hsender
      · have hlength : sent.length ≤ 1024 := by
          rw [hallowed, Buffer.length_eq]
          decide
        rw [hsent, List.take_of_length_le hlength, hallowed,
          (replay_pool lib calls surrounding before).draw.1]

/-- No client before the end of the order has drawn more than the service. -/
theorem Net.InOrder.draws_le (h : n.InOrder lib calls (Service.start lib surrounding) order)
    {before after : List (ι × Frame)} {x : ι × Frame} (hsplit : order = before ++ x :: after) :
    ∃ m, n.service.pool.At lib m ∧ before.countP (fun x => (calls x.1).isNewId) ≤ m := by
  by_cases hidle : ∀ i, n.phase i ≠ .accepted
  · rw [h.idle hidle]
    refine ⟨_, replay_pool lib calls surrounding order, ?_⟩
    rw [hsplit]
    exact (List.sublist_append_left _ _).countP_le
  · simp only [not_forall, not_not] at hidle
    rcases hidle with ⟨i, hphase⟩
    rcases h.busy i hphase with ⟨front, frame, horder, hservice⟩
    rw [hservice]
    refine ⟨_, replay_pool lib calls surrounding front, ?_⟩
    have hprefix : before <+: front := by
      have hwhole : before <+: front ++ [(i, frame)] := by
        rw [← horder, hsplit]
        exact List.prefix_append _ _
      rcases List.prefix_concat_iff.1 hwhole with heq | hprefix
      · have hlength := congrArg List.length (horder.symm.trans hsplit)
        rw [heq] at hlength
        simp only [List.length_append, List.length_cons] at hlength
        omega
      · exact hprefix
    exact hprefix.sublist.countP_le

/-- The later of two members of a list has more before it. -/
theorem countP_lt_of_split {α : Type} {p : α → Bool} {xs before before' after after' : List α}
    {x x' : α} (h : xs = before ++ x :: after) (h' : xs = before' ++ x' :: after') (hx : p x = true)
    (hlength : before.length < before'.length) : before.countP p < before'.countP p := by
  have hfront : before ++ [x] <+: xs := ⟨after, by simp [h]⟩
  have hfront' : before' <+: xs := ⟨x' :: after', h'.symm⟩
  have hprefix : before ++ [x] <+: before' :=
    List.prefix_of_prefix_length_le hfront hfront' (by simpa [Nat.succ_le_iff] using hlength)
  have hcount := hprefix.sublist.countP_le (p := p)
  rw [List.countP_append, List.countP_singleton, if_pos hx] at hcount
  exact hcount

/-- Two clients that received the same id are one: equal texts come from one draw, and a
draw belongs to one position in the order. -/
theorem Net.InOrder.received_injective
    (h : n.InOrder lib calls (Service.start lib surrounding) order) (hlib : lib.Conforms)
    (hfresh : lib.FreshUpTo n.service.pool.drawn) {i j : ι} {id : List UInt8}
    (hi : (calls i).isNewId = true) (hj : (calls j).isNewId = true)
    (hidi : .got .client id ∈ (n.link i).history) (hidj : .got .client id ∈ (n.link j).history) :
    i = j := by
  rcases h.received hi hidi with ⟨before, frame, after, hsplit, hdraw⟩
  rcases h.received hj hidj with ⟨before', frame', after', hsplit', hdraw'⟩
  have hcounts : before.countP (fun x => (calls x.1).isNewId) =
      before'.countP fun x => (calls x.1).isNewId := by
    have hbuffer := Buffer.ext (hdraw.symm.trans hdraw')
    rcases h.draws_le hsplit with ⟨m, hat, hle⟩
    rcases h.draws_le hsplit' with ⟨m', hat', hle'⟩
    apply drawIndex_involutive.injective
    apply hfresh
    · rw [Set.mem_Iio, hat.drawn_eq]
      exact drawIndex_lt_of_le hle
    · rw [Set.mem_Iio, hat'.drawn_eq]
      exact drawIndex_lt_of_le hle'
    · exact hlib.unparse_injective hbuffer
  rcases Nat.lt_trichotomy before.length before'.length with hlt | heq | hlt
  · have hless := countP_lt_of_split hsplit hsplit' (p := fun x => (calls x.1).isNewId) hi hlt
    omega
  · have hsame := List.append_inj (hsplit.symm.trans hsplit') heq
    have hhead := (List.cons.inj hsame.2).1
    exact congrArg Prod.fst hhead
  · have hless := countP_lt_of_split hsplit' hsplit (p := fun x => (calls x.1).isNewId) hj hlt
    omega

/-- In every interleaving the ids that clients have received are the outputs of the
generator that belong to the positions of the clients among those that asked for one, in
the order in which they were accepted; and no two clients have received the same id unless
the library repeats itself. -/
theorem received_ids [DecidableEq ι]
    (h : n.AcceptedIn lib calls (Service.start lib surrounding) order) :
    (∀ i id, (calls i).isNewId = true → .got .client id ∈ (n.link i).history →
      ∃ before frame after, order = before ++ (i, frame) :: after ∧
        id = (lib.unparse (lib.generateTimeSafe
          (drawIndex (before.countP fun x => (calls x.1).isNewId)))).bytes) ∧
    (lib.Conforms → lib.FreshUpTo n.service.pool.drawn →
      ∀ i j id, (calls i).isNewId = true → (calls j).isNewId = true →
        .got .client id ∈ (n.link i).history → .got .client id ∈ (n.link j).history → i = j) := by
  constructor
  · intro i id hcall hid
    exact h.inOrder.received hcall hid
  · intro hlib hfresh i j id hi hj hidi hidj
    exact h.inOrder.received_injective hlib hfresh hi hj hidi hidj

end Ids

/-- Two clients that both ask for an id. -/
def twoGets : Bool → Call := fun _ => .newId (Buffer.fill 1024 0)

/-- The service that the examples start. -/
def startedService : Service :=
  Service.start timeLibuuid fun _ => Buffer.fill 16 0

/-- A client that was served in full has received its id. -/
theorem Net.Complete.received {lib : Libuuid} {calls : ι → Call} {start : Service} {n : Net ι}
    {order : List (ι × Frame)} (h : n.Complete lib calls start order) {i : ι}
    (hcall : (calls i).isNewId = true) : ∃ id, .got .client id ∈ (n.link i).history := by
  rcases List.mem_map.1 (h.everyone i) with ⟨⟨j, frame⟩, hmem, rfl⟩
  rcases List.append_of_mem hmem with ⟨before, after, hsplit⟩
  rw [h.history before j frame after hsplit]
  cases hcall' : calls j with
  | newId buf => exact ⟨_, .tail _ (.tail _ (.tail _ (.head _)))⟩
  | tagId clId d => simp [hcall', Call.isNewId] at hcall

/-- When both have returned they have different ids, and the client that was accepted first
has the first one. -/
theorem received_ids_two : ∃ (n : Net Bool) (order : List (Bool × Frame)) (id id' : List UInt8),
    n.AcceptedIn timeLibuuid twoGets startedService order ∧
    .got .client id ∈ (n.link false).history ∧ .got .client id' ∈ (n.link true).history ∧
    id ≠ id' ∧ ∃ before frame after, order = before ++ (false, frame) :: after ∧
      id = (timeLibuuid.unparse (timeLibuuid.generateTimeSafe
        (drawIndex (before.countP fun x => (twoGets x.1).isNewId)))).bytes := by
  rcases exists_complete timeLibuuid twoGets startedService Frame.zero with
    ⟨n, order, horder, hcomplete, _⟩
  rcases hcomplete.received (i := false) rfl with ⟨id, hid⟩
  rcases hcomplete.received (i := true) rfl with ⟨id', hid'⟩
  have hfresh : timeLibuuid.FreshUpTo n.service.pool.drawn := by
    have hpool := replay_pool timeLibuuid twoGets (fun _ => Buffer.fill 16 0) order
    have hlength := hcomplete.nodup.length_le_card
    rw [List.length_map, Fintype.card_bool] at hlength
    have hdraws := hlength.trans' (List.countP_le_length (p := fun x => (twoGets x.1).isNewId))
    rw [hcomplete.service, startedService, hpool.drawn_eq]
    exact timeLibuuid_freshUpTo.mono (by omega)
  rcases received_ids horder with ⟨hposition, hdistinct⟩
  have hdiffer := hdistinct timeLibuuid_conforms hfresh
  refine ⟨n, order, id, id', horder, hid, hid', ?_, hposition false id rfl hid⟩
  rintro rfl
  exact Bool.noConfusion (hdiffer false true id rfl rfl hid hid')

/-! ## The tags that are stored -/

/-- The {lit}`tag_id` call that the service makes for a call that meets the memory
{lit}`frame`. -/
def Call.tagCall (frame : Frame) : Call → Option TagCall
  | newId _ => none
  | tagId clId derrived =>
      some ⟨clId.bytes, (frame.derrived.store (Chunk.front 128 derrived.bytes)).bytes ++
        frame.aboveDerrived, frame.heap⟩

section Tags

variable {lib : Libuuid} {calls : ι → Call} {surrounding : Int → Uuid} {n : Net ι}
  {order : List (ι × Frame)}

/-- All of them, in order. -/
def tagCalls (calls : ι → Call) (order : List (ι × Frame)) : List TagCall :=
  order.filterMap fun x => (calls x.1).tagCall x.2

/-- The table after some calls. -/
theorem replay_tags (lib : Libuuid) (calls : ι → Call) (surrounding : Int → Uuid)
    (order : List (ι × Frame)) :
    (replay lib calls (Service.start lib surrounding) order).tags =
      tagAll (tagCalls calls order) := by
  induction order using List.reverseRecOn with
  | nil => rfl
  | append_singleton order x ih =>
      rw [replay_concat, tagCalls, List.filterMap_append]
      cases hcall : calls x.1 with
      | newId buf => simpa [Call.outcome, Call.tagCall, tagCalls, hcall] using ih
      | tagId clId derrived =>
          have hone : [x].filterMap (fun x => (calls x.1).tagCall x.2) =
              [⟨clId.bytes, (x.2.derrived.store (Chunk.front 128 derrived.bytes)).bytes ++
                x.2.aboveDerrived, x.2.heap⟩] := by
            simp [hcall, Call.tagCall]
          rw [hone, tagAll_append]
          simp only [Call.outcome, ih]
          rfl

/-- The arguments of the call fit the fields of an entry. -/
def Call.Fits : Call → Prop
  | newId _ => True
  | tagId clId derrived => (cstr clId.bytes).length ≤ 36 ∧ derrived.bytes.length ≤ 127

/-- The array that receives the derived id of the call ends it with a NUL byte. -/
def Call.Terminated (frame : Frame) : Call → Prop
  | newId _ => True
  | tagId _ derrived => frame.derrived.bytes[derrived.bytes.length]? = some 0

theorem Call.tagCall_fits {call : Call} {frame : Frame} {clId : Buffer 37} {d : CString}
    (hcall : call = .tagId clId d) (hfits : call.Fits) (hterminated : call.Terminated frame) :
    ∃ c, call.tagCall frame = some c ∧ c.Fits ∧ c.derived = d.bytes ∧
      c.clId = clId.bytes := by
  subst hcall
  rcases hfits with ⟨hclId, hd⟩
  have hderived : cstr ((frame.derrived.store (Chunk.front 128 d.bytes)).bytes ++
      frame.aboveDerrived) = d.bytes := by
    have hn : d.bytes.length < frame.derrived.bytes.length := by
      rw [frame.derrived.length_eq]
      omega
    rw [cstr_received frame d.nul_free (by omega),
      (cstr_drop_append_eq_nil_iff hn).2 hterminated, List.append_nil]
  refine ⟨_, rfl, ⟨hclId, ?_⟩, hderived, rfl⟩
  rw [TagCall.derived, hderived]
  exact hd

/-- Every one of the calls is made for a client that tags. -/
theorem mem_tagCalls (hfits : ∀ i, (calls i).Fits)
    (hterminated : ∀ x ∈ order, (calls x.1).Terminated x.2) {e : TagCall}
    (he : e ∈ tagCalls calls order) : e.Fits ∧ ∃ x ∈ order, ∃ clId d,
      calls x.1 = .tagId clId d ∧ e.derived = d.bytes := by
  rcases List.mem_filterMap.1 he with ⟨x, hx, he⟩
  cases hcall : calls x.1 with
  | newId buf => simp [hcall, Call.tagCall] at he
  | tagId clId d =>
      rcases Call.tagCall_fits hcall (hfits x.1) (hterminated x hx) with ⟨e', he', hfit, hd, _⟩
      rw [he] at he'
      cases he'
      exact ⟨hfit, x, hx, clId, d, hcall, hd⟩

/-- The first of the clients that tag a derived id makes the first call for it. -/
theorem exists_call_of_first_tagger (hfits : ∀ i, (calls i).Fits)
    {before after : List (ι × Frame)} {x : ι × Frame} {clId : Buffer 37} {d : CString}
    (hterminated : ∀ y ∈ before ++ x :: after, (calls y.1).Terminated y.2)
    (hcall : calls x.1 = .tagId clId d)
    (hnew : ∀ y ∈ before, ∀ clId' d', calls y.1 = .tagId clId' d' → d' ≠ d) :
    ∃ c, FirstCall (tagCalls calls (before ++ x :: after)) c ∧ c.Fits ∧ c.derived = d.bytes ∧
      c.clId = clId.bytes := by
  rcases Call.tagCall_fits hcall (hfits x.1) (hterminated x (by simp)) with
    ⟨c, hc, hcfits, hderived, hclId⟩
  refine ⟨c, ⟨tagCalls calls before, tagCalls calls after, ?_, ?_⟩, hcfits, hderived, hclId⟩
  · rw [tagCalls, List.filterMap_append]
    congr 1
    exact List.filterMap_cons_some hc
  · intro e he
    rcases mem_tagCalls hfits (fun y hy => hterminated y (List.mem_append_left _ hy)) he with
      ⟨_, y, hy, clId', d', hcall', hd'⟩
    rw [hd', hderived]
    intro hsame
    exact hnew y hy clId' d' hcall' (CString.ext hsame)

/-- What the served clients send is terminated. -/
theorem terminated_of_served
    (h : ∀ x ∈ order, n.phase x.1 = .served → (calls x.1).Terminated x.2) :
    ∀ x ∈ order.filter fun x => n.phase x.1 = .served, (calls x.1).Terminated x.2 := by
  intro x hx
  rcases List.mem_filter.1 hx with ⟨hx, hphase⟩
  exact h x hx (of_decide_eq_true hphase)

/-- Of the clients in {lit}`order` that tag {lit}`d` the first is {lit}`x`, with the id
{lit}`clId`. -/
def FirstTagger (calls : ι → Call) (order : List (ι × Frame)) (x : ι × Frame) (clId : Buffer 37)
    (d : CString) : Prop :=
  calls x.1 = .tagId clId d ∧ ∃ before after, order = before ++ x :: after ∧
    ∀ y ∈ before, ∀ clId' d', calls y.1 = .tagId clId' d' → d' ≠ d

theorem exists_firstTagger {y : ι × Frame} (hy : y ∈ order) {clId : Buffer 37} {d : CString}
    (htag : calls y.1 = .tagId clId d) : ∃ x clId', FirstTagger calls order x clId' d := by
  induction order with
  | nil => exact absurd hy List.not_mem_nil
  | cons z order ih =>
      by_cases hz : ∃ clId', calls z.1 = .tagId clId' d
      · rcases hz with ⟨clId', hz⟩
        exact ⟨z, clId', hz, [], order, rfl, fun y hy => absurd hy List.not_mem_nil⟩
      · have hrest : y ∈ order := by
          rcases List.mem_cons.1 hy with rfl | hy
          · exact absurd ⟨clId, htag⟩ hz
          · exact hy
        rcases ih hrest with ⟨x, clId', hx, before, after, rfl, hfirst⟩
        refine ⟨x, clId', hx, z :: before, after, rfl, ?_⟩
        intro w hw clId'' d' hcall hsame
        rcases List.mem_cons.1 hw with rfl | hw
        · exact hz ⟨clId'', hsame ▸ hcall⟩
        · exact hfirst w hw clId'' d' hcall hsame

/-- When a client that tags {lit}`d` was served, so was the first that does: its call is the
first for {lit}`d` that the service has made. -/
theorem Net.InOrder.firstCall (h : n.InOrder lib calls (Service.start lib surrounding) order)
    (hfits : ∀ i, (calls i).Fits)
    (hends : ∀ y ∈ order.filter fun y => n.phase y.1 = .served, (calls y.1).Terminated y.2)
    {x y : ι × Frame} {clId clId' : Buffer 37} {d : CString}
    (hx : FirstTagger calls order x clId d) (hy : y ∈ order) (hserved : n.phase y.1 = .served)
    (htag : calls y.1 = .tagId clId' d) :
    ∃ c, FirstCall (tagCalls calls (order.filter fun y => n.phase y.1 = .served)) c ∧ c.Fits ∧
      c.derived = d.bytes ∧ c.clId = clId.bytes := by
  rcases hx with ⟨hcall, before, after, hsplit, hfirst⟩
  have hphase : n.phase x.1 = .served := by
    rw [hsplit, List.mem_append, List.mem_cons] at hy
    rcases hy with hy | rfl | hy
    · exact absurd rfl (hfirst y hy clId' d htag)
    · exact hserved
    · exact h.served_of_later hsplit hy
  have hfilter : (order.filter fun y => n.phase y.1 = .served) =
      (before.filter fun y => n.phase y.1 = .served) ++
        x :: after.filter fun y => n.phase y.1 = .served := by
    rw [hsplit, List.filter_append, List.filter_cons_of_pos (by simpa using hphase)]
  rw [hfilter] at hends ⊢
  apply exists_call_of_first_tagger hfits hends hcall
  intro z hz
  exact hfirst z (List.mem_filter.1 hz).1

/-- In every interleaving, while the arguments fit and the array on the stack terminates
what it receives, every derived id that was tagged stands for one id, that of the client
that was accepted first among those that tag it. -/
theorem tags_first_wins [DecidableEq ι] (hfits : ∀ i, (calls i).Fits)
    (h : n.AcceptedIn lib calls (Service.start lib surrounding) order)
    (hterminated : ∀ x ∈ order, n.phase x.1 = .served → (calls x.1).Terminated x.2)
    {y : ι × Frame} (hy : y ∈ order) (hserved : n.phase y.1 = .served) {clId' : Buffer 37}
    {d : CString} (htag : calls y.1 = .tagId clId' d) :
    ∃ x clId t, FirstTagger calls order x clId d ∧
      n.service.tags.filter (·.key = d.bytes) = [t] ∧
      t.clId.bytes = cstr clId.bytes ++ List.replicate (37 - (cstr clId.bytes).length) 0 := by
  have hends := terminated_of_served hterminated
  rcases exists_firstTagger hy htag with ⟨x, clId, hx⟩
  rcases h.inOrder.firstCall hfits hends hx hy hserved htag with
    ⟨c, hfirst, hcfits, hderived, hclId⟩
  have hmap := tagAll_holds fun e he => (mem_tagCalls hfits hends he).1
  rcases hmap.exists_entry (firstWrites_of_firstCall hfirst) with ⟨t, ht, hfields⟩
  refine ⟨x, clId, t, hx, ?_, ?_⟩
  · rw [h.inOrder.service_eq, replay_tags, ← hderived]
    exact ht
  · rw [hcfits.entry_fields, hclId] at hfields
    exact congrArg Prod.snd hfields

end Tags

/-- Two clients that tag one derived id with different ids. -/
def twoTaggers : Bool → Call
  | false => .tagId exampleId exampleName
  | true => .tagId (timeLibuuid.unparse (timeUuid 1)) exampleName

theorem twoTaggers_fit : ∀ i, (twoTaggers i).Fits := by
  have hlength : exampleName.bytes.length ≤ 127 := by decide
  have htext : ∀ k, (cstr (timeLibuuid.unparse (timeUuid k)).bytes).length ≤ 36 := by
    intro k
    have hbytes : (timeLibuuid.unparse (timeUuid k)).bytes =
        (uuidText (timeUuid k)).bytes ++ 0 :: [] := rfl
    have hlength := Buffer.length_eq (timeLibuuid.unparse (timeUuid k))
    rw [hbytes, List.length_append, List.length_singleton] at hlength
    rw [hbytes, cstr_append_nul (uuidText (timeUuid k)).nul_free]
    omega
  intro i
  cases i with
  | false => exact ⟨htext 0, hlength⟩
  | true => exact ⟨htext 1, hlength⟩

theorem twoTaggers_tag (i : Bool) : ∃ clId, twoTaggers i = .tagId clId exampleName := by
  cases i with
  | false => exact ⟨_, rfl⟩
  | true => exact ⟨_, rfl⟩

theorem twoTaggers_terminated {order : List (Bool × Frame)} (h : ∀ x ∈ order, x.2 = Frame.zero)
    (n : Net Bool) : ∀ x ∈ order, n.phase x.1 = .served → (twoTaggers x.1).Terminated x.2 := by
  have hterminated : Frame.zero.derrived.bytes[exampleName.bytes.length]? = some 0 := by decide
  intro x hx _
  rw [h x hx]
  cases x.1 with
  | false => exact hterminated
  | true => exact hterminated

/-- When both have returned, the derived id stands for the id of the client that was
accepted first. -/
theorem tags_first_wins_two : ∃ (n : Net Bool) (order : List (Bool × Frame)) (x : Bool × Frame)
    (clId : Buffer 37) (t : TaggedId),
    n.AcceptedIn timeLibuuid twoTaggers startedService order ∧ (∀ i, n.phase i = .served) ∧
    FirstTagger twoTaggers order x clId exampleName ∧
    n.service.tags.filter (·.key = exampleName.bytes) = [t] ∧
    t.clId.bytes = cstr clId.bytes ++ List.replicate (37 - (cstr clId.bytes).length) 0 := by
  rcases exists_complete timeLibuuid twoTaggers startedService Frame.zero with
    ⟨n, order, horder, hcomplete, hframes⟩
  have hterminated := twoTaggers_terminated hframes n
  rcases List.mem_map.1 (hcomplete.everyone true) with ⟨y, hy, _⟩
  rcases twoTaggers_tag y.1 with ⟨clId', htag⟩
  rcases tags_first_wins twoTaggers_fit horder hterminated hy (hcomplete.served y.1) htag with
    ⟨x, clId, t, hx, ht, hfield⟩
  exact ⟨n, order, x, clId, t, horder, hcomplete.served, hx, ht, hfield⟩

end Identifier
end Clacks
