import Clacks.Foundation.Memory
import Clacks.Foundation.WireFormat
import Mathlib.Algebra.Group.Int.Defs
import Mathlib.Algebra.Group.Nat.Defs

/-!
# Trace messages and their encoding

Model of {lit}`TraceMessage.proto` and of what the two daemons' code relies on in
the functions {lit}`protobuf-c` generates from it.  Those functions are not part of
the repository: they are the fields of {lit}`ProtobufC`, and {lit}`Conforms` says
what their documentation promises.

Main results:

- Theorem {lit}`ProtobufC.Conforms.unpack_short`: a message that lost bytes at its
  end is never unpacked, wherever the cut falls.
- Theorem {lit}`referenceProtobuf_conforms`: the promises can be kept.
-/

namespace Clacks
namespace Trace

open Foundation

/-- {lit}`TraceMessage`.  Strings are pointers and may be NULL; {lit}`has_` flags are
not needed because the scalar fields are required. -/
structure TraceMessage where
  actId : Option CString
  msg : Option CString
  tsOrigin : UInt64
  joinId : Option CString
  flags : Int32
deriving DecidableEq

/-- The identifier of traces that belong to no activity. -/
def nullId : CString where
  bytes := ascii "NULLID"
  nul_free := by decide

/-- {lit}`TRACE_MESSAGE__INIT`. -/
def TraceMessage.init : TraceMessage where
  actId := none
  msg := none
  tsOrigin := 0
  joinId := none
  flags := 0

/-- A required string that is NULL is packed as the empty string. -/
def requiredString (s : Option CString) : CString :=
  s.getD CString.empty

/-- The fields of a message in ascending order; an optional string is present if and
only if its pointer is not NULL. -/
def TraceMessage.wireFields (m : TraceMessage) : List Field :=
  [{ number := 1, value := .bytes (requiredString m.actId).bytes },
    { number := 2, value := .bytes (requiredString m.msg).bytes },
    { number := 3, value := .varint m.tsOrigin.toNat }] ++
  (m.joinId.toList.map fun j => { number := 4, value := .bytes j.bytes }) ++
  [{ number := 5, value := .varint m.flags.toInt64.toUInt64.toNat }]

/-- What a receiver gets: required strings are never NULL. -/
def TraceMessage.received (m : TraceMessage) : TraceMessage :=
  { m with actId := some (requiredString m.actId), msg := some (requiredString m.msg) }

/-- The numbers of the required fields. -/
def requiredFields : List Nat := [1, 2, 3, 5]

/-- The functions generated from {lit}`TraceMessage.proto`. -/
structure ProtobufC where
  pack : TraceMessage → List UInt8
  unpack : List UInt8 → Option TraceMessage

/-- {lit}`trace_message__get_packed_size`: the number of bytes {lit}`pack` writes. -/
def ProtobufC.getPackedSize (pb : ProtobufC) (m : TraceMessage) : Nat :=
  (pb.pack m).length

/-- What is documented of the generated functions. -/
structure ProtobufC.Conforms (pb : ProtobufC) : Prop where
  pack_eq : ∀ m : TraceMessage, pb.pack m = encodeFields m.wireFields
  unpack_pack : ∀ m : TraceMessage, pb.unpack (pb.pack m) = some m.received
  unpack_cutOff : ∀ (fs : List Field) (f : Field) (part : List UInt8),
    CutOff part (encodeField f) → part ≠ [] → pb.unpack (encodeFields fs ++ part) = none
  unpack_missing : ∀ (fs : List Field) (n : Nat), n ∈ requiredFields →
    (∀ f ∈ fs, f.number ≠ n) → pb.unpack (encodeFields fs) = none

/-- The schema ends in a required field, and no other field has its number. -/
theorem TraceMessage.wireFields_eq (m : TraceMessage) : ∃ fs flags,
    m.wireFields = fs ++ [flags] ∧ ∀ f ∈ fs, f.number ≠ 5 := by
  refine ⟨_, _, rfl, ?_⟩
  intro f hf
  simp only [List.mem_append, List.mem_cons, List.not_mem_nil, or_false, List.mem_map,
    Option.mem_toList] at hf
  rcases hf with (rfl | rfl | rfl) | ⟨j, _, rfl⟩
  all_goals simp

/-- A message that lost bytes at its end is never unpacked: the cut falls inside a
field, or all the fields that are left are complete and the last one is missing. -/
theorem ProtobufC.Conforms.unpack_short {pb : ProtobufC} (hpb : pb.Conforms) {m : TraceMessage}
    {part : List UInt8} (h : CutOff part (pb.pack m)) : pb.unpack part = none := by
  rw [hpb.pack_eq] at h
  rcases cutOff_encodeFields h with ⟨before, f, after, part', hfields, rfl, hcut⟩
  by_cases hpart : part' = []
  · subst hpart
    rcases m.wireFields_eq with ⟨fs, flags, hwire, hnumber⟩
    rw [List.append_nil]
    apply hpb.unpack_missing before 5 (by decide)
    intro g hg
    -- The complete fields are among those before the last one.
    have hbefore : before <+: fs := by
      rw [hwire] at hfields
      have hlength := congrArg List.length hfields
      simp only [List.length_append, List.length_cons, List.length_nil] at hlength
      refine List.prefix_of_prefix_length_le ⟨_, hfields.symm⟩ (List.prefix_append fs _) ?_
      omega
    exact hnumber g (hbefore.subset hg)
  · exact hpb.unpack_cutOff before f part' hcut hpart

/-! ## The monotonic clock -/

/-- {lit}`struct timespec` as {lit}`clock_gettime(CLOCK_MONOTONIC, ...)` fills it. -/
structure Timespec where
  tvSec : Nat
  tvNsec : Nat
  tvNsec_lt : tvNsec < 10 ^ 9

/-- {lit}`read_time` of the client and {lit}`get_local_time_ms` of the daemon, which
compute the same. -/
def Timespec.us (time : Timespec) : Int :=
  time.tvSec * 1000000 + time.tvNsec / 1000

/-- The order in which the clock runs. -/
instance : LE Timespec where
  le a b := a.tvSec < b.tvSec ∨ a.tvSec = b.tvSec ∧ a.tvNsec ≤ b.tvNsec

theorem Timespec.us_nonneg (time : Timespec) : 0 ≤ time.us := by
  unfold us
  omega

/-- The conversion truncates and still keeps the order: nanoseconds stay below the
next second. -/
theorem Timespec.us_mono {a b : Timespec} (h : a ≤ b) : a.us ≤ b.us := by
  have hnsec := a.tvNsec_lt
  unfold us
  rcases h with hsec | ⟨hsec, hnsec'⟩
  · omega
  · omega

/-- A result below {lit}`2 ^ 63` survives its way through {lit}`long long` into the
{lit}`uint64` field. -/
theorem toNat_toUInt64_ofInt {us : Int} (hnonneg : 0 ≤ us) (hbound : us < 2 ^ 63) :
    ((Int64.ofInt us).toUInt64.toNat : Int) = us := by
  change ((BitVec.ofInt 64 us).toNat : Int) = us
  rw [BitVec.toNat_ofInt]
  omega

/-! ## An implementation -/

/-- The last string field with a given number. -/
def lastString (fs : List Field) (number : Nat) : Option CString :=
  fs.reverse.findSome? fun f =>
    if f.number = number then
      match f.value with
      | .bytes b => some (CString.ofMemory b)
      | .varint _ => none
    else none

/-- The last integer field with a given number. -/
def lastVarint (fs : List Field) (number : Nat) : Option Nat :=
  fs.reverse.findSome? fun f =>
    if f.number = number then
      match f.value with
      | .bytes _ => none
      | .varint n => some n
    else none

/-- Scans the whole buffer and then looks up each field. -/
def referenceProtobuf : ProtobufC where
  pack m := encodeFields m.wireFields
  unpack buffer := do
    let fs ← scanFields buffer
    let actId ← lastString fs 1
    let msg ← lastString fs 2
    let tsOrigin ← lastVarint fs 3
    let flags ← lastVarint fs 5
    return {
      actId := some actId
      msg := some msg
      tsOrigin := UInt64.ofNat tsOrigin
      joinId := lastString fs 4
      flags := Int32.ofNat flags }

theorem lastString_missing {fs : List Field} {number : Nat} (h : ∀ f ∈ fs, f.number ≠ number) :
    lastString fs number = none := by
  simp only [lastString, List.findSome?_eq_none_iff, List.mem_reverse]
  intro f hf
  rw [if_neg (h f hf)]

theorem lastVarint_missing {fs : List Field} {number : Nat} (h : ∀ f ∈ fs, f.number ≠ number) :
    lastVarint fs number = none := by
  simp only [lastVarint, List.findSome?_eq_none_iff, List.mem_reverse]
  intro f hf
  rw [if_neg (h f hf)]

/-- The low 32 bits of a sign-extended flag word are the flag word. -/
theorem ofNat_toUInt64_toInt64 (flags : Int32) :
    Int32.ofNat flags.toInt64.toUInt64.toNat = flags := by
  have htruncate : (UInt64.ofNat flags.toInt64.toUInt64.toNat).toInt64.toInt32 = flags := by
    rw [UInt64.ofNat_toNat]
    simp
  rwa [UInt64.toInt64_ofNat', Int64.toInt32_ofNat'] at htruncate

/-- The implementation keeps every promise. -/
theorem referenceProtobuf_conforms : referenceProtobuf.Conforms where
  pack_eq _ := rfl
  unpack_pack m := by
    simp only [referenceProtobuf, scanFields_encodeFields]
    cases hjoin : m.joinId <;>
      simp [TraceMessage.wireFields, hjoin, lastString, lastVarint, TraceMessage.received,
        ofNat_toUInt64_toInt64]
  unpack_cutOff fs f part hcut hpart := by
    simp only [referenceProtobuf, scanFields_cutOff fs hcut hpart]
    rfl
  unpack_missing fs n hn hmissing := by
    simp only [referenceProtobuf, scanFields_encodeFields]
    simp only [requiredFields, List.mem_cons, List.not_mem_nil, or_false] at hn
    rcases hn with rfl | rfl | rfl | rfl
    · simp [lastString_missing hmissing]
    · simp [lastString_missing hmissing]
    · simp [lastVarint_missing hmissing]
    · simp [lastVarint_missing hmissing]

end Trace
end Clacks
