import FastDht.Client.RequestRoundTrip

/-! # The buffers of the requests

Every function of the client packs its request into an array on its stack, whose size
it writes down as a sum of its own. `fdht_batch_set_ex` adds the lengths up in an
`int` and allocates what does not fit; a sum that has wrapped around is too small. -/
namespace FastDht
open Lib

/-- `sizeof(buff)` in `fdht_client_set`. -/
def clientSetBuff : Nat := sizeofHeader + fdhtMaxFullKeyLen + 16 + 1024

/-- `sizeof(buff)` in `fdht_batch_set_ex`. -/
def batchSetBuff : Nat :=
  sizeofHeader + fdhtMaxFullKeyLen + (8 + fdhtMaxSubKeyLen) * fdhtMaxKeyCountPerReq + 32 * 1024

def batchSetLen (o : FDHTObjectInfo) (keyList : List (FDHTSubKey × Bytes)) : Nat :=
  sizeofHeader + (packBodyValues o keyList).length

namespace ClientCall

def accepted (c : ClientCall) : Bool :=
  match c with
  | batchSet o keyList _ => !badKeyCount keyList.length && (calcObjectHashCode o).toBool
  | batchGet o keyList _ | batchDelete o keyList =>
    !badKeyCount keyList.length && (calcObjectHashCode o).toBool
  | c => c.keyHashCode.toBool

/-- The request is packed. `fdht_client_set` and `fdht_client_delete`, which the sync thread
calls as well, check nothing. -/
def packed : ClientCall → Bool
  | set _ _ _ | delete _ => true
  | c => c.accepted

/-- The size of the buffer, once the checks have passed. `pkg_total_len` is compared
with a `size_t`, so a negative one is handed to `malloc`, which refuses it. -/
def bufferSize : ClientCall → Option Nat
  | get _ _ | delete _ => some (sizeofHeader + fdhtMaxFullKeyLen + 16)
  | set _ _ _ => some clientSetBuff
  | inc _ _ _ => some (fdhtMaxFullKeyLen + 32)
  | batchSet o keyList _ =>
    let pkgTotalLen := toInt32 (batchSetLen o keyList)
    if pkgTotalLen < 0 then none else some (max batchSetBuff pkgTotalLen.toNat)
  | batchGet _ _ _ => some (sizeofHeader + fdhtMaxFullKeyLen +
      (4 + fdhtMaxSubKeyLen) * fdhtMaxKeyCountPerReq + 32 * 1024)
  | batchDelete _ _ => some (sizeofHeader + fdhtMaxFullKeyLen + 8 +
      (5 + fdhtMaxSubKeyLen) * fdhtMaxKeyCountPerReq)
  | getSubKeys _ => some (sizeofHeader + fdhtMaxFullKeyLen)

/-- How much of the buffer is written. `fdht_client_set` sends a value that does not
fit from where it is. -/
def packedLen : ClientCall → Nat
  | set k value _ =>
    let head := sizeofHeader + (16 + k.bytes)
    if head + value.length ≤ clientSetBuff then head + value.length else head
  | c => sizeofHeader + c.body.length

/-- A call that packs a request stays inside its buffer. -/
def InBuffer (c : ClientCall) : Prop :=
  c.packed = true → ∀ size, c.bufferSize = some size → c.packedLen ≤ size

/-- What the lengths of the arguments have to satisfy for that. -/
def Fits : ClientCall → Prop
  | inc k _ _ => k.bytes ≤ 319
  | batchSet o keyList _ => batchSetLen o keyList < 2 ^ 31 ∨ toInt32 (batchSetLen o keyList) < 0
  | _ => True

end ClientCall

theorem packBodyKeys_le {o : FDHTObjectInfo} {keyList : List FDHTSubKey} {b : Bool}
    (h : (!badKeyCount keyList.length && b) = true) : (packBodyKeys o keyList).length ≤ 17100 := by
  simp only [badKeyCount, Bool.and_eq_true, Bool.not_eq_true', Bool.or_eq_false_iff,
    decide_eq_false_iff_not] at h
  exact packBodyKeys_length_le o (not_lt.mp h.1.2)

theorem batchSet_inBuffer_iff (o : FDHTObjectInfo) (keyList : List (FDHTSubKey × Bytes))
    (expires : Int) :
    (∀ size, (ClientCall.batchSet o keyList expires).bufferSize = some size →
      batchSetLen o keyList ≤ size) ↔
    batchSetLen o keyList ≤ batchSetBuff ∨ (ClientCall.batchSet o keyList expires).Fits := by
  obtain ⟨n, hn⟩ : ∃ n, n = batchSetLen o keyList := ⟨_, rfl⟩
  have hrange := toInt32_spec (n : Int)
  simp only [ClientCall.bufferSize, ClientCall.Fits, ← hn]
  by_cases hneg : toInt32 (n : Int) < 0
  · rw [if_pos hneg]
    exact ⟨fun _ => .inr (.inr hneg), fun _ _ h => by cases h⟩
  rw [if_neg hneg]
  constructor
  · intro hall
    have hle := hall _ rfl
    rcases Nat.lt_or_ge n (2 ^ 31) with hsmall | hlarge
    · exact .inr (.inl hsmall)
    · exact .inl (by omega)
  · rintro (hle | hlt | hneg') size hsize
    · have := Option.some.inj hsize
      omega
    · have := Option.some.inj hsize
      omega
    · exact absurd hneg' hneg

theorem set_packedLen_le (k : FDHTKeyInfo) (value : Bytes) (expires : Int) (size : Nat)
    (hsize : (ClientCall.set k value expires).bufferSize = some size) :
    (ClientCall.set k value expires).packedLen ≤ size := by
  have hbytes := k.bytes_le
  have hheader : sizeofHeader = 19 := rfl
  have hbuff : clientSetBuff = 1381 := rfl
  have := Option.some.inj hsize
  simp only [ClientCall.packedLen]
  split <;> omega

theorem inc_inBuffer_iff (k : FDHTKeyInfo) (increase expires : Int) :
    (∀ size, (ClientCall.inc k increase expires).bufferSize = some size →
      (ClientCall.inc k increase expires).packedLen ≤ size) ↔ k.bytes ≤ 319 := by
  have hmax : fdhtMaxFullKeyLen = 322 := rfl
  have hlen : (ClientCall.inc k increase expires).packedLen = 19 + (12 + k.bytes + 4) := by
    refine congrArg (19 + ·) ?_
    show (k.packBodyUntilKey ++ int2buff increase).length = _
    rw [List.length_append, packBodyUntilKey_length, int2buff_length]
  constructor
  · intro hall
    have hle := hall _ rfl
    omega
  · intro hfits size hsize
    have := Option.some.inj hsize
    omega

/-- **A request is written inside its buffer exactly if an increment leaves a byte of
the longest key unused and the length of a BATCH_SET does not wrap around.** -/
theorem request_in_buffer_iff (c : ClientCall) :
    c.InBuffer ↔ (c.packed = true → c.Fits) := by
  have hmax : fdhtMaxFullKeyLen = 322 := rfl
  have hheader : sizeofHeader = 19 := rfl
  refine imp_congr_right fun hpacked => ?_
  cases c with
  | get k expires =>
    refine ⟨fun _ => trivial, fun _ size hsize => ?_⟩
    have hbytes := k.bytes_le
    have hlen : (ClientCall.get k expires).packedLen = 19 + (12 + k.bytes) :=
      congrArg (19 + ·) (packBodyUntilKey_length k)
    have := Option.some.inj hsize
    omega
  | set k value expires => exact ⟨fun _ => trivial, fun _ => set_packedLen_le k value expires⟩
  | delete k =>
    refine ⟨fun _ => trivial, fun _ size hsize => ?_⟩
    have hbytes := k.bytes_le
    have hlen : (ClientCall.delete k).packedLen = 19 + (12 + k.bytes) :=
      congrArg (19 + ·) (packBodyUntilKey_length k)
    have := Option.some.inj hsize
    omega
  | inc k increase expires => exact inc_inBuffer_iff k increase expires
  | batchSet o keyList expires =>
    rw [show (ClientCall.batchSet o keyList expires).packedLen = batchSetLen o keyList from rfl,
      batchSet_inBuffer_iff]
    refine ⟨fun h => h.elim (fun hle => .inl ?_) id, .inr⟩
    have hbuff : batchSetBuff = 50517 := rfl
    omega
  | batchGet o keyList expires =>
    refine ⟨fun _ => trivial, fun _ size hsize => ?_⟩
    have hlen : (ClientCall.batchGet o keyList expires).packedLen =
        19 + (packBodyKeys o keyList).length := rfl
    have hle := packBodyKeys_le (o := o) hpacked
    have hbuff : 50000 ≤ size := by
      rw [← Option.some.inj hsize]
      decide
    omega
  | batchDelete o keyList =>
    refine ⟨fun _ => trivial, fun _ size hsize => ?_⟩
    have hlen : (ClientCall.batchDelete o keyList).packedLen =
        19 + (packBodyKeys o keyList).length := rfl
    have hle := packBodyKeys_le (o := o) hpacked
    have hbuff : 17300 ≤ size := by
      rw [← Option.some.inj hsize]
      decide
    omega
  | getSubKeys o =>
    refine ⟨fun _ => trivial, fun _ size hsize => ?_⟩
    have hbytes := o.bytes_le
    have hlen : (ClientCall.getSubKeys o).packedLen = 19 + (8 + o.bytes) :=
      congrArg (19 + ·) (packBodyObject_length o)
    have := Option.some.inj hsize
    omega

/-- fdht_inc_ex writes a byte too many for the longest key. -/
theorem request_past_buffer :
    ¬ ∀ c : ClientCall, c.InBuffer := by
  intro hall
  have hpacked : (longInc 128 (by decide)).packed = true := by
    rfl
  have hfits : (longInc 128 (by decide)).FitsBuffer :=
    (inc_inBuffer_iff _ 1 60).mp (hall (longInc 128 (by decide)) hpacked)
  have hle := (longInc_fits_iff 128 (by decide)).mp hfits
  omega

end FastDht
