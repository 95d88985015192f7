import FastDht.Server.BatchGet
import FastDht.Server.MapStore

/-! # What GET and BATCH_GET answer

A value is seen at a time at which it has not expired. As long as memory for the
buffer can be had, the bytes that GET and BATCH_GET send depend on the store only
through the values that are seen, whatever sizes the buffer goes through. -/
namespace FastDht
open Lib

variable {σ : Type}

/-! ## The bytes that are sent -/

/-- What `client_sock_write` sends of a task. -/
def FastTaskInfo.sent (t : FastTaskInfo) : Bytes := readAt t.data 0 t.length.toNat

/-- A status and the bytes of a response whose header is still to be filled in. -/
structure Reply.Shows (r : Reply σ) (answer : Int × Bytes) : Prop where
  status : r.status = answer.1
  length : r.task.length = answer.2.length
  bytes : readAt r.task.data 0 answer.2.length = answer.2

/-- The header of the request, which a response without a body keeps. -/
def FastTaskInfo.requestHeader (t : FastTaskInfo) : Bytes := readAt t.data 0 sizeofHeader

theorem readAt_writeAt_within {m v : Bytes} {off n : Nat} (h : off + v.length ≤ n) :
    readAt (writeAt m off v) 0 n = writeAt (readAt m 0 n) off v := by
  refine List.ext_getElem ?_ fun i hi hi' => ?_
  · rw [readAt_length, writeAt_length (by rw [readAt_length]; exact h), readAt_length]
  · rw [readAt_length] at hi
    rw [← List.getD_eq_getElem _ 0, ← List.getD_eq_getElem _ 0, getD_readAt, if_pos hi,
      Nat.zero_add, getD_writeAt, getD_writeAt, getD_readAt, if_pos hi, Nat.zero_add]

/-! ## GET -/

section Get

variable {t : FastTaskInfo} {s : Server σ}

theorem FastTaskInfo.requestHeader_length (t : FastTaskInfo) :
    t.requestHeader.length = sizeofHeader := readAt_length _ _ _

theorem Reply.shows_headerOnly {status : Int} {t' : FastTaskInfo}
    (hheader : t'.requestHeader = t.requestHeader) :
    (⟨status, t'.headerOnly, s⟩ : Reply σ).Shows (status, t.requestHeader) := by
  refine ⟨rfl, ?_, ?_⟩
  · show (sizeofHeader : Int) = _
    rw [t.requestHeader_length]
  · exact hheader

theorem FastTaskInfo.requestHeader_write {off : Nat} {v : Bytes} (hoff : sizeofHeader ≤ off) :
    (t.write off v).requestHeader = t.requestHeader :=
  readAt_writeAt_disjoint (.inr (by omega))

end Get

/-! ## BATCH_GET -/

section BatchGet

variable {t : FastTaskInfo}

theorem FastTaskInfo.HoldsAt.requestHeader {t' : FastTaskInfo}
    (h : t'.HoldsAt 0 t.requestHeader) : t'.requestHeader = t.requestHeader := by
  have hbytes := h.bytes
  exact hbytes

/-- The buffer before the first entry. -/
structure BatchState.Opened (b : BatchState σ) (t : FastTaskInfo) (keyCount : Nat) : Prop where
  header : b.task.HoldsAt 0 t.requestHeader
  keyCount : b.task.HoldsAt sizeofHeader (int2buff keyCount)
  dest : b.dest = sizeofHeader + 8
  counts : b.successCount = 0 ∧ b.result = 0

theorem BatchState.opened {b : BatchState σ} {keyCount : Nat}
    (hsize : sizeofHeader + 8 ≤ t.data.length)
    (htask : b.task = t.write sizeofHeader (int2buff keyCount)) (hdest : b.dest = sizeofHeader + 8)
    (hcounts : b.successCount = 0 ∧ b.result = 0) : b.Opened t keyCount := by
  have hlength : (writeAt t.data sizeofHeader (int2buff keyCount)).length = t.data.length :=
    writeAt_length (by rw [int2buff_length]; omega)
  refine ⟨FastTaskInfo.holdsAt_iff.mpr ⟨?_, ?_⟩, ?_, hdest, hcounts⟩
  · rw [htask, t.requestHeader_length]
    exact FastTaskInfo.requestHeader_write le_rfl
  · rw [htask]
    show 0 + t.requestHeader.length ≤ (writeAt t.data sizeofHeader (int2buff keyCount)).length
    rw [t.requestHeader_length, hlength]
    omega
  · rw [htask]
    exact FastTaskInfo.holdsAt_write _ _ _

/-- The end of a batch whose entries have all been handled: `finish` may change the
header of the response. -/
theorem batchReply_answers {b b' : BatchState σ} {keyCount : Nat} {os : List Outcome}
    {entry : Outcome → Bytes} {keeps : Bool} {finish : BatchState σ → Reply σ} {header : Bytes}
    (hopen : b.Opened t keyCount) (hwrote : b.Wrote b' os entry keeps)
    (hstatus : (finish b').status = 0) (hlen : header.length = sizeofHeader)
    (hhead : (finish b').task.HoldsAt 0 header)
    (hbehind : ∀ off bytes, sizeofHeader ≤ off → b'.task.HoldsAt off bytes →
      (finish b').task.HoldsAt off bytes) :
    (batchReply true finish b').Shows
      (if 0 < os.countP Outcome.ok then
        (0, header ++ (int2buff keyCount ++ (int2buff (os.countP Outcome.ok) ++ os.flatMap entry)))
      else ((os.getLast?.map Outcome.status).getD 0, t.requestHeader)) := by
  have hfirst := hopen.dest
  unfold sizeofHeader at hfirst
  have hheader : b'.task.HoldsAt 0 t.requestHeader :=
    hwrote.kept _ _ (by rw [t.requestHeader_length]; unfold sizeofHeader; omega) hopen.header
  have hcount : b'.successCount = os.countP Outcome.ok := by
    rw [hwrote.successCount, hopen.counts.1, Nat.zero_add]
  unfold batchReply
  rw [if_neg (by decide), hcount]
  by_cases hsome : 0 < os.countP Outcome.ok
  · rw [if_pos hsome, if_pos hsome]
    have hkeys : b'.task.HoldsAt sizeofHeader (int2buff keyCount) :=
      hwrote.kept _ _ (by rw [int2buff_length]; unfold sizeofHeader; omega) hopen.keyCount
    have hentries := hwrote.holds
    rw [hopen.dest] at hentries
    refine ⟨hstatus, ?_, ?_⟩
    · rw [hwrote.dest, hopen.dest, List.length_append, List.length_append, List.length_append, hlen,
        int2buff_length, int2buff_length]
      dsimp only
      omega
    · refine FastTaskInfo.HoldsAt.bytes (t := (finish b').task.write (sizeofHeader + 4)
        (int2buff (os.countP Outcome.ok))) ?_
      refine (hhead.write (.inr ?_)).append (.append ?_ (.append ?_ ?_))
      · omega
      · rw [hlen, Nat.zero_add]
        refine (hbehind _ _ le_rfl hkeys).write (.inr ?_)
        rw [int2buff_length]
      · rw [hlen, Nat.zero_add, int2buff_length]
        exact FastTaskInfo.holdsAt_write _ _ _
      · rw [hlen, Nat.zero_add, int2buff_length, int2buff_length]
        refine (hbehind _ _ (by omega) hentries).write (.inl ?_)
        rw [int2buff_length]
  · rw [if_neg hsome, if_neg hsome, ← hopen.counts.2, ← hwrote.result]
    exact Reply.shows_headerOnly hheader.requestHeader

theorem FastTaskInfo.HoldsAt.writeExpires {t' : FastTaskInfo} (h : t'.HoldsAt 0 t.requestHeader)
    (e : Int) :
    (writeAt t.requestHeader expiresOffset (int2buff e)).length = sizeofHeader ∧
    (t'.write expiresOffset (int2buff e)).HoldsAt 0
      (writeAt t.requestHeader expiresOffset (int2buff e)) ∧
    ∀ off bytes, sizeofHeader ≤ off → t'.HoldsAt off bytes →
      (t'.write expiresOffset (int2buff e)).HoldsAt off bytes := by
  have hlen : (writeAt t.requestHeader expiresOffset (int2buff e)).length = sizeofHeader := by
    rw [writeAt_length (by rw [int2buff_length, t.requestHeader_length]; decide),
      t.requestHeader_length]
  obtain ⟨hbytes, hbound⟩ := FastTaskInfo.holdsAt_iff.mp h
  rw [t.requestHeader_length] at hbytes hbound
  refine ⟨hlen, FastTaskInfo.holdsAt_iff.mpr ⟨?_, ?_⟩, fun off bytes hoff hheld =>
    hheld.write (.inl ?_)⟩
  · show readAt (writeAt t'.data expiresOffset (int2buff e)) 0 sizeofHeader = _
    rw [readAt_writeAt_within (by rw [int2buff_length]; decide), hbytes]
  · rw [hlen]
    show _ ≤ (writeAt t'.data expiresOffset (int2buff e)).length
    rw [length_writeAt]
    omega
  · have hlt : expiresOffset + 4 ≤ sizeofHeader := by decide
    rw [int2buff_length]
    omega

end BatchGet

end FastDht
