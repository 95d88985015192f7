import FastDht.Lib.Base64
import FastDht.Lib.LastPerKey
import FastDht.Server.RecoveryMark

/-! # The tool fdht_compress

tool/fdht_compress.c rewrites a binlog file: of all records with one key it keeps
the last, and not even that if it is a delete or has expired. The keys are sorted
by their base64 text with the program sort. -/
namespace FastDht
open Lib

/-! ## Reading a file -/

/-- A line of the file that is sorted. -/
structure CompressRawRow where
  key : Bytes
  expires : Int
  opType : UInt8
  offset : Nat
  recordLength : Nat
  deriving DecidableEq, Repr

/-- The room for the base64 text of a key, its NUL included. -/
def base64KeySize : Nat :=
  (fdhtMaxNamespaceLen + 1 + fdhtMaxObjectIdLen + 1 + fdhtMaxSubKeyLen) / 3 * 4

/-- `base64_encode_ex` first writes whole groups of four characters. -/
def base64Written (n : Nat) : Nat := (n + 2) / 3 * 4

/-- What `compress_binlog_read` knows of a record. -/
structure CompressRecord where
  opType : UInt8
  keyInfo : FDHTKeyInfo
  expires : Int
  recordLength : Nat

/-- `compress_binlog_read` on what the file holds from the offset on. It checks less
than `fdht_binlog_read`: neither the time nor the type of a record, nor how it
ends. -/
def compressBinlogRead (file : Bytes) : Except Int CompressRecord :=
  let buff := file.take binlogFixFieldsLength
  if file = [] then .error ENOENT
  else if buff.length ≠ binlogFixFieldsLength then .error EINVAL
  else match scanFixFields (buff.takeWhile (· ≠ 0)) with
    | none => .error EINVAL
    | some f =>
      if hn : checkFieldValue f.namespaceLen fdhtMaxNamespaceLen = true then
      if ho : checkFieldValue f.objIdLen fdhtMaxObjectIdLen = true then
      if hk : checkFieldValue f.keyLen fdhtMaxSubKeyLen = true then
        if f.valueLen < 0 then .error EINVAL
        else
          let fullKeyLen := f.namespaceLen.toNat + 1 + f.objIdLen.toNat + 1 + f.keyLen.toNat + 1
          let key := (file.drop binlogFixFieldsLength).take fullKeyLen
          if key.length ≠ fullKeyLen then .error EINVAL
          else .ok {
            opType := f.opType
            keyInfo := readKeyInfo f hn ho hk key
            expires := f.expires
            recordLength := binlogFixFieldsLength + fullKeyLen + (f.valueLen.toNat + 1) }
      else .error EINVAL
      else .error EINVAL
      else .error EINVAL

/-- The rows of a file from an offset on; a record takes at least one byte, so
`fuel` is enough if it exceeds the length of the file. `none` if the text of a key
does not fit its buffer. -/
def compressReadRows (file : Bytes) : Nat → Nat → Option (Except Int (List CompressRawRow))
  | 0, _ => some (.ok [])
  | fuel + 1, offset =>
    match compressBinlogRead (file.drop offset) with
    | .error e => if e = ENOENT then some (.ok []) else some (.error e)
    | .ok r =>
      if base64KeySize < base64Written r.keyInfo.packFullKey.length + 1 then none
      else (compressReadRows file fuel (offset + r.recordLength)).map fun rows => rows.map
        (⟨base64Encode r.keyInfo.packFullKey, r.expires, r.opType, offset, r.recordLength⟩ :: ·)

/-! ## Writing the new file -/

/-- `FDHT_OP_TYPE_SOURCE_DEL` or `FDHT_OP_TYPE_REPLICA_DEL`. -/
def isDelByte (b : UInt8) : Bool := b = OpType.sourceDel.toByte || b = OpType.replicaDel.toByte

/-- `compress_write_to_binlog` leaves a row out. The expiry is scanned as `int` into
the low half of a zeroed `time_t`. -/
def CompressRawRow.dropped (row : CompressRawRow) (now : Int) : Bool :=
  row.expires ≠ fdhtExpiresNever && toUInt32 row.expires < now || isDelByte row.opType

/-- What `compress_write_to_binlog` appends for a row, or `EIO`. -/
def compressWriteToBinlog (file : Bytes) (now : Int) (row : CompressRawRow) : Except Int Bytes :=
  if row.dropped now then .ok []
  else
    let record := (file.drop row.offset).take row.recordLength
    if record.length ≠ row.recordLength then .error 5 else .ok record

def compressWriteRows (file : Bytes) (now : Int) : List CompressRawRow → Except Int Bytes
  | [] => .ok []
  | row :: rows => (compressWriteToBinlog file now row).bind fun record =>
      (compressWriteRows file now rows).map (record ++ ·)

/-- What `sort --stable --key=1,1` does to the rows in the C locale. -/
abbrev SortsRows : (List CompressRawRow → List CompressRawRow) → Prop :=
  StableSort CompressRawRow.key (List.compareLex compare)

def sortRows (rows : List CompressRawRow) : List CompressRawRow :=
  qsort (fun a b => List.compareLex compare a.key b.key) rows

theorem sortRows_sorts : SortsRows sortRows := qsort_stableSort

/-- `compress_binlog_file`: its result and the file afterwards; `sort` is the program that it
calls. -/
def compressBinlogFile (sort : List CompressRawRow → List CompressRawRow) (file : Bytes)
    (now : Int) : Option (Int × Bytes) :=
  (compressReadRows file (file.length + 1) 0).map fun result =>
    match result with
    | .error e => (e, file)
    | .ok [] => (ENOENT, file)
    | .ok rows =>
      match compressWriteRows file now (lastOfRuns CompressRawRow.key (sort rows)) with
      | .error e => (e, file)
      | .ok new => (0, new)

/-! ## A file of records -/

/-- The text that a record is sorted by. -/
def LogWrite.keyText (w : LogWrite) : Bytes := base64Encode w.keyInfo.packFullKey

/-- A record that is not written to the new file, even as the last of its key. -/
def LogWrite.leftOut (w : LogWrite) (now : Int) : Bool :=
  toInt32 w.expires ≠ fdhtExpiresNever && toUInt32 w.expires < now || !w.opType.isSet

/-- The records of the new file; `f` gives the record of an entry. -/
def compressBy {α : Type} (f : α → LogWrite) (now : Int) (l : List α) : List α :=
  (lastOfRuns (fun a => (f a).keyText)
    (qsort (fun a b => List.compareLex compare (f a).keyText (f b).keyText) l)).filter
      fun a => !(f a).leftOut now

section Records

variable {α : Type} {f : α → LogWrite} {now : Int}

variable (f now) in
theorem compressBy_map (l : List α) : compressBy id now (l.map f) = (compressBy f now l).map f := by
  unfold compressBy
  rw [qsort_map, lastOfRuns_map, List.filter_map]
  rfl

theorem compressBy_subset (l : List α) : compressBy f now l ⊆ l := by
  intro a ha
  exact mem_qsort.mp (lastOfRuns_subset _ (List.mem_filter.mp ha).1)

/-- **The new file has the last record of every key, if that is not left out.** -/
theorem mem_compressBy {l : List α} {a : α} :
    a ∈ compressBy f now l ↔ (f a).leftOut now = false ∧
      (l.filter fun b => (f b).keyInfo.packFullKey = (f a).keyInfo.packFullKey).getLast? =
        some a := by
  have hlast := lastOfRuns_qsort_filter (fun b => (f b).keyText) (List.compareLex compare) l
    (f a).keyText
  have htext : (fun b => decide ((f b).keyText = (f a).keyText)) =
      fun b => decide ((f b).keyInfo.packFullKey = (f a).keyInfo.packFullKey) := by
    funext b
    refine decide_eq_decide.mpr ⟨base64Encode_injective, fun h => ?_⟩
    rw [LogWrite.keyText, LogWrite.keyText, h]
  have hmem : a ∈ lastOfRuns (fun b => (f b).keyText)
      (qsort (fun b c => List.compareLex compare (f b).keyText (f c).keyText) l) ↔
      a ∈ (l.filter fun b => (f b).keyText = (f a).keyText).getLast?.toList := by
    rw [← hlast, List.mem_filter]
    simp only [decide_true, and_true]
  rw [compressBy, List.mem_filter, hmem, htext, Option.mem_toList, Bool.not_eq_true']
  exact and_comm

end Records

/-! ## The bytes of a file of records -/

/-- The records of a file, each with its offset. -/
def placed : Nat → List LogWrite → List (Nat × LogWrite)
  | _, [] => []
  | offset, w :: ws => (offset, w) :: placed (offset + (fdhtBinlogWrite w).length) ws

def rowOf (q : Nat × LogWrite) : CompressRawRow :=
  ⟨q.2.keyText, toInt32 q.2.expires, q.2.opType.toByte, q.1, (fdhtBinlogWrite q.2).length⟩

theorem placed_map (offset : Nat) (ws : List LogWrite) : (placed offset ws).map Prod.snd = ws := by
  induction ws generalizing offset with
  | nil => rfl
  | cons w ws ih => rw [placed, List.map_cons, ih]

theorem mem_placed {offset : Nat} {ws : List LogWrite} {q : Nat × LogWrite}
    (h : q ∈ placed offset ws) (front : Bytes) (hfront : front.length = offset) :
    ((front ++ binlogBytes ws).drop q.1).take (fdhtBinlogWrite q.2).length =
      fdhtBinlogWrite q.2 := by
  induction ws generalizing offset front with
  | nil => cases h
  | cons w ws ih =>
    have hbytes : binlogBytes (w :: ws) = fdhtBinlogWrite w ++ binlogBytes ws := rfl
    rcases List.mem_cons.mp h with rfl | h
    · rw [hbytes, ← hfront, List.drop_left, List.take_left]
    · rw [hbytes, ← List.append_assoc]
      exact ih h _ (by rw [List.length_append, hfront])

theorem rowOf_dropped (q : Nat × LogWrite) (now : Int) :
    (rowOf q).dropped now = q.2.leftOut now := by
  have hdel : isDelByte q.2.opType.toByte = !q.2.opType.isSet := by
    cases q.2.opType <;> rfl
  unfold CompressRawRow.dropped LogWrite.leftOut
  rw [rowOf, toUInt32_toInt32, hdel]

theorem compressBinlogRead_write {w : LogWrite} (hl : w.Loggable) (rest : Bytes) :
    compressBinlogRead (fdhtBinlogWrite w ++ rest) = .ok ⟨w.opType.toByte, w.keyInfo,
      toInt32 w.expires, (fdhtBinlogWrite w).length⟩ := by
  have hfix := fixFields_length_of_fits hl.toFits hl.len_nonneg
  have hpack := packFullKeyInfo_length w.keyInfo
  have hne : fdhtBinlogWrite w ++ rest ≠ [] := by simp [fdhtBinlogWrite]
  obtain ⟨htake, hdrop⟩ := fdhtBinlogWrite_split hl.toFits hl.len_nonneg rest
  have hfull : w.keyInfo.szNameSpace.length + 1 + w.keyInfo.szObjectId.length + 1 +
      w.keyInfo.szKey.length + 1 = w.keyInfo.packedLength := rfl
  have hlength : (fdhtBinlogWrite w).length =
      binlogFixFieldsLength + w.keyInfo.packedLength + (w.len.toNat + 1) := by
    have hlen := (fdhtBinlogWrite_length w).mpr ⟨hl.toFits, hl.len_nonneg⟩
    have hpos := hl.len_nonneg
    unfold calcRecordLength at hlen
    omega
  have hn := checkFieldValue_length w.keyInfo.namespaceLen_le
  have ho := checkFieldValue_length w.keyInfo.objIdLen_le
  have hk := checkFieldValue_length w.keyInfo.keyLen_le
  unfold compressBinlogRead
  simp only [if_neg hne, htake, hfix, ne_eq, not_true_eq_false, if_false, fixFields_no_nul,
    scanFixFields_fixFields hl.toFits hl.len_nonneg, dif_pos hn, dif_pos ho, dif_pos hk,
    Int.toNat_natCast, hfull, if_neg (not_lt.mpr hl.len_nonneg), hdrop, packFullKeyInfo_take,
    hpack]
  rw [readKeyInfo_pack (k := w.keyInfo) hn ho hk rfl rfl rfl, hlength]

theorem base64Written_fits (n : Nat) : ¬base64KeySize < base64Written n + 1 ↔ n ≤ 318 := by
  have hsize : base64KeySize = 428 := rfl
  unfold base64Written
  omega

theorem compressReadRows_log {ws : List LogWrite} (front : Bytes) (hws : ∀ w ∈ ws, w.Loggable)
    {n : Nat} (hn : ws.length < n) :
    compressReadRows (front ++ binlogBytes ws) n front.length =
      if ∀ w ∈ ws, w.keyInfo.packFullKey.length ≤ 318 then
        some (.ok ((placed front.length ws).map rowOf)) else none := by
  induction n generalizing ws front with
  | zero => omega
  | succ n ih =>
    cases ws with
    | nil =>
      rw [compressReadRows, List.drop_left, if_pos (by simp)]
      rfl
    | cons w ws =>
      have hbytes : binlogBytes (w :: ws) = fdhtBinlogWrite w ++ binlogBytes ws := rfl
      have hnext : front.length + (fdhtBinlogWrite w).length =
          (front ++ fdhtBinlogWrite w).length := by rw [List.length_append]
      have hkeys : (∀ v ∈ w :: ws, v.keyInfo.packFullKey.length ≤ 318) ↔
          w.keyInfo.packFullKey.length ≤ 318 ∧ ∀ v ∈ ws, v.keyInfo.packFullKey.length ≤ 318 :=
        List.forall_mem_cons
      have hrest := ih (front ++ fdhtBinlogWrite w)
        (fun v (hv : v ∈ ws) => hws v (List.mem_cons_of_mem _ hv))
        (by rw [List.length_cons] at hn; omega)
      rw [List.append_assoc, ← hbytes, ← hnext] at hrest
      rw [compressReadRows, List.drop_left, hbytes,
        compressBinlogRead_write (hws w List.mem_cons_self), ← hbytes]
      dsimp only
      by_cases hw : w.keyInfo.packFullKey.length ≤ 318
      · rw [if_neg ((base64Written_fits _).mpr hw), hrest]
        by_cases hall : ∀ v ∈ ws, v.keyInfo.packFullKey.length ≤ 318
        · rw [if_pos hall, if_pos (hkeys.mpr ⟨hw, hall⟩)]
          rfl
        · rw [if_neg hall, if_neg fun h => hall (hkeys.mp h).2]
          rfl
      · have hlong := not_not.mp ((base64Written_fits _).not.mpr hw)
        rw [if_pos hlong, if_neg fun h => hw (hkeys.mp h).1]

theorem compressWriteRows_log (ws : List LogWrite) (now : Int) {l : List (Nat × LogWrite)}
    (hl : l ⊆ placed 0 ws) :
    compressWriteRows (binlogBytes ws) now (l.map rowOf) =
      .ok (binlogBytes ((l.filter fun q => !q.2.leftOut now).map Prod.snd)) := by
  induction l with
  | nil => rfl
  | cons q l ih =>
    obtain ⟨hq, hl⟩ := List.cons_subset.mp hl
    have hrecord := mem_placed hq [] rfl
    rw [List.map_cons, compressWriteRows, ih hl, compressWriteToBinlog, rowOf_dropped]
    by_cases hout : q.2.leftOut now = true
    · rw [if_pos hout, List.filter_cons_of_neg (by simpa using hout)]
      rfl
    · have hlength : ¬((binlogBytes ws).drop (rowOf q).offset |>.take
          (rowOf q).recordLength).length ≠ (rowOf q).recordLength := by
        rw [not_not]
        exact congrArg List.length hrecord
      rw [if_neg hout, if_neg hlength, List.filter_cons_of_pos (by simpa using hout)]
      exact congrArg (fun b => Except.ok (b ++ _)) hrecord

/-- **On a file of loggable records the tool writes the last record of every key that
is not left out**; an empty file it refuses, and a key that is too long makes it
overrun its buffer. -/
theorem compressBinlogFile_log {sort : List CompressRawRow → List CompressRawRow}
    (hsorts : SortsRows sort) {ws : List LogWrite} (hws : ∀ w ∈ ws, w.Loggable) (now : Int) :
    compressBinlogFile sort (binlogBytes ws) now =
      if ∀ w ∈ ws, w.keyInfo.packFullKey.length ≤ 318 then
        some (if ws = [] then ENOENT else 0, binlogBytes (compressBy id now ws)) else none := by
  have hlength : ws.length < (binlogBytes ws).length + 1 := by
    have := binlogBytes_length_le ws
    omega
  have hrows := compressReadRows_log [] hws hlength
  rw [List.nil_append, List.length_nil] at hrows
  rw [compressBinlogFile, hrows]
  by_cases hall : ∀ w ∈ ws, w.keyInfo.packFullKey.length ≤ 318
  · rw [if_pos hall, if_pos hall, Option.map_some]
    cases ws with
    | nil => rfl
    | cons w ws =>
      have hsort : lastOfRuns CompressRawRow.key (sort ((placed 0 (w :: ws)).map rowOf)) =
          (lastOfRuns (fun q => q.2.keyText) (qsort (fun q r =>
            List.compareLex compare q.2.keyText r.2.keyText) (placed 0 (w :: ws)))).map rowOf := by
        rw [hsorts.eq_qsort, qsort_map, lastOfRuns_map]
        rfl
      have hwrite := compressWriteRows_log (w :: ws) now
        (l := lastOfRuns (fun q => q.2.keyText) (qsort (fun q r =>
          List.compareLex compare q.2.keyText r.2.keyText) (placed 0 (w :: ws))))
        fun q hq => mem_qsort.mp (lastOfRuns_subset _ hq)
      have hmap := compressBy_map Prod.snd now (placed 0 (w :: ws))
      rw [placed_map] at hmap
      rw [if_neg (List.cons_ne_nil _ _), hmap]
      rw [← hsort] at hwrite
      have hcons : (placed 0 (w :: ws)).map rowOf = rowOf (0, w) ::
          (placed (0 + (fdhtBinlogWrite w).length) ws).map rowOf := rfl
      rw [hcons] at hwrite ⊢
      dsimp only
      rw [hwrite]
      rfl
  · rw [if_neg hall, if_neg hall]
    rfl

end FastDht
