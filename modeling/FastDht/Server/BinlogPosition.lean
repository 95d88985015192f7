import FastDht.Server.Binlog

/-! # The position of a binlog reader: fdht_binlog_read of server/sync.c

A reader holds a position of its own, `binlog_index` and `binlog_offset`, and a descriptor that
every `read` moves. The function reads a record in pieces and counts what it has read; when a
piece is missing or wrong it seeks back by that count. At the end of a file it goes on with the
next one. `fdhtBinlogRead` is the same function with nothing but the bytes in view. -/
namespace FastDht
open Lib

def EIO : Int := 5
def EBADF : Int := 9

/-- `errno != 0 ? errno : otherwise`. -/
def errnoOr (errno otherwise : Int) : Int := if errno ≠ 0 then errno else otherwise

/-! ## The pieces of a record -/

/-- The position of the descriptor, and `total_read_bytes`. -/
structure ReadProgress where
  pos : Nat
  totalReadBytes : Nat

/-- What the calls behind the first `read` return: the `errno` of those that fail, and
`pRecord->value.size`. -/
structure PieceIo where
  keyErrno : Option Int
  mallocErrno : Option Int
  valueErrno : Option Int
  valueSize : Int

/-- A `read` of a piece, counted if it does not fail. -/
def readPiece (file : Bytes) (errno : Option Int) (n : Nat) (s : ReadProgress) :
    Except Int Bytes × ReadProgress :=
  match errno with
  | some errno => (.error (errnoOr errno EIO), s)
  | none =>
    let bytes := (file.drop s.pos).take n
    (.ok bytes, ⟨s.pos + bytes.length, s.totalReadBytes + bytes.length⟩)

/-- The key and the value of a record whose fixed fields have passed their checks. -/
def readKeyAndValue (file : Bytes) (io : PieceIo) (f : FixFields) (opType : OpType)
    (hn : checkFieldValue f.namespaceLen fdhtMaxNamespaceLen = true)
    (ho : checkFieldValue f.objIdLen fdhtMaxObjectIdLen = true)
    (hk : checkFieldValue f.keyLen fdhtMaxSubKeyLen = true) (s : ReadProgress) :
    Except Int (BinLogRecord × Int) × ReadProgress :=
  let fullKeyLen := f.namespaceLen.toNat + 1 + f.objIdLen.toNat + 1 + f.keyLen.toNat + 1
  match readPiece file io.keyErrno fullKeyLen s with
  | (.error result, s) => (.error result, s)
  | (.ok key, s) =>
    if key.length ≠ fullKeyLen then (.error ENOENT, s)
    else match if io.valueSize < toInt32 (f.valueLen + 1) then io.mallocErrno else none with
    | some errno => (.error (errnoOr errno ENOMEM), s)
    | none =>
      match readPiece file io.valueErrno (f.valueLen.toNat + 1) s with
      | (.error result, s) => (.error result, s)
      | (.ok value, s) =>
        if value.length ≠ f.valueLen.toNat + 1 then (.error ENOENT, s)
        else if value.getD f.valueLen.toNat 0 ≠ 10 then (.error EINVAL, s)
        else
          let keyInfo := readKeyInfo f hn ho hk key
          (.ok ({
            timestamp := toUInt32 f.timestamp
            opType := opType
            keyHashCode := f.keyHashCode
            keyInfo := keyInfo
            value := value.take f.valueLen.toNat
            expires := toUInt32 f.expires }, toInt32 (calcRecordLength keyInfo f.valueLen)), s)

/-- The `do` block of `fdht_binlog_read`, with the bytes of the fixed fields. -/
def readRecord (file : Bytes) (io : PieceIo) (buff : Bytes) (s : ReadProgress) :
    Except Int (BinLogRecord × Int) × ReadProgress :=
  if buff.length ≠ binlogFixFieldsLength then (.error ENOENT, s)
  else match scanFixFields (buff.takeWhile (· ≠ 0)) with
    | none => (.error EINVAL, s)
    | some f =>
      if toUInt32 f.timestamp = 0 then (.error EINVAL, s)
      else match OpType.ofByte f.opType with
        | none => (.error EINVAL, s)
        | some opType =>
          if hn : checkFieldValue f.namespaceLen fdhtMaxNamespaceLen = true then
          if ho : checkFieldValue f.objIdLen fdhtMaxObjectIdLen = true then
          if hk : checkFieldValue f.keyLen fdhtMaxSubKeyLen = true then
            if f.keyLen = 0 then (.error EINVAL, s)
            else if f.valueLen < 0 then (.error EINVAL, s)
            else readKeyAndValue file io f opType hn ho hk s
          else (.error EINVAL, s)
          else (.error EINVAL, s)
          else (.error EINVAL, s)

/-! ## The files -/

/-- A reader; `binlogFd` is the file of its descriptor and the position in it, `none` if there
is no open file. -/
structure ReaderPosition where
  binlogIndex : Nat
  binlogOffset : Nat
  binlogFd : Option (Nat × Nat)
  deriving DecidableEq

/-- The descriptor is at the position of the reader. -/
def readerAt (index offset : Nat) : ReaderPosition := ⟨index, offset, some (index, offset)⟩

/-- The binlog files with the globals of the writer, and what the calls return for a file: the
`errno` of an `open` or a first `read` that fails, and the result of
`fdht_write_to_mark_file`. -/
structure BinlogDir where
  gBinlogIndex : Nat
  gBinlogFileSize : Nat
  file : Nat → Bytes
  /-- So that the record lengths are `int`s. -/
  file_lt : ∀ i, (file i).length < 2 ^ 31
  openErrno : Nat → Option Int
  readErrno : Nat → Option Int
  markResult : Nat → Int
  io : PieceIo

/-- The first loop of `fdht_binlog_read`, with the number of files behind that of the reader:
the bytes of the first `read` that is not at the end of its file. -/
def readFixFields (d : BinlogDir) : Nat → ReaderPosition → Except Int Bytes × ReaderPosition
  | later, r =>
    match r.binlogFd with
    | none => (.error EBADF, r)
    | some (index, pos) =>
      match d.readErrno index with
      | some errno => (.error (errnoOr errno EIO), r)
      | none =>
        let buff := ((d.file index).drop pos).take binlogFixFieldsLength
        if buff ≠ [] then (.ok buff, { r with binlogFd := some (index, pos + buff.length) })
        else match later with
        | 0 => (.error ENOENT, r)
        | later + 1 =>
          -- `fdht_open_readable_binlog` closes the old file first
          match d.openErrno (r.binlogIndex + 1) with
          | some errno => (.error (errnoOr errno ENOENT), ⟨r.binlogIndex + 1, 0, none⟩)
          | none =>
            if d.markResult (r.binlogIndex + 1) ≠ 0 then
              (.error (d.markResult (r.binlogIndex + 1)), readerAt (r.binlogIndex + 1) 0)
            else readFixFields d later (readerAt (r.binlogIndex + 1) 0)

/-- `rewind_to_prev_rec_end`; `lseek` fails if that is before the start of the file. -/
def rewindToPrevRecEnd (s : ReadProgress) : Nat :=
  if s.totalReadBytes ≤ s.pos then s.pos - s.totalReadBytes else s.pos

/-- `fdht_binlog_read`: its result with the record and `*record_length`, and the reader. -/
def fdhtBinlogReadFd (d : BinlogDir) (r : ReaderPosition) :
    Except Int (BinLogRecord × Int) × ReaderPosition :=
  if r.binlogIndex = d.gBinlogIndex ∧ r.binlogOffset = d.gBinlogFileSize then (.error ENOENT, r)
  else match readFixFields d (d.gBinlogIndex - r.binlogIndex) r with
    | (.error result, r) => (.error result, r)
    | (.ok buff, r) =>
      match r.binlogFd with
      | none => (.error EBADF, r)
      | some (index, pos) =>
        match readRecord (d.file index) d.io buff ⟨pos, buff.length⟩ with
        | (.error result, s) =>
          (.error result, { r with binlogFd := some (index, rewindToPrevRecEnd s) })
        | (.ok x, s) => (.ok x, { r with binlogFd := some (index, s.pos) })

/-! ## One record -/

/-- A record has been read with exactly its length, or the position can be found again. -/
def Accounted (s : ReadProgress) : Except Int (BinLogRecord × Int) × ReadProgress → Prop
  | (.ok (_, recordLength), s') => s'.pos + s.totalReadBytes = s.pos + s'.totalReadBytes ∧
      recordLength = s'.totalReadBytes
  | (.error result, s') => s'.pos + s.totalReadBytes = s.pos + s'.totalReadBytes ∧ result ≠ 0

section Record

variable {file : Bytes} {io : PieceIo} {s : ReadProgress}

theorem errnoOr_ne_zero (errno : Int) {otherwise : Int} (h : otherwise ≠ 0) :
    errnoOr errno otherwise ≠ 0 := by
  unfold errnoOr
  split_ifs with herrno
  · exact herrno
  · exact h

theorem readPiece_cases (file : Bytes) (errno : Option Int) (n : Nat) (s : ReadProgress) :
    (∃ result, readPiece file errno n s = (.error result, s) ∧ result ≠ 0) ∨
      ∃ bytes : Bytes, readPiece file errno n s =
        (.ok bytes, ⟨s.pos + bytes.length, s.totalReadBytes + bytes.length⟩) ∧
        bytes.length ≤ file.length - s.pos := by
  cases errno with
  | some errno => exact .inl ⟨_, rfl, errnoOr_ne_zero errno (by decide)⟩
  | none => exact .inr ⟨_, rfl, by simp⟩

variable {f : FixFields} (hn : checkFieldValue f.namespaceLen fdhtMaxNamespaceLen = true)
  (ho : checkFieldValue f.objIdLen fdhtMaxObjectIdLen = true)
  (hk : checkFieldValue f.keyLen fdhtMaxSubKeyLen = true)

theorem readKeyInfo_packedLength (key : Bytes) :
    (readKeyInfo f hn ho hk key).packedLength =
      f.namespaceLen.toNat + 1 + f.objIdLen.toNat + 1 + f.keyLen.toNat + 1 := by
  simp only [FDHTKeyInfo.packedLength, readKeyInfo, readAt_length]

theorem readKeyAndValue_accounted (opType : OpType) (hvalue : 0 ≤ f.valueLen)
    (hs : s.totalReadBytes = binlogFixFieldsLength) (hpos : s.totalReadBytes ≤ s.pos)
    (hfile : file.length < 2 ^ 31) :
    Accounted s (readKeyAndValue file io f opType hn ho hk s) := by
  unfold readKeyAndValue
  dsimp only
  rcases readPiece_cases file io.keyErrno
      (f.namespaceLen.toNat + 1 + f.objIdLen.toNat + 1 + f.keyLen.toNat + 1) s with
    ⟨result, hread, hne⟩ | ⟨key, hread, -⟩
  · rw [hread]
    exact ⟨rfl, hne⟩
  rw [hread]
  dsimp only
  by_cases hkey : key.length ≠ f.namespaceLen.toNat + 1 + f.objIdLen.toNat + 1 + f.keyLen.toNat + 1
  · rw [if_pos hkey]
    exact ⟨by dsimp only; omega, by decide⟩
  rw [if_neg hkey]
  cases if io.valueSize < toInt32 (f.valueLen + 1) then io.mallocErrno else none with
  | some errno => exact ⟨by dsimp only; omega, errnoOr_ne_zero errno (by decide)⟩
  | none =>
    rcases readPiece_cases file io.valueErrno (f.valueLen.toNat + 1)
        ⟨s.pos + key.length, s.totalReadBytes + key.length⟩ with
      ⟨result, hread, hne⟩ | ⟨value, hread, hle⟩
    · rw [hread]
      exact ⟨by dsimp only; omega, hne⟩
    rw [hread]
    dsimp only
    by_cases hlen : value.length ≠ f.valueLen.toNat + 1
    · rw [if_pos hlen]
      exact ⟨by dsimp only; omega, by decide⟩
    rw [if_neg hlen]
    by_cases hend : value.getD f.valueLen.toNat 0 ≠ 10
    · rw [if_pos hend]
      exact ⟨by dsimp only; omega, by decide⟩
    · rw [if_neg hend]
      refine ⟨by dsimp only; omega, ?_⟩
      dsimp only at hle ⊢
      rw [calcRecordLength, readKeyInfo_packedLength]
      rw [toInt32_of_range (by omega) (by omega)]
      omega

/-- **Every branch of the reading counts the bytes that it has read.** -/
theorem readRecord_accounted (file : Bytes) (io : PieceIo) {buff : Bytes}
    (hs : s.totalReadBytes = buff.length) (hpos : s.totalReadBytes ≤ s.pos)
    (hfile : file.length < 2 ^ 31) : Accounted s (readRecord file io buff s) := by
  have hinvalid : Accounted s (.error EINVAL, s) := ⟨rfl, by decide⟩
  unfold readRecord
  by_cases hbuff : buff.length ≠ binlogFixFieldsLength
  · rw [if_pos hbuff]
    exact ⟨rfl, by decide⟩
  rw [if_neg hbuff]
  split
  · exact hinvalid
  split
  · exact hinvalid
  split
  · exact hinvalid
  split_ifs with hn ho hk hkey hvalue
  · exact hinvalid
  · exact hinvalid
  · exact readKeyAndValue_accounted hn ho hk _ (not_lt.mp hvalue)
      (hs.trans (not_not.mp hbuff)) hpos hfile
  · exact hinvalid
  · exact hinvalid
  · exact hinvalid

end Record

/-! ## The descriptor -/

/-- Whenever a call comes to the end of a file that is not the last, the next one can be
opened. -/
def BinlogDir.OpensNext (d : BinlogDir) : Nat → Nat → Nat → Prop
  | 0, _, _ => True
  | later + 1, index, offset => d.readErrno index = none → (d.file index).drop offset = [] →
      d.openErrno (index + 1) = none ∧
        (d.markResult (index + 1) = 0 → d.OpensNext later (index + 1) 0)

/-- The position of a reader after a call that has started at `index` and `offset`: the same,
or the start of a later file. -/
def Kept (index offset : Nat) (r : ReaderPosition) : Prop :=
  r.binlogIndex = index ∧ r.binlogOffset = offset ∨ index < r.binlogIndex ∧ r.binlogOffset = 0

/-- What the first loop leaves: the descriptor behind the bytes, or at the position of the
reader. -/
def FixFieldsRead (index offset : Nat) : Except Int Bytes × ReaderPosition → Prop
  | (.ok buff, r) => Kept index offset r ∧
      r.binlogFd = some (r.binlogIndex, r.binlogOffset + buff.length)
  | (.error result, r) => result ≠ 0 ∧ Kept index offset r ∧
      r.binlogFd = some (r.binlogIndex, r.binlogOffset)

theorem FixFieldsRead.next {index offset : Nat} {x : Except Int Bytes × ReaderPosition}
    (h : FixFieldsRead (index + 1) 0 x) : FixFieldsRead index offset x := by
  have hkept : ∀ {r : ReaderPosition}, Kept (index + 1) 0 r → Kept index offset r := by
    rintro r (⟨hindex, hoffset⟩ | ⟨hlt, hoffset⟩)
    · exact .inr ⟨by omega, hoffset⟩
    · exact .inr ⟨by omega, hoffset⟩
  obtain ⟨_ | buff, r⟩ := x
  · exact ⟨h.1, hkept h.2.1, h.2.2⟩
  · exact ⟨hkept h.1, h.2⟩

section Descriptor

theorem readFixFields_last (d : BinlogDir) (index offset : Nat) :
    FixFieldsRead index offset (readFixFields d 0 (readerAt index offset)) := by
  unfold readFixFields readerAt
  dsimp only
  split
  · exact ⟨errnoOr_ne_zero _ (by decide), .inl ⟨rfl, rfl⟩, rfl⟩
  split
  · exact ⟨.inl ⟨rfl, rfl⟩, rfl⟩
  · exact ⟨by decide, .inl ⟨rfl, rfl⟩, rfl⟩

/-- The loop keeps the position, or a file cannot be opened and there is no descriptor. -/
theorem readFixFields_spec (d : BinlogDir) (later index offset : Nat) :
    (d.OpensNext later index offset →
      FixFieldsRead index offset (readFixFields d later (readerAt index offset))) ∧
    (¬ d.OpensNext later index offset → ∃ result r,
      readFixFields d later (readerAt index offset) = (.error result, r) ∧ r.binlogFd = none) := by
  induction later generalizing index offset with
  | zero => exact ⟨fun _ => readFixFields_last d index offset, fun h => absurd trivial h⟩
  | succ later ih =>
    unfold readFixFields BinlogDir.OpensNext
    rw [show (readerAt index offset).binlogFd = some (index, offset) from rfl,
      show (readerAt index offset).binlogIndex = index from rfl]
    dsimp only
    cases hread : d.readErrno index with
    | some errno =>
      exact ⟨fun _ => ⟨errnoOr_ne_zero errno (by decide), .inl ⟨rfl, rfl⟩, rfl⟩,
        fun h => absurd (fun h => nomatch h) h⟩
    | none =>
      by_cases hbuff : ((d.file index).drop offset).take binlogFixFieldsLength ≠ []
      · rw [if_pos hbuff]
        refine ⟨fun _ => ⟨.inl ⟨rfl, rfl⟩, rfl⟩, fun h => absurd (fun _ hend => ?_) h⟩
        rw [hend, List.take_nil] at hbuff
        exact absurd rfl hbuff
      have hend : (d.file index).drop offset = [] :=
        (List.take_eq_nil_iff.mp (not_not.mp hbuff)).resolve_left (by decide)
      simp only [hend, forall_const]
      cases hopen : d.openErrno (index + 1) with
      | some errno => exact ⟨fun h => (nomatch h.1), fun _ => ⟨_, _, rfl, rfl⟩⟩
      | none =>
        by_cases hmark : d.markResult (index + 1) ≠ 0
        · rw [if_pos hmark]
          exact ⟨fun _ => ⟨hmark, .inr ⟨Nat.lt_succ_self _, rfl⟩, rfl⟩,
            fun h => absurd ⟨rfl, fun h => absurd h hmark⟩ h⟩
        · rw [if_neg hmark]
          obtain ⟨hopens, hfails⟩ := ih (index + 1) 0
          refine ⟨fun h => (hopens (h.2 (not_not.mp hmark))).next, fun h => hfails fun hnext => ?_⟩
          exact h ⟨rfl, fun _ => hnext⟩

/-- The caller gets a record and the descriptor is behind it, or an error and the descriptor is
where the reader is. Then `binlog_offset += record_length` meets the descriptor. -/
def AllOrNothing (d : BinlogDir) (index offset : Nat) : Prop :=
  match fdhtBinlogReadFd d (readerAt index offset) with
  | (.ok (_, recordLength), r) => Kept index offset r ∧ ∃ pos : Nat,
      r.binlogFd = some (r.binlogIndex, pos) ∧ (pos : Int) = r.binlogOffset + recordLength
  | (.error result, r) => result ≠ 0 ∧ Kept index offset r ∧
      r.binlogFd = some (r.binlogIndex, r.binlogOffset)

/-- **`fdht_binlog_read` keeps the descriptor in step exactly if it can open the files that it
comes to.** -/
theorem binlog_read_all_or_nothing_iff (d : BinlogDir) (index offset : Nat) :
    AllOrNothing d index offset ↔ d.OpensNext (d.gBinlogIndex - index) index offset := by
  unfold AllOrNothing fdhtBinlogReadFd
  rw [show (readerAt index offset).binlogIndex = index from rfl,
    show (readerAt index offset).binlogOffset = offset from rfl]
  by_cases hread : index = d.gBinlogIndex ∧ offset = d.gBinlogFileSize
  · rw [if_pos hread, hread.1, Nat.sub_self]
    exact iff_of_true ⟨by decide, .inl ⟨rfl, rfl⟩, rfl⟩ trivial
  rw [if_neg hread]
  obtain ⟨hopens, hfails⟩ := readFixFields_spec d (d.gBinlogIndex - index) index offset
  by_cases hnext : d.OpensNext (d.gBinlogIndex - index) index offset
  · refine iff_of_true ?_ hnext
    have hfix := hopens hnext
    generalize readFixFields d (d.gBinlogIndex - index) (readerAt index offset) = x at hfix
    obtain ⟨_ | buff, r⟩ := x
    · exact hfix
    obtain ⟨hkept, hfd⟩ := hfix
    dsimp only
    rw [hfd]
    dsimp only
    have hrecord := readRecord_accounted (s := ⟨r.binlogOffset + buff.length, buff.length⟩)
      (d.file r.binlogIndex) d.io rfl (Nat.le_add_left _ _) (d.file_lt _)
    generalize readRecord (d.file r.binlogIndex) d.io buff
      ⟨r.binlogOffset + buff.length, buff.length⟩ = x at hrecord
    obtain ⟨result | ⟨record, recordLength⟩, s⟩ := x
    · obtain ⟨hpos, hne⟩ := hrecord
      dsimp only at hpos
      refine ⟨hne, hkept, ?_⟩
      show some (r.binlogIndex, rewindToPrevRecEnd s) = some (r.binlogIndex, r.binlogOffset)
      rw [rewindToPrevRecEnd, if_pos (by omega)]
      congr 2
      omega
    · obtain ⟨hpos, hlength⟩ := hrecord
      dsimp only at hpos
      exact ⟨hkept, s.pos, rfl, by dsimp only; omega⟩
  · refine iff_of_false ?_ hnext
    obtain ⟨result, r, hx, hnone⟩ := hfails hnext
    rw [hx]
    rintro ⟨-, -, hfd⟩
    exact nomatch hnone.symm.trans hfd

end Descriptor

/-- File 0 has been read to its end, and file 1 of the writer is not there. -/
def missingFile : BinlogDir where
  gBinlogIndex := 1
  gBinlogFileSize := 0
  file := fun _ => []
  file_lt := fun _ => Nat.two_pow_pos 31
  openErrno := fun _ => some ENOENT
  readErrno := fun _ => none
  markResult := fun _ => 0
  io := ⟨none, none, none, 0⟩

/-- The call returns `ENOENT`, as at the end of the log, and the reader has no descriptor. -/
theorem binlog_read_loses_descriptor :
    fdhtBinlogReadFd missingFile (readerAt 0 0) = (.error ENOENT, ⟨1, 0, none⟩) ∧
      ¬ AllOrNothing missingFile 0 0 := by
  have hread : fdhtBinlogReadFd missingFile (readerAt 0 0) = (.error ENOENT, ⟨1, 0, none⟩) := rfl
  refine ⟨hread, ?_⟩
  exact fun h => nomatch h.2.2

/-! ## The bytes alone -/

section Pure

variable {d : BinlogDir} (hkey : d.io.keyErrno = none) (hmalloc : d.io.mallocErrno = none)
  (hvalue : d.io.valueErrno = none)
include hkey hmalloc hvalue

theorem readRecord_eq {file : Bytes} (hfile : file.length < 2 ^ 31) (offset : Nat) {buff : Bytes}
    (hbuff : buff = (file.drop offset).take binlogFixFieldsLength) :
    (readRecord file d.io buff ⟨offset + buff.length, buff.length⟩).1 =
      fdhtBinlogRead (file.drop offset) := by
  unfold readRecord fdhtBinlogRead
  rw [← hbuff]
  by_cases hlen : buff.length ≠ binlogFixFieldsLength
  · rw [if_pos hlen, if_pos hlen]
  rw [if_neg hlen, if_neg hlen, not_not.mp hlen]
  cases scanFixFields (buff.takeWhile (· ≠ 0)) with
  | none => rfl
  | some f =>
    dsimp only
    by_cases htime : toUInt32 f.timestamp = 0
    · rw [if_pos htime, if_pos htime]
    rw [if_neg htime, if_neg htime]
    cases OpType.ofByte f.opType with
    | none => rfl
    | some opType =>
      -- with the whole key the value starts behind it
      unfold readKeyAndValue readPiece
      rw [hkey, hmalloc, hvalue]
      have hpacked := @readKeyInfo_packedLength f
      generalize f.namespaceLen.toNat + 1 + f.objIdLen.toNat + 1 + f.keyLen.toNat + 1 =
        fullKeyLen at hpacked ⊢
      simp only [ite_self, List.drop_drop, Nat.add_assoc]
      revert hfile hpacked
      by_cases hwhole : (List.take fullKeyLen
          (List.drop (offset + binlogFixFieldsLength) file)).length ≠ fullKeyLen
      · split_ifs <;> exact fun _ _ => rfl
      · simp only [not_not.mp hwhole]
        split_ifs with hn ho hk hempty hneg hkeyLen hlast hend
        case neg =>
          intro hfile hpacked
          simp only [List.length_take, List.length_drop] at hlast
          rw [calcRecordLength, hpacked, toInt32_of_range (by omega) (by omega)]
        all_goals exact fun _ _ => rfl

/-- If no call fails, what is returned is `fdhtBinlogRead` of what the file holds from the
position of the reader on. -/
theorem fdhtBinlogReadFd_eq {index offset : Nat} (hread : d.readErrno index = none)
    (hrest : (d.file index).drop offset ≠ [])
    (hmore : ¬ (index = d.gBinlogIndex ∧ offset = d.gBinlogFileSize)) :
    (fdhtBinlogReadFd d (readerAt index offset)).1 =
      fdhtBinlogRead ((d.file index).drop offset) := by
  have hbuff : ((d.file index).drop offset).take binlogFixFieldsLength ≠ [] := fun h =>
    hrest ((List.take_eq_nil_iff.mp h).resolve_left (by decide))
  rw [← readRecord_eq hkey hmalloc hvalue (d.file_lt index) offset rfl]
  unfold fdhtBinlogReadFd readFixFields readerAt
  dsimp only
  rw [if_neg hmore, hread]
  rw [if_pos hbuff]
  dsimp only
  generalize readRecord (d.file index) d.io _ _ = x
  rcases x with ⟨_ | _, _⟩ <;> rfl

end Pure

def oneRecord : BinlogDir := { missingFile with
  file := fun _ => fdhtBinlogWrite ⟨1000, .sourceSet, 0, 0,
    ⟨[], [], [97], noNamespace_le, noObjectId_le, keyA_le⟩, [120], 1⟩
  file_lt := fun _ => by decide }

theorem fdhtBinlogReadFd_eq_one : (fdhtBinlogReadFd oneRecord (readerAt 0 0)).1 =
    fdhtBinlogRead (oneRecord.file 0) :=
  fdhtBinlogReadFd_eq rfl rfl rfl rfl (by decide) (by decide)

end FastDht
