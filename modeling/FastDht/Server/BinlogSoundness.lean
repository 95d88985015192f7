import FastDht.Server.Binlog

/-! # What the binlog reader makes of what the writer wrote

`Loggable` says of the arguments of a write exactly when the record can be read
back: the three signed fields fit their columns, the time is not 0, the key is
not empty and the value length is not negative. A log of such records is read
back record by record. -/
namespace FastDht
open Lib

/-- The record a reader should see for a write. -/
def LogWrite.record (w : LogWrite) : BinLogRecord where
  timestamp := toUInt32 (toInt32 w.timestamp)
  opType := w.opType
  keyHashCode := toInt32 w.keyHashCode
  keyInfo := w.keyInfo
  value := w.value
  expires := toUInt32 (toInt32 w.expires)

/-- The signed fields fit their columns: an `int` prints in at most 10
characters unless it is `-10^9` or less. -/
structure LogWrite.Fits (w : LogWrite) : Prop where
  timestamp : -10 ^ 9 < toInt32 w.timestamp
  keyHashCode : -10 ^ 9 < toInt32 w.keyHashCode
  expires : -10 ^ 9 < toInt32 w.expires

structure LogWrite.Loggable (w : LogWrite) : Prop extends w.Fits where
  timestamp_ne : toInt32 w.timestamp ≠ 0
  key_ne : w.keyInfo.szKey ≠ []
  len_nonneg : 0 ≤ w.len

instance (w : LogWrite) : Decidable w.Fits :=
  decidable_of_iff (-10 ^ 9 < toInt32 w.timestamp ∧ -10 ^ 9 < toInt32 w.keyHashCode ∧
    -10 ^ 9 < toInt32 w.expires) ⟨fun h => ⟨h.1, h.2.1, h.2.2⟩, fun h => ⟨h.1, h.2, h.3⟩⟩

instance (w : LogWrite) : Decidable w.Loggable :=
  decidable_of_iff (w.Fits ∧ toInt32 w.timestamp ≠ 0 ∧ w.keyInfo.szKey ≠ [] ∧ 0 ≤ w.len)
    ⟨fun h => ⟨h.1, h.2.1, h.2.2.1, h.2.2.2⟩, fun h => ⟨h.1, h.2, h.3, h.4⟩⟩

/-! ## Lengths -/

theorem formatInt_toInt32_le (n : Int) : (formatInt (toInt32 n)).length ≤ 10 ↔ -10 ^ 9 < toInt32 n := by
  rw [formatInt_length_le (by decide)]
  have := toInt32_lt n
  constructor
  · exact fun h => h.1
  · exact fun h => ⟨h, by omega⟩

theorem formatInt_small {n : Nat} (h : n ≤ 128) : (formatInt n).length ≤ 4 := by
  rw [formatInt_length_le (by decide)]
  constructor <;> omega

theorem FDHTKeyInfo.namespace_fits (k : FDHTKeyInfo) : (formatInt k.szNameSpace.length).length ≤ 4 :=
  formatInt_small (k.namespaceLen_le.trans (by decide))

theorem FDHTKeyInfo.objId_fits (k : FDHTKeyInfo) : (formatInt k.szObjectId.length).length ≤ 4 :=
  formatInt_small k.objIdLen_le

theorem FDHTKeyInfo.key_fits (k : FDHTKeyInfo) : (formatInt k.szKey.length).length ≤ 4 :=
  formatInt_small k.keyLen_le

/-- The fields with the columns they take; a wide one takes more. -/
theorem fixFields_length (w : LogWrite) :
    w.fixFields.length = 11 + max 10 (formatInt (toInt32 w.timestamp)).length +
      max 10 (formatInt (toInt32 w.keyHashCode)).length +
      max 10 (formatInt (toInt32 w.expires)).length + 10 + max 10 (formatInt w.len).length := by
  have hn := w.keyInfo.namespace_fits
  have ho := w.keyInfo.objId_fits
  have hk := w.keyInfo.key_fits
  simp only [LogWrite.fixFields, List.length_append, List.length_cons, printInt_length,
    List.length_nil]
  omega

theorem packFullKeyInfo_length (k : FDHTKeyInfo) : k.packFullKeyInfo.length = k.packedLength := by
  simp [FDHTKeyInfo.packFullKeyInfo, FDHTKeyInfo.packedLength]
  omega

theorem value_length (w : LogWrite) : w.value.length = w.len.toNat := by simp [LogWrite.value]

theorem fdhtBinlogWrite_length (w : LogWrite) :
    ((fdhtBinlogWrite w).length : Int) = calcRecordLength w.keyInfo w.len ↔ w.Fits ∧ 0 ≤ w.len := by
  have hfix := fixFields_length w
  have hlen : (formatInt w.len).length ≤ 10 ↔ -10 ^ 9 < w.len := formatInt_toInt32_le _
  have h1 := formatInt_toInt32_le w.timestamp
  have h2 := formatInt_toInt32_le w.keyHashCode
  have h3 := formatInt_toInt32_le w.expires
  have htotal : (fdhtBinlogWrite w).length =
      w.fixFields.length + (w.keyInfo.packedLength + (w.len.toNat + 1)) := by
    simp [fdhtBinlogWrite, packFullKeyInfo_length, value_length]
  have hcalc : calcRecordLength w.keyInfo w.len = 61 + w.keyInfo.packedLength + w.len + 1 := rfl
  constructor
  · intro h
    exact ⟨⟨h1.mp (by omega), h2.mp (by omega), h3.mp (by omega)⟩, by omega⟩
  · rintro ⟨hf, hpos⟩
    have := h1.mpr hf.timestamp
    have := h2.mpr hf.keyHashCode
    have := h3.mpr hf.expires
    omega

theorem LogWrite.Fits.widths {w : LogWrite} (hf : w.Fits) (hpos : 0 ≤ w.len) :
    (formatInt (toInt32 w.timestamp)).length ≤ 10 ∧
      (formatInt (toInt32 w.keyHashCode)).length ≤ 10 ∧
      (formatInt (toInt32 w.expires)).length ≤ 10 ∧ (formatInt w.len).length ≤ 10 := by
  unfold len at hpos ⊢
  exact ⟨(formatInt_toInt32_le _).mpr hf.timestamp, (formatInt_toInt32_le _).mpr hf.keyHashCode,
    (formatInt_toInt32_le _).mpr hf.expires, (formatInt_toInt32_le _).mpr (by omega)⟩

theorem fixFields_length_of_fits {w : LogWrite} (hf : w.Fits) (hpos : 0 ≤ w.len) :
    w.fixFields.length = binlogFixFieldsLength := by
  have hfix := fixFields_length w
  obtain ⟨h1, h2, h3, h4⟩ := hf.widths hpos
  have : binlogFixFieldsLength = 61 := rfl
  omega

/-! ## Scanning the fields -/

theorem OpType.ofByte_toByte (op : OpType) : OpType.ofByte op.toByte = some op := by
  cases op <;> rfl

theorem OpType.isSpace_toByte (op : OpType) : isSpace op.toByte = false := by
  cases op <;> rfl

theorem fixFields_no_nul (w : LogWrite) : w.fixFields.takeWhile (· ≠ 0) = w.fixFields := by
  rw [List.takeWhile_eq_self_iff]
  intro b hb
  have hop : w.opType.toByte ≠ 0 := by cases w.opType <;> decide
  simp only [LogWrite.fixFields, List.mem_append, List.mem_cons, List.not_mem_nil, or_false] at hb
  rcases hb with h | rfl | rfl | rfl | h | rfl | h | rfl | h | rfl | h | rfl | h | rfl | h | rfl
  all_goals first
    | decide
    | simpa using hop
    | simpa using ne_of_mem_of_not_mem h (zero_not_mem_printInt _ _)

theorem scanFixFields_fixFields {w : LogWrite} (hf : w.Fits) (hpos : 0 ≤ w.len) :
    scanFixFields w.fixFields = some {
      timestamp := toInt32 w.timestamp
      opType := w.opType.toByte
      keyHashCode := toInt32 w.keyHashCode
      expires := toInt32 w.expires
      namespaceLen := w.keyInfo.szNameSpace.length
      objIdLen := w.keyInfo.szObjectId.length
      keyLen := w.keyInfo.szKey.length
      valueLen := w.len } := by
  obtain ⟨h1, h2, h3, h4⟩ := hf.widths hpos
  have hsmall : ∀ n : Nat, n ≤ 128 → toInt32 n = n := fun n hn =>
    toInt32_of_range (by omega) (by omega)
  have hlen : toInt32 w.len = w.len := toInt32_toInt32 _
  have hrest : ∀ s : Bytes, (32 :: s).head?.any isDigit = false := fun s => rfl
  unfold scanFixFields LogWrite.fixFields
  simp only [scanInt_printInt h1 (hrest _), Option.bind_eq_bind, Option.bind_some,
    scanChar_blank w.opType.isSpace_toByte, scanInt_blank, scanInt_printInt h2 (hrest _),
    scanInt_printInt h3 (hrest _), scanInt_printInt w.keyInfo.namespace_fits (hrest _),
    scanInt_printInt w.keyInfo.objId_fits (hrest _), scanInt_printInt w.keyInfo.key_fits (hrest _),
    scanInt_printInt h4 (hrest _), toInt32_toInt32, hlen,
    hsmall _ (w.keyInfo.namespaceLen_le.trans (by decide)), hsmall _ w.keyInfo.objIdLen_le,
    hsmall _ w.keyInfo.keyLen_le, Option.pure_def]

/-! ## Reading a record -/

theorem checkFieldValue_length {n m : Nat} (h : n ≤ m) : checkFieldValue n m = true := by
  simp only [checkFieldValue, Bool.and_eq_true, decide_eq_true_eq]
  omega

theorem readKeyInfo_pack {f : FixFields} {k : FDHTKeyInfo} (hn ho hk)
    (h1 : f.namespaceLen = k.szNameSpace.length) (h2 : f.objIdLen = k.szObjectId.length)
    (h3 : f.keyLen = k.szKey.length) : readKeyInfo f hn ho hk k.packFullKeyInfo = k := by
  have r1 : readAt k.packFullKeyInfo 0 k.szNameSpace.length = k.szNameSpace :=
    readAt_append [] k.szNameSpace _
  have r2 : readAt k.packFullKeyInfo (k.szNameSpace.length + 1) k.szObjectId.length =
      k.szObjectId := by
    have h := readAt_append (k.szNameSpace ++ [32]) k.szObjectId (32 :: (k.szKey ++ [32]))
    rwa [List.length_append, List.length_singleton, List.append_assoc] at h
  have r3 : readAt k.packFullKeyInfo (k.szNameSpace.length + 1 + k.szObjectId.length + 1)
      k.szKey.length = k.szKey := by
    have h := readAt_append (k.szNameSpace ++ 32 :: (k.szObjectId ++ [32])) k.szKey [32]
    have hoff : (k.szNameSpace ++ 32 :: (k.szObjectId ++ [32])).length =
        k.szNameSpace.length + 1 + k.szObjectId.length + 1 := by simp; omega
    simp only [hoff, List.append_assoc, List.cons_append, List.nil_append] at h
    exact h
  unfold readKeyInfo
  simp only [h1, h2, h3, Int.toNat_natCast, r1, r2, r3]

section Pieces

variable {w : LogWrite} (hf : w.Fits) (hpos : 0 ≤ w.len) (rest : Bytes)
include hf hpos

/-- The reader finds the fixed fields in front and the key behind them. -/
theorem fdhtBinlogWrite_split :
    (fdhtBinlogWrite w ++ rest).take binlogFixFieldsLength = w.fixFields ∧
      (fdhtBinlogWrite w ++ rest).drop binlogFixFieldsLength =
        w.keyInfo.packFullKeyInfo ++ (w.value ++ 10 :: rest) := by
  have hfile : fdhtBinlogWrite w ++ rest =
      w.fixFields ++ (w.keyInfo.packFullKeyInfo ++ (w.value ++ 10 :: rest)) := by
    simp [fdhtBinlogWrite]
  rw [hfile, ← fixFields_length_of_fits hf hpos, List.take_left, List.drop_left]
  exact ⟨rfl, rfl⟩

omit hf hpos in
theorem packFullKeyInfo_take (k : FDHTKeyInfo) (rest : Bytes) :
    (k.packFullKeyInfo ++ rest).take k.packedLength = k.packFullKeyInfo := by
  rw [← packFullKeyInfo_length, List.take_left]

theorem fdhtBinlogRead_write_of_fits :
    fdhtBinlogRead (fdhtBinlogWrite w ++ rest) =
      if toInt32 w.timestamp = 0 ∨ w.keyInfo.szKey = [] then .error EINVAL
      else .ok (w.record, calcRecordLength w.keyInfo w.len) := by
  have hfix := fixFields_length_of_fits hf hpos
  have hpack := packFullKeyInfo_length w.keyInfo
  have hvalue := value_length w
  obtain ⟨htake, hdrop⟩ := fdhtBinlogWrite_split hf hpos rest
  have hbody : ((w.keyInfo.packFullKeyInfo ++ (w.value ++ 10 :: rest)).drop
      w.keyInfo.packedLength).take (w.len.toNat + 1) = w.value ++ [10] := by
    rw [← hpack, List.drop_left, ← hvalue, List.take_append, List.take_of_length_le (by omega)]
    simp
  have htime : toUInt32 (toInt32 w.timestamp) = 0 ↔ toInt32 w.timestamp = 0 := by
    have := toInt32_lt w.timestamp
    have := le_toInt32 w.timestamp
    unfold toUInt32
    omega
  have hn := checkFieldValue_length w.keyInfo.namespaceLen_le
  have ho := checkFieldValue_length w.keyInfo.objIdLen_le
  have hk := checkFieldValue_length w.keyInfo.keyLen_le
  have hfull : w.keyInfo.szNameSpace.length + 1 + w.keyInfo.szObjectId.length + 1 +
      w.keyInfo.szKey.length + 1 = w.keyInfo.packedLength := rfl
  have hempty : ((w.keyInfo.szKey.length : Int) = 0) ↔ w.keyInfo.szKey = [] := by
    rw [Int.natCast_eq_zero, List.length_eq_zero_iff]
  unfold fdhtBinlogRead
  simp only [htake, hfix, ne_eq, not_true_eq_false, if_false, fixFields_no_nul,
    scanFixFields_fixFields hf hpos, OpType.ofByte_toByte, htime, hempty, dif_pos hn, dif_pos ho,
    dif_pos hk, Int.toNat_natCast, hfull, if_neg (not_lt.mpr hpos), ← List.drop_drop, hdrop,
    packFullKeyInfo_take, hbody, hpack, List.length_append, hvalue, List.length_singleton]
  by_cases ht : toInt32 w.timestamp = 0
  · simp [ht]
  by_cases hke : w.keyInfo.szKey = []
  · simp [hke]
  have hlast : (w.value ++ [10]).getD w.len.toNat 0 = 10 := by
    rw [← hvalue, List.getD_append_right _ _ _ _ (le_refl _), Nat.sub_self]
    rfl
  have hfront : (w.value ++ [10]).take w.len.toNat = w.value := by
    rw [← hvalue, List.take_left]
  simp only [ht, hke, if_false, or_self, hlast, not_true_eq_false, hfront]
  rw [readKeyInfo_pack (k := w.keyInfo) hn ho hk rfl rfl rfl]
  rfl

end Pieces

/-- **A loggable record is read back**, and the reader advances by its length. -/
theorem fdhtBinlogRead_write {w : LogWrite} (hl : w.Loggable) (rest : Bytes) :
    fdhtBinlogRead (fdhtBinlogWrite w ++ rest) =
      .ok (w.record, ((fdhtBinlogWrite w).length : Int)) := by
  rw [fdhtBinlogRead_write_of_fits hl.toFits hl.len_nonneg,
    if_neg (by simp [hl.timestamp_ne, hl.key_ne]),
    (fdhtBinlogWrite_length w).mpr ⟨hl.toFits, hl.len_nonneg⟩]

theorem LogWrite.Loggable.readBytes {w : LogWrite} (hl : w.Loggable) :
    w.record.readBytes = (fdhtBinlogWrite w).length := by
  have hlen := (fdhtBinlogWrite_length w).mpr ⟨hl.toFits, hl.len_nonneg⟩
  have hvalue : w.record.value.length = w.len.toNat := value_length w
  have hkey : w.record.keyInfo = w.keyInfo := rfl
  have hpos := hl.len_nonneg
  unfold calcRecordLength at hlen
  unfold BinLogRecord.readBytes
  rw [hvalue, hkey]
  omega

/-- A record is accepted by the reader and has its calculated length exactly if
it is loggable. -/
theorem loggable_iff (w : LogWrite) :
    w.Loggable ↔ (∃ r, fdhtBinlogRead (fdhtBinlogWrite w) = .ok r) ∧
      ((fdhtBinlogWrite w).length : Int) = calcRecordLength w.keyInfo w.len := by
  rw [fdhtBinlogWrite_length]
  constructor
  · intro hl
    have hread := fdhtBinlogRead_write hl []
    rw [List.append_nil] at hread
    exact ⟨⟨_, hread⟩, hl.toFits, hl.len_nonneg⟩
  · rintro ⟨⟨r, hr⟩, hf, hpos⟩
    have hread := fdhtBinlogRead_write_of_fits hf hpos []
    rw [List.append_nil, hr] at hread
    split at hread
    · cases hread
    · rename_i hne
      rw [not_or] at hne
      exact ⟨hf, hne.1, hne.2, hpos⟩

/-! ## Whole logs -/

/-- At the start of a record of a log, the reader returns the record and gets to
the start of the next one. -/
theorem fdhtBinlogRead_at {ws : List LogWrite} (hws : ∀ w ∈ ws, w.Loggable) {n : Nat}
    {r : BinLogRecord} {len : Int} (hread : fdhtBinlogRead ((ws.flatMap fdhtBinlogWrite).drop
      ((ws.take n).flatMap fdhtBinlogWrite).length) = .ok (r, len)) :
    ∃ w rest, ws.drop n = w :: rest ∧ r = w.record ∧ ws.take (n + 1) = ws.take n ++ [w] ∧
      ((ws.take n).flatMap fdhtBinlogWrite).length + r.readBytes =
        ((ws.take (n + 1)).flatMap fdhtBinlogWrite).length := by
  have hsplit : ws.flatMap fdhtBinlogWrite = (ws.take n).flatMap fdhtBinlogWrite ++
      (ws.drop n).flatMap fdhtBinlogWrite := by
    rw [← List.flatMap_append, List.take_append_drop]
  rw [hsplit, List.drop_left] at hread
  rcases hrest : ws.drop n with _ | ⟨w, rest⟩
  · rw [hrest] at hread
    cases hread
  have hw : w.Loggable := hws w (List.mem_of_mem_drop (hrest ▸ List.mem_cons_self))
  rw [hrest, List.flatMap_cons, fdhtBinlogRead_write hw] at hread
  obtain ⟨rfl, -⟩ := Prod.mk.inj (Except.ok.inj hread)
  have htake : ws.take (n + 1) = ws.take n ++ [w] := by
    rw [List.take_add, hrest]
    rfl
  refine ⟨w, rest, rfl, rfl, htake, ?_⟩
  rw [htake, List.flatMap_append, List.length_append, hw.readBytes]
  simp

/-- The arguments with which a record is written. -/
def BinLogRecord.logWrite (r : BinLogRecord) : LogWrite where
  timestamp := r.timestamp
  opType := r.opType
  keyHashCode := r.keyHashCode
  expires := r.expires
  keyInfo := r.keyInfo
  pValue := r.value
  valueLen := r.value.length

/-- The fields are in the range of positive `int`s and the key is not empty. -/
structure BinLogRecord.InRange (r : BinLogRecord) : Prop where
  timestamp_pos : 1 ≤ r.timestamp
  timestamp_lt : r.timestamp < 2 ^ 31
  keyHashCode_nonneg : 0 ≤ r.keyHashCode
  keyHashCode_lt : r.keyHashCode < 2 ^ 31
  expires_nonneg : 0 ≤ r.expires
  expires_lt : r.expires < 2 ^ 31
  keyLen_pos : 1 ≤ r.keyInfo.szKey.length
  /-- The record length and `value.size`, which has 1024 bytes to spare, are `int`s. -/
  valueLen_lt : r.value.length + 1024 < 2 ^ 31

section RoundTrip

variable {r : BinLogRecord}

theorem BinLogRecord.logWrite_value (h : r.value.length + 1024 < 2 ^ 31) :
    r.logWrite.len = r.value.length ∧ r.logWrite.value = r.value := by
  have hlen : r.logWrite.len = r.value.length := toInt32_of_range (by simp only [logWrite]; omega)
    (by simp only [logWrite]; omega)
  refine ⟨hlen, ?_⟩
  have hself := readAt_append [] r.value []
  simp only [List.nil_append, List.append_nil, List.length_nil] at hself
  rw [LogWrite.value, hlen, Int.toNat_natCast]
  exact hself

theorem BinLogRecord.InRange.loggable (h : r.InRange) : r.logWrite.Loggable := by
  obtain ⟨ht, ht', hh, hh', he, he', hk, hv⟩ := h
  have hsame : ∀ n : Int, 0 ≤ n → n < 2 ^ 31 → toInt32 n = n := fun n h0 hlt =>
    toInt32_of_range (by omega) hlt
  have htime : toInt32 r.logWrite.timestamp = r.timestamp := hsame r.timestamp (by omega) ht'
  have hhash : toInt32 r.logWrite.keyHashCode = r.keyHashCode := hsame _ hh hh'
  have hexp : toInt32 r.logWrite.expires = r.expires := hsame _ he he'
  have hlen := (BinLogRecord.logWrite_value hv).1
  exact {
    timestamp := by omega
    keyHashCode := by omega
    expires := by omega
    timestamp_ne := by omega
    key_ne := fun hnil => by
      have hlen0 : r.keyInfo.szKey.length = 0 := congrArg List.length hnil
      omega
    len_nonneg := by omega }

theorem BinLogRecord.InRange.record_logWrite (h : r.InRange) : r.logWrite.record = r := by
  have hsame : ∀ n : Int, 0 ≤ n → n < 2 ^ 31 → (toUInt32 (toInt32 n) : Int) = n := by
    intro n h0 hlt
    rw [toInt32_of_range (by omega) hlt]
    unfold toUInt32
    omega
  have htime := hsame r.timestamp (by have := h.timestamp_pos; omega) h.timestamp_lt
  have hexp := hsame r.expires h.expires_nonneg h.expires_lt
  have hhash : toInt32 r.keyHashCode = r.keyHashCode :=
    toInt32_of_range (by have := h.keyHashCode_nonneg; omega) h.keyHashCode_lt
  have hvalue := (BinLogRecord.logWrite_value h.valueLen_lt).2
  unfold LogWrite.record
  rw [hvalue]
  simp only [logWrite, htime, hexp, hhash]

theorem BinLogRecord.InRange.length_write (h : r.InRange) :
    (fdhtBinlogWrite r.logWrite).length = r.readBytes := by
  rw [← h.loggable.readBytes, h.record_logWrite]

end RoundTrip

/-- **A binlog is read back record by record**, each with the length that has
been read, and then the reader is at the end. -/
theorem binlog_round_trip (log : List BinLogRecord) (hall : ∀ r ∈ log, r.InRange) (n : Nat)
    (hn : log.length < n) :
    binlogReadAll n (log.flatMap fun r => fdhtBinlogWrite r.logWrite) =
      (log.map fun r => (r, (r.readBytes : Int)), ENOENT) := by
  induction log generalizing n with
  | nil =>
    obtain ⟨m, rfl⟩ := Nat.exists_eq_add_one_of_ne_zero (Nat.ne_zero_of_lt hn)
    rfl
  | cons r log ih =>
    obtain ⟨m, rfl⟩ := Nat.exists_eq_add_one_of_ne_zero (Nat.ne_zero_of_lt hn)
    have hr : r.InRange := hall r List.mem_cons_self
    have hrest := ih (fun r' hr' => hall r' (List.mem_cons_of_mem _ hr')) m
      (Nat.lt_of_succ_lt_succ hn)
    have hread := fdhtBinlogRead_write hr.loggable
      (log.flatMap fun r => fdhtBinlogWrite r.logWrite)
    rw [hr.record_logWrite, hr.length_write] at hread
    have hdrop : (fdhtBinlogWrite r.logWrite ++
        log.flatMap fun r => fdhtBinlogWrite r.logWrite).drop r.readBytes =
          log.flatMap fun r => fdhtBinlogWrite r.logWrite := by
      rw [← hr.length_write, List.drop_left]
    rw [List.flatMap_cons, binlogReadAll, hread]
    dsimp only
    rw [hdrop, hrest]
    rfl

/-- A SET of the key `a` to a blank, a newline and a NUL, and its DEL. -/
def setAndDel : List BinLogRecord :=
  [⟨1, .sourceSet, 0, ⟨[], [], [97], noNamespace_le, noObjectId_le, keyA_le⟩, [32, 10, 0], 0⟩,
    ⟨2, .sourceDel, 0, ⟨[], [], [97], noNamespace_le, noObjectId_le, keyA_le⟩, [], 0⟩]

theorem binlog_round_trip_set_del :
    (∀ r ∈ setAndDel, r.InRange) ∧
      binlogReadAll 3 (setAndDel.flatMap fun r => fdhtBinlogWrite r.logWrite) =
        (setAndDel.map fun r => (r, (r.readBytes : Int)), ENOENT) := by
  have hall : ∀ r ∈ setAndDel, r.InRange := by
    intro r hr
    simp only [setAndDel, List.mem_cons, List.not_mem_nil, or_false] at hr
    rcases hr with rfl | rfl <;> constructor <;> decide
  exact ⟨hall, binlog_round_trip setAndDel hall 3 (by decide)⟩

end FastDht
