import FastDht.Tool.CompressRows

/-! # What a compressed file holds, and which keys can be compressed

The text of a key is the one the encoder leaves after it has cut off the padding; while it
writes, it needs room for the padding and a NUL. The rows go through their files unchanged,
so the new file has the last record of every key, except deletes and what the tool takes for
expired. -/
namespace FastDht
open Lib

/-! ## The texts of the keys -/

theorem encodeLoop_compress {n : Nat} {raw : Bytes} (hraw : raw.length = 3 * n) (linePos : Int) :
    encodeLoop compressContext raw linePos = base64Encode raw := by
  induction n generalizing raw linePos with
  | zero =>
    obtain rfl := List.length_eq_zero_iff.mp hraw
    rfl
  | succ n ih =>
    obtain ⟨a, b, c, raw, rfl, hlen⟩ := exists_group hraw
    have hbreak : breakBefore compressContext linePos = [] := if_neg fun h => h.2 rfl
    rw [encodeLoop_cons, hbreak, List.nil_append, encodeGroup_eq,
      ih hlen]
    rfl

theorem base64Encode_append {n : Nat} {front : Bytes} (hfront : front.length = 3 * n) (rest : Bytes) :
    base64Encode (front ++ rest) = base64Encode front ++ base64Encode rest := by
  induction n generalizing front with
  | zero =>
    obtain rfl := List.length_eq_zero_iff.mp hfront
    rfl
  | succ n ih =>
    obtain ⟨a, b, c, front, rfl, hlen⟩ := exists_group hfront
    simp only [List.cons_append, base64Encode, ih hlen]

theorem encodeLoop_last {n : Nat} {front : Bytes} (hfront : front.length = 3 * n) (a b c : UInt8) :
    encodeLoop compressContext (front ++ [a, b, c]) 0 =
      base64Encode front ++ encodeGroup compressContext a b c := by
  have hlen : (front ++ [a, b, c]).length = 3 * (n + 1) := by
    rw [List.length_append, hfront]
    rfl
  rw [encodeLoop_compress hlen, base64Encode_append hfront, encodeGroup_eq]
  rfl

/-- **`base64_encode_ex` leaves the text of a key**, and writes whole groups for it. -/
theorem encodeEx_compress {x : Bytes} (hx : x ≠ []) (hint : groupsLength x.length < 2 ^ 31) :
    (base64EncodeEx compressContext x false).text = base64Encode x ∧
      (base64EncodeEx compressContext x false).dest.length = base64Written x.length := by
  have hlen : (encodeLoop compressContext (paddedBytes x) 0).length = groupsLength x.length :=
    encodeLoop_length (.inl rfl) 43 47 61 x
  rcases paddedBytes_cases x with ⟨⟨n, hn⟩, hpadded⟩ | ⟨front, a, n, rfl, hn, hpadded⟩ |
    ⟨front, a, b, n, rfl, hn, hpadded⟩
  · rw [encodeEx_whole hx hn false]
    refine ⟨?_, hlen⟩
    unfold Encoded.text
    rw [toInt32_of_range (by omega) (by omega), Int.toNat_natCast, List.take_length, hpadded,
      encodeLoop_compress hn]
  · have h0 : (0 : UInt8).toNat = 0 := rfl
    have hdest := encodeLoop_last hn a 0 0
    rw [← hpadded, encodeGroup_eq, h0, Nat.zero_div, Nat.add_zero] at hdest
    have htotal : groupsLength (front ++ [a]).length = (base64Encode front).length + 4 := by
      rw [← hlen, hdest, List.length_append]
      rfl
    have hsize : (front ++ [a]).length = 3 * n + 1 := by rw [List.length_append, hn]; rfl
    rw [(encodeEx_one hsize hdest).2]
    have hcut : (toInt32 (toInt32 ((base64Encode front).length + 4 : Nat) - (2 : Nat))).toNat =
        (base64Encode front).length + 2 := by
      rw [toInt32_of_range (n := ((base64Encode front).length + 4 : Nat)) (by omega) (by omega),
        toInt32_of_range (by omega) (by omega)]
      omega
    refine ⟨?_, ?_⟩
    · unfold Encoded.text
      rw [hcut, List.take_length_add_append, base64Encode_append hn]
      rfl
    · rw [List.length_append]
      exact htotal.symm
  · have h0 : (0 : UInt8).toNat = 0 := rfl
    have hdest := encodeLoop_last hn a b 0
    rw [← hpadded, encodeGroup_eq, h0, Nat.zero_div, Nat.add_zero] at hdest
    have htotal : groupsLength (front ++ [a, b]).length = (base64Encode front).length + 4 := by
      rw [← hlen, hdest, List.length_append]
      rfl
    have hsize : (front ++ [a, b]).length = 3 * n + 2 := by rw [List.length_append, hn]; rfl
    rw [(encodeEx_two hsize hdest).2]
    have hcut : (toInt32 (toInt32 ((base64Encode front).length + 4 : Nat) - (1 : Nat))).toNat =
        (base64Encode front).length + 3 := by
      rw [toInt32_of_range (n := ((base64Encode front).length + 4 : Nat)) (by omega) (by omega),
        toInt32_of_range (by omega) (by omega)]
      omega
    refine ⟨?_, ?_⟩
    · unfold Encoded.text
      rw [hcut, List.take_length_add_append, base64Encode_append hn]
      rfl
    · rw [List.length_append]
      exact htotal.symm

theorem base64Encode_length (x : Bytes) :
    (base64Encode x).length = x.length / 3 * 4 + if x.length % 3 = 0 then 0 else x.length % 3 + 1 := by
  induction x using base64Encode.induct with
  | case1 a b c rest ih =>
    simp only [base64Encode, List.length_cons, ih]
    split_ifs <;> omega
  | case2 a b => simp [base64Encode]
  | case3 a => simp [base64Encode]
  | case4 => rfl

theorem base64Char_text : ∀ v < 64, isSpace (base64Char v) = false ∧ base64Char v ≠ 0 := by
  decide +kernel

theorem base64Encode_text (x : Bytes) : ∀ ch ∈ base64Encode x, isSpace ch = false ∧ ch ≠ 0 := by
  induction x using base64Encode.induct with
  | case1 a b c rest ih =>
    have ha := a.toNat_lt
    have hb := b.toNat_lt
    have hc := c.toNat_lt
    simp only [base64Encode, List.forall_mem_cons]
    exact ⟨base64Char_text _ (by omega), base64Char_text _ (by omega), base64Char_text _ (by omega),
      base64Char_text _ (by omega), ih⟩
  | case2 a b =>
    have ha := a.toNat_lt
    have hb := b.toNat_lt
    simp only [base64Encode, List.forall_mem_cons]
    exact ⟨base64Char_text _ (by omega), base64Char_text _ (by omega), base64Char_text _ (by omega),
      List.forall_mem_nil _⟩
  | case3 a =>
    have ha := a.toNat_lt
    simp only [base64Encode, List.forall_mem_cons]
    exact ⟨base64Char_text _ (by omega), base64Char_text _ (by omega), List.forall_mem_nil _⟩
  | case4 => exact List.forall_mem_nil _

/-! ## The buffers of a row -/

def encodedRow (k : FDHTKeyInfo) (expires : Int) (opType : UInt8) (offset recordLength : Nat) :
    CompressRawRow :=
  ⟨(base64EncodeEx compressContext k.packFullKey false).text, expires, opType, offset, recordLength⟩

/-- What is written for a key stays in its buffers: the whole groups of the encoder with the NUL
after them in `base64_key`, the text that is read back in `CompressRawRow.key`, and the line in
`buff`. -/
structure RowFits (k : FDHTKeyInfo) (expires : Int) (opType : UInt8) (offset recordLength : Nat) :
    Prop where
  encoded : (base64EncodeEx compressContext k.packFullKey false).dest.length + 1 ≤ base64KeySize
  key : (encodedRow k expires opType offset recordLength).key.length + 1 ≤ base64KeySize
  line : (rowText (encodedRow k expires opType offset recordLength)).length + 1 ≤ rowBuffSize

theorem packFullKey_length (k : FDHTKeyInfo) :
    k.packFullKey.length = k.szNameSpace.length + k.szObjectId.length + k.szKey.length + 2 := by
  simp only [FDHTKeyInfo.packFullKey, List.length_append, List.length_cons]
  omega

theorem encodeEx_key (k : FDHTKeyInfo) :
    (base64EncodeEx compressContext k.packFullKey false).text = base64Encode k.packFullKey ∧
      (base64EncodeEx compressContext k.packFullKey false).dest.length =
        base64Written k.packFullKey.length := by
  have hlength := packFullKey_length k
  have hn : k.szNameSpace.length ≤ 64 := k.namespaceLen_le
  have ho : k.szObjectId.length ≤ 128 := k.objIdLen_le
  have hk : k.szKey.length ≤ 128 := k.keyLen_le
  refine encodeEx_compress (fun h => ?_) ?_
  · rw [h, List.length_nil] at hlength
    omega
  · unfold groupsLength
    omega

theorem base64Encode_length_le (x : Bytes) : (base64Encode x).length ≤ base64Written x.length := by
  rw [base64Encode_length]
  unfold base64Written
  split_ifs <;> omega

theorem rowText_length_le {row : CompressRawRow}
    (hexpires : -2 ^ 31 ≤ row.expires ∧ row.expires < 2 ^ 31)
    (hoffset : (row.offset : Int) < 2 ^ 63) (hlength : (row.recordLength : Int) < 2 ^ 31) :
    (rowText row).length + 1 ≤ row.key.length + 256 := by
  have h1 := formatInt_length_int64 (n := row.expires) (by omega) (by omega)
  have h2 := formatInt_length_int64 (n := row.offset) (by omega) hoffset
  have h3 := formatInt_length_int64 (n := row.recordLength) (by omega) (by omega)
  unfold rowText
  simp only [List.length_append, List.length_cons, List.length_nil]
  omega

/-- **The buffers of a row are large enough for all but the longest keys**: the three parts may
have 316 bytes together. The macro rounds down where the encoder rounds up, and leaves no room
for the NUL. -/
theorem compress_row_fits_iff (k : FDHTKeyInfo) (expires : Int) (opType : UInt8)
    (offset recordLength : Nat) (hexpires : -2 ^ 31 ≤ expires ∧ expires < 2 ^ 31)
    (hoffset : (offset : Int) < 2 ^ 63) (hlength : (recordLength : Int) < 2 ^ 31) :
    RowFits k expires opType offset recordLength ↔
      k.szNameSpace.length + k.szObjectId.length + k.szKey.length ≤ 316 := by
  obtain ⟨htext, hdest⟩ := encodeEx_key k
  have hwritten := base64Written_fits k.packFullKey.length
  have hpack := packFullKey_length k
  refine ⟨fun h => ?_, fun h => ?_⟩
  · have hencoded := h.encoded
    omega
  · have hshort := base64Encode_length_le k.packFullKey
    have hkey : (encodedRow k expires opType offset recordLength).key = base64Encode k.packFullKey :=
      htext
    have hline : (rowText (encodedRow k expires opType offset recordLength)).length + 1 ≤
        (encodedRow k expires opType offset recordLength).key.length + 256 :=
      rowText_length_le hexpires hoffset hlength
    refine ⟨by rw [hdest]; omega, by rw [hkey]; omega, ?_⟩
    rw [hkey] at hline
    unfold rowBuffSize
    omega

/-- A key of three parts of the same byte. -/
def longKey (namespaceLen objIdLen keyLen : Nat) (hn : namespaceLen ≤ fdhtMaxNamespaceLen)
    (ho : objIdLen ≤ fdhtMaxObjectIdLen) (hk : keyLen ≤ fdhtMaxSubKeyLen) : FDHTKeyInfo where
  szNameSpace := List.replicate namespaceLen 97
  szObjectId := List.replicate objIdLen 97
  szKey := List.replicate keyLen 97
  namespaceLen_le := by rwa [List.length_replicate]
  objIdLen_le := by rwa [List.length_replicate]
  keyLen_le := by rwa [List.length_replicate]

/-- The longest namespace and object with a key of 124 bytes. -/
theorem compress_row_fits_316 :
    RowFits (longKey 64 128 124 (by decide) (by decide) (by decide)) 0 97 0 500 :=
  (compress_row_fits_iff _ 0 97 0 500 (by decide) (by decide) (by decide)).mpr (by decide)

/-- With one byte more the NUL of the encoder is written behind `base64_key`. -/
theorem compress_row_overruns : ¬ ∀ (k : FDHTKeyInfo) (expires : Int) (opType : UInt8)
    (offset recordLength : Nat), k.szKey ≠ [] → -2 ^ 31 ≤ expires ∧ expires < 2 ^ 31 →
    (offset : Int) < 2 ^ 63 → (recordLength : Int) < 2 ^ 31 →
    RowFits k expires opType offset recordLength := by
  intro h
  obtain ⟨k, hk⟩ : ∃ k, k = longKey 64 128 125 (by decide) (by decide) (by decide) := ⟨_, rfl⟩
  have hlength : k.packFullKey.length = 319 := by
    rw [packFullKey_length, hk]
    rfl
  have hencoded := (h k 0 97 0 500 (by rw [hk]; decide) (by decide) (by decide) (by decide)).encoded
  rw [(encodeEx_key k).2, hlength] at hencoded
  exact absurd hencoded (by decide)

/-! ## A binlog file -/

/-- A file of records as the server writes them, with keys that fit the buffers of a row. The
length of a record is an `int`, also with the 4 KB that are added for its buffer; the offsets are
of type `off_t`. -/
structure CompressFile (ws : List LogWrite) : Prop where
  loggable : ∀ w ∈ ws, w.Loggable
  key_fits : ∀ w ∈ ws, w.keyInfo.packFullKey.length ≤ 318
  record_int : ∀ w ∈ ws, (fdhtBinlogWrite w).length + 4 * 1024 < 2 ^ 31
  offset_int : (binlogBytes ws).length < 2 ^ 63

instance (ws : List LogWrite) : Decidable (CompressFile ws) :=
  decidable_of_iff ((∀ w ∈ ws, w.Loggable) ∧ (∀ w ∈ ws, w.keyInfo.packFullKey.length ≤ 318) ∧
    (∀ w ∈ ws, (fdhtBinlogWrite w).length + 4 * 1024 < 2 ^ 31) ∧ (binlogBytes ws).length < 2 ^ 63)
    ⟨fun h => ⟨h.1, h.2.1, h.2.2.1, h.2.2.2⟩, fun h => ⟨h.1, h.2, h.3, h.4⟩⟩

section Contents

variable {ws : List LogWrite} {now : Int} {sort : List Bytes → List Bytes}

theorem placed_le {offset : Nat} {q : Nat × LogWrite} (h : q ∈ placed offset ws) :
    q.2 ∈ ws ∧ q.1 ≤ offset + (binlogBytes ws).length := by
  induction ws generalizing offset with
  | nil => cases h
  | cons w ws ih =>
    have hbytes : binlogBytes (w :: ws) = fdhtBinlogWrite w ++ binlogBytes ws := rfl
    rw [hbytes, List.length_append]
    rcases List.mem_cons.mp h with rfl | h
    · exact ⟨List.mem_cons_self, by omega⟩
    · obtain ⟨hmem, hle⟩ := ih h
      exact ⟨List.mem_cons_of_mem _ hmem, by omega⟩

theorem CompressFile.printable (h : CompressFile ws) {q : Nat × LogWrite} (hq : q ∈ placed 0 ws) :
    (rowOf q).Printable := by
  obtain ⟨hmem, hle⟩ := placed_le hq
  have hfits := h.key_fits _ hmem
  have hpack := packFullKey_length q.2.keyInfo
  have hrecord := h.record_int _ hmem
  have hoffset := h.offset_int
  have hshort := base64Encode_length_le q.2.keyInfo.packFullKey
  have hwritten := (base64Written_fits _).mpr hfits
  refine ⟨fun hnil => ?_, base64Encode_text _, ?_, OpType.isSpace_toByte _,
    ⟨le_toInt32 _, toInt32_lt _⟩, ?_, ?_⟩
  · have hlength := congrArg List.length
      (show base64Encode q.2.keyInfo.packFullKey = [] from hnil)
    rw [base64Encode_length, List.length_nil] at hlength
    split_ifs at hlength
    omega
  · show (base64Encode q.2.keyInfo.packFullKey).length ≤ base64KeySize
    omega
  · show (q.1 : Int) < 2 ^ 63
    omega
  · show ((fdhtBinlogWrite q.2).length : Int) < 2 ^ 31
    omega

/-- **The text of the rows loses nothing**: through the two row files the tool does what it does
on the rows. -/
theorem compressBinlogText_eq (hsort : SortsLines sort) (h : CompressFile ws) (now : Int) :
    compressBinlogText sort (binlogBytes ws) now =
      compressBinlogFile sortRows (binlogBytes ws) now := by
  have hlength : ws.length < (binlogBytes ws).length + 1 := by
    have := binlogBytes_length_le ws
    omega
  have hrows := compressReadRows_log [] h.loggable hlength
  rw [List.nil_append, List.length_nil, if_pos h.key_fits] at hrows
  have hprint : ∀ row ∈ (placed 0 ws).map rowOf, row.Printable := by
    intro row hrow
    obtain ⟨q, hq, rfl⟩ := List.mem_map.mp hrow
    exact h.printable hq
  unfold compressBinlogText compressBinlogFile
  rw [hrows]
  generalize (placed 0 ws).map rowOf = rows at hprint
  cases rows with
  | nil => rfl
  | cons row rows =>
    have hsorted : ∀ r ∈ sortRows (row :: rows), r.Printable := fun r hr =>
      hprint r (mem_qsort.mp hr)
    have hloop : rowsLoop (binlogBytes ws) now _ _ 0 emptyRow [] = _ :=
      rowsLoop_rows hsorted (sort_rows hsort hprint)
    cases hwrite : compressWriteRows (binlogBytes ws) now
        (lastOfRuns CompressRawRow.key (sortRows (row :: rows))) <;>
      simp only [Option.map_some, hloop, hwrite]

/-! ## The records of the new file -/

/-- The record has expired for the server, which compares the signed value. -/
def LogWrite.expiredAt (w : LogWrite) (now : Int) : Prop :=
  toInt32 w.expires ≠ fdhtExpiresNever ∧ toInt32 w.expires < now

instance (w : LogWrite) (now : Int) : Decidable (w.expiredAt now) :=
  inferInstanceAs (Decidable (_ ∧ _))

/-- `w` is the last record of its key. -/
def LastOfKey (ws : List LogWrite) (w : LogWrite) : Prop :=
  (ws.filter fun v => v.keyInfo.packFullKey = w.keyInfo.packFullKey).getLast? = some w

/-- What a compressed file holds: the last record of every key, if it is a SET that has not
expired, once and as it was. -/
def CompressedTo (ws : List LogWrite) (now : Int) (new : Bytes) : Prop :=
  ∃ kept, new = binlogBytes kept ∧ (kept.map fun w => w.keyInfo.packFullKey).Nodup ∧
    ∀ w, w ∈ kept ↔ LastOfKey ws w ∧ w.opType.isSet = true ∧ ¬ w.expiredAt now

theorem LastOfKey.mem {w : LogWrite} (h : LastOfKey ws w) : w ∈ ws :=
  (List.mem_filter.mp (List.mem_of_getLast? h)).1

theorem LastOfKey.unique {w v : LogWrite} (hw : LastOfKey ws w) (hv : LastOfKey ws v)
    (h : w.keyInfo.packFullKey = v.keyInfo.packFullKey) : w = v := by
  unfold LastOfKey at hw hv
  rw [h, hv] at hw
  exact (Option.some.inj hw).symm

theorem compressBy_nodup (ws : List LogWrite) (now : Int) :
    ((compressBy id now ws).map fun w => w.keyInfo.packFullKey).Nodup := by
  rw [List.nodup_iff_count_le_one]
  intro key
  have hlast := lastOfRuns_qsort_filter (fun w : LogWrite => w.keyText) (List.compareLex compare) ws
    (base64Encode key)
  have hone : ((lastOfRuns (fun w : LogWrite => w.keyText) (qsort (fun v w =>
      List.compareLex compare v.keyText w.keyText) ws)).filter
        fun w => w.keyText = base64Encode key).length ≤ 1 := by
    rw [hlast, Option.length_toList]
    split_ifs <;> omega
  have hsub : ((compressBy id now ws).filter fun w => w.keyText = base64Encode key).length ≤ 1 :=
    le_trans ((List.filter_sublist.filter _).length_le) hone
  rw [List.count, List.countP_map, List.countP_eq_length_filter]
  refine le_trans (le_of_eq (congrArg List.length (List.filter_congr fun w _ => ?_))) hsub
  have hinj : w.keyText = base64Encode key ↔ w.keyInfo.packFullKey = key :=
    ⟨fun h => base64Encode_injective h, fun h => congrArg base64Encode h⟩
  simp only [Function.comp_apply, hinj, beq_eq_decide]

theorem binlogBytes_keyInfo {ws vs : List LogWrite} (hws : ∀ w ∈ ws, w.Loggable)
    (hvs : ∀ v ∈ vs, v.Loggable) (h : binlogBytes ws = binlogBytes vs) :
    ws.map LogWrite.keyInfo = vs.map LogWrite.keyInfo := by
  induction ws generalizing vs with
  | nil =>
    have hlength := binlogBytes_length_le vs
    rw [← h] at hlength
    rw [List.length_eq_zero_iff.mp (Nat.le_zero.mp hlength)]
  | cons w ws ih =>
    cases vs with
    | nil =>
      have hlength := binlogBytes_length_le (w :: ws)
      rw [h] at hlength
      exact absurd (Nat.le_zero.mp hlength) (Nat.succ_ne_zero _)
    | cons v vs =>
      obtain ⟨hw, hws⟩ := List.forall_mem_cons.mp hws
      obtain ⟨hv, hvs⟩ := List.forall_mem_cons.mp hvs
      have hbytes : fdhtBinlogWrite w ++ binlogBytes ws = fdhtBinlogWrite v ++ binlogBytes vs := h
      have hread := compressBinlogRead_write hw (binlogBytes ws)
      rw [hbytes, compressBinlogRead_write hv] at hread
      have hrecord := Except.ok.inj hread
      have hkey := congrArg CompressRecord.keyInfo hrecord
      have hlength := congrArg CompressRecord.recordLength hrecord
      dsimp only at hkey hlength
      have hrest := (List.append_inj hbytes hlength.symm).2
      rw [List.map_cons, List.map_cons, ih hws hvs hrest, hkey]

/-- The tool takes a negative expiry for a time after 2038. -/
def LogWrite.keptTooLong (w : LogWrite) (now : Int) : Prop :=
  toInt32 w.expires < 0 ∧ toInt32 w.expires < now ∧ now ≤ toUInt32 w.expires

instance (w : LogWrite) (now : Int) : Decidable (w.keptTooLong now) :=
  inferInstanceAs (Decidable (_ ∧ _))

theorem LogWrite.leftOut_eq_false_iff (w : LogWrite) (now : Int) : w.leftOut now = false ↔
    w.opType.isSet = true ∧ (¬ w.expiredAt now ∨ w.keptTooLong now) := by
  have hunsigned : toUInt32 w.expires = if toInt32 w.expires < 0 then toInt32 w.expires + 2 ^ 32
      else toInt32 w.expires := by
    unfold toInt32 toUInt32
    split_ifs <;> omega
  have hnever : fdhtExpiresNever = 0 := rfl
  unfold LogWrite.leftOut LogWrite.expiredAt LogWrite.keptTooLong
  rw [hunsigned, hnever]
  cases w.opType.isSet <;> simp
  split_ifs <;> omega

theorem compressBinlogText_log (hsort : SortsLines sort) (h : CompressFile ws) (now : Int) :
    compressBinlogText sort (binlogBytes ws) now =
      some (if ws = [] then ENOENT else 0, binlogBytes (compressBy id now ws)) := by
  rw [compressBinlogText_eq hsort h now, compressBinlogFile_log sortRows_sorts h.loggable now,
    if_pos h.key_fits]

theorem compressedTo_iff (h : CompressFile ws) :
    CompressedTo ws now (binlogBytes (compressBy id now ws)) ↔
      ∀ w, LastOfKey ws w → w.opType.isSet = true → ¬ w.keptTooLong now := by
  have hmem : ∀ w, w ∈ compressBy id now ws ↔ LastOfKey ws w ∧ w.opType.isSet = true ∧
      (¬ w.expiredAt now ∨ w.keptTooLong now) := by
    intro w
    rw [mem_compressBy, LogWrite.leftOut_eq_false_iff, and_comm]
    rfl
  refine ⟨fun hto w hlast hset hlong => ?_, fun hno => ?_⟩
  · -- the bytes are those of the kept records, so one of them has the key of `w`
    obtain ⟨kept, hbytes, -, hkept⟩ := hto
    have hkeys := binlogBytes_keyInfo (fun v hv => h.loggable v ((hmem v).mp hv).1.mem)
      (fun v hv => h.loggable v ((hkept v).mp hv).1.mem) hbytes
    have hin : w.keyInfo ∈ kept.map LogWrite.keyInfo := by
      rw [← hkeys]
      exact List.mem_map_of_mem ((hmem w).mpr ⟨hlast, hset, .inr hlong⟩)
    obtain ⟨v, hv, hkey⟩ := List.mem_map.mp hin
    obtain ⟨hvlast, -, hvlive⟩ := (hkept v).mp hv
    obtain rfl := hvlast.unique hlast (by rw [hkey])
    exact hvlive ⟨ne_of_lt hlong.1, hlong.2.1⟩
  · refine ⟨_, rfl, compressBy_nodup ws now, fun w => ?_⟩
    rw [hmem w]
    refine and_congr_right fun hlast => and_congr_right fun hset => ?_
    exact or_iff_left (hno w hlast hset)

/-- **The compressed file is right if no SET with a negative expiry is the last of its key**
before the time that the tool takes it for. -/
theorem compress_contents_iff (hsort : SortsLines sort) (ws : List LogWrite) (now : Int)
    (h : CompressFile ws) :
    ∃ result new, compressBinlogText sort (binlogBytes ws) now = some (result, new) ∧
      (CompressedTo ws now new ↔
        ∀ w, LastOfKey ws w → w.opType.isSet = true → ¬ w.keptTooLong now) :=
  ⟨_, _, compressBinlogText_log hsort h now, compressedTo_iff h⟩

end Contents

/-- A SET of the key `b` that expires at a time. -/
def setUntil (expires : Int) : LogWrite :=
  ⟨5, .sourceSet, 0, expires, ⟨[], [], [98], noNamespace_le, noObjectId_le, by decide⟩, [1, 2], 2⟩

/-- A key that was set and deleted, and one that is still valid. -/
theorem compress_contents_three : ∃ result new,
    compressBinlogText sortLines (binlogBytes [firstWrite, lastWrite, setUntil 2000]) 1000 =
      some (result, new) ∧
    CompressedTo [firstWrite, lastWrite, setUntil 2000] 1000 new := by
  have hfile : CompressFile [firstWrite, lastWrite, setUntil 2000] := by decide +kernel
  have hsigned : ∀ w ∈ [firstWrite, lastWrite, setUntil 2000], ¬ w.keptTooLong 1000 := by decide
  obtain ⟨result, new, htext, hiff⟩ := compress_contents_iff sortLines_sorts _ 1000 hfile
  exact ⟨result, new, htext, hiff.mpr fun w hlast _ => hsigned w hlast.mem⟩

/-- A value that expired before 1970 is still in the compressed file. -/
theorem compress_keeps_negative_expiry : ¬ ∀ ws now, CompressFile ws → ∃ result new,
    compressBinlogText sortLines (binlogBytes ws) now = some (result, new) ∧
      CompressedTo ws now new := by
  intro h
  have hfile : CompressFile [setUntil (-1)] := by decide +kernel
  obtain ⟨result, new, htext, hto⟩ := h [setUntil (-1)] 1000 hfile
  rw [compressBinlogText_log sortLines_sorts hfile] at htext
  obtain ⟨-, rfl⟩ := Prod.mk.inj (Option.some.inj htext)
  exact (compressedTo_iff hfile).mp hto (setUntil (-1)) rfl rfl (by decide)

end FastDht
