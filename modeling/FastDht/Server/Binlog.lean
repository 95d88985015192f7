import FastDht.Common.Types
import FastDht.Lib.Buffer
import FastDht.Lib.Decimal

/-! # Binlog records of server/sync.c

fdht_binlog_write prints a record as one line of text: eight fields of fixed
width, the key and the value. fdht_binlog_read scans it back with its own
checks. The two sides share the format and nothing else. -/
namespace FastDht
open Lib

inductive OpType
  | sourceSet
  | sourceDel
  | replicaSet
  | replicaDel
  deriving DecidableEq, Repr

/-- `FDHT_OP_TYPE_SOURCE_SET` .. `FDHT_OP_TYPE_REPLICA_DEL`. -/
def OpType.toByte : OpType → UInt8
  | .sourceSet => 83
  | .sourceDel => 68
  | .replicaSet => 115
  | .replicaDel => 100

def OpType.ofByte (b : UInt8) : Option OpType :=
  if b = 83 then some .sourceSet
  else if b = 68 then some .sourceDel
  else if b = 115 then some .replicaSet
  else if b = 100 then some .replicaDel
  else none

def binlogFixFieldsLength : Nat := 4 * 10 + 3 * 4 + 1 + 8 * 1

/-- The length of the packed key of a record, `PACK_FULL_KEY_INFO`. -/
def FDHTKeyInfo.packedLength (k : FDHTKeyInfo) : Nat :=
  k.szNameSpace.length + 1 + k.szObjectId.length + 1 + k.szKey.length + 1

def calcRecordLength (k : FDHTKeyInfo) (valueLen : Int) : Int :=
  binlogFixFieldsLength + k.packedLength + valueLen + 1

/-! ## Writing -/

/-- The arguments of a call of `fdht_binlog_write`; `pValue` is the memory the
value pointer points to. -/
structure LogWrite where
  timestamp : Int
  opType : OpType
  keyHashCode : Int
  expires : Int
  keyInfo : FDHTKeyInfo
  pValue : Bytes
  valueLen : Int
  deriving DecidableEq, Repr

/-- `value_len` as the `int` it is passed as. -/
def LogWrite.len (w : LogWrite) : Int := toInt32 w.valueLen

/-- The bytes that are copied: `value_len` of them, none if it is negative. -/
def LogWrite.value (w : LogWrite) : Bytes := readAt w.pValue 0 w.len.toNat

/-- The text of `"%10d %c %10d %10d %4d %4d %4d %10d "`. -/
def LogWrite.fixFields (w : LogWrite) : Bytes :=
  printInt 10 (toInt32 w.timestamp) ++ 32 :: w.opType.toByte :: 32 ::
  (printInt 10 (toInt32 w.keyHashCode) ++ 32 ::
  (printInt 10 (toInt32 w.expires) ++ 32 ::
  (printInt 4 w.keyInfo.szNameSpace.length ++ 32 ::
  (printInt 4 w.keyInfo.szObjectId.length ++ 32 ::
  (printInt 4 w.keyInfo.szKey.length ++ 32 ::
  (printInt 10 w.len ++ [32]))))))

def FDHTKeyInfo.packFullKeyInfo (k : FDHTKeyInfo) : Bytes :=
  k.szNameSpace ++ 32 :: (k.szObjectId ++ 32 :: (k.szKey ++ [32]))

/-- The bytes a call of `fdht_binlog_write` appends to the binlog. -/
def fdhtBinlogWrite (w : LogWrite) : Bytes :=
  w.fixFields ++ (w.keyInfo.packFullKeyInfo ++ (w.value ++ [10]))

/-! ## Reading -/

structure BinLogRecord where
  timestamp : Int
  opType : OpType
  keyHashCode : Int
  keyInfo : FDHTKeyInfo
  value : Bytes
  expires : Int
  deriving DecidableEq, Repr

/-- What `sscanf` stores. -/
structure FixFields where
  timestamp : Int
  opType : UInt8
  keyHashCode : Int
  expires : Int
  namespaceLen : Int
  objIdLen : Int
  keyLen : Int
  valueLen : Int

/-- The `sscanf` of `fdht_binlog_read`; `none` if it stores less than 8 items. -/
def scanFixFields (s : Bytes) : Option FixFields := do
  let (timestamp, s) ← scanInt 10 s
  let (opType, s) ← scanChar s
  let (keyHashCode, s) ← scanInt 10 s
  let (expires, s) ← scanInt 10 s
  let (namespaceLen, s) ← scanInt 4 s
  let (objIdLen, s) ← scanInt 4 s
  let (keyLen, s) ← scanInt 4 s
  let (valueLen, _) ← scanInt 10 s
  return {
    timestamp := toInt32 timestamp
    opType := opType
    keyHashCode := toInt32 keyHashCode
    expires := toInt32 expires
    namespaceLen := toInt32 namespaceLen
    objIdLen := toInt32 objIdLen
    keyLen := toInt32 keyLen
    valueLen := toInt32 valueLen }

/-- `CHECK_FIELD_VALUE` passes. -/
def checkFieldValue (value : Int) (maxLength : Nat) : Bool := 0 ≤ value && value ≤ maxLength

/-- The key of a record, from the bytes of `PACK_FULL_KEY_INFO`; the lengths
have passed their checks. -/
def readKeyInfo (f : FixFields) (hn : checkFieldValue f.namespaceLen fdhtMaxNamespaceLen = true)
    (ho : checkFieldValue f.objIdLen fdhtMaxObjectIdLen = true)
    (hk : checkFieldValue f.keyLen fdhtMaxSubKeyLen = true) (buff : Bytes) : FDHTKeyInfo where
  szNameSpace := readAt buff 0 f.namespaceLen.toNat
  szObjectId := readAt buff (f.namespaceLen.toNat + 1) f.objIdLen.toNat
  szKey := readAt buff (f.namespaceLen.toNat + 1 + f.objIdLen.toNat + 1) f.keyLen.toNat
  namespaceLen_le := by simp [checkFieldValue] at hn ⊢; omega
  objIdLen_le := by simp [checkFieldValue] at ho ⊢; omega
  keyLen_le := by simp [checkFieldValue] at hk ⊢; omega

/-- `fdht_binlog_read` on what the file holds from the reader's offset on: the
record and its length, or the error. The time fields are scanned as `int` into
the low half of a zeroed `time_t`, so a negative one comes back as the unsigned
number with the same bits. -/
def fdhtBinlogRead (file : Bytes) : Except Int (BinLogRecord × Int) :=
  let buff := file.take binlogFixFieldsLength
  if buff.length ≠ binlogFixFieldsLength then .error ENOENT
  else match scanFixFields (buff.takeWhile (· ≠ 0)) with
    | none => .error EINVAL
    | some f =>
      if toUInt32 f.timestamp = 0 then .error EINVAL
      else match OpType.ofByte f.opType with
        | none => .error EINVAL
        | some opType =>
          if hn : checkFieldValue f.namespaceLen fdhtMaxNamespaceLen = true then
          if ho : checkFieldValue f.objIdLen fdhtMaxObjectIdLen = true then
          if hk : checkFieldValue f.keyLen fdhtMaxSubKeyLen = true then
            if f.keyLen = 0 then .error EINVAL
            else if f.valueLen < 0 then .error EINVAL
            else
              let fullKeyLen :=
                f.namespaceLen.toNat + 1 + f.objIdLen.toNat + 1 + f.keyLen.toNat + 1
              let key := (file.drop binlogFixFieldsLength).take fullKeyLen
              let value := (file.drop (binlogFixFieldsLength + fullKeyLen)).take
                (f.valueLen.toNat + 1)
              if key.length ≠ fullKeyLen then .error ENOENT
              else if value.length ≠ f.valueLen.toNat + 1 then .error ENOENT
              else if value.getD f.valueLen.toNat 0 ≠ 10 then .error EINVAL
              else
                let keyInfo := readKeyInfo f hn ho hk key
                .ok ({
                  timestamp := toUInt32 f.timestamp
                  opType := opType
                  keyHashCode := f.keyHashCode
                  keyInfo := keyInfo
                  value := value.take f.valueLen.toNat
                  expires := toUInt32 f.expires }, calcRecordLength keyInfo f.valueLen)
          else .error EINVAL
          else .error EINVAL
          else .error EINVAL

/-- The bytes the three reads of `fdht_binlog_read` take from the file. -/
def BinLogRecord.readBytes (r : BinLogRecord) : Nat :=
  binlogFixFieldsLength + r.keyInfo.packedLength + (r.value.length + 1)

/-- At most `n` calls of `fdht_binlog_read` on one file: the records with the
record lengths it returns, and the status of the last call. A call goes on
where the reads of the one before have stopped. -/
def binlogReadAll : Nat → Bytes → List (BinLogRecord × Int) × Int
  | 0, _ => ([], 0)
  | n + 1, file =>
    match fdhtBinlogRead file with
    | .error result => ([], result)
    | .ok (r, recordLength) =>
      let (records, result) := binlogReadAll n (file.drop r.readBytes)
      ((r, recordLength) :: records, result)

end FastDht
