import FastDht.Server.BatchLoops

/-! # The client

The requests of client/fdht_client.c. A function checks the lengths of the names,
hashes them to find the group, packs the message into a buffer on its stack and
sends it. The clock and the flag for keeping the connection are arguments. -/
namespace FastDht
open Lib

/-- `Time33Hash`, of an `int` that wraps around. -/
def time33Hash (key : Bytes) : Int :=
  key.foldl (fun nHash c => toInt32 (33 * nHash + c.toNat)) 0

/-- The hash code of a name; a negative one loses its sign bit. -/
def keyHashCodeOf (hashKey : Bytes) : Int :=
  let keyHashCode := time33Hash hashKey
  if keyHashCode < 0 then keyHashCode + 2 ^ 31 else keyHashCode

/-- How a function ends without having sent a message: it returns an error, or it
has written past the end of its buffer. -/
inductive ClientError
  | result (errno : Int)
  | overrun
  deriving DecidableEq, Repr

def calcKeyHashCode (k : FDHTKeyInfo) : Except ClientError Int :=
  if k.szNameSpace = [] ∧ k.szObjectId = [] then .ok (keyHashCodeOf k.szKey)
  else if k.szNameSpace ≠ [] ∧ k.szObjectId ≠ [] then
    .ok (keyHashCodeOf (k.szNameSpace ++ fdhtFullKeySeperator :: k.szObjectId))
  else .error (.result EINVAL)

def calcObjectHashCode (o : FDHTObjectInfo) : Except ClientError Int :=
  if o.szNameSpace = [] ∨ o.szObjectId = [] then .error (.result EINVAL)
  else .ok (keyHashCodeOf (o.szNameSpace ++ fdhtFullKeySeperator :: o.szObjectId))

def fdhtMaxFullKeyLen : Nat := fdhtMaxNamespaceLen + 1 + fdhtMaxObjectIdLen + 1 + fdhtMaxSubKeyLen

/-- A message packed into a buffer on the stack. -/
def inBuffer (size : Nat) (message : Bytes) : Except ClientError Bytes :=
  if message.length ≤ size then .ok message else .error .overrun

section Requests

variable (keepAlive : UInt8) (timestamp expires : Int)

/-! ## Requests for one key -/

def fdhtGetEx1 (k : FDHTKeyInfo) : Except ClientError Bytes := do
  let keyHashCode ← calcKeyHashCode k
  inBuffer (sizeofHeader + fdhtMaxFullKeyLen + 16)
    (packHeader (12 + k.bytes) keyHashCode timestamp expires .get keepAlive ++ k.packBodyUntilKey)

/-- `fdht_set_ex`; fdht_client_set sends a value that does not fit its buffer after
the buffer. -/
def fdhtSetEx (k : FDHTKeyInfo) (value : Bytes) : Except ClientError Bytes := do
  let keyHashCode ← calcKeyHashCode k
  return fdhtClientSet keepAlive timestamp expires .set keyHashCode k value

def fdhtDeleteEx (k : FDHTKeyInfo) : Except ClientError Bytes := do
  let keyHashCode ← calcKeyHashCode k
  inBuffer (sizeofHeader + fdhtMaxFullKeyLen + 16)
    (fdhtClientDelete keepAlive timestamp .del keyHashCode k)

/-- `fdht_inc_ex`: its buffer has no room of its own for the header. -/
def fdhtIncEx (k : FDHTKeyInfo) (increase : Int) : Except ClientError Bytes := do
  let keyHashCode ← calcKeyHashCode k
  inBuffer (fdhtMaxFullKeyLen + 32)
    (packHeader (16 + k.bytes) keyHashCode timestamp expires .inc keepAlive ++
      (k.packBodyUntilKey ++ int2buff increase))

/-! ## Requests for the keys of an object -/

/-- `key_count <= 0 || key_count > FDHT_MAX_KEY_COUNT_PER_REQ`. -/
def badKeyCount (keyCount : Nat) : Bool := keyCount = 0 || fdhtMaxKeyCountPerReq < keyCount

def packBodyKeys (o : FDHTObjectInfo) (keyList : List FDHTSubKey) : Bytes :=
  o.packBodyObject ++ (int2buff keyList.length ++
    keyList.flatMap fun key => keyEntry (o.keyInfo key))

def packBodyValues (o : FDHTObjectInfo) (keyList : List (FDHTSubKey × Bytes)) : Bytes :=
  o.packBodyObject ++ (int2buff keyList.length ++
    keyList.flatMap fun e => keyValueEntry (o.keyInfo e.1, e.2))

/-- `fdht_batch_set_ex`, which allocates what does not fit its buffer. -/
def fdhtBatchSetEx (o : FDHTObjectInfo) (keyList : List (FDHTSubKey × Bytes)) :
    Except ClientError Bytes :=
  if badKeyCount keyList.length then .error (.result EINVAL)
  else do
    let keyHashCode ← calcObjectHashCode o
    let totalKeyLen := (keyList.map fun e => e.1.szKey.length).sum
    let totalValueLen := (keyList.map fun e => e.2.length).sum
    return packHeader (12 + o.bytes + 8 * keyList.length + totalKeyLen + totalValueLen : Nat)
      keyHashCode timestamp expires .batchSet keepAlive ++ packBodyValues o keyList

def fdhtBatchGetEx1 (o : FDHTObjectInfo) (keyList : List FDHTSubKey) : Except ClientError Bytes :=
  if badKeyCount keyList.length then .error (.result EINVAL)
  else do
    let keyHashCode ← calcObjectHashCode o
    inBuffer (sizeofHeader + fdhtMaxFullKeyLen +
        (4 + fdhtMaxSubKeyLen) * fdhtMaxKeyCountPerReq + 32 * 1024)
      (packHeader (packBodyKeys o keyList).length keyHashCode timestamp expires .batchGet keepAlive ++
        packBodyKeys o keyList)

def fdhtBatchDeleteEx (o : FDHTObjectInfo) (keyList : List FDHTSubKey) :
    Except ClientError Bytes :=
  if badKeyCount keyList.length then .error (.result EINVAL)
  else do
    let keyHashCode ← calcObjectHashCode o
    inBuffer (sizeofHeader + fdhtMaxFullKeyLen + 8 +
        (5 + fdhtMaxSubKeyLen) * fdhtMaxKeyCountPerReq)
      (packHeader (packBodyKeys o keyList).length keyHashCode timestamp 0 .batchDel keepAlive ++
        packBodyKeys o keyList)

def fdhtGetSubKeysEx (o : FDHTObjectInfo) : Except ClientError Bytes := do
  let keyHashCode ← calcObjectHashCode o
  inBuffer (sizeofHeader + fdhtMaxFullKeyLen)
    (packHeader o.packBodyObject.length keyHashCode 0 0 .getSubKeys keepAlive ++ o.packBodyObject)

end Requests

/-! ## Lengths -/

theorem time33Hash_range (key : Bytes) : -2 ^ 31 ≤ time33Hash key ∧ time33Hash key < 2 ^ 31 := by
  rcases List.eq_nil_or_concat key with rfl | ⟨before, c, rfl⟩
  · exact ⟨by decide, by decide⟩
  · rw [time33Hash, List.concat_eq_append, List.foldl_append, List.foldl_cons, List.foldl_nil]
    exact ⟨(toInt32_spec _).1, toInt32_lt _⟩

theorem toInt32_keyHashCodeOf (hashKey : Bytes) :
    toInt32 (keyHashCodeOf hashKey) = keyHashCodeOf hashKey := by
  obtain ⟨hlow, hhigh⟩ := time33Hash_range hashKey
  unfold keyHashCodeOf
  dsimp only
  split
  · exact toInt32_of_range (by omega) (by omega)
  · exact toInt32_of_range (by omega) (by omega)

theorem FDHTObjectInfo.bytes_le (o : FDHTObjectInfo) : o.bytes ≤ 192 := by
  have hn : o.szNameSpace.length ≤ 64 := o.namespaceLen_le
  have ho : o.szObjectId.length ≤ 128 := o.objIdLen_le
  unfold FDHTObjectInfo.bytes
  omega

theorem FDHTKeyInfo.bytes_le (k : FDHTKeyInfo) : k.bytes ≤ 320 := by
  have ho := k.objectInfo.bytes_le
  have hk : k.szKey.length ≤ 128 := k.keyLen_le
  have hbytes : k.bytes = k.objectInfo.bytes + k.szKey.length := rfl
  omega

theorem keyEntries_length_le (o : FDHTObjectInfo) (keyList : List FDHTSubKey) :
    (keyList.flatMap fun key => keyEntry (o.keyInfo key)).length ≤
      (4 + fdhtMaxSubKeyLen) * keyList.length := by
  induction keyList with
  | nil => rfl
  | cons key keyList ih =>
    have hkey : (o.keyInfo key).szKey.length ≤ fdhtMaxSubKeyLen := key.keyLen_le
    rw [List.flatMap_cons, List.length_append, keyEntry_length, List.length_cons, Nat.mul_add]
    omega

theorem packBodyKeys_length (o : FDHTObjectInfo) (keyList : List FDHTSubKey) :
    (packBodyKeys o keyList).length =
      12 + o.bytes + (keyList.flatMap fun key => keyEntry (o.keyInfo key)).length := by
  rw [packBodyKeys, List.length_append, List.length_append, packBodyObject_length, int2buff_length]
  omega

theorem packBodyValues_length (o : FDHTObjectInfo) (keyList : List (FDHTSubKey × Bytes)) :
    (packBodyValues o keyList).length =
      12 + o.bytes + (keyList.flatMap fun e => keyValueEntry (o.keyInfo e.1, e.2)).length := by
  rw [packBodyValues, List.length_append, List.length_append, packBodyObject_length,
    int2buff_length]
  omega

end FastDht
