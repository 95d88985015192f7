import FastDht.Common.SharedFunc

/-! # Constants, error codes and keys

The limits of common/fdht_types.h, the `errno` values the server answers with,
and a key with its namespace and object id. The three lengths of a key are
checked wherever one is read (from a request or from the binlog), so a key
carries its bounds. -/
namespace FastDht

def asciiBytes (s : String) : Bytes := s.toList.map fun c => c.toNat.toUInt8

def ENOENT : Int := 2
def EAGAIN : Int := 11
def ENOMEM : Int := 12
def EFAULT : Int := 14
def EINVAL : Int := 22
def ENOSPC : Int := 28
def EOPNOTSUPP : Int := 95

def fdhtMaxNamespaceLen : Nat := 64
def fdhtMaxObjectIdLen : Nat := 128
def fdhtMaxSubKeyLen : Nat := 128
def fdhtMaxKeyCountPerReq : Nat := 128
def fdhtFullKeySeperator : UInt8 := 1
def fdhtKeyListMaxCount : Nat := 4096
def fdhtKeyListMaxSize : Nat := 64 * 1024
/-- `FDHT_LIST_KEY_NAME_STR`, the reserved sub key "*". -/
def fdhtListKeyName : Bytes := [42]
def fdhtExpiresNever : Int := 0
def fdhtExpiresNone : Int := -1

/-- `FDHTKeyInfo`: the lengths are those of the three byte strings. -/
structure FDHTKeyInfo where
  szNameSpace : Bytes
  szObjectId : Bytes
  szKey : Bytes
  namespaceLen_le : szNameSpace.length ≤ fdhtMaxNamespaceLen
  objIdLen_le : szObjectId.length ≤ fdhtMaxObjectIdLen
  keyLen_le : szKey.length ≤ fdhtMaxSubKeyLen
  deriving DecidableEq, Repr

/-! The lengths of no namespace, no object and a key of one byte. -/

theorem noNamespace_le : ([] : Bytes).length ≤ fdhtMaxNamespaceLen := Nat.zero_le _

theorem noObjectId_le : ([] : Bytes).length ≤ fdhtMaxObjectIdLen := Nat.zero_le _

theorem keyA_le : ([97] : Bytes).length ≤ fdhtMaxSubKeyLen := by decide

theorem keyBB_le : ([98, 98] : Bytes).length ≤ fdhtMaxSubKeyLen := by decide

/-- `FDHT_PACK_FULL_KEY`. -/
def FDHTKeyInfo.packFullKey (k : FDHTKeyInfo) : Bytes :=
  k.szNameSpace ++ fdhtFullKeySeperator :: (k.szObjectId ++ fdhtFullKeySeperator :: k.szKey)

def FDHTKeyInfo.listKey (k : FDHTKeyInfo) : FDHTKeyInfo where
  szNameSpace := k.szNameSpace
  szObjectId := k.szObjectId
  szKey := fdhtListKeyName
  namespaceLen_le := k.namespaceLen_le
  objIdLen_le := k.objIdLen_le
  keyLen_le := by decide

def FDHTKeyInfo.withKey (k : FDHTKeyInfo) (key : Bytes) (h : key.length ≤ fdhtMaxSubKeyLen) :
    FDHTKeyInfo := { k with szKey := key, keyLen_le := h }

/-- `FDHTObjectInfo`: a namespace and an object id. -/
structure FDHTObjectInfo where
  szNameSpace : Bytes
  szObjectId : Bytes
  namespaceLen_le : szNameSpace.length ≤ fdhtMaxNamespaceLen
  objIdLen_le : szObjectId.length ≤ fdhtMaxObjectIdLen
  deriving DecidableEq, Repr

structure FDHTSubKey where
  szKey : Bytes
  keyLen_le : szKey.length ≤ fdhtMaxSubKeyLen
  deriving DecidableEq, Repr

def FDHTObjectInfo.keyInfo (o : FDHTObjectInfo) (key : FDHTSubKey) : FDHTKeyInfo where
  szNameSpace := o.szNameSpace
  szObjectId := o.szObjectId
  szKey := key.szKey
  namespaceLen_le := o.namespaceLen_le
  objIdLen_le := o.objIdLen_le
  keyLen_le := key.keyLen_le

/-- The key a handler has before it knows the sub key. -/
def FDHTObjectInfo.noKey (o : FDHTObjectInfo) : FDHTKeyInfo := o.keyInfo ⟨[], Nat.zero_le _⟩

def FDHTKeyInfo.objectInfo (k : FDHTKeyInfo) : FDHTObjectInfo :=
  ⟨k.szNameSpace, k.szObjectId, k.namespaceLen_le, k.objIdLen_le⟩

def FDHTKeyInfo.subKey (k : FDHTKeyInfo) : FDHTSubKey := ⟨k.szKey, k.keyLen_le⟩

end FastDht
