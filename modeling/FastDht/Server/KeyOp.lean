import FastDht.Server.Global
import FastDht.Lib.CString

/-! # Sub-key lists of server/key_op.c

The sub keys of an object are kept under its reserved key `*`, as one value:
the keys in `strcmp` order, joined by the separator, after an expiry of four
bytes. The functions run under a lock for the key's hash code. -/
namespace FastDht
open Lib

variable {σ : Type}

/-- `splitEx` into at most `n` pieces: the last piece is not split any more. -/
def splitEx (seperator : UInt8) : Nat → Bytes → List Bytes
  | 0, _ => []
  | 1, s => [s]
  | n + 2, s =>
    match s.dropWhile (· ≠ seperator) with
    | [] => [s]
    | _ :: rest => s.takeWhile (· ≠ seperator) :: splitEx seperator (n + 1) rest

/-- What `key_do_get` returns: its status, `*value_len` and the key array. -/
structure KeyList where
  result : Int
  valueLen : Int
  keyArray : List Bytes

def keyDoGet (S : StoreFuncs σ) (grp : Nat) (fullKey : Bytes) (s : Server σ) :
    KeyList × Server σ :=
  let (r, store) := S.get s.store grp fullKey (4 + fdhtKeyListMaxSize - 1)
  let s := { s with store := store }
  if r.result ≠ 0 ∧ r.result ≠ ENOENT then (⟨r.result, r.size, []⟩, s)
  else
    let valueLen := if r.result = ENOENT then 0 else r.size
    if valueLen ≤ 4 then (⟨0, 0, []⟩, s)
    else (⟨0, valueLen, splitEx fdhtFullKeySeperator fdhtKeyListMaxCount (cstr (r.value.drop 4))⟩, s)

/-- Every key with the separator before it, as the loops that fill
`new_key_list` write them. -/
def joinKeys (keys : List Bytes) : Bytes := keys.flatMap fun k => fdhtFullKeySeperator :: k

/-- `new_key_list`: the first separator lies under the expiry. -/
def newKeyList (keys : List Bytes) : Bytes := int2buff fdhtExpiresNever ++ (joinKeys keys).drop 1

/-- The store call and the log record that write a non-empty key list. -/
def keyListSet (S : StoreFuncs σ) (g : Globals) (grp : Nat) (keyInfo2log : FDHTKeyInfo)
    (keyHashCode : Int) (keys : List Bytes) (s : Server σ) : Int × Server σ :=
  let r := S.set s.store grp keyInfo2log.packFullKey (newKeyList keys)
  (r.1, s.logged g r {
    timestamp := g.currentTime
    opType := .sourceSet
    keyHashCode := keyHashCode
    expires := fdhtExpiresNever
    keyInfo := keyInfo2log
    pValue := (newKeyList keys).drop 4
    valueLen := (newKeyList keys).length - 4 })

/-- `key_do_set`, which deletes a list that has become empty. The list ends
three bytes and `joinKeys` after its start. -/
def keyDoSet (S : StoreFuncs σ) (g : Globals) (grp : Nat) (keyInfo2log : FDHTKeyInfo)
    (keyHashCode : Int) (keys : List Bytes) (s : Server σ) : Int × Server σ :=
  if 4 < 3 + (joinKeys keys).length then keyListSet S g grp keyInfo2log keyHashCode keys s
  else
    let r := S.delete s.store grp keyInfo2log.packFullKey
    (r.1, s.logged g r {
      timestamp := g.currentTime
      opType := .sourceDel
      keyHashCode := keyHashCode
      expires := fdhtExpiresNever
      keyInfo := keyInfo2log
      pValue := []
      valueLen := 0 })

def keyDoAdd (S : StoreFuncs σ) (g : Globals) (grp : Nat) (keyInfo : FDHTKeyInfo)
    (keyHashCode : Int) (s : Server σ) : Int × Server σ :=
  let keyInfo2log := keyInfo.listKey
  let (old, s) := keyDoGet S grp keyInfo2log.packFullKey s
  if old.result ≠ 0 then (old.result, s)
  else if (bsearch (strcmp keyInfo.szKey) old.keyArray).isSome then (0, s)
  else if fdhtKeyListMaxSize ≤ old.valueLen + 1 + keyInfo.szKey.length then (ENOSPC, s)
  else
    let notBefore : Bytes → Bool := fun k => strcmp keyInfo.szKey k ≠ .lt
    let keys := old.keyArray.takeWhile notBefore ++ keyInfo.szKey :: old.keyArray.dropWhile notBefore
    keyListSet S g grp keyInfo2log keyHashCode keys s

def keyDoDel (S : StoreFuncs σ) (g : Globals) (grp : Nat) (keyInfo : FDHTKeyInfo)
    (keyHashCode : Int) (s : Server σ) : Int × Server σ :=
  let keyInfo2log := keyInfo.listKey
  let (old, s) := keyDoGet S grp keyInfo2log.packFullKey s
  if old.result ≠ 0 then (old.result, s)
  else match bsearch (strcmp keyInfo.szKey) old.keyArray with
    | none => (0, s)
    | some index => keyDoSet S g grp keyInfo2log keyHashCode (old.keyArray.eraseIdx index) s

/-- The merge loops of `key_batch_do_add`: the merged list, and how many of the
sub keys were new. Sub keys that repeat the previous one are skipped. -/
def batchMerge : Nat → List Bytes → List Bytes → List Bytes × Nat
  | 0, _, _ => ([], 0)
  | _ + 1, [], keys => (keys, 0)
  | n + 1, sub :: subs, [] =>
    let (l, count) := batchMerge n (subs.dropWhile fun k => strcmp k sub = .eq) []
    (sub :: l, count + 1)
  | n + 1, sub :: subs, key :: keys =>
    match strcmp sub key with
    | .lt =>
      let (l, count) := batchMerge n (subs.dropWhile fun k => strcmp k sub = .eq) (key :: keys)
      (sub :: l, count + 1)
    | .eq =>
      let (l, count) := batchMerge n (subs.dropWhile fun k => strcmp k sub = .eq) keys
      (sub :: l, count)
    | .gt =>
      let (l, count) := batchMerge n (sub :: subs) keys
      (key :: l, count)

/-- The loops of `key_batch_do_del`. -/
def batchRemove : Nat → List Bytes → List Bytes → List Bytes
  | 0, _, _ => []
  | _ + 1, [], keys => keys
  | _ + 1, _ :: _, [] => []
  | n + 1, sub :: subs, key :: keys =>
    match strcmp sub key with
    | .lt => batchRemove n subs (key :: keys)
    | .eq => batchRemove n subs keys
    | .gt => key :: batchRemove n (sub :: subs) keys

/-- `key_batch_do_add`; `subKeys` are the keys of the entries in `strcmp`
order, all of one object. -/
def keyBatchDoAdd (S : StoreFuncs σ) (g : Globals) (grp : Nat) (keyInfo : FDHTKeyInfo)
    (keyHashCode : Int) (subKeys : List FDHTKeyInfo) (s : Server σ) : Int × Server σ :=
  match subKeys with
  | [] => (0, s)
  | [subKey] => keyDoAdd S g grp subKey keyHashCode s
  | _ =>
    let keyInfo2log := keyInfo.listKey
    let (old, s) := keyDoGet S grp keyInfo2log.packFullKey s
    if old.result ≠ 0 then (old.result, s)
    else
      let subs := subKeys.map FDHTKeyInfo.szKey
      let totalLen := (joinKeys subs).length
      if fdhtKeyListMaxSize ≤ old.valueLen + totalLen then (ENOSPC, s)
      else
        let (keys, addKeyCount) :=
          batchMerge (subs.length + old.keyArray.length + 1) subs old.keyArray
        if addKeyCount = 0 then (0, s)
        else keyListSet S g grp keyInfo2log keyHashCode keys s

def keyBatchDoDel (S : StoreFuncs σ) (g : Globals) (grp : Nat) (keyInfo : FDHTKeyInfo)
    (keyHashCode : Int) (subKeys : List FDHTKeyInfo) (s : Server σ) : Int × Server σ :=
  match subKeys with
  | [] => (0, s)
  | [subKey] => keyDoDel S g grp subKey keyHashCode s
  | _ =>
    let keyInfo2log := keyInfo.listKey
    let (old, s) := keyDoGet S grp keyInfo2log.packFullKey s
    if old.result ≠ 0 then (old.result, s)
    else
      let subs := subKeys.map FDHTKeyInfo.szKey
      keyDoSet S g grp keyInfo2log keyHashCode
        (batchRemove (subs.length + old.keyArray.length + 1) subs old.keyArray) s

/-- The test all entry points start with. -/
def hasObject (keyInfo : FDHTKeyInfo) : Bool :=
  0 < keyInfo.szNameSpace.length && 0 < keyInfo.szObjectId.length

def keyAdd (S : StoreFuncs σ) (g : Globals) (grp : Nat) (keyInfo : FDHTKeyInfo)
    (keyHashCode : Int) (s : Server σ) : Int × Server σ :=
  if hasObject keyInfo then keyDoAdd S g grp keyInfo keyHashCode s else (0, s)

def keyDel (S : StoreFuncs σ) (g : Globals) (grp : Nat) (keyInfo : FDHTKeyInfo)
    (keyHashCode : Int) (s : Server σ) : Int × Server σ :=
  if hasObject keyInfo then keyDoDel S g grp keyInfo keyHashCode s else (0, s)

def keyBatchAdd (S : StoreFuncs σ) (g : Globals) (grp : Nat) (keyInfo : FDHTKeyInfo)
    (keyHashCode : Int) (subKeys : List FDHTKeyInfo) (s : Server σ) : Int × Server σ :=
  if hasObject keyInfo then keyBatchDoAdd S g grp keyInfo keyHashCode subKeys s else (0, s)

def keyBatchDel (S : StoreFuncs σ) (g : Globals) (grp : Nat) (keyInfo : FDHTKeyInfo)
    (keyHashCode : Int) (subKeys : List FDHTKeyInfo) (s : Server σ) : Int × Server σ :=
  if hasObject keyInfo then keyBatchDoDel S g grp keyInfo keyHashCode subKeys s else (0, s)

/-- `key_get` into a buffer of `*keys_len` bytes. -/
def keyGet (S : StoreFuncs σ) (g : Globals) (grp : Nat) (keyInfo : FDHTKeyInfo) (keysLen : Int)
    (s : Server σ) : GetResult × Server σ :=
  if g.storeSubKeys = false then (⟨EOPNOTSUPP, [], keysLen⟩, s)
  else if hasObject keyInfo = false then (⟨EINVAL, [], keysLen⟩, s)
  else
    let (r, store) := S.get s.store grp keyInfo.listKey.packFullKey keysLen
    let s := { s with store := store }
    if r.result ≠ 0 then (r, s)
    else ({ r with result := if 4 < r.size then 0 else ENOENT }, s)

end FastDht
