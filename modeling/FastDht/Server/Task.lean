import FastDht.Server.Global

/-! # A request in its buffer

A task holds one message: the header, the body and whatever older messages left
behind it in the buffer. The response is written over the request. The parsing
macros of server/work_thread.c answer every malformed body the same way, so
they are partial functions here. -/
namespace FastDht
open Lib

/-- `sizeof(FDHTProtoHeader)`: pkg_len, key_hash_code, timestamp and expires of
four bytes each, then cmd, keep_alive and status. -/
def sizeofHeader : Nat := 19

def pkgLenOffset : Nat := 0
def keyHashCodeOffset : Nat := 4
def timestampOffset : Nat := 8
def expiresOffset : Nat := 12
def cmdOffset : Nat := 16
def keepAliveOffset : Nat := 17
def statusOffset : Nat := 18

structure FastTaskInfo where
  /-- The whole buffer; `size` is its length. -/
  data : Bytes
  length : Int
  clientIp : Bytes
  deriving DecidableEq, Repr

def FastTaskInfo.size (t : FastTaskInfo) : Int := t.data.length

/-- `pTask->length = sizeof(FDHTProtoHeader)`: no body. -/
def FastTaskInfo.headerOnly (t : FastTaskInfo) : FastTaskInfo := { t with length := sizeofHeader }

def FastTaskInfo.write (t : FastTaskInfo) (off : Nat) (v : Bytes) : FastTaskInfo :=
  { t with data := writeAt t.data off v }

def FastTaskInfo.intAt (t : FastTaskInfo) (off : Nat) : Int := buff2int (readAt t.data off 4)

/-- `nInBodyLen`: the subtraction is one of `size_t`, taken back to `int`. -/
def FastTaskInfo.inBodyLen (t : FastTaskInfo) : Int := toInt32 (t.length - sizeofHeader)

def FastTaskInfo.bodyInt (t : FastTaskInfo) (off : Nat) : Int := t.intAt (sizeofHeader + off)

def FastTaskInfo.bodyBytes (t : FastTaskInfo) (off n : Nat) : Bytes :=
  readAt t.data (sizeofHeader + off) n

inductive ProtoCmd
  | quit
  | set
  | inc
  | get
  | del
  | batchSet
  | batchGet
  | batchDel
  | stat
  | getSubKeys
  | syncReq
  | syncNotify
  | syncSet
  | syncDel
  | heartBeat
  | resp
  deriving DecidableEq, Repr

/-- `FDHT_PROTO_CMD_QUIT` .. `FDHT_PROTO_CMD_RESP`. -/
def ProtoCmd.toByte : ProtoCmd → UInt8
  | .quit => 10
  | .set => 11
  | .inc => 12
  | .get => 13
  | .del => 14
  | .batchSet => 15
  | .batchGet => 16
  | .batchDel => 17
  | .stat => 18
  | .getSubKeys => 19
  | .syncReq => 21
  | .syncNotify => 22
  | .syncSet => 23
  | .syncDel => 24
  | .heartBeat => 30
  | .resp => 40

/-- The command of a message, if the dispatcher knows it. -/
def FastTaskInfo.cmd (t : FastTaskInfo) : Option ProtoCmd :=
  [.quit, .set, .inc, .get, .del, .batchSet, .batchGet, .batchDel, .stat, .getSubKeys, .syncReq,
    .syncNotify, .syncSet, .syncDel, .heartBeat].find? fun c => c.toByte = t.data.getD cmdOffset 0

/-- What `CHECK_GROUP_ID` reads from the header. `newExpires` is the computed
`time_t`; an `int` variable takes its low 32 bits. -/
structure ReqHeader where
  keyHashCode : Int
  groupId : Nat
  timestamp : Int
  newExpires : Int
  deriving DecidableEq, Repr

def Globals.groupOf (g : Globals) (keyHashCode : Int) : Nat := toUInt32 keyHashCode % g.groupCount

/-- `group_id < g_db_count && g_db_list[group_id] != NULL`. -/
def Globals.ownsGroup (g : Globals) (groupId : Nat) : Bool := g.dbList.getD groupId false

/-- The expiry of a header, moved to this server's clock. -/
def Globals.newExpires (g : Globals) (timestamp expires : Int) : Int :=
  if 0 < timestamp ∧ 0 < expires then g.currentTime + (expires - timestamp) else expires

/-- The header as a handler uses it. -/
def FastTaskInfo.header (g : Globals) (t : FastTaskInfo) : ReqHeader where
  keyHashCode := t.intAt keyHashCodeOffset
  groupId := g.groupOf (t.intAt keyHashCodeOffset)
  timestamp := t.intAt timestampOffset
  newExpires := g.newExpires (t.intAt timestampOffset) (t.intAt expiresOffset)

def checkGroupId (g : Globals) (t : FastTaskInfo) : Option ReqHeader :=
  if g.ownsGroup (t.header g).groupId then some (t.header g) else none

/-! The body starts with the namespace and the object id, each after its
length. A length is only used once it has been checked. -/

def FastTaskInfo.namespaceLen (t : FastTaskInfo) : Int := t.bodyInt 0

def FastTaskInfo.objIdLen (t : FastTaskInfo) : Int := t.bodyInt (4 + t.namespaceLen.toNat)

/-- The body offset after the object id: of the key length in a request for
one key, of the key count in a batch. -/
def FastTaskInfo.keyOffset (t : FastTaskInfo) : Nat :=
  4 + t.namespaceLen.toNat + 4 + t.objIdLen.toNat

/-- `PARSE_COMMON_BODY_BEFORE_KEY`: the namespace and the object id, as a key
with an empty sub key. -/
def parseCommonBodyBeforeKey (minBodyLen : Int) (t : FastTaskInfo) : Option FDHTKeyInfo :=
  if t.inBodyLen ≤ minBodyLen then none
  else if hn : t.namespaceLen < 0 ∨ fdhtMaxNamespaceLen < t.namespaceLen then none
  else if t.inBodyLen ≤ minBodyLen + t.namespaceLen then none
  else if ho : t.objIdLen < 0 ∨ fdhtMaxObjectIdLen < t.objIdLen then none
  else if t.inBodyLen ≤ minBodyLen + t.namespaceLen + t.objIdLen then none
  else some {
    szNameSpace := t.bodyBytes 4 t.namespaceLen.toNat
    szObjectId := t.bodyBytes (4 + t.namespaceLen.toNat + 4) t.objIdLen.toNat
    szKey := []
    namespaceLen_le := by simp [FastTaskInfo.bodyBytes]; omega
    objIdLen_le := by simp [FastTaskInfo.bodyBytes]; omega
    keyLen_le := by simp }

def FastTaskInfo.keyLen (t : FastTaskInfo) : Int := t.bodyInt t.keyOffset

/-- `PARSE_COMMON_BODY_KEY`: the sub key, which may be empty. -/
def parseCommonBodyKey (minBodyLen : Int) (t : FastTaskInfo) (k : FDHTKeyInfo) :
    Option FDHTKeyInfo :=
  if h : t.keyLen < 0 ∨ fdhtMaxSubKeyLen < t.keyLen then none
  else if t.inBodyLen < minBodyLen + k.szNameSpace.length + k.szObjectId.length + t.keyLen then none
  else some (k.withKey (t.bodyBytes (t.keyOffset + 4) t.keyLen.toNat) (by
    simp [FastTaskInfo.bodyBytes]; omega))

/-- What a handler of a single key knows once the common part has been parsed:
the header, the key and the body offset after it. -/
structure KeyRequest where
  header : ReqHeader
  keyInfo : FDHTKeyInfo
  off : Nat

/-- `CHECK_GROUP_ID` and the two parsing macros, as the handlers of single keys
call them one after the other. -/
def parseKeyRequest (g : Globals) (minBodyLen : Int) (t : FastTaskInfo) : Option KeyRequest := do
  let header ← checkGroupId g t
  let k ← parseCommonBodyBeforeKey minBodyLen t
  let k ← parseCommonBodyKey minBodyLen t k
  return ⟨header, k, t.keyOffset + 4 + t.keyLen.toNat⟩

/-- `nInBodyLen == extra + namespace_len + obj_id_len + key_len`. -/
def FastTaskInfo.hasBodyLen (t : FastTaskInfo) (extra : Int) (k : FDHTKeyInfo) : Bool :=
  t.inBodyLen = extra + k.szNameSpace.length + k.szObjectId.length + k.szKey.length

/-- `CHECK_SUB_KEY_NAME` passes: the sub key is not the reserved one. -/
def checkSubKeyName (k : FDHTKeyInfo) : Bool := k.szKey ≠ fdhtListKeyName

/-- A request that is a key and nothing else but `bodyLen - 12` bytes after it,
as GET, DEL and INC take it. `source` is false for the requests of other
servers, which may name the reserved key. -/
def parseExact (g : Globals) (bodyLen : Int) (source : Bool) (t : FastTaskInfo) :
    Option KeyRequest :=
  (parseKeyRequest g bodyLen t).filter fun r =>
    t.hasBodyLen bodyLen r.keyInfo && (!source || checkSubKeyName r.keyInfo)

/-- The request of SET, whose value follows the key, and the value's length. -/
def parseSet (g : Globals) (source : Bool) (t : FastTaskInfo) : Option (KeyRequest × Nat) :=
  (parseKeyRequest g 16 t).bind fun r =>
    let valueLen := t.bodyInt r.off
    if valueLen < 0 then none
    else if t.hasBodyLen (16 + valueLen) r.keyInfo && (!source || checkSubKeyName r.keyInfo) then
      some (r, valueLen.toNat)
    else none

/-- What a batch handler knows before its loop. -/
structure BatchRequest where
  header : ReqHeader
  keyInfo : FDHTKeyInfo
  keyCount : Nat

def BatchRequest.commonFiledsLen (r : BatchRequest) : Nat :=
  12 + r.keyInfo.szNameSpace.length + r.keyInfo.szObjectId.length

/-- The part the batch handlers share: the header, the object and the key
count. -/
def parseBatchRequest (g : Globals) (minBodyLen : Int) (t : FastTaskInfo) : Option BatchRequest := do
  let header ← checkGroupId g t
  let k ← parseCommonBodyBeforeKey minBodyLen t
  let keyCount := t.bodyInt t.keyOffset
  if keyCount ≤ 0 ∨ fdhtMaxKeyCountPerReq < keyCount then none
  else return ⟨header, k, keyCount.toNat⟩

end FastDht
