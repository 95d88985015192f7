import FastDht.Server.Task

/-! # Sending the binlog to another server

fdht_sync_data of server/sync.c takes a record from the binlog and sends it to
another server of the group with the calls of common/fdht_proto.c. It leaves out
the records that are expired, those of groups the server does not have, and
those that came from another server, unless the receiver is new and this server
has been chosen to send it the old data. -/
namespace FastDht
open Lib

/-! ## Messages -/

/-- The header of a message, with status 0. -/
def packHeader (pkgLen keyHashCode timestamp expires : Int) (cmd : ProtoCmd) (keepAlive : UInt8) :
    Bytes :=
  int2buff pkgLen ++ (int2buff keyHashCode ++ (int2buff timestamp ++ (int2buff expires ++
    [cmd.toByte, keepAlive, 0])))

def FDHTKeyInfo.packBodyUntilKey (k : FDHTKeyInfo) : Bytes :=
  int2buff k.szNameSpace.length ++ (k.szNameSpace ++
  (int2buff k.szObjectId.length ++ (k.szObjectId ++
  (int2buff k.szKey.length ++ k.szKey))))

def FDHTObjectInfo.packBodyObject (o : FDHTObjectInfo) : Bytes :=
  int2buff o.szNameSpace.length ++ (o.szNameSpace ++
  (int2buff o.szObjectId.length ++ o.szObjectId))

/-- `namespace_len + obj_id_len`. -/
def FDHTObjectInfo.bytes (o : FDHTObjectInfo) : Nat :=
  o.szNameSpace.length + o.szObjectId.length

/-- `namespace_len + obj_id_len + key_len`. -/
def FDHTKeyInfo.bytes (k : FDHTKeyInfo) : Nat :=
  k.szNameSpace.length + k.szObjectId.length + k.szKey.length

/-- What `fdht_client_set` sends. -/
def fdhtClientSet (keepAlive : UInt8) (timestamp expires : Int) (cmd : ProtoCmd)
    (keyHashCode : Int) (k : FDHTKeyInfo) (value : Bytes) : Bytes :=
  packHeader (16 + k.bytes + value.length) keyHashCode timestamp expires cmd keepAlive ++
    (k.packBodyUntilKey ++ (int2buff value.length ++ value))

/-- What `fdht_client_delete` sends. -/
def fdhtClientDelete (keepAlive : UInt8) (timestamp : Int) (cmd : ProtoCmd) (keyHashCode : Int)
    (k : FDHTKeyInfo) : Bytes :=
  packHeader (12 + k.bytes) keyHashCode timestamp 0 cmd keepAlive ++ k.packBodyUntilKey

def fdhtSyncSet (r : BinLogRecord) : Bytes :=
  fdhtClientSet 1 r.timestamp r.expires .syncSet r.keyHashCode r.keyInfo r.value

def fdhtSyncDel (r : BinLogRecord) : Bytes :=
  fdhtClientDelete 1 r.timestamp .syncDel r.keyHashCode r.keyInfo

/-! ## Records -/

/-- What a reader of the binlog knows about the server it sends to. -/
structure BinLogReader where
  needSyncOld : Bool
  syncOldDone : Bool
  untilTimestamp : Int
  deriving DecidableEq, Repr

/-- `STARAGE_CHECK_IF_NEED_SYNC_OLD` passes. -/
def BinLogReader.needsOld (reader : BinLogReader) (r : BinLogRecord) : Bool :=
  reader.needSyncOld && !reader.syncOldDone && r.timestamp ≤ reader.untilTimestamp

/-- The message that `fdht_sync_data` sends for a record, if it sends one. -/
def fdhtSyncData (g : Globals) (reader : BinLogReader) (r : BinLogRecord) : Option Bytes :=
  if r.expires ≠ fdhtExpiresNever ∧ r.expires < g.currentTime then none
  else if g.ownsGroup (g.groupOf r.keyHashCode) = false then none
  else match r.opType with
    | .sourceSet => some (fdhtSyncSet r)
    | .sourceDel => some (fdhtSyncDel r)
    | .replicaSet => if reader.needsOld r then some (fdhtSyncSet r) else none
    | .replicaDel => if reader.needsOld r then some (fdhtSyncDel r) else none

/-- A message as the receiver has it: at the start of a buffer with something
behind it. -/
def receivedTask (message behind clientIp : Bytes) : FastTaskInfo :=
  ⟨message ++ behind, message.length, clientIp⟩

/-! ## What the receiver reads -/

/-- The buffer has these bytes at this offset. -/
def FastTaskInfo.HoldsAt (t : FastTaskInfo) (off : Nat) (b : Bytes) : Prop :=
  ∃ before behind, t.data = before ++ (b ++ behind) ∧ before.length = off

section HoldsAt

variable {t : FastTaskInfo} {off : Nat} {a b : Bytes}

theorem FastTaskInfo.HoldsAt.split (h : t.HoldsAt off (a ++ b)) :
    t.HoldsAt off a ∧ t.HoldsAt (off + a.length) b := by
  obtain ⟨before, behind, hdata, hoff⟩ := h
  refine ⟨⟨before, b ++ behind, by rw [hdata, List.append_assoc], hoff⟩,
    before ++ a, behind, by simp [hdata], by simp [hoff]⟩

theorem FastTaskInfo.HoldsAt.bytes (h : t.HoldsAt off b) : readAt t.data off b.length = b := by
  obtain ⟨before, behind, hdata, rfl⟩ := h
  rw [hdata, readAt_append]

theorem FastTaskInfo.HoldsAt.int {n : Int} (h : t.HoldsAt off (int2buff n)) :
    t.intAt off = toInt32 n := by
  have hbytes := h.bytes
  rw [int2buff_length] at hbytes
  unfold FastTaskInfo.intAt
  rw [hbytes, ← List.append_nil (int2buff n), buff2int_int2buff]

theorem receivedTask_holdsAt (message behind clientIp : Bytes) :
    (receivedTask message behind clientIp).HoldsAt 0 message := ⟨[], behind, rfl, rfl⟩

end HoldsAt

theorem receivedTask_inBodyLen {header body : Bytes} (hheader : header.length = sizeofHeader)
    (hlen : (header ++ body).length < 2 ^ 31) (behind clientIp : Bytes) :
    (receivedTask (header ++ body) behind clientIp).inBodyLen = body.length := by
  unfold FastTaskInfo.inBodyLen receivedTask
  dsimp only
  rw [List.length_append] at hlen ⊢
  rw [toInt32_of_range (by omega) (by omega)]
  omega

theorem packHeader_length (pkgLen hash ts e : Int) (cmd : ProtoCmd) (keepAlive : UInt8) :
    (packHeader pkgLen hash ts e cmd keepAlive).length = sizeofHeader := rfl

theorem packBodyUntilKey_length (k : FDHTKeyInfo) : k.packBodyUntilKey.length = 12 + k.bytes := by
  simp only [FDHTKeyInfo.packBodyUntilKey, FDHTKeyInfo.bytes, List.length_append, int2buff_length]
  omega

theorem packBodyObject_length (o : FDHTObjectInfo) : o.packBodyObject.length = 8 + o.bytes := by
  simp only [FDHTObjectInfo.packBodyObject, FDHTObjectInfo.bytes, List.length_append,
    int2buff_length]
  omega

theorem packBodyUntilKey_eq (k : FDHTKeyInfo) :
    k.packBodyUntilKey = k.objectInfo.packBodyObject ++ (int2buff k.szKey.length ++ k.szKey) := by
  simp only [FDHTKeyInfo.packBodyUntilKey, FDHTObjectInfo.packBodyObject, FDHTKeyInfo.objectInfo,
    List.append_assoc]

/-- The header as a handler reads it from a packed one. -/
def packedHeader (g : Globals) (keyHashCode timestamp expires : Int) : ReqHeader where
  keyHashCode := toInt32 keyHashCode
  groupId := g.groupOf keyHashCode
  timestamp := toInt32 timestamp
  newExpires := g.newExpires (toInt32 timestamp) (toInt32 expires)

section Parse

variable {g : Globals} {t : FastTaskInfo} {k : FDHTKeyInfo} {o : FDHTObjectInfo}
  {minBodyLen : Int} {rest : Bytes}

theorem toInt32_small {m : Nat} (h : m ≤ 128) : toInt32 m = m :=
  toInt32_of_range (by omega) (by omega)

theorem groupOf_toInt32 (g : Globals) (n : Int) : g.groupOf (toInt32 n) = g.groupOf n := by
  obtain ⟨-, -, q, hq⟩ := toInt32_spec n
  unfold Globals.groupOf toUInt32
  rw [show toInt32 n % 2 ^ 32 = n % 2 ^ 32 by omega]

theorem parseCommonBodyBeforeKey_packed (minBodyLen : Int)
    (h : t.HoldsAt sizeofHeader o.packBodyObject)
    (hmore : minBodyLen + o.bytes < t.inBodyLen) :
    parseCommonBodyBeforeKey minBodyLen t = some o.noKey ∧ t.keyOffset = 8 + o.bytes := by
  obtain ⟨hnlen, h⟩ := h.split
  obtain ⟨hns, h⟩ := h.split
  obtain ⟨holen, hobj⟩ := h.split
  have hn := o.namespaceLen_le
  have ho := o.objIdLen_le
  have hnamespaceLen : t.namespaceLen = o.szNameSpace.length :=
    hnlen.int.trans (toInt32_small (hn.trans (by decide)))
  have hobjIdLen : t.objIdLen = o.szObjectId.length := by
    unfold FastTaskInfo.objIdLen FastTaskInfo.bodyInt
    rw [hnamespaceLen, Int.toNat_natCast, ← Nat.add_assoc]
    exact holen.int.trans (toInt32_small ho)
  have hnsBytes : t.bodyBytes 4 o.szNameSpace.length = o.szNameSpace := hns.bytes
  have hobjBytes : t.bodyBytes (4 + o.szNameSpace.length + 4) o.szObjectId.length =
      o.szObjectId := by
    unfold FastTaskInfo.bodyBytes
    rw [show sizeofHeader + (4 + o.szNameSpace.length + 4) =
      sizeofHeader + 4 + o.szNameSpace.length + 4 by omega]
    exact hobj.bytes
  unfold FDHTObjectInfo.bytes at hmore ⊢
  constructor
  · unfold parseCommonBodyBeforeKey
    rw [if_neg (by omega), dif_neg (by rw [hnamespaceLen]; omega), if_neg (by omega),
      dif_neg (by rw [hobjIdLen]; omega), if_neg (by omega)]
    refine congrArg some ?_
    simp only [FDHTObjectInfo.noKey, FDHTObjectInfo.keyInfo, FDHTKeyInfo.mk.injEq, and_true]
    refine ⟨?_, ?_⟩
    · rw [hnamespaceLen]
      exact hnsBytes
    · rw [hnamespaceLen, hobjIdLen]
      exact hobjBytes
  · unfold FastTaskInfo.keyOffset
    omega

theorem parseCommonBody_packed (h : t.HoldsAt sizeofHeader k.packBodyUntilKey)
    (hmin : minBodyLen + k.bytes ≤ t.inBodyLen)
    (hmore : minBodyLen + k.szNameSpace.length + k.szObjectId.length < t.inBodyLen) :
    (parseCommonBodyBeforeKey minBodyLen t).bind (parseCommonBodyKey minBodyLen t) = some k ∧
      t.keyOffset + 4 + t.keyLen.toNat = 12 + k.bytes := by
  rw [packBodyUntilKey_eq] at h
  obtain ⟨hobj, h⟩ := h.split
  obtain ⟨hklen, hkey⟩ := h.split
  rw [packBodyObject_length] at hklen hkey
  have hk := k.keyLen_le
  have hbytes : k.bytes = k.objectInfo.bytes + k.szKey.length := rfl
  have hobjBytes : k.objectInfo.bytes = k.szNameSpace.length + k.szObjectId.length := rfl
  obtain ⟨hparse, hkeyOffset⟩ := parseCommonBodyBeforeKey_packed minBodyLen hobj (by omega)
  have hkeyLen : t.keyLen = k.szKey.length := by
    unfold FastTaskInfo.keyLen FastTaskInfo.bodyInt
    rw [hkeyOffset]
    exact hklen.int.trans (toInt32_small hk)
  have hkeyBytes : t.bodyBytes (8 + k.objectInfo.bytes + 4) k.szKey.length = k.szKey := hkey.bytes
  constructor
  · rw [hparse, Option.bind_some]
    unfold parseCommonBodyKey
    have hns : k.objectInfo.noKey.szNameSpace = k.szNameSpace := rfl
    have hoid : k.objectInfo.noKey.szObjectId = k.szObjectId := rfl
    rw [dif_neg (by rw [hkeyLen]; omega), if_neg (by rw [hns, hoid, hkeyLen]; omega)]
    refine congrArg some ?_
    obtain ⟨ns, obj, key, hn', ho', hk'⟩ := k
    simp only [FDHTKeyInfo.withKey, FDHTObjectInfo.noKey, FDHTObjectInfo.keyInfo,
      FDHTKeyInfo.objectInfo, FDHTKeyInfo.mk.injEq, true_and]
    rw [hkeyOffset, hkeyLen]
    exact hkeyBytes
  · omega

section Message

variable {pkgLen hash ts e : Int} {cmd : ProtoCmd} {keepAlive : UInt8}

theorem header_packed (h : t.HoldsAt 0 (packHeader pkgLen hash ts e cmd keepAlive)) :
    t.intAt keyHashCodeOffset = toInt32 hash ∧ t.intAt timestampOffset = toInt32 ts ∧
      t.intAt expiresOffset = toInt32 e ∧ t.data.getD cmdOffset 0 = cmd.toByte := by
  obtain ⟨-, h⟩ := h.split
  obtain ⟨hhash, h⟩ := h.split
  obtain ⟨hts, h⟩ := h.split
  obtain ⟨he, hcmd⟩ := h.split
  refine ⟨hhash.int, hts.int, he.int, ?_⟩
  have hbytes := congrArg (fun b => b.getD 0 0) hcmd.bytes
  rw [getD_readAt] at hbytes
  exact hbytes

theorem cmd_message (h : t.HoldsAt 0 (packHeader pkgLen hash ts e cmd keepAlive ++ rest))
    (hcmd : cmd ≠ .resp) : t.cmd = some cmd := by
  have hbyte := (header_packed h.split.1).2.2.2
  unfold FastTaskInfo.cmd
  rw [hbyte]
  cases cmd with
  | resp => exact absurd rfl hcmd
  | _ => rfl

theorem expires_message (h : t.HoldsAt 0 (packHeader pkgLen hash ts e cmd keepAlive ++ rest)) :
    t.intAt expiresOffset = toInt32 e :=
  (header_packed h.split.1).2.2.1

theorem checkGroupId_message (h : t.HoldsAt 0 (packHeader pkgLen hash ts e cmd keepAlive ++ rest))
    (howns : g.ownsGroup (g.groupOf hash) = true) :
    checkGroupId g t = some (packedHeader g hash ts e) := by
  obtain ⟨hhash, hts, he, -⟩ := header_packed h.split.1
  have hhead : t.header g = packedHeader g hash ts e := by
    unfold FastTaskInfo.header packedHeader
    rw [hhash, hts, he, groupOf_toInt32]
  unfold checkGroupId
  rw [hhead]
  exact if_pos howns

theorem parseKeyRequest_message
    (h : t.HoldsAt 0 (packHeader pkgLen hash ts e cmd keepAlive ++ (k.packBodyUntilKey ++ rest)))
    (howns : g.ownsGroup (g.groupOf hash) = true) (minBodyLen : Int)
    (hmin : minBodyLen + k.bytes ≤ t.inBodyLen)
    (hmore : minBodyLen + k.szNameSpace.length + k.szObjectId.length < t.inBodyLen) :
    parseKeyRequest g minBodyLen t = some ⟨packedHeader g hash ts e, k, 12 + k.bytes⟩ ∧
      t.HoldsAt (sizeofHeader + (12 + k.bytes)) rest := by
  have hcheck := checkGroupId_message h howns
  obtain ⟨hkey, hrest⟩ := h.split.2.split
  rw [packHeader_length] at hkey
  rw [packHeader_length, packBodyUntilKey_length] at hrest
  rw [Nat.zero_add] at hkey hrest
  obtain ⟨hparse, hoff⟩ := parseCommonBody_packed hkey hmin hmore
  refine ⟨?_, hrest⟩
  obtain ⟨k', hbefore, hafter⟩ := Option.bind_eq_some_iff.mp hparse
  simp only [parseKeyRequest, hcheck, hbefore, hafter, hoff, Option.bind_eq_bind,
    Option.bind_some, Option.pure_def]

theorem parseExact_message {bodyLen : Int} (source : Bool)
    (h : t.HoldsAt 0 (packHeader pkgLen hash ts e cmd keepAlive ++ (k.packBodyUntilKey ++ rest)))
    (howns : g.ownsGroup (g.groupOf hash) = true) (hbody : t.inBodyLen = bodyLen + k.bytes)
    (hkey : k.szKey ≠ []) (hname : source = true → checkSubKeyName k = true) :
    parseExact g bodyLen source t = some ⟨packedHeader g hash ts e, k, 12 + k.bytes⟩ := by
  have hpos := List.length_pos_iff.mpr hkey
  have hbytes : k.bytes = k.szNameSpace.length + k.szObjectId.length + k.szKey.length := rfl
  obtain ⟨hparse, -⟩ := parseKeyRequest_message (g := g) h howns bodyLen (by omega) (by omega)
  have hexact : t.hasBodyLen bodyLen k = true := by
    unfold FastTaskInfo.hasBodyLen
    rw [hbody, decide_eq_true_eq]
    omega
  have hchecked : (!source || checkSubKeyName k) = true := by
    cases source with
    | false => rfl
    | true => exact hname rfl
  unfold parseExact
  rw [hparse, Option.filter_some]
  rw [hexact, hchecked]
  rfl

theorem parseSet_message {value : Bytes} (source : Bool)
    (h : t.HoldsAt 0 (packHeader pkgLen hash ts e cmd keepAlive ++
      (k.packBodyUntilKey ++ (int2buff value.length ++ value))))
    (howns : g.ownsGroup (g.groupOf hash) = true)
    (hbody : t.inBodyLen = 16 + k.bytes + value.length) (hvalue : value.length < 2 ^ 31)
    (hkey : k.szKey ≠ []) (hname : source = true → checkSubKeyName k = true) :
    parseSet g source t = some (⟨packedHeader g hash ts e, k, 12 + k.bytes⟩, value.length) ∧
      t.HoldsAt (sizeofHeader + (12 + k.bytes) + 4) value := by
  have hpos := List.length_pos_iff.mpr hkey
  have hbytes : k.bytes = k.szNameSpace.length + k.szObjectId.length + k.szKey.length := rfl
  obtain ⟨hparse, hrest⟩ := parseKeyRequest_message (g := g) h howns 16 (by omega) (by omega)
  obtain ⟨hlenField, hvalueHeld⟩ := hrest.split
  have hvalueLen : t.bodyInt (12 + k.bytes) = value.length :=
    hlenField.int.trans (toInt32_of_range (by omega) (by omega))
  have hexact : t.hasBodyLen (16 + value.length) k = true := by
    unfold FastTaskInfo.hasBodyLen
    rw [hbody, decide_eq_true_eq]
    omega
  have hchecked : (!source || checkSubKeyName k) = true := by
    cases source with
    | false => rfl
    | true => exact hname rfl
  refine ⟨?_, hvalueHeld⟩
  unfold parseSet
  rw [hparse, Option.bind_some]
  rw [hvalueLen, if_neg (by omega), hexact, hchecked, Int.toNat_natCast]
  rfl

theorem parseBatchRequest_message {n : Nat}
    (h : t.HoldsAt 0 (packHeader pkgLen hash ts e cmd keepAlive ++
      (o.packBodyObject ++ (int2buff n ++ rest))))
    (howns : g.ownsGroup (g.groupOf hash) = true) (minBodyLen : Int)
    (hmore : minBodyLen + o.bytes < t.inBodyLen) (hn : 0 < n) (hmax : n ≤ fdhtMaxKeyCountPerReq) :
    parseBatchRequest g minBodyLen t = some ⟨packedHeader g hash ts e, o.noKey, n⟩ ∧
      t.HoldsAt (sizeofHeader + (12 + o.bytes)) rest := by
  have hcheck := checkGroupId_message h howns
  obtain ⟨hobj, hcount⟩ := h.split.2.split
  obtain ⟨hcount, hrest⟩ := hcount.split
  rw [packBodyObject_length] at hcount hrest
  obtain ⟨hparse, hoff⟩ := parseCommonBodyBeforeKey_packed minBodyLen hobj hmore
  have hcount : t.bodyInt (8 + o.bytes) = n := hcount.int.trans (toInt32_small hmax)
  refine ⟨?_, ?_⟩
  · simp only [parseBatchRequest, hcheck, hparse, hoff, hcount, Option.bind_eq_bind,
      Option.bind_some, Option.pure_def, Int.toNat_natCast]
    exact if_neg (by omega)
  · rw [show sizeofHeader + (12 + o.bytes) = sizeofHeader + (8 + o.bytes) + 4 by omega]
    exact hrest

end Message

end Parse

end FastDht
