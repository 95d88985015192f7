import FastDht.Server.MapStore
import FastDht.Server.StoredValues
import FastDht.Server.Sync

/-! # What a record does to the server it is sent to

The receiver parses the message that fdht_sync_data has packed, makes the store
call of the record and logs it as a record that came from another server. It
moves the expiry to its own clock, as it does for a client. -/
namespace FastDht
open Lib

variable {σ : Type}

/-- A record that a message can carry. -/
structure BinLogRecord.Sendable (r : BinLogRecord) : Prop where
  key_ne : r.keyInfo.szKey ≠ []
  fits : sizeofHeader + 16 + r.keyInfo.bytes + r.value.length < 2 ^ 31

def BinLogRecord.message (r : BinLogRecord) : Bytes :=
  if r.opType.isSet then fdhtSyncSet r else fdhtSyncDel r

def BinLogRecord.request (g : Globals) (r : BinLogRecord) : KeyRequest where
  header := {
    keyHashCode := toInt32 r.keyHashCode
    groupId := g.groupOf r.keyHashCode
    timestamp := toInt32 r.timestamp
    newExpires := g.newExpires (toInt32 r.timestamp)
      (if r.opType.isSet then toInt32 r.expires else 0) }
  keyInfo := r.keyInfo
  off := 12 + r.keyInfo.bytes

section Parse

variable {g : Globals} {r : BinLogRecord} (behind clientIp : Bytes)

theorem parseSet_record (hs : r.Sendable) (hset : r.opType.isSet = true)
    (howns : g.ownsGroup (g.groupOf r.keyHashCode) = true) :
    (receivedTask r.message behind clientIp).cmd = some .syncSet ∧
      parseSet g false (receivedTask r.message behind clientIp) =
        some (r.request g, r.value.length) ∧
      (receivedTask r.message behind clientIp).HoldsAt (sizeofHeader + (12 + r.keyInfo.bytes) + 4)
        r.value := by
  have hmsg : r.message = fdhtSyncSet r := if_pos hset
  have hfits := hs.fits
  have hbody : (receivedTask (fdhtSyncSet r) behind clientIp).inBodyLen =
      16 + r.keyInfo.bytes + r.value.length := by
    refine (receivedTask_inBodyLen rfl ?_ behind clientIp).trans ?_
    · simp only [List.length_append, packHeader_length, packBodyUntilKey_length, int2buff_length]
      omega
    · simp only [List.length_append, packBodyUntilKey_length, int2buff_length]
      omega
  rw [hmsg]
  have hholds := receivedTask_holdsAt (fdhtSyncSet r) behind clientIp
  obtain ⟨hparse, hvalue⟩ := parseSet_message false hholds howns hbody (by omega) hs.key_ne nofun
  refine ⟨cmd_message hholds nofun, ?_, hvalue⟩
  rw [hparse, BinLogRecord.request, if_pos hset]
  rfl

theorem parseExact_record (hs : r.Sendable) (hset : r.opType.isSet = false)
    (howns : g.ownsGroup (g.groupOf r.keyHashCode) = true) :
    (receivedTask r.message behind clientIp).cmd = some .syncDel ∧
      parseExact g 12 false (receivedTask r.message behind clientIp) = some (r.request g) := by
  have hmsg : r.message = fdhtSyncDel r := if_neg (by rw [hset]; exact nofun)
  have hfits := hs.fits
  have hbody : (receivedTask (fdhtSyncDel r) behind clientIp).inBodyLen =
      12 + r.keyInfo.bytes := by
    refine (receivedTask_inBodyLen rfl ?_ behind clientIp).trans ?_
    · simp only [List.length_append, packHeader_length, packBodyUntilKey_length]
      omega
    · rw [packBodyUntilKey_length]
      rfl
  rw [hmsg]
  have hholds : (receivedTask (fdhtSyncDel r) behind clientIp).HoldsAt 0
      (packHeader (12 + r.keyInfo.bytes) r.keyHashCode r.timestamp 0 .syncDel 1 ++
        (r.keyInfo.packBodyUntilKey ++ [])) := by
    rw [List.append_nil]
    exact receivedTask_holdsAt (fdhtSyncDel r) behind clientIp
  refine ⟨cmd_message hholds nofun, ?_⟩
  rw [parseExact_message false hholds howns hbody hs.key_ne nofun, BinLogRecord.request, hset]
  rfl

end Parse

/-! ## The store call and the record -/

/-- The value the receiver stores for a record; `none` if it deletes the key. -/
def BinLogRecord.replicaValue (g : Globals) (r : BinLogRecord) : Option Bytes :=
  if r.opType.isSet then
    some (int2buff (g.newExpires (toInt32 r.timestamp) (toInt32 r.expires)) ++ r.value)
  else none

def BinLogRecord.replicaCall (S : StoreFuncs σ) (g : Globals) (r : BinLogRecord) (store : σ) :
    Int × σ :=
  match r.replicaValue g with
  | some value => S.set store (g.groupOf r.keyHashCode) r.keyInfo.packFullKey value
  | none => S.delete store (g.groupOf r.keyHashCode) r.keyInfo.packFullKey

def BinLogRecord.replicaWrite (g : Globals) (r : BinLogRecord) : LogWrite where
  timestamp := toInt32 r.timestamp
  opType := if r.opType.isSet then .replicaSet else .replicaDel
  keyHashCode := toInt32 r.keyHashCode
  expires := if r.opType.isSet then
      g.newExpires (toInt32 r.timestamp) (toInt32 r.expires)
    else fdhtExpiresNever
  keyInfo := r.keyInfo
  pValue := if r.opType.isSet then r.value else []
  valueLen := if r.opType.isSet then r.value.length else 0

theorem dealCmd_message {S : StoreFuncs σ} {g : Globals} {r : BinLogRecord} (hs : r.Sendable)
    (howns : g.ownsGroup (g.groupOf r.keyHashCode) = true) (behind clientIp : Bytes)
    (env : TaskEnv) (s : Server σ) :
    ∃ reply, dealCmd S g env (receivedTask r.message behind clientIp) s
        (receivedTask r.message behind clientIp).cmd = some reply ∧
      reply.status = (r.replicaCall S g s.store).1 ∧
      reply.server = s.logged g (r.replicaCall S g s.store) (r.replicaWrite g) := by
  rcases hset : r.opType.isSet with _ | _
  · obtain ⟨hcmd, hparse⟩ := parseExact_record behind clientIp hs hset howns
    generalize receivedTask r.message behind clientIp = t at hcmd hparse ⊢
    have hparse' : parseExact g 12 (OpType.replicaDel = .sourceDel) t = some (r.request g) := hparse
    obtain ⟨hstatus, hserver⟩ := dealCmdDel_eq (S := S) hparse' s
    have hcall : r.replicaCall S g s.store =
        S.delete s.store (g.groupOf r.keyHashCode) r.keyInfo.packFullKey := by
      simp only [BinLogRecord.replicaCall, BinLogRecord.replicaValue, hset]
      rfl
    have hwrite : r.replicaWrite g = delWrite g .replicaDel (r.request g) := by
      simp only [BinLogRecord.replicaWrite, hset]
      rfl
    refine ⟨_, by rw [hcmd]; rfl, ?_, ?_⟩
    · rw [hcall]
      exact hstatus
    · rw [hcall, hwrite]
      refine hserver.trans ?_
      exact if_neg fun h => absurd h.2.2 (by decide)
  · obtain ⟨hcmd, hparse, hvalue⟩ := parseSet_record behind clientIp hs hset howns
    generalize receivedTask r.message behind clientIp = t at hcmd hparse hvalue ⊢
    have hparse' : parseSet g (OpType.replicaSet = .sourceSet) t =
      some (r.request g, r.value.length) := hparse
    obtain ⟨hstatus, hserver⟩ := dealCmdSet_eq (S := S) hparse' s
    -- the expiry is written over the value length, in front of the value
    have hpValue : (setBuffer (r.request g) t).bodyBytes ((r.request g).off + 4) r.value.length =
        r.value := by
      have hoff : sizeofHeader + ((r.request g).off + 4) =
        sizeofHeader + (12 + r.keyInfo.bytes) + 4 := rfl
      unfold FastTaskInfo.bodyBytes setBuffer FastTaskInfo.headerOnly FastTaskInfo.write
      rw [readAt_writeAt_disjoint (.inl (by rw [int2buff_length]; omega)), hoff]
      exact hvalue.bytes
    have hwrite : r.replicaWrite g = setWrite g .replicaSet (r.request g) t r.value.length := by
      unfold setWrite
      rw [hpValue]
      simp only [BinLogRecord.replicaWrite, BinLogRecord.request, hset]
      rfl
    have hstored := setBuffer_value g .replicaSet (r.request g) t r.value.length
    rw [← hwrite] at hstored
    have hcall : r.replicaCall S g s.store = setCall S (r.request g) t r.value.length s := by
      unfold setCall
      rw [hstored]
      simp only [BinLogRecord.replicaCall, BinLogRecord.replicaValue, BinLogRecord.replicaWrite, hset]
      rfl
    refine ⟨_, by rw [hcmd]; rfl, ?_, ?_⟩
    · rw [hcall]
      exact hstatus
    · rw [hcall, hwrite]
      refine hserver.trans ?_
      exact if_neg fun h => absurd h.2.2 (by decide)

/-! ## The map of the receiver -/

section Map

variable {κ : Type} [DecidableEq κ] (M : MapStore σ κ) {g g' : Globals} {r : BinLogRecord}

def MapStore.placeOf (M : MapStore σ κ) (g : Globals) (r : BinLogRecord) : κ :=
  M.slot (g.groupOf r.keyHashCode) r.keyInfo.packFullKey

theorem MapStore.replicaCall {store : σ} (hq : M.Quiet store) (hroom : M.room (4 + r.value.length)) :
    M.Quiet (r.replicaCall M.toStoreFuncs g store).2 ∧
      M.lookup (r.replicaCall M.toStoreFuncs g store).2 =
        Function.update (M.lookup store) (M.placeOf g r) (r.replicaValue g) ∧
      ((r.replicaCall M.toStoreFuncs g store).1 = 0 ∨
        r.opType.isSet = false ∧ (r.replicaCall M.toStoreFuncs g store).1 = ENOENT) := by
  unfold BinLogRecord.replicaCall BinLogRecord.replicaValue
  rcases hset : r.opType.isSet with _ | _
  · obtain ⟨hq', hstatus, hlookup⟩ := M.delete_quiet (g.groupOf r.keyHashCode)
      r.keyInfo.packFullKey hq
    refine ⟨hq', hlookup, ?_⟩
    split at hstatus
    · exact .inl hstatus
    · exact .inr ⟨rfl, hstatus⟩
  · obtain ⟨hq', hstatus, hlookup⟩ := M.set_quiet (g.groupOf r.keyHashCode) r.keyInfo.packFullKey
      (int2buff (g.newExpires (toInt32 r.timestamp) (toInt32 r.expires)) ++ r.value)
      (packFullKey_length_le _) (by rwa [List.length_append, int2buff_length]) hq
    exact ⟨hq', hlookup, .inl hstatus⟩

/-- **A record of a SET that is delivered before its expiry reaches the replica,
and the replica stores its expiry if and only if it is delivered in the second of
its timestamp.** A record of another server is one that the source sends as old data. -/
theorem replicated_expiry_iff (hclock : g'.currentTime = g.currentTime) (reader : BinLogReader)
    (hs : r.Sendable)
    (hop : r.opType = .sourceSet ∨ r.opType = .replicaSet ∧ reader.needsOld r = true)
    (hts : 0 < r.timestamp) (hlater : r.timestamp ≤ g.currentTime) (hlive : g.currentTime ≤ r.expires)
    (hexpires : r.expires < 2 ^ 31) (howns : g.ownsGroup (g.groupOf r.keyHashCode) = true)
    (howns' : g'.ownsGroup (g'.groupOf r.keyHashCode) = true) {s : Server σ}
    (hq : M.Quiet s.store) (hroom : M.room (4 + r.value.length)) (behind clientIp : Bytes)
    (env : TaskEnv) :
    ∃ message reply v, fdhtSyncData g reader r = some message ∧
      dealCmd M.toStoreFuncs g' env (receivedTask message behind clientIp) s
        (receivedTask message behind clientIp).cmd = some reply ∧ reply.status = 0 ∧
      M.lookup reply.server.store (M.placeOf g' r) = some v ∧
      (buff2int v = r.expires ↔ g.currentTime = r.timestamp) := by
  have hset : r.opType.isSet = true := by
    rcases hop with hop | ⟨hop, -⟩ <;> rw [hop] <;> rfl
  have hsend : fdhtSyncData g reader r = some r.message := by
    unfold fdhtSyncData
    rw [if_neg (by omega), if_neg (by rw [howns]; decide), BinLogRecord.message, if_pos hset]
    rcases hop with hop | ⟨hop, hold⟩ <;> rw [hop]
    exact if_pos hold
  obtain ⟨reply, hdeal, hstatus, hserver⟩ :=
    dealCmd_message (S := M.toStoreFuncs) hs howns' behind clientIp env s
  obtain ⟨-, hlookup, hcode⟩ := M.replicaCall (g := g') (r := r) hq hroom
  have hzero : (r.replicaCall M.toStoreFuncs g' s.store).1 = 0 := by
    rcases hcode with h | ⟨h, -⟩
    · exact h
    · rw [hset] at h
      cases h
  have htime : toInt32 r.timestamp = r.timestamp := toInt32_of_range (by omega) (by omega)
  have hexp : toInt32 r.expires = r.expires := toInt32_of_range (by omega) hexpires
  have hnew : g'.newExpires (toInt32 r.timestamp) (toInt32 r.expires) =
      g.currentTime + (r.expires - r.timestamp) := by
    unfold Globals.newExpires
    rw [htime, hexp, hclock, if_pos ⟨hts, by omega⟩]
  refine ⟨r.message, reply, int2buff (g.currentTime + (r.expires - r.timestamp)) ++ r.value,
    hsend, hdeal, hstatus.trans hzero, ?_, ?_⟩
  · rw [hserver, Server.logged_store, hlookup, Function.update_self]
    unfold BinLogRecord.replicaValue
    rw [if_pos hset, hnew]
  · rw [buff2int_int2buff]
    obtain ⟨-, -, q, hq⟩ := toInt32_spec (g.currentTime + (r.expires - r.timestamp))
    constructor
    · intro heq
      omega
    · intro heq
      rw [heq, add_sub_cancel]
      exact hexp

end Map

/-- The record of a SET of `a` to `x` at time 1000, which expires at 1010. -/
def expiringRecord : BinLogRecord where
  timestamp := 1000
  opType := .sourceSet
  keyHashCode := 0
  keyInfo := ⟨[], [], [97], noNamespace_le, noObjectId_le, keyA_le⟩
  value := [120]
  expires := 1010

/-- A reader for a server that has its old data. -/
def plainReader : BinLogReader := ⟨false, true, 0⟩

/-- The record is delivered at once. -/
theorem replicated_expiry_iff_now :
    ∃ message reply v, fdhtSyncData oneGroup plainReader expiringRecord = some message ∧
      dealCmd bdbMap.toStoreFuncs oneGroup quietEnv (receivedTask message [] []) emptyServer
        (receivedTask message [] []).cmd = some reply ∧ reply.status = 0 ∧
      bdbMap.lookup reply.server.store (bdbMap.placeOf oneGroup expiringRecord) = some v ∧
      buff2int v = 1010 := by
  have hclock : oneGroup.currentTime = oneGroup.currentTime := rfl
  have hiff := replicated_expiry_iff bdbMap (r := expiringRecord)
    hclock plainReader ⟨by decide, by decide⟩ (.inl rfl) (by decide) (by decide) (by decide)
    (by decide) rfl rfl (s := emptyServer) emptyBdb_quiet trivial [] [] quietEnv
  obtain ⟨message, reply, v, hsend, hdeal, hstatus, hlookup, hexpires⟩ := hiff
  exact ⟨message, reply, v, hsend, hdeal, hstatus, hlookup, hexpires.mpr rfl⟩

/-- Delivered five seconds later, the key expires five seconds later at the
replica. -/
theorem replicated_expiry_moves :
    (fdhtSyncData (oneGroup.at 1005) plainReader expiringRecord).bind (fun message =>
      (dealCmd bdbFuncs (oneGroup.at 1005) quietEnv (receivedTask message [] [])
        emptyServer (receivedTask message [] []).cmd).bind fun reply =>
      (reply.server.store.data (0, [1, 1, 97])).map buff2int) = some 1015 := by
  decide +kernel

end FastDht
