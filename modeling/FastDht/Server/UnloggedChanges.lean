import FastDht.Server.LogOrder
import FastDht.Server.RejectedRequests

/-! # Changes of the store that are not logged

A request that only uses logged calls appends a record for every key it
changes, and a record that can be read is replayed to what the request stored.
GET and BATCH_GET write the expiry of their header into the value of a key and
log nothing, so such a change is lost to the other servers and to recovery. -/
namespace FastDht
open Lib Relation

variable {σ κ : Type} [DecidableEq κ] {E : KeyStore σ κ} {g : Globals} {t : FastTaskInfo}
variable {env : TaskEnv} {r : BatchRequest}

/-- What the replay of a record that has been read does to the store. -/
def KeyStore.readEntry (E : KeyStore σ κ) (g : Globals) (r : BinLogRecord) : κ × Option Bytes :=
  (E.slot (r.entry g).1.1 (r.entry g).1.2, (r.entry g).2)

/-- Every key that has changed has a record among those appended that can be read and whose
replay overwrites the key with its new value. -/
def KeyStore.ChangesLogged (E : KeyStore σ κ) (g : Globals) (old new : κ → Option Bytes)
    (log : List LogWrite) : Prop :=
  ∀ key, new key ≠ old key → ∃ w ∈ log, ∃ r n, fdhtBinlogRead (fdhtBinlogWrite w) = .ok (r, n) ∧
    E.readEntry g r = (key, new key)

theorem Follows.changesLogged {s s' : Server σ} {log : List LogWrite} (h : Follows E g s s' log)
    (hlog : ∀ w ∈ newRecords s s', w.Loggable) :
    E.ChangesLogged g (E.lookup s.store) (E.lookup s'.store) (newRecords s s') := by
  intro key hne
  rw [h.replay, KeyStore.replayLog] at hne ⊢
  rw [newRecords_append h.binlog] at hlog ⊢
  obtain ⟨w, hw, hentry⟩ := List.mem_map.mp (mem_of_replay_ne hne)
  have hread := fdhtBinlogRead_write (hlog w hw) []
  rw [List.append_nil] at hread
  refine ⟨w, hw, w.record, _, hread, ?_⟩
  rw [KeyStore.readEntry, w.record_entry]
  exact hentry

/-- Whatever the store, a request that refreshes no expiry is logged if its records can be read
and no store call loses a key. -/
theorem workDealTask_changesLogged (hflag : g.writeToBinlogFlag = true) {s s' : Server σ}
    {resp : Option (Int × FastTaskInfo)}
    (h : workDealTask E.toStoreFuncs g env t s = some (resp, s')) (hvalid : E.Valid s.store)
    (hlost : E.lost s'.store = false) (hread : t.refreshes (t.header g) = false)
    (hwrite : t.isWrite = true → RecordsReadable g t) :
    E.ChangesLogged g (E.lookup s.store) (E.lookup s'.store) (newRecords s s') := by
  have hneg : t.hasNegativeEntry g = false := by
    by_cases hcmd : t.cmd = some .batchSet
    · exact (hwrite (by simp [FastTaskInfo.isWrite, FastTaskInfo.setsExpiry, hcmd])).valueLen
    · exact hasNegativeEntry_of_ne hcmd g
  obtain ⟨log, hlog⟩ := acts_follows rfl hflag rfl hneg hvalid hread (workDealTask_acts h) hlost
  refine hlog.changesLogged ?_
  by_cases hw : t.isWrite = true
  · exact workDealTask_loggable h fun _ => hwrite hw
  · rw [newRecords, workDealTask_no_records h (Bool.eq_false_iff.mpr hw), List.drop_length]
    exact List.forall_mem_nil _

/-! ## GET and BATCH_GET -/

section Exact

variable {s : Server Bdb}

theorem changesLogged_nil {old new : κ → Option Bytes} :
    E.ChangesLogged g old new [] ↔ new = old := by
  constructor
  · intro h
    funext key
    by_contra hne
    obtain ⟨w, hw, -⟩ := h key hne
    cases hw
  · rintro rfl key hne
    exact absurd rfl hne

theorem getValue_data {r : KeyRequest} {n : Int} {t' : FastTaskInfo} {v : Bytes}
    (hq : s.store.Quiet) (hv : s.store.data (r.header.groupId, r.keyInfo.packFullKey) = some v)
    (hexp : t'.bodyInt 0 = buff2int v) :
    (getValue bdbFuncs g r n t' s).server.store.data =
      Function.update s.store.data (r.header.groupId, r.keyInfo.packFullKey)
        (refreshed (toInt32 r.header.newExpires) g.currentTime (some v)) := by
  have hsame : Function.update s.store.data (r.header.groupId, r.keyInfo.packFullKey) (some v) =
      s.store.data := by
    rw [← hv, Function.update_eq_self]
  have hbytes := bodyBytes_write t' 0 (toInt32 r.header.newExpires)
  have hset : (bdbFuncs.partialSet s.store r.header.groupId r.keyInfo.packFullKey
      (int2buff (toInt32 r.header.newExpires)) 0).2 = s.store.next.put r.header.groupId
        r.keyInfo.packFullKey (writeAt v 0 (int2buff (toInt32 r.header.newExpires))) :=
    hq.partialSet _ hv
  unfold getValue refreshed
  rw [hexp, Option.map_some]
  by_cases hlive : expired (buff2int v) g.currentTime = true
  · rw [if_pos hlive, if_neg (by simp [hlive]), hsame]
  by_cases hne : toInt32 r.header.newExpires ≠ fdhtExpiresNone
  · have hboth : toInt32 r.header.newExpires ≠ fdhtExpiresNone ∧
        expired (buff2int v) g.currentTime = false := ⟨hne, Bool.eq_false_iff.mpr hlive⟩
    rw [if_neg hlive, if_pos hne, if_pos hboth]
    dsimp only [getReply]
    rw [Nat.add_zero] at hbytes
    rw [hbytes, hset]
    rfl
  · have hboth : ¬ (toInt32 r.header.newExpires ≠ fdhtExpiresNone ∧
        expired (buff2int v) g.currentTime = false) := fun h => hne h.1
    rw [if_neg hlive, if_neg hne, if_neg hboth, hsame]
    rfl

theorem dealCmdGet_data (hs : s.store.Sound)
    (hst : (dealCmdGet bdbFuncs g env t s).status = 0) :
    ∃ r, parseExact g 12 true t = some r ∧
      (dealCmdGet bdbFuncs g env t s).server.store.data =
        Function.update s.store.data (r.header.groupId, r.keyInfo.packFullKey)
          (refreshed (toInt32 r.header.newExpires) g.currentTime
            (s.store.data (r.header.groupId, r.keyInfo.packFullKey))) := by
  obtain ⟨hq, hc⟩ := hs
  unfold dealCmdGet at hst ⊢
  cases hp : parseExact g 12 true t with
  | none =>
    rw [hp] at hst
    exact absurd hst (by decide : EINVAL ≠ 0)
  | some r =>
    rw [hp] at hst
    refine ⟨r, rfl, ?_⟩
    have hbdb : ∀ db n, (bdbFuncs.get db r.header.groupId r.keyInfo.packFullKey n) =
        (dbDoGet db r.header.groupId r.keyInfo.packFullKey n, db.next) := fun _ _ => rfl
    have hfound : ∀ db n, (dbDoGet db r.header.groupId r.keyInfo.packFullKey n).result = 0 →
        db.data = s.store.data → s.store.data (r.header.groupId, r.keyInfo.packFullKey) =
          some (dbDoGet db r.header.groupId r.keyInfo.packFullKey n).value :=
      fun db n h0 hd => hd ▸ (dbDoGet_ok h0).1
    simp only [hbdb] at hst ⊢
    split at hst
    · rename_i h0
      rw [if_pos h0]
      have hv := hfound _ _ h0 rfl
      rw [hv]
      exact getValue_data (s := { s with store := s.store.next }) hq hv (intAt_write _ _ (hc _ _ hv))
    · rename_i hne
      rw [if_neg hne]
      split at hst
      · rename_i hspc
        rw [if_pos hspc]
        cases ha : env.alloc 0 with
        | none =>
          rw [ha] at hst
          exact absurd hst (by decide : ENOMEM ≠ 0)
        | some fresh =>
          rw [ha] at hst
          dsimp only at hst ⊢
          split at hst
          · exact absurd hst ‹_›
          · rename_i h0
            rw [if_neg h0]
            have hv := hfound _ _ (not_not.mp h0) rfl
            rw [hv]
            exact getValue_data (s := { s with store := s.store.next.next }) hq hv
              (intAt_write _ _ (hc _ _ hv))
      · exact absurd hst hne

theorem dealCmdBatchGet_data (hs : s.store.Sound)
    (hst : (dealCmdBatchGet bdbFuncs g env t s).status = 0) :
    ∃ r, parseBatchKeys g t = some r ∧
      (dealCmdBatchGet bdbFuncs g env t s).server.store.data =
        touch (refreshed (toInt32 r.header.newExpires) g.currentTime) (r.keys t) s.store.data := by
  unfold dealCmdBatchGet at hst ⊢
  rcases dealCmdBatchKeys_cases t s (fun r inBuff => batchGetEntry bdbFuncs g env r
    t.inBodyLen inBuff) (fun _ b => ⟨0, b.task.write expiresOffset (int2buff b.minExpires),
      b.server⟩) with ⟨-, heq⟩ | ⟨r, hp, hend⟩
  · rw [heq] at hst
    exact absurd hst (by decide : EINVAL ≠ 0)
  refine ⟨r, hp, ?_⟩
  rcases hend with ⟨c, b, hl, heq⟩ | ⟨hl, -⟩ | ⟨b, hl, heq⟩
  · have hc : c ≠ 0 := by
      obtain ⟨i, b', he⟩ := batchLoop_stop hl
      rcases batchGetEntry_error he with ⟨-, rfl, -⟩ | rfl
      · decide
      · decide
    rw [heq] at hst
    exact absurd hst hc
  · exact absurd hl (batchLoop_ne_crash (fun i b => batchGetEntry_ne_crash env r _ _ i b) _ _ _)
  · obtain ⟨hdata, -⟩ := batchGetRejects_data (b := batchKeysStart r t s) hs (.inl hl)
    rw [heq]
    have hserver : ∀ c, (batchReply c (fun b : BatchState Bdb => (⟨0, b.task.write expiresOffset
        (int2buff b.minExpires), b.server⟩ : Reply Bdb)) b).server = b.server := by
      intro c
      exact batchReply_server (P := fun s => s = b.server) rfl rfl
    rw [hserver, hdata]
    rfl

end Exact

/-! ## Every request -/

/-- GET and BATCH_GET change no expiry. -/
def FastTaskInfo.LogsChanges (g : Globals) (t : FastTaskInfo)
    (data : Nat × Bytes → Option Bytes) : Prop :=
  match t.cmd with
  | some .get => ∀ r, parseExact g 12 true t = some r →
      refreshed (toInt32 r.header.newExpires) g.currentTime
        (data (r.header.groupId, r.keyInfo.packFullKey)) =
          data (r.header.groupId, r.keyInfo.packFullKey)
  | some .batchGet => ∀ r, parseBatchKeys g t = some r → ∀ k ∈ r.keys t,
      refreshed (toInt32 r.header.newExpires) g.currentTime (data k) = data k
  | _ => True

theorem workDealTask_changesLogged_iff {s s' : Server Bdb} {task : FastTaskInfo}
    (hflag : g.writeToBinlogFlag = true) (hs : s.store.Sound) (hw : t.isWrite = false)
    (h : workDealTask bdbFuncs g env t s = some (some (0, task), s')) :
    bdbStore.ChangesLogged g s.store.data s'.store.data (newRecords s s') ↔
      t.LogsChanges g s.store.data := by
  unfold FastTaskInfo.LogsChanges
  have hnone : newRecords s s' = [] := by
    rw [newRecords, workDealTask_no_records h hw, List.drop_length]
  have hquit : t.cmd ≠ some .quit := by
    intro hcmd
    unfold workDealTask at h
    rw [hcmd] at h
    cases h
  obtain ⟨reply, hreply, hserver, hresp⟩ := workDealTask_dealCmd h hquit
  have hst : reply.status = 0 := (congrArg Prod.fst (Option.some.inj hresp)).symm
  split
  · rename_i hcmd
    rw [hcmd] at hreply
    cases hreply
    obtain ⟨r, hp, hdata⟩ := dealCmdGet_data hs hst
    rw [hserver] at hdata
    rw [hnone, changesLogged_nil, hdata, Function.update_eq_self_iff]
    constructor
    · intro hsame r' hr'
      cases hp.symm.trans hr'
      exact hsame
    · intro hall
      exact hall r hp
  · rename_i hcmd
    rw [hcmd] at hreply
    cases hreply
    obtain ⟨r, hp, hdata⟩ := dealCmdBatchGet_data hs hst
    rw [hserver] at hdata
    rw [hnone, changesLogged_nil, hdata, touch_eq_self_iff (refreshed_refreshed _ _)]
    constructor
    · intro hsame r' hr'
      cases hp.symm.trans hr'
      exact hsame
    · intro hall
      exact hall r hp
  · rename_i hget hbatchGet
    refine ⟨fun _ => trivial, fun _ => ?_⟩
    refine workDealTask_changesLogged (E := bdbStore) hflag h trivial rfl ?_ fun h => ?_
    · rw [FastTaskInfo.refreshes, decide_eq_false hget, decide_eq_false hbatchGet]
      rfl
    · rw [hw] at h
      cases h

/-- **Which requests log what they change.** On any store all those that refresh no expiry, whose
records can be read and of whose store calls none loses a key. On a database that does not fail, a
request that logs nothing and succeeds, exactly if it meets `LogsChanges`. -/
theorem changes_logged (g : Globals) (hflag : g.writeToBinlogFlag = true) (env : TaskEnv)
    (t : FastTaskInfo) :
    (∀ (σ κ : Type) [DecidableEq κ] (E : KeyStore σ κ) (s s' : Server σ) resp,
      workDealTask E.toStoreFuncs g env t s = some (resp, s') → E.Valid s.store →
      E.lost s'.store = false → t.refreshes (t.header g) = false →
      (t.isWrite = true → RecordsReadable g t) →
      E.ChangesLogged g (E.lookup s.store) (E.lookup s'.store) (newRecords s s')) ∧
    ∀ (s s' : Server Bdb) task, s.store.Sound → t.isWrite = false →
      workDealTask bdbFuncs g env t s = some (some (0, task), s') →
      (bdbStore.ChangesLogged g s.store.data s'.store.data (newRecords s s') ↔
        t.LogsChanges g s.store.data) := by
  refine ⟨?_, ?_⟩
  · intro σ κ _ E s s' resp h hvalid hlost hread hwrite
    exact workDealTask_changesLogged hflag h hvalid hlost hread hwrite
  · intro s s' task hs hw h
    exact workDealTask_changesLogged_iff hflag hs hw h

/-- A SET in a database and in a memory pool. -/
theorem changes_logged_set :
    (∃ s, served oneGroup setRequest emptyServer = some s ∧
      s.store.data (0, [1, 1, 97]) = some [0, 0, 0, 0, 120] ∧
      bdbStore.ChangesLogged oneGroup emptyServer.store.data s.store.data
        (newRecords emptyServer s)) ∧
    ∃ resp s, workDealTask mpoolStore.toStoreFuncs oneGroup quietEnv setRequest cachedServer =
        some (resp, s) ∧
      s.store.1.hashArray.view [1, 1, 97] = some [0, 0, 0, 0, 120] ∧
      mpoolStore.ChangesLogged oneGroup cachedTable.view s.store.1.hashArray.view
        (newRecords cachedServer s) := by
  have hread : setRequest.refreshes (setRequest.header oneGroup) = false := by decide +kernel
  have hwrite : RecordsReadable oneGroup setRequest := by decide +kernel
  have hall := (changes_logged oneGroup rfl quietEnv setRequest).1
  constructor
  · obtain ⟨s, hs, hv⟩ := served_setRequest
    obtain ⟨⟨resp, s'⟩, hwork, rfl⟩ := Option.map_eq_some_iff.mp hs
    exact ⟨s', hs, hv, hall _ _ bdbStore _ _ _ hwork trivial rfl hread fun _ => hwrite⟩
  · have hvalue : (workDealTask mpoolStore.toStoreFuncs oneGroup quietEnv setRequest
        cachedServer).map (fun r => (r.2.store.1.hashArray.view [1, 1, 97], r.2.store.2)) =
          some (some [0, 0, 0, 0, 120], false) := by decide +kernel
    obtain ⟨⟨resp, s⟩, hwork, hv⟩ := Option.map_eq_some_iff.mp hvalue
    obtain ⟨hv, hlost⟩ := Prod.mk.inj hv
    exact ⟨resp, s, hwork, hv,
      hall _ _ mpoolStore _ _ _ hwork cachedTable_bounded hlost hread fun _ => hwrite⟩

/-- The key now expires at 2000, and nothing has been logged. -/
theorem get_refresh_not_logged :
    ¬ ∀ (g : Globals) (env : TaskEnv) (t task : FastTaskInfo) (s s' : Server Bdb),
      g.writeToBinlogFlag = true →
      workDealTask bdbFuncs g env t s = some (some (0, task), s') →
      bdbStore.ChangesLogged g s.store.data s'.store.data (newRecords s s') := by
  intro hall
  have hwork : (workDealTask bdbFuncs oneGroup quietEnv refreshRequest
      oneKeyServer).map (fun r => (r.1.map Prod.fst, r.2.store.data (0, [1, 1, 97]), r.2.binlog)) =
        some (some 0, some [0, 0, 7, 208, 120], []) := by decide +kernel
  obtain ⟨⟨resp, s⟩, hs, hresp⟩ := Option.map_eq_some_iff.mp hwork
  obtain ⟨hresp, hrest⟩ := Prod.mk.inj hresp
  obtain ⟨hdata, hlog⟩ := Prod.mk.inj hrest
  obtain ⟨⟨status, task⟩, rfl, hstatus⟩ := Option.map_eq_some_iff.mp hresp
  obtain rfl : status = 0 := hstatus
  have hnew : newRecords oneKeyServer s = [] := newRecords_append (hlog.trans rfl)
  have hlogged := hall oneGroup quietEnv refreshRequest task oneKeyServer s rfl hs
  rw [hnew, changesLogged_nil] at hlogged
  rw [hlogged] at hdata
  exact absurd hdata (by decide +kernel)

end FastDht
