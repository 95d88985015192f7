import FastDht.Lib.KeyedLog
import FastDht.Server.BinlogSoundness
import FastDht.Server.DbRecovery
import FastDht.Server.StoredValues

/-! # Recovery reproduces the store

A record stands for one overwrite of the store. What the handlers append to the
binlog describes what they do to the store, whatever they are asked to do; the
exceptions are the expiry that GET and BATCH_GET refresh, and a BATCH_SET entry
with a negative value length. Recovery reads the records back and replays
them. -/
namespace FastDht
open Lib Relation

/-! ## Records as overwrites -/

/-- The overwrite a record stands for. -/
def LogWrite.entry (g : Globals) (w : LogWrite) : (Nat × Bytes) × Option Bytes :=
  ((g.groupOf w.keyHashCode, w.keyInfo.packFullKey),
    if w.opType.isSet then some (int2buff w.expires ++ w.value) else none)

def replayLog (g : Globals) (log : List LogWrite) (m : Nat × Bytes → Option Bytes) :
    Nat × Bytes → Option Bytes := replay (log.map (LogWrite.entry g)) m

theorem replayLog_append (g : Globals) (a b : List LogWrite) (m : Nat × Bytes → Option Bytes) :
    replayLog g (a ++ b) m = replayLog g b (replayLog g a m) := by
  rw [replayLog, List.map_append, replay_append]
  rfl

theorem Action.OnList.target {σ : Type} {S : StoreFuncs σ} {g g' : Globals} {h : ReqHeader}
    {k : FDHTKeyInfo} {a : Action} (ha : a.OnList g' h k) {s : Server σ} {status : Int} {store : σ}
    {w : LogWrite} (hcall : a.storeCall S g' s = some (status, store, w)) :
    (w.entry g).1 = (g.groupOf h.keyHashCode, k.listKey.packFullKey) := by
  cases a with
  | get grp key n => cases hcall
  | set grp value w =>
    obtain ⟨-, keys, -, -, rfl⟩ := ha
    cases hcall
    rfl
  | partialSet grp key e => cases hcall
  | delete grp w =>
    obtain ⟨-, rfl⟩ := ha
    cases hcall
    rfl
  | inc grp k hash n e => exact ha.elim
  | sync state => cases hcall

theorem toUInt32_toInt32 (n : Int) : toUInt32 (toInt32 n) = toUInt32 n := by
  obtain ⟨-, -, q, hq⟩ := toInt32_spec n
  unfold toUInt32
  omega

theorem int2buff_toUInt32 (n : Int) : int2buff (toUInt32 n) = int2buff n := by
  rw [← int2buff_toInt32, toInt32_toUInt32, int2buff_toInt32]

/-! ## Reading and replaying -/

theorem recoverRecord_eq (g : Globals) (r : BinLogRecord) (db : Bdb) :
    recoverRecord g r db =
      if r.opType.isSet then recoverCmdSet g r db else recoverCmdDel g r db := by
  unfold recoverRecord
  cases r.opType <;> rfl

/-- The overwrite that the replay of a record is. -/
def BinLogRecord.entry (g : Globals) (r : BinLogRecord) : (Nat × Bytes) × Option Bytes :=
  ((g.groupOf r.keyHashCode, r.keyInfo.packFullKey),
    if r.opType.isSet then some (int2buff r.expires ++ r.value) else none)

theorem LogWrite.record_entry (g : Globals) (w : LogWrite) : w.record.entry g = w.entry g := by
  have hgroup : g.groupOf w.record.keyHashCode = g.groupOf w.keyHashCode := by
    simp only [LogWrite.record, Globals.groupOf, toUInt32_toInt32]
  have hvalue : int2buff w.record.expires ++ w.record.value = int2buff w.expires ++ w.value := by
    simp only [LogWrite.record, int2buff_toUInt32, int2buff_toInt32]
  rw [BinLogRecord.entry, hgroup, hvalue]
  rfl

theorem recoverRecord_overwrites {g : Globals} {r : BinLogRecord}
    (hown : g.ownsGroup (g.groupOf r.keyHashCode) = true) {db : Bdb} (hq : db.Quiet) :
    ((recoverRecord g r db).1 = 0 ∨ (recoverRecord g r db).1 = ENOENT) ∧
      (recoverRecord g r db).2.Quiet ∧
      (recoverRecord g r db).2.data = Function.update db.data (r.entry g).1 (r.entry g).2 := by
  rw [recoverRecord_eq]
  unfold BinLogRecord.entry
  by_cases hs : r.opType.isSet = true
  · have hset : recoverCmdSet g r db = (0, db.next.put (g.groupOf r.keyHashCode)
        r.keyInfo.packFullKey (int2buff r.expires ++ r.value)) := by
      unfold recoverCmdSet
      rw [if_pos hown]
      exact hq.set _ _ _
    rw [if_pos hs, if_pos hs, hset]
    exact ⟨.inl rfl, hq, rfl⟩
  · have hdel : recoverCmdDel g r db =
        dbDelete db (g.groupOf r.keyHashCode) r.keyInfo.packFullKey := by
      unfold recoverCmdDel
      rw [if_pos hown]
    rw [if_neg hs, if_neg hs, hdel]
    exact hq.delete _ _

theorem recoverRecord_record {g : Globals} {w : LogWrite}
    (hown : g.ownsGroup (g.groupOf w.keyHashCode) = true) {db : Bdb} (hq : db.Quiet) :
    ¬((recoverRecord g w.record db).1 ≠ 0 ∧ (recoverRecord g w.record db).1 ≠ ENOENT) ∧
      (recoverRecord g w.record db).2.Quiet ∧
      (recoverRecord g w.record db).2.data =
        Function.update db.data (w.entry g).1 (w.entry g).2 := by
  rw [← w.record_entry g, ← not_or, not_not]
  refine recoverRecord_overwrites ?_ hq
  rw [show g.groupOf w.record.keyHashCode = g.groupOf w.keyHashCode from
    congrArg (fun e => e.1.1) (w.record_entry g)]
  exact hown

theorem recoverLoop_log {g : Globals} (log : List LogWrite) : ∀ (n : Nat) (db : Bdb), db.Quiet →
    (∀ w ∈ log, w.Loggable ∧ g.ownsGroup (g.groupOf w.keyHashCode) = true) →
    (binlogBytes log).length < n →
    (recoverLoop g n (binlogBytes log) db).1 = ENOENT ∧
      (recoverLoop g n (binlogBytes log) db).2.data = replayLog g log db.data := by
  induction log with
  | nil =>
    intro n db _ _ hn
    cases n with
    | zero => cases hn
    | succ n => exact ⟨rfl, rfl⟩
  | cons w log ih =>
    intro n db hq hall hn
    cases n with
    | zero => cases hn
    | succ n =>
      obtain ⟨hlog, hown⟩ := hall w List.mem_cons_self
      obtain ⟨hstop, hq', hdata⟩ := recoverRecord_record hown hq
      have hfile : binlogBytes (w :: log) = fdhtBinlogWrite w ++ binlogBytes log := rfl
      have hpos : 0 < (fdhtBinlogWrite w).length := by simp [fdhtBinlogWrite]
      rw [hfile, List.length_append] at hn
      obtain ⟨h1, h2⟩ := ih n _ hq' (fun v hv => hall v (List.mem_cons_of_mem _ hv)) (by omega)
      have hloop : recoverLoop g (n + 1) (binlogBytes (w :: log)) db =
          recoverLoop g n (binlogBytes log) (recoverRecord g w.record db).2 := by
        rw [recoverLoop, hfile, fdhtBinlogRead_write hlog]
        dsimp only
        rw [if_neg hstop, Int.toNat_natCast, List.drop_left]
      rw [hloop]
      refine ⟨h1, h2.trans ?_⟩
      rw [hdata]
      rfl

/-- **Recovering a log of loggable records of own groups replays it.** -/
theorem fdhtRecoverData_log {g : Globals} {log : List LogWrite} {db : Bdb} (hq : db.Quiet)
    (hall : ∀ w ∈ log, w.Loggable ∧ g.ownsGroup (g.groupOf w.keyHashCode) = true) :
    (fdhtRecoverData g (binlogBytes log) db).1 = 0 ∧
      (fdhtRecoverData g (binlogBytes log) db).2.data = replayLog g log db.data := by
  obtain ⟨h1, h2⟩ := recoverLoop_log log ((binlogBytes log).length + 1) db hq hall (by omega)
  exact ⟨by simp [fdhtRecoverData, h1], h2⟩

/-! ## The binlog follows the store -/

theorem LogWrite.value_eq {w : LogWrite} (hl : w.pValue.length = w.valueLen.toNat)
    (h0 : 0 ≤ w.valueLen) (hu : w.valueLen < 2 ^ 31) : w.len = w.valueLen ∧ w.value = w.pValue := by
  have hlen : w.len = w.valueLen := toInt32_of_range (by omega) hu
  refine ⟨hlen, ?_⟩
  have hself := readAt_append [] w.pValue []
  simp only [List.nil_append, List.append_nil, List.length_nil, hl] at hself
  rw [LogWrite.value, hlen, hself]

theorem incWrite_entry (g g' : Globals) (k : FDHTKeyInfo) (hash e n : Int) :
    0 ≤ (incWrite g' k hash (incValue e n)).len ∧
      (incWrite g' k hash (incValue e n)).entry g =
        ((g.groupOf hash, k.packFullKey), some (incValue e n)) := by
  obtain ⟨h4, h24⟩ := incValue_length e n
  obtain ⟨hlen, hvalue⟩ := LogWrite.value_eq (w := incWrite g' k hash (incValue e n))
    (by simp only [incWrite, List.length_drop]; omega) (by simp only [incWrite]; omega)
    (by simp only [incWrite]; omega)
  refine ⟨by rw [hlen]; simp only [incWrite]; omega, ?_⟩
  have hexp : buff2int (incValue e n) = toInt32 e := buff2int_int2buff e _
  unfold LogWrite.entry
  rw [hvalue]
  simp only [incWrite, OpType.isSet, decide_true, Bool.true_or, if_true, hexp, int2buff_toInt32]
  rfl

section Follow

variable {σ κ : Type} [DecidableEq κ] {E : KeyStore σ κ} {g : Globals}

def KeyStore.entry (E : KeyStore σ κ) (g : Globals) (w : LogWrite) : κ × Option Bytes :=
  (E.slot (w.entry g).1.1 (w.entry g).1.2, (w.entry g).2)

def KeyStore.replayLog (E : KeyStore σ κ) (g : Globals) (log : List LogWrite)
    (m : κ → Option Bytes) : κ → Option Bytes := replay (log.map (E.entry g)) m

theorem KeyStore.replayLog_append (a b : List LogWrite) (m : κ → Option Bytes) :
    E.replayLog g (a ++ b) m = E.replayLog g b (E.replayLog g a m) := by
  rw [KeyStore.replayLog, List.map_append, replay_append]
  rfl

theorem Action.run_lost {g' : Globals} {a : Action} {s : Server σ}
    (h : E.lost (a.run E.toStoreFuncs g' s).store = false) : E.lost s.store = false := by
  cases a with
  | get grp key n => exact E.lost_run _ grp key (.get n) h
  | set grp value w =>
    rw [Action.run, Server.logged_store] at h
    exact E.lost_run _ grp _ (.set value) h
  | partialSet grp key e => exact E.lost_run _ grp key (.partialSet (int2buff e) 0) h
  | delete grp w =>
    rw [Action.run, Server.logged_store] at h
    exact E.lost_run _ grp _ .delete h
  | inc grp k hash n e =>
    rw [Action.run, Server.logged_store] at h
    exact E.lost_run _ grp _ (.incEx n incValueLen e g'.currentTime) h
  | sync state => exact h

theorem acts_lost {g' : Globals} {P : Action → Prop} {s s' : Server σ}
    (ha : Acts E.toStoreFuncs g' P s s') (hlost : E.lost s'.store = false) :
    E.lost s.store = false := by
  induction ha with
  | refl => exact hlost
  | tail _ hact ih =>
    obtain ⟨a, -, rfl⟩ := hact
    exact ih (Action.run_lost hlost)

/-- From one state to another the server has appended the records `log`, which
describe all it has done to its store. They are of own groups and of values
with a length. -/
structure Follows (E : KeyStore σ κ) (g : Globals) (s s' : Server σ) (log : List LogWrite) :
    Prop where
  valid : E.Valid s'.store
  binlog : s'.binlog = s.binlog ++ log
  replay : E.lookup s'.store = E.replayLog g log (E.lookup s.store)
  owned : ∀ w ∈ log, g.ownsGroup (g.groupOf w.keyHashCode) = true
  len_nonneg : ∀ w ∈ log, 0 ≤ w.len

theorem Follows.of_same {s s' : Server σ} (hv : E.Valid s'.store) (hlog : s'.binlog = s.binlog)
    (hstore : E.lookup s'.store = E.lookup s.store) : Follows E g s s' [] :=
  ⟨hv, by rw [hlog, List.append_nil], hstore, by simp, by simp⟩

theorem Follows.trans {s s₁ s' : Server σ} {log log' : List LogWrite}
    (h : Follows E g s s₁ log) (h' : Follows E g s₁ s' log') : Follows E g s s' (log ++ log') where
  valid := h'.valid
  binlog := by rw [h'.binlog, h.binlog, List.append_assoc]
  replay := by rw [h'.replay, h.replay, KeyStore.replayLog_append]
  owned := fun w hw => (List.mem_append.mp hw).elim (h.owned w) (h'.owned w)
  len_nonneg := fun w hw => (List.mem_append.mp hw).elim (h.len_nonneg w) (h'.len_nonneg w)

/-- A store call that does the overwrite of a record if it succeeds. -/
structure Overwrites (E : KeyStore σ κ) (g : Globals) (store : σ) (r : Int × σ) (w : LogWrite) :
    Prop where
  valid : E.Valid r.2
  lookup : E.lookup r.2 = if r.1 = 0 then
    Function.update (E.lookup store) (E.entry g w).1 (E.entry g w).2 else E.lookup store
  owned : r.1 = 0 → g.ownsGroup (g.groupOf w.keyHashCode) = true
  len_nonneg : r.1 = 0 → 0 ≤ w.len

theorem Overwrites.logged {g' : Globals} {s : Server σ} (hflag : g'.writeToBinlogFlag = true)
    {r : Int × σ} {w : LogWrite} (h : Overwrites E g s.store r w) :
    ∃ log, (∀ v ∈ log, v = w) ∧ Follows E g s (s.logged g' r w) log := by
  have hl := h.lookup
  by_cases h0 : r.1 = 0
  · rw [if_pos h0] at hl
    refine ⟨[w], fun v hv => List.mem_singleton.mp hv, by rw [Server.logged_store]; exact h.valid,
      ?_, by rw [Server.logged_store, hl]; rfl, ?_, ?_⟩
    · unfold Server.logged Server.binlogWrite
      rw [if_neg (not_not.mpr h0), if_pos hflag]
    · exact List.forall_mem_singleton.mpr (h.owned h0)
    · exact List.forall_mem_singleton.mpr (h.len_nonneg h0)
  · rw [if_neg h0] at hl
    refine ⟨[], by simp, .of_same (by rw [Server.logged_store]; exact h.valid) ?_
      (by rw [Server.logged_store, hl])⟩
    unfold Server.logged
    rw [if_pos h0]

theorem Action.Of.overwrites {g' : Globals} {t : FastTaskInfo} {h : ReqHeader}
    (hdbs : g'.dbList = g.dbList) (hid : h.groupId = g.groupOf h.keyHashCode)
    (hneg : t.hasNegativeEntry g' = false) {a : Action} (hof : a.Of g' t h) {s : Server σ}
    (hvalid : E.Valid s.store) {status : Int} {store : σ} {w : LogWrite}
    (hcall : a.storeCall E.toStoreFuncs g' s = some (status, store, w))
    (hlost : E.lost store = false) : Overwrites E g s.store (status, store) w := by
  have howns : ∀ n, g'.ownsGroup n = g.ownsGroup n := by
    intro n
    rw [Globals.ownsGroup, Globals.ownsGroup, hdbs]
  have hown : ∀ w : LogWrite, w.Of g' t h → g.ownsGroup (g.groupOf w.keyHashCode) = true := by
    intro w hw
    rw [hw.keyHashCode, ← hid, ← howns]
    exact hw.owns
  cases a with
  | get grp key n => cases hcall
  | set grp value w' =>
    cases hcall
    obtain ⟨rfl, hset, hw, hvalue⟩ := hof
    obtain ⟨h0, hvalue⟩ := hvalue hneg
    obtain ⟨hlen, hval⟩ := LogWrite.value_eq hw.pValue_length h0 hw.valueLen_lt
    have hentry : w.entry g = ((h.groupId, w.keyInfo.packFullKey), some value) := by
      rw [LogWrite.entry, if_pos hset, hval, hw.keyHashCode, ← hid, hvalue]
    obtain ⟨hvalid', hlookup⟩ := E.run_exact h.groupId w.keyInfo.packFullKey (.set value) hvalid hlost
    refine ⟨hvalid', ?_, fun _ => hown w hw, fun _ => hlen ▸ h0⟩
    rw [KeyStore.entry, hentry]
    exact hlookup
  | partialSet grp key e => cases hcall
  | delete grp w' =>
    cases hcall
    obtain ⟨rfl, hset, hw, h0⟩ := hof
    have hentry : w.entry g = ((h.groupId, w.keyInfo.packFullKey), none) := by
      rw [LogWrite.entry, if_neg (by simp [hset]), hw.keyHashCode, ← hid]
    obtain ⟨hvalid', hlookup⟩ := E.run_exact h.groupId w.keyInfo.packFullKey .delete hvalid hlost
    refine ⟨hvalid', ?_, fun _ => hown w hw, fun _ => ?_⟩
    · rw [KeyStore.entry, hentry]
      exact hlookup
    · rw [LogWrite.len, h0]
      decide
  | inc grp k hash n e =>
    obtain ⟨hgroup, rfl, rfl, -⟩ := hof
    have hvalue := E.incEx_value s.store h.groupId k.packFullKey n incValueLen e g'.currentTime
    cases hcall
    obtain ⟨hvalid', hlookup⟩ := E.run_exact h.groupId k.packFullKey
      (.incEx n incValueLen e g'.currentTime) hvalid hlost
    refine ⟨hvalid', ?_, fun _ => ?_, fun h0 => ?_⟩
    · by_cases h0 : (E.incEx s.store h.groupId k.packFullKey n incValueLen e g'.currentTime).1 = 0
      · obtain ⟨m, hv⟩ := hvalue h0
        rw [if_pos h0, KeyStore.entry, hv, (incWrite_entry g g' k h.keyHashCode e m).2, ← hid, ← hv]
        exact hlookup.trans (if_pos h0)
      · rw [if_neg h0]
        exact hlookup.trans (if_neg h0)
    · exact (howns _).symm.trans (hid ▸ hgroup)
    · obtain ⟨m, hv⟩ := hvalue h0
      rw [hv]
      exact (incWrite_entry g g' k h.keyHashCode e m).1
  | sync state => cases hcall

section Handling

variable {g' : Globals} {t : FastTaskInfo} {h : ReqHeader} (hdbs : g'.dbList = g.dbList)
  (hflag : g'.writeToBinlogFlag = true) (hid : h.groupId = g.groupOf h.keyHashCode)
  (hneg : t.hasNegativeEntry g' = false) {s s' : Server σ} (hvalid : E.Valid s.store)
include hdbs hflag hid hneg hvalid

theorem Action.Of.follows {a : Action} (hof : a.Of g' t h)
    (hset : ∀ grp key e, a ≠ .partialSet grp key e)
    (hlost : E.lost (a.run E.toStoreFuncs g' s).store = false) :
    ∃ log, Follows E g s (a.run E.toStoreFuncs g' s) log ∧ ∀ w ∈ log, ∃ status store,
      a.storeCall E.toStoreFuncs g' s = some (status, store, w) := by
  cases hcall : a.storeCall E.toStoreFuncs g' s with
  | some c =>
    obtain ⟨status, store, w⟩ := c
    rw [Action.run_storeCall hcall] at hlost ⊢
    rw [Server.logged_store] at hlost
    obtain ⟨log, hall, hlog⟩ := (hof.overwrites hdbs hid hneg hvalid hcall hlost).logged hflag
    exact ⟨log, hlog, fun v hv => ⟨status, store, by rw [hall v hv]⟩⟩
  | none =>
    cases a with
    | get grp key n =>
      obtain ⟨hvalid', hlookup⟩ := E.run_exact grp key (.get n) hvalid hlost
      rw [StoreFuncs.result, Function.update_eq_self, ite_self] at hlookup
      exact ⟨[], .of_same hvalid' rfl hlookup, by simp⟩
    | set grp value w => cases hcall
    | partialSet grp key e => exact absurd rfl (hset grp key e)
    | delete grp w => cases hcall
    | inc grp k hash n e => cases hcall
    | sync state => exact ⟨[], .of_same hvalid rfl rfl, by simp⟩

theorem acts_follows (hread : t.refreshes h = false)
    (ha : Acts E.toStoreFuncs g' (Action.Of g' t h) s s') (hlost : E.lost s'.store = false) :
    ∃ log, Follows E g s s' log := by
  induction ha with
  | refl => exact ⟨[], .of_same hvalid rfl rfl⟩
  | tail _ hact ih =>
    obtain ⟨a, hof, rfl⟩ := hact
    obtain ⟨log, hlog⟩ := ih (Action.run_lost hlost)
    have hset : ∀ grp key e, a ≠ .partialSet grp key e := by
      rintro grp key e rfl
      exact absurd (hread.symm.trans hof) Bool.false_ne_true
    obtain ⟨log', hlog', -⟩ := hof.follows hdbs hflag hid hneg hlog.valid hset hlost
    exact ⟨log ++ log', hlog.trans hlog'⟩

theorem acts_onList_follows (hsrc : SourceRequest g' t h) {k : FDHTKeyInfo}
    (ha : Acts E.toStoreFuncs g' (Action.OnList g' h k) s s') (hlost : E.lost s'.store = false) :
    ∃ log, Follows E g s s' log ∧
      ∀ w ∈ log, (w.entry g).1 = (h.groupId, k.listKey.packFullKey) := by
  induction ha with
  | refl => exact ⟨[], .of_same hvalid rfl rfl, by simp⟩
  | tail _ hact ih =>
    obtain ⟨a, hon, rfl⟩ := hact
    obtain ⟨log, hlog, hkeys⟩ := ih (Action.run_lost hlost)
    have hset : ∀ grp key e, a ≠ .partialSet grp key e := by
      rintro grp key e rfl
      exact hon
    obtain ⟨log', hlog', hcalls⟩ :=
      (hon.of hsrc).follows hdbs hflag hid hneg hlog.valid hset hlost
    refine ⟨log ++ log', hlog.trans hlog', List.forall_mem_append.mpr ⟨hkeys, fun v hv => ?_⟩⟩
    obtain ⟨status, store, hcall⟩ := hcalls v hv
    rw [hon.target hcall, ← hid]

end Handling

/-- A SET, INC, DEL, BATCH_SET or BATCH_DEL that is handled for the groups of
`g` with the binlog on. -/
def LoggedRequest (g g' : Globals) (t : FastTaskInfo) : Prop :=
  g'.groupCount = g.groupCount ∧ g'.dbList = g.dbList ∧ g'.writeToBinlogFlag = true ∧
    ∃ c ∈ [ProtoCmd.set, .inc, .del, .batchSet, .batchDel], t.cmd = some c

theorem Serves.follows {s s' : Server Bdb} (hserve : Serves bdbFuncs
      (fun g' t => LoggedRequest g g' t ∧ t.hasNegativeEntry g' = false) s s') :
    ∃ log, Follows bdbStore g s s' log := by
  obtain ⟨g', env, t, resp, ⟨⟨hgroups, hdbs, hflag, c, hc, hcmd⟩, hneg⟩, hwork⟩ := hserve
  have hread : t.refreshes (t.header g') = false := by
    rw [FastTaskInfo.refreshes, hcmd]
    revert hc
    cases c <;> simp
  have hid : (t.header g').groupId = g.groupOf (t.header g').keyHashCode := by
    rw [Globals.groupOf, ← hgroups]
    rfl
  exact acts_follows hdbs hflag hid hneg trivial hread (workDealTask_acts hwork) rfl

end Follow

/-- The conditions on a record under which the log is expected to be
readable. -/
structure LogWrite.Printable (w : LogWrite) : Prop where
  key_ne : w.keyInfo.szKey ≠ []
  timestamp : 0 < toInt32 w.timestamp
  keyHashCode : (formatInt (toInt32 w.keyHashCode)).length ≤ 10
  expires : (formatInt (toInt32 w.expires)).length ≤ 10

instance (w : LogWrite) : Decidable w.Printable :=
  decidable_of_iff (w.keyInfo.szKey ≠ [] ∧ 0 < toInt32 w.timestamp ∧
    (formatInt (toInt32 w.keyHashCode)).length ≤ 10 ∧ (formatInt (toInt32 w.expires)).length ≤ 10)
    ⟨fun h => ⟨h.1, h.2.1, h.2.2.1, h.2.2.2⟩, fun h => ⟨h.1, h.2, h.3, h.4⟩⟩

theorem LogWrite.Printable.loggable {w : LogWrite} (hp : w.Printable) (h0 : 0 ≤ w.len) :
    w.Loggable where
  timestamp := by have := hp.timestamp; omega
  keyHashCode := (formatInt_toInt32_le _).mp hp.keyHashCode
  expires := (formatInt_toInt32_le _).mp hp.expires
  timestamp_ne := by have := hp.timestamp; omega
  key_ne := hp.key_ne
  len_nonneg := h0

/-- **Recovery reproduces the store.** After any run from an empty store of
requests that are logged and reach no negative value length, recovering the
binlog into an empty database gives the store, sub-key lists included. -/
theorem recovery_reproduces_store {g : Globals} {s s' : Server Bdb}
    (hempty : s.store.data = fun _ => none) (hlog : s.binlog = [])
    (hrun : ReflTransGen (Serves bdbFuncs
      fun g' t => LoggedRequest g g' t ∧ t.hasNegativeEntry g' = false) s s')
    (hprint : ∀ w ∈ s'.binlog, w.Printable) {db : Bdb} (hq : db.Quiet)
    (hdb : db.data = fun _ => none) :
    (fdhtRecoverData g (binlogBytes s'.binlog) db).1 = 0 ∧
      (fdhtRecoverData g (binlogBytes s'.binlog) db).2.data = s'.store.data := by
  have hrun' : ∃ log, Follows bdbStore g s s' log := by
    clear hprint
    induction hrun with
    | refl => exact ⟨[], .of_same trivial rfl rfl⟩
    | tail _ hserve ih =>
      obtain ⟨log, hlog⟩ := ih
      obtain ⟨log', hlog'⟩ := hserve.follows
      exact ⟨log ++ log', hlog.trans hlog'⟩
  obtain ⟨log, hf⟩ := hrun'
  have hall : s'.binlog = log := by rw [hf.binlog, hlog, List.nil_append]
  rw [hall] at hprint ⊢
  obtain ⟨h0, hdata⟩ := fdhtRecoverData_log hq fun w hw =>
    ⟨(hprint w hw).loggable (hf.len_nonneg w hw), hf.owned w hw⟩
  refine ⟨h0, ?_⟩
  rw [hdata, hdb, ← hempty]
  exact hf.replay.symm

/-- SET of the key `a` of the object `o` in the namespace `n`. -/
def setSubKeyRequest : FastTaskInfo :=
  request .set 0 0 (int2buff 1 ++ [110] ++ int2buff 1 ++ [111] ++ int2buff 1 ++ [97] ++
    int2buff 1 ++ [120])

/-- One group, with sub-key lists. -/
def oneGroupLists : Globals := { oneGroup with storeSubKeys := true }

theorem recovery_reproduces_store_set :
    ∃ s, served oneGroupLists setSubKeyRequest emptyServer = some s ∧
      s.store.data (0, [110, 1, 111, 1, 42]) = some [0, 0, 0, 0, 97] ∧
      (fdhtRecoverData oneGroupLists (binlogBytes s.binlog) emptyBdb).2.data = s.store.data := by
  have hcheck : (served oneGroupLists setSubKeyRequest emptyServer).map (fun s =>
      (s.store.data (0, [110, 1, 111, 1, 42]), decide (∀ w ∈ s.binlog, w.Printable))) =
      some (some [0, 0, 0, 0, 97], true) := by decide +kernel
  obtain ⟨s, hs, heq⟩ := Option.map_eq_some_iff.mp hcheck
  obtain ⟨hlist, hprint⟩ := Prod.mk.inj heq
  have hok : LoggedRequest oneGroupLists oneGroupLists setSubKeyRequest :=
    ⟨rfl, rfl, rfl, .set, by decide, by decide +kernel⟩
  exact ⟨s, hs, hlist, (recovery_reproduces_store (s := emptyServer) rfl rfl
    (.single (served_run (fun g' t => LoggedRequest oneGroupLists g' t ∧
      t.hasNegativeEntry g' = false) ⟨hok, by decide +kernel⟩ hs))
    (of_decide_eq_true hprint) emptyBdb_quiet rfl).2⟩

/-- The batch with a negative value length is answered with status 0; the
record of its first entry cannot be read, and nothing is recovered. -/
theorem recovery_stops_at_negative_length :
    ¬ ∀ (g : Globals) (s s' : Server Bdb), s.store.data = (fun _ => none) → s.binlog = [] →
      ReflTransGen (Serves bdbFuncs (LoggedRequest g)) s s' →
      (∀ w ∈ s'.binlog, w.Printable) → ∀ db : Bdb, db.Quiet → db.data = (fun _ => none) →
      (fdhtRecoverData g (binlogBytes s'.binlog) db).2.data = s'.store.data := by
  intro hall
  have hcheck : (served oneGroup negativeBatch emptyServer).map (fun s =>
      (decide (∀ w ∈ s.binlog, w.Printable), s.store.data (0, [1, 1, 98]),
        (fdhtRecoverData oneGroup (binlogBytes s.binlog) emptyBdb).2.data (0, [1, 1, 98]))) =
      some (true, some [0, 0, 0, 1], none) := by decide +kernel
  obtain ⟨s, hs, heq⟩ := Option.map_eq_some_iff.mp hcheck
  obtain ⟨hprint, hdata⟩ := Prod.mk.inj heq
  obtain ⟨hstore, hnone⟩ := Prod.mk.inj hdata
  have hok : LoggedRequest oneGroup oneGroup negativeBatch :=
    ⟨rfl, rfl, rfl, .batchSet, by decide, by decide +kernel⟩
  have hrec := congrFun (hall oneGroup emptyServer s rfl rfl (.single (served_run _ hok hs))
    (of_decide_eq_true hprint) emptyBdb emptyBdb_quiet rfl) (0, [1, 1, 98])
  rw [hstore, hnone] at hrec
  cases hrec

end FastDht
