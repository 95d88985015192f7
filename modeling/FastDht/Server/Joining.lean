import Mathlib.Data.Fintype.Defs
import FastDht.Server.Convergence
import FastDht.Server.LogOrder
import FastDht.Server.SourceElection

/-! # A server that joins a group

Each of the old servers of the group starts a thread to the new one,
fdht_sync_thread_entrance of server/sync.c. The thread asks until the new server
tells it who the source of the old data is. The source sends its whole binlog,
with the records that it got from other servers up to the time of its election,
and reports when it has reached the end. The others wait for that, skip what is
older than the election, and send their own records from there on. The threads
read the binlog file; a new record is in the write cache until that is flushed. -/
namespace FastDht
open Lib

variable {ι σ : Type}

/-! ## The thread to the new server -/

/-- The loop of `fdht_binlog_reader_skip` from an offset on. A record takes at
least one byte, so there are fewer rounds than bytes. -/
def readerSkipLoop (file : Bytes) (untilTimestamp : Int) : Nat → Nat → Except Int Nat
  | 0, offset => .ok offset
  | n + 1, offset =>
    match fdhtBinlogRead (file.drop offset) with
    | .error result => if result = ENOENT then .ok offset else .error result
    | .ok (record, recordLen) =>
      if untilTimestamp ≤ record.timestamp then .ok offset
      else readerSkipLoop file untilTimestamp n (offset + recordLen.toNat)

def fdhtBinlogReaderSkip (file : Bytes) (untilTimestamp : Int) : Except Int Nat :=
  readerSkipLoop file untilTimestamp (file.length + 1) 0

/-- A thread to the new server that has been answered. -/
structure JoinReader where
  flags : BinLogReader
  offset : Nat
  deriving DecidableEq, Repr

/-- What `fdht_sync_req` reads from the answer. -/
def FastTaskInfo.readerFlags (t : FastTaskInfo) (id : Bytes × Int) : BinLogReader where
  needSyncOld := t.needSyncOld id
  syncOldDone := t.data.getD sizeofHeader 0 ≠ 0
  untilTimestamp := t.bodyInt (1 + ipAddressSize + 4)

/-- The end of `fdht_reader_init`, for a thread without a mark file. -/
def fdhtReaderInit (file : Bytes) (flags : BinLogReader) : Except Int JoinReader :=
  if flags.needSyncOld = false ∧ 0 < flags.untilTimestamp then
    (fdhtBinlogReaderSkip file flags.untilTimestamp).map fun offset => ⟨flags, offset⟩
  else .ok ⟨flags, 0⟩

/-! ## The group with the new server -/

structure Join (ι σ : Type) where
  /-- The old servers, and the threads between them. -/
  group : Group ι σ
  /-- How many records of a server's binlog are in its file. -/
  flushed : ι → Nat
  /-- What the new server knows. -/
  sync : SyncState
  reader : ι → Option JoinReader
  /-- The records that have been sent to the new server and taken by it. -/
  sent : List BinLogRecord

inductive JoinEvent (ι : Type)
  | group (e : GroupEvent ι)
  /-- `fdht_binlog_fsync` writes the cache, up to the record `n`, to the file. -/
  | flush (i : ι) (n : Nat)
  /-- A server asks; `iniResult` is what `write_to_sync_ini_file` returns. -/
  | req (i : ι) (iniResult : Int) (t : FastTaskInfo)
  /-- The next record of a server is handled for the new server, which answers
  `status` if it is sent. -/
  | send (i : ι) (status : Int)
  /-- A server is at the end of its binlog file and reports that. -/
  | notify (i : ι) (iniResult : Int) (t : FastTaskInfo)

namespace Join

variable [DecidableEq ι]

/-- The records in the binlog file of a server, and those in its write cache. -/
def fileLog (s : Join ι σ) (i : ι) : List LogWrite := (s.group.server i).binlog.take (s.flushed i)

def cacheLog (s : Join ι σ) (i : ι) : List LogWrite := (s.group.server i).binlog.drop (s.flushed i)

def next (s : Join ι σ) (i : ι) (reader : JoinReader) : Except Int (BinLogRecord × Int) :=
  fdhtBinlogRead ((binlogBytes (s.fileLog i)).drop reader.offset)

def setReader (s : Join ι σ) (i : ι) (reader : JoinReader) : Join ι σ :=
  { s with reader := Function.update s.reader i (some reader) }

theorem setReader_self (s : Join ι σ) (i : ι) (reader : JoinReader) :
    (s.setReader i reader).reader i = some reader := Function.update_self ..

theorem setReader_of_ne (s : Join ι σ) {i k : ι} (hk : k ≠ i) (reader : JoinReader) :
    (s.setReader i reader).reader k = s.reader k := Function.update_of_ne hk ..

def answer (s : Join ι σ) (i : ι) (id : Bytes × Int) (result : Int) (out : FastTaskInfo) :
    Join ι σ :=
  if result = 0 then
    match fdhtReaderInit (binlogBytes (s.fileLog i)) (out.readerFlags id) with
    | .ok reader => s.setReader i reader
    | .error _ => s
  else s

def sendRecord (g : ι → Globals) (s : Join ι σ) (i : ι) (reader : JoinReader) (r : BinLogRecord)
    (status : Int) : Join ι σ :=
  match fdhtSyncData ((g i).at s.group.now) reader.flags r with
  | none => s.setReader i { reader with offset := reader.offset + r.readBytes }
  | some _ =>
    if r.syncResult status = 0 then
      { s.setReader i { reader with offset := reader.offset + r.readBytes } with
        sent := s.sent ++ [r] }
    else s

/-- A thread between old servers has something to read in the file. -/
def readable (s : Join ι σ) : GroupEvent ι → Bool
  | .deliver i j _ _ _ => s.group.offset (i, j) < (binlogBytes (s.fileLog i)).length
  | _ => true

def step (S : StoreFuncs σ) (g : ι → Globals) (gNew : Globals) (id : ι → Bytes × Int)
    (plain : BinLogReader) (s : Join ι σ) : JoinEvent ι → Option (Join ι σ)
  | .group e =>
    if s.readable e then (s.group.step S g plain e).map fun group => { s with group := group }
    else none
  | .flush i n =>
    if s.flushed i ≤ n ∧ n ≤ (s.group.server i).binlog.length then
      some { s with flushed := Function.update s.flushed i n }
    else none
  | .req i iniResult t =>
    if t.sender = id i ∧ s.reader i = none then
      let r := dealCmdSyncReq (gNew.at s.group.now) iniResult t s.sync
      some (({ s with sync := r.2.2 } : Join ι σ).answer i (id i) r.1 r.2.1)
    else none
  | .send i status =>
    match s.reader i with
    | none => none
    | some reader => match s.next i reader with
      | .error _ => none
      | .ok (r, _) => some (s.sendRecord g i reader r status)
  | .notify i iniResult t =>
    match s.reader i with
    | none => none
    | some reader => match s.next i reader with
      | .ok _ => none
      | .error result =>
        if result = ENOENT ∧ t.sender = id i ∧ reader.flags.needSyncOld = true ∧
            reader.flags.syncOldDone = false then
          let r := dealCmdSyncDone (gNew.at s.group.now) iniResult t s.sync
          let s : Join ι σ := { s with sync := r.2.2 }
          some (if r.1 = 0 then
              s.setReader i { reader with flags := { reader.flags with syncOldDone := true } }
            else s)
        else none

end Join

/-! ## Skipping -/

section Skip

variable {log : List LogWrite} {offset n : Nat}

theorem readerSkipLoop_spec (hlog : ∀ w ∈ log, w.Loggable) {untilTimestamp : Int} {fuel : Nat}
    (h : StartsAt log offset n)
    (hpassed : ∀ w ∈ log.take n, w.record.timestamp < untilTimestamp) {offset' : Nat}
    (hskip : readerSkipLoop (binlogBytes log) untilTimestamp fuel offset = .ok offset') :
    ∃ n', StartsAt log offset' n' ∧ ∀ w ∈ log.take n', w.record.timestamp < untilTimestamp := by
  induction fuel generalizing offset n with
  | zero =>
    obtain rfl := Except.ok.inj hskip
    exact ⟨n, h, hpassed⟩
  | succ fuel ih =>
    unfold readerSkipLoop at hskip
    rcases hread : fdhtBinlogRead ((binlogBytes log).drop offset) with result | ⟨r, len⟩
    · rw [hread] at hskip
      dsimp only at hskip
      split at hskip
      · obtain rfl := Except.ok.inj hskip
        exact ⟨n, h, hpassed⟩
      · cases hskip
    · rw [hread] at hskip
      dsimp only at hskip
      obtain ⟨w, rest, hdrop, rfl, htake, hnext⟩ := h.read hlog hread
      split at hskip
      · obtain rfl := Except.ok.inj hskip
        exact ⟨n, h, hpassed⟩
      · have hw : w.Loggable := hlog w (List.mem_of_mem_drop (hdrop ▸ List.mem_cons_self))
        rw [h.drop, hdrop, binlogBytes, List.flatMap_cons, fdhtBinlogRead_write hw] at hread
        obtain ⟨-, rfl⟩ := Prod.mk.inj (Except.ok.inj hread)
        rw [Int.toNat_natCast, ← hw.readBytes] at hskip
        refine ih hnext ?_ hskip
        rw [htake]
        intro v hv
        rcases List.mem_append.mp hv with hv | hv
        · exact hpassed v hv
        · rw [List.mem_singleton.mp hv]
          omega

end Skip

/-! ## The handshake -/

/-- What a SYNC_REQ does to the source and the time of its election. -/
inductive ReqOutcome (now : Int) (t : FastTaskInfo) (s s' : SyncState) : Prop
  | kept (hdone : s'.syncOldDone = s.syncOldDone) (hsource : s'.source = s.source)
    (huntil : s'.syncUntilTimestamp = s.syncUntilTimestamp)
  | elected (hdone : s.syncOldDone = false) (hdone' : s'.syncOldDone = false)
    (hsource : s'.source = t.sender) (huntil : s'.syncUntilTimestamp = now)
  /-- The server that has been chosen has no updates. -/
  | closed (hdone : s.syncOldDone = false) (hcount : t.updateCount ≤ 0)
    (hsource : s'.source = s.source) (huntil : s'.syncUntilTimestamp = s.syncUntilTimestamp)

section Handshake

variable {t : FastTaskInfo} {s : SyncState}

theorem readerFlags_pack (hs : s.Packable) (huntil : 0 ≤ s.syncUntilTimestamp)
    (hlt : s.syncUntilTimestamp < 2 ^ 31) (id : Bytes × Int) :
    (packSyncReqBody t s).readerFlags id = ⟨s.source = id, s.syncOldDone, s.syncUntilTimestamp⟩ := by
  have hneed : (packSyncReqBody t s).needSyncOld id = decide (s.source = id) := by
    rw [Bool.eq_iff_iff, needSyncOld_pack hs, decide_eq_true_eq]
  have hdone : readAt (packSyncReqBody t s).data sizeofHeader 1 = [if s.syncOldDone then 1 else 0] := by
    exact readAt_writeAt_self t.data [if s.syncOldDone then 1 else 0] sizeofHeader
  have hbyte : (packSyncReqBody t s).data.getD sizeofHeader 0 = if s.syncOldDone then 1 else 0 := by
    have hget := congrArg (fun b => b.getD 0 0) hdone
    exact hget
  have htime : (packSyncReqBody t s).bodyInt (1 + ipAddressSize + 4) = s.syncUntilTimestamp := by
    simp only [packSyncReqBody, FastTaskInfo.bodyInt, FastTaskInfo.intAt, FastTaskInfo.write]
    rw [← Nat.add_assoc, ← Nat.add_assoc,
      show (4 : Nat) = (int2buff s.syncUntilTimestamp).length from rfl, readAt_writeAt_self,
      ← List.append_nil (int2buff _), buff2int_int2buff]
    exact toInt32_of_range (by omega) hlt
  unfold FastTaskInfo.readerFlags
  rw [hneed, hbyte, htime]
  rcases s.syncOldDone with _ | _ <;> rfl

theorem dealCmdSyncReq_outcome (g : Globals) (iniResult : Int) (t : FastTaskInfo) (hs : s.Listed) :
    (dealCmdSyncReq g iniResult t s).2.2.Listed ∧
      ReqOutcome g.currentTime t s (dealCmdSyncReq g iniResult t s).2.2 ∧
      ((dealCmdSyncReq g iniResult t s).1 = 0 →
        (dealCmdSyncReq g iniResult t s).2.1 =
            packSyncReqBody t (dealCmdSyncReq g iniResult t s).2.2 ∧
          ((dealCmdSyncReq g iniResult t s).2.2.source = t.sender ∨
            (dealCmdSyncReq g iniResult t s).2.2.syncOldDone = true)) := by
  have hcases := dealCmdSyncReq_cases g iniResult t s
  generalize dealCmdSyncReq g iniResult t s = r at hcases ⊢
  obtain ⟨result, out, s'⟩ := r
  rcases hcases with
    ⟨rfl, hout⟩ | ⟨hold, i, x, hx, hid, ⟨rfl, hfail⟩ | ⟨p, hchoose, hp, rfl, hout⟩⟩
  · exact ⟨hs, .kept rfl rfl rfl, fun hok => ⟨(hout hok).2, .inr (hout hok).1⟩⟩
  · exact ⟨hs.record hx _ t, .kept rfl rfl rfl, fun hok => absurd hok hfail⟩
  · obtain ⟨l₁, l₂, hsplit, -, -⟩ := chooseServer_chosen hchoose
    have hmem : p ∈ (s.record g.currentTime t i).groupServers := by
      rw [hsplit]
      exact List.mem_append_right _ List.mem_cons_self
    have hrecord : p = x.record t := record_sender _ t hx hs.distinct hmem (hp.trans hid.symm)
    refine ⟨(hs.record hx _ t).elect _ hmem, ?_, fun hok => ⟨hout hok, ?_⟩⟩
    · unfold SyncState.elect
      split
      · exact .elected hold hold hp rfl
      · rename_i hcount
        rw [hrecord] at hcount
        exact .closed hold (Int.not_lt.mp hcount) rfl rfl
    · unfold SyncState.elect
      split
      · exact .inl hp
      · exact .inr rfl

theorem dealCmdSyncDone_outcome (g : Globals) (iniResult : Int) (t : FastTaskInfo) (hs : s.Listed) :
    (dealCmdSyncDone g iniResult t s).2.2.Listed ∧
      (dealCmdSyncDone g iniResult t s).2.2.source = s.source ∧
      (dealCmdSyncDone g iniResult t s).2.2.syncUntilTimestamp = s.syncUntilTimestamp ∧
      ((dealCmdSyncDone g iniResult t s).2.2.syncOldDone = s.syncOldDone ∨
        s.syncOldDone = false ∧ s.source = t.sender) := by
  unfold dealCmdSyncDone
  split_ifs with hlen hsender hdone
  · exact ⟨hs, rfl, rfl, .inl rfl⟩
  · exact ⟨hs, rfl, rfl, .inl rfl⟩
  · obtain ⟨hip, hport⟩ := hsender
    have hcstr := strcmp_eq_iff.mp hip
    rw [hs.packable.ip] at hcstr
    exact ⟨hs.closed _, rfl, rfl, .inr ⟨Bool.eq_false_iff.mpr hdone,
      Prod.ext hcstr.symm hport.symm⟩⟩
  · exact ⟨hs, rfl, rfl, .inl rfl⟩

end Handshake

/-! ## Records that carry an update -/

/-- The record brings the same update as the other; its expiry may have moved. -/
structure BinLogRecord.Carries (r r' : BinLogRecord) : Prop where
  timestamp : r.timestamp = r'.timestamp
  keyHashCode : r.keyHashCode = r'.keyHashCode
  keyInfo : r.keyInfo = r'.keyInfo
  isSet : r.opType.isSet = r'.opType.isSet
  value : r'.opType.isSet = true → r.value = r'.value

theorem BinLogRecord.Carries.refl (r : BinLogRecord) : r.Carries r :=
  ⟨rfl, rfl, rfl, rfl, fun _ => rfl⟩

theorem BinLogRecord.Carries.trans {r r' r'' : BinLogRecord} (h : r.Carries r')
    (h' : r'.Carries r'') : r.Carries r'' :=
  ⟨h.timestamp.trans h'.timestamp, h.keyHashCode.trans h'.keyHashCode, h.keyInfo.trans h'.keyInfo,
    h.isSet.trans h'.isSet, fun hset => (h.value (h'.isSet.trans hset)).trans (h'.value hset)⟩

instance (r r' : BinLogRecord) : Decidable (r.Carries r') :=
  decidable_of_iff (r.timestamp = r'.timestamp ∧ r.keyHashCode = r'.keyHashCode ∧
    r.keyInfo = r'.keyInfo ∧ r.opType.isSet = r'.opType.isSet ∧
    (r'.opType.isSet = true → r.value = r'.value))
    ⟨fun h => ⟨h.1, h.2.1, h.2.2.1, h.2.2.2.1, h.2.2.2.2⟩, fun h => ⟨h.1, h.2, h.3, h.4, h.5⟩⟩

theorem replicaWrite_not_source (g : Globals) (r : BinLogRecord) :
    (r.replicaWrite g).opType.isSource = false := by
  unfold BinLogRecord.replicaWrite
  split <;> rfl

theorem replicaWrite_carries {w : LogWrite} (hs : w.record.Sendable) (g : Globals) :
    (w.record.replicaWrite g).record.Carries w.record := by
  have hlength := hs.fits
  refine ⟨?_, ?_, rfl, ?_, fun hset => ?_⟩
  · simp only [LogWrite.record, BinLogRecord.replicaWrite, toInt32_toUInt32, toInt32_toInt32]
  · simp only [LogWrite.record, BinLogRecord.replicaWrite, toInt32_toInt32]
  · show (if w.record.opType.isSet = true then OpType.replicaSet else .replicaDel).isSet =
      w.record.opType.isSet
    split <;> rename_i hset
    · rw [hset]
      rfl
    · rw [Bool.eq_false_iff.mpr hset]
      rfl
  · have hvalue : (w.record.replicaWrite g).value = (w.record.replicaWrite g).pValue :=
      (LogWrite.value_eq (by simp [BinLogRecord.replicaWrite, hset])
        (by simp [BinLogRecord.replicaWrite, hset])
        (by simp only [BinLogRecord.replicaWrite, hset, if_true]; omega)).2
    refine hvalue.trans ?_
    simp only [BinLogRecord.replicaWrite, hset, if_true]

/-- An update that has been sent to the new server by some server. -/
def Join.HasSent (s : Join ι σ) (r : BinLogRecord) : Prop := ∃ r' ∈ s.sent, r'.Carries r

/-! ## The condition -/

section Condition

variable [DecidableEq ι]

/-- Client requests, deliveries between the old servers and the handshake; no
thread is started again. -/
def JoinEvent.Plain : JoinEvent ι → Prop
  | .group (.request _ t _) => t.cmd ≠ some .syncSet ∧ t.cmd ≠ some .syncDel
  | .group (.rewind _ _ _) => False
  | _ => True

/-- The receiver of an update logs it in a form that can be read. -/
structure BinLogRecord.Logged (S : StoreFuncs σ) (g : Globals) (r : BinLogRecord) (store : σ) :
    Prop where
  live : r.dropped g.currentTime = false
  sendable : r.Sendable
  /-- A set does not fail, and a delete finds its key. -/
  stored : (r.replicaCall S g store).1 = 0
  expires : -10 ^ 9 < toInt32 (g.newExpires (toInt32 r.timestamp) (toInt32 r.expires))

/-- What a step has to keep to for no update to be missed. -/
def Join.Covers (S : StoreFuncs σ) (g : ι → Globals) (s : Join ι σ) : JoinEvent ι → Prop
  | .group (.tick seconds) => s.group.now + seconds < 2 ^ 31
  | .group (.request i t _) => RecordsReadable ((g i).at s.group.now) t
  | .group (.deliver i j _ _ _) => match s.group.next i j with
    | .ok (r, _) => r.opType.isSource = true →
      r.Logged S ((g j).at s.group.now) (s.group.server j).store
    | .error _ => True
  | .group (.rewind _ _ _) => True
  | .req _ _ t => 0 < t.updateCount ∨ s.sync.syncUntilTimestamp = 0
  | .send i _ => match s.reader i with
    | none => True
    | some reader => match s.next i reader with
      | .ok (r, _) => r.dropped s.group.now = false
      | .error _ => True
  | .flush _ _ => True
  | .notify i _ _ => s.sync.syncOldDone = false →
    (∀ j, j ≠ i → ∀ w ∈ s.group.pending j i, s.sync.syncUntilTimestamp ≤ w.record.timestamp) ∧
    ∀ w ∈ s.cacheLog i, w.opType.isSource = false →
      s.sync.syncUntilTimestamp ≤ w.record.timestamp

instance : (e : JoinEvent ι) → Decidable e.Plain
  | .group (.tick _) => .isTrue trivial
  | .group (.request _ _ _) => inferInstanceAs (Decidable (_ ∧ _))
  | .group (.deliver _ _ _ _ _) => .isTrue trivial
  | .group (.rewind _ _ _) => .isFalse not_false
  | .flush _ _ => .isTrue trivial
  | .req _ _ _ => .isTrue trivial
  | .send _ _ => .isTrue trivial
  | .notify _ _ _ => .isTrue trivial

instance (r : BinLogRecord) : Decidable r.Sendable :=
  decidable_of_iff (r.keyInfo.szKey ≠ [] ∧
    sizeofHeader + 16 + r.keyInfo.bytes + r.value.length < 2 ^ 31)
    ⟨fun h => ⟨h.1, h.2⟩, fun h => ⟨h.1, h.2⟩⟩

instance (S : StoreFuncs σ) (g : Globals) (r : BinLogRecord) (store : σ) :
    Decidable (r.Logged S g store) :=
  decidable_of_iff (r.dropped g.currentTime = false ∧ r.Sendable ∧
    (r.replicaCall S g store).1 = 0 ∧
    -10 ^ 9 < toInt32 (g.newExpires (toInt32 r.timestamp) (toInt32 r.expires)))
    ⟨fun h => ⟨h.1, h.2.1, h.2.2.1, h.2.2.2⟩, fun h => ⟨h.1, h.2, h.3, h.4⟩⟩

instance [Fintype ι] (S : StoreFuncs σ) (g : ι → Globals) (s : Join ι σ) :
    (e : JoinEvent ι) → Decidable (s.Covers S g e)
  | .group (.tick _) => inferInstanceAs (Decidable (_ < _))
  | .group (.request _ _ _) => inferInstanceAs (Decidable (RecordsReadable _ _))
  | .group (.deliver i j _ _ _) => by
    unfold Join.Covers
    dsimp only
    cases s.group.next i j <;> infer_instance
  | .group (.rewind _ _ _) => .isTrue trivial
  | .req _ _ _ => inferInstanceAs (Decidable (_ ∨ _))
  | .send i _ => by
    unfold Join.Covers
    dsimp only
    rcases s.reader i with _ | reader
    · exact .isTrue trivial
    · dsimp only
      cases s.next i reader <;> infer_instance
  | .flush _ _ => .isTrue trivial
  | .notify _ _ _ =>
    inferInstanceAs (Decidable (_ → (∀ _, _ → ∀ _ ∈ _, _) ∧ ∀ _ ∈ _, _ → _))

end Condition

/-! ## What holds in every run -/

/-- A record of an old server. -/
structure LogWrite.Dated (g : Globals) (now : Int) (w : LogWrite) : Prop where
  loggable : w.Loggable
  owned : g.ownsGroup (g.groupOf w.keyHashCode) = true
  le_now : w.record.timestamp ≤ now

/-- A record that a server which is not the source leaves to it. -/
def Join.Skipped (s : Join ι σ) (id : ι → Bytes × Int) (i : ι) (w : LogWrite) : Prop :=
  s.sync.syncOldDone = true ∧ s.sync.source ≠ id i ∧
    w.record.timestamp < s.sync.syncUntilTimestamp

structure Join.Sound (g : ι → Globals) (id : ι → Bytes × Int) (s : Join ι σ) : Prop where
  listed : s.sync.Listed
  clock : 0 < s.group.now ∧ s.group.now < 2 ^ 31
  elected : 0 ≤ s.sync.syncUntilTimestamp ∧ s.sync.syncUntilTimestamp ≤ s.group.now
  records : ∀ i, ∀ w ∈ (s.group.server i).binlog, w.Dated (g i) s.group.now
  flushed : ∀ i, s.flushed i ≤ (s.group.server i).binlog.length
  /-- What a thread between old servers has passed is in the receiver's binlog. -/
  delivered : ∀ i j, i ≠ j → ∃ n, StartsAt (s.group.server i).binlog (s.group.offset (i, j)) n ∧
    ∀ w ∈ (s.group.server i).binlog.take n, w.opType.isSource = true →
      ∃ v ∈ (s.group.server j).binlog, v.opType.isSource = false ∧ v.record.Carries w.record
  /-- What a thread to the new server has passed has been sent, or has been skipped as
  older than the election; the source has sent all that is not younger. -/
  passed : ∀ i reader, s.reader i = some reader →
    ∃ n, StartsAt (s.fileLog i) reader.offset n ∧
      (∀ w ∈ (s.fileLog i).take n, w.opType.isSource = true → s.HasSent w.record ∨
        s.Skipped id i w) ∧
      (reader.flags.needSyncOld = true → reader.flags.syncOldDone = false →
        ∀ w ∈ (s.fileLog i).take n,
          w.record.timestamp ≤ reader.flags.untilTimestamp → s.HasSent w.record)
  source : ∀ i reader, s.reader i = some reader → s.sync.source = id i →
    reader.flags.untilTimestamp = s.sync.syncUntilTimestamp
  /-- As soon as the new server has its old data, all that the others have and is older
  than the election has been sent. -/
  covered : ∀ i, ∀ w ∈ (s.group.server i).binlog, w.opType.isSource = true →
    s.Skipped id i w → s.HasSent w.record

section Sound

variable [DecidableEq ι] {S : StoreFuncs σ} {g : ι → Globals} {gNew : Globals}
  {id : ι → Bytes × Int} {plain : BinLogReader} {s s' : Join ι σ} {i j : ι}

omit [DecidableEq ι] in
theorem Join.Sound.tick (h : s.Sound g id) {seconds : Nat}
    (hlt : s.group.now + seconds < 2 ^ 31) :
    ({ s with group := { s.group with now := s.group.now + seconds } } : Join ι σ).Sound g id := by
  have hclock := h.clock
  have helected := h.elected
  refine ⟨h.listed, ⟨by dsimp only; omega, hlt⟩, ⟨helected.1, by dsimp only; omega⟩, ?_, h.flushed,
    h.delivered, h.passed, h.source, h.covered⟩
  intro i w hw
  obtain ⟨hlog, howned, hle⟩ := h.records i w hw
  exact ⟨hlog, howned, by dsimp only; omega⟩

theorem Join.Sound.grow (h : s.Sound g id) {server : Server σ} {log : List LogWrite}
    (hlog : server.binlog = (s.group.server i).binlog ++ log)
    (hnew : ∀ w ∈ log, w.Dated (g i) s.group.now ∧
      (w.opType.isSource = true → s.sync.syncUntilTimestamp ≤ w.record.timestamp)) :
    ({ s with group := s.group.setServer i server } : Join ι σ).Sound g id := by
  have hself : (s.group.setServer i server).server i = server := Function.update_self ..
  have hsame : ∀ k, k ≠ i → (s.group.setServer i server).server k = s.group.server k :=
    fun k hk => Function.update_of_ne hk ..
  -- every binlog is what it was, with something behind it
  have hmore : ∀ k, ∃ more, ((s.group.setServer i server).server k).binlog =
      (s.group.server k).binlog ++ more ∧ (∀ w ∈ more, w.Dated (g k) s.group.now ∧
        (w.opType.isSource = true → s.sync.syncUntilTimestamp ≤ w.record.timestamp)) := by
    intro k
    by_cases hk : k = i
    · subst hk
      exact ⟨log, by rw [hself, hlog], hnew⟩
    · exact ⟨[], by rw [hsame k hk, List.append_nil], by simp⟩
  have hfile : ∀ k, ({ s with group := s.group.setServer i server } : Join ι σ).fileLog k =
      s.fileLog k := by
    intro k
    obtain ⟨more, hbinlog, -⟩ := hmore k
    unfold Join.fileLog
    dsimp only
    rw [hbinlog, List.take_append_of_le_length (h.flushed k)]
  refine ⟨h.listed, h.clock, h.elected, ?_, ?_, ?_, ?_, h.source, ?_⟩
  · intro k w hw
    obtain ⟨more, hbinlog, hmore⟩ := hmore k
    rw [hbinlog] at hw
    rcases List.mem_append.mp hw with hw | hw
    · exact h.records k w hw
    · exact (hmore w hw).1
  · intro k
    obtain ⟨more, hbinlog, -⟩ := hmore k
    dsimp only
    rw [hbinlog, List.length_append]
    exact (h.flushed k).trans (Nat.le_add_right _ _)
  · intro k l hkl
    obtain ⟨n, hn, hdelivered⟩ := h.delivered k l hkl
    obtain ⟨more, hbinlog, -⟩ := hmore k
    obtain ⟨more', hbinlog', -⟩ := hmore l
    refine ⟨n, by rw [hbinlog]; exact hn.append more, ?_⟩
    rw [hbinlog, hbinlog', List.take_append_of_le_length hn.1]
    intro w hw hop
    obtain ⟨v, hv, hreplica⟩ := hdelivered w hw hop
    exact ⟨v, List.mem_append_left _ hv, hreplica⟩
  · intro k reader hreader
    rw [hfile]
    exact h.passed k reader hreader
  · intro k w hw hop hskipped
    obtain ⟨more, hbinlog, hmore⟩ := hmore k
    rw [hbinlog] at hw
    rcases List.mem_append.mp hw with hw | hw
    · exact h.covered k w hw hop hskipped
    · exact absurd hskipped.2.2 (Int.not_lt.mpr ((hmore w hw).2 hop))

theorem Join.Sound.flush (h : s.Sound g id) {n : Nat} (hle : s.flushed i ≤ n)
    (hn : n ≤ (s.group.server i).binlog.length) :
    ({ s with flushed := Function.update s.flushed i n } : Join ι σ).Sound g id := by
  refine ⟨h.listed, h.clock, h.elected, h.records, fun k => ?_, h.delivered, ?_, h.source,
    h.covered⟩
  · by_cases hk : k = i
    · subst hk
      simpa only [Function.update_self] using hn
    · simpa only [Function.update_of_ne hk] using h.flushed k
  · intro k reader hreader
    obtain ⟨m, hm, hown, hold⟩ := h.passed k reader hreader
    -- the file has grown at its end
    obtain ⟨more, hmore⟩ : ∃ more, ({ s with flushed := Function.update s.flushed i n } :
        Join ι σ).fileLog k = s.fileLog k ++ more := by
      unfold Join.fileLog
      dsimp only
      by_cases hk : k = i
      · subst hk
        refine ⟨((s.group.server k).binlog.drop (s.flushed k)).take (n - s.flushed k), ?_⟩
        rw [Function.update_self, ← List.take_add, Nat.add_sub_cancel' hle]
      · exact ⟨[], by rw [Function.update_of_ne hk, List.append_nil]⟩
    refine ⟨m, by rw [hmore]; exact hm.append more, ?_, ?_⟩
    · rw [hmore, List.take_append_of_le_length hm.1]
      exact hown
    · rw [hmore, List.take_append_of_le_length hm.1]
      exact hold

theorem Join.Sound.request (h : s.Sound g id) {t : FastTaskInfo}
    (hclient : t.cmd ≠ some .syncSet ∧ t.cmd ≠ some .syncDel)
    (hreadable : RecordsReadable ((g i).at s.group.now) t) {env : TaskEnv} {reply : Reply σ}
    (hdeal : dealCmd S ((g i).at s.group.now) env t (s.group.server i) t.cmd = some reply) :
    ({ s with group := s.group.setServer i reply.server } : Join ι σ).Sound g id := by
  obtain ⟨log, hlog, hall⟩ := acts_records (dealCmd_acts rfl hdeal)
  refine h.grow hlog fun w hw => ?_
  obtain ⟨-, a, ha, hlogs⟩ := hall w hw
  have htime : w.record.timestamp = s.group.now := by
    have hrecord : t.recordTime ((g i).at s.group.now) = s.group.now :=
      if_neg (not_or.mpr hclient)
    have hclock := h.clock
    simp only [LogWrite.record, ha.timestamp hlogs, hrecord]
    rw [toInt32_of_range (by omega) (by omega)]
    unfold toUInt32
    omega
  refine ⟨⟨ha.loggable hreadable hlogs, ha.owned hlogs, htime.le⟩, fun _ => ?_⟩
  rw [htime]
  exact h.elected.2

theorem Join.Sound.advance (h : s.Sound g id) (hij : i ≠ j) {w : LogWrite} {n : Nat}
    (hn : StartsAt (s.group.server i).binlog (s.group.offset (i, j) + w.record.readBytes) n)
    (hdelivered : ∀ w ∈ (s.group.server i).binlog.take n, w.opType.isSource = true →
      ∃ v ∈ (s.group.server j).binlog, v.opType.isSource = false ∧ v.record.Carries w.record) :
    ({ s with group := s.group.advance i j w.record } : Join ι σ).Sound g id := by
  refine ⟨h.listed, h.clock, h.elected, h.records, h.flushed, ?_, h.passed, h.source, h.covered⟩
  intro k l hkl
  have hoffset : (s.group.advance i j w.record).offset =
      Function.update s.group.offset (i, j) (s.group.offset (i, j) + w.record.readBytes) := rfl
  by_cases hkey : (k, l) = (i, j)
  · obtain ⟨rfl, rfl⟩ := Prod.mk.inj hkey
    refine ⟨n, ?_, hdelivered⟩
    rw [hoffset, Function.update_self]
    exact hn
  · obtain ⟨n', hn', hdelivered'⟩ := h.delivered k l hkl
    refine ⟨n', ?_, hdelivered'⟩
    rw [hoffset, Function.update_of_ne hkey]
    exact hn'

theorem Join.Sound.deliver (hgroups : ∀ i j, SameGroups (g i) (g j))
    (hflag : ∀ i, (g i).writeToBinlogFlag = true) (hplain : ∀ r, plain.needsOld r = false)
    (h : s.Sound g id) (hij : i ≠ j) {r : BinLogRecord} {len : Int}
    (hnext : s.group.next i j = .ok (r, len))
    (hlogged : r.opType.isSource = true →
      r.Logged S ((g j).at s.group.now) (s.group.server j).store)
    {behind clientIp : Bytes} {env : TaskEnv} {group : Group ι σ}
    (hsync : s.group.sync S g plain i j r behind clientIp env = some group) :
    ({ s with group := group } : Join ι σ).Sound g id := by
  obtain ⟨n, hn, hdelivered⟩ := h.delivered i j hij
  obtain ⟨w, rest, hdrop, rfl, htake, hn'⟩ :=
    hn.read (fun w hw => (h.records i w hw).loggable) hnext
  have hdated := h.records i w (List.mem_of_mem_drop (hdrop ▸ List.mem_cons_self))
  have howns : (g i).ownsGroup ((g i).groupOf w.record.keyHashCode) = true := by
    rw [show w.record.keyHashCode = toInt32 w.keyHashCode from rfl, groupOf_toInt32]
    exact hdated.owned
  rcases hsource : w.opType.isSource with _ | _
  · -- a record of another server is not sent on
    have hnone : fdhtSyncData ((g i).at s.group.now) plain w.record = none := by
      by_contra hsome
      obtain ⟨message, hsend⟩ := Option.ne_none_iff_exists'.mp hsome
      rcases (fdhtSyncData_some hsend).2.2 with hop | hold
      · exact absurd (hsource.symm.trans hop) (by decide)
      · exact absurd ((hplain _).symm.trans hold) (by decide)
    simp only [Group.sync, hnone] at hsync
    obtain rfl := Option.some.inj hsync
    refine h.advance hij hn' ?_
    rw [htake]
    intro v hv hop
    rcases List.mem_append.mp hv with hv | hv
    · exact hdelivered v hv hop
    · rw [List.mem_singleton.mp hv, hsource] at hop
      cases hop
  · obtain ⟨hlive, hsendable, hstored, hexpires⟩ := hlogged hsource
    rcases hsend : fdhtSyncData ((g i).at s.group.now) plain w.record with _ | message
    · rcases fdhtSyncData_none (g := (g i).at s.group.now) howns hsend with hdropped | hop
      · exact absurd (hlive.symm.trans hdropped) (by decide)
      · exact absurd (hop.1.symm.trans hsource) (by decide)
    obtain ⟨rfl, -, -⟩ := fdhtSyncData_some hsend
    obtain ⟨reply, hdeal, hstatus, hserver⟩ := dealCmd_message (S := S) (g := (g j).at s.group.now)
      hsendable ((hgroups i j).groupOf _ ▸ (hgroups i j).ownsGroup _ ▸ howns) behind clientIp env
      (s.group.server j)
    have hresult : w.record.syncResult reply.status = 0 := by
      rw [hstatus, hstored]
      unfold BinLogRecord.syncResult
      split <;> rfl
    simp only [Group.sync, hsend, hdeal, Option.map_some, if_pos hresult] at hsync
    obtain rfl := Option.some.inj hsync
    have hbinlog : reply.server.binlog =
        (s.group.server j).binlog ++ [w.record.replicaWrite ((g j).at s.group.now)] := by
      rw [hserver, logged_binlog, if_pos ⟨hstored, hflag j⟩]
    have hcarries := replicaWrite_carries hsendable ((g j).at s.group.now)
    have hgrown := h.grow (i := j) hbinlog (by
      intro v hv
      rw [List.mem_singleton.mp hv]
      refine ⟨⟨replicaWrite_loggable hdated.loggable hsendable hexpires, ?_, ?_⟩, fun hop => ?_⟩
      · have hhash : (w.record.replicaWrite ((g j).at s.group.now)).keyHashCode =
            toInt32 (toInt32 w.keyHashCode) := rfl
        rw [hhash, groupOf_toInt32, groupOf_toInt32, (hgroups i j).groupOf, (hgroups i j).ownsGroup]
        exact hdated.owned
      · rw [hcarries.timestamp]
        exact hdated.le_now
      · rw [replicaWrite_not_source] at hop
        cases hop)
    have hself : (s.group.setServer j reply.server).server j = reply.server :=
      Function.update_self ..
    have hsame : (s.group.setServer j reply.server).server i = s.group.server i :=
      Function.update_of_ne hij ..
    refine hgrown.advance hij (n := n + 1) (by rw [hsame]; exact hn') ?_
    rw [hsame, hself, hbinlog, htake]
    intro v hv hop
    rcases List.mem_append.mp hv with hv | hv
    · obtain ⟨v', hv', hreplica⟩ := hdelivered v hv hop
      exact ⟨v', List.mem_append_left _ hv', hreplica⟩
    · rw [List.mem_singleton.mp hv]
      exact ⟨_, List.mem_append_right _ (List.mem_singleton.mpr rfl), replicaWrite_not_source _ _,
        hcarries⟩

omit [DecidableEq ι] in
theorem Join.Sound.outcome (hid : Function.Injective id) (h : s.Sound g id)
    (hnone : s.reader i = none) {t : FastTaskInfo} (hsender : t.sender = id i)
    (hcount : 0 < t.updateCount ∨ s.sync.syncUntilTimestamp = 0) {sync : SyncState}
    (hlisted : sync.Listed) (hout : ReqOutcome s.group.now t s.sync sync) :
    ({ s with sync := sync } : Join ι σ).Sound g id := by
  have hclock := h.clock
  -- before the end of the old data nothing is left out
  have hsent (hdone : s.sync.syncOldDone = false) (k : ι) (w : LogWrite) : ¬s.Skipped id k w :=
    fun hskipped => absurd (hdone.symm.trans hskipped.1) (by decide)
  cases hout with
  | kept hdone hsource huntil =>
    refine ⟨hlisted, h.clock, ?_, h.records, h.flushed, h.delivered, ?_, ?_, ?_⟩ <;> dsimp only
    · rw [huntil]
      exact h.elected
    · intro k reader hreader
      unfold Join.Skipped
      rw [hdone, huntil, hsource]
      exact h.passed k reader hreader
    · rw [hsource, huntil]
      exact h.source
    · unfold Join.Skipped
      rw [hdone, huntil, hsource]
      exact h.covered
  | elected hdone hdone' hsource huntil =>
    refine ⟨hlisted, h.clock, ?_, h.records, h.flushed, h.delivered, ?_, ?_, ?_⟩ <;> dsimp only
    · rw [huntil]
      exact ⟨hclock.1.le, le_rfl⟩
    · intro k reader hreader
      obtain ⟨n, hn, hown, hold⟩ := h.passed k reader hreader
      exact ⟨n, hn, fun w hw hop => .inl ((hown w hw hop).resolve_right (hsent hdone k w)), hold⟩
    · -- the new source has no thread yet
      intro k reader hreader hk
      rw [hid (hk.symm.trans (hsource.trans hsender)), hnone] at hreader
      cases hreader
    · intro k w hw hop hskipped
      exact absurd (hdone'.symm.trans hskipped.1) (by decide)
  | closed hdone hle hsource huntil =>
    refine ⟨hlisted, h.clock, ?_, h.records, h.flushed, h.delivered, ?_, ?_, ?_⟩ <;> dsimp only
    · rw [huntil]
      exact h.elected
    · intro k reader hreader
      obtain ⟨n, hn, hown, hold⟩ := h.passed k reader hreader
      exact ⟨n, hn, fun w hw hop => .inl ((hown w hw hop).resolve_right (hsent hdone k w)), hold⟩
    · rw [hsource, huntil]
      exact h.source
    · -- nothing is older than an election at time 0
      intro k w _ _ hskipped
      have hlt : w.record.timestamp < sync.syncUntilTimestamp := hskipped.2.2
      have hpos : 0 ≤ w.record.timestamp := by
        show (0 : Int) ≤ toUInt32 (toInt32 w.timestamp)
        omega
      omega

theorem Join.Sound.setReader (h : s.Sound g id) (reader : JoinReader) {n : Nat}
    (hn : StartsAt (s.fileLog i) reader.offset n)
    (hown : ∀ w ∈ (s.fileLog i).take n, w.opType.isSource = true →
      s.HasSent w.record ∨ s.Skipped id i w)
    (hold : reader.flags.needSyncOld = true → reader.flags.syncOldDone = false →
      ∀ w ∈ (s.fileLog i).take n,
        w.record.timestamp ≤ reader.flags.untilTimestamp → s.HasSent w.record)
    (hsource : s.sync.source = id i → reader.flags.untilTimestamp = s.sync.syncUntilTimestamp) :
    (s.setReader i reader).Sound g id := by
  refine ⟨h.listed, h.clock, h.elected, h.records, h.flushed, h.delivered, ?_, ?_, h.covered⟩
  · intro k reader' hreader
    by_cases hk : k = i
    · subst hk
      obtain rfl : reader = reader' :=
        Option.some.inj ((s.setReader_self k reader).symm.trans hreader)
      exact ⟨n, hn, hown, hold⟩
    · exact h.passed k reader' ((s.setReader_of_ne hk reader).symm.trans hreader)
  · intro k reader' hreader
    by_cases hk : k = i
    · subst hk
      obtain rfl : reader = reader' :=
        Option.some.inj ((s.setReader_self k reader).symm.trans hreader)
      exact hsource
    · exact h.source k reader' ((s.setReader_of_ne hk reader).symm.trans hreader)

omit [DecidableEq ι] in
theorem Join.Sound.fileLog_loggable (h : s.Sound g id) : ∀ w ∈ s.fileLog i, w.Loggable :=
  fun w hw => (h.records i w (List.mem_of_mem_take hw)).loggable

/-- The answer to a SYNC_REQ starts a thread that skips nothing, or what has been
covered. -/
theorem Join.Sound.answer (h : s.Sound g id) {t out : FastTaskInfo} {result : Int}
    (hout : result = 0 → out = packSyncReqBody t s.sync ∧
      (s.sync.source = id i ∨ s.sync.syncOldDone = true)) :
    (s.answer i (id i) result out).Sound g id := by
  unfold Join.answer
  split
  · rename_i hok
    obtain ⟨rfl, hwho⟩ := hout hok
    have hclock := h.clock
    have helected := h.elected
    rw [readerFlags_pack h.listed.packable helected.1 (by omega)]
    unfold fdhtReaderInit
    split
    · rename_i reader hreader
      split at hreader
      · rename_i hskip
        have hother : s.sync.source ≠ id i := by simpa using hskip.1
        obtain ⟨offset, hoffset, rfl⟩ : ∃ offset, fdhtBinlogReaderSkip
            (binlogBytes (s.fileLog i)) s.sync.syncUntilTimestamp = .ok offset ∧
            reader = ⟨⟨s.sync.source = id i, s.sync.syncOldDone, s.sync.syncUntilTimestamp⟩,
              offset⟩ := by
          rcases hread : fdhtBinlogReaderSkip (binlogBytes (s.fileLog i))
            s.sync.syncUntilTimestamp with e | offset
          · rw [hread] at hreader
            cases hreader
          · rw [hread] at hreader
            exact ⟨offset, rfl, (Except.ok.inj hreader).symm⟩
        obtain ⟨n, hn, hpassed⟩ := readerSkipLoop_spec
          h.fileLog_loggable (.zero _) (by simp) hoffset
        refine h.setReader _ hn
          (fun w hw _ => .inr ⟨hwho.resolve_left hother, hother, hpassed w hw⟩) ?_
          fun _ => rfl
        intro hneed
        exact absurd (of_decide_eq_true hneed) hother
      · obtain rfl := Except.ok.inj hreader
        exact h.setReader _ (.zero _) (by simp) (by simp) fun _ => rfl
    · exact h
  · exact h

omit [DecidableEq ι] in
theorem Join.Sound.sent (h : s.Sound g id) (r : BinLogRecord) :
    ({ s with sent := s.sent ++ [r] } : Join ι σ).Sound g id := by
  have hmono : ∀ r', s.HasSent r' → ({ s with sent := s.sent ++ [r] } : Join ι σ).HasSent r' := by
    rintro r' ⟨v, hv, hcarries⟩
    exact ⟨v, List.mem_append_left _ hv, hcarries⟩
  refine ⟨h.listed, h.clock, h.elected, h.records, h.flushed, h.delivered, ?_, h.source, ?_⟩
  · intro k reader hreader
    obtain ⟨n, hn, hown, hold⟩ := h.passed k reader hreader
    exact ⟨n, hn, fun w hw hop => (hown w hw hop).imp_left (hmono _),
      fun hneed hdone w hw hle => hmono _ (hold hneed hdone w hw hle)⟩
  · exact fun k w hw hop hskipped => hmono _ (h.covered k w hw hop hskipped)

theorem Join.Sound.send (h : s.Sound g id) {reader : JoinReader}
    (hreader : s.reader i = some reader) {r : BinLogRecord} {len : Int}
    (hnext : s.next i reader = .ok (r, len)) (hlive : r.dropped s.group.now = false)
    (status : Int) : (s.sendRecord g i reader r status).Sound g id := by
  obtain ⟨n, hn, hown, hold⟩ := h.passed i reader hreader
  obtain ⟨w, rest, hdrop, rfl, htake, hn'⟩ := hn.read h.fileLog_loggable hnext
  have hdated := h.records i w
    (List.mem_of_mem_take (List.mem_of_mem_drop (hdrop ▸ List.mem_cons_self)))
  have howns : ((g i).at s.group.now).ownsGroup
      (((g i).at s.group.now).groupOf w.record.keyHashCode) = true := by
    rw [show w.record.keyHashCode = toInt32 w.keyHashCode from rfl, groupOf_toInt32]
    exact hdated.owned
  have hlast : ∀ v ∈ (s.fileLog i).take (n + 1), v ∈ (s.fileLog i).take n ∨ v = w := by
    intro v hv
    rw [htake] at hv
    exact (List.mem_append.mp hv).imp_right List.mem_singleton.mp
  unfold Join.sendRecord
  split
  · rename_i hnone
    have hskipped : w.opType.isSource = false ∧ reader.flags.needsOld w.record = false := by
      rcases fdhtSyncData_none howns hnone with hdropped | hop
      · exact absurd (hlive.symm.trans hdropped) (by decide)
      · exact hop
    refine h.setReader _ hn' ?_ ?_ (h.source i reader hreader)
    · intro v hv hop
      rcases hlast v hv with hv | hv
      · exact hown v hv hop
      · rw [hv, hskipped.1] at hop
        cases hop
    · intro hneed hdone v hv hle
      rcases hlast v hv with hv | hv
      · exact hold hneed hdone v hv hle
      · rw [hv] at hle
        have hneeds : reader.flags.needsOld w.record = true := by
          dsimp only at hneed hdone hle
          simp [BinLogReader.needsOld, hneed, hdone, hle]
        exact absurd (hskipped.2.symm.trans hneeds) (by decide)
  · split
    · have hs := h.sent w.record
      have hself : ({ s with sent := s.sent ++ [w.record] } : Join ι σ).HasSent w.record :=
        ⟨_, List.mem_append_right _ (List.mem_singleton.mpr rfl), .refl _⟩
      obtain ⟨n₁, hn₁, hown₁, hold₁⟩ := hs.passed i reader hreader
      obtain rfl : n₁ = n := le_antisymm (hn₁.le_of_le hn le_rfl) (hn.le_of_le hn₁ le_rfl)
      refine hs.setReader { reader with offset := reader.offset + w.record.readBytes }
        hn' ?_ ?_ (h.source i reader hreader)
      · intro v hv hop
        rcases hlast v hv with hv | hv
        · exact hown₁ v hv hop
        · rw [hv]
          exact .inl hself
      · intro hneed hdone v hv hle
        rcases hlast v hv with hv | hv
        · exact hold₁ hneed hdone v hv hle
        · rw [hv]
          exact hself
    · exact h

omit [DecidableEq ι] in
/-- The source is at the end of its binlog file, which has all that is older than the
election of the other servers. -/
theorem Join.Sound.complete (h : s.Sound g id) {reader : JoinReader}
    (hreader : s.reader i = some reader) {result : Int}
    (hnext : s.next i reader = .error result) (hneed : reader.flags.needSyncOld = true)
    (hwait : reader.flags.syncOldDone = false) (hsource : s.sync.source = id i)
    (hpending : ∀ j, j ≠ i → ∀ w ∈ s.group.pending j i,
      s.sync.syncUntilTimestamp ≤ w.record.timestamp)
    (hcache : ∀ w ∈ s.cacheLog i, w.opType.isSource = false →
      s.sync.syncUntilTimestamp ≤ w.record.timestamp) {k : ι} {w : LogWrite}
    (hw : w ∈ (s.group.server k).binlog) (hop : w.opType.isSource = true)
    (hother : s.sync.source ≠ id k) (hlt : w.record.timestamp < s.sync.syncUntilTimestamp) :
    s.HasSent w.record := by
  obtain ⟨n, hn, -, hold⟩ := h.passed i reader hreader
  have hlast : n = (s.fileLog i).length := hn.unread h.fileLog_loggable hnext
  rw [hlast, List.take_length] at hold
  have hk : k ≠ i := fun hk => hother (hsource.trans (congrArg id hk.symm))
  obtain ⟨m, hm, hdelivered⟩ := h.delivered k i hk
  rw [← List.take_append_drop m (s.group.server k).binlog] at hw
  rcases List.mem_append.mp hw with hw | hw
  · obtain ⟨v, hv, hreplica, hcarries⟩ := hdelivered w hw hop
    have hv' : v ∈ s.fileLog i := by
      rw [← List.take_append_drop (s.flushed i) (s.group.server i).binlog] at hv
      rcases List.mem_append.mp hv with hv | hv
      · exact hv
      · have hle := hcache v hv hreplica
        rw [hcarries.timestamp] at hle
        omega
    have hle : v.record.timestamp ≤ reader.flags.untilTimestamp := by
      rw [hcarries.timestamp, h.source i reader hreader hsource]
      exact hlt.le
    obtain ⟨r, hr, hcarries'⟩ := hold hneed hwait v hv' hle
    exact ⟨r, hr, hcarries'.trans hcarries⟩
  · have hmem : w ∈ s.group.pending k i := by
      rw [Group.pending, hm.recordsFrom]
      exact List.mem_filter.mpr ⟨hw, hop⟩
    have hle := hpending k hk w hmem
    omega

omit [DecidableEq ι] in
theorem Join.Sound.notify (h : s.Sound g id) {reader : JoinReader}
    (hreader : s.reader i = some reader) {result : Int}
    (hnext : s.next i reader = .error result) (hneed : reader.flags.needSyncOld = true)
    (hwait : reader.flags.syncOldDone = false)
    (hcovers : s.sync.syncOldDone = false →
      (∀ j, j ≠ i → ∀ w ∈ s.group.pending j i, s.sync.syncUntilTimestamp ≤ w.record.timestamp) ∧
      ∀ w ∈ s.cacheLog i, w.opType.isSource = false →
        s.sync.syncUntilTimestamp ≤ w.record.timestamp)
    {t : FastTaskInfo} (hsender : t.sender = id i) {sync : SyncState} (hlisted : sync.Listed)
    (hsource : sync.source = s.sync.source)
    (huntil : sync.syncUntilTimestamp = s.sync.syncUntilTimestamp)
    (hdone : sync.syncOldDone = s.sync.syncOldDone ∨
      s.sync.syncOldDone = false ∧ s.sync.source = t.sender) :
    ({ s with sync := sync } : Join ι σ).Sound g id := by
  have hcovered : ∀ k, ∀ w ∈ (s.group.server k).binlog, w.opType.isSource = true →
      sync.syncOldDone = true → s.sync.source ≠ id k →
      w.record.timestamp < s.sync.syncUntilTimestamp → s.HasSent w.record := by
    intro k w hw hop hdone' hother hlt
    rcases hdone with hsame | ⟨hold, hwho⟩
    · exact h.covered k w hw hop ⟨hsame.symm.trans hdone', hother, hlt⟩
    · obtain ⟨hpending, hcache⟩ := hcovers hold
      exact h.complete hreader hnext hneed hwait (hwho.trans hsender) hpending hcache hw hop hother
        hlt
  refine ⟨hlisted, h.clock, ?_, h.records, h.flushed, h.delivered, ?_, ?_, ?_⟩ <;> dsimp only
  · rw [huntil]
    exact h.elected
  · intro k reader' hreader'
    obtain ⟨n, hn, hown, hold⟩ := h.passed k reader' hreader'
    refine ⟨n, hn, fun w hw hop => .inl ?_, hold⟩
    rcases hown w hw hop with hsent | hskipped
    · exact hsent
    · exact h.covered k w (List.mem_of_mem_take (List.mem_of_mem_take hw)) hop hskipped
  · rw [hsource, huntil]
    exact h.source
  · rintro k w hw hop ⟨hdone', hother, hlt⟩
    dsimp only at hdone' hother hlt
    rw [hsource] at hother
    rw [huntil] at hlt
    exact hcovered k w hw hop hdone' hother hlt

theorem Join.Sound.step (hgroups : ∀ i j, SameGroups (g i) (g j))
    (hflag : ∀ i, (g i).writeToBinlogFlag = true) (hid : Function.Injective id)
    (hplain : ∀ r, plain.needsOld r = false) (h : s.Sound g id) {e : JoinEvent ι}
    (hevent : e.Plain) (hok : s.Covers S g e)
    (hstep : s.step S g gNew id plain e = some s') : s'.Sound g id := by
  cases e with
  | group e =>
    simp only [Join.step] at hstep
    split at hstep
    swap
    · cases hstep
    obtain ⟨group, hgroup, rfl⟩ := Option.map_eq_some_iff.mp hstep
    cases e with
    | tick seconds =>
      obtain rfl := Option.some.inj hgroup
      exact h.tick hok
    | request i t env =>
      obtain ⟨reply, hdeal, rfl⟩ := Option.map_eq_some_iff.mp hgroup
      exact h.request hevent hok hdeal
    | deliver i j behind clientIp env =>
      by_cases hij : i = j
      · simp only [Group.step, if_pos hij] at hgroup
        cases hgroup
      simp only [Group.step, if_neg hij] at hgroup
      simp only [Join.Covers] at hok
      rcases hnext : s.group.next i j with _ | ⟨r, len⟩ <;> rw [hnext] at hgroup hok
      · cases hgroup
      · exact h.deliver hgroups hflag hplain hij hnext hok hgroup
    | rewind i j offset => exact hevent.elim
  | flush i n =>
    simp only [Join.step] at hstep
    split at hstep
    · rename_i hn
      obtain rfl := Option.some.inj hstep
      exact h.flush hn.1 hn.2
    · cases hstep
  | req i iniResult t =>
    simp only [Join.step] at hstep
    split at hstep
    · rename_i hsender
      obtain rfl := Option.some.inj hstep
      obtain ⟨hlisted, hout, hanswer⟩ := dealCmdSyncReq_outcome (gNew.at s.group.now)
        iniResult t h.listed
      refine (h.outcome hid hsender.2 hsender.1 hok hlisted hout).answer (t := t) fun hresult => ?_
      rw [← hsender.1]
      exact hanswer hresult
    · cases hstep
  | send i status =>
    simp only [Join.step] at hstep
    simp only [Join.Covers] at hok
    rcases hreader : s.reader i with _ | reader <;> rw [hreader] at hstep hok
    · cases hstep
    dsimp only at hstep hok
    rcases hnext : s.next i reader with _ | ⟨r, len⟩ <;> rw [hnext] at hstep hok
    · cases hstep
    · obtain rfl := Option.some.inj hstep
      exact h.send hreader hnext hok status
  | notify i iniResult t =>
    simp only [Join.step] at hstep
    rcases hreader : s.reader i with _ | reader <;> rw [hreader] at hstep
    · cases hstep
    dsimp only at hstep
    rcases hnext : s.next i reader with result | r <;> rw [hnext] at hstep
    · dsimp only at hstep
      split at hstep
      · rename_i hsource
        obtain ⟨-, hsender, hneed, hwait⟩ := hsource
        obtain rfl := Option.some.inj hstep
        obtain ⟨hlisted, hsource, huntil, hdone⟩ := dealCmdSyncDone_outcome
          (gNew.at s.group.now) iniResult t h.listed
        have hs := h.notify hreader hnext hneed hwait hok hsender hlisted hsource huntil hdone
        split
        · obtain ⟨n, hn, hown, -⟩ := hs.passed i reader hreader
          refine hs.setReader _ hn hown ?_ (hs.source i reader hreader)
          intro _ hdone
          cases hdone
        · exact hs
      · cases hstep
    · cases hstep

end Sound

/-- The group before the first request, and a new server that knows nobody. -/
structure Join.Starts (s : Join ι σ) : Prop where
  clock : 0 < s.group.now ∧ s.group.now < 2 ^ 31
  binlog : ∀ i, (s.group.server i).binlog = []
  flushed : ∀ i, s.flushed i = 0
  offset : ∀ i j, s.group.offset (i, j) = 0
  reader : ∀ i, s.reader i = none
  distinct : (s.sync.groupServers.map FDHTGroupServer.id).Nodup
  table : ∀ id ∈ s.sync.groupServers.map FDHTGroupServer.id,
    id.1.length < ipAddressSize ∧ -2 ^ 31 ≤ id.2 ∧ id.2 < 2 ^ 31
  source : s.sync.source = ([], 0)
  untilTimestamp : s.sync.syncUntilTimestamp = 0

theorem Join.Starts.sound {g : ι → Globals} {id : ι → Bytes × Int} {s : Join ι σ} (h : s.Starts) :
    s.Sound g id := by
  obtain ⟨hip, hport⟩ := Prod.mk.inj h.source
  have hclock := h.clock
  refine ⟨⟨h.distinct, h.table, by rw [hip]; rfl, by rw [hip]; decide, by omega, by omega⟩, h.clock,
    by rw [h.untilTimestamp]; omega, ?_, fun i => by rw [h.flushed]; exact Nat.zero_le _,
    ?_, ?_, ?_, ?_⟩
  · intro i w hw
    rw [h.binlog] at hw
    cases hw
  · intro i j _
    exact ⟨0, by rw [h.offset]; exact .zero _, by simp⟩
  · intro i reader hreader
    rw [h.reader] at hreader
    cases hreader
  · intro i reader hreader
    rw [h.reader] at hreader
    cases hreader
  · intro i w hw
    rw [h.binlog] at hw
    cases hw

/-- **A server that joins misses no update**, in every run in which the source has
in its file all that is older than its election before it reports that it is done. -/
theorem joining_server_misses_nothing [DecidableEq ι] {S : StoreFuncs σ} {g : ι → Globals}
    {gNew : Globals} {id : ι → Bytes × Int} {plain : BinLogReader}
    (hgroups : ∀ i j, SameGroups (g i) (g j)) (hflag : ∀ i, (g i).writeToBinlogFlag = true)
    (hid : Function.Injective id) (hplain : ∀ r, plain.needsOld r = false) {s₀ s : Join ι σ}
    (hstart : s₀.Starts)
    (hrun : Runs (Join.step S g gNew id plain) (fun s e => e.Plain ∧ s.Covers S g e) s₀ s)
    (hend : ∀ i, ∃ reader, s.reader i = some reader ∧
      reader.offset = (binlogBytes (s.fileLog i)).length) (i : ι) {w : LogWrite}
    (hw : w ∈ s.fileLog i) (hop : w.opType.isSource = true) :
    s.HasSent w.record := by
  have h : s.Sound g id := hrun.invariant hstart.sound fun s e s' h hok hstep =>
    h.step hgroups hflag hid hplain hok.1 hok.2 hstep
  obtain ⟨reader, hreader, hoffset⟩ := hend i
  obtain ⟨n, hn, hown, -⟩ := h.passed i reader hreader
  rw [hn.at_end hoffset, List.take_length] at hown
  rcases hown w hw hop with hsent | hskipped
  · exact hsent
  · exact h.covered i w (List.mem_of_mem_take hw) hop hskipped

/-- The SYNC_NOTIFY of a member. -/
def syncNotify (ip : Bytes) : FastTaskInfo :=
  ⟨List.replicate sizeofHeader 0 ++ int2buff 1 ++ List.replicate 16 0, 23, ip⟩

/-- Two old servers without data, and a new one. -/
def threeServers : Join Bool Bdb where
  group := twoServers
  flushed := fun _ => 0
  sync := newServer.sync
  reader := fun _ => none
  sent := []

def memberId (i : Bool) : Bytes × Int := (if i then ipB else ipA, 1)

theorem threeServers_starts : threeServers.Starts :=
  ⟨by decide, fun _ => rfl, fun _ => rfl, fun _ _ => rfl, fun _ => rfl, by decide, by decide, rfl,
    rfl⟩

/-- The record of the second server is in the source's file before the source reports
that it is done; a later one is still in a cache. -/
theorem joining_server_misses_nothing_delivered :
    ∃ s, Runs (Join.step bdbFuncs (fun _ => oneGroup) oneGroup memberId plainReader)
        (fun s e => e.Plain ∧ s.Covers bdbFuncs (fun _ => oneGroup) e) threeServers s ∧
      s.sync.syncOldDone = true ∧ (s.fileLog true).length = 2 ∧ (s.cacheLog true).length = 1 ∧
      ∀ i, ∀ w ∈ s.fileLog i, w.opType.isSource = true → s.HasSent w.record := by
  have hexec : (exec
      (Join.step bdbFuncs (fun _ => oneGroup) oneGroup memberId plainReader)
      (fun s e => e.Plain ∧ s.Covers bdbFuncs (fun _ => oneGroup) e)
      [.group (.request false setRequest quietEnv), .group (.request true setRequestY quietEnv),
        .group (.tick 1), .flush false 1, .req false 0 (syncReq ipA true 1), .send false 0,
        .flush true 1, .group (.deliver true false [] [] quietEnv),
        .group (.deliver false true [] [] quietEnv), .flush false 2, .flush true 2,
        .send false 0, .notify false 0 (syncNotify ipA), .req true 0 (syncReq ipB true 1),
        .group (.request true setRequestY quietEnv)] threeServers).map (fun s => decide
          (s.sync.syncOldDone = true ∧ (s.fileLog true).length = 2 ∧
            (s.cacheLog true).length = 1 ∧
            ∀ i, (s.reader i).map JoinReader.offset =
              some (binlogBytes (s.fileLog i)).length)) = some true := by
    decide +kernel
  obtain ⟨s, hrun, heq⟩ := Option.map_eq_some_iff.mp hexec
  obtain ⟨hdone, hfile, hcache, hend⟩ := of_decide_eq_true heq
  refine ⟨s, Runs.of_exec hrun, hdone, hfile, hcache, fun i w hw hop => ?_⟩
  exact joining_server_misses_nothing (g := fun _ => oneGroup) (fun _ _ => ⟨rfl, rfl⟩)
    (fun _ => rfl) (by decide) (fun _ => rfl) threeServers_starts (Runs.of_exec hrun)
    (fun i => Option.map_eq_some_iff.mp (hend i)) i hw hop

/-- The record of the second server is still on its way to the source when the
source reports that it is done. The second server skips it as older than the
election, and the source does not send it on, since it has reported. -/
theorem joining_server_misses_update :
    ∃ s, Runs (Join.step bdbFuncs (fun _ => oneGroup) oneGroup memberId plainReader)
        (fun _ e => e.Plain) threeServers s ∧ s.sync.syncOldDone = true ∧
      (∀ i, s.fileLog i = (s.group.server i).binlog) ∧
      (∀ i, ∃ reader, s.reader i = some reader ∧
        reader.offset = (binlogBytes (s.fileLog i)).length) ∧
      (∀ i j, i ≠ j → s.group.offset (i, j) = (binlogBytes (s.fileLog i)).length) ∧
      ∃ w ∈ s.fileLog true, w.opType.isSource = true ∧ ¬ s.HasSent w.record := by
  have hexec : (exec
      (Join.step bdbFuncs (fun _ => oneGroup) oneGroup memberId plainReader)
      (fun _ e => e.Plain)
      [.group (.request false setRequest quietEnv), .group (.request true setRequestY quietEnv),
        .group (.tick 1), .flush false 1, .flush true 1, .req false 0 (syncReq ipA true 1),
        .send false 0, .notify false 0 (syncNotify ipA), .req true 0 (syncReq ipB true 1),
        .group (.deliver true false [] [] quietEnv), .group (.deliver false true [] [] quietEnv),
        .flush false 2, .flush true 2,
        .group (.deliver true false [] [] quietEnv), .group (.deliver false true [] [] quietEnv),
        .send false 0, .send true 0] threeServers).map (fun s => decide
          (s.sync.syncOldDone = true ∧ (∀ i, s.fileLog i = (s.group.server i).binlog) ∧
            (∀ i, (s.reader i).map JoinReader.offset =
              some (binlogBytes (s.fileLog i)).length) ∧
            (∀ i j, i ≠ j → s.group.offset (i, j) = (binlogBytes (s.fileLog i)).length) ∧
            ∃ w ∈ s.fileLog true, w.opType.isSource = true ∧
              ¬ ∃ r' ∈ s.sent, r'.Carries w.record)) = some true := by
    decide +kernel
  obtain ⟨s, hrun, heq⟩ := Option.map_eq_some_iff.mp hexec
  obtain ⟨hdone, hfiles, hreaders, hold, hmissed⟩ := of_decide_eq_true heq
  exact ⟨s, Runs.of_exec hrun, hdone, hfiles, fun i => Option.map_eq_some_iff.mp (hreaders i), hold,
    hmissed⟩

end FastDht
