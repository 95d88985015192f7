import FastDht.Server.QuietRequests
import FastDht.Server.SyncSoundness

/-! # The servers of a group

Every server handles the requests of its clients and has, for each other server
of the group, a thread that reads its binlog and sends the records: the loop of
fdht_sync_thread_entrance in server/sync.c. A record that could not be sent is
read again, and a thread that is started again goes back to a place where it has
been. The clocks of the servers agree. -/
namespace FastDht
open Lib

structure Group (ι σ : Type) where
  server : ι → Server σ
  /-- Where in the first server's binlog the thread is that sends to the second. -/
  offset : ι × ι → Nat
  /-- Where it has been. -/
  marks : ι × ι → List Nat
  now : Int

inductive GroupEvent (ι : Type)
  | tick (seconds : Nat)
  | request (i : ι) (t : FastTaskInfo) (env : TaskEnv)
  /-- The next record of `i` is handled for `j`; `behind` is what is left in the
  receiver's buffer. -/
  | deliver (i j : ι) (behind clientIp : Bytes) (env : TaskEnv)
  | rewind (i j : ι) (offset : Nat)

/-- The result of `fdht_sync_set` or `fdht_sync_del` for the receiver's status. -/
def BinLogRecord.syncResult (r : BinLogRecord) (status : Int) : Int :=
  if r.opType.isSet = false ∧ status = ENOENT then 0 else status

namespace Group

variable {ι σ : Type} [DecidableEq ι]

def next (s : Group ι σ) (i j : ι) : Except Int (BinLogRecord × Int) :=
  fdhtBinlogRead ((binlogBytes (s.server i).binlog).drop (s.offset (i, j)))

def setServer (s : Group ι σ) (i : ι) (server : Server σ) : Group ι σ :=
  { s with server := Function.update s.server i server }

theorem setServer_self (s : Group ι σ) (i : ι) : s.setServer i (s.server i) = s := by
  unfold setServer
  rw [Function.update_eq_self]

def advance (s : Group ι σ) (i j : ι) (r : BinLogRecord) : Group ι σ :=
  { s with
    offset := Function.update s.offset (i, j) (s.offset (i, j) + r.readBytes)
    marks := Function.update s.marks (i, j) (s.offset (i, j) :: s.marks (i, j)) }

/-- `fdht_sync_data` for a record that has been read, and what the receiver does. -/
def sync (S : StoreFuncs σ) (g : ι → Globals) (reader : BinLogReader) (s : Group ι σ) (i j : ι)
    (r : BinLogRecord) (behind clientIp : Bytes) (env : TaskEnv) : Option (Group ι σ) :=
  match fdhtSyncData ((g i).at s.now) reader r with
  | none => some (s.advance i j r)
  | some message =>
    let t := receivedTask message behind clientIp
    (dealCmd S ((g j).at s.now) env t (s.server j) t.cmd).map fun reply =>
      if r.syncResult reply.status = 0 then (s.setServer j reply.server).advance i j r
      else s.setServer j reply.server

def step (S : StoreFuncs σ) (g : ι → Globals) (reader : BinLogReader) (s : Group ι σ) :
    GroupEvent ι → Option (Group ι σ)
  | .tick seconds => some { s with now := s.now + seconds }
  | .request i t env => (dealCmd S ((g i).at s.now) env t (s.server i) t.cmd).map fun reply =>
      s.setServer i reply.server
  | .deliver i j behind clientIp env =>
    if i = j then none
    else match s.next i j with
      | .error _ => none
      | .ok (r, _) => s.sync S g reader i j r behind clientIp env
  | .rewind i j offset =>
    if offset ∈ s.marks (i, j) ∧ offset ≤ s.offset (i, j) then
      some { s with offset := Function.update s.offset (i, j) offset }
    else none

end Group

/-! ## Sending a record -/

section Send

variable {g : Globals} {reader : BinLogReader} {r : BinLogRecord}

/-- `fdht_sync_data` drops a record whose expiry has passed. -/
def BinLogRecord.dropped (r : BinLogRecord) (now : Int) : Bool :=
  r.expires ≠ fdhtExpiresNever && r.expires < now

def OpType.isSource (op : OpType) : Bool := op = .sourceSet || op = .sourceDel

theorem fdhtSyncData_some {message : Bytes} (h : fdhtSyncData g reader r = some message) :
    message = r.message ∧ r.dropped g.currentTime = false ∧
      (r.opType.isSource = true ∨ reader.needsOld r = true) := by
  unfold fdhtSyncData at h
  split at h
  · cases h
  rename_i hexpired
  split at h
  · cases h
  have hdropped : r.dropped g.currentTime = false := by
    simpa [BinLogRecord.dropped] using hexpired
  have hold : ∀ m : Bytes, (if reader.needsOld r then some m else none) = some message →
      message = m ∧ reader.needsOld r = true := by
    intro m hm
    split at hm
    · rename_i hneed
      exact ⟨(Option.some.inj hm).symm, hneed⟩
    · cases hm
  unfold BinLogRecord.message
  split at h <;> rename_i hop <;> rw [hop]
  · exact ⟨(Option.some.inj h).symm, hdropped, .inl rfl⟩
  · exact ⟨(Option.some.inj h).symm, hdropped, .inl rfl⟩
  · exact ⟨(hold _ h).1, hdropped, .inr (hold _ h).2⟩
  · exact ⟨(hold _ h).1, hdropped, .inr (hold _ h).2⟩

theorem fdhtSyncData_none (howns : g.ownsGroup (g.groupOf r.keyHashCode) = true)
    (h : fdhtSyncData g reader r = none) : r.dropped g.currentTime = true ∨
      r.opType.isSource = false ∧ reader.needsOld r = false := by
  unfold fdhtSyncData at h
  split at h
  · rename_i hexpired
    exact .inl (by simpa [BinLogRecord.dropped] using hexpired)
  rw [if_neg (by rw [howns]; decide)] at h
  have hold : ∀ m : Bytes, (if reader.needsOld r then some m else none) = none →
      reader.needsOld r = false := by
    intro m hm
    split at hm
    · cases hm
    · rename_i hneed
      exact Bool.eq_false_iff.mpr hneed
  split at h <;> rename_i hop <;> rw [hop]
  · cases h
  · cases h
  · exact .inr ⟨rfl, hold _ h⟩
  · exact .inr ⟨rfl, hold _ h⟩

end Send

/-! ## Receiving a record -/

section Receive

variable {ι σ κ : Type} [DecidableEq ι] [DecidableEq κ] {M : MapStore σ κ} {g : ι → Globals}
  {reader : BinLogReader} {s s' : Group ι σ} {i j : ι} {r : BinLogRecord}

/-- The receiver's record can be read if the sender's could, unless the moved expiry
is too far below zero. -/
theorem replicaWrite_loggable {g : Globals} {w : LogWrite} (hw : w.Loggable)
    (hs : w.record.Sendable) (hexpires : -10 ^ 9 <
      toInt32 (g.newExpires (toInt32 w.record.timestamp) (toInt32 w.record.expires))) :
    (w.record.replicaWrite g).Loggable := by
  have hlength := hs.fits
  have htime : toInt32 (w.record.replicaWrite g).timestamp = toInt32 w.timestamp := by
    simp only [BinLogRecord.replicaWrite, LogWrite.record, toInt32_toUInt32, toInt32_toInt32]
  have hhash : toInt32 (w.record.replicaWrite g).keyHashCode = toInt32 w.keyHashCode := by
    simp only [BinLogRecord.replicaWrite, LogWrite.record, toInt32_toInt32]
  refine ⟨⟨htime ▸ hw.timestamp, hhash ▸ hw.keyHashCode, ?_⟩, htime ▸ hw.timestamp_ne, hw.key_ne,
    ?_⟩
  · unfold BinLogRecord.replicaWrite
    dsimp only
    split
    · exact hexpires
    · decide
  · unfold LogWrite.len BinLogRecord.replicaWrite
    dsimp only
    split
    · rw [toInt32_of_range (by omega) (by omega)]
      omega
    · decide

theorem Group.sync_sent {message : Bytes}
    (hsend : fdhtSyncData ((g i).at s.now) reader r = some message) (hs : r.Sendable)
    (howns : (g j).ownsGroup ((g j).groupOf r.keyHashCode) = true)
    (hroom : M.room (4 + r.value.length)) (hq : M.Quiet (s.server j).store)
    {behind clientIp : Bytes} {env : TaskEnv}
    (h : s.sync M.toStoreFuncs g reader i j r behind clientIp env = some s') :
    ∃ server, s' = (s.setServer j server).advance i j r ∧ M.Quiet server.store ∧
      M.lookup server.store = Function.update (M.lookup (s.server j).store) (M.placeOf (g j) r)
        (r.replicaValue ((g j).at s.now)) ∧
      (server.binlog = (s.server j).binlog ∨
        server.binlog = (s.server j).binlog ++ [r.replicaWrite ((g j).at s.now)]) := by
  obtain ⟨rfl, -, -⟩ := fdhtSyncData_some hsend
  unfold Group.sync at h
  rw [hsend] at h
  obtain ⟨reply, hdeal, hstatus, hserver⟩ := dealCmd_message (S := M.toStoreFuncs)
    (g := (g j).at s.now) hs howns behind clientIp env (s.server j)
  obtain ⟨hq', hlookup, hcode⟩ := M.replicaCall (g := (g j).at s.now) (r := r) hq hroom
  dsimp only at h
  rw [hdeal, Option.map_some, if_pos] at h
  · refine ⟨reply.server, (Option.some.inj h).symm, ?_, ?_, ?_⟩
    · rw [hserver, Server.logged_store]
      exact hq'
    · rw [hserver, Server.logged_store]
      exact hlookup
    · rw [hserver, logged_binlog]
      split
      · exact .inr rfl
      · exact .inl rfl
  · unfold BinLogRecord.syncResult
    rw [hstatus]
    rcases hcode with h0 | ⟨hdel, hnone⟩
    · rw [h0]
      split <;> rfl
    · rw [if_pos ⟨hdel, hnone⟩]

end Receive

/-! ## Places in a log -/

/-- The offset is that of the start of the `n`-th record, or of the end. -/
def StartsAt (log : List LogWrite) (offset n : Nat) : Prop :=
  n ≤ log.length ∧ offset = (binlogBytes (log.take n)).length

section StartsAt

variable {log : List LogWrite} {offset n : Nat}

theorem StartsAt.zero (log : List LogWrite) : StartsAt log 0 0 := ⟨Nat.zero_le _, rfl⟩

theorem StartsAt.append (h : StartsAt log offset n) (more : List LogWrite) :
    StartsAt (log ++ more) offset n := by
  refine ⟨?_, by rw [List.take_append_of_le_length h.1]; exact h.2⟩
  rw [List.length_append]
  exact h.1.trans (Nat.le_add_right _ _)

theorem StartsAt.le_of_le {offset' n' : Nat} (h : StartsAt log offset n)
    (h' : StartsAt log offset' n') (hle : offset ≤ offset') : n ≤ n' := by
  by_contra hlt
  have hsplit : log.take n = log.take n' ++ (log.drop n').take (n - n') := by
    rw [← List.take_add]
    congr 1
    omega
  have hlen : 0 < ((log.drop n').take (n - n')).length := by
    have := h.1
    rw [List.length_take, List.length_drop]
    omega
  obtain ⟨w, rest, hrest⟩ := List.exists_cons_of_length_pos hlen
  have hoffset := h.2
  have hwrite : 0 < (fdhtBinlogWrite w).length := by simp [fdhtBinlogWrite]
  rw [hsplit, hrest] at hoffset
  unfold binlogBytes at hoffset
  rw [List.flatMap_append, List.length_append, List.flatMap_cons, List.length_append] at hoffset
  have hoffset' : offset' = ((log.take n').flatMap fdhtBinlogWrite).length := h'.2
  omega

theorem StartsAt.at_end (h : StartsAt log offset n) (hend : offset = (binlogBytes log).length) :
    n = log.length := by
  have hlast : StartsAt log (binlogBytes log).length log.length :=
    ⟨le_rfl, by rw [List.take_length]⟩
  exact le_antisymm h.1 (hlast.le_of_le h hend.ge)

theorem StartsAt.read (h : StartsAt log offset n) (hlog : ∀ w ∈ log, w.Loggable)
    {r : BinLogRecord} {len : Int}
    (hread : fdhtBinlogRead ((binlogBytes log).drop offset) = .ok (r, len)) :
    ∃ w rest, log.drop n = w :: rest ∧ r = w.record ∧ log.take (n + 1) = log.take n ++ [w] ∧
      StartsAt log (offset + r.readBytes) (n + 1) := by
  rw [h.2] at hread ⊢
  obtain ⟨w, rest, hdrop, hr, htake, hoffset⟩ := fdhtBinlogRead_at hlog hread
  have hlt := congrArg List.length hdrop
  rw [List.length_drop, List.length_cons] at hlt
  exact ⟨w, rest, hdrop, hr, htake, by omega, hoffset⟩

theorem StartsAt.drop (h : StartsAt log offset n) :
    (binlogBytes log).drop offset = binlogBytes (log.drop n) := by
  have hsplit : binlogBytes log = binlogBytes (log.take n) ++ binlogBytes (log.drop n) := by
    unfold binlogBytes
    rw [← List.flatMap_append, List.take_append_drop]
  rw [h.2, hsplit, List.drop_left]

theorem StartsAt.unread (h : StartsAt log offset n) (hlog : ∀ w ∈ log, w.Loggable)
    {result : Int} (hread : fdhtBinlogRead ((binlogBytes log).drop offset) = .error result) :
    n = log.length := by
  rw [h.drop] at hread
  rcases hdrop : log.drop n with _ | ⟨w, rest⟩
  · exact le_antisymm h.1 (List.drop_eq_nil_iff.mp hdrop)
  · have hw : w.Loggable := hlog w (List.mem_of_mem_drop (hdrop ▸ List.mem_cons_self))
    rw [hdrop, binlogBytes, List.flatMap_cons, fdhtBinlogRead_write hw] at hread
    cases hread

end StartsAt

/-! ## Records on their way -/

/-- The records of a binlog that start at an offset or after it. -/
def recordsFrom : Nat → List LogWrite → List LogWrite
  | 0, log => log
  | _ + 1, [] => []
  | n + 1, w :: log => recordsFrom (n + 1 - (fdhtBinlogWrite w).length) log

theorem StartsAt.recordsFrom {log : List LogWrite} {offset n : Nat} (h : StartsAt log offset n) :
    recordsFrom offset log = log.drop n := by
  induction log generalizing offset n with
  | nil =>
    obtain ⟨hn, hoffset⟩ := h
    have h0 : offset = 0 := by simpa [binlogBytes] using hoffset
    rw [h0, List.drop_nil]
    rfl
  | cons w log ih =>
    obtain ⟨hn, hoffset⟩ := h
    rcases n with _ | n
    · have h0 : offset = 0 := by simpa [binlogBytes] using hoffset
      rw [h0]
      rfl
    · have hpos : 0 < (fdhtBinlogWrite w).length := by simp [fdhtBinlogWrite]
      have hsplit : offset = (fdhtBinlogWrite w).length + (binlogBytes (log.take n)).length := by
        rw [hoffset, List.take_succ_cons]
        unfold binlogBytes
        rw [List.flatMap_cons, List.length_append]
      obtain ⟨m, hm⟩ := Nat.exists_eq_add_one_of_ne_zero (show offset ≠ 0 by omega)
      rw [hm, FastDht.recordsFrom, List.drop_succ_cons]
      exact ih ⟨Nat.le_of_succ_le_succ hn, by omega⟩

/-- What the thread from `i` to `j` still has to send of `i`'s own records. -/
def Group.pending {ι σ : Type} (s : Group ι σ) (i j : ι) : List LogWrite :=
  (recordsFrom (s.offset (i, j)) (s.server i).binlog).filter fun w => w.opType.isSource

/-- A thread that is at the start of a record has all that is appended before it. -/
theorem StartsAt.pending_append {log : List LogWrite} {offset n : Nat} (h : StartsAt log offset n)
    (more : List LogWrite) :
    (FastDht.recordsFrom offset (log ++ more)).filter (fun w => w.opType.isSource) =
      (FastDht.recordsFrom offset log).filter (fun w => w.opType.isSource) ++
        more.filter fun w => w.opType.isSource := by
  rw [(h.append more).recordsFrom, h.recordsFrom, List.drop_append_of_le_length h.1,
    List.filter_append]

end FastDht
