import FastDht.Server.MpoolStore
import FastDht.Server.RecoverySoundness
import FastDht.Server.Workers

/-! # The order of the binlog

A worker writes its record some time after its store call. If no record is
written while an earlier store call on the same key still has to be logged, and
no store call has lost a key, the binlog describes the store as soon as all
requests are finished: what has been logged, followed by what is still to be
written, in the order of the store calls, always replays to the store. Nothing in
the server enforces that order. -/
namespace FastDht
open Lib Relation

variable {σ κ : Type} [DecidableEq κ]
variable {job : Job} {now : Int}

def KeyStore.target (E : KeyStore σ κ) (g : Globals) (w : LogWrite) : κ := (E.entry g w).1

def KeyStore.listTarget (E : KeyStore σ κ) (job : Job) : κ :=
  E.slot job.request.header.groupId job.request.keyInfo.listKey.packFullKey

def Job.updatesList (g : Globals) (job : Job) : Bool :=
  g.storeSubKeys && hasObject job.request.keyInfo

/-- No record is written before that of an earlier store call on the same key. -/
def Workers.InOrder (E : KeyStore σ κ) (g : Globals) (ws : Workers σ) : WorkerEvent → Prop
  | .call _ _ => True
  | .log _ i => ∀ job ∈ ws.jobs[i]?, ∀ j ∈ ws.jobs.take i, j.logged = false →
      E.target g j.record ≠ E.target g job.record
  | .list _ i => ∀ job ∈ ws.jobs[i]?, job.updatesList g = true → ∀ j ∈ ws.jobs, j.logged = false →
      E.target g j.record ≠ E.listTarget job

instance (E : KeyStore σ κ) (g : Globals) (ws : Workers σ) (e : WorkerEvent) :
    Decidable (ws.InOrder E g e) := by
  cases e <;> unfold Workers.InOrder <;> infer_instance

/-- The records that are still to be written, in the order of the store calls. -/
def pendingRecords (jobs : List Job) : List LogWrite :=
  (jobs.filter fun j => !j.logged).map Job.record

@[simp] theorem pendingRecords_append (a b : List Job) :
    pendingRecords (a ++ b) = pendingRecords a ++ pendingRecords b := by
  simp [pendingRecords]

theorem pendingRecords_cons (job : Job) (jobs : List Job) :
    pendingRecords (job :: jobs) =
      if job.logged then pendingRecords jobs else job.record :: pendingRecords jobs := by
  unfold pendingRecords
  cases h : job.logged <;> simp [h]

theorem mem_pendingRecords {jobs : List Job} {w : LogWrite} (h : w ∈ pendingRecords jobs) :
    ∃ j ∈ jobs, j.logged = false ∧ j.record = w := by
  obtain ⟨j, hj, rfl⟩ := List.mem_map.mp h
  obtain ⟨hmem, hlog⟩ := List.mem_filter.mp hj
  exact ⟨j, hmem, by simpa using hlog, rfl⟩

section Order

variable {E : KeyStore σ κ} {g : Globals} {base : Server σ}

/-- What a request in progress carries to its last step. -/
structure Job.Valid (g : Globals) (job : Job) : Prop where
  owns : g.ownsGroup job.request.header.groupId = true
  groupId : job.request.header.groupId = g.groupOf job.request.header.keyHashCode
  cmd : ∃ c ∈ [ProtoCmd.set, .inc, .del], job.task.cmd = some c

theorem Job.Valid.cmd_ne (h : job.Valid g) : job.task.cmd ≠ some .batchSet := by
  obtain ⟨c, hc, hcmd⟩ := h.cmd
  intro hbatch
  rw [hbatch] at hcmd
  cases hcmd
  revert hc
  decide

theorem Job.Of.valid {t : FastTaskInfo} (h : job.Of (g.at now) t) :
    job.Valid g where
  owns := h.request.owns
  groupId := by rw [← h.request.header]; rfl
  cmd := by rw [h.task]; exact h.cmd

/-- The records since `base`, followed by those still to be written, replay to
the store. -/
structure LogCatchesUp (E : KeyStore σ κ) (g : Globals) (base : Server σ) (ws : Workers σ) :
    Prop where
  store : E.Valid ws.server.store
  valid : ∀ job ∈ ws.jobs, job.Valid g
  replay : ∃ log, ws.server.binlog = base.binlog ++ log ∧
    E.lookup ws.server.store =
      E.replayLog g (log ++ pendingRecords ws.jobs) (E.lookup base.store)

theorem KeyStore.replayLog_swap {a b : List LogWrite}
    (h : ∀ w ∈ a, ∀ w' ∈ b, E.target g w ≠ E.target g w') (m : κ → Option Bytes) :
    E.replayLog g a (E.replayLog g b m) = E.replayLog g b (E.replayLog g a m) := by
  refine replay_swap (fun e he e' he' => ?_) m
  obtain ⟨w, hw, rfl⟩ := List.mem_map.mp he
  obtain ⟨w', hw', rfl⟩ := List.mem_map.mp he'
  exact h w hw w' hw'

theorem LogCatchesUp.call {s : Server σ} {jobs : List Job} (h : LogCatchesUp E g base ⟨s, jobs⟩)
    {t : FastTaskInfo} {status : Int} {store : σ}
    (hcall : storeCall E.toStoreFuncs (g.at now) t s = some (status, store, job))
    (hlost : E.lost store = false) : LogCatchesUp E g base
      ⟨{ s with store := store }, if status = 0 then jobs ++ [job] else jobs⟩ := by
  obtain ⟨hjob, a, hof, ha⟩ := storeCall_cases hcall
  obtain ⟨log, hlog, hreplay⟩ := h.replay
  have hneg := hasNegativeEntry_of_ne (hjob.task ▸ hjob.valid.cmd_ne) (g.at now)
  have hdbs : (g.at now).dbList = g.dbList := rfl
  obtain ⟨hvalid, hlookup, -⟩ := hof.overwrites hdbs hjob.valid.groupId hneg h.store ha hlost
  by_cases h0 : status = 0
  · rw [if_pos h0] at hlookup ⊢
    refine ⟨hvalid, fun j hj => ?_, log, hlog, ?_⟩
    · rcases List.mem_append.mp hj with hj | hj
      · exact h.valid j hj
      · rw [List.mem_singleton.mp hj]
        exact hjob.valid
    · have hpend : pendingRecords [job] = [job.record] := by
        rw [pendingRecords_cons, hjob.logged]
        rfl
      rw [pendingRecords_append, hpend, ← List.append_assoc, KeyStore.replayLog_append, ← hreplay]
      exact hlookup
  · rw [if_neg h0] at hlookup ⊢
    exact ⟨hvalid, h.valid, log, hlog, hlookup.trans hreplay⟩

theorem LogCatchesUp.log (hflag : g.writeToBinlogFlag = true) {s : Server σ} {a b : List Job}
    (h : LogCatchesUp E g base ⟨s, a ++ job :: b⟩) (hlogged : job.logged = false)
    (hok : Workers.InOrder E g ⟨s, a ++ job :: b⟩ (.log now a.length)) :
    LogCatchesUp E g base ⟨s.binlogWrite g { job.record with timestamp := now },
      a ++ { job with logged := true } :: b⟩ := by
  obtain ⟨log, hlog, hreplay⟩ := h.replay
  have hearlier : ∀ w ∈ [{ job.record with timestamp := now }], ∀ w' ∈ pendingRecords a,
      E.target g w ≠ E.target g w' := by
    intro w hw w' hw'
    obtain ⟨j, hj, hjlog, rfl⟩ := mem_pendingRecords hw'
    rw [List.mem_singleton.mp hw]
    refine (hok job ?_ j ?_ hjlog).symm
    · simp
    · simpa using hj
  have hstore : (s.binlogWrite g { job.record with timestamp := now }).store = s.store := by
    rw [Server.binlogWrite, if_pos hflag]
  refine ⟨hstore ▸ h.store, fun j hj => ?_, log ++ [{ job.record with timestamp := now }], ?_, ?_⟩
  · rcases List.mem_append.mp hj with hj | hj
    · exact h.valid j (List.mem_append_left _ hj)
    · have hv := h.valid job (by simp)
      rcases List.mem_cons.mp hj with rfl | hj
      · exact ⟨hv.owns, hv.groupId, hv.cmd⟩
      · exact h.valid j (by simp [hj])
  · have hlog' : s.binlog = base.binlog ++ log := hlog
    rw [Server.binlogWrite, if_pos hflag]
    simp only [hlog', List.append_assoc]
  · have hsame : ∀ m, E.replayLog g [{ job.record with timestamp := now }] m =
        E.replayLog g [job.record] m := fun m => rfl
    rw [hstore, hreplay, pendingRecords_append, pendingRecords_append, pendingRecords_cons,
      pendingRecords_cons, if_neg (by simp [hlogged]), if_pos rfl]
    calc E.replayLog g (log ++ (pendingRecords a ++ job.record :: pendingRecords b))
          (E.lookup base.store)
      _ = E.replayLog g (pendingRecords b) (E.replayLog g [job.record]
          (E.replayLog g (pendingRecords a) (E.replayLog g log (E.lookup base.store)))) := by
        rw [← KeyStore.replayLog_append, ← KeyStore.replayLog_append, ← KeyStore.replayLog_append]
        simp
      _ = E.replayLog g (pendingRecords b) (E.replayLog g (pendingRecords a)
          (E.replayLog g [{ job.record with timestamp := now }]
            (E.replayLog g log (E.lookup base.store)))) := by
        rw [← hsame, KeyStore.replayLog_swap hearlier]
      _ = E.replayLog g (log ++ [{ job.record with timestamp := now }] ++
          (pendingRecords a ++ pendingRecords b)) (E.lookup base.store) := by
        rw [KeyStore.replayLog_append, KeyStore.replayLog_append, KeyStore.replayLog_append]

theorem Job.updateList_onList {S : StoreFuncs σ} (job : Job) (g : Globals) (s : Server σ) :
    Acts S g (Action.OnList g job.request.header job.request.keyInfo) s
      (job.updateList S g s) := by
  unfold Job.updateList
  split
  · split
    · exact keyDel_onList _ s
    · exact keyAdd_onList _ s
  · exact .refl

theorem Job.updateList_follows (hflag : g.writeToBinlogFlag = true)
    (hv : job.Valid g) (now : Int) {s : Server σ} (hvalid : E.Valid s.store)
    (hlost : E.lost (job.updateList E.toStoreFuncs (g.at now) s).store = false) :
    ∃ log, Follows E g s (job.updateList E.toStoreFuncs (g.at now) s) log ∧
      ∀ w ∈ log, job.updatesList g = true ∧ E.target g w = E.listTarget job := by
  obtain ⟨c, hc, hcmd⟩ := hv.cmd
  have hneg := hasNegativeEntry_of_ne hv.cmd_ne (g.at now)
  have hmem : c ∈ [ProtoCmd.set, .inc, .del, .batchSet, .batchDel] := by
    revert hc
    cases c <;> decide
  have hsrc : SourceRequest (g.at now) job.task job.request.header := .of_cmd hcmd hmem hv.owns
  by_cases hup : job.updatesList g = true
  · have hdbs : (g.at now).dbList = g.dbList := rfl
    obtain ⟨log, hlog, hkeys⟩ := acts_onList_follows hdbs hflag hv.groupId hneg hvalid hsrc
      (job.updateList_onList (g.at now) s) hlost
    refine ⟨log, hlog, fun w hw => ⟨hup, ?_⟩⟩
    rw [KeyStore.target, KeyStore.entry, hkeys w hw]
    rfl
  · have hnone : job.updateList E.toStoreFuncs (g.at now) s = s := by
      unfold Job.updateList keyAdd keyDel
      simp only [Job.updatesList, Bool.and_eq_true, not_and, Bool.not_eq_true] at hup
      dsimp only
      split
      · rename_i hsub
        rw [hup hsub]
        split <;> rfl
      · rfl
    rw [hnone]
    exact ⟨[], .of_same hvalid rfl rfl, by simp⟩

/-- The list is written and logged at once; nothing of its key is waiting. -/
theorem LogCatchesUp.list (hflag : g.writeToBinlogFlag = true) {s : Server σ} {a b : List Job}
    (h : LogCatchesUp E g base ⟨s, a ++ job :: b⟩) (hlogged : job.logged = true)
    (hok : Workers.InOrder E g ⟨s, a ++ job :: b⟩ (.list now a.length))
    (hlost : E.lost (job.updateList E.toStoreFuncs (g.at now) s).store = false) :
    LogCatchesUp E g base ⟨job.updateList E.toStoreFuncs (g.at now) s, a ++ b⟩ := by
  obtain ⟨log, hlog, hreplay⟩ := h.replay
  obtain ⟨log', hf, hkeys⟩ :=
    Job.updateList_follows hflag (h.valid job (by simp)) now h.store hlost
  have hpend : pendingRecords (a ++ job :: b) = pendingRecords (a ++ b) := by
    rw [pendingRecords_append, pendingRecords_append, pendingRecords_cons, if_pos hlogged]
  rw [hpend] at hreplay
  have hother : ∀ w ∈ log', ∀ w' ∈ pendingRecords (a ++ b),
      E.target g w ≠ E.target g w' := by
    intro w hw w' hw'
    rw [← hpend] at hw'
    obtain ⟨j, hj, hjlog, rfl⟩ := mem_pendingRecords hw'
    obtain ⟨hup, htarget⟩ := hkeys w hw
    rw [htarget]
    exact (hok job (by simp) hup j hj hjlog).symm
  refine ⟨hf.valid, fun j hj => h.valid j ?_, log ++ log', ?_, ?_⟩
  · rcases List.mem_append.mp hj with hj | hj <;> simp [hj]
  · rw [hf.binlog, hlog, List.append_assoc]
  · rw [hf.replay, hreplay, KeyStore.replayLog_append, KeyStore.replayLog_append,
      KeyStore.replayLog_append, KeyStore.replayLog_swap hother]

theorem Workers.step_lost {ws ws' : Workers σ} {e : WorkerEvent}
    (hstep : ws.step E.toStoreFuncs g e = some ws') (hlost : E.lost ws'.server.store = false) :
    E.lost ws.server.store = false := by
  cases Workers.step_cases hstep with
  | @call s jobs now t status store job hcall =>
    obtain ⟨-, a, -, ha⟩ := storeCall_cases hcall
    have hlost' : E.lost (a.run E.toStoreFuncs (g.at now) s).store = false := by
      rw [Action.run_storeCall ha, Server.logged_store]
      exact hlost
    exact Action.run_lost hlost'
  | log hlogged =>
    unfold Server.binlogWrite at hlost
    split at hlost <;> exact hlost
  | @list s a b job now hlogged =>
    exact acts_lost (job.updateList_onList (g.at now) s) hlost

theorem LogCatchesUp.step (hflag : g.writeToBinlogFlag = true) {ws ws' : Workers σ}
    {e : WorkerEvent} (h : LogCatchesUp E g base ws) (hok : ws.InOrder E g e)
    (hstep : ws.step E.toStoreFuncs g e = some ws') (hlost : E.lost ws'.server.store = false) :
    LogCatchesUp E g base ws' := by
  cases Workers.step_cases hstep with
  | call hcall => exact h.call hcall hlost
  | log hlogged => exact h.log hflag hlogged hok
  | list hlogged => exact h.list hflag hlogged hok hlost

theorem LogCatchesUp.run (hflag : g.writeToBinlogFlag = true) {s : Server σ}
    (hvalid : E.Valid s.store) {ws : Workers σ}
    (hrun : Runs (Workers.step E.toStoreFuncs g) (Workers.InOrder E g) ⟨s, []⟩ ws)
    (hlost : E.lost ws.server.store = false) : LogCatchesUp E g s ws := by
  have hstart : LogCatchesUp E g s ⟨s, []⟩ := ⟨hvalid, by simp, [], by simp, rfl⟩
  exact hrun.invariant (I := fun ws => E.lost ws.server.store = false → LogCatchesUp E g s ws)
    (fun _ => hstart)
    (fun _ _ _ h hok hstep hlost => (h (Workers.step_lost hstep hlost)).step hflag hok hstep hlost)
    hlost

/-- **The binlog follows the store calls.** In every run of any number of
workers that writes the records of each key in the order of the store calls and
in which no store call loses a key, replaying what has been appended to the
binlog gives the store whenever no request is in progress. -/
theorem log_order_agrees (E : KeyStore σ κ) (g : Globals) (hflag : g.writeToBinlogFlag = true)
    (s : Server σ) (hvalid : E.Valid s.store) (ws : Workers σ)
    (hrun : Runs (Workers.step E.toStoreFuncs g) (Workers.InOrder E g) ⟨s, []⟩ ws)
    (hlost : E.lost ws.server.store = false) (hdone : ws.jobs = []) :
    ∃ log, ws.server.binlog = s.binlog ++ log ∧
      E.lookup ws.server.store = E.replayLog g log (E.lookup s.store) := by
  obtain ⟨log, hlog, hreplay⟩ := (LogCatchesUp.run hflag hvalid hrun hlost).replay
  refine ⟨log, hlog, ?_⟩
  rw [hreplay, hdone]
  simp [pendingRecords]

/-! ## A crash between two steps -/

/-- The records in the binlog and those still to be written are of own groups and of values with
a length. -/
structure Workers.Owned (g : Globals) (ws : Workers σ) : Prop where
  jobs : ∀ job ∈ ws.jobs, job.Valid g ∧
    g.ownsGroup (g.groupOf job.record.keyHashCode) = true ∧ 0 ≤ job.record.len
  binlog : ∀ w ∈ ws.server.binlog, g.ownsGroup (g.groupOf w.keyHashCode) = true ∧ 0 ≤ w.len

theorem Workers.Owned.step (hflag : g.writeToBinlogFlag = true) {ws ws' : Workers Bdb}
    {e : WorkerEvent} (h : ws.Owned g) (hstep : ws.step bdbFuncs g e = some ws') :
    ws'.Owned g := by
  obtain ⟨hjobs, hbinlog⟩ := h
  cases Workers.step_cases hstep with
  | @call s jobs now t status store job hcall =>
    refine ⟨?_, hbinlog⟩
    by_cases h0 : status = 0
    · obtain ⟨hjob, a, hof, ha⟩ := storeCall_cases hcall
      have hneg := hasNegativeEntry_of_ne (hjob.task ▸ hjob.valid.cmd_ne) (g.at now)
      have hdbs : (g.at now).dbList = g.dbList := rfl
      have hover := hof.overwrites (E := bdbStore) hdbs hjob.valid.groupId hneg trivial ha rfl
      rw [if_pos h0]
      exact List.forall_mem_append.mpr ⟨hjobs, List.forall_mem_singleton.mpr
        ⟨hjob.valid, hover.owned h0, hover.len_nonneg h0⟩⟩
    · rw [if_neg h0]
      exact hjobs
  | @log s a b job now hlogged =>
    obtain ⟨ha, hjob, hb⟩ := by simpa only [List.forall_mem_append, List.forall_mem_cons] using hjobs
    refine ⟨List.forall_mem_append.mpr ⟨ha, List.forall_mem_cons.mpr ⟨?_, hb⟩⟩, ?_⟩
    · exact ⟨⟨hjob.1.owns, hjob.1.groupId, hjob.1.cmd⟩, hjob.2⟩
    · rw [Server.binlogWrite, if_pos hflag]
      exact List.forall_mem_append.mpr ⟨hbinlog, List.forall_mem_singleton.mpr hjob.2⟩
  | @list s a b job now hlogged =>
    obtain ⟨ha, hjob, hb⟩ := by simpa only [List.forall_mem_append, List.forall_mem_cons] using hjobs
    obtain ⟨log, hf, -⟩ := Job.updateList_follows (E := bdbStore) hflag hjob.1 now trivial rfl
    refine ⟨List.forall_mem_append.mpr ⟨ha, hb⟩, ?_⟩
    change ∀ w ∈ (job.updateList bdbStore.toStoreFuncs (g.at now) s).binlog, _
    rw [hf.binlog]
    exact List.forall_mem_append.mpr ⟨hbinlog, fun w hw => ⟨hf.owned w hw, hf.len_nonneg w hw⟩⟩

/-- **A crash loses the records that are not in the file, and nothing else.** At every moment of
a run that writes the records of each key in order, `n` records have been flushed and the others
are in the write cache. Recovering the file into an empty database succeeds, and the store is what
is recovered after the cached records and those still to be written. -/
theorem crash_loses_unwritten (hflag : g.writeToBinlogFlag = true) {s : Server Bdb}
    (hempty : s.store.data = fun _ => none) (hnew : s.binlog = []) {ws : Workers Bdb}
    (hrun : Runs (Workers.step bdbFuncs g) (Workers.InOrder bdbStore g) ⟨s, []⟩ ws)
    (n : Nat) (hprint : ∀ w ∈ ws.server.binlog.take n, w.Printable) {db : Bdb} (hq : db.Quiet)
    (hdb : db.data = fun _ => none) :
    (fdhtRecoverData g (binlogBytes (ws.server.binlog.take n)) db).1 = 0 ∧
      ws.server.store.data = replayLog g (ws.server.binlog.drop n ++ pendingRecords ws.jobs)
        (fdhtRecoverData g (binlogBytes (ws.server.binlog.take n)) db).2.data := by
  obtain ⟨log, hlog, hreplay⟩ := (LogCatchesUp.run (E := bdbStore) hflag trivial hrun rfl).replay
  have howned : ws.Owned g := hrun.invariant ⟨by simp, by simp [hnew]⟩
    fun _ _ _ h _ hstep => h.step hflag hstep
  obtain ⟨h0, hdata⟩ := fdhtRecoverData_log hq fun w hw =>
    have hmem := List.mem_of_mem_take hw
    ⟨(hprint w hw).loggable (howned.binlog w hmem).2, (howned.binlog w hmem).1⟩
  rw [hnew, List.nil_append] at hlog
  refine ⟨h0, hreplay.trans ?_⟩
  rw [hdata, hdb, ← replayLog_append, ← List.append_assoc, List.take_append_drop, hlog, ← hempty]
  rfl

end Order

/-- SET of the key `a` to `y`. -/
def setRequestY : FastTaskInfo :=
  request .set 0 0 (int2buff 0 ++ int2buff 0 ++ int2buff 1 ++ [97] ++ int2buff 1 ++ [121])

/-- The server with an empty memory pool. -/
def cachedServer : Server (Mpool × Bool) :=
  ⟨({ emptyMpool with hashArray := cachedTable }, false), [], default⟩

/-- The first SET is in the file, the second in the write cache and the third in the store only
when the server stops. -/
theorem crash_loses_second_set :
    ∃ ws, exec (Workers.step bdbFuncs oneGroup) (Workers.InOrder bdbStore oneGroup)
        [.call 1000 setRequest, .log 1001 0, .call 1001 setRequestY, .log 1001 1,
          .call 1001 setRequest] ⟨emptyServer, []⟩ = some ws ∧
      ws.server.binlog.length = 2 ∧
      ws.server.store.data = replayLog oneGroup (ws.server.binlog.drop 1 ++ pendingRecords ws.jobs)
        (fdhtRecoverData oneGroup (binlogBytes (ws.server.binlog.take 1)) emptyBdb).2.data := by
  have hcheck : (exec (Workers.step bdbFuncs oneGroup)
      (Workers.InOrder bdbStore oneGroup) [.call 1000 setRequest, .log 1001 0,
        .call 1001 setRequestY, .log 1001 1, .call 1001 setRequest] ⟨emptyServer, []⟩).map
      (fun ws => (ws.server.binlog.length, decide (∀ w ∈ ws.server.binlog.take 1, w.Printable))) =
        some (2, true) := by decide +kernel
  obtain ⟨ws, hexec, heq⟩ := Option.map_eq_some_iff.mp hcheck
  obtain ⟨hlen, hprint⟩ := Prod.mk.inj heq
  exact ⟨ws, hexec, hlen, (crash_loses_unwritten rfl rfl rfl (.of_exec hexec) 1
    (of_decide_eq_true hprint) emptyBdb_quiet rfl).2⟩

/-- Two workers set `a`, in a database and in a memory pool whose table grows meanwhile. -/
theorem log_order_agrees_set :
    (∃ ws, exec (Workers.step bdbFuncs oneGroup) (Workers.InOrder bdbStore oneGroup)
        [.call 1000 setRequest, .call 1000 setRequestY, .log 1001 0, .log 1001 1, .list 1001 1,
          .list 1001 0] ⟨emptyServer, []⟩ = some ws ∧
      ws.server.store.data (0, [1, 1, 97]) = some [0, 0, 0, 0, 121] ∧
      ws.server.store.data = replayLog oneGroup ws.server.binlog fun _ => none) ∧
    ∃ ws, exec (Workers.step mpoolStore.toStoreFuncs oneGroup) (Workers.InOrder mpoolStore oneGroup)
        [.call 1000 setRequest, .call 1000 setRequestY, .log 1001 0, .log 1001 1, .list 1001 1,
          .list 1001 0] ⟨cachedServer, []⟩ = some ws ∧
      ws.server.store.1.hashArray.view [1, 1, 97] = some [0, 0, 0, 0, 121] ∧
      ws.server.store.1.hashArray.view = mpoolStore.replayLog oneGroup ws.server.binlog
        cachedTable.view := by
  constructor
  · have hcheck : (exec (Workers.step bdbFuncs oneGroup)
        (Workers.InOrder bdbStore oneGroup) [.call 1000 setRequest, .call 1000 setRequestY,
          .log 1001 0, .log 1001 1, .list 1001 1, .list 1001 0] ⟨emptyServer, []⟩).map (fun ws =>
        (ws.server.store.data (0, [1, 1, 97]), ws.jobs.length)) =
        some (some [0, 0, 0, 0, 121], 0) := by decide +kernel
    obtain ⟨ws, hexec, heq⟩ := Option.map_eq_some_iff.mp hcheck
    obtain ⟨hvalue, hjobs⟩ := Prod.mk.inj heq
    obtain ⟨log, hlog, hreplay⟩ := log_order_agrees bdbStore oneGroup rfl emptyServer trivial ws
      (.of_exec hexec) rfl (List.length_eq_zero_iff.mp hjobs)
    exact ⟨ws, hexec, hvalue, hlog ▸ hreplay⟩
  · have hcheck : (exec (Workers.step mpoolStore.toStoreFuncs oneGroup)
        (Workers.InOrder mpoolStore oneGroup) [.call 1000 setRequest, .call 1000 setRequestY,
          .log 1001 0, .log 1001 1, .list 1001 1, .list 1001 0] ⟨cachedServer, []⟩).map (fun ws =>
        (ws.server.store.1.hashArray.view [1, 1, 97], ws.server.store.2, ws.jobs.length)) =
        some (some [0, 0, 0, 0, 121], false, 0) := by decide +kernel
    obtain ⟨ws, hexec, heq⟩ := Option.map_eq_some_iff.mp hcheck
    obtain ⟨hvalue, heq⟩ := Prod.mk.inj heq
    obtain ⟨hlost, hjobs⟩ := Prod.mk.inj heq
    obtain ⟨log, hlog, hreplay⟩ := log_order_agrees mpoolStore oneGroup rfl cachedServer
      cachedTable_bounded ws (.of_exec hexec) hlost (List.length_eq_zero_iff.mp hjobs)
    exact ⟨ws, hexec, hvalue, hlog ▸ hreplay⟩

/-- Two workers set `a` to `x` and then to `y`; the second writes its record
first. The store has `y`, the binlog ends with `x`. -/
theorem log_order_swapped :
    ¬ ∀ (g : Globals) (s : Server Bdb) (ws : Workers Bdb), g.writeToBinlogFlag = true →
      Runs (Workers.step bdbFuncs g) (fun _ _ => True) ⟨s, []⟩ ws → ws.jobs = [] →
      ∃ log, ws.server.binlog = s.binlog ++ log ∧
        ws.server.store.data = replayLog g log s.store.data := by
  intro hall
  have hcheck : (exec (Workers.step bdbFuncs oneGroup) (fun _ _ => True)
      [.call 1000 setRequest, .call 1000 setRequestY, .log 1001 1, .log 1001 0, .list 1001 1,
        .list 1001 0] ⟨emptyServer, []⟩).map (fun ws =>
      (ws.server.store.data (0, [1, 1, 97]), ws.jobs.length,
        replayLog oneGroup ws.server.binlog (fun _ => none) (0, [1, 1, 97]))) =
      some (some [0, 0, 0, 0, 121], 0, some [0, 0, 0, 0, 120]) := by decide +kernel
  obtain ⟨ws, hexec, heq⟩ := Option.map_eq_some_iff.mp hcheck
  obtain ⟨hvalue, heq⟩ := Prod.mk.inj heq
  obtain ⟨hjobs, hlast⟩ := Prod.mk.inj heq
  obtain ⟨log, hlog, hreplay⟩ := hall oneGroup emptyServer ws rfl (.of_exec hexec)
    (List.length_eq_zero_iff.mp hjobs)
  have hlog' : ws.server.binlog = log := hlog
  rw [hreplay, ← hlog'] at hvalue
  have hbase : emptyServer.store.data = fun _ => none := rfl
  rw [hbase, hlast] at hvalue
  cases hvalue

end FastDht
