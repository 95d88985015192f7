import FastDht.Lib.Machine
import FastDht.Server.StoredValues

/-! # Worker threads

Any number of worker threads handle SET, INC and DEL at the same time. A
request is a store call, then a call of `fdht_binlog_write`, then the update of
the sub-key list, which runs under a lock of its own; no lock spans two of
them, so every order of the steps of different requests is possible. A request
that is handled alone takes its three steps one after the other. -/
namespace FastDht
open Lib

variable {σ : Type}

/-- A request whose store call has succeeded. -/
structure Job where
  task : FastTaskInfo
  request : KeyRequest
  record : LogWrite
  /-- The record has been written. -/
  logged : Bool

/-- The server and the requests that are being handled, in the order of their
store calls. -/
structure Workers (σ : Type) where
  server : Server σ
  jobs : List Job

/-- What a worker does next: the store call of a new request, or the next step
of the `i`-th request in progress. -/
inductive WorkerEvent
  | call (now : Int) (t : FastTaskInfo)
  | log (now : Int) (i : Nat)
  | list (now : Int) (i : Nat)

/-- The checks and the store call of SET, INC and DEL: the status, the store
after it, and the request as it goes on if the status is 0. -/
def storeCall (S : StoreFuncs σ) (g : Globals) (t : FastTaskInfo) (s : Server σ) :
    Option (Int × σ × Job) :=
  match t.cmd with
  | some .set => (parseSet g true t).map fun p =>
    let call := setCall S p.1 t p.2 s
    (call.1, call.2, ⟨t, p.1, setWrite g .sourceSet p.1 t p.2, false⟩)
  | some .inc => (parseExact g 16 true t).map fun r =>
    let call := incCall S g r t s
    (call.1, call.2.2, ⟨t, r, incWrite g r.keyInfo r.header.keyHashCode call.2.1, false⟩)
  | some .del => (parseExact g 12 true t).map fun r =>
    let call := S.delete s.store r.header.groupId r.keyInfo.packFullKey
    (call.1, call.2, ⟨t, r, delWrite g .sourceDel r, false⟩)
  | _ => none

/-- The last step of a request: `key_del` for DEL, `key_add` for the others. -/
def Job.updateList (S : StoreFuncs σ) (g : Globals) (job : Job) (s : Server σ) : Server σ :=
  let r := job.request
  if g.storeSubKeys then
    if job.task.cmd = some .del then (keyDel S g r.header.groupId r.keyInfo r.header.keyHashCode s).2
    else (keyAdd S g r.header.groupId r.keyInfo r.header.keyHashCode s).2
  else s

def Workers.step (S : StoreFuncs σ) (g : Globals) (ws : Workers σ) :
    WorkerEvent → Option (Workers σ)
  | .call now t => (storeCall S (g.at now) t ws.server).map fun call => {
      server := { ws.server with store := call.2.1 }
      jobs := if call.1 = (0 : Int) then ws.jobs ++ [call.2.2] else ws.jobs }
  | .log now i => ws.jobs[i]?.bind fun job =>
    if job.logged then none
    else some {
      -- the clock is read when the record is written
      server := ws.server.binlogWrite g { job.record with timestamp := now }
      jobs := ws.jobs.set i { job with logged := true } }
  | .list now i => ws.jobs[i]?.bind fun job =>
    if job.logged then some {
      server := job.updateList S (g.at now) ws.server
      jobs := ws.jobs.eraseIdx i }
    else none

/-- The steps, by the place of the request in the list. -/
inductive Workers.Step (S : StoreFuncs σ) (g : Globals) :
    Workers σ → WorkerEvent → Workers σ → Prop
  | call {s : Server σ} {jobs : List Job} {now : Int} {t : FastTaskInfo} {status : Int} {store : σ}
      {job : Job} (hcall : storeCall S (g.at now) t s = some (status, store, job)) :
      Step S g ⟨s, jobs⟩ (.call now t)
        ⟨{ s with store := store }, if status = 0 then jobs ++ [job] else jobs⟩
  | log {s : Server σ} {a b : List Job} {job : Job} {now : Int} (hlog : job.logged = false) :
      Step S g ⟨s, a ++ job :: b⟩ (.log now a.length)
        ⟨s.binlogWrite g { job.record with timestamp := now },
          a ++ { job with logged := true } :: b⟩
  | list {s : Server σ} {a b : List Job} {job : Job} {now : Int} (hlog : job.logged = true) :
      Step S g ⟨s, a ++ job :: b⟩ (.list now a.length) ⟨job.updateList S (g.at now) s, a ++ b⟩

theorem jobs_split {jobs : List Job} {i : Nat} {job : Job} (h : jobs[i]? = some job) :
    ∃ a b, jobs = a ++ job :: b ∧ i = a.length := by
  obtain ⟨hi, hget⟩ := List.getElem?_eq_some_iff.mp h
  refine ⟨jobs.take i, jobs.drop (i + 1), ?_, by rw [List.length_take]; omega⟩
  rw [← hget, List.getElem_cons_drop, List.take_append_drop]

theorem Workers.step_cases {S : StoreFuncs σ} {g : Globals} {ws ws' : Workers σ} {e : WorkerEvent}
    (h : ws.step S g e = some ws') : Workers.Step S g ws e ws' := by
  obtain ⟨s, jobs⟩ := ws
  cases e with
  | call now t =>
    obtain ⟨⟨status, store, job⟩, hcall, heq⟩ := Option.map_eq_some_iff.mp h
    cases heq
    exact .call hcall
  | log now i =>
    obtain ⟨job, hjob, h⟩ := Option.bind_eq_some_iff.mp h
    obtain ⟨a, b, rfl, rfl⟩ := jobs_split hjob
    split at h
    · cases h
    · rename_i hlog
      cases h
      rw [List.set_append_right _ _ le_rfl, Nat.sub_self, List.set_cons_zero]
      exact .log (by simpa using hlog)
  | list now i =>
    obtain ⟨job, hjob, h⟩ := Option.bind_eq_some_iff.mp h
    obtain ⟨a, b, rfl, rfl⟩ := jobs_split hjob
    split at h
    · rename_i hlog
      cases h
      rw [List.eraseIdx_append_of_length_le le_rfl, Nat.sub_self, List.eraseIdx_cons_zero]
      exact .list hlog
    · cases h

/-! ## One request alone -/

section Alone

variable {S : StoreFuncs σ} {g : Globals}

theorem dealCmd_storeCall {t : FastTaskInfo} {s : Server σ} {status : Int} {store : σ} {job : Job}
    (hcall : storeCall S g t s = some (status, store, job)) (env : TaskEnv) :
    ∃ reply, dealCmd S g env t s t.cmd = some reply ∧ reply.status = status ∧
      reply.server = if status = 0 then
        job.updateList S g ({ s with store := store }.binlogWrite g job.record)
      else { s with store := store } := by
  unfold storeCall at hcall
  split at hcall
  · rename_i hcmd
    obtain ⟨⟨r, n⟩, hp, heq⟩ := Option.map_eq_some_iff.mp hcall
    have hp' : parseSet g (OpType.sourceSet = .sourceSet) t = some (r, n) := hp
    obtain ⟨hstatus, hserver⟩ := dealCmdSet_eq (S := S) hp' s
    cases heq
    refine ⟨_, by rw [hcmd]; rfl, hstatus, hserver.trans ?_⟩
    unfold Server.logged Job.updateList
    rw [hcmd]
    by_cases h0 : (setCall S r t n s).1 = 0 <;> by_cases hsub : g.storeSubKeys = true <;>
      simp [h0, hsub]
  · rename_i hcmd
    obtain ⟨r, hp, heq⟩ := Option.map_eq_some_iff.mp hcall
    obtain ⟨hstatus, hserver⟩ := dealCmdInc_eq (S := S) hp s
    cases heq
    refine ⟨_, by rw [hcmd]; rfl, hstatus, hserver.trans ?_⟩
    unfold Server.logged Job.updateList
    rw [hcmd]
    by_cases h0 : (incCall S g r t s).1 = 0 <;> by_cases hsub : g.storeSubKeys = true <;>
      simp [h0, hsub]
  · rename_i hcmd
    obtain ⟨r, hp, heq⟩ := Option.map_eq_some_iff.mp hcall
    have hp' : parseExact g 12 (OpType.sourceDel = .sourceDel) t = some r := hp
    obtain ⟨hstatus, hserver⟩ := dealCmdDel_eq (S := S) hp' s
    cases heq
    refine ⟨_, by rw [hcmd]; rfl, hstatus, hserver.trans ?_⟩
    unfold Server.logged Job.updateList
    rw [hcmd]
    by_cases h0 : (S.delete s.store r.header.groupId r.keyInfo.packFullKey).1 = 0 <;>
      by_cases hsub : g.storeSubKeys = true <;> simp [h0, hsub]
  · cases hcall

/-- A request that reaches its store call, as the later steps know it. -/
structure Job.Of (g : Globals) (t : FastTaskInfo) (job : Job) : Prop where
  task : job.task = t
  request : job.request.Of g t
  timestamp : job.record.timestamp = g.currentTime
  logged : job.logged = false
  cmd : ∃ c ∈ [ProtoCmd.set, .inc, .del], t.cmd = some c

theorem storeCall_cases {t : FastTaskInfo} {s : Server σ} {status : Int} {store : σ} {job : Job}
    (hcall : storeCall S g t s = some (status, store, job)) :
    job.Of g t ∧ ∃ a : Action, a.Of g t job.request.header ∧
      a.storeCall S g s = some (status, store, job.record) := by
  unfold storeCall at hcall
  split at hcall
  · rename_i hcmd
    obtain ⟨⟨r, n⟩, hp, heq⟩ := Option.map_eq_some_iff.mp hcall
    obtain ⟨hr, hlt⟩ := parseSet_of hp
    cases heq
    refine ⟨⟨rfl, hr, rfl, rfl, .set, by decide, hcmd⟩, .set r.header.groupId
      ((setBuffer r t).bodyBytes r.off (4 + n)) (setWrite g .sourceSet r t n),
      ⟨rfl, rfl, setWrite_of (.inl ⟨rfl, hcmd⟩) hr hlt, fun _ => ⟨Int.natCast_nonneg _, ?_⟩⟩, rfl⟩
    exact setBuffer_value g .sourceSet r t n
  · rename_i hcmd
    obtain ⟨r, hp, heq⟩ := Option.map_eq_some_iff.mp hcall
    have hr := parseExact_of hp
    cases heq
    exact ⟨⟨rfl, hr, rfl, rfl, .inc, by decide, hcmd⟩, .inc r.header.groupId r.keyInfo
      r.header.keyHashCode (t.bodyInt r.off) (toInt32 r.header.newExpires),
      ⟨hr.owns, rfl, rfl, rfl, hcmd, hr.key_nonempty⟩, rfl⟩
  · rename_i hcmd
    obtain ⟨r, hp, heq⟩ := Option.map_eq_some_iff.mp hcall
    have hr := parseExact_of hp
    cases heq
    exact ⟨⟨rfl, hr, rfl, rfl, .del, by decide, hcmd⟩, .delete r.header.groupId
      (delWrite g .sourceDel r), ⟨rfl, rfl, delWrite_of (.inl ⟨rfl, hcmd⟩) hr, rfl⟩, rfl⟩
  · cases hcall

/-- **A request handled alone.** The handler of a SET, INC or DEL that passes
its checks is a run of the workers, from and to a server without requests in
progress. -/
theorem dealCmd_runs {t : FastTaskInfo} {s : Server σ} {status : Int} {store : σ} {job : Job}
    (hcall : storeCall S g t s = some (status, store, job)) (env : TaskEnv) :
    ∃ reply, dealCmd S g env t s t.cmd = some reply ∧
      Runs (Workers.step S g) (fun _ _ => True) ⟨s, []⟩ ⟨reply.server, []⟩ := by
  obtain ⟨reply, hreply, -, hserver⟩ := dealCmd_storeCall hcall env
  refine ⟨reply, hreply, ?_⟩
  have hjob := (storeCall_cases hcall).1
  have hlogged := hjob.logged
  have hg : g.at g.currentTime = g := rfl
  have hrec : { job.record with timestamp := g.currentTime } = job.record := by
    rw [← hjob.timestamp]
  have hone : Workers.step S g ⟨s, []⟩ (.call g.currentTime t) =
      some ⟨{ s with store := store }, if status = 0 then [job] else []⟩ := by
    simp [Workers.step, hg, hcall]
  refine .head ⟨.call g.currentTime t, trivial, hone⟩ ?_
  by_cases h0 : status = 0
  · rw [if_pos h0] at hserver ⊢
    have htwo : Workers.step S g ⟨{ s with store := store }, [job]⟩ (.log g.currentTime 0) =
        some ⟨{ s with store := store }.binlogWrite g job.record,
          [{ job with logged := true }]⟩ := by
      simp [Workers.step, hlogged, hrec]
    have hthree : Workers.step S g ⟨{ s with store := store }.binlogWrite g job.record,
        [{ job with logged := true }]⟩ (.list g.currentTime 0) = some ⟨reply.server, []⟩ := by
      rw [hserver]
      rfl
    exact .head ⟨_, trivial, htwo⟩ (.single ⟨_, trivial, hthree⟩)
  · rw [if_neg h0] at hserver ⊢
    rw [hserver]

end Alone

theorem dealCmd_runs_set :
    ∃ reply, dealCmd bdbFuncs oneGroup quietEnv setRequest emptyServer
        setRequest.cmd = some reply ∧
      Runs (Workers.step bdbFuncs oneGroup) (fun _ _ => True) ⟨emptyServer, []⟩
        ⟨reply.server, []⟩ :=
  dealCmd_runs rfl quietEnv

end FastDht
