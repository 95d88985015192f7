import FastDht.Server.MpoolStore
import FastDht.Server.RejectedRequests
import FastDht.Server.Workers

/-! # Readers that refresh an expiry

GET and BATCH_GET look a key up and, if the request brings an expiry, write it
over the old one with a second store call. Between the two calls other requests
may run, and a partial set of a key that is not there inserts it. Readers and
DEL requests share the store here; the sub-key list that DEL updates afterwards
is another key. -/
namespace FastDht
open Lib Relation

variable {σ : Type}

/-- A GET or BATCH_GET in progress: the keys it has not finished, and whether
the first of them has been found and is to be refreshed. -/
structure Reader where
  expires : Int
  keys : List (Nat × Bytes)
  found : Bool

structure Readers (σ : Type) where
  store : σ
  readers : List Reader

/-- What can happen next. A lookup brings the size of the buffer and what the
buffer holds behind the value; `skip` is a reader that gives up on its first
key, `finish` one that has no keys left. -/
inductive ReadEvent
  | start (now : Int) (t : FastTaskInfo)
  | get (now : Int) (i : Nat) (size : Int) (behind : Bytes)
  | refresh (i : Nat)
  | skip (i : Nat)
  | finish (i : Nat)
  | del (now : Int) (t : FastTaskInfo)

/-- A request that passes its checks, before its first lookup. The keys of a
batch are those before the first malformed entry. -/
def readRequest (g : Globals) (t : FastTaskInfo) : Option Reader :=
  match t.cmd with
  | some .get => (parseExact g 12 true t).map fun r =>
    ⟨toInt32 r.header.newExpires, [(r.header.groupId, r.keyInfo.packFullKey)], false⟩
  | some .batchGet => (parseBatchKeys g t).map fun r =>
    ⟨toInt32 r.header.newExpires, r.keys t, false⟩
  | _ => none

def Reader.next (r : Reader) : Reader := { r with keys := r.keys.tail, found := false }

/-- After a lookup: a value too long for the buffer is looked up again. -/
def Reader.got (r : Reader) (now : Int) (v : GetResult) (behind : Bytes) : Reader :=
  if v.result = 0 then
    if expired (buff2int (v.value ++ behind)) now then r.next
    else if r.expires ≠ fdhtExpiresNone then { r with found := true }
    else r.next
  else if v.result = ENOSPC then r
  else r.next

def Readers.step (S : StoreFuncs σ) (g : Globals) (ws : Readers σ) : ReadEvent → Option (Readers σ)
  | .start now t => (readRequest (g.at now) t).map fun r => { ws with readers := ws.readers ++ [r] }
  | .get now i size behind => ws.readers[i]?.bind fun r => r.keys.head?.bind fun k =>
    if r.found then none
    else
      let v := S.get ws.store k.1 k.2 size
      some { store := v.2, readers := ws.readers.set i (r.got now v.1 behind) }
  | .refresh i => ws.readers[i]?.bind fun r => r.keys.head?.bind fun k =>
    if r.found then some {
      store := (S.partialSet ws.store k.1 k.2 (int2buff r.expires) 0).2
      readers := ws.readers.set i r.next }
    else none
  | .skip i => ws.readers[i]?.bind fun r =>
    if r.found then none else some { ws with readers := ws.readers.set i r.next }
  | .finish i => ws.readers[i]?.bind fun r =>
    if r.keys = [] then some { ws with readers := ws.readers.eraseIdx i } else none
  | .del now t => (parseExact (g.at now) 12 true t).map fun r =>
    { ws with store := (S.delete ws.store r.header.groupId r.keyInfo.packFullKey).2 }

/-! ## One request alone -/

section Alone

variable {S : StoreFuncs σ} {g : Globals}

/-- One reader alone gets from one state to another. -/
def Reads (S : StoreFuncs σ) (g : Globals) (s : σ) (r : Reader) (s' : σ) (r' : Reader) : Prop :=
  Runs (Readers.step S g) (fun _ _ => True) ⟨s, [r]⟩ ⟨s', [r']⟩

theorem reads_get (s : σ) (e : Int) (k : Nat × Bytes) (ks : List (Nat × Bytes)) (now n : Int)
    (behind : Bytes) : Reads S g s ⟨e, k :: ks, false⟩ (S.get s k.1 k.2 n).2
      (Reader.got ⟨e, k :: ks, false⟩ now (S.get s k.1 k.2 n).1 behind) :=
  .single ⟨.get now 0 n behind, trivial, rfl⟩

theorem reads_refresh (s : σ) (e : Int) (k : Nat × Bytes) (ks : List (Nat × Bytes)) :
    Reads S g s ⟨e, k :: ks, true⟩ (S.partialSet s k.1 k.2 (int2buff e) 0).2 ⟨e, ks, false⟩ :=
  .single ⟨.refresh 0, trivial, rfl⟩

theorem reads_skip (s : σ) (e : Int) (ks : List (Nat × Bytes)) :
    Reads S g s ⟨e, ks, false⟩ s ⟨e, ks.tail, false⟩ :=
  .single ⟨.skip 0, trivial, rfl⟩

theorem reads_skip_all (s : σ) (e : Int) (ks : List (Nat × Bytes)) :
    Reads S g s ⟨e, ks, false⟩ s ⟨e, [], false⟩ := by
  induction ks with
  | nil => exact .refl
  | cons k ks ih => exact (reads_skip s e (k :: ks)).trans ih

/-- What is done with a value that has been found. -/
def refreshedStore (S : StoreFuncs σ) (e now oldExpires : Int) (k : Nat × Bytes) (s : σ) : σ :=
  if e ≠ fdhtExpiresNone ∧ expired oldExpires now = false then
    (S.partialSet s k.1 k.2 (int2buff e) 0).2 else s

theorem reads_found {s : σ} {e : Int} {k : Nat × Bytes} (ks : List (Nat × Bytes)) {now n : Int}
    (behind : Bytes) (hv : (S.get s k.1 k.2 n).1.result = 0) :
    Reads S g s ⟨e, k :: ks, false⟩
      (refreshedStore S e now (buff2int ((S.get s k.1 k.2 n).1.value ++ behind)) k
        (S.get s k.1 k.2 n).2) ⟨e, ks, false⟩ := by
  have hget := reads_get (S := S) (g := g) s e k ks now n behind
  unfold Reader.got at hget
  rw [if_pos hv] at hget
  unfold refreshedStore
  by_cases hexp : expired (buff2int ((S.get s k.1 k.2 n).1.value ++ behind)) now = true
  · rw [if_pos hexp] at hget
    rw [if_neg (by simp [hexp])]
    exact hget
  · rw [if_neg hexp] at hget
    have hexp' := Bool.eq_false_iff.mpr hexp
    by_cases he : e ≠ fdhtExpiresNone
    · rw [if_pos he] at hget
      have hboth : e ≠ fdhtExpiresNone ∧
          expired (buff2int ((S.get s k.1 k.2 n).1.value ++ behind)) now = false := ⟨he, hexp'⟩
      rw [if_pos hboth]
      exact hget.trans (reads_refresh _ e k ks)
    · rw [if_neg he] at hget
      rw [if_neg fun hboth => he hboth.1]
      exact hget

theorem reads_missed {s : σ} (e : Int) {k : Nat × Bytes} (ks : List (Nat × Bytes)) {n : Int}
    (hv : (S.get s k.1 k.2 n).1.result ≠ 0) :
    Reads S g s ⟨e, k :: ks, false⟩ (S.get s k.1 k.2 n).2 ⟨e, ks, false⟩ := by
  have hget := reads_get (S := S) (g := g) s e k ks 0 n []
  unfold Reader.got at hget
  rw [if_neg hv] at hget
  by_cases hspc : (S.get s k.1 k.2 n).1.result = ENOSPC
  · rw [if_pos hspc] at hget
    exact hget.trans (reads_skip _ e (k :: ks))
  · rw [if_neg hspc] at hget
    exact hget

theorem reads_again {s : σ} (e : Int) {k : Nat × Bytes} (ks : List (Nat × Bytes)) {n : Int}
    (hv : (S.get s k.1 k.2 n).1.result = ENOSPC) :
    Reads S g s ⟨e, k :: ks, false⟩ (S.get s k.1 k.2 n).2 ⟨e, k :: ks, false⟩ := by
  have hget := reads_get (S := S) (g := g) s e k ks 0 n []
  unfold Reader.got at hget
  rw [if_neg (by rw [hv]; decide), if_pos hv] at hget
  exact hget

theorem intAt_write_behind (t : FastTaskInfo) (off : Nat) (v : Bytes) :
    ∃ behind, (t.write off v).intAt off = buff2int (v ++ behind) := by
  refine ⟨readAt t.data (off + v.length) 4, buff2int_congr fun i hi => ?_⟩
  rw [getD_readAt, if_pos hi, FastTaskInfo.write, getD_writeAt]
  by_cases hv : i < v.length
  · rw [if_pos (by omega), Nat.add_sub_cancel_left, List.getD_append _ _ _ _ hv]
  · rw [if_neg (by omega), List.getD_append_right _ _ _ _ (not_lt.mp hv), getD_readAt,
      if_pos (by omega)]
    congr 1
    omega

theorem getValue_store (S : StoreFuncs σ) (g : Globals) (r : KeyRequest) (n : Int)
    (t : FastTaskInfo) (s : Server σ) : (getValue S g r n t s).server.store =
      refreshedStore S (toInt32 r.header.newExpires) g.currentTime (t.bodyInt 0)
        (r.header.groupId, r.keyInfo.packFullKey) s.store := by
  unfold getValue refreshedStore
  by_cases hexp : expired (t.bodyInt 0) g.currentTime = true
  · rw [if_pos hexp, if_neg (by simp [hexp])]
  · have hexp' := Bool.eq_false_iff.mpr hexp
    rw [if_neg hexp]
    by_cases he : toInt32 r.header.newExpires ≠ fdhtExpiresNone
    · have hboth : toInt32 r.header.newExpires ≠ fdhtExpiresNone ∧
          expired (t.bodyInt 0) g.currentTime = false := ⟨he, hexp'⟩
      have hw := bodyBytes_write t 0 (toInt32 r.header.newExpires)
      rw [Nat.add_zero] at hw
      rw [if_pos he, if_pos hboth]
      dsimp only [getReply]
      rw [hw]
    · rw [if_neg he, if_neg fun hboth => he hboth.1]
      rfl

theorem dealCmdGet_reads {t : FastTaskInfo} {r : KeyRequest} (hp : parseExact g 12 true t = some r)
    (env : TaskEnv) (s : Server σ) :
    Reads S g s.store
      ⟨toInt32 r.header.newExpires, [(r.header.groupId, r.keyInfo.packFullKey)], false⟩
      (dealCmdGet S g env t s).server.store ⟨toInt32 r.header.newExpires, [], false⟩ := by
  let k : Nat × Bytes := (r.header.groupId, r.keyInfo.packFullKey)
  have hfound : ∀ (s : Server σ) (t : FastTaskInfo) (n m : Int),
      (S.get s.store k.1 k.2 n).1.result = 0 →
      Reads S g s.store ⟨toInt32 r.header.newExpires, [k], false⟩
        (getValue S g r m (t.write sizeofHeader (S.get s.store k.1 k.2 n).1.value)
          { s with store := (S.get s.store k.1 k.2 n).2 }).server.store
        ⟨toInt32 r.header.newExpires, [], false⟩ := by
    intro s t n m hv
    obtain ⟨behind, hbehind⟩ := intAt_write_behind t sizeofHeader (S.get s.store k.1 k.2 n).1.value
    rw [getValue_store, FastTaskInfo.bodyInt, Nat.add_zero, hbehind]
    exact reads_found [] behind hv
  unfold dealCmdGet
  rw [hp]
  dsimp only
  split
  · rename_i hv
    exact hfound s t _ _ hv
  rename_i hv
  split
  · rename_i hspc
    have hagain := reads_again (g := g) (toInt32 r.header.newExpires) (k := k) [] hspc
    split
    · exact hagain.trans (reads_skip_all _ _ _)
    · split
      · rename_i hv'
        exact hagain.trans (reads_missed _ [] hv')
      · rename_i hv'
        exact hagain.trans (hfound { s with store := _ } _ _ _ (not_not.mp hv'))
  · exact reads_missed _ [] hv

theorem batchGetValue_store (S : StoreFuncs σ) (g : Globals) (r : BatchRequest) (k : FDHTKeyInfo)
    (n : Int) (b : BatchState σ) : (batchGetValue S g r k n b).server.store =
      refreshedStore S (toInt32 r.header.newExpires) g.currentTime (b.task.intAt b.dest)
        (r.header.groupId, k.packFullKey) b.server.store := by
  rw [(batchGetValue_server S g r k n b).2]
  unfold refreshedStore
  split <;> rfl

theorem batchGetEntry_reads {env : TaskEnv} {r : BatchRequest} {m : Int} {buff : Bytes} {i : Nat}
    {b b' : BatchState σ} {k : FDHTKeyInfo} {src : Nat}
    (hk : batchKey r m buff b.src = some (k, src)) (ks : List (Nat × Bytes)) :
    (batchGetEntry S g env r m buff i b = .ok b' →
      b'.src = src ∧ Reads S g b.server.store
        ⟨toInt32 r.header.newExpires, (r.header.groupId, k.packFullKey) :: ks, false⟩
        b'.server.store ⟨toInt32 r.header.newExpires, ks, false⟩) ∧
    ((∃ c, batchGetEntry S g env r m buff i b = .error (.ret c b')) → Reads S g b.server.store
        ⟨toInt32 r.header.newExpires, (r.header.groupId, k.packFullKey) :: ks, false⟩
        b'.server.store ⟨toInt32 r.header.newExpires, [], false⟩) := by
  have hfound : ∀ (b : BatchState σ) (s : σ) (t : FastTaskInfo) (n m : Int),
      (S.get s r.header.groupId k.packFullKey n).1.result = 0 →
      b.server.store = (S.get s r.header.groupId k.packFullKey n).2 →
      b.task = t.write b.dest (S.get s r.header.groupId k.packFullKey n).1.value →
      Reads S g s ⟨toInt32 r.header.newExpires, (r.header.groupId, k.packFullKey) :: ks, false⟩
        (batchGetValue S g r k m b).server.store ⟨toInt32 r.header.newExpires, ks, false⟩ := by
    intro b s t n m hv hstore htask
    obtain ⟨behind, hbehind⟩ := intAt_write_behind t b.dest
      (S.get s r.header.groupId k.packFullKey n).1.value
    rw [batchGetValue_store, hstore, htask, hbehind]
    exact reads_found ks behind hv
  unfold batchGetEntry
  rw [hk]
  dsimp only
  split
  · exact ⟨fun he => (by cases he), fun ⟨c, he⟩ => by cases he; exact reads_skip_all _ _ _⟩
  split
  · rename_i hv
    refine ⟨fun he => ?_, fun ⟨c, he⟩ => (by cases he)⟩
    cases he
    exact ⟨(batchGetValue_server ..).1, hfound _ _ _ _ _ hv rfl rfl⟩
  rename_i hv
  split
  · rename_i hspc
    have hagain := reads_again (g := g) (toInt32 r.header.newExpires)
      (k := (r.header.groupId, k.packFullKey)) ks hspc
    split
    · refine ⟨fun he => (by cases he), fun ⟨c, he⟩ => ?_⟩
      cases he
      exact hagain.trans (reads_skip_all _ _ _)
    · split
      · rename_i hv'
        refine ⟨fun he => ?_, fun ⟨c, he⟩ => (by cases he)⟩
        cases he
        exact ⟨rfl, hagain.trans (reads_missed _ ks hv')⟩
      · rename_i hv'
        refine ⟨fun he => ?_, fun ⟨c, he⟩ => (by cases he)⟩
        cases he
        exact ⟨(batchGetValue_server ..).1,
          hagain.trans (hfound _ _ _ _ _ (not_not.mp hv') rfl rfl)⟩
  · refine ⟨fun he => ?_, fun ⟨c, he⟩ => (by cases he)⟩
    cases he
    exact ⟨rfl, reads_missed _ ks hv⟩

theorem batchGetEnds_reads {env : TaskEnv} {r : BatchRequest} {m : Int} {buff : Bytes} (n : Nat) :
    ∀ (i : Nat) (b b' : BatchState σ), BatchEnds (batchGetEntry S g env r m buff) n i b b' →
      Reads S g b.server.store
        ⟨toInt32 r.header.newExpires, batchKeysOf r m buff n b.src, false⟩
        b'.server.store ⟨toInt32 r.header.newExpires, [], false⟩ := by
  induction n with
  | zero =>
    rintro i b b' (h | ⟨c, h⟩)
    · cases h
      exact .refl
    · cases h
  | succ n ih =>
    intro i b b' h
    unfold batchKeysOf
    cases hk : batchKey r m buff b.src with
    | none =>
      have hentry : batchGetEntry S g env r m buff i b = .error (.ret EINVAL b) := by
        unfold batchGetEntry
        rw [hk]
      rcases batchEnds_succ h with ⟨c, he⟩ | ⟨b₁, he, -⟩
      · cases hentry.symm.trans he
        exact .refl
      · cases hentry.symm.trans he
    | some e =>
      obtain ⟨k, src⟩ := e
      rcases batchEnds_succ h with herr | ⟨b₁, he, hrest⟩
      · exact (batchGetEntry_reads hk _).2 herr
      · obtain ⟨hsrc, hreads⟩ := (batchGetEntry_reads hk (batchKeysOf r m buff n src)).1 he
        have hih := ih (i + 1) b₁ b' hrest
        rw [hsrc] at hih
        exact hreads.trans hih

theorem dealCmdBatchGet_reads {t : FastTaskInfo} {r : BatchRequest}
    (hp : parseBatchKeys g t = some r) (env : TaskEnv) (s : Server σ) :
    Reads S g s.store ⟨toInt32 r.header.newExpires, r.keys t, false⟩
      (dealCmdBatchGet S g env t s).server.store ⟨toInt32 r.header.newExpires, [], false⟩ := by
  have hends : ∀ b', BatchEnds (batchGetEntry S g env r t.inBodyLen (r.inBuff t)) r.keyCount 0
      (batchKeysStart r t s) b' → Reads S g s.store ⟨toInt32 r.header.newExpires, r.keys t, false⟩
        b'.server.store ⟨toInt32 r.header.newExpires, [], false⟩ :=
    fun b' h => batchGetEnds_reads r.keyCount 0 _ b' h
  unfold dealCmdBatchGet
  rcases dealCmdBatchKeys_cases (g := g) t s
      (fun r inBuff => batchGetEntry S g env r t.inBodyLen inBuff)
      (fun _ b => ⟨0, b.task.write expiresOffset (int2buff b.minExpires), b.server⟩) with
    ⟨hnone, -⟩ | ⟨r', hr, hend⟩
  · cases hnone.symm.trans hp
  · cases hp.symm.trans hr
    rcases hend with ⟨c, b, hl, heq⟩ | ⟨hcrash, -⟩ | ⟨b, hl, heq⟩
    · rw [heq]
      exact hends b (.inr ⟨c, hl⟩)
    · exact absurd hcrash (batchLoop_ne_crash (fun i b => batchGetEntry_ne_crash env r _ _ i b) _ _ _)
    · rw [heq]
      have hb := hends b (.inl hl)
      exact batchReply_server (P := fun s' => Reads S g s.store _ s'.store _) hb hb

/-- **A reader alone.** A GET or BATCH_GET that passes its checks is a run from
and to a store without requests in progress. -/
theorem dealCmd_readers_run {t : FastTaskInfo} {r : Reader} (hr : readRequest g t = some r)
    (env : TaskEnv) (s : Server σ) :
    ∃ reply, dealCmd S g env t s t.cmd = some reply ∧
      Runs (Readers.step S g) (fun _ _ => True) ⟨s.store, []⟩ ⟨reply.server.store, []⟩ := by
  have hwhole : ∀ {e : Int} {store : σ}, r.expires = e →
      Reads S g s.store r store ⟨e, [], false⟩ →
      Runs (Readers.step S g) (fun _ _ => True) ⟨s.store, []⟩ ⟨store, []⟩ := by
    intro e store he hreads
    have hstart : Readers.step S g ⟨s.store, []⟩ (.start g.currentTime t) =
        some ⟨s.store, [r]⟩ := by
      have hg : g.at g.currentTime = g := rfl
      simp [Readers.step, hg, hr]
    exact .head ⟨_, trivial, hstart⟩ (hreads.tail ⟨.finish 0, trivial, rfl⟩)
  unfold readRequest at hr
  split at hr
  · rename_i hcmd
    obtain ⟨k, hp, rfl⟩ := Option.map_eq_some_iff.mp hr
    rw [hcmd]
    exact ⟨_, rfl, hwhole rfl (dealCmdGet_reads hp env s)⟩
  · rename_i hcmd
    obtain ⟨b, hp, rfl⟩ := Option.map_eq_some_iff.mp hr
    rw [hcmd]
    exact ⟨_, rfl, hwhole rfl (dealCmdBatchGet_reads hp env s)⟩
  · cases hr

end Alone

/-! ## Deleted keys -/

/-- A store in which lookups, deletes and the refreshing of a key that is there
create nothing. -/
structure ReadStore (σ κ : Type) extends StoreFuncs σ where
  slot : Nat → Bytes → κ
  lookup : σ → κ → Option Bytes
  Good : σ → Prop
  get_good : ∀ {s} g k n, Good s → Good (get s g k n).2 ∧ lookup (get s g k n).2 = lookup s
  delete_good : ∀ {s} g k, Good s → Good (delete s g k).2 ∧
    (∀ j, lookup s j = none → lookup (delete s g k).2 j = none) ∧
    ((delete s g k).1 = 0 → lookup (delete s g k).2 (slot g k) = none)
  refresh_good : ∀ {s} g k e, Good s → (lookup s (slot g k)).isSome →
    Good (partialSet s g k (int2buff e) 0).2 ∧
    ∀ j, lookup s j = none → lookup (partialSet s g k (int2buff e) 0).2 j = none

/-- Berkeley DB, whose calls may fail. -/
def bdbReads : ReadStore Bdb (Nat × Bytes) where
  toStoreFuncs := bdbFuncs
  slot := fun g k => (g, k)
  lookup := Bdb.data
  Good := fun _ => True
  get_good := fun _ _ _ _ => ⟨trivial, rfl⟩
  delete_good := by
    intro db g k _
    obtain ⟨-, hdel⟩ := bdbStore.run_exact (s := db) g k .delete trivial rfl
    refine ⟨trivial, fun j hj => ?_, fun h0 => ?_⟩
    · refine (congrFun hdel j).trans ?_
      split
      · refine (Function.update_apply ..).trans ?_
        rw [show bdbStore.lookup db j = none from hj]
        exact ite_self _
      · exact hj
    · exact (congrFun (hdel.trans (if_pos h0)) (g, k)).trans (Function.update_self ..)
  refresh_good := by
    intro db g k e _ hsome
    obtain ⟨-, hset⟩ := bdbStore.run_exact (s := db) g k (.partialSet (int2buff e) 0) trivial rfl
    refine ⟨trivial, fun j hj => ?_⟩
    have hne : j ≠ (g, k) := by
      rintro rfl
      rw [hj] at hsome
      cases hsome
    refine (congrFun hset j).trans ?_
    split
    · exact (Function.update_of_ne hne ..).trans hj
    · exact hj

/-- The memory pool, whatever the allocator answers and however full the table is. A refresh that
is refused loses the key. -/
def mpoolReads : ReadStore Mpool Bytes where
  toStoreFuncs := mpoolFuncs
  slot := fun _ k => k
  lookup := fun p => p.hashArray.view
  Good := fun p => p.hashArray.Bounded
  get_good := fun _ _ _ hb => ⟨hb, rfl⟩
  delete_good := by
    intro p g k hb
    obtain ⟨-, hview, hcode⟩ := hb.inv.hashDelete k
    refine ⟨hb.run allocates (.delete k), fun j hj => ?_, fun _ => ?_⟩
    · refine (hview j).trans ?_
      rw [hj, ite_self]
    · exact (hview k).trans (if_pos rfl)
  refresh_good := by
    intro p g k e hb hsome
    have hb' := hb.run ((p.call p.calls).mem 0) (.partialSet k (int2buff e) 0)
    refine ⟨hb', fun j hj => ?_⟩
    have hne : j ≠ k := by
      rintro rfl
      rw [hj] at hsome
      cases hsome
    rcases hashPartialSet_cases ((p.call p.calls).mem 0) hb.inv k (int2buff e) 0 with
      ⟨-, -, -, hview⟩ | ⟨-, -, hsame⟩ | ⟨-, -, hdone⟩
    · exact (hview j).trans ((if_neg hne).trans hj)
    · exact (congrArg (fun h => h.view j) hsame).trans hj
    · exact ((hdone hb'.capacity).2 j).trans ((if_neg hne).trans hj)

section Deleted

variable {κ : Type} {R : ReadStore σ κ} {g : Globals}

/-- A key is refreshed only while it is in the store. -/
def Readers.RefreshesPresent (R : ReadStore σ κ) (ws : Readers σ) : ReadEvent → Prop
  | .refresh i => ∀ r ∈ ws.readers[i]?, ∀ k ∈ r.keys.head?,
      (R.lookup ws.store (R.slot k.1 k.2)).isSome = true
  | _ => True

instance (R : ReadStore σ κ) (ws : Readers σ) (e : ReadEvent) :
    Decidable (ws.RefreshesPresent R e) := by
  cases e <;> unfold Readers.RefreshesPresent <;> infer_instance

/-- No step of readers and deletes creates a key. -/
theorem Readers.step_absent {ws ws' : Readers σ} {e : ReadEvent} (hgood : R.Good ws.store)
    (hok : ws.RefreshesPresent R e) (hstep : ws.step R.toStoreFuncs g e = some ws') :
    R.Good ws'.store ∧ ∀ j, R.lookup ws.store j = none → R.lookup ws'.store j = none := by
  cases e with
  | start now t =>
    obtain ⟨r, -, rfl⟩ := Option.map_eq_some_iff.mp hstep
    exact ⟨hgood, fun _ h => h⟩
  | get now i size behind =>
    obtain ⟨r, -, hstep⟩ := Option.bind_eq_some_iff.mp hstep
    obtain ⟨k, -, hstep⟩ := Option.bind_eq_some_iff.mp hstep
    split at hstep
    · cases hstep
    · cases hstep
      obtain ⟨hgood', hl⟩ := R.get_good k.1 k.2 size hgood
      exact ⟨hgood', fun j hj => by rw [hl, hj]⟩
  | refresh i =>
    obtain ⟨r, hr, hstep⟩ := Option.bind_eq_some_iff.mp hstep
    obtain ⟨k, hk, hstep⟩ := Option.bind_eq_some_iff.mp hstep
    split at hstep
    · cases hstep
      exact R.refresh_good k.1 k.2 r.expires hgood (hok r hr k hk)
    · cases hstep
  | skip i =>
    obtain ⟨r, -, hstep⟩ := Option.bind_eq_some_iff.mp hstep
    split at hstep
    · cases hstep
    · cases hstep
      exact ⟨hgood, fun _ h => h⟩
  | finish i =>
    obtain ⟨r, -, hstep⟩ := Option.bind_eq_some_iff.mp hstep
    split at hstep
    · cases hstep
      exact ⟨hgood, fun _ h => h⟩
    · cases hstep
  | del now t =>
    obtain ⟨r, -, rfl⟩ := Option.map_eq_some_iff.mp hstep
    obtain ⟨hgood', hkeeps, -⟩ := R.delete_good r.header.groupId r.keyInfo.packFullKey hgood
    exact ⟨hgood', hkeeps⟩

/-- **A read resurrects no key that it finds.** After a DEL that succeeds, with
any readers in progress, the key stays absent in every run of readers and
further DEL requests that refreshes only keys that are in the store. -/
theorem deleted_key_stays_absent (R : ReadStore σ κ) (g : Globals) (ws ws₁ ws₂ : Readers σ)
    (hgood : R.Good ws.store) (now : Int) (t : FastTaskInfo) (r : KeyRequest)
    (hreq : parseExact (g.at now) 12 true t = some r)
    (hok : (R.delete ws.store r.header.groupId r.keyInfo.packFullKey).1 = 0)
    (hdel : ws.step R.toStoreFuncs g (.del now t) = some ws₁)
    (hrun : Runs (Readers.step R.toStoreFuncs g) (Readers.RefreshesPresent R) ws₁ ws₂) :
    R.lookup ws₂.store (R.slot r.header.groupId r.keyInfo.packFullKey) = none := by
  have hstore : ws₁.store = (R.delete ws.store r.header.groupId r.keyInfo.packFullKey).2 := by
    simp only [Readers.step, hreq, Option.map_some, Option.some.injEq] at hdel
    rw [← hdel]
  obtain ⟨hgood₁, -, habsent⟩ := R.delete_good r.header.groupId r.keyInfo.packFullKey hgood
  rw [← hstore] at hgood₁ habsent
  have hinv := hrun.invariant (I := fun ws => R.Good ws.store ∧
      R.lookup ws.store (R.slot r.header.groupId r.keyInfo.packFullKey) = none)
    ⟨hgood₁, habsent hok⟩ fun ws e ws' h hpresent hstep =>
      (Readers.step_absent h.1 hpresent hstep).imp_right fun hkeeps => hkeeps _ h.2
  exact hinv.2

end Deleted

/-- DEL of the key `a`. -/
def deleteRequest : FastTaskInfo :=
  request .del 0 0 (int2buff 0 ++ int2buff 0 ++ int2buff 1 ++ [97])

theorem dealCmd_readers_run_refresh :
    ∃ reply, dealCmd bdbFuncs oneGroup quietEnv refreshRequest oneKeyServer
        refreshRequest.cmd = some reply ∧
      Runs (Readers.step bdbFuncs oneGroup) (fun _ _ => True) ⟨oneKeyServer.store, []⟩
        ⟨reply.server.store, []⟩ :=
  dealCmd_readers_run rfl quietEnv oneKeyServer

/-- The memory pool with the key `a`. -/
def oneKeyPool : Mpool :=
  { emptyMpool with hashArray := (hashInsertEx allocates cachedTable [1, 1, 97] [0, 0, 0, 0, 120]).2 }

theorem deleteRequest_key : ∃ r, parseExact (oneGroup.at 1000) 12 true deleteRequest = some r ∧
    r.header.groupId = 0 ∧ r.keyInfo.packFullKey = [1, 1, 97] := by
  have hparse : (parseExact (oneGroup.at 1000) 12 true deleteRequest).map (fun r =>
      (r.header.groupId, r.keyInfo.packFullKey)) = some (0, [1, 1, 97]) := by decide +kernel
  obtain ⟨r, hreq, hkey⟩ := Option.map_eq_some_iff.mp hparse
  exact ⟨r, hreq, Prod.mk.inj hkey⟩

/-- Before the DEL a GET refreshes the key, after it a GET finds nothing to refresh. -/
theorem deleted_key_stays_absent_get :
    (∃ ws ws₁ ws₂, exec (Readers.step bdbReads.toStoreFuncs oneGroup) (fun _ _ => True)
        [.start 1000 refreshRequest, .get 1000 0 100 [], .refresh 0, .finish 0]
        ⟨oneKeyServer.store, []⟩ = some ws ∧
      ws.step bdbReads.toStoreFuncs oneGroup (.del 1000 deleteRequest) = some ws₁ ∧
      exec (Readers.step bdbReads.toStoreFuncs oneGroup) (Readers.RefreshesPresent bdbReads)
        [.start 1000 refreshRequest, .get 1000 0 100 [], .finish 0] ws₁ = some ws₂ ∧
      ws₂.store.data (0, [1, 1, 97]) = none) ∧
    ∃ ws₁ ws₂, Readers.step mpoolReads.toStoreFuncs oneGroup ⟨oneKeyPool, []⟩
        (.del 1000 deleteRequest) = some ws₁ ∧
      exec (Readers.step mpoolReads.toStoreFuncs oneGroup) (Readers.RefreshesPresent mpoolReads)
        [.start 1000 refreshRequest, .get 1000 0 100 [], .finish 0] ws₁ = some ws₂ ∧
      ws₂.store.hashArray.view [1, 1, 97] = none := by
  obtain ⟨r, hreq, hgroup, hfull⟩ := deleteRequest_key
  constructor
  · have hcheck : ((exec (Readers.step bdbReads.toStoreFuncs oneGroup) (fun _ _ => True)
        [.start 1000 refreshRequest, .get 1000 0 100 [], .refresh 0, .finish 0]
        ⟨oneKeyServer.store, []⟩).bind fun ws =>
        (ws.step bdbReads.toStoreFuncs oneGroup (.del 1000 deleteRequest)).bind fun ws₁ =>
        (exec (Readers.step bdbReads.toStoreFuncs oneGroup) (Readers.RefreshesPresent bdbReads)
          [.start 1000 refreshRequest, .get 1000 0 100 [], .finish 0] ws₁).map fun _ =>
          (dbDelete ws.store 0 [1, 1, 97]).1) = some 0 := by decide +kernel
    obtain ⟨ws, hbefore, hrest⟩ := Option.bind_eq_some_iff.mp hcheck
    obtain ⟨ws₁, hdel, hrest⟩ := Option.bind_eq_some_iff.mp hrest
    obtain ⟨ws₂, hexec, hok⟩ := Option.map_eq_some_iff.mp hrest
    have habsent := deleted_key_stays_absent bdbReads oneGroup ws ws₁ ws₂ trivial 1000 deleteRequest
      r hreq (by rw [hgroup, hfull]; exact hok) hdel (.of_exec hexec)
    rw [hgroup, hfull] at habsent
    exact ⟨ws, ws₁, ws₂, hbefore, hdel, hexec, habsent⟩
  · have hcheck : ((Readers.step mpoolReads.toStoreFuncs oneGroup ⟨oneKeyPool, []⟩
        (.del 1000 deleteRequest)).bind fun ws₁ =>
        exec (Readers.step mpoolReads.toStoreFuncs oneGroup) (Readers.RefreshesPresent mpoolReads)
          [.start 1000 refreshRequest, .get 1000 0 100 [], .finish 0] ws₁).isSome = true := by
      decide +kernel
    obtain ⟨ws₂, hboth⟩ := Option.isSome_iff_exists.mp hcheck
    obtain ⟨ws₁, hdel, hexec⟩ := Option.bind_eq_some_iff.mp hboth
    have habsent := deleted_key_stays_absent mpoolReads oneGroup ⟨oneKeyPool, []⟩ ws₁ ws₂
      (cachedTable_bounded.run allocates (.insertEx _ _)) 1000 deleteRequest r hreq
      (by rw [hgroup, hfull]; decide +kernel) hdel (.of_exec hexec)
    rw [hfull] at habsent
    exact ⟨ws₁, ws₂, hdel, hexec, habsent⟩

/-- A GET has found the key when the DEL removes it; the partial set of the GET
inserts it again, as four bytes without a value. -/
theorem read_resurrects_key :
    ¬ ∀ (g : Globals) (s : Bdb) (ws ws₁ ws₂ : Readers Bdb) (now : Int) (t : FastTaskInfo)
      (r : KeyRequest), Runs (Readers.step bdbFuncs g) (fun _ _ => True) ⟨s, []⟩ ws →
      parseExact (g.at now) 12 true t = some r →
      (dbDelete ws.store r.header.groupId r.keyInfo.packFullKey).1 = 0 →
      ws.step bdbFuncs g (.del now t) = some ws₁ →
      Runs (Readers.step bdbFuncs g) (fun _ _ => True) ws₁ ws₂ → ws₂.readers = [] →
      ws₂.store.data (r.header.groupId, r.keyInfo.packFullKey) = none := by
  intro hall
  have hcheck : ((exec (Readers.step bdbFuncs oneGroup) (fun _ _ => True)
      [.start 1000 refreshRequest, .get 1000 0 100 []] ⟨oneKeyServer.store, []⟩).bind fun ws =>
      (ws.step bdbFuncs oneGroup (.del 1000 deleteRequest)).bind fun ws₁ =>
      (exec (Readers.step bdbFuncs oneGroup) (fun _ _ => True)
        [.refresh 0, .finish 0] ws₁).map fun ws₂ =>
        ((dbDelete ws.store 0 [1, 1, 97]).1, ws₂.readers.length, ws₂.store.data (0, [1, 1, 97]))) =
      some (0, 0, some [0, 0, 7, 208]) := by decide +kernel
  obtain ⟨ws, hbefore, hrest⟩ := Option.bind_eq_some_iff.mp hcheck
  obtain ⟨ws₁, hdel, hrest⟩ := Option.bind_eq_some_iff.mp hrest
  obtain ⟨ws₂, hafter, heq⟩ := Option.map_eq_some_iff.mp hrest
  obtain ⟨hok, heq⟩ := Prod.mk.inj heq
  obtain ⟨hidle, hvalue⟩ := Prod.mk.inj heq
  obtain ⟨r, hreq, hgroup, hfull⟩ := deleteRequest_key
  have habsent := hall oneGroup oneKeyServer.store ws ws₁ ws₂ 1000 deleteRequest r
    (.of_exec hbefore) hreq (by rw [hgroup, hfull]; exact hok) hdel (.of_exec hafter)
    (List.length_eq_zero_iff.mp hidle)
  rw [hgroup, hfull, hvalue] at habsent
  cases habsent

end FastDht
