import FastDht.Common.HashNodes
import FastDht.Server.LoggedRecords

/-! # What a rejected request has done

A handler of a single key checks the whole request before its store call, so a
request it answers with EINVAL has done nothing. The batch handlers check and
apply entry by entry: what comes before the entry they reject stays applied.
The conditions below say, from the request and the store before it, when that
makes no difference. -/
namespace FastDht
open Lib Relation

variable {σ : Type} {S : StoreFuncs σ} {g : Globals} {t : FastTaskInfo}
variable {env : TaskEnv} {n : Nat} {buff : Bytes}

/-! ## Single keys -/

/-- The store has no EINVAL of its own to answer. A partial set may: nobody
returns its status. -/
structure StoreFuncs.NoEinval (S : StoreFuncs σ) : Prop where
  get : ∀ s g k n, (S.get s g k n).1.result ≠ EINVAL
  set : ∀ s g k v, (S.set s g k v).1 ≠ EINVAL
  delete : ∀ s g k, (S.delete s g k).1 ≠ EINVAL
  incEx : ∀ s g k inc n e now, (S.incEx s g k inc n e now).1 ≠ EINVAL

theorem dbDoGet_noEinval (db : Bdb) (g : Nat) (k : Bytes) (n : Int) :
    (dbDoGet db g k n).result ≠ EINVAL := by
  unfold dbDoGet
  split
  · exact (by decide : EFAULT ≠ EINVAL)
  · cases db.data (g, k) with
    | none => exact (by decide : ENOENT ≠ EINVAL)
    | some v =>
      dsimp only
      split
      · exact (by decide : ENOSPC ≠ EINVAL)
      · exact (by decide : (0 : Int) ≠ EINVAL)

theorem bdbFuncs_noEinval : bdbFuncs.NoEinval where
  get := fun db g k n => dbDoGet_noEinval db g k n
  set := by
    intro db g k v
    show (dbSet db g k v).1 ≠ EINVAL
    unfold dbSet
    split
    · exact (by decide : EFAULT ≠ EINVAL)
    · exact (by decide : (0 : Int) ≠ EINVAL)
  delete := by
    intro db g k
    show (dbDelete db g k).1 ≠ EINVAL
    unfold dbDelete
    split
    · exact (by decide : EFAULT ≠ EINVAL)
    · cases db.data (g, k) with
      | none => exact (by decide : ENOENT ≠ EINVAL)
      | some v => exact (by decide : (0 : Int) ≠ EINVAL)
  incEx := by
    intro db g k inc n e now
    show (dbIncEx db g k inc n e now).1 ≠ EINVAL
    unfold dbIncEx
    dsimp only
    split
    · exact dbDoGet_noEinval db g k n
    split
    · exact (by decide : EFAULT ≠ EINVAL)
    · exact (by decide : (0 : Int) ≠ EINVAL)

/-- A failed insertion is out of memory or out of space. -/
theorem hashInsertEx_noEinval (mem : Malloc) (h : HashArray) (key value : Bytes) :
    -(hashInsertEx mem h key value).1 ≠ EINVAL := by
  have hlink : ∀ used, -(linkNode mem h.maxBytes used key value).status ≠ EINVAL := by
    intro used
    unfold linkNode
    dsimp only
    split_ifs <;> simp [EINVAL, ENOMEM, ENOSPC]
  rw [hashInsertEx_status]
  unfold insertOnNode
  split
  · split
    · exact (by decide : -(0 : Int) ≠ EINVAL)
    · exact hlink _
  · exact hlink _

theorem mpDoSet_noEinval (c : MpCall) (key value : Bytes) :
    ∀ (n i : Nat) (result : Int) (p : Mpool), result ≠ EINVAL →
      (mpDoSet c key value n i result p).1 ≠ EINVAL
  | 0, _, _, _, h => h
  | n + 1, i, _, p, _ => by
    have hins := hashInsertEx_noEinval (c.mem i) p.hashArray key value
    unfold mpDoSet
    dsimp only
    split_ifs
    · exact mpDoSet_noEinval c key value n _ _ _ hins
    · exact hins
    · exact hins
    · exact (by decide : (0 : Int) ≠ EINVAL)

theorem mpoolFuncs_noEinval : mpoolFuncs.NoEinval where
  get := by
    intro p g k n
    change (mpGet p g k n).1.result ≠ EINVAL
    unfold mpGet
    cases hashFindEx p.hashArray k with
    | none => exact (by decide : ENOENT ≠ EINVAL)
    | some d =>
      dsimp only
      split
      · exact (by decide : ENOSPC ≠ EINVAL)
      · exact (by decide : (0 : Int) ≠ EINVAL)
  set := fun p g k v => mpDoSet_noEinval _ k v 2 0 0 _ (by decide)
  delete := by
    intro p g k
    change (hashDelete p.hashArray k).1 ≠ EINVAL
    unfold hashDelete
    split
    · exact (by decide : (0 : Int) ≠ EINVAL)
    · exact (by decide : ENOENT ≠ EINVAL)
  incEx := by
    intro p g k inc n e now
    change (mpIncEx p g k inc n e now).1 ≠ EINVAL
    unfold mpIncEx hashIncEx
    dsimp only
    split_ifs
    · exact (by decide : (0 : Int) ≠ EINVAL)
    · exact hashInsertEx_noEinval _ _ _ _
    · exact (by decide : (0 : Int) ≠ EINVAL)

theorem dealCmdGet_rejected (hS : S.NoEinval) {s : Server σ}
    (h : (dealCmdGet S g env t s).status = EINVAL) : (dealCmdGet S g env t s).server = s := by
  have hvalue : ∀ r n t' s', (getValue S g r n t' s').status ≠ EINVAL := by
    intro r n t' s'
    unfold getValue
    split
    · exact (by decide : ENOENT ≠ EINVAL)
    split
    · exact (by decide : (0 : Int) ≠ EINVAL)
    · exact (by decide : (0 : Int) ≠ EINVAL)
  unfold dealCmdGet at h ⊢
  cases hp : parseExact g 12 true t with
  | none => rfl
  | some r =>
    rw [hp] at h
    dsimp only at h
    exfalso
    split at h
    · exact hvalue _ _ _ _ h
    split at h
    · split at h
      · exact absurd h (by decide : ENOMEM ≠ EINVAL)
      split at h
      · exact hS.get _ _ _ _ h
      · exact hvalue _ _ _ _ h
    · exact hS.get _ _ _ _ h

theorem dealCmdSet_rejected (hS : S.NoEinval) {op : OpType} {s : Server σ}
    (h : (dealCmdSet S g op t s).status = EINVAL) : (dealCmdSet S g op t s).server = s := by
  cases hp : parseSet g (op = .sourceSet) t with
  | none =>
    rw [dealCmdSet_reject hp]
    rfl
  | some e =>
    rw [(dealCmdSet_eq hp s).1] at h
    exact absurd h (hS.set _ _ _ _)

theorem dealCmdDel_rejected (hS : S.NoEinval) {op : OpType} {s : Server σ}
    (h : (dealCmdDel S g op t s).status = EINVAL) : (dealCmdDel S g op t s).server = s := by
  cases hp : parseExact g 12 (op = .sourceDel) t with
  | none =>
    rw [dealCmdDel_reject hp]
    rfl
  | some r =>
    rw [(dealCmdDel_eq hp s).1] at h
    exact absurd h (hS.delete _ _ _)

theorem dealCmdInc_rejected (hS : S.NoEinval) {s : Server σ}
    (h : (dealCmdInc S g t s).status = EINVAL) : (dealCmdInc S g t s).server = s := by
  cases hp : parseExact g 16 true t with
  | none =>
    rw [dealCmdInc_reject hp]
    rfl
  | some r =>
    rw [(dealCmdInc_eq hp s).1] at h
    exact absurd h (hS.incEx _ _ _ _ _ _ _)

theorem keyGet_rejected (hS : S.NoEinval) {grp : Nat} {k : FDHTKeyInfo} {n : Int} {s : Server σ}
    (h : (keyGet S g grp k n s).1.result = EINVAL) : (keyGet S g grp k n s).2 = s := by
  unfold keyGet at h ⊢
  split
  · rfl
  rename_i hsub
  rw [if_neg hsub] at h
  split
  · rfl
  rename_i hobj
  rw [if_neg hobj] at h
  dsimp only at h
  exfalso
  split at h
  · exact hS.get _ _ _ _ h
  · dsimp only at h
    split at h <;> exact absurd h (by decide)

theorem dealCmdGetSubKeys_rejected (hS : S.NoEinval) {s : Server σ}
    (h : (dealCmdGetSubKeys S g t s).status = EINVAL) :
    (dealCmdGetSubKeys S g t s).server = s := by
  unfold dealCmdGetSubKeys at h ⊢
  split
  · rfl
  rename_i header hg
  rw [hg] at h
  split
  · rfl
  rename_i k hk
  rw [hk] at h
  dsimp only at h ⊢
  split
  · rfl
  rename_i hlen
  rw [if_neg hlen] at h
  split at h
  · exact absurd h (by decide : (0 : Int) ≠ EINVAL)
  · rename_i hne
    rw [if_neg hne]
    exact keyGet_rejected hS h

/-- The commands that handle several keys. -/
def FastTaskInfo.isBatch (t : FastTaskInfo) : Bool :=
  [ProtoCmd.batchSet, .batchGet, .batchDel].any fun c => t.cmd = some c

theorem dealCmd_rejected (hS : S.NoEinval) {s : Server σ} {reply : Reply σ}
    (h : dealCmd S g env t s t.cmd = some reply) (hst : reply.status = EINVAL)
    (hb : t.isBatch = false) :
    reply.server.store = s.store ∧ reply.server.binlog = s.binlog := by
  have hsame : reply.server = s → reply.server.store = s.store ∧ reply.server.binlog = s.binlog :=
    fun hs => by rw [hs]; exact ⟨rfl, rfl⟩
  unfold dealCmd at h
  split at h
  case h_1 => cases h; exact hsame (dealCmdGet_rejected hS hst)
  case h_2 => cases h; exact hsame (dealCmdSet_rejected hS hst)
  case h_3 => cases h; exact hsame (dealCmdSet_rejected hS hst)
  case h_4 => cases h; exact hsame (dealCmdInc_rejected hS hst)
  case h_5 => cases h; exact hsame (dealCmdDel_rejected hS hst)
  case h_6 => cases h; exact hsame (dealCmdDel_rejected hS hst)
  case h_7 => cases h; exact ⟨rfl, rfl⟩
  case h_8 hcmd => simp [FastTaskInfo.isBatch, hcmd] at hb
  case h_9 hcmd => simp [FastTaskInfo.isBatch, hcmd] at hb
  case h_10 hcmd => simp [FastTaskInfo.isBatch, hcmd] at hb
  case h_11 => cases h; exact ⟨rfl, rfl⟩
  case h_12 => cases h; exact ⟨rfl, rfl⟩
  case h_13 =>
    cases h
    unfold dealCmdStat
    split
    · exact ⟨rfl, rfl⟩
    split <;> exact ⟨rfl, rfl⟩
  case h_14 => cases h; exact hsame (dealCmdGetSubKeys_rejected hS hst)
  case h_15 => cases h; exact ⟨rfl, rfl⟩

/-! ## How a batch is rejected -/

/-- A batch loop comes to its end, or to an entry that it rejects. -/
def BatchRejects (entry : Nat → BatchState σ → Except (Stop σ) (BatchState σ)) (n i : Nat)
    (b b' : BatchState σ) : Prop :=
  batchLoop entry n i b = .ok b' ∨ batchLoop entry n i b = .error (.ret EINVAL b')

theorem batchRejects_succ {entry : Nat → BatchState σ → Except (Stop σ) (BatchState σ)} {i : Nat}
    {b b' : BatchState σ} (h : BatchRejects entry (n + 1) i b b') :
    entry i b = .error (.ret EINVAL b') ∨
      ∃ b₁, entry i b = .ok b₁ ∧ BatchRejects entry n (i + 1) b₁ b' := by
  unfold BatchRejects batchLoop at h
  cases he : entry i b with
  | error e =>
    rw [he] at h
    exact .inl (h.resolve_left fun hcrash => by cases hcrash)
  | ok b₁ =>
    rw [he] at h
    exact .inr ⟨b₁, rfl, h⟩

theorem batchReply_rejected {consumed : Bool} {finish : BatchState σ → Reply σ} {b : BatchState σ}
    (hfinish : (finish b).status = 0) (h : (batchReply consumed finish b).status = EINVAL) :
    (batchReply consumed finish b).server = b.server := by
  unfold batchReply at h ⊢
  split
  · rfl
  rename_i hc
  rw [if_neg hc] at h
  split
  · rename_i hs
    rw [if_pos hs] at h
    exact absurd (hfinish.symm.trans h) (by decide)
  · rfl

theorem dealCmdBatchSet_rejected {r : BatchRequest} (hp : parseBatchRequest g 20 t = some r)
    {s : Server σ} {reply : Reply σ} (h : dealCmdBatchSet S g t s = some reply)
    (hst : reply.status = EINVAL) :
    ∃ b', BatchRejects (fun _ => batchSetEntry S g r t.inBodyLen) r.keyCount 0
      (batchSetStart r t s) b' ∧ reply.server = b'.server := by
  rcases dealCmdBatchSet_cases h with ⟨hno, -⟩ | ⟨r', hp', hend⟩
  · rw [hp] at hno
    cases hno
  obtain rfl : r = r' := Option.some.inj (hp.symm.trans hp')
  rcases hend with ⟨c, b, hl, rfl⟩ | ⟨b, hl, rfl⟩
  · obtain rfl : c = EINVAL := hst
    exact ⟨b, .inr hl, rfl⟩
  · exact ⟨b, .inl hl, batchReply_rejected rfl hst⟩

theorem dealCmdBatchKeys_rejected {r : BatchRequest} (hp : parseBatchKeys g t = some r)
    {s : Server σ}
    {entry : BatchRequest → Bytes → Nat → BatchState σ → Except (Stop σ) (BatchState σ)}
    {finish : BatchRequest → BatchState σ → Reply σ} (hfinish : ∀ b, (finish r b).status = 0)
    (hcrash : ∀ i b, entry r (r.inBuff t) i b ≠ .error .crash)
    (hst : (dealCmdBatchKeys g t s entry finish).status = EINVAL) :
    ∃ b', BatchRejects (entry r (r.inBuff t)) r.keyCount 0 (batchKeysStart r t s) b' ∧
      (dealCmdBatchKeys g t s entry finish).server = b'.server := by
  rcases dealCmdBatchKeys_cases t s entry finish with ⟨hno, -⟩ | ⟨r', hp', hend⟩
  · rw [hp] at hno
    cases hno
  obtain rfl : r = r' := Option.some.inj (hp.symm.trans hp')
  rcases hend with ⟨c, b, hl, heq⟩ | ⟨hl, -⟩ | ⟨b, hl, heq⟩
  · rw [heq] at hst ⊢
    obtain rfl : c = EINVAL := hst
    exact ⟨b, .inr hl, rfl⟩
  · exact absurd hl (batchLoop_ne_crash hcrash _ _ _)
  · rw [heq] at hst ⊢
    exact ⟨b, .inl hl, batchReply_rejected (hfinish b) hst⟩

theorem batchDelEntry_ne_crash (r : BatchRequest) (m : Int) (buff : Bytes) (b : BatchState σ) :
    batchDelEntry S g r m buff b ≠ .error .crash := by
  intro he
  rcases batchDelEntry_cases S g r m buff b with ⟨-, h⟩ | ⟨_, _, h, -⟩
  · cases he.symm.trans h
  · cases he.symm.trans h

/-! ## A batch whose first entry is rejected -/

/-- A batch that is rejected before its first store call: its common part or
its first entry is malformed. -/
def FastTaskInfo.rejectsFirst (g : Globals) (t : FastTaskInfo) : Bool :=
  if t.cmd = some .batchSet then
    (parseBatchRequest g 20 t).all fun r =>
      (batchSetHead r t.inBodyLen t (sizeofHeader + r.commonFiledsLen)).isNone
  else (parseBatchKeys g t).all fun r => (batchKey r t.inBodyLen (r.inBuff t) 0).isNone

theorem batchRejects_first {entry : Nat → BatchState σ → Except (Stop σ) (BatchState σ)}
    (hn : 0 < n) {b b' : BatchState σ} (he : entry 0 b = .error (.ret EINVAL b))
    (h : BatchRejects entry n 0 b b') : b' = b := by
  obtain ⟨m, rfl⟩ := Nat.exists_eq_add_one_of_ne_zero hn.ne'
  rcases batchRejects_succ h with h | ⟨b₁, h, -⟩
  · cases he.symm.trans h
    rfl
  · cases he.symm.trans h

theorem dealCmdBatchSet_rejectsFirst (hcmd : t.cmd = some .batchSet) {s : Server σ}
    {reply : Reply σ} (h : dealCmdBatchSet S g t s = some reply) (hst : reply.status = EINVAL)
    (hfirst : t.rejectsFirst g = true) : reply.server = s := by
  cases hp : parseBatchRequest g 20 t with
  | none =>
    rcases dealCmdBatchSet_cases h with ⟨-, rfl⟩ | ⟨r, hp', -⟩
    · rfl
    · rw [hp] at hp'
      cases hp'
  | some r =>
    have hhead : batchSetHead r t.inBodyLen t (sizeofHeader + r.commonFiledsLen) = none := by
      simpa [FastTaskInfo.rejectsFirst, hcmd, hp] using hfirst
    obtain ⟨b', hrej, hserver⟩ := dealCmdBatchSet_rejected hp h hst
    have hstart : batchSetHead r t.inBodyLen (batchSetStart r t s).task (batchSetStart r t s).src =
        none := hhead ▸ batchSetHead_congr fun i hi => batchSetStart_frame r t s hi
    have hentry : batchSetEntry S g r t.inBodyLen (batchSetStart r t s) =
        .error (.ret EINVAL (batchSetStart r t s)) := by
      unfold batchSetEntry
      rw [hstart]
    rw [hserver, batchRejects_first (parseBatchRequest_keyCount hp).1 hentry hrej]
    rfl

theorem dealCmdBatchKeys_rejectsFirst (hcmd : t.cmd ≠ some .batchSet) {s : Server σ}
    {entry : BatchRequest → Bytes → Nat → BatchState σ → Except (Stop σ) (BatchState σ)}
    {finish : BatchRequest → BatchState σ → Reply σ} (hfinish : ∀ r b, (finish r b).status = 0)
    (hcrash : ∀ r i b, entry r (r.inBuff t) i b ≠ .error .crash)
    (hentry : ∀ r i b, batchKey r t.inBodyLen (r.inBuff t) b.src = none →
      entry r (r.inBuff t) i b = .error (.ret EINVAL b))
    (hst : (dealCmdBatchKeys g t s entry finish).status = EINVAL)
    (hfirst : t.rejectsFirst g = true) : (dealCmdBatchKeys g t s entry finish).server = s := by
  cases hp : parseBatchKeys g t with
  | none =>
    unfold dealCmdBatchKeys
    rw [hp]
    rfl
  | some r =>
    have hkey : batchKey r t.inBodyLen (r.inBuff t) 0 = none := by
      simpa [FastTaskInfo.rejectsFirst, hcmd, hp] using hfirst
    obtain ⟨b', hrej, hserver⟩ := dealCmdBatchKeys_rejected hp (hfinish r) (hcrash r) hst
    have hcount := (parseBatchRequest_keyCount (Option.filter_eq_some_iff.mp hp).1).1
    rw [hserver, batchRejects_first hcount (hentry r 0 (batchKeysStart r t s) hkey) hrej]
    rfl

theorem batchGetEntry_error {r : BatchRequest} {m : Int} {i : Nat} {c : Int} {b b' : BatchState σ}
    (he : batchGetEntry S g env r m buff i b = .error (.ret c b')) :
    (batchKey r m buff b.src = none ∧ c = EINVAL ∧ b' = b) ∨ c = ENOMEM := by
  unfold batchGetEntry at he
  split at he
  · rename_i hkey
    cases he
    exact .inl ⟨hkey, rfl, rfl⟩
  right
  dsimp only at he
  split at he
  · cases he
    rfl
  split at he
  · cases he
  split at he
  · split at he
    · cases he
      rfl
    split at he <;> cases he
  · cases he

theorem batchGetEntry_ne_crash (env : TaskEnv) (r : BatchRequest) (m : Int) (buff : Bytes) (i : Nat)
    (b : BatchState σ) : batchGetEntry S g env r m buff i b ≠ .error .crash := by
  unfold batchGetEntry
  intro h
  split at h
  · cases h
  dsimp only at h
  split at h
  · cases h
  split at h
  · cases h
  split at h
  · split at h
    · cases h
    split at h <;> cases h
  · cases h

theorem dealCmdBatchDel_rejectsFirst (hcmd : t.cmd ≠ some .batchSet) {s : Server σ}
    (hst : (dealCmdBatchDel S g t s).status = EINVAL) (hfirst : t.rejectsFirst g = true) :
    (dealCmdBatchDel S g t s).server = s := by
  refine dealCmdBatchKeys_rejectsFirst hcmd (fun _ _ => rfl)
    (fun r _ b => batchDelEntry_ne_crash r _ _ b) ?_ hst hfirst
  intro r i b hkey
  unfold batchDelEntry
  rw [hkey]

theorem dealCmdBatchGet_rejectsFirst (hcmd : t.cmd ≠ some .batchSet) {s : Server σ}
    (hst : (dealCmdBatchGet S g env t s).status = EINVAL) (hfirst : t.rejectsFirst g = true) :
    (dealCmdBatchGet S g env t s).server = s := by
  refine dealCmdBatchKeys_rejectsFirst hcmd (fun _ _ => rfl)
    (fun r i b => batchGetEntry_ne_crash env r _ _ i b) ?_ hst hfirst
  intro r i b hkey
  unfold batchGetEntry
  rw [hkey]

/-- Before the first store call nothing has been done, whatever the store. -/
theorem workDealTask_rejected (hS : S.NoEinval) {s s' : Server σ}
    {task : FastTaskInfo} (h : workDealTask S g env t s = some (some (EINVAL, task), s'))
    (hfirst : t.isBatch = true → t.rejectsFirst g = true) :
    s'.store = s.store ∧ s'.binlog = s.binlog := by
  have hquit : t.cmd ≠ some .quit := by
    intro hcmd
    unfold workDealTask at h
    rw [hcmd] at h
    cases h
  obtain ⟨reply, hreply, rfl, hresp⟩ := workDealTask_dealCmd h hquit
  have hst : reply.status = EINVAL := (congrArg Prod.fst (Option.some.inj hresp)).symm
  cases hb : t.isBatch with
  | false => exact dealCmd_rejected hS hreply hst hb
  | true =>
    have hone := hfirst hb
    have hsame : reply.server = s := by
      simp only [FastTaskInfo.isBatch, List.any_cons, List.any_nil, Bool.or_false, Bool.or_eq_true,
        decide_eq_true_eq] at hb
      rcases hb with hcmd | hcmd | hcmd <;> rw [hcmd] at hreply
      · exact dealCmdBatchSet_rejectsFirst hcmd hreply hst hone
      · cases hreply
        exact dealCmdBatchGet_rejectsFirst (by simp [hcmd]) hst hone
      · cases hreply
        exact dealCmdBatchDel_rejectsFirst (by simp [hcmd]) hst hone
    rw [hsame]
    exact ⟨rfl, rfl⟩

/-! ## What stays applied of a rejected batch

On a database that does not fail. -/

section Exact

variable {r : BatchRequest} {m : Int} {b b' : BatchState Bdb}

/-- The entries of BATCH_SET up to the first malformed one, as the values they
store and the records they are logged with; `n` entries are left from `src` on,
and the response has reached `dest` of the same buffer. -/
def batchSetEntries (g : Globals) (r : BatchRequest) (inBodyLen : Int) :
    Nat → FastTaskInfo → Nat → Nat → List (Bytes × LogWrite)
  | 0, _, _, _ => []
  | n + 1, t, src, dest =>
    match batchSetHead r inBodyLen t src with
    | none => []
    | some (k, valueLen, src) =>
      let t := ((t.write dest (int2buff k.szKey.length)).write (dest + 4) k.szKey).write src
        (int2buff (toInt32 r.header.newExpires))
      let t' := t.write (dest + 4 + k.szKey.length) (statusByte 0)
      (readAt t.data src (valueLen + 4).toNat, {
        timestamp := g.currentTime
        opType := .sourceSet
        keyHashCode := r.header.keyHashCode
        expires := toInt32 r.header.newExpires
        keyInfo := k
        pValue := readAt t'.data (src + 4) valueLen.toNat
        valueLen := valueLen }) ::
        batchSetEntries g r inBodyLen n t' (src + (valueLen + 4).toNat)
          (dest + 4 + k.szKey.length + 1)

def BatchRequest.writes (r : BatchRequest) (entries : List (Bytes × LogWrite)) :
    List ((Nat × Bytes) × Option Bytes) :=
  entries.map fun e => ((r.header.groupId, e.2.keyInfo.packFullKey), some e.1)

theorem batchSetRejects_data (n : Nat) : ∀ (i : Nat) (b : BatchState Bdb), b.server.store.Quiet →
    BatchRejects (fun _ => batchSetEntry bdbFuncs g r m) n i b b' →
    b'.server.store.data = replay (r.writes (batchSetEntries g r m n b.task b.src b.dest))
        b.server.store.data ∧
      b'.server.binlog = b.server.binlog ++ if g.writeToBinlogFlag = true then
        (batchSetEntries g r m n b.task b.src b.dest).map Prod.snd else [] := by
  induction n with
  | zero =>
    rintro i b - (h | h)
    · cases h
      exact ⟨rfl, by simp [batchSetEntries]⟩
    · cases h
  | succ n ih =>
    intro i b hq h
    unfold batchSetEntries
    rcases batchRejects_succ h with he | ⟨b₁, he, hrest⟩
    · obtain ⟨hhead, -, rfl⟩ := batchSetEntry_error he
      rw [hhead]
      exact ⟨rfl, by simp⟩
    · obtain ⟨k, valueLen, src, hstep⟩ := batchSetEntry_ok he
      have hcall : batchSetCall bdbFuncs r k valueLen src b =
          (0, b.server.store.next.put r.header.groupId k.packFullKey
            (batchSetValue r k valueLen src b)) := hq.set _ _ _
      have hserver := hstep.server_eq
      rw [hcall] at hserver
      have hstore : b₁.server.store = b.server.store.next.put r.header.groupId k.packFullKey
          (batchSetValue r k valueLen src b) := by
        rw [hserver, Server.logged_store]
      have htask : batchSetDone bdbFuncs r k valueLen src b =
          (batchSetBuffer r k src b).write (b.dest + 4 + k.szKey.length) (statusByte 0) := by
        rw [batchSetDone, hcall]
      have hq₁ : b₁.server.store.Quiet := by
        rw [hstore]
        exact hq
      obtain ⟨hdata, hlog⟩ := ih _ b₁ hq₁ hrest
      rw [hstep.src_eq, hstep.dest_eq, hstep.task_eq, htask] at hdata hlog
      rw [hstep.head]
      refine ⟨?_, ?_⟩
      · rw [hdata, hstore]
        rfl
      · rw [hlog, hserver, logged_binlog]
        by_cases hflag : g.writeToBinlogFlag = true
        · rw [if_pos hflag, if_pos hflag, if_pos ⟨rfl, hflag⟩, List.append_assoc]
          unfold batchSetWrite
          rw [htask]
          rfl
        · simp [hflag]

/-- The keys of a BATCH_GET or BATCH_DEL up to the first malformed entry, among
the `n` entries from offset `src` on. -/
def batchKeysOf (r : BatchRequest) (inBodyLen : Int) (inBuff : Bytes) : Nat → Nat → List (Nat × Bytes)
  | 0, _ => []
  | n + 1, src =>
    match batchKey r inBodyLen inBuff src with
    | none => []
    | some (k, src) => (r.header.groupId, k.packFullKey) :: batchKeysOf r inBodyLen inBuff n src

/-- An entry of BATCH_GET or BATCH_DEL that applies `f` to the value of its
key, and logs nothing where that changes nothing. -/
def Touches (f : Option Bytes → Option Bytes) (r : BatchRequest) (m : Int) (buff : Bytes)
    (b b' : BatchState Bdb) : Prop :=
  ∃ k, batchKey r m buff b.src = some (k, b'.src) ∧
    b'.server.store.data = Function.update b.server.store.data (r.header.groupId, k.packFullKey)
      (f (b.server.store.data (r.header.groupId, k.packFullKey))) ∧
    (f (b.server.store.data (r.header.groupId, k.packFullKey)) =
      b.server.store.data (r.header.groupId, k.packFullKey) → b'.server.binlog = b.server.binlog)

theorem batchKeysRejects_data {f : Option Bytes → Option Bytes}
    {entry : Nat → BatchState Bdb → Except (Stop Bdb) (BatchState Bdb)}
    (Inv : BatchState Bdb → Prop)
    (hok : ∀ i b b', Inv b → entry i b = .ok b' → Touches f r m buff b b' ∧ Inv b')
    (herr : ∀ i b b', entry i b = .error (.ret EINVAL b') →
      batchKey r m buff b.src = none ∧ b' = b) (n : Nat) :
    ∀ (i : Nat) (b : BatchState Bdb), Inv b → BatchRejects entry n i b b' →
      b'.server.store.data = touch f (batchKeysOf r m buff n b.src) b.server.store.data ∧
      ((∀ k ∈ batchKeysOf r m buff n b.src, f (b.server.store.data k) = b.server.store.data k) →
        b'.server.binlog = b.server.binlog) := by
  induction n with
  | zero =>
    rintro i b - (h | h)
    · cases h
      exact ⟨rfl, fun _ => rfl⟩
    · cases h
  | succ n ih =>
    intro i b hinv h
    unfold batchKeysOf
    rcases batchRejects_succ h with he | ⟨b₁, he, hrest⟩
    · obtain ⟨hkey, rfl⟩ := herr i b b' he
      rw [hkey]
      exact ⟨rfl, fun _ => rfl⟩
    · obtain ⟨⟨k, hkey, hdata, hlog⟩, hinv₁⟩ := hok i b b₁ hinv he
      obtain ⟨hdata', hlog'⟩ := ih _ b₁ hinv₁ hrest
      rw [hkey]
      refine ⟨?_, ?_⟩
      · rw [hdata', hdata, touch_cons]
      · intro hsame
        have hk := hsame _ List.mem_cons_self
        have hdata₁ : b₁.server.store.data = b.server.store.data := by
          rw [hdata, hk, Function.update_eq_self]
        rw [hlog' (by rw [hdata₁]; exact fun k hk => hsame k (List.mem_cons_of_mem _ hk)),
          hlog hk]

/-! ### BATCH_DEL -/

theorem BatchDelStep.touches {k : FDHTKeyInfo} (hq : b.server.store.Quiet)
    (h : BatchDelStep bdbFuncs g r m buff b b' k) :
    Touches (fun _ => none) r m buff b b' ∧ b'.server.store.Quiet := by
  obtain ⟨-, hq', hdata⟩ := hq.delete r.header.groupId k.packFullKey
  have hstore : b'.server.store = (dbDelete b.server.store r.header.groupId k.packFullKey).2 := by
    rw [h.server_eq, Server.logged_store]
    rfl
  rw [← hstore] at hq' hdata
  refine ⟨⟨k, h.key, hdata, ?_⟩, hq'⟩
  intro hnone
  rw [(h.absent hq hnone.symm).1]

theorem batchDelRejects_data (hq : b.server.store.Quiet)
    (h : BatchRejects (fun _ => batchDelEntry bdbFuncs g r m buff) n 0 b b') :
    b'.server.store.data = touch (fun _ => none) (batchKeysOf r m buff n b.src)
        b.server.store.data ∧
      ((∀ k ∈ batchKeysOf r m buff n b.src, none = b.server.store.data k) →
        b'.server.binlog = b.server.binlog) := by
  refine batchKeysRejects_data (fun b => b.server.store.Quiet) ?_ ?_ n 0 b hq h
  · intro _ b b' hq he
    obtain ⟨k, hstep⟩ := batchDelEntry_ok he
    exact hstep.touches hq
  · intro _ b b' he
    obtain ⟨hkey, -, hb⟩ := batchDelEntry_error he
    exact ⟨hkey, hb⟩

/-! ### BATCH_GET -/

/-- What BATCH_GET makes of a value: one that has not expired gets the expiry of
the request. -/
def refreshed (expires now : Int) (value : Option Bytes) : Option Bytes :=
  value.map fun v => if expires ≠ fdhtExpiresNone ∧ expired (buff2int v) now = false then
    writeAt v 0 (int2buff expires) else v

theorem refreshed_refreshed (expires now : Int) (value : Option Bytes) :
    refreshed expires now (refreshed expires now value) = refreshed expires now value := by
  cases value with
  | none => rfl
  | some v =>
    simp only [refreshed, Option.map_some, Option.some.injEq]
    split
    · have hsame : writeAt (writeAt v 0 (int2buff expires)) 0 (int2buff expires) =
          writeAt v 0 (int2buff expires) := by
        rw [writeAt_zero v, writeAt_zero, List.drop_left]
      rw [hsame, ite_self]
    · rfl

theorem batchGetValue_server (S : StoreFuncs σ) (g : Globals) (r : BatchRequest) (k : FDHTKeyInfo)
    (n : Int) (b : BatchState σ) :
    (batchGetValue S g r k n b).src = b.src ∧
    (batchGetValue S g r k n b).server =
      if toInt32 r.header.newExpires ≠ fdhtExpiresNone ∧
          expired (b.task.intAt b.dest) g.currentTime = false then
        { b.server with store := (S.partialSet b.server.store r.header.groupId k.packFullKey
          (int2buff (toInt32 r.header.newExpires)) 0).2 }
      else b.server := by
  unfold batchGetValue
  by_cases hexp : expired (b.task.intAt b.dest) g.currentTime = true
  · rw [if_pos hexp, if_neg (by simp [hexp])]
    exact ⟨rfl, rfl⟩
  have hexp' : expired (b.task.intAt b.dest) g.currentTime = false := Bool.eq_false_iff.mpr hexp
  rw [if_neg hexp]
  by_cases hne : toInt32 r.header.newExpires ≠ fdhtExpiresNone
  · have hboth : toInt32 r.header.newExpires ≠ fdhtExpiresNone ∧
        expired (b.task.intAt b.dest) g.currentTime = false := ⟨hne, hexp'⟩
    dsimp only
    split_ifs <;> exact ⟨rfl, rfl⟩
  · have hboth : ¬ (toInt32 r.header.newExpires ≠ fdhtExpiresNone ∧
        expired (b.task.intAt b.dest) g.currentTime = false) := fun h => hne h.1
    rw [if_neg hne, if_neg hboth]
    exact ⟨rfl, rfl⟩

theorem batchGetValue_touches {k : FDHTKeyInfo} {n : Int} {v : Bytes}
    {b₀ b : BatchState Bdb} (hkey : batchKey r m buff b₀.src = some (k, b.src))
    (hdata : b.server.store.data = b₀.server.store.data)
    (hlog : b.server.binlog = b₀.server.binlog) (hq : b.server.store.Quiet)
    (hv : b₀.server.store.data (r.header.groupId, k.packFullKey) = some v)
    (hexp : b.task.intAt b.dest = buff2int v) :
    Touches (refreshed (toInt32 r.header.newExpires) g.currentTime) r m buff b₀
        (batchGetValue bdbFuncs g r k n b) ∧
      (batchGetValue bdbFuncs g r k n b).server.store.Quiet := by
  obtain ⟨hsrc, hserver⟩ := batchGetValue_server bdbFuncs g r k n b
  rw [hexp] at hserver
  have hset : (bdbFuncs.partialSet b.server.store r.header.groupId k.packFullKey
      (int2buff (toInt32 r.header.newExpires)) 0).2 = b.server.store.next.put r.header.groupId
        k.packFullKey (writeAt v 0 (int2buff (toInt32 r.header.newExpires))) :=
    hq.partialSet _ (hdata ▸ hv)
  unfold Touches refreshed
  rw [hsrc, hserver]
  by_cases hc : toInt32 r.header.newExpires ≠ fdhtExpiresNone ∧
      expired (buff2int v) g.currentTime = false
  · rw [if_pos hc, hset]
    refine ⟨⟨k, hkey, ?_, fun _ => hlog⟩, hq⟩
    rw [hv, Option.map_some, if_pos hc]
    exact congrArg (fun d => Function.update d _ _) hdata
  · rw [if_neg hc]
    refine ⟨⟨k, hkey, ?_, fun _ => hlog⟩, hq⟩
    rw [hv, Option.map_some, if_neg hc, ← hv, Function.update_eq_self, hdata]

/-- A database that does not fail and whose values carry their expiry. -/
def Bdb.Sound (db : Bdb) : Prop :=
  db.Quiet ∧ ∀ k v, db.data k = some v → CarriesExpiry v

theorem refreshed_carries {e now : Int} {value : Option Bytes}
    (h : ∀ v, value = some v → CarriesExpiry v) :
    ∀ v, refreshed e now value = some v → CarriesExpiry v := by
  intro v hv
  obtain ⟨w, hw, rfl⟩ := Option.map_eq_some_iff.mp hv
  split
  · exact le_writeAt_length w (int2buff e) 0
  · exact h w hw

theorem Touches.carries {e now : Int} (h : Touches (refreshed e now) r m buff b b')
    (hc : ∀ k v, b.server.store.data k = some v → CarriesExpiry v) :
    ∀ k v, b'.server.store.data k = some v → CarriesExpiry v := by
  obtain ⟨k, -, hdata, -⟩ := h
  intro key v hv
  rw [hdata, Function.update_apply] at hv
  split at hv
  · exact refreshed_carries (hc _) v hv
  · exact hc key v hv

theorem batchGetEntry_touches {i : Nat} (hs : b.server.store.Sound)
    (he : batchGetEntry bdbFuncs g env r m buff i b = .ok b') :
    Touches (refreshed (toInt32 r.header.newExpires) g.currentTime) r m buff b b' ∧
      b'.server.store.Sound := by
  obtain ⟨hq, hc⟩ := hs
  suffices h : Touches (refreshed (toInt32 r.header.newExpires) g.currentTime) r m buff b b' ∧
      b'.server.store.Quiet from ⟨h.1, h.2, h.1.carries hc⟩
  unfold batchGetEntry at he
  split at he
  · cases he
  rename_i k src hkey
  dsimp only at he
  split at he
  · cases he
  -- the first get, into what is left of the buffer
  have hget := fun n => hq.get r.header.groupId k.packFullKey n
  have hbdb : ∀ db n, (bdbFuncs.get db r.header.groupId k.packFullKey n) =
      (dbDoGet db r.header.groupId k.packFullKey n, db.next) := fun _ _ => rfl
  simp only [hbdb] at he
  cases hv : b.server.store.data (r.header.groupId, k.packFullKey) with
  | none =>
    rw [hget, hv] at he
    cases he
    refine ⟨⟨k, hkey, ?_, fun _ => rfl⟩, hq⟩
    rw [hv]
    exact (Function.update_eq_self_iff.mpr hv.symm).symm
  | some v =>
    have hexp := hc _ _ hv
    split at he
    · rename_i h0
      have hvalue : (dbDoGet b.server.store r.header.groupId k.packFullKey _).value = v :=
        Option.some.inj ((dbDoGet_ok h0).1.symm.trans hv)
      cases he
      refine batchGetValue_touches hkey rfl rfl hq hv ?_
      rw [hvalue]
      exact intAt_write _ _ hexp
    · rename_i h0
      split at he
      · split at he
        · cases he
        -- the second get has room for the value
        have hq' : b.server.store.next.Quiet := hq
        have hagain : dbDoGet b.server.store.next r.header.groupId k.packFullKey v.length =
            ⟨0, v, v.length⟩ := by
          rw [hq'.get, Bdb.next_data, hv]
          exact if_neg (lt_irrefl _)
        have hsize : ∀ n, (dbDoGet b.server.store r.header.groupId k.packFullKey n).result ≠ 0 →
            (dbDoGet b.server.store r.header.groupId k.packFullKey n).size = v.length := by
          intro n hn
          rw [hget, hv] at hn ⊢
          dsimp only at hn ⊢
          split
          · rfl
          · rfl
        rw [hsize _ h0, hagain, if_neg (by simp)] at he
        cases he
        exact batchGetValue_touches hkey rfl rfl hq' hv (intAt_write _ _ hexp)
      · rename_i hspc
        rw [hget, hv] at h0 hspc
        dsimp only at h0 hspc
        split at h0
        · rename_i hlt
          rw [if_pos hlt] at hspc
          exact absurd rfl hspc
        · exact absurd rfl h0

theorem batchGetRejects_data (hs : b.server.store.Sound)
    (h : BatchRejects (batchGetEntry bdbFuncs g env r m buff) n 0 b b') :
    b'.server.store.data = touch (refreshed (toInt32 r.header.newExpires) g.currentTime)
        (batchKeysOf r m buff n b.src) b.server.store.data ∧
      ((∀ k ∈ batchKeysOf r m buff n b.src, refreshed (toInt32 r.header.newExpires) g.currentTime
          (b.server.store.data k) = b.server.store.data k) →
        b'.server.binlog = b.server.binlog) := by
  refine batchKeysRejects_data (fun b => b.server.store.Sound)
    (fun _ _ _ hs he => batchGetEntry_touches hs he) ?_ n 0 b hs h
  intro i b b' he
  rcases batchGetEntry_error he with ⟨hkey, -, hb⟩ | hmem
  · exact ⟨hkey, hb⟩
  · exact absurd hmem.symm (by decide)

end Exact

/-! ## Every request -/

/-- The entries of a BATCH_SET before the first malformed one. -/
def BatchRequest.setEntries (g : Globals) (r : BatchRequest) (t : FastTaskInfo) :
    List (Bytes × LogWrite) :=
  batchSetEntries g r t.inBodyLen r.keyCount (t.write sizeofHeader (int2buff r.keyCount))
    (sizeofHeader + r.commonFiledsLen) (sizeofHeader + 8)

/-- The keys of a BATCH_GET or BATCH_DEL before the first malformed entry. -/
def BatchRequest.keys (r : BatchRequest) (t : FastTaskInfo) : List (Nat × Bytes) :=
  batchKeysOf r t.inBodyLen (r.inBuff t) r.keyCount 0

/-- The entries of a batch before the one that is rejected make no difference:
those of BATCH_SET store what is there, and are not logged; BATCH_DEL names no
key that is there; BATCH_GET changes no expiry. -/
def FastTaskInfo.KeepsData (g : Globals) (t : FastTaskInfo)
    (data : Nat × Bytes → Option Bytes) : Prop :=
  match t.cmd with
  | some .batchSet => ∀ r, parseBatchRequest g 20 t = some r →
      (g.writeToBinlogFlag = true → r.setEntries g t = []) ∧
        replay (r.writes (r.setEntries g t)) data = data
  | some .batchDel => ∀ r, parseBatchKeys g t = some r → ∀ k ∈ r.keys t, data k = none
  | some .batchGet => ∀ r, parseBatchKeys g t = some r → ∀ k ∈ r.keys t,
      refreshed (toInt32 r.header.newExpires) g.currentTime (data k) = data k
  | _ => True

section Bdb

variable {s : Server Bdb}

theorem dealCmdBatchSet_keeps (hcmd : t.cmd = some .batchSet) (hq : s.store.Quiet)
    {reply : Reply Bdb} (h : dealCmdBatchSet bdbFuncs g t s = some reply)
    (hst : reply.status = EINVAL) :
    (reply.server.store.data = s.store.data ∧ reply.server.binlog = s.binlog) ↔
      t.KeepsData g s.store.data := by
  unfold FastTaskInfo.KeepsData
  rw [hcmd]
  cases hp : parseBatchRequest g 20 t with
  | none =>
    rcases dealCmdBatchSet_cases h with ⟨-, rfl⟩ | ⟨r, hp', -⟩
    · exact ⟨fun _ r hr => (by cases hr), fun _ => ⟨rfl, rfl⟩⟩
    · rw [hp] at hp'
      cases hp'
  | some r =>
    obtain ⟨b', hrej, hserver⟩ := dealCmdBatchSet_rejected hp h hst
    obtain ⟨hdata, hlog⟩ := batchSetRejects_data r.keyCount 0 (batchSetStart r t s) hq hrej
    have hdata' : b'.server.store.data = replay (r.writes (r.setEntries g t)) s.store.data := hdata
    have hlog' : b'.server.binlog = s.binlog ++
        if g.writeToBinlogFlag = true then (r.setEntries g t).map Prod.snd else [] := hlog
    rw [hserver, hdata']
    constructor
    · rintro ⟨hsame, hlog⟩ r' hr'
      cases hr'
      refine ⟨?_, hsame⟩
      intro hflag
      rw [hlog, if_pos hflag, List.self_eq_append_right] at hlog'
      exact List.map_eq_nil_iff.mp hlog'
    · intro hall
      obtain ⟨hflag, hsame⟩ := hall r rfl
      refine ⟨hsame, ?_⟩
      rw [hlog', List.append_right_eq_self]
      split
      · rename_i hf
        rw [hflag hf]
        rfl
      · rfl

theorem dealCmdBatchDel_keeps (hcmd : t.cmd = some .batchDel) (hq : s.store.Quiet)
    (hst : (dealCmdBatchDel bdbFuncs g t s).status = EINVAL) :
    ((dealCmdBatchDel bdbFuncs g t s).server.store.data = s.store.data ∧
        (dealCmdBatchDel bdbFuncs g t s).server.binlog = s.binlog) ↔
      t.KeepsData g s.store.data := by
  unfold FastTaskInfo.KeepsData
  rw [hcmd]
  cases hp : parseBatchKeys g t with
  | none =>
    unfold dealCmdBatchDel dealCmdBatchKeys
    rw [hp]
    exact ⟨fun _ r hr => (by cases hr), fun _ => ⟨rfl, rfl⟩⟩
  | some r =>
    obtain ⟨b', hrej, hserver⟩ := dealCmdBatchKeys_rejected hp (fun _ => rfl)
      (fun _ b => batchDelEntry_ne_crash r _ _ b) hst
    obtain ⟨hdata, hlog⟩ := batchDelRejects_data (b := batchKeysStart r t s) hq hrej
    have hiff := touch_eq_self_iff (f := fun _ => none) (fun _ => rfl) (r.keys t) s.store.data
    have hserver' : (dealCmdBatchDel bdbFuncs g t s).server = b'.server := hserver
    rw [hserver', hdata]
    constructor
    · rintro ⟨hsame, -⟩ r' hr' k hk
      cases hr'
      exact (hiff.mp hsame k hk).symm
    · intro hall
      have hnone := fun k hk => (hall r rfl k hk).symm
      exact ⟨hiff.mpr hnone, hlog hnone⟩

theorem dealCmdBatchGet_keeps (hcmd : t.cmd = some .batchGet) (hs : s.store.Sound)
    (hst : (dealCmdBatchGet bdbFuncs g env t s).status = EINVAL) :
    ((dealCmdBatchGet bdbFuncs g env t s).server.store.data = s.store.data ∧
        (dealCmdBatchGet bdbFuncs g env t s).server.binlog = s.binlog) ↔
      t.KeepsData g s.store.data := by
  unfold FastTaskInfo.KeepsData
  rw [hcmd]
  cases hp : parseBatchKeys g t with
  | none =>
    unfold dealCmdBatchGet dealCmdBatchKeys
    rw [hp]
    exact ⟨fun _ r hr => (by cases hr), fun _ => ⟨rfl, rfl⟩⟩
  | some r =>
    obtain ⟨b', hrej, hserver⟩ := dealCmdBatchKeys_rejected hp (fun _ => rfl)
      (fun i b => batchGetEntry_ne_crash env r _ _ i b) hst
    obtain ⟨hdata, hlog⟩ := batchGetRejects_data (b := batchKeysStart r t s) hs hrej
    have hiff := touch_eq_self_iff (refreshed_refreshed (toInt32 r.header.newExpires)
      g.currentTime) (r.keys t) s.store.data
    have hserver' : (dealCmdBatchGet bdbFuncs g env t s).server = b'.server := hserver
    rw [hserver', hdata]
    constructor
    · rintro ⟨hsame, -⟩ r' hr' k hk
      cases hr'
      exact hiff.mp hsame k hk
    · intro hall
      exact ⟨hiff.mpr (hall r rfl), hlog (hall r rfl)⟩

theorem workDealTask_keeps {s' : Server Bdb} {task : FastTaskInfo} (hq : s.store.Quiet)
    (hc : t.cmd = some .batchGet → ∀ k v, s.store.data k = some v → CarriesExpiry v)
    (h : workDealTask bdbFuncs g env t s = some (some (EINVAL, task), s')) :
    (s'.store.data = s.store.data ∧ s'.binlog = s.binlog) ↔ t.KeepsData g s.store.data := by
  cases hb : t.isBatch with
  | false =>
    obtain ⟨hstore, hlog⟩ := workDealTask_rejected bdbFuncs_noEinval h (by simp [hb])
    have hkeeps : t.KeepsData g s.store.data := by
      unfold FastTaskInfo.KeepsData
      split
      case h_4 => trivial
      all_goals
        rename_i hcmd
        simp [FastTaskInfo.isBatch, hcmd] at hb
    exact ⟨fun _ => hkeeps, fun _ => ⟨by rw [hstore], hlog⟩⟩
  | true =>
    obtain ⟨reply, hreply, rfl, hresp⟩ := workDealTask_dealCmd h fun hcmd => by
      simp [FastTaskInfo.isBatch, hcmd] at hb
    have hst : reply.status = EINVAL := (congrArg Prod.fst (Option.some.inj hresp)).symm
    simp only [FastTaskInfo.isBatch, List.any_cons, List.any_nil, Bool.or_false, Bool.or_eq_true,
      decide_eq_true_eq] at hb
    rcases hb with hcmd | hcmd | hcmd <;> rw [hcmd] at hreply
    · exact dealCmdBatchSet_keeps hcmd hq hreply hst
    · cases hreply
      exact dealCmdBatchGet_keeps hcmd ⟨hq, hc hcmd⟩ hst
    · cases hreply
      exact dealCmdBatchDel_keeps hcmd hq hst

end Bdb

/-- **Which rejected requests have had no effect.** On any store those that are
not batches, and batches that are rejected at their first entry. On a database
that does not fail, a batch exactly if its entries before the rejected one make
no difference. -/
theorem rejected_request_unchanged (g : Globals) (env : TaskEnv) (t task : FastTaskInfo) :
    (∀ (σ : Type) (S : StoreFuncs σ) (s s' : Server σ), S.NoEinval →
      workDealTask S g env t s = some (some (EINVAL, task), s') →
      (t.isBatch = true → t.rejectsFirst g = true) →
      s'.store = s.store ∧ s'.binlog = s.binlog) ∧
    ∀ s s' : Server Bdb, s.store.Quiet →
      (t.cmd = some .batchGet → ∀ k v, s.store.data k = some v → CarriesExpiry v) →
      workDealTask bdbFuncs g env t s = some (some (EINVAL, task), s') →
      ((s'.store.data = s.store.data ∧ s'.binlog = s.binlog) ↔ t.KeepsData g s.store.data) := by
  refine ⟨?_, ?_⟩
  · intro σ S s s' hS h hfirst
    exact workDealTask_rejected hS h hfirst
  · intro s s' hq hc h
    exact workDealTask_keeps hq hc h

/-- BATCH_SET of the key `a` to `x` and of the reserved key. -/
def reservedBatch : FastTaskInfo :=
  request .batchSet 0 0 (int2buff 0 ++ int2buff 0 ++ int2buff 2 ++
    int2buff 1 ++ [97] ++ int2buff 1 ++ [120] ++ int2buff 1 ++ [42] ++ int2buff 0)

/-- A SET of the reserved key. -/
def reservedSet : FastTaskInfo :=
  request .set 0 0 (int2buff 0 ++ int2buff 0 ++ int2buff 1 ++ [42] ++ int2buff 0)

/-- BATCH_DEL of the key `a` and of the reserved key. -/
def reservedDeletes : FastTaskInfo :=
  request .batchDel 0 0 (int2buff 0 ++ int2buff 0 ++ int2buff 2 ++
    int2buff 1 ++ [97] ++ int2buff 1 ++ [42])

theorem exists_rejected {r : Option (Option (Int × FastTaskInfo) × Server σ)}
    (h : r.map (fun r => r.1.map Prod.fst) = some (some EINVAL)) :
    ∃ task s, r = some (some (EINVAL, task), s) := by
  obtain ⟨⟨resp, s⟩, rfl, hresp⟩ := Option.map_eq_some_iff.mp h
  obtain ⟨⟨status, task⟩, rfl, rfl⟩ := Option.map_eq_some_iff.mp hresp
  exact ⟨task, s, rfl⟩

/-- A SET that the memory pool does not see, and a batch that deletes a key which is not there
before it is rejected. -/
theorem rejected_request_unchanged_set :
    (∃ task s, workDealTask mpoolFuncs oneGroup quietEnv reservedSet ⟨emptyMpool, [], default⟩ =
        some (some (EINVAL, task), s) ∧ s.store = emptyMpool ∧ s.binlog = []) ∧
    ∃ task s, workDealTask bdbFuncs oneGroup quietEnv reservedDeletes emptyServer =
        some (some (EINVAL, task), s) ∧ s.store.data = emptyServer.store.data ∧ s.binlog = [] := by
  constructor
  · have hwork : (workDealTask mpoolFuncs oneGroup quietEnv reservedSet
        ⟨emptyMpool, [], default⟩).map (fun r => r.1.map Prod.fst) = some (some EINVAL) := by
      decide +kernel
    obtain ⟨task, s, hs⟩ := exists_rejected hwork
    exact ⟨task, s, hs, (rejected_request_unchanged oneGroup quietEnv reservedSet task).1 _ _ _ s
      mpoolFuncs_noEinval hs fun hb => absurd hb (by decide +kernel)⟩
  · have hwork : (workDealTask bdbFuncs oneGroup quietEnv reservedDeletes
        emptyServer).map (fun r => r.1.map Prod.fst) = some (some EINVAL) := by decide +kernel
    obtain ⟨task, s, hs⟩ := exists_rejected hwork
    refine ⟨task, s, hs, ((rejected_request_unchanged oneGroup quietEnv reservedDeletes task).2 _ s
      emptyBdb_quiet (fun _ _ _ h => by cases h) hs).mpr ?_⟩
    intro r _ k _
    rfl

/-- The second entry is rejected; the first one has been stored and logged. -/
theorem rejected_batch_applied :
    ¬ ∀ (g : Globals) (env : TaskEnv) (t task : FastTaskInfo) (s s' : Server Bdb),
      workDealTask bdbFuncs g env t s = some (some (EINVAL, task), s') →
      s'.store.data = s.store.data ∧ s'.binlog = s.binlog := by
  intro hall
  have hwork : (workDealTask bdbFuncs oneGroup quietEnv reservedBatch
      emptyServer).map (fun r => (r.1.map Prod.fst, r.2.store.data (0, [1, 1, 97]))) =
        some (some EINVAL, some [0, 0, 0, 0, 120]) := by decide +kernel
  obtain ⟨⟨resp, s⟩, hs, hresp⟩ := Option.map_eq_some_iff.mp hwork
  obtain ⟨hresp, hdata⟩ := Prod.mk.inj hresp
  obtain ⟨⟨status, task⟩, rfl, hstatus⟩ := Option.map_eq_some_iff.mp hresp
  obtain rfl : status = EINVAL := hstatus
  have hsame := (hall oneGroup quietEnv reservedBatch task emptyServer s hs).1
  rw [hsame] at hdata
  cases hdata

end FastDht
