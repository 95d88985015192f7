import FastDht.Server.StoredValues

/-! # The keep_alive field of an answer

The answer is written over the request, and `client_sock_write` looks at its
`keep_alive` to decide whether the connection stays open. No handler changes the
field: the answers lie behind the header, and GET_SUB_KEYS, which reads the list of
keys over the end of the header, puts it back. -/

namespace FastDht
open Lib

variable {σ : Type}
variable {b : BatchState σ}

/-- A get that finds a value says how long it is, whether it fits or not. -/
def StoreFuncs.TellsSize (S : StoreFuncs σ) : Prop :=
  ∀ s g k n, (S.get s g k n).1.result = 0 ∨ (S.get s g k n).1.result = ENOSPC →
    0 ≤ (S.get s g k n).1.size

theorem bdbFuncs_tellsSize : bdbFuncs.TellsSize := by
  intro db g k n h
  change (dbDoGet db g k n).result = 0 ∨ (dbDoGet db g k n).result = ENOSPC at h
  change 0 ≤ (dbDoGet db g k n).size
  unfold dbDoGet at h ⊢
  split at h
  · simp [EFAULT, ENOSPC] at h
  · rename_i hfail
    rw [if_neg hfail]
    cases hd : db.data (g, k) with
    | none => simp [hd, ENOENT, ENOSPC] at h
    | some v =>
      dsimp only
      split <;> exact Int.natCast_nonneg _

theorem mpoolFuncs_tellsSize : mpoolFuncs.TellsSize := by
  intro p g k n h
  change (mpGet p g k n).1.result = 0 ∨ (mpGet p g k n).1.result = ENOSPC at h
  change 0 ≤ (mpGet p g k n).1.size
  unfold mpGet at h ⊢
  cases hd : hashFindEx p.hashArray k with
  | none => simp [hd, ENOENT, ENOSPC] at h
  | some d =>
    dsimp only
    split <;> exact Int.natCast_nonneg _

def FastTaskInfo.keepAlive (t : FastTaskInfo) : UInt8 := t.data.getD keepAliveOffset 0

/-- The task still has the field of the request, in a buffer that holds a header. -/
structure FastTaskInfo.KeepsField (t t' : FastTaskInfo) : Prop where
  keepAlive : t'.keepAlive = t.keepAlive
  room : sizeofHeader ≤ t'.data.length

section Field

variable {t t' : FastTaskInfo}

theorem FastTaskInfo.KeepsField.write (h : t.KeepsField t') {off : Nat} {v : Bytes}
    (hoff : keepAliveOffset < off ∨ off + v.length ≤ keepAliveOffset) :
    t.KeepsField (t'.write off v) where
  keepAlive := by
    rw [← h.keepAlive]
    unfold FastTaskInfo.keepAlive FastTaskInfo.write
    rw [getD_writeAt, if_neg (by omega)]
  room := by
    have hroom := h.room
    simp only [FastTaskInfo.write, writeAt, List.length_append, List.takeD_length,
      List.length_drop]
    omega

theorem FastTaskInfo.KeepsField.behind (h : t.KeepsField t') (off : Nat) (v : Bytes) :
    t.KeepsField (t'.write (sizeofHeader + off) v) :=
  h.write (.inl (by unfold keepAliveOffset sizeofHeader; omega))

theorem FastTaskInfo.KeepsField.int (h : t.KeepsField t') (n : Int) :
    t.KeepsField (t'.write expiresOffset (int2buff n)) :=
  h.write (.inr (by rw [int2buff_length]; decide))

theorem FastTaskInfo.KeepsField.withLength (h : t.KeepsField t') (n : Int) :
    t.KeepsField { t' with length := n } := ⟨h.keepAlive, h.room⟩

theorem FastTaskInfo.KeepsField.headerOnly (h : t.KeepsField t') : t.KeepsField t'.headerOnly :=
  h.withLength _

theorem FastTaskInfo.KeepsField.replaced (h : t.KeepsField t') (rest : Bytes) :
    t.KeepsField { t' with data := readAt t'.data 0 sizeofHeader ++ rest } where
  keepAlive := by
    rw [← h.keepAlive]
    unfold FastTaskInfo.keepAlive
    rw [List.getD_append _ _ _ _ (by rw [readAt_length]; decide), getD_readAt, if_pos (by decide),
      Nat.zero_add]
  room := by simp

theorem FastTaskInfo.KeepsField.grown (h : t.KeepsField t') {fresh : Option Bytes} {oldLen : Nat}
    {valueLen : Int} (hlen : 0 ≤ valueLen) {t₁ : FastTaskInfo}
    (hgrow : checkBuffSize fresh oldLen valueLen t' = some t₁) : t.KeepsField t₁ := by
  obtain ⟨bytes, -, rfl⟩ := Option.map_eq_some_iff.mp hgrow
  have hroom := h.room
  have hsize : sizeofHeader ≤ (oldLen + valueLen + 8192).toNat := by unfold sizeofHeader; omega
  refine ⟨?_, by simpa using hsize⟩
  rw [← h.keepAlive]
  unfold FastTaskInfo.keepAlive
  unfold sizeofHeader at hroom hsize
  rw [getD_readAt, if_pos (by unfold keepAliveOffset; omega), Nat.zero_add,
    List.getD_append _ _ _ _ (by unfold keepAliveOffset; omega)]

end Field

section Handlers

variable {S : StoreFuncs σ} {g : Globals} {env : TaskEnv} {t : FastTaskInfo} {s : Server σ}

theorem getValue_keeps {r : KeyRequest} {n : Int} {t' : FastTaskInfo} (h : t.KeepsField t') :
    t.KeepsField (getValue S g r n t' s).task := by
  have hreply : ∀ (t' : FastTaskInfo) (s : Server σ), t.KeepsField t' →
      t.KeepsField (getReply n t' s).task := by
    intro t' s h
    have hexpires : t.KeepsField (t'.write expiresOffset (t'.bodyBytes 0 4)) :=
      h.write (.inr (by rw [FastTaskInfo.bodyBytes, readAt_length]; decide))
    exact (hexpires.behind 0 _).withLength _
  unfold getValue
  split
  · exact h.headerOnly
  split
  · exact hreply _ _ (h.behind 0 _)
  · exact hreply _ _ h

theorem dealCmdGet_keeps (h : t.KeepsField t) : t.KeepsField (dealCmdGet S g env t s).task := by
  unfold dealCmdGet
  split
  · exact h.headerOnly
  dsimp only
  split
  · exact getValue_keeps (h.behind 0 _)
  split
  · split
    · exact h.headerOnly
    · split
      · exact (h.replaced _).headerOnly
      · exact getValue_keeps ((h.replaced _).behind 0 _)
  · exact h.headerOnly

theorem dealCmdSet_keeps {op : OpType} (h : t.KeepsField t) :
    t.KeepsField (dealCmdSet S g op t s).task := by
  unfold dealCmdSet
  split
  · exact h.headerOnly
  dsimp only
  split
  · exact (h.behind _ _).headerOnly
  · refine (h.behind _ _).headerOnly.write (.inr ?_)
    rw [FastTaskInfo.bodyBytes, readAt_length]
    decide

theorem dealCmdDel_keeps {op : OpType} (h : t.KeepsField t) :
    t.KeepsField (dealCmdDel S g op t s).task := by
  unfold dealCmdDel
  split
  · exact h.headerOnly
  dsimp only
  split <;> exact h.headerOnly

theorem dealCmdInc_keeps (h : t.KeepsField t) : t.KeepsField (dealCmdInc S g t s).task := by
  unfold dealCmdInc
  split
  · exact h.headerOnly
  dsimp only
  split
  · exact h.headerOnly
  · refine (((h.withLength _).behind 0 _).write (.inr ?_)).behind 4 _
    rw [List.length_take]
    unfold expiresOffset keepAliveOffset
    omega

theorem dealCmdGetSubKeys_keeps (h : t.KeepsField t) :
    t.KeepsField (dealCmdGetSubKeys S g t s).task := by
  have hback : ∀ v, t.KeepsField
      ((t.write (sizeofHeader - 4) v).write keepAliveOffset [t.data.getD keepAliveOffset 0]) := by
    intro v
    have hroom := h.room
    refine ⟨?_, ?_⟩
    · rfl
    · simp only [FastTaskInfo.write, writeAt, List.length_append, List.takeD_length,
        List.length_drop, List.length_singleton]
      omega
  unfold dealCmdGetSubKeys
  split
  · exact h.headerOnly
  split
  · exact h.headerOnly
  split
  · exact h.headerOnly
  dsimp only
  split
  · exact (hback _).withLength _
  · exact (hback _).headerOnly

/-! ## Batches -/

/-- The task of a batch has the field, and the response is written behind its two
counts. -/
structure BatchState.KeepsField (t : FastTaskInfo) (b : BatchState σ) : Prop where
  task : t.KeepsField b.task
  dest : sizeofHeader + 8 ≤ b.dest

theorem BatchState.KeepsField.getFailed (h : b.KeepsField t) (result : Int) :
    (b.getFailed result).KeepsField t := by
  have hdest := h.dest
  refine ⟨h.task.write (.inl ?_), hdest⟩
  unfold sizeofHeader at hdest
  unfold keepAliveOffset
  omega

theorem BatchState.KeepsField.getDone (h : b.KeepsField t) {n : Int}
    (hn : 0 ≤ n) : (b.getDone n).KeepsField t := by
  have hdest := h.dest
  unfold sizeofHeader at hdest
  refine ⟨(h.task.write (.inl ?_)).write (.inl ?_), ?_⟩
  · unfold keepAliveOffset
    omega
  · unfold keepAliveOffset
    omega
  · show 19 + 8 ≤ (b.dest + n).toNat
    omega

theorem batchReply_keeps {consumed : Bool} {finish : BatchState σ → Reply σ}
    (h : b.KeepsField t) (hfinish : t.KeepsField (finish b).task) :
    t.KeepsField (batchReply consumed finish b).task := by
  unfold batchReply
  split
  · exact h.task.headerOnly
  split
  · exact (hfinish.behind 4 _).withLength _
  · exact h.task.headerOnly

theorem batchGetValue_keeps {r : BatchRequest} {k : FDHTKeyInfo} {n : Int} (hn : 0 ≤ n)
    (h : b.KeepsField t) : (batchGetValue S g r k n b).KeepsField t := by
  have hserver : ∀ (srv : Server σ) (m : Int),
      BatchState.KeepsField t { b with server := srv, minExpires := m } :=
    fun _ _ => ⟨h.task, h.dest⟩
  unfold batchGetValue
  split
  · exact h.getFailed _
  split
  · dsimp only
    split
    · exact (hserver _ _).getFailed _
    · exact (hserver _ _).getDone hn
  · exact (hserver _ _).getDone hn

theorem batchGetEntry_keeps (hS : S.TellsSize) {r : BatchRequest} {m : Int} {buff : Bytes} {i : Nat}
    (h : b.KeepsField t) :
    (∀ b', batchGetEntry S g env r m buff i b = .ok b' → b'.KeepsField t) ∧
      ∀ c b', batchGetEntry S g env r m buff i b = .error (.ret c b') → t.KeepsField b'.task := by
  unfold batchGetEntry
  cases batchKey r m buff b.src with
  | none =>
    refine ⟨nofun, fun c b' he => ?_⟩
    cases he
    exact h.task
  | some e =>
    obtain ⟨k, src⟩ := e
    dsimp only
    obtain ⟨room, hroom⟩ : ∃ room, room = (if b.task.size ≤ b.dest + (9 + k.szKey.length) then
        checkBuffSize (env.alloc (2 * i)) b.dest (9 + k.szKey.length) b.task
      else some b.task) := ⟨_, rfl⟩
    rw [← hroom]
    cases hr : room with
    | none =>
      refine ⟨nofun, fun c b' he => ?_⟩
      cases he
      exact h.task
    | some t₁ =>
      have ht₁ : t.KeepsField t₁ := by
        rw [hr] at hroom
        split at hroom
        · exact h.task.grown (by omega) hroom.symm
        · rw [Option.some.inj hroom]
          exact h.task
      have hkey : t.KeepsField
          ((t₁.write b.dest (int2buff k.szKey.length)).write (b.dest + 4) k.szKey) := by
        have hdest := h.dest
        unfold sizeofHeader at hdest
        exact (ht₁.write (.inl (by unfold keepAliveOffset; omega))).write
          (.inl (by unfold keepAliveOffset; omega))
      have hdest : sizeofHeader + 8 ≤ b.dest + 4 + k.szKey.length + 1 := by
        have := h.dest
        omega
      have hvalue : ∀ {t₂ : FastTaskInfo} (v : Bytes), t.KeepsField t₂ →
          t.KeepsField (t₂.write (b.dest + 4 + k.szKey.length + 1) v) := fun v h₂ =>
        h₂.write (.inl (by unfold sizeofHeader at hdest; unfold keepAliveOffset; omega))
      dsimp only
      split
      · rename_i h0
        refine ⟨fun b' he => ?_, fun c b' he => by cases he⟩
        cases he
        exact batchGetValue_keeps (hS _ _ _ _ (.inl h0)) ⟨hvalue _ hkey, hdest⟩
      split
      · rename_i hspace
        split
        · refine ⟨nofun, fun c b' he => ?_⟩
          cases he
          exact hkey
        · rename_i t₂ hgrow
          have ht₂ := hkey.grown (hS _ _ _ _ (.inr hspace)) hgrow
          split
          · refine ⟨fun b' he => ?_, fun c b' he => by cases he⟩
            cases he
            exact BatchState.KeepsField.getFailed ⟨ht₂, hdest⟩ _
          · rename_i h0
            refine ⟨fun b' he => ?_, fun c b' he => by cases he⟩
            cases he
            exact batchGetValue_keeps (hS _ _ _ _ (.inl (not_not.mp h0))) ⟨hvalue _ ht₂, hdest⟩
      · refine ⟨fun b' he => ?_, fun c b' he => by cases he⟩
        cases he
        exact BatchState.KeepsField.getFailed ⟨hkey, hdest⟩ _

theorem batchDelEntry_keeps {r : BatchRequest} {m : Int} {buff : Bytes} {b' : BatchState σ}
    (h : b.KeepsField t) (he : batchDelEntry S g r m buff b = .ok b') : b'.KeepsField t := by
  have hdest := h.dest
  unfold sizeofHeader at hdest
  unfold batchDelEntry at he
  cases hk : batchKey r m buff b.src with
  | none =>
    rw [hk] at he
    cases he
  | some e =>
    rw [hk] at he
    dsimp only at he
    have htask : ∀ status : Bytes, t.KeepsField
        (((b.task.write b.dest (int2buff e.1.szKey.length)).write (b.dest + 4) e.1.szKey).write
          (b.dest + 4 + e.1.szKey.length) status) := fun status =>
      ((h.task.write (.inl (by unfold keepAliveOffset; omega))).write
        (.inl (by unfold keepAliveOffset; omega))).write (.inl (by unfold keepAliveOffset; omega))
    split at he <;> cases he <;> exact ⟨htask _, by show 19 + 8 ≤ _; dsimp only; omega⟩

theorem dealCmdBatchKeys_keeps (h : t.KeepsField t)
    {entry : BatchRequest → Bytes → Nat → BatchState σ → Except (Stop σ) (BatchState σ)}
    {finish : BatchRequest → BatchState σ → Reply σ}
    (hok : ∀ r i (b b' : BatchState σ), b.KeepsField t → entry r (r.inBuff t) i b = .ok b' →
      b'.KeepsField t)
    (herr : ∀ r i c (b b' : BatchState σ), b.KeepsField t →
      entry r (r.inBuff t) i b = .error (.ret c b') → t.KeepsField b'.task)
    (hfinish : ∀ r (b : BatchState σ), b.KeepsField t → t.KeepsField (finish r b).task) :
    t.KeepsField (dealCmdBatchKeys g t s entry finish).task := by
  rcases dealCmdBatchKeys_cases (g := g) t s entry finish with ⟨-, heq⟩ | ⟨r, -, hend⟩
  · rw [heq]
    exact h.headerOnly
  have hloop := batchLoop_rule (entry r (r.inBuff t)) (fun _ b => b.KeepsField t)
    (fun b => t.KeepsField b.task) (fun _ i b b' hb he => hok r i b b' hb he)
    (fun _ i b c b' hb he => herr r i c b b' hb he) r.keyCount 0 (batchKeysStart r t s)
    ⟨h.behind 0 _, le_rfl⟩
  rcases hend with ⟨c, b, hl, heq⟩ | ⟨-, heq⟩ | ⟨b, hl, heq⟩
  · rw [heq]
    exact (hloop.2 c b hl).headerOnly
  · rw [heq]
    exact h.headerOnly
  · rw [heq]
    have hb := hloop.1 b hl
    exact batchReply_keeps hb (hfinish r b hb)

theorem dealCmdBatchSet_keeps_field (h : t.KeepsField t) {reply : Reply σ}
    (hreply : dealCmdBatchSet S g t s = some reply) : t.KeepsField reply.task := by
  rcases dealCmdBatchSet_cases hreply with ⟨-, rfl⟩ | ⟨r, -, hend⟩
  · exact h.headerOnly
  have hloop := batchLoop_rule (fun _ => batchSetEntry S g r t.inBodyLen)
    (fun _ b => b.KeepsField t ∧ sizeofHeader ≤ b.src) (fun b => t.KeepsField b.task)
    (by
      rintro _ _ b b' ⟨hb, hsrc⟩ he
      obtain ⟨k, valueLen, src, hstep⟩ := batchSetEntry_ok he
      obtain ⟨-, hle, -⟩ := batchSetHead_some hstep.head
      have hdest := hb.dest
      unfold sizeofHeader at hdest hsrc
      refine ⟨⟨?_, by rw [hstep.dest_eq]; unfold sizeofHeader; omega⟩,
        by rw [hstep.src_eq]; unfold sizeofHeader; omega⟩
      rw [hstep.task_eq]
      refine (((hb.task.write (.inl ?_)).write (.inl ?_)).write (.inl ?_)).write (.inl ?_) <;>
        · unfold keepAliveOffset
          omega)
    (by
      rintro _ _ b c b' ⟨hb, -⟩ he
      obtain ⟨-, -, rfl⟩ := batchSetEntry_error he
      exact hb.task)
    r.keyCount 0 (batchSetStart r t s) ⟨⟨h.behind 0 _, le_rfl⟩, Nat.le_add_right _ _⟩
  rcases hend with ⟨c, b, hl, rfl⟩ | ⟨b, hl, rfl⟩
  · exact (hloop.2 c b hl).headerOnly
  · have hb := (hloop.1 b hl).1
    exact batchReply_keeps hb (hb.task.int _)

/-! ## The dispatcher -/

theorem dealCmdSyncReq_keeps {iniResult : Int} {y : SyncState} (h : t.KeepsField t) :
    t.KeepsField (dealCmdSyncReq g iniResult t y).2.1 := by
  have hpack : ∀ y, t.KeepsField (packSyncReqBody t y) := fun y =>
    ((((h.withLength _).behind 0 _).behind 1 _).behind (1 + ipAddressSize) _).behind
      (1 + ipAddressSize + 4) _
  unfold dealCmdSyncReq
  split
  · exact h.headerOnly
  split
  · exact hpack _
  dsimp only
  split
  · exact h.headerOnly
  split
  · exact h.headerOnly
  split
  · split
    · exact h.headerOnly
    · exact hpack _
  · exact h.headerOnly

theorem dealCmdSyncDone_keeps {iniResult : Int} {y : SyncState} (h : t.KeepsField t) :
    t.KeepsField (dealCmdSyncDone g iniResult t y).2.1 := by
  unfold dealCmdSyncDone
  split_ifs <;> exact h.headerOnly

theorem dealCmd_keeps (hS : S.TellsSize) (h : t.KeepsField t) {cmd : Option ProtoCmd}
    {reply : Reply σ} (hreply : dealCmd S g env t s cmd = some reply) :
    t.KeepsField reply.task := by
  have hreject : ∀ {r : Reply σ}, some (reject t s) = some r → t.KeepsField r.task := by
    intro r hr
    rw [← Option.some.inj hr]
    exact h.headerOnly
  cases cmd with
  | none => exact hreject hreply
  | some c =>
    cases c with
    | batchSet => exact dealCmdBatchSet_keeps_field h hreply
    | quit => exact hreject hreply
    | resp => exact hreject hreply
    | get =>
      rw [← Option.some.inj hreply]
      exact dealCmdGet_keeps h
    | set =>
      rw [← Option.some.inj hreply]
      exact dealCmdSet_keeps h
    | syncSet =>
      rw [← Option.some.inj hreply]
      exact dealCmdSet_keeps h
    | inc =>
      rw [← Option.some.inj hreply]
      exact dealCmdInc_keeps h
    | del =>
      rw [← Option.some.inj hreply]
      exact dealCmdDel_keeps h
    | syncDel =>
      rw [← Option.some.inj hreply]
      exact dealCmdDel_keeps h
    | heartBeat =>
      rw [← Option.some.inj hreply]
      exact h.headerOnly
    | batchGet =>
      rw [← Option.some.inj hreply]
      exact dealCmdBatchKeys_keeps h
        (fun r i b b' hb he => (batchGetEntry_keeps hS hb).1 b' he)
        (fun r i c b b' hb he => (batchGetEntry_keeps hS hb).2 c b' he)
        (fun r b hb => hb.task.int _)
    | batchDel =>
      rw [← Option.some.inj hreply]
      refine dealCmdBatchKeys_keeps h (fun r i b b' hb he => batchDelEntry_keeps hb he)
        (fun r i c b b' hb he => ?_) (fun r b hb => hb.task)
      obtain ⟨-, -, rfl⟩ := batchDelEntry_error he
      exact hb.task
    | syncReq =>
      rw [← Option.some.inj hreply]
      exact dealCmdSyncReq_keeps h
    | syncNotify =>
      rw [← Option.some.inj hreply]
      exact dealCmdSyncDone_keeps h
    | stat =>
      rw [← Option.some.inj hreply]
      unfold dealCmdStat
      split
      · exact h.headerOnly
      split
      · exact h.headerOnly
      · exact (h.behind 0 _).withLength _
    | getSubKeys =>
      rw [← Option.some.inj hreply]
      exact dealCmdGetSubKeys_keeps h

/-- **The answer to a request has its `keep_alive`.** -/
theorem workDealTask_keepAlive (hS : S.TellsSize) (hroom : sizeofHeader ≤ t.data.length)
    {status : Int} {t' : FastTaskInfo} {s' : Server σ}
    (hdeal : workDealTask S g env t s = some (some (status, t'), s')) :
    t'.keepAlive = t.keepAlive := by
  have h : t.KeepsField t := ⟨rfl, hroom⟩
  unfold workDealTask at hdeal
  split at hdeal
  · cases hdeal
  · obtain ⟨reply, hreply, heq⟩ := Option.map_eq_some_iff.mp hdeal
    obtain ⟨⟨rfl, rfl⟩, -⟩ := by simpa only [Prod.mk.injEq, Option.some.injEq] using heq
    have hkeeps := dealCmd_keeps hS h hreply
    have hstatus : t.KeepsField (reply.task.write statusOffset (statusByte reply.status)) :=
      hkeeps.write (.inl (by decide))
    have htime := hstatus.write (.inr (show timestampOffset + (int2buff g.currentTime).length ≤ _ by
      rw [int2buff_length]
      decide))
    have hcmd := htime.write (.inr (show cmdOffset + [ProtoCmd.resp.toByte].length ≤ _ by decide))
    exact (hcmd.write (.inr (by rw [int2buff_length]; decide))).keepAlive

end Handlers

end FastDht
