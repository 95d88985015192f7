import FastDht.Server.Actions

/-! # The handlers act as `Action.Of` allows

One lemma per handler, and `workDealTask_acts` for all of them. The batch loops
go by an invariant of the loop; for BATCH_SET it says that the response has not
reached the entries that are still to be read, which holds as long as no value
length is negative. -/
namespace FastDht
open Lib Relation

variable {σ : Type} {S : StoreFuncs σ} {g : Globals}
variable {t : FastTaskInfo} {h : ReqHeader} {op : OpType} {i : Nat} {s : Server σ} {buff : Bytes}
  {env : TaskEnv}

/-! ## What a parsed request has in common with its bytes -/

theorem checkGroupId_some (hp : checkGroupId g t = some h) :
    t.header g = h ∧ g.ownsGroup h.groupId = true := by
  unfold checkGroupId at hp
  split at hp
  · rename_i hown
    have hh := Option.some.inj hp
    exact ⟨hh, hh ▸ hown⟩
  · cases hp

/-- A parsed request for one key: the header, and a sub key of the length the
body gives. -/
structure KeyRequest.Of (g : Globals) (t : FastTaskInfo) (r : KeyRequest) : Prop where
  header : t.header g = r.header
  owns : g.ownsGroup r.header.groupId = true
  keyLen : (r.keyInfo.szKey.length : Int) = t.keyLen

theorem parseKeyRequest_of {n : Int} {r : KeyRequest}
    (hp : parseKeyRequest g n t = some r) : r.Of g t := by
  simp only [parseKeyRequest, Option.bind_eq_bind, Option.bind_eq_some_iff, Option.pure_def,
    Option.some.injEq] at hp
  obtain ⟨h, hh, k, -, k', hk, rfl⟩ := hp
  obtain ⟨hheader, hown⟩ := checkGroupId_some hh
  unfold parseCommonBodyKey at hk
  split at hk
  · cases hk
  · split at hk
    · cases hk
    · cases hk
      refine ⟨hheader, hown, ?_⟩
      simp only [FDHTKeyInfo.withKey, FastTaskInfo.bodyBytes, readAt_length]
      omega

theorem parseExact_of {n : Int} {source : Bool} {r : KeyRequest}
    (hp : parseExact g n source t = some r) : r.Of g t :=
  parseKeyRequest_of (Option.filter_eq_some_iff.mp hp).1

theorem parseSet_of {source : Bool} {r : KeyRequest} {valueLen : Nat}
    (hp : parseSet g source t = some (r, valueLen)) : r.Of g t ∧ valueLen < 2 ^ 31 := by
  obtain ⟨r', hr, hp⟩ := Option.bind_eq_some_iff.mp hp
  dsimp only at hp
  split at hp
  · cases hp
  split at hp
  · cases hp
    have hlt := buff2int_lt (readAt t.data (sizeofHeader + r.off) 4)
    refine ⟨parseKeyRequest_of hr, ?_⟩
    unfold FastTaskInfo.bodyInt FastTaskInfo.intAt
    omega
  · cases hp

theorem KeyRequest.Of.key_nonempty {r : KeyRequest} (h : r.Of g t)
    (hne : t.keyLen ≠ 0) : r.keyInfo.szKey ≠ [] := by
  intro hnil
  have := h.keyLen
  rw [hnil] at this
  exact hne this.symm

theorem parseBatchRequest_of {n : Int} {r : BatchRequest} (hp : parseBatchRequest g n t = some r) :
    t.header g = r.header ∧ g.ownsGroup r.header.groupId = true := by
  simp only [parseBatchRequest, Option.bind_eq_bind, Option.bind_eq_some_iff] at hp
  obtain ⟨h, hh, k, -, hp⟩ := hp
  split at hp
  · cases hp
  · rw [← Option.some.inj hp]
    exact checkGroupId_some hh

theorem bodyBytes_write (t : FastTaskInfo) (off : Nat) (n : Int) :
    (t.write (sizeofHeader + off) (int2buff n)).bodyBytes off 4 = int2buff n :=
  readAt_writeAt_self t.data (int2buff n) (sizeofHeader + off)

/-! ## Single keys -/

theorem refreshes_of_cmd (hcmd : t.cmd = some .get ∨ t.cmd = some .batchGet)
    (hne : toInt32 h.newExpires ≠ fdhtExpiresNone) : t.refreshes h = true := by
  rcases hcmd with hcmd | hcmd <;> simp [FastTaskInfo.refreshes, hcmd, hne]

theorem getValue_acts (hcmd : t.cmd = some .get) {r : KeyRequest} (hh : t.header g = r.header)
    (n : Int) (t' : FastTaskInfo) (s : Server σ) :
    Acts S g (Action.Of g t (t.header g)) s (getValue S g r n t' s).server := by
  unfold getValue
  split
  · exact .refl
  split
  · rename_i hne
    refine .run (.partialSet r.header.groupId r.keyInfo.packFullKey
      (toInt32 r.header.newExpires)) (refreshes_of_cmd (.inl hcmd) (by rw [hh]; exact hne)) ?_
    rfl
  · exact .refl

theorem dealCmdGet_acts (hcmd : t.cmd = some .get) (env : TaskEnv)
    (s : Server σ) : Acts S g (Action.Of g t (t.header g)) s (dealCmdGet S g env t s).server := by
  unfold dealCmdGet
  split
  · exact .refl
  rename_i r hp
  have hget : ∀ (s : Server σ) (n : Int), Acts S g (Action.Of g t (t.header g)) s
      { s with store := (S.get s.store r.header.groupId r.keyInfo.packFullKey n).2 } :=
    fun s n => .run (.get r.header.groupId r.keyInfo.packFullKey n) trivial rfl
  have hh := (parseExact_of hp).header
  dsimp only
  split
  · exact (hget s _).trans (getValue_acts hcmd hh _ _ _)
  split
  · split
    · exact hget s _
    · split
      · exact (hget s _).trans (hget _ _)
      · exact ((hget s _).trans (hget _ _)).trans (getValue_acts hcmd hh _ _ _)
  · exact hget s _

/-- The buffer of SET with the expiry in front of the value. -/
def setBuffer (r : KeyRequest) (t : FastTaskInfo) : FastTaskInfo :=
  (t.write (sizeofHeader + r.off) (int2buff r.header.newExpires)).headerOnly

def setCall (S : StoreFuncs σ) (r : KeyRequest) (t : FastTaskInfo) (valueLen : Nat)
    (s : Server σ) : Int × σ :=
  S.set s.store r.header.groupId r.keyInfo.packFullKey
    ((setBuffer r t).bodyBytes r.off (4 + valueLen))

def setWrite (g : Globals) (op : OpType) (r : KeyRequest) (t : FastTaskInfo) (valueLen : Nat) :
    LogWrite where
  timestamp := if op = .sourceSet then g.currentTime else r.header.timestamp
  opType := op
  keyHashCode := r.header.keyHashCode
  expires := r.header.newExpires
  keyInfo := r.keyInfo
  pValue := (setBuffer r t).bodyBytes (r.off + 4) valueLen
  valueLen := valueLen

def delWrite (g : Globals) (op : OpType) (r : KeyRequest) : LogWrite where
  timestamp := if op = .sourceDel then g.currentTime else r.header.timestamp
  opType := op
  keyHashCode := r.header.keyHashCode
  expires := fdhtExpiresNever
  keyInfo := r.keyInfo
  pValue := []
  valueLen := 0

def incCall (S : StoreFuncs σ) (g : Globals) (r : KeyRequest) (t : FastTaskInfo) (s : Server σ) :
    Int × Bytes × σ :=
  S.incEx s.store r.header.groupId r.keyInfo.packFullKey (t.bodyInt r.off) incValueLen
    (toInt32 r.header.newExpires) g.currentTime

theorem dealCmdSet_eq {r : KeyRequest} {n : Nat}
    (hp : parseSet g (op = .sourceSet) t = some (r, n)) (s : Server σ) :
    (dealCmdSet S g op t s).status = (setCall S r t n s).1 ∧
      (dealCmdSet S g op t s).server =
        let s₁ := s.logged g (setCall S r t n s) (setWrite g op r t n)
        if (setCall S r t n s).1 = 0 ∧ g.storeSubKeys = true ∧ op = .sourceSet then
          (keyAdd S g r.header.groupId r.keyInfo r.header.keyHashCode s₁).2
        else s₁ := by
  unfold dealCmdSet
  rw [hp]
  dsimp only
  split
  · rename_i hne
    have hne' : ¬ ((setCall S r t n s).1 = 0 ∧ g.storeSubKeys = true ∧ op = .sourceSet) :=
      fun h => hne h.1
    rw [if_neg hne']
    exact ⟨rfl, rfl⟩
  · rename_i h0
    have h0' : (setCall S r t n s).1 = 0 := not_not.mp h0
    exact ⟨h0'.symm, if_congr ⟨fun h => ⟨h0', h⟩, fun h => h.2⟩ rfl rfl⟩

theorem dealCmdDel_eq {r : KeyRequest}
    (hp : parseExact g 12 (op = .sourceDel) t = some r) (s : Server σ) :
    let call := S.delete s.store r.header.groupId r.keyInfo.packFullKey
    (dealCmdDel S g op t s).status = call.1 ∧
      (dealCmdDel S g op t s).server =
        let s₁ := s.logged g call (delWrite g op r)
        if call.1 = 0 ∧ g.storeSubKeys = true ∧ op = .sourceDel then
          (keyDel S g r.header.groupId r.keyInfo r.header.keyHashCode s₁).2
        else s₁ := by
  intro call
  unfold dealCmdDel
  rw [hp]
  dsimp only
  split
  · rename_i hne
    have hne' : ¬ (call.1 = 0 ∧ g.storeSubKeys = true ∧ op = .sourceDel) := fun h => hne h.1
    rw [if_neg hne']
    exact ⟨rfl, rfl⟩
  · rename_i h0
    have h0' : call.1 = 0 := not_not.mp h0
    exact ⟨h0'.symm, if_congr ⟨fun h => ⟨h0', h⟩, fun h => h.2⟩ rfl rfl⟩

theorem dealCmdInc_eq {r : KeyRequest} (hp : parseExact g 16 true t = some r) (s : Server σ) :
    let call := incCall S g r t s
    (dealCmdInc S g t s).status = call.1 ∧
      (dealCmdInc S g t s).server =
        let s₁ := s.logged g (call.1, call.2.2) (incWrite g r.keyInfo r.header.keyHashCode call.2.1)
        if call.1 = 0 ∧ g.storeSubKeys = true then
          (keyAdd S g r.header.groupId r.keyInfo r.header.keyHashCode s₁).2
        else s₁ := by
  intro call
  unfold dealCmdInc
  rw [hp]
  dsimp only
  split
  · rename_i hne
    have hne' : ¬ (call.1 = 0 ∧ g.storeSubKeys = true) := fun h => hne h.1
    rw [if_neg hne']
    exact ⟨rfl, rfl⟩
  · rename_i h0
    have h0' : call.1 = 0 := not_not.mp h0
    exact ⟨h0'.symm, if_congr ⟨fun h => ⟨h0', h⟩, fun h => h.2⟩ rfl rfl⟩

theorem setBuffer_value (g : Globals) (op : OpType) (r : KeyRequest) (t : FastTaskInfo) (n : Nat) :
    (setBuffer r t).bodyBytes r.off (4 + n) =
      int2buff (setWrite g op r t n).expires ++ (setWrite g op r t n).pValue := by
  have h4 : (setBuffer r t).bodyBytes r.off 4 = int2buff r.header.newExpires :=
    bodyBytes_write t r.off _
  unfold setWrite
  rw [← h4]
  exact readAt_add _ _ _ _

theorem setWrite_of (hcmd : op = .sourceSet ∧ t.cmd = some .set ∨
    op = .replicaSet ∧ t.cmd = some .syncSet) {r : KeyRequest} (hr : r.Of g t) {n : Nat}
    (hlt : n < 2 ^ 31) : (setWrite g op r t n).Of g t r.header where
  isWrite := by
    rcases hcmd with ⟨-, hc⟩ | ⟨-, hc⟩ <;> simp [FastTaskInfo.isWrite, FastTaskInfo.setsExpiry, hc]
  owns := hr.owns
  keyHashCode := rfl
  timestamp := by
    rcases hcmd with ⟨rfl, hc⟩ | ⟨rfl, hc⟩ <;>
      simp [setWrite, FastTaskInfo.recordTime, hc, hr.header]
  expires := .inr ⟨by
    rcases hcmd with ⟨-, hc⟩ | ⟨-, hc⟩ <;> simp [FastTaskInfo.setsExpiry, hc], rfl⟩
  key_nonempty := hr.key_nonempty
  pValue_length := by simp [setWrite, FastTaskInfo.bodyBytes]
  valueLen_lt := by unfold setWrite; dsimp only; omega

theorem delWrite_of (hcmd : op = .sourceDel ∧ t.cmd = some .del ∨
    op = .replicaDel ∧ t.cmd = some .syncDel) {r : KeyRequest} (hr : r.Of g t) :
    (delWrite g op r).Of g t r.header where
  isWrite := by
    rcases hcmd with ⟨-, hc⟩ | ⟨-, hc⟩ <;> simp [FastTaskInfo.isWrite, FastTaskInfo.setsExpiry, hc]
  owns := hr.owns
  keyHashCode := rfl
  timestamp := by
    rcases hcmd with ⟨rfl, hc⟩ | ⟨rfl, hc⟩ <;>
      simp [delWrite, FastTaskInfo.recordTime, hc, hr.header]
  expires := .inl rfl
  key_nonempty := hr.key_nonempty
  pValue_length := rfl
  valueLen_lt := by unfold delWrite; dsimp only; omega

theorem dealCmdSet_rest (hcmd : op = .sourceSet ∧ t.cmd = some .set ∨
    op = .replicaSet ∧ t.cmd = some .syncSet) {r : KeyRequest} {n : Nat}
    (hp : parseSet g (op = .sourceSet) t = some (r, n)) (s : Server σ) :
    Acts S g (Action.Of g t r.header) (s.logged g (setCall S r t n s) (setWrite g op r t n))
      (dealCmdSet S g op t s).server := by
  rw [(dealCmdSet_eq hp s).2]
  split
  · rename_i hsub
    obtain ⟨-, hc⟩ | ⟨hop, -⟩ := hcmd
    · exact keyAdd_acts (.of_cmd hc (by decide) (parseSet_of hp).1.owns) _ _
    · rw [hop] at hsub
      exact absurd hsub.2.2 (by decide)
  · exact .refl

theorem dealCmdDel_rest (hcmd : op = .sourceDel ∧ t.cmd = some .del ∨
    op = .replicaDel ∧ t.cmd = some .syncDel) {r : KeyRequest}
    (hp : parseExact g 12 (op = .sourceDel) t = some r) (s : Server σ) :
    Acts S g (Action.Of g t r.header) (s.logged g
      (S.delete s.store r.header.groupId r.keyInfo.packFullKey) (delWrite g op r))
      (dealCmdDel S g op t s).server := by
  rw [(dealCmdDel_eq hp s).2]
  split
  · rename_i hsub
    obtain ⟨-, hc⟩ | ⟨hop, -⟩ := hcmd
    · exact keyDel_acts (.of_cmd hc (by decide) (parseExact_of hp).owns) _ _
    · rw [hop] at hsub
      exact absurd hsub.2.2 (by decide)
  · exact .refl

theorem dealCmdInc_rest (hcmd : t.cmd = some .inc) {r : KeyRequest}
    (hp : parseExact g 16 true t = some r) (s : Server σ) :
    Acts S g (Action.Of g t r.header) (s.logged g ((incCall S g r t s).1, (incCall S g r t s).2.2)
      (incWrite g r.keyInfo r.header.keyHashCode (incCall S g r t s).2.1))
      (dealCmdInc S g t s).server := by
  rw [(dealCmdInc_eq hp s).2]
  split
  · exact keyAdd_acts (.of_cmd hcmd (by decide) (parseExact_of hp).owns) _ _
  · exact .refl

theorem dealCmdSet_reject (hp : parseSet g (op = .sourceSet) t = none) (s : Server σ) :
    dealCmdSet S g op t s = reject t s := by
  unfold dealCmdSet
  rw [hp]

theorem dealCmdDel_reject (hp : parseExact g 12 (op = .sourceDel) t = none) (s : Server σ) :
    dealCmdDel S g op t s = reject t s := by
  unfold dealCmdDel
  rw [hp]

theorem dealCmdInc_reject (hp : parseExact g 16 true t = none) (s : Server σ) :
    dealCmdInc S g t s = reject t s := by
  unfold dealCmdInc
  rw [hp]

theorem dealCmdSet_acts (hcmd : op = .sourceSet ∧ t.cmd = some .set ∨
    op = .replicaSet ∧ t.cmd = some .syncSet) (s : Server σ) :
    Acts S g (Action.Of g t (t.header g)) s (dealCmdSet S g op t s).server := by
  cases hp : parseSet g (op = .sourceSet) t with
  | none =>
    rw [dealCmdSet_reject hp]
    exact .refl
  | some e =>
    obtain ⟨r, n⟩ := e
    obtain ⟨hr, hlt⟩ := parseSet_of hp
    rw [hr.header]
    refine .trans (Acts.run (.set r.header.groupId ((setBuffer r t).bodyBytes r.off (4 + n))
      (setWrite g op r t n)) ⟨rfl, ?_, setWrite_of hcmd hr hlt, ?_⟩ rfl) (dealCmdSet_rest hcmd hp s)
    · rcases hcmd with ⟨rfl, -⟩ | ⟨rfl, -⟩ <;> rfl
    · exact fun _ => ⟨Int.natCast_nonneg _, setBuffer_value g op r t n⟩

theorem dealCmdDel_acts (hcmd : op = .sourceDel ∧ t.cmd = some .del ∨
    op = .replicaDel ∧ t.cmd = some .syncDel) (s : Server σ) :
    Acts S g (Action.Of g t (t.header g)) s (dealCmdDel S g op t s).server := by
  cases hp : parseExact g 12 (op = .sourceDel) t with
  | none =>
    rw [dealCmdDel_reject hp]
    exact .refl
  | some r =>
    have hr := parseExact_of hp
    rw [hr.header]
    refine .trans (Acts.run (.delete r.header.groupId (delWrite g op r))
      ⟨rfl, ?_, delWrite_of hcmd hr, rfl⟩ rfl) (dealCmdDel_rest hcmd hp s)
    rcases hcmd with ⟨rfl, -⟩ | ⟨rfl, -⟩ <;> rfl

theorem dealCmdInc_acts (hcmd : t.cmd = some .inc) (s : Server σ) :
    Acts S g (Action.Of g t (t.header g)) s (dealCmdInc S g t s).server := by
  cases hp : parseExact g 16 true t with
  | none =>
    rw [dealCmdInc_reject hp]
    exact .refl
  | some r =>
    have hr := parseExact_of hp
    rw [hr.header]
    exact .trans (Acts.run (.inc r.header.groupId r.keyInfo r.header.keyHashCode (t.bodyInt r.off)
      (toInt32 r.header.newExpires)) ⟨hr.owns, rfl, rfl, rfl, hcmd, hr.key_nonempty⟩ rfl)
      (dealCmdInc_rest hcmd hp s)

theorem dealCmdGetSubKeys_acts (t : FastTaskInfo) (s : Server σ) :
    Acts S g (Action.Of g t h) s (dealCmdGetSubKeys S g t s).server := by
  unfold dealCmdGetSubKeys
  split
  · exact .refl
  split
  · exact .refl
  split
  · exact .refl
  · rename_i header _ _ k _ _
    have hget := keyGet_acts (S := S) (g := g) (t := t) (h := h) header.groupId k
      (t.size - sizeofHeader + 4) s
    dsimp only
    split
    · exact hget
    · exact hget

/-! ## Batches -/

/-- The rule for batch loops: `Inv n` holds with `n` entries left. -/
theorem batchLoop_rule (entry : Nat → BatchState σ → Except (Stop σ) (BatchState σ))
    (Inv : Nat → BatchState σ → Prop) (Post : BatchState σ → Prop)
    (hok : ∀ n i b b', Inv (n + 1) b → entry i b = .ok b' → Inv n b')
    (herr : ∀ n i b c b', Inv (n + 1) b → entry i b = .error (.ret c b') → Post b') :
    ∀ n i b, Inv n b → (∀ b', batchLoop entry n i b = .ok b' → Inv 0 b') ∧
      ∀ c b', batchLoop entry n i b = .error (.ret c b') → Post b'
  | 0, _, b, h => ⟨fun b' hb => by cases hb; exact h, fun _ _ hb => by cases hb⟩
  | n + 1, i, b, h => by
    unfold batchLoop
    cases hentry : entry i b with
    | error e => exact ⟨fun b' hb => (by cases hb), fun c b' hb => by
        cases hb
        exact herr n i b c b' h hentry⟩
    | ok b' => exact batchLoop_rule entry Inv Post hok herr n (i + 1) b' (hok n i b b' h hentry)

/-- A batch loop ends in the state `b'`, at its last entry or at one where the
handler returns. -/
def BatchEnds (entry : Nat → BatchState σ → Except (Stop σ) (BatchState σ)) (n i : Nat)
    (b b' : BatchState σ) : Prop :=
  batchLoop entry n i b = .ok b' ∨ ∃ c, batchLoop entry n i b = .error (.ret c b')

theorem batchEnds_succ {entry : Nat → BatchState σ → Except (Stop σ) (BatchState σ)} {n : Nat}
    {b b' : BatchState σ} (h : BatchEnds entry (n + 1) i b b') :
    (∃ c, entry i b = .error (.ret c b')) ∨
      ∃ b₁, entry i b = .ok b₁ ∧ BatchEnds entry n (i + 1) b₁ b' := by
  unfold BatchEnds batchLoop at h
  cases he : entry i b with
  | error e =>
    rw [he] at h
    exact .inl (h.resolve_left nofun)
  | ok b₁ =>
    rw [he] at h
    exact .inr ⟨b₁, rfl, h⟩

theorem batchLoop_stop {entry : Nat → BatchState σ → Except (Stop σ) (BatchState σ)} {e : Stop σ} :
    ∀ {n i b}, batchLoop entry n i b = .error e → ∃ i b, entry i b = .error e
  | 0, _, _, h => nomatch h
  | n + 1, i, b, h => by
    unfold batchLoop at h
    cases he : entry i b with
    | error e' =>
      rw [he] at h
      exact ⟨i, b, he.trans h⟩
    | ok b' =>
      rw [he] at h
      exact batchLoop_stop h

theorem batchLoop_ne_crash {entry : Nat → BatchState σ → Except (Stop σ) (BatchState σ)}
    (hentry : ∀ i b, entry i b ≠ .error .crash) (n i : Nat) (b : BatchState σ) :
    batchLoop entry n i b ≠ .error .crash := fun h =>
  have ⟨i, b, he⟩ := batchLoop_stop h
  hentry i b he

theorem batchReply_failed {consumed : Bool} {finish : BatchState σ → Reply σ} {b : BatchState σ}
    (hb : b.successCount = 0) : (batchReply consumed finish b).server = b.server := by
  unfold batchReply
  rw [if_neg (by omega : ¬ 0 < b.successCount)]
  split
  · rfl
  · rfl

theorem batchReply_server {P : Server σ → Prop} {consumed : Bool}
    {finish : BatchState σ → Reply σ} {b : BatchState σ} (hb : P b.server)
    (hfinish : P (finish b).server) : P (batchReply consumed finish b).server := by
  unfold batchReply
  split
  · exact hb
  split
  · exact hfinish
  · exact hb

theorem dealCmdBatchKeys_cases (t : FastTaskInfo) (s : Server σ)
    (entry : BatchRequest → Bytes → Nat → BatchState σ → Except (Stop σ) (BatchState σ))
    (finish : BatchRequest → BatchState σ → Reply σ) :
    (parseBatchKeys g t = none ∧ dealCmdBatchKeys g t s entry finish = reject t s) ∨
    ∃ r, parseBatchKeys g t = some r ∧
      ((∃ c b, batchLoop (entry r (r.inBuff t)) r.keyCount 0 (batchKeysStart r t s) =
          .error (.ret c b) ∧
        dealCmdBatchKeys g t s entry finish = ⟨c, b.task.headerOnly, b.server⟩) ∨
      (batchLoop (entry r (r.inBuff t)) r.keyCount 0 (batchKeysStart r t s) = .error .crash ∧
        dealCmdBatchKeys g t s entry finish = reject t s) ∨
      ∃ b, batchLoop (entry r (r.inBuff t)) r.keyCount 0 (batchKeysStart r t s) = .ok b ∧
        dealCmdBatchKeys g t s entry finish =
          batchReply (t.inBodyLen = r.commonFiledsLen + b.src) (finish r) b) := by
  unfold dealCmdBatchKeys
  cases hp : parseBatchKeys g t with
  | none => exact .inl ⟨rfl, rfl⟩
  | some r =>
    refine .inr ⟨r, rfl, ?_⟩
    dsimp only
    split
    · rename_i c b hl
      exact .inl ⟨c, b, hl, rfl⟩
    · rename_i hl
      exact .inr (.inl ⟨hl, rfl⟩)
    · rename_i b hl
      exact .inr (.inr ⟨b, hl, rfl⟩)

theorem dealCmdBatchKeys_acts
    {entry : BatchRequest → Bytes → Nat → BatchState σ → Except (Stop σ) (BatchState σ)}
    {finish : BatchRequest → BatchState σ → Reply σ}
    (hok : ∀ r i b b', parseBatchKeys g t = some r → entry r (r.inBuff t) i b = .ok b' →
      Acts S g (Action.Of g t h) b.server b'.server)
    (herr : ∀ r i b c b', parseBatchKeys g t = some r →
      entry r (r.inBuff t) i b = .error (.ret c b') →
      Acts S g (Action.Of g t h) b.server b'.server) (hfinish : ∀ r b, parseBatchKeys g t = some r →
      Acts S g (Action.Of g t h) b.server (finish r b).server) :
    Acts S g (Action.Of g t h) s (dealCmdBatchKeys g t s entry finish).server := by
  rcases dealCmdBatchKeys_cases t s entry finish with ⟨-, heq⟩ | ⟨r, hr, hend⟩
  · rw [heq]
    exact .refl
  have hloop := batchLoop_rule (entry r (r.inBuff t))
    (fun _ b => Acts S g (Action.Of g t h) s b.server)
    (fun b => Acts S g (Action.Of g t h) s b.server)
    (fun _ i b b' hb he => hb.trans (hok r i b b' hr he))
    (fun _ i b c b' hb he => hb.trans (herr r i b c b' hr he))
    r.keyCount 0 (batchKeysStart r t s) .refl
  rcases hend with ⟨c, b, hl, heq⟩ | ⟨-, heq⟩ | ⟨b, hl, heq⟩
  · rw [heq]
    exact hloop.2 _ _ hl
  · rw [heq]
    exact .refl
  · have hb := hloop.1 _ hl
    rw [heq]
    exact batchReply_server hb (hb.trans (hfinish r b hr))

theorem batchKey_nonempty {r : BatchRequest} {n : Int} {src src' : Nat}
    {k : FDHTKeyInfo} (hk : batchKey r n buff src = some (k, src')) : k.szKey ≠ [] := by
  unfold batchKey at hk
  dsimp only at hk
  split at hk
  · cases hk
  split at hk
  · cases hk
  split at hk
  · cases hk
  · cases hk
    intro hnil
    have := congrArg List.length hnil
    simp only [FDHTKeyInfo.withKey, readAt_length, List.length_nil] at this
    omega

theorem batchGetValue_acts (hcmd : t.cmd = some .batchGet)
    (r : BatchRequest) (k : FDHTKeyInfo) (n : Int) (b : BatchState σ) :
    Acts S g (Action.Of g t r.header) b.server (batchGetValue S g r k n b).server := by
  unfold batchGetValue
  split
  · exact .refl
  split
  · rename_i hne
    have hset := Acts.run (S := S) (g := g) (s := b.server) (P := Action.Of g t r.header)
      (.partialSet r.header.groupId k.packFullKey (toInt32 r.header.newExpires))
      (refreshes_of_cmd (.inr hcmd) hne) rfl
    dsimp only
    split
    · exact hset
    · exact hset
  · exact .refl

theorem batchGetEntry_acts (hcmd : t.cmd = some .batchGet)
    {r : BatchRequest} {n : Int} {b b' : BatchState σ}
    (he : batchGetEntry S g env r n buff i b = .ok b' ∨
      ∃ c, batchGetEntry S g env r n buff i b = .error (.ret c b')) :
    Acts S g (Action.Of g t r.header) b.server b'.server := by
  unfold batchGetEntry at he
  split at he
  · rcases he with he | ⟨c, he⟩ <;> cases he
    exact .refl
  rename_i k src hk
  have hget : ∀ (s : Server σ) (m : Int), Acts S g (Action.Of g t r.header) s
      { s with store := (S.get s.store r.header.groupId k.packFullKey m).2 } :=
    fun s m => .run (.get r.header.groupId k.packFullKey m) trivial rfl
  dsimp only at he
  split at he
  · rcases he with he | ⟨c, he⟩ <;> cases he
    exact .refl
  split at he
  · rcases he with he | ⟨c, he⟩ <;> cases he
    refine .trans ?_ (batchGetValue_acts hcmd r k _ _)
    exact hget _ _
  split at he
  · split at he
    · rcases he with he | ⟨c, he⟩ <;> cases he
      exact hget _ _
    split at he
    · rcases he with he | ⟨c, he⟩ <;> cases he
      exact (hget _ _).trans (hget _ _)
    · rcases he with he | ⟨c, he⟩ <;> cases he
      refine .trans ?_ (batchGetValue_acts hcmd r k _ _)
      exact (hget _ _).trans (hget _ _)
  · rcases he with he | ⟨c, he⟩ <;> cases he
    exact hget _ _

theorem dealCmdBatchGet_acts (hcmd : t.cmd = some .batchGet) (env : TaskEnv) (s : Server σ) :
    Acts S g (Action.Of g t (t.header g)) s (dealCmdBatchGet S g env t s).server := by
  have hheader : ∀ r, parseBatchKeys g t = some r → t.header g = r.header :=
    fun r hr => (parseBatchRequest_of (Option.filter_eq_some_iff.mp hr).1).1
  refine dealCmdBatchKeys_acts (fun r i b b' hr he => ?_) (fun r i b c b' hr he => ?_)
    (fun _ _ _ => .refl)
  · rw [hheader r hr]
    exact batchGetEntry_acts hcmd (.inl he)
  · rw [hheader r hr]
    exact batchGetEntry_acts hcmd (.inr ⟨c, he⟩)

def batchDelWrite (g : Globals) (r : BatchRequest) (k : FDHTKeyInfo) : LogWrite where
  timestamp := g.currentTime
  opType := .sourceDel
  keyHashCode := r.header.keyHashCode
  expires := fdhtExpiresNever
  keyInfo := k
  pValue := []
  valueLen := 0

def batchDelCall (S : StoreFuncs σ) (r : BatchRequest) (k : FDHTKeyInfo) (b : BatchState σ) :
    Int × σ :=
  S.delete b.server.store r.header.groupId k.packFullKey

/-- An entry of BATCH_DEL that is not malformed. -/
structure BatchDelStep (S : StoreFuncs σ) (g : Globals) (r : BatchRequest) (n : Int) (buff : Bytes)
    (b b' : BatchState σ) (k : FDHTKeyInfo) : Prop where
  key : batchKey r n buff b.src = some (k, b'.src)
  server_eq : b'.server = b.server.logged g (batchDelCall S r k b) (batchDelWrite g r k)
  successCount_eq : b'.successCount =
    if (batchDelCall S r k b).1 ≠ 0 then b.successCount else b.successCount + 1

theorem batchDelEntry_cases (S : StoreFuncs σ) (g : Globals) (r : BatchRequest) (n : Int)
    (buff : Bytes) (b : BatchState σ) :
    (batchKey r n buff b.src = none ∧ batchDelEntry S g r n buff b = .error (.ret EINVAL b)) ∨
    ∃ b' k, batchDelEntry S g r n buff b = .ok b' ∧ BatchDelStep S g r n buff b b' k := by
  unfold batchDelEntry
  cases hk : batchKey r n buff b.src with
  | none => exact .inl ⟨rfl, rfl⟩
  | some e =>
    obtain ⟨k, src⟩ := e
    right
    dsimp only
    split
    · rename_i hdel
      exact ⟨_, k, rfl, hk, rfl, (if_pos hdel).symm⟩
    · rename_i hdel
      exact ⟨_, k, rfl, hk, rfl, (if_neg hdel).symm⟩

theorem batchDelEntry_ok {r : BatchRequest} {n : Int} {b b' : BatchState σ}
    (he : batchDelEntry S g r n buff b = .ok b') : ∃ k, BatchDelStep S g r n buff b b' k := by
  rcases batchDelEntry_cases S g r n buff b with ⟨-, heq⟩ | ⟨b₁, k, heq, hstep⟩
  · cases he.symm.trans heq
  · cases he.symm.trans heq
    exact ⟨k, hstep⟩

theorem batchDelEntry_error {r : BatchRequest} {n : Int} {c : Int}
    {b b' : BatchState σ} (he : batchDelEntry S g r n buff b = .error (.ret c b')) :
    batchKey r n buff b.src = none ∧ c = EINVAL ∧ b' = b := by
  rcases batchDelEntry_cases S g r n buff b with ⟨hkey, heq⟩ | ⟨b₁, k, heq, -⟩
  · cases he.symm.trans heq
    exact ⟨hkey, rfl, rfl⟩
  · cases he.symm.trans heq

theorem BatchDelStep.acts {r : BatchRequest} (hsrc : SourceRequest g t r.header)
    {n : Int} {b b' : BatchState σ} {k : FDHTKeyInfo} (h : BatchDelStep S g r n buff b b' k) :
    Acts S g (Action.Of g t r.header) b.server b'.server := by
  refine .run (.delete r.header.groupId (batchDelWrite g r k)) ⟨rfl, rfl, ?_, rfl⟩ h.server_eq
  exact {
    isWrite := hsrc.isWrite
    owns := hsrc.owns
    keyHashCode := rfl
    timestamp := hsrc.time.symm
    expires := .inl rfl
    key_nonempty := fun _ => batchKey_nonempty h.key
    pValue_length := rfl
    valueLen_lt := show (0 : Int) < 2 ^ 31 by decide }

theorem dealCmdBatchDel_acts (hcmd : t.cmd = some .batchDel) (s : Server σ) :
    Acts S g (Action.Of g t (t.header g)) s (dealCmdBatchDel S g t s).server := by
  have hheader : ∀ r, parseBatchKeys g t = some r →
      t.header g = r.header ∧ SourceRequest g t r.header := by
    intro r hr
    obtain ⟨hheader, hown⟩ := parseBatchRequest_of (Option.filter_eq_some_iff.mp hr).1
    exact ⟨hheader, .of_cmd hcmd (by decide) hown⟩
  refine dealCmdBatchKeys_acts (fun r i b b' hr he => ?_) (fun r i b c b' hr he => ?_)
    (fun r b hr => ?_)
  · rw [(hheader r hr).1]
    obtain ⟨k, hstep⟩ := batchDelEntry_ok he
    exact hstep.acts (hheader r hr).2
  · obtain ⟨-, -, rfl⟩ := batchDelEntry_error he
    exact .refl
  · rw [(hheader r hr).1]
    unfold batchDelFinish
    split
    · exact keyBatchDel_acts (hheader r hr).2 _ _ _
    · exact .refl

/-! ### BATCH_SET reads the buffer it writes -/

/-- An entry that has been accepted: a sub key that is not empty, and the value
length after it. -/
theorem batchSetHead_some {r : BatchRequest} {n : Int} {src src' : Nat}
    {k : FDHTKeyInfo} {valueLen : Int} (hh : batchSetHead r n t src = some (k, valueLen, src')) :
    0 < k.szKey.length ∧ src' = src + 4 + k.szKey.length ∧ valueLen = t.intAt src' := by
  unfold batchSetHead at hh
  dsimp only at hh
  split at hh
  · cases hh
  split at hh
  · cases hh
  split at hh
  · cases hh
  split at hh
  · cases hh
  · cases hh
    simp only [FDHTKeyInfo.withKey, readAt_length]
    exact ⟨by omega, trivial, trivial⟩

theorem batchSetHead_congr {r : BatchRequest} {n : Int} {t' : FastTaskInfo} {src : Nat}
    (ht : ∀ i, src ≤ i → t.data.getD i 0 = t'.data.getD i 0) :
    batchSetHead r n t src = batchSetHead r n t' src := by
  have hread : ∀ off m, src ≤ off → readAt t.data off m = readAt t'.data off m :=
    fun off m hoff => readAt_congr fun i h1 _ => ht i (by omega)
  unfold batchSetHead FastTaskInfo.intAt
  simp only [hread src 4 (le_refl _), hread (src + 4) _ (by omega),
    hread (src + 4 + (buff2int (readAt t'.data src 4)).toNat) 4 (by omega)]

theorem negativeEntry_congr {r : BatchRequest} {m : Int} {t' : FastTaskInfo} :
    ∀ (n src : Nat), (∀ i, src ≤ i → t.data.getD i 0 = t'.data.getD i 0) →
      negativeEntry r m t n src = negativeEntry r m t' n src
  | 0, _, _ => rfl
  | n + 1, src, ht => by
    unfold negativeEntry
    rw [batchSetHead_congr ht]
    cases hh : batchSetHead r m t' src with
    | none => rfl
    | some e =>
      obtain ⟨k, valueLen, src'⟩ := e
      obtain ⟨-, hsrc, -⟩ := batchSetHead_some hh
      dsimp only
      rw [negativeEntry_congr n _ fun i hi => ht i (by omega)]

/-- The buffer when an entry is handed to the store: the key has been copied to
the response, and the expiry stands in front of the value, at `src`. -/
def batchSetBuffer (r : BatchRequest) (k : FDHTKeyInfo) (src : Nat) (b : BatchState σ) :
    FastTaskInfo :=
  ((b.task.write b.dest (int2buff k.szKey.length)).write (b.dest + 4) k.szKey).write src
    (int2buff (toInt32 r.header.newExpires))

/-- What an entry of BATCH_SET stores. -/
def batchSetValue (r : BatchRequest) (k : FDHTKeyInfo) (valueLen : Int) (src : Nat)
    (b : BatchState σ) : Bytes :=
  readAt (batchSetBuffer r k src b).data src (valueLen + 4).toNat

def batchSetCall (S : StoreFuncs σ) (r : BatchRequest) (k : FDHTKeyInfo) (valueLen : Int)
    (src : Nat) (b : BatchState σ) : Int × σ :=
  S.set b.server.store r.header.groupId k.packFullKey (batchSetValue r k valueLen src b)

/-- The buffer after an entry of BATCH_SET, with its status in the response. -/
def batchSetDone (S : StoreFuncs σ) (r : BatchRequest) (k : FDHTKeyInfo) (valueLen : Int)
    (src : Nat) (b : BatchState σ) : FastTaskInfo :=
  (batchSetBuffer r k src b).write (b.dest + 4 + k.szKey.length)
    (statusByte (batchSetCall S r k valueLen src b).1)

def batchSetWrite (S : StoreFuncs σ) (g : Globals) (r : BatchRequest) (k : FDHTKeyInfo)
    (valueLen : Int) (src : Nat) (b : BatchState σ) : LogWrite where
  timestamp := g.currentTime
  opType := .sourceSet
  keyHashCode := r.header.keyHashCode
  expires := toInt32 r.header.newExpires
  keyInfo := k
  pValue := readAt (batchSetDone S r k valueLen src b).data (src + 4) valueLen.toNat
  valueLen := valueLen

/-- An entry of BATCH_SET that is applied. -/
structure BatchSetStep (S : StoreFuncs σ) (g : Globals) (r : BatchRequest) (n : Int)
    (b b' : BatchState σ) (k : FDHTKeyInfo) (valueLen : Int) (src : Nat) : Prop where
  head : batchSetHead r n b.task b.src = some (k, valueLen, src)
  le_valueLen : -4 ≤ valueLen
  src_eq : b'.src = src + (valueLen + 4).toNat
  dest_eq : b'.dest = b.dest + 4 + k.szKey.length + 1
  task_eq : b'.task = batchSetDone S r k valueLen src b
  server_eq : b'.server = b.server.logged g (batchSetCall S r k valueLen src b)
    (batchSetWrite S g r k valueLen src b)

/-- An entry is applied, or rejected with nothing done, or undefined. -/
theorem batchSetEntry_cases (S : StoreFuncs σ) (g : Globals) (r : BatchRequest) (n : Int)
    (b : BatchState σ) :
    (∃ b' k valueLen src, batchSetEntry S g r n b = .ok b' ∧
      BatchSetStep S g r n b b' k valueLen src) ∨
    (batchSetHead r n b.task b.src = none ∧ batchSetEntry S g r n b = .error (.ret EINVAL b)) ∨
    batchSetEntry S g r n b = .error .crash := by
  unfold batchSetEntry
  cases hh : batchSetHead r n b.task b.src with
  | none => exact .inr (.inl ⟨rfl, rfl⟩)
  | some e =>
    obtain ⟨k, valueLen, src⟩ := e
    dsimp only
    by_cases hneg : valueLen + 4 < 0
    · rw [if_pos hneg]
      exact .inr (.inr rfl)
    · rw [if_neg hneg]
      left
      split <;> exact ⟨_, k, valueLen, src, rfl, hh, by omega, rfl, rfl, rfl, rfl⟩

theorem batchSetEntry_ok {r : BatchRequest} {n : Int} {b b' : BatchState σ}
    (he : batchSetEntry S g r n b = .ok b') :
    ∃ k valueLen src, BatchSetStep S g r n b b' k valueLen src := by
  rcases batchSetEntry_cases S g r n b with ⟨b'', k, v, src, heq, hstep⟩ | ⟨_, heq⟩ | heq
  · rw [he] at heq
    cases heq
    exact ⟨k, v, src, hstep⟩
  · rw [he] at heq
    cases heq
  · rw [he] at heq
    cases heq

theorem batchSetEntry_error {r : BatchRequest} {n c : Int} {b b' : BatchState σ}
    (he : batchSetEntry S g r n b = .error (.ret c b')) :
    batchSetHead r n b.task b.src = none ∧ c = EINVAL ∧ b' = b := by
  rcases batchSetEntry_cases S g r n b with ⟨_, _, _, _, heq, _⟩ | ⟨hhead, heq⟩ | heq
  · rw [he] at heq
    cases heq
  · rw [he] at heq
    cases heq
    exact ⟨hhead, rfl, rfl⟩
  · rw [he] at heq
    cases heq

theorem getD_write_before {off : Nat} {v : Bytes} (h : off + v.length ≤ i) :
    (t.write off v).data.getD i 0 = t.data.getD i 0 := by
  rw [FastTaskInfo.write, getD_writeAt, if_neg (by omega)]

section Frame

variable {r : BatchRequest} {n valueLen : Int} {b b' : BatchState σ} {k : FDHTKeyInfo} {src : Nat}

/-- The response stays behind the entries that are still to be read. -/
theorem BatchSetStep.dest_le (h : BatchSetStep S g r n b b' k valueLen src) (hv : 0 ≤ valueLen)
    (hd : b.dest ≤ b.src) : b'.dest ≤ b'.src := by
  obtain ⟨-, hsrc, -⟩ := batchSetHead_some h.head
  rw [h.dest_eq, h.src_eq]
  omega

theorem BatchSetStep.frame (h : BatchSetStep S g r n b b' k valueLen src) (hv : 0 ≤ valueLen)
    (hd : b.dest ≤ b.src) (hi : b'.src ≤ i) :
    b'.task.data.getD i 0 = b.task.data.getD i 0 := by
  obtain ⟨-, hsrc, -⟩ := batchSetHead_some h.head
  rw [h.src_eq] at hi
  rw [h.task_eq]
  unfold batchSetDone batchSetBuffer
  rw [getD_write_before (by simp only [statusByte, List.length_singleton]; omega),
    getD_write_before (by rw [int2buff_length]; omega), getD_write_before (by omega),
    getD_write_before (by rw [int2buff_length]; omega)]

theorem BatchSetStep.value_eq (h : BatchSetStep S g r n b b' k valueLen src) (hv : 0 ≤ valueLen)
    (hd : b.dest ≤ b.src) : batchSetValue r k valueLen src b =
      int2buff (batchSetWrite S g r k valueLen src b).expires ++
        (batchSetWrite S g r k valueLen src b).pValue := by
  obtain ⟨-, hsrc, -⟩ := batchSetHead_some h.head
  have hlen : (valueLen + 4).toNat = 4 + valueLen.toNat := by omega
  have h4 : readAt (batchSetBuffer r k src b).data src 4 =
      int2buff (toInt32 r.header.newExpires) := readAt_writeAt_self _ _ src
  have hrest : readAt (batchSetDone S r k valueLen src b).data (src + 4) valueLen.toNat =
      readAt (batchSetBuffer r k src b).data (src + 4) valueLen.toNat :=
    readAt_writeAt_disjoint (.inl (by simp only [statusByte, List.length_singleton]; omega))
  unfold batchSetValue batchSetWrite
  rw [hlen, readAt_add, h4, hrest]

end Frame

theorem batchSetStart_dest_le (r : BatchRequest) (t : FastTaskInfo) (s : Server σ) :
    (batchSetStart r t s).dest ≤ (batchSetStart r t s).src := by
  unfold batchSetStart BatchRequest.commonFiledsLen
  dsimp only
  omega

theorem batchSetStart_frame (r : BatchRequest) (t : FastTaskInfo) (s : Server σ)
    (hi : (batchSetStart r t s).src ≤ i) :
    (batchSetStart r t s).task.data.getD i 0 = t.data.getD i 0 := by
  unfold batchSetStart BatchRequest.commonFiledsLen at hi
  dsimp only at hi
  exact getD_write_before (by rw [int2buff_length]; omega)

theorem negativeEntry_start (r : BatchRequest) (t : FastTaskInfo) (s : Server σ) (m : Int) (n : Nat) :
    negativeEntry r m (batchSetStart r t s).task n (batchSetStart r t s).src =
      negativeEntry r m t n (sizeofHeader + r.commonFiledsLen) :=
  negativeEntry_congr n _ fun _ hi => batchSetStart_frame r t s hi

/-- How `deal_cmd_batch_set` ends: with a malformed request, with an entry that
is rejected, or with all entries applied. -/
theorem dealCmdBatchSet_cases {reply : Reply σ} (h : dealCmdBatchSet S g t s = some reply) :
    (parseBatchRequest g 20 t = none ∧ reply = reject t s) ∨
    ∃ r, parseBatchRequest g 20 t = some r ∧
      ((∃ c b, batchLoop (fun _ => batchSetEntry S g r t.inBodyLen) r.keyCount 0
          (batchSetStart r t s) = .error (.ret c b) ∧ reply = ⟨c, b.task.headerOnly, b.server⟩) ∨
      ∃ b, batchLoop (fun _ => batchSetEntry S g r t.inBodyLen) r.keyCount 0
          (batchSetStart r t s) = .ok b ∧ reply = batchReply
            (t.inBodyLen = r.commonFiledsLen + ((b.src : Int) - (sizeofHeader + r.commonFiledsLen)))
            (batchSetFinish S g r) b) := by
  unfold dealCmdBatchSet at h
  cases hp : parseBatchRequest g 20 t with
  | none =>
    rw [hp] at h
    exact .inl ⟨rfl, (Option.some.inj h).symm⟩
  | some r =>
    rw [hp] at h
    refine .inr ⟨r, rfl, ?_⟩
    dsimp only at h
    split at h
    · rename_i c b hl
      exact .inl ⟨c, b, hl, (Option.some.inj h).symm⟩
    · cases h
    · rename_i b hl
      exact .inr ⟨b, hl, (Option.some.inj h).symm⟩

theorem dealCmdBatchSet_acts (hcmd : t.cmd = some .batchSet)
    {reply : Reply σ} (h : dealCmdBatchSet S g t s = some reply) :
    Acts S g (Action.Of g t (t.header g)) s reply.server := by
  rcases dealCmdBatchSet_cases h with ⟨-, rfl⟩ | ⟨r, hp, hend⟩
  · exact .refl
  · obtain ⟨hheader, hown⟩ := parseBatchRequest_of hp
    have hclient : SourceRequest g t r.header := .of_cmd hcmd (by decide) hown
    rw [hheader]
    -- with `m` entries left: what has been done, and that the rest is as it came in
    have hloop := batchLoop_rule (fun _ => batchSetEntry S g r t.inBodyLen)
      (fun m b => Acts S g (Action.Of g t r.header) s b.server ∧ (t.hasNegativeEntry g = false →
        negativeEntry r t.inBodyLen b.task m b.src = false ∧ b.dest ≤ b.src))
      (fun b => Acts S g (Action.Of g t r.header) s b.server) ?_ ?_
    · have hstart := hloop r.keyCount 0 (batchSetStart r t s) ⟨.refl, fun hno => ⟨?_, ?_⟩⟩
      · rcases hend with ⟨c, b, hl, rfl⟩ | ⟨b, hl, rfl⟩
        · exact hstart.2 _ _ hl
        · have hb := (hstart.1 _ hl).1
          refine batchReply_server hb ?_
          unfold batchSetFinish
          split
          · exact hb.trans (keyBatchAdd_acts hclient _ _ _)
          · exact hb
      · rw [negativeEntry_start]
        simpa [FastTaskInfo.hasNegativeEntry, hcmd, hp] using hno
      · exact batchSetStart_dest_le r t s
    · rintro m - b b' ⟨hacts, hneg⟩ he
      obtain ⟨k, valueLen, src, hstep⟩ := batchSetEntry_ok he
      obtain ⟨hkey, hsrc, hvalue⟩ := batchSetHead_some hstep.head
      have hnonneg : t.hasNegativeEntry g = false → 0 ≤ valueLen ∧
          negativeEntry r t.inBodyLen b.task m (src + (valueLen + 4).toNat) = false := by
        intro hno
        have hentry := (hneg hno).1
        unfold negativeEntry at hentry
        rw [hstep.head] at hentry
        simpa using hentry
      refine ⟨hacts.trans (Acts.run (.set r.header.groupId (batchSetValue r k valueLen src b)
        (batchSetWrite S g r k valueLen src b)) ⟨rfl, rfl, ?_, fun hno => ?_⟩ hstep.server_eq),
        fun hno => ?_⟩
      · exact {
          isWrite := hclient.isWrite
          owns := hclient.owns
          keyHashCode := rfl
          timestamp := hclient.time.symm
          expires := .inr ⟨by simp [FastTaskInfo.setsExpiry, hcmd], toInt32_toInt32 _⟩
          key_nonempty := fun _ => List.ne_nil_of_length_pos hkey
          pValue_length := by simp [batchSetWrite]
          valueLen_lt := by
            have := buff2int_lt (readAt b.task.data src 4)
            simp only [batchSetWrite, hvalue, FastTaskInfo.intAt]
            exact this }
      · exact ⟨(hnonneg hno).1, hstep.value_eq (hnonneg hno).1 (hneg hno).2⟩
      · obtain ⟨hv, hrest⟩ := hnonneg hno
        refine ⟨?_, hstep.dest_le hv (hneg hno).2⟩
        rw [negativeEntry_congr m b'.src fun i hi => hstep.frame hv (hneg hno).2 hi, hstep.src_eq]
        exact hrest
    · rintro m - b c b' ⟨hacts, -⟩ he
      obtain ⟨-, -, rfl⟩ := batchSetEntry_error he
      exact hacts

/-! ## Every request -/

theorem dealCmd_acts {cmd : Option ProtoCmd}
    (hcmd : t.cmd = cmd) {reply : Reply σ} (h : dealCmd S g env t s cmd = some reply) :
    Acts S g (Action.Of g t (t.header g)) s reply.server := by
  unfold dealCmd at h
  split at h
  case h_1 => cases h; exact dealCmdGet_acts hcmd env s
  case h_2 => cases h; exact dealCmdSet_acts (.inl ⟨rfl, hcmd⟩) s
  case h_3 => cases h; exact dealCmdSet_acts (.inr ⟨rfl, hcmd⟩) s
  case h_4 => cases h; exact dealCmdInc_acts hcmd s
  case h_5 => cases h; exact dealCmdDel_acts (.inl ⟨rfl, hcmd⟩) s
  case h_6 => cases h; exact dealCmdDel_acts (.inr ⟨rfl, hcmd⟩) s
  case h_7 => cases h; exact .refl
  case h_8 => cases h; exact dealCmdBatchGet_acts hcmd env s
  case h_9 => exact dealCmdBatchSet_acts hcmd h
  case h_10 => cases h; exact dealCmdBatchDel_acts hcmd s
  case h_11 => cases h; exact Acts.run (.sync _) trivial rfl
  case h_12 => cases h; exact Acts.run (.sync _) trivial rfl
  case h_13 =>
    cases h
    unfold dealCmdStat
    split
    · exact .refl
    split <;> exact .refl
  case h_14 => cases h; exact dealCmdGetSubKeys_acts t s
  case h_15 => cases h; exact .refl

theorem workDealTask_dealCmd {s' : Server σ}
    {resp : Option (Int × FastTaskInfo)} (h : workDealTask S g env t s = some (resp, s'))
    (hquit : t.cmd ≠ some .quit) : ∃ reply, dealCmd S g env t s t.cmd = some reply ∧
      reply.server = s' ∧ resp = some (reply.status, packResponse g reply.status reply.task) := by
  unfold workDealTask at h
  split at h
  · contradiction
  · obtain ⟨reply, hreply, heq⟩ := Option.map_eq_some_iff.mp h
    cases heq
    exact ⟨reply, hreply, rfl, rfl⟩

/-- **Whatever a request contains, what it does to the server is a sequence of
actions that `Action.Of` describes.** -/
theorem workDealTask_acts {s' : Server σ}
    {resp : Option (Int × FastTaskInfo)} (h : workDealTask S g env t s = some (resp, s')) :
    Acts S g (Action.Of g t (t.header g)) s s' := by
  unfold workDealTask at h
  split at h
  · cases h
    exact .refl
  · obtain ⟨reply, hreply, heq⟩ := Option.map_eq_some_iff.mp h
    cases heq
    exact dealCmd_acts rfl hreply

/-- One request, handled under any configuration and clock, that meets `ok`. -/
inductive Serves (S : StoreFuncs σ) (ok : Globals → FastTaskInfo → Prop) (s s' : Server σ) : Prop
  | intro (g : Globals) (env : TaskEnv) (t : FastTaskInfo) (resp : Option (Int × FastTaskInfo))
      (hok : ok g t) (h : workDealTask S g env t s = some (resp, s'))

end FastDht
