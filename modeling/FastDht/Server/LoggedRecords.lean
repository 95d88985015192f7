import FastDht.Server.RecoverySoundness

/-! # Which requests log records that can be read back

`RecordsReadable` is the condition on a request: its hash code, time and expiry
fit their columns, the time is not 0, the key is not empty and BATCH_SET
reaches no negative value length. It is enough for every store. For a database
that does not fail it is also necessary, as soon as the request logs anything
at all. -/
namespace FastDht
open Lib Relation

variable {w : LogWrite} {env : TaskEnv} {resp : Option (Int × FastTaskInfo)} {k : FDHTKeyInfo}

section Records

variable {σ : Type} {S : StoreFuncs σ} {g : Globals}

/-- The records that have been appended between two states. -/
def newRecords (s s' : Server σ) : List LogWrite := s'.binlog.drop s.binlog.length

theorem newRecords_append {s s' : Server σ} {l : List LogWrite} (h : s'.binlog = s.binlog ++ l) :
    newRecords s s' = l := by
  rw [newRecords, h, List.drop_left]

theorem logged_extends (s : Server σ) (g : Globals) (r : Int × σ) (w : LogWrite) :
    s.binlog <+: (s.logged g r w).binlog := by
  rw [logged_binlog]
  split
  · exact List.prefix_append _ _
  · exact List.prefix_refl _

/-- The record `w` is one that the action can log. -/
def Action.Logs (g : Globals) (w : LogWrite) : Action → Prop
  | .set _ _ w' => w = w'
  | .delete _ w' => w = w'
  | .inc _ keyInfo keyHashCode _ expires =>
    ∃ m, w = incWrite g keyInfo keyHashCode (incValue expires m)
  | _ => False

theorem act_records {P : Action → Prop} {s s' : Server σ} (h : Act S g P s s') :
    ∃ l, s'.binlog = s.binlog ++ l ∧
      ∀ w ∈ l, g.writeToBinlogFlag = true ∧ ∃ a, P a ∧ a.Logs g w := by
  obtain ⟨a, ha, rfl⟩ := h
  -- a store call that is logged appends its record or nothing
  have hlogged : ∀ (r : Int × σ) (w : LogWrite), (r.1 = 0 → a.Logs g w) →
      ∃ l, (s.logged g r w).binlog = s.binlog ++ l ∧
        ∀ w ∈ l, g.writeToBinlogFlag = true ∧ ∃ a, P a ∧ a.Logs g w := by
    intro r w hw
    rw [logged_binlog]
    split
    · rename_i hc
      refine ⟨[w], rfl, ?_⟩
      intro v hv
      rw [List.mem_singleton.mp hv]
      exact ⟨hc.2, a, ha, hw hc.1⟩
    · exact ⟨[], (List.append_nil _).symm, by simp⟩
  have hnone : ∀ s' : Server σ, s'.binlog = s.binlog → ∃ l, s'.binlog = s.binlog ++ l ∧
      ∀ w ∈ l, g.writeToBinlogFlag = true ∧ ∃ a, P a ∧ a.Logs g w := by
    intro s' hs
    exact ⟨[], by rw [hs, List.append_nil], by simp⟩
  cases a with
  | get grp key n => exact hnone _ rfl
  | set grp value w => exact hlogged _ w fun _ => rfl
  | partialSet grp key e => exact hnone _ rfl
  | delete grp w => exact hlogged _ w fun _ => rfl
  | inc grp k hash n e =>
    refine hlogged _ _ ?_
    intro h0
    obtain ⟨m, hm⟩ := S.incEx_value _ _ _ _ _ _ _ h0
    exact ⟨m, by rw [hm]⟩
  | sync state => exact hnone _ rfl

theorem acts_records {P : Action → Prop} {s s' : Server σ} (h : Acts S g P s s') :
    ∃ l, s'.binlog = s.binlog ++ l ∧
      ∀ w ∈ l, g.writeToBinlogFlag = true ∧ ∃ a, P a ∧ a.Logs g w := by
  induction h with
  | refl => exact ⟨[], (List.append_nil _).symm, by simp⟩
  | tail _ hact ih =>
    obtain ⟨l, hl, hall⟩ := ih
    obtain ⟨l', hl', hall'⟩ := act_records hact
    refine ⟨l ++ l', by rw [hl', hl, List.append_assoc], ?_⟩
    intro w hw
    rcases List.mem_append.mp hw with hw | hw
    · exact hall w hw
    · exact hall' w hw

theorem acts_extends {P : Action → Prop} {s s' : Server σ} (h : Acts S g P s s') :
    s.binlog <+: s'.binlog := by
  obtain ⟨l, hl, -⟩ := acts_records h
  exact ⟨l, hl.symm⟩

/-! ## The condition is enough -/

structure RecordsReadable (g : Globals) (t : FastTaskInfo) : Prop where
  keyHashCode : -10 ^ 9 < (t.header g).keyHashCode
  timestamp : -10 ^ 9 < toInt32 (t.recordTime g)
  timestamp_ne : toInt32 (t.recordTime g) ≠ 0
  expires : t.setsExpiry = true → -10 ^ 9 < toInt32 (t.header g).newExpires
  keyLen : t.keyLen ≠ 0
  valueLen : t.hasNegativeEntry g = false

theorem toInt32_header_keyHashCode (g : Globals) (t : FastTaskInfo) :
    toInt32 (t.header g).keyHashCode = (t.header g).keyHashCode := toInt32_buff2int _

theorem LogWrite.Of.fits {t : FastTaskInfo} (hw : w.Of g t (t.header g))
    (hr : RecordsReadable g t) : w.Fits where
  timestamp := by
    rw [hw.timestamp]
    exact hr.timestamp
  keyHashCode := by
    rw [hw.keyHashCode, toInt32_header_keyHashCode]
    exact hr.keyHashCode
  expires := by
    rcases hw.expires with h | ⟨hset, h⟩
    · rw [h]
      decide
    · rw [h]
      exact hr.expires hset

theorem LogWrite.Of.loggable {t : FastTaskInfo} (hw : w.Of g t (t.header g))
    (hr : RecordsReadable g t) (h0 : 0 ≤ w.valueLen) : w.Loggable where
  toFits := hw.fits hr
  timestamp_ne := by
    rw [hw.timestamp]
    exact hr.timestamp_ne
  key_ne := hw.key_nonempty hr.keyLen
  len_nonneg := by
    rw [(LogWrite.value_eq hw.pValue_length h0 hw.valueLen_lt).1]
    exact h0

theorem Action.Of.loggable {t : FastTaskInfo} {a : Action} (ha : a.Of g t (t.header g))
    (hr : RecordsReadable g t) (hw : a.Logs g w) : w.Loggable := by
  cases a with
  | get grp key n => cases hw
  | set grp value w' =>
    obtain ⟨-, -, hof, hvalue⟩ := ha
    obtain rfl : w = w' := hw
    exact hof.loggable hr (hvalue hr.valueLen).1
  | partialSet grp key e => cases hw
  | delete grp w' =>
    obtain ⟨-, -, hof, h0⟩ := ha
    obtain rfl : w = w' := hw
    exact hof.loggable hr h0.ge
  | inc grp k hash n e =>
    obtain ⟨-, -, rfl, rfl, hcmd, hkey⟩ := ha
    obtain ⟨m, rfl⟩ := hw
    have htime : t.recordTime g = g.currentTime := by simp [FastTaskInfo.recordTime, hcmd]
    have hset : t.setsExpiry = true := by simp [FastTaskInfo.setsExpiry, hcmd]
    have hexp : buff2int (incValue (toInt32 (t.header g).newExpires) m) =
        toInt32 (t.header g).newExpires := (buff2int_int2buff _ _).trans (toInt32_toInt32 _)
    have hfits := hr.timestamp
    have hne := hr.timestamp_ne
    rw [htime] at hfits hne
    exact {
      timestamp := hfits
      keyHashCode := (toInt32_header_keyHashCode g t).symm ▸ hr.keyHashCode
      expires := by
        simp only [incWrite, hexp, toInt32_toInt32]
        exact hr.expires hset
      timestamp_ne := hne
      key_ne := hkey hr.keyLen
      len_nonneg := (incWrite_entry g g k _ _ m).1 }
  | sync state => cases hw

theorem Action.Of.owned {t : FastTaskInfo} {a : Action} (ha : a.Of g t (t.header g))
    (hw : a.Logs g w) : g.ownsGroup (g.groupOf w.keyHashCode) = true := by
  have hof : ∀ {w : LogWrite}, w.Of g t (t.header g) →
      g.ownsGroup (g.groupOf w.keyHashCode) = true := by
    intro w hw
    rw [hw.keyHashCode]
    exact hw.owns
  cases a with
  | get grp key n => cases hw
  | set grp value w' =>
    obtain rfl : w = w' := hw
    exact hof ha.2.2.1
  | partialSet grp key e => cases hw
  | delete grp w' =>
    obtain rfl : w = w' := hw
    exact hof ha.2.2.1
  | inc grp k hash n e =>
    obtain ⟨howns, -, rfl, -⟩ := ha
    obtain ⟨m, rfl⟩ := hw
    exact howns
  | sync state => cases hw

theorem Action.Of.timestamp {t : FastTaskInfo} {a : Action} (ha : a.Of g t (t.header g))
    (hw : a.Logs g w) : w.timestamp = t.recordTime g := by
  cases a with
  | get grp key n => cases hw
  | set grp value w' =>
    obtain rfl : w = w' := hw
    exact ha.2.2.1.timestamp
  | partialSet grp key e => cases hw
  | delete grp w' =>
    obtain rfl : w = w' := hw
    exact ha.2.2.1.timestamp
  | inc grp k hash n e =>
    obtain ⟨-, -, -, -, hcmd, -⟩ := ha
    obtain ⟨m, rfl⟩ := hw
    simp [incWrite, FastTaskInfo.recordTime, hcmd]
  | sync state => cases hw

theorem workDealTask_loggable {t : FastTaskInfo} {s s' : Server σ}
    (h : workDealTask S g env t s = some (resp, s'))
    (hr : g.writeToBinlogFlag = true → RecordsReadable g t) :
    ∀ w ∈ newRecords s s', w.Loggable := by
  obtain ⟨l, hl, hall⟩ := acts_records (workDealTask_acts h)
  rw [newRecords_append hl]
  intro w hw
  obtain ⟨hflag, a, ha, hlog⟩ := hall w hw
  exact ha.loggable (hr hflag) hlog

theorem workDealTask_no_records {t : FastTaskInfo} {s s' : Server σ}
    (h : workDealTask S g env t s = some (resp, s'))
    (hw : t.isWrite = false) : s'.binlog = s.binlog := by
  obtain ⟨l, hl, hall⟩ := acts_records (workDealTask_acts h)
  cases l with
  | nil => rw [hl, List.append_nil]
  | cons w l =>
    obtain ⟨-, a, ha, hlog⟩ := hall w List.mem_cons_self
    cases a with
    | get grp key n => cases hlog
    | set grp value w' => exact absurd ha.2.2.1.isWrite (by simp [hw])
    | partialSet grp key e => cases hlog
    | delete grp w' => exact absurd ha.2.2.1.isWrite (by simp [hw])
    | inc grp k hash n e =>
      obtain ⟨-, -, -, -, hcmd, -⟩ := ha
      simp [FastTaskInfo.isWrite, FastTaskInfo.setsExpiry, hcmd] at hw
    | sync state => cases hlog

end Records

/-! ## The condition is necessary for a database that does not fail -/

section Exact

variable {g : Globals}

/-- A record from which the condition can be read off. -/
structure LogWrite.Shows (g : Globals) (t : FastTaskInfo) (w : LogWrite) : Prop where
  keyHashCode : w.keyHashCode = (t.header g).keyHashCode
  timestamp : w.timestamp = t.recordTime g
  expires : t.setsExpiry = true → toInt32 w.expires = toInt32 (t.header g).newExpires
  keyLen : w.keyInfo.szKey ≠ [] → t.keyLen ≠ 0

theorem LogWrite.Shows.readable {t : FastTaskInfo} (hw : w.Shows g t)
    (hl : w.Loggable) (hneg : t.hasNegativeEntry g = false) : RecordsReadable g t where
  keyHashCode := by
    rw [← toInt32_header_keyHashCode, ← hw.keyHashCode]
    exact hl.keyHashCode
  timestamp := hw.timestamp ▸ hl.timestamp
  timestamp_ne := hw.timestamp ▸ hl.timestamp_ne
  expires := fun hset => hw.expires hset ▸ hl.expires
  keyLen := hw.keyLen hl.key_ne
  valueLen := hneg

theorem mem_newRecords {s s₁ s' : Server Bdb} (h : s₁.binlog = s.binlog ++ [w])
    (hp : s₁.binlog <+: s'.binlog) : w ∈ newRecords s s' := by
  obtain ⟨l, hl⟩ := hp
  rw [h, List.append_assoc] at hl
  rw [newRecords_append hl.symm]
  exact List.mem_cons_self

theorem newRecords_mono {s s₁ s' : Server Bdb} (h : s.binlog <+: s₁.binlog)
    (hw : w ∈ newRecords s₁ s') : w ∈ newRecords s s' :=
  (List.drop_sublist_drop_left _ h.length_le).subset hw

theorem newRecords_extend {s s₁ s' : Server Bdb} (h : s₁.binlog <+: s'.binlog)
    (hw : w ∈ newRecords s s₁) : w ∈ newRecords s s' := by
  obtain ⟨l, hl⟩ := h
  rw [newRecords, ← hl, List.drop_append]
  exact List.mem_append_left _ hw

/-- The key of one of the `n` entries from offset `src` on is in the database;
the entries end at one that is malformed. -/
def presentKey (data : Nat × Bytes → Option Bytes) (r : BatchRequest) (inBodyLen : Int)
    (inBuff : Bytes) : Nat → Nat → Bool
  | 0, _ => false
  | n + 1, src =>
    match batchKey r inBodyLen inBuff src with
    | none => false
    | some (k, src) => (data (r.header.groupId, k.packFullKey)).isSome ||
      presentKey data r inBodyLen inBuff n src

/-- The request makes a server with this database log a record. -/
def FastTaskInfo.logsRecord (g : Globals) (t : FastTaskInfo)
    (data : Nat × Bytes → Option Bytes) : Bool :=
  match t.cmd with
  | some .set => (parseSet g true t).isSome
  | some .syncSet => (parseSet g false t).isSome
  | some .inc => (parseExact g 16 true t).isSome
  | some .del => (parseExact g 12 true t).any fun r =>
      (data (r.header.groupId, r.keyInfo.packFullKey)).isSome
  | some .syncDel => (parseExact g 12 false t).any fun r =>
      (data (r.header.groupId, r.keyInfo.packFullKey)).isSome
  | some .batchSet => (parseBatchRequest g 20 t).any fun r =>
      (batchSetHead r t.inBodyLen t (sizeofHeader + r.commonFiledsLen)).isSome
  | some .batchDel => (parseBatchKeys g t).any fun r =>
      presentKey data r t.inBodyLen (r.inBuff t) r.keyCount 0
  | _ => false

/-- The request has logged a record that shows the condition if `c`, and nothing
otherwise. -/
def LogsIf (g : Globals) (t : FastTaskInfo) (c : Bool) (s s' : Server Bdb) : Prop :=
  if c then ∃ w ∈ newRecords s s', w.Shows g t else s'.binlog = s.binlog

variable {t : FastTaskInfo} {s : Server Bdb}

/-! ### Single keys -/

theorem KeyRequest.Of.keyLen_ne {r : KeyRequest} (hr : r.Of g t) (h : r.keyInfo.szKey ≠ []) :
    t.keyLen ≠ 0 := by
  intro h0
  have hlen := hr.keyLen
  exact h (List.length_eq_zero_iff.mp (by omega))

theorem dealCmdSet_logs (hflag : g.writeToBinlogFlag = true) (hq : s.store.Quiet) {op : OpType}
    (hcmd : op = .sourceSet ∧ t.cmd = some .set ∨ op = .replicaSet ∧ t.cmd = some .syncSet) :
    LogsIf g t (parseSet g (op = .sourceSet) t).isSome s
      (dealCmdSet bdbFuncs g op t s).server := by
  cases hp : parseSet g (op = .sourceSet) t with
  | none =>
    rw [dealCmdSet_reject hp]
    rfl
  | some e =>
    obtain ⟨r, n⟩ := e
    obtain ⟨hr, hlt⟩ := parseSet_of hp
    have hok : (setCall bdbFuncs r t n s).1 = 0 :=
      congrArg Prod.fst (hq.set _ _ _)
    have hlog : (s.logged g (setCall bdbFuncs r t n s) (setWrite g op r t n)).binlog =
        s.binlog ++ [setWrite g op r t n] := by
      rw [logged_binlog, if_pos ⟨hok, hflag⟩]
    refine ⟨_, mem_newRecords hlog (acts_extends (dealCmdSet_rest hcmd hp s)), ?_⟩
    exact {
      keyHashCode := congrArg ReqHeader.keyHashCode hr.header.symm
      timestamp := (setWrite_of hcmd hr hlt).timestamp
      expires := fun _ => by rw [hr.header]; rfl
      keyLen := hr.keyLen_ne }

theorem dealCmdInc_logs (hflag : g.writeToBinlogFlag = true) (hq : s.store.Quiet)
    (hcmd : t.cmd = some .inc) :
    LogsIf g t (parseExact g 16 true t).isSome s
      (dealCmdInc bdbFuncs g t s).server := by
  cases hp : parseExact g 16 true t with
  | none =>
    rw [dealCmdInc_reject hp]
    rfl
  | some r =>
    have hr := parseExact_of hp
    have hok : (incCall bdbFuncs g r t s).1 = 0 := hq.incEx _ _ _ _ _ _
    obtain ⟨m, hm⟩ := bdbStore.incEx_value _ _ _ _ _ _ _ hok
    have hlog := logged_binlog s g ((incCall bdbFuncs g r t s).1,
      (incCall bdbFuncs g r t s).2.2)
      (incWrite g r.keyInfo r.header.keyHashCode (incCall bdbFuncs g r t s).2.1)
    rw [if_pos ⟨hok, hflag⟩] at hlog
    refine ⟨_, mem_newRecords hlog (acts_extends (dealCmdInc_rest hcmd hp s)), ?_⟩
    exact {
      keyHashCode := congrArg ReqHeader.keyHashCode hr.header.symm
      timestamp := by simp [incWrite, FastTaskInfo.recordTime, hcmd]
      expires := by
        intro _
        have hexp : buff2int (incCall bdbFuncs g r t s).2.1 =
            toInt32 (toInt32 r.header.newExpires) :=
          (congrArg buff2int hm).trans (buff2int_int2buff _ _)
        rw [hr.header]
        simp only [incWrite, hexp, toInt32_toInt32]
      keyLen := hr.keyLen_ne }

theorem dealCmdDel_logs (hflag : g.writeToBinlogFlag = true) (hq : s.store.Quiet) {op : OpType}
    (hcmd : op = .sourceDel ∧ t.cmd = some .del ∨ op = .replicaDel ∧ t.cmd = some .syncDel) :
    LogsIf g t ((parseExact g 12 (op = .sourceDel) t).any fun r =>
        (s.store.data (r.header.groupId, r.keyInfo.packFullKey)).isSome) s
      (dealCmdDel bdbFuncs g op t s).server := by
  cases hp : parseExact g 12 (op = .sourceDel) t with
  | none =>
    rw [dealCmdDel_reject hp]
    rfl
  | some r =>
    have hr := parseExact_of hp
    cases hd : s.store.data (r.header.groupId, r.keyInfo.packFullKey) with
    | none =>
      -- the key is not there: the delete fails, and nothing is logged
      have hcall : bdbFuncs.delete s.store r.header.groupId r.keyInfo.packFullKey =
          (ENOENT, s.store.next) := hq.delete_absent hd
      have hserver := (dealCmdDel_eq (S := bdbFuncs) hp s).2
      simp only [hcall] at hserver
      rw [if_neg (by simp [ENOENT])] at hserver
      simp only [LogsIf, Option.any_some, hd, Option.isSome_none, Bool.false_eq_true, if_false]
      rw [hserver, logged_binlog, if_neg (by simp [ENOENT])]
    | some v =>
      have hok : (bdbFuncs.delete s.store r.header.groupId r.keyInfo.packFullKey).1 = 0 :=
        hq.delete_present hd
      have hlog := logged_binlog s g
        (bdbFuncs.delete s.store r.header.groupId r.keyInfo.packFullKey) (delWrite g op r)
      rw [if_pos ⟨hok, hflag⟩] at hlog
      simp only [LogsIf, Option.any_some, hd, Option.isSome_some, if_true]
      refine ⟨_, mem_newRecords hlog (acts_extends (dealCmdDel_rest hcmd hp s)), ?_⟩
      exact {
        keyHashCode := congrArg ReqHeader.keyHashCode hr.header.symm
        timestamp := (delWrite_of hcmd hr).timestamp
        expires := fun hset => by
          rcases hcmd with ⟨-, hc⟩ | ⟨-, hc⟩ <;> simp [FastTaskInfo.setsExpiry, hc] at hset
        keyLen := hr.keyLen_ne }

/-! ### BATCH_SET -/

theorem parseBatchRequest_keyCount {n : Int} {r : BatchRequest}
    (hp : parseBatchRequest g n t = some r) : 0 < r.keyCount ∧ t.keyLen ≠ 0 := by
  simp only [parseBatchRequest, Option.bind_eq_bind, Option.bind_eq_some_iff] at hp
  obtain ⟨h, -, k, -, hp⟩ := hp
  split at hp
  · cases hp
  · rw [← Option.some.inj hp]
    unfold FastTaskInfo.keyLen
    dsimp only
    omega

theorem batchEnds_extends {entry : Nat → BatchState Bdb → Except (Stop Bdb) (BatchState Bdb)}
    (hok : ∀ i b b', entry i b = .ok b' → b.server.binlog <+: b'.server.binlog)
    (herr : ∀ i c b b', entry i b = .error (.ret c b') → b.server.binlog <+: b'.server.binlog)
    {b' : BatchState Bdb} (n : Nat) : ∀ (i : Nat) (b : BatchState Bdb), BatchEnds entry n i b b' →
      b.server.binlog <+: b'.server.binlog := by
  induction n with
  | zero =>
    rintro i b (h | ⟨c, h⟩)
    · cases h
      exact List.prefix_refl _
    · cases h
  | succ n ih =>
    intro i b h
    rcases batchEnds_succ h with ⟨c, he⟩ | ⟨b₁, he, hends⟩
    · exact herr i c b b' he
    · exact (hok i b b₁ he).trans (ih _ _ hends)

section BatchSet

variable {r : BatchRequest} {m : Int} {b b' : BatchState Bdb}

theorem batchSetEntry_extends (h : batchSetEntry bdbFuncs g r m b = .ok b') :
    b.server.binlog <+: b'.server.binlog := by
  obtain ⟨k, valueLen, src, hstep⟩ := batchSetEntry_ok h
  rw [hstep.server_eq]
  exact logged_extends _ _ _ _

theorem batchSetEnds_extends {n i : Nat}
    (h : BatchEnds (fun _ => batchSetEntry bdbFuncs g r m) n i b b') :
    b.server.binlog <+: b'.server.binlog := by
  refine batchEnds_extends (fun _ b b' he => batchSetEntry_extends he) ?_ n i b h
  intro _ c b b' he
  obtain ⟨-, -, rfl⟩ := batchSetEntry_error he
  exact List.prefix_refl _

theorem BatchSetStep.binlog (hflag : g.writeToBinlogFlag = true) (hq : b.server.store.Quiet)
    {valueLen : Int} {src : Nat}
    (h : BatchSetStep bdbFuncs g r m b b' k valueLen src) :
    b'.server.binlog = b.server.binlog ++
        [batchSetWrite bdbFuncs g r k valueLen src b] ∧
      b'.server.store.Quiet := by
  have hcall : batchSetCall bdbFuncs r k valueLen src b = (0, b.server.store.next.put
      r.header.groupId k.packFullKey (batchSetValue r k valueLen src b)) := hq.set _ _ _
  rw [h.server_eq, logged_binlog, hcall, if_pos ⟨rfl, hflag⟩]
  refine ⟨rfl, ?_⟩
  simp only [Server.logged, Server.binlogWrite, ne_eq, not_true_eq_false, if_false, hflag, if_true]
  exact hq

theorem batchSetEnds_negative (hflag : g.writeToBinlogFlag = true) (n : Nat) :
    ∀ (i : Nat) (b : BatchState Bdb), b.server.store.Quiet → b.dest ≤ b.src →
      negativeEntry r m b.task n b.src = true →
      BatchEnds (fun _ => batchSetEntry bdbFuncs g r m) n i b b' →
      ∃ w ∈ newRecords b.server b'.server, w.len < 0 := by
  induction n with
  | zero =>
    intro i b _ _ hneg
    cases hneg
  | succ n ih =>
    intro i b hq hd hneg h
    rcases batchEnds_succ h with ⟨c, he⟩ | ⟨b₁, he, hends⟩
    · obtain ⟨hhead, -⟩ := batchSetEntry_error he
      unfold negativeEntry at hneg
      rw [hhead] at hneg
      cases hneg
    · obtain ⟨k, valueLen, src, hstep⟩ := batchSetEntry_ok he
      obtain ⟨hlog, hq₁⟩ := hstep.binlog hflag hq
      unfold negativeEntry at hneg
      rw [hstep.head] at hneg
      by_cases hv : valueLen < 0
      · refine ⟨_, mem_newRecords hlog (batchSetEnds_extends hends), ?_⟩
        have hle := hstep.le_valueLen
        rw [LogWrite.len, toInt32_of_range (by simp only [batchSetWrite]; omega)
          (by simp only [batchSetWrite]; omega)]
        exact hv
      · have hv0 : 0 ≤ valueLen := not_lt.mp hv
        have hrest : negativeEntry r m b.task n (src + (valueLen + 4).toNat) = true := by
          simpa [hv] using hneg
        rw [← hstep.src_eq, ← negativeEntry_congr n b₁.src fun i hi =>
          hstep.frame hv0 hd hi] at hrest
        obtain ⟨w, hw, hlen⟩ := ih _ b₁ hq₁ (hstep.dest_le hv0 hd) hrest hends
        exact ⟨w, newRecords_mono (batchSetEntry_extends he) hw, hlen⟩

theorem dealCmdBatchSet_ends (hcmd : t.cmd = some .batchSet) {reply : Reply Bdb}
    (h : dealCmdBatchSet bdbFuncs g t s = some reply)
    (hp : parseBatchRequest g 20 t = some r) :
    ∃ b', BatchEnds (fun _ => batchSetEntry bdbFuncs g r t.inBodyLen) r.keyCount 0
        (batchSetStart r t s) b' ∧ b'.server.binlog <+: reply.server.binlog ∧
      ∀ c b₁, batchLoop (fun _ => batchSetEntry bdbFuncs g r t.inBodyLen) r.keyCount 0
        (batchSetStart r t s) = .error (.ret c b₁) → reply.server = b₁.server := by
  rcases dealCmdBatchSet_cases h with ⟨hno, -⟩ | ⟨r', hp', hend⟩
  · rw [hp] at hno
    cases hno
  · obtain rfl : r = r' := Option.some.inj (hp.symm.trans hp')
    rcases hend with ⟨c, b, hl, rfl⟩ | ⟨b, hl, rfl⟩
    · refine ⟨b, .inr ⟨c, hl⟩, List.prefix_refl _, ?_⟩
      intro c' b₁ hl'
      cases hl.symm.trans hl'
      rfl
    · refine ⟨b, .inl hl, batchReply_server (P := fun s => b.server.binlog <+: s.binlog)
        (List.prefix_refl _) ?_, fun _ _ hl' => by cases hl.symm.trans hl'⟩
      unfold batchSetFinish
      split
      · exact acts_extends (keyBatchAdd_acts (t := t)
          (.of_cmd hcmd (by decide) (parseBatchRequest_of hp).2) _ _ _)
      · exact List.prefix_refl _

theorem dealCmdBatchSet_logs (hflag : g.writeToBinlogFlag = true) (hq : s.store.Quiet)
    (hcmd : t.cmd = some .batchSet) {reply : Reply Bdb}
    (h : dealCmdBatchSet bdbFuncs g t s = some reply) :
    LogsIf g t ((parseBatchRequest g 20 t).any fun r =>
        (batchSetHead r t.inBodyLen t (sizeofHeader + r.commonFiledsLen)).isSome) s reply.server ∧
      (t.hasNegativeEntry g = true → ∃ w ∈ newRecords s reply.server, w.len < 0) := by
  cases hp : parseBatchRequest g 20 t with
  | none =>
    rcases dealCmdBatchSet_cases h with ⟨-, rfl⟩ | ⟨r, hp', -⟩
    · refine ⟨rfl, ?_⟩
      simp [FastTaskInfo.hasNegativeEntry, hp]
    · rw [hp] at hp'
      cases hp'
  | some r =>
    obtain ⟨hheader, -⟩ := parseBatchRequest_of hp
    obtain ⟨hcount, hkeyLen⟩ := parseBatchRequest_keyCount hp
    obtain ⟨b', hends, hpre, hstop⟩ := dealCmdBatchSet_ends hcmd h hp
    have hhead : batchSetHead r t.inBodyLen (batchSetStart r t s).task (batchSetStart r t s).src =
        batchSetHead r t.inBodyLen t (sizeofHeader + r.commonFiledsLen) :=
      batchSetHead_congr fun i hi => batchSetStart_frame r t s hi
    constructor
    · obtain ⟨n, hn⟩ := Nat.exists_eq_add_one_of_ne_zero hcount.ne'
      rw [hn] at hends
      rcases batchEnds_succ hends with ⟨c, he⟩ | ⟨b₁, he, hrest⟩
      · obtain ⟨hnone, -, rfl⟩ := batchSetEntry_error he
        have hserver := hstop c _ (by rw [hn]; unfold batchLoop; rw [he])
        simp only [LogsIf, Option.any_some, ← hhead, hnone, Option.isSome_none, Bool.false_eq_true,
          if_false, hserver]
        rfl
      · obtain ⟨k, valueLen, src, hstep⟩ := batchSetEntry_ok he
        obtain ⟨hlog, -⟩ := hstep.binlog hflag hq
        have hsome : batchSetHead r t.inBodyLen t (sizeofHeader + r.commonFiledsLen) =
            some (k, valueLen, src) := hhead ▸ hstep.head
        simp only [LogsIf, Option.any_some, hsome, Option.isSome_some, if_true]
        refine ⟨_, mem_newRecords hlog ((batchSetEnds_extends hrest).trans hpre), ?_⟩
        exact {
          keyHashCode := congrArg ReqHeader.keyHashCode hheader.symm
          timestamp := by simp [batchSetWrite, FastTaskInfo.recordTime, hcmd]
          expires := fun _ => by rw [hheader]; exact toInt32_toInt32 _
          keyLen := fun _ => hkeyLen }
    · intro hneg
      have hneg' : negativeEntry r t.inBodyLen (batchSetStart r t s).task r.keyCount
          (batchSetStart r t s).src = true := by
        rw [negativeEntry_start]
        simpa [FastTaskInfo.hasNegativeEntry, hcmd, hp] using hneg
      obtain ⟨w, hw, hlen⟩ := batchSetEnds_negative hflag r.keyCount 0 (batchSetStart r t s) hq
        (batchSetStart_dest_le r t s) hneg' hends
      exact ⟨w, newRecords_extend hpre hw, hlen⟩

end BatchSet

/-! ### BATCH_DEL -/

section BatchDel

variable {r : BatchRequest} {m : Int} {buff : Bytes} {b b' : BatchState Bdb}

theorem BatchDelStep.binlog_extends (h : BatchDelStep bdbFuncs g r m buff b b' k) :
    b.server.binlog <+: b'.server.binlog := by
  rw [h.server_eq]
  exact logged_extends _ _ _ _

theorem batchDelEnds_extends {n i : Nat}
    (h : BatchEnds (fun _ => batchDelEntry bdbFuncs g r m buff) n i b b') :
    b.server.binlog <+: b'.server.binlog := by
  refine batchEnds_extends (fun _ b b' he => ?_) (fun _ c b b' he => ?_) n i b h
  · obtain ⟨k, hstep⟩ := batchDelEntry_ok he
    exact hstep.binlog_extends
  · obtain ⟨-, -, rfl⟩ := batchDelEntry_error he
    exact List.prefix_refl _

/-- The key of an entry is not there: nothing is done. -/
theorem BatchDelStep.absent (hq : b.server.store.Quiet)
    (h : BatchDelStep bdbFuncs g r m buff b b' k)
    (hk : b.server.store.data (r.header.groupId, k.packFullKey) = none) :
    b'.server = { b.server with store := b.server.store.next } ∧
      b'.successCount = b.successCount := by
  have hcall : batchDelCall bdbFuncs r k b = (ENOENT, b.server.store.next) :=
    hq.delete_absent hk
  have hne : (ENOENT : Int) ≠ 0 := by decide
  rw [h.server_eq, h.successCount_eq, hcall]
  exact ⟨if_pos hne, if_pos hne⟩

/-- The key of an entry is there: it is removed, and that is logged. -/
theorem BatchDelStep.present (hq : b.server.store.Quiet)
    (h : BatchDelStep bdbFuncs g r m buff b b' k)
    (hk : (b.server.store.data (r.header.groupId, k.packFullKey)).isSome = true)
    (hflag : g.writeToBinlogFlag = true) :
    b'.server.binlog = b.server.binlog ++ [batchDelWrite g r k] := by
  obtain ⟨v, hv⟩ := Option.isSome_iff_exists.mp hk
  have hcall : (batchDelCall bdbFuncs r k b).1 = 0 := hq.delete_present hv
  rw [h.server_eq, logged_binlog, if_pos ⟨hcall, hflag⟩]

theorem batchDelEnds_absent (n : Nat) : ∀ (i : Nat) (b : BatchState Bdb), b.server.store.Quiet →
    presentKey b.server.store.data r m buff n b.src = false →
    BatchEnds (fun _ => batchDelEntry bdbFuncs g r m buff) n i b b' →
    b'.server.binlog = b.server.binlog ∧ b'.server.store.data = b.server.store.data ∧
      b'.successCount = b.successCount := by
  induction n with
  | zero =>
    rintro i b - - (h | ⟨c, h⟩)
    · cases h
      exact ⟨rfl, rfl, rfl⟩
    · cases h
  | succ n ih =>
    intro i b hq hno h
    rcases batchEnds_succ h with ⟨c, he⟩ | ⟨b₁, he, hends⟩
    · obtain ⟨-, -, rfl⟩ := batchDelEntry_error he
      exact ⟨rfl, rfl, rfl⟩
    · obtain ⟨k, hstep⟩ := batchDelEntry_ok he
      unfold presentKey at hno
      rw [hstep.key] at hno
      obtain ⟨hk, hrest⟩ := Bool.or_eq_false_iff.mp hno
      obtain ⟨hserver, hcount⟩ := hstep.absent hq (by simpa using hk)
      have hq₁ : b₁.server.store.Quiet := by rw [hserver]; exact hq
      obtain ⟨h1, h2, h3⟩ := ih _ b₁ hq₁ (by rw [hserver]; exact hrest) hends
      rw [h1, h2, h3, hserver, hcount]
      exact ⟨rfl, rfl, rfl⟩

theorem batchDelEnds_present (hflag : g.writeToBinlogFlag = true) (n : Nat) :
    ∀ (i : Nat) (b : BatchState Bdb), b.server.store.Quiet →
      presentKey b.server.store.data r m buff n b.src = true →
      BatchEnds (fun _ => batchDelEntry bdbFuncs g r m buff) n i b b' →
      ∃ k, batchDelWrite g r k ∈ newRecords b.server b'.server := by
  induction n with
  | zero =>
    intro i b _ hyes
    cases hyes
  | succ n ih =>
    intro i b hq hyes h
    unfold presentKey at hyes
    rcases batchEnds_succ h with ⟨c, he⟩ | ⟨b₁, he, hends⟩
    · obtain ⟨hkey, -⟩ := batchDelEntry_error he
      rw [hkey] at hyes
      cases hyes
    · obtain ⟨k, hstep⟩ := batchDelEntry_ok he
      rw [hstep.key] at hyes
      by_cases hk : (b.server.store.data (r.header.groupId, k.packFullKey)).isSome = true
      · exact ⟨k, mem_newRecords (hstep.present hq hk hflag) (batchDelEnds_extends hends)⟩
      · -- nothing has been removed, so the other keys are where they were
        obtain ⟨hserver, -⟩ := hstep.absent hq (by simpa using hk)
        have hq₁ : b₁.server.store.Quiet := by rw [hserver]; exact hq
        have hrest : presentKey b₁.server.store.data r m buff n b₁.src = true := by
          rw [hserver]
          simpa [hk] using hyes
        obtain ⟨k', hk'⟩ := ih _ b₁ hq₁ hrest hends
        exact ⟨k', newRecords_mono hstep.binlog_extends hk'⟩

theorem dealCmdBatchDel_ends (hcmd : t.cmd = some .batchDel) (hp : parseBatchKeys g t = some r) :
    ∃ b', BatchEnds (fun _ => batchDelEntry bdbFuncs g r t.inBodyLen (r.inBuff t))
        r.keyCount 0 (batchKeysStart r t s) b' ∧
      b'.server.binlog <+: (dealCmdBatchDel bdbFuncs g t s).server.binlog ∧
      (b'.successCount = 0 →
        (dealCmdBatchDel bdbFuncs g t s).server = b'.server) := by
  obtain ⟨hheader, hown⟩ := parseBatchRequest_of (Option.filter_eq_some_iff.mp hp).1
  unfold dealCmdBatchDel
  rcases dealCmdBatchKeys_cases t s (fun r inBuff _ => batchDelEntry bdbFuncs g r
    t.inBodyLen inBuff) (batchDelFinish bdbFuncs g) with ⟨hno, -⟩ | ⟨r', hp', hend⟩
  · rw [hp] at hno
    cases hno
  obtain rfl : r = r' := Option.some.inj (hp.symm.trans hp')
  rcases hend with ⟨c, b, hl, heq⟩ | ⟨hl, -⟩ | ⟨b, hl, heq⟩
  · rw [heq]
    exact ⟨b, .inr ⟨c, hl⟩, List.prefix_refl _, fun _ => rfl⟩
  · refine absurd hl (batchLoop_ne_crash (fun i b he => ?_) _ _ _)
    rcases batchDelEntry_cases bdbFuncs g r t.inBodyLen (r.inBuff t) b with
      ⟨-, h⟩ | ⟨_, _, h, -⟩
    · cases he.symm.trans h
    · cases he.symm.trans h
  · rw [heq]
    refine ⟨b, .inl hl, batchReply_server (P := fun s => b.server.binlog <+: s.binlog)
      (List.prefix_refl _) ?_, batchReply_failed⟩
    unfold batchDelFinish
    split
    · exact acts_extends (keyBatchDel_acts (t := t) (.of_cmd hcmd (by decide) hown) _ _ _)
    · exact List.prefix_refl _

theorem dealCmdBatchDel_logs (hflag : g.writeToBinlogFlag = true) (hq : s.store.Quiet)
    (hcmd : t.cmd = some .batchDel) :
    LogsIf g t ((parseBatchKeys g t).any fun r =>
        presentKey s.store.data r t.inBodyLen (r.inBuff t) r.keyCount 0) s
      (dealCmdBatchDel bdbFuncs g t s).server := by
  cases hp : parseBatchKeys g t with
  | none =>
    unfold dealCmdBatchDel dealCmdBatchKeys
    rw [hp]
    rfl
  | some r =>
    obtain ⟨hheader, -⟩ := parseBatchRequest_of (Option.filter_eq_some_iff.mp hp).1
    obtain ⟨-, hkeyLen⟩ := parseBatchRequest_keyCount (Option.filter_eq_some_iff.mp hp).1
    obtain ⟨b', hends, hpre, hfailed⟩ := dealCmdBatchDel_ends (s := s) hcmd hp
    unfold LogsIf
    split
    · rename_i hyes
      obtain ⟨k, hk⟩ := batchDelEnds_present hflag r.keyCount 0 (batchKeysStart r t s) hq hyes hends
      refine ⟨_, newRecords_extend hpre hk, ?_⟩
      exact {
        keyHashCode := congrArg ReqHeader.keyHashCode hheader.symm
        timestamp := by simp [batchDelWrite, FastTaskInfo.recordTime, hcmd]
        expires := by simp [FastTaskInfo.setsExpiry, hcmd]
        keyLen := fun _ => hkeyLen }
    · rename_i hno
      obtain ⟨hlog, -, hcount⟩ := batchDelEnds_absent r.keyCount 0 (batchKeysStart r t s) hq
        (Bool.not_eq_true _ ▸ hno) hends
      rw [hfailed hcount, hlog]
      rfl

end BatchDel

/-! ### All commands -/

theorem logsRecord_eq_false (hw : t.isWrite = false) (data : Nat × Bytes → Option Bytes) :
    t.logsRecord g data = false := by
  unfold FastTaskInfo.logsRecord
  split
  case h_8 => rfl
  all_goals
    rename_i hcmd
    simp [FastTaskInfo.isWrite, FastTaskInfo.setsExpiry, hcmd] at hw

theorem workDealTask_logs {s' : Server Bdb}
    (h : workDealTask bdbFuncs g env t s = some (resp, s'))
    (hflag : g.writeToBinlogFlag = true) (hq : s.store.Quiet) :
    LogsIf g t (t.logsRecord g s.store.data) s s' ∧
      (t.hasNegativeEntry g = true → ∃ w ∈ newRecords s s', w.len < 0) := by
  have hsingle : t.cmd ≠ some .batchSet → t.hasNegativeEntry g = true →
      ∃ w ∈ newRecords s s', w.len < 0 := by
    intro hcmd hneg
    simp [FastTaskInfo.hasNegativeEntry, hcmd] at hneg
  by_cases hw : t.isWrite = true
  · obtain ⟨reply, hreply, rfl, -⟩ := workDealTask_dealCmd h fun hcmd => by
      simp [FastTaskInfo.isWrite, FastTaskInfo.setsExpiry, hcmd] at hw
    simp only [FastTaskInfo.isWrite, FastTaskInfo.setsExpiry, List.any_cons, List.any_nil,
      Bool.or_false, Bool.or_eq_true, decide_eq_true_eq, or_assoc] at hw
    unfold FastTaskInfo.logsRecord
    rcases hw with hcmd | hcmd | hcmd | hcmd | hcmd | hcmd | hcmd <;> rw [hcmd] at hreply ⊢
    · cases hreply
      exact ⟨dealCmdSet_logs hflag hq (.inl ⟨rfl, hcmd⟩), hsingle (by simp [hcmd])⟩
    · cases hreply
      exact ⟨dealCmdSet_logs hflag hq (.inr ⟨rfl, hcmd⟩), hsingle (by simp [hcmd])⟩
    · cases hreply
      exact ⟨dealCmdInc_logs hflag hq hcmd, hsingle (by simp [hcmd])⟩
    · exact dealCmdBatchSet_logs hflag hq hcmd hreply
    · cases hreply
      exact ⟨dealCmdDel_logs hflag hq (.inl ⟨rfl, hcmd⟩), hsingle (by simp [hcmd])⟩
    · cases hreply
      exact ⟨dealCmdDel_logs hflag hq (.inr ⟨rfl, hcmd⟩), hsingle (by simp [hcmd])⟩
    · cases hreply
      exact ⟨dealCmdBatchDel_logs hflag hq hcmd, hsingle (by simp [hcmd])⟩
  · have hw' : t.isWrite = false := by simpa using hw
    rw [logsRecord_eq_false hw' _]
    refine ⟨workDealTask_no_records h hw', hsingle ?_⟩
    intro hcmd
    simp [FastTaskInfo.isWrite, FastTaskInfo.setsExpiry, hcmd] at hw

theorem workDealTask_readable {s' : Server Bdb}
    (h : workDealTask bdbFuncs g env t s = some (resp, s')) (hq : s.store.Quiet)
    (hall : ∀ w ∈ newRecords s s', w.Loggable) (hflag : g.writeToBinlogFlag = true)
    (hlogs : t.logsRecord g s.store.data = true) : RecordsReadable g t := by
  obtain ⟨hif, hneg⟩ := workDealTask_logs h hflag hq
  rw [hlogs] at hif
  obtain ⟨w, hw, hshows⟩ := hif
  refine hshows.readable (hall w hw) (Bool.eq_false_iff.mpr ?_)
  intro hn
  obtain ⟨v, hv, hlen⟩ := hneg hn
  exact absurd (hall v hv).len_nonneg (not_le.mpr hlen)

end Exact

/-- `fdht_binlog_read` accepts what `fdht_binlog_write` has written, and it has
the length the reader goes on by. -/
def LogWrite.ReadsBack (w : LogWrite) : Prop :=
  (∃ r, fdhtBinlogRead (fdhtBinlogWrite w) = .ok r) ∧
    ((fdhtBinlogWrite w).length : Int) = calcRecordLength w.keyInfo w.len

/-- **Which requests log records that can be read back.** On any store those
that meet `RecordsReadable`, which only they do on a database that does not
fail, if they log anything. -/
theorem logged_records_read_back {σ : Type} (S : StoreFuncs σ) (g : Globals) (env : TaskEnv)
    (t : FastTaskInfo) :
    (∀ s s' resp, workDealTask S g env t s = some (resp, s') →
      (g.writeToBinlogFlag = true → RecordsReadable g t) → ∀ w ∈ newRecords s s', w.ReadsBack) ∧
    ∀ (s s' : Server Bdb) resp, s.store.Quiet →
      workDealTask bdbFuncs g env t s = some (resp, s') →
      ((∀ w ∈ newRecords s s', w.ReadsBack) ↔
        (g.writeToBinlogFlag = true → t.logsRecord g s.store.data = true →
          RecordsReadable g t)) := by
  refine ⟨?_, ?_⟩
  · intro s s' resp h hr w hw
    exact (loggable_iff w).mp (workDealTask_loggable h hr w hw)
  · intro s s' resp hq h
    constructor
    · intro hall
      exact workDealTask_readable h hq fun w hw => (loggable_iff w).mpr (hall w hw)
    · intro hr w hw
      refine (loggable_iff w).mp ?_
      by_cases hflag : g.writeToBinlogFlag = true
      · by_cases hlogs : t.logsRecord g s.store.data = true
        · exact workDealTask_loggable h (fun _ => hr hflag hlogs) w hw
        · -- nothing has been logged
          obtain ⟨hif, -⟩ := workDealTask_logs h hflag hq
          rw [Bool.eq_false_iff.mpr hlogs] at hif
          have hsame : s'.binlog = s.binlog := hif
          rw [newRecords, hsame, List.drop_length] at hw
          cases hw
      · exact workDealTask_loggable h (fun hf => absurd hf hflag) w hw

instance (g : Globals) (t : FastTaskInfo) : Decidable (RecordsReadable g t) :=
  decidable_of_iff (-10 ^ 9 < (t.header g).keyHashCode ∧ -10 ^ 9 < toInt32 (t.recordTime g) ∧
    toInt32 (t.recordTime g) ≠ 0 ∧
    (t.setsExpiry = true → -10 ^ 9 < toInt32 (t.header g).newExpires) ∧ t.keyLen ≠ 0 ∧
    t.hasNegativeEntry g = false)
    ⟨fun h => ⟨h.1, h.2.1, h.2.2.1, h.2.2.2.1, h.2.2.2.2.1, h.2.2.2.2.2⟩,
      fun h => ⟨h.1, h.2, h.3, h.4, h.5, h.6⟩⟩

theorem logged_records_read_back_set :
    RecordsReadable oneGroup setRequest ∧
      ∃ s, served oneGroup setRequest emptyServer = some s ∧
        (newRecords emptyServer s).length = 1 ∧
        ∀ w ∈ newRecords emptyServer s, w.ReadsBack := by
  have hr : RecordsReadable oneGroup setRequest := by decide +kernel
  have hcount : (served oneGroup setRequest emptyServer).map
      (fun s => (newRecords emptyServer s).length) = some 1 := by decide +kernel
  obtain ⟨s, hs, hone⟩ := Option.map_eq_some_iff.mp hcount
  obtain ⟨⟨resp, s'⟩, hwork, rfl⟩ := Option.map_eq_some_iff.mp hs
  exact ⟨hr, s', hs, hone, (logged_records_read_back bdbFuncs oneGroup quietEnv
    setRequest).1 emptyServer s' resp hwork fun _ => hr⟩

/-- SET of the empty key to `x`. -/
def emptyKeyRequest : FastTaskInfo :=
  request .set 0 0 (int2buff 0 ++ int2buff 0 ++ int2buff 0 ++ int2buff 1 ++ [120])

/-- The empty key is stored and logged; the reader answers EINVAL. -/
theorem logged_empty_key_unreadable :
    ¬ ∀ (g : Globals) (env : TaskEnv) (t : FastTaskInfo) (s s' : Server Bdb)
      (resp : Option (Int × FastTaskInfo)),
      workDealTask bdbFuncs g env t s = some (resp, s') →
      ∀ w ∈ newRecords s s', fdhtBinlogRead (fdhtBinlogWrite w) ≠ .error EINVAL := by
  intro hall
  have hcheck : (served oneGroup emptyKeyRequest emptyServer).map (fun s =>
      (newRecords emptyServer s).all fun w =>
        match fdhtBinlogRead (fdhtBinlogWrite w) with
        | .error e => e ≠ EINVAL
        | .ok _ => true) = some false := by decide +kernel
  obtain ⟨s, hs, hread⟩ := Option.map_eq_some_iff.mp hcheck
  obtain ⟨⟨resp, s'⟩, hwork, rfl⟩ := Option.map_eq_some_iff.mp hs
  refine absurd hread (Bool.not_eq_false _ |>.mpr (List.all_eq_true.mpr fun w hw => ?_))
  have hne := hall oneGroup quietEnv emptyKeyRequest emptyServer s' resp hwork w hw
  split
  · rename_i e he
    rw [he] at hne
    simpa using fun h => hne (by rw [h])
  · rfl

end FastDht
