import FastDht.Server.Group

/-! # A replica converges to its source

Clients write to one server of a group, and its thread sends the records to
another. When the whole binlog has been read, a GET gets the same answer from
both, if no record changed its meaning on the way. It does if the replica drops
an expiry that still hides an older value, or moves an expiry by the time the
record was late. -/
namespace FastDht
open Lib

variable {ι σ κ : Type} [DecidableEq ι] [DecidableEq κ]

/-! ## What a GET shows -/

/-- What is left of a stored value for a client: nothing of one that is expired. -/
def shown (now : Int) (value : Option Bytes) : Option Bytes :=
  (value.filter fun v => !expired (buff2int v) now).map (List.drop 4)

/-- The status of the response to a GET, and its value. -/
def Reply.answer (reply : Reply σ) : Int × Option Bytes :=
  (reply.status, if reply.status = 0 then
    some (reply.task.bodyBytes 4 (reply.task.length - sizeofHeader - 4).toNat) else none)

/-- The answer that shows this value. -/
def answerOf : Option Bytes → Int × Option Bytes
  | none => (ENOENT, none)
  | some v => (0, some v)

theorem shown_some (now : Int) (v : Bytes) :
    shown now (some v) = if expired (buff2int v) now then none else some (v.drop 4) := by
  unfold shown
  rw [Option.filter_some]
  cases expired (buff2int v) now <;> rfl

section Get

variable {M : MapStore σ κ} {g : Globals} {s : Server σ} {v : Bytes}

theorem getReply_answer {t : FastTaskInfo} (ht : t.bodyBytes 4 (v.length - 4) = v.drop 4) :
    (getReply v.length t s).answer = answerOf (some (v.drop 4)) := by
  unfold Reply.answer getReply answerOf
  rw [if_pos rfl]
  rw [show ((sizeofHeader : Int) + 4 + (v.length - 4) - sizeofHeader - 4).toNat = v.length - 4 by omega]
  unfold FastTaskInfo.bodyBytes at ht ⊢
  unfold FastTaskInfo.write
  rw [readAt_writeAt_disjoint (.inl (by simp)),
    readAt_writeAt_disjoint (.inl (by simp [expiresOffset, sizeofHeader])), ht]

theorem getValue_answer (S : StoreFuncs σ) (r : KeyRequest) (hv : CarriesExpiry v)
    (t : FastTaskInfo) (s : Server σ) :
    (getValue S g r v.length (t.write sizeofHeader v) s).answer =
      answerOf (shown g.currentTime (some v)) := by
  have hexp : (t.write sizeofHeader v).bodyInt 0 = buff2int v := intAt_write t sizeofHeader hv
  have hbody : (t.write sizeofHeader v).bodyBytes 4 (v.length - 4) = v.drop 4 := by
    have hself := readAt_writeAt_self t.data v sizeofHeader
    have hlen : v.length = 4 + (v.length - 4) := by unfold CarriesExpiry at hv; omega
    rw [hlen, readAt_add] at hself
    have hdrop := congrArg (List.drop 4) hself
    rwa [List.drop_left' (readAt_length _ _ _)] at hdrop
  unfold getValue
  rw [hexp, shown_some]
  split
  · rfl
  split
  · refine getReply_answer ?_
    exact hbody
  · exact getReply_answer hbody

/-- **A GET that can allocate shows what is stored under its key.** -/
theorem dealCmdGet_answer (hq : M.Quiet s.store)
    (hc : ∀ k v, M.lookup s.store k = some v → CarriesExpiry v) {env : TaskEnv}
    (halloc : env.alloc 0 ≠ none) {t : FastTaskInfo} {r : KeyRequest}
    (hp : parseExact g 12 true t = some r) :
    (dealCmdGet M.toStoreFuncs g env t s).answer = answerOf (shown g.currentTime
      (M.lookup s.store (M.slot r.header.groupId r.keyInfo.packFullKey))) := by
  obtain ⟨hq', hlookup, hget⟩ := M.get_quiet r.header.groupId r.keyInfo.packFullKey
    (t.size - sizeofHeader) hq
  have hagain := fun n => (M.get_quiet r.header.groupId r.keyInfo.packFullKey n hq').2.2
  rw [hlookup] at hagain
  unfold dealCmdGet
  rw [hp]
  generalize M.lookup s.store = lookup at hget hagain hc ⊢
  generalize M.toStoreFuncs = S at hget hagain ⊢
  obtain ⟨get, _⟩ := S
  dsimp only at hget hagain ⊢
  generalize get s.store r.header.groupId r.keyInfo.packFullKey (t.size - sizeofHeader) = x
    at hget hagain ⊢
  obtain ⟨x, store⟩ := x
  obtain rfl : x = _ := hget
  rcases hv : lookup (M.slot r.header.groupId r.keyInfo.packFullKey) with _ | v
  · rfl
  have hcarries := hc _ v hv
  unfold getResult
  by_cases hfits : t.size - sizeofHeader < v.length
  · -- the value does not fit the buffer, so a larger one is allocated
    have hagain := hagain v.length
    obtain ⟨fresh, hfresh⟩ := Option.ne_none_iff_exists'.mp halloc
    simp only [if_pos hfits, hfresh]
    generalize get store r.header.groupId r.keyInfo.packFullKey v.length = x at hagain ⊢
    obtain ⟨x, store'⟩ := x
    obtain rfl : x = _ := hagain
    simp only [hv, getResult, lt_irrefl, if_false]
    exact getValue_answer _ r hcarries _ _
  · simp only [if_neg hfits]
    exact getValue_answer _ r hcarries _ _

end Get

/-- A client sees no difference between the values, now or later. -/
def SameToClients (now : Int) (x y : Option Bytes) : Prop :=
  x = y ∨ shown now x = none ∧ shown now y = none

section Shown

variable {now now' : Int} {x y : Option Bytes}

theorem shown_none_later (hle : now ≤ now') (h : shown now x = none) : shown now' x = none := by
  rcases x with _ | v
  · rfl
  rw [shown_some] at h ⊢
  split at h
  · rename_i he
    rw [if_pos]
    simp only [expired, Bool.and_eq_true, decide_eq_true_eq] at he ⊢
    exact ⟨he.1, by omega⟩
  · cases h

theorem SameToClients.later (h : SameToClients now x y) (hle : now ≤ now') :
    SameToClients now' x y :=
  h.imp_right fun h => ⟨shown_none_later hle h.1, shown_none_later hle h.2⟩

theorem SameToClients.shown_eq (h : SameToClients now x y) : shown now x = shown now y := by
  rcases h with rfl | ⟨hx, hy⟩
  · rfl
  · rw [hx, hy]

end Shown

/-! ## Records on their way -/

/-- The two configurations have the same groups. -/
structure SameGroups (g g' : Globals) : Prop where
  groupCount : g'.groupCount = g.groupCount
  dbList : g'.dbList = g.dbList

/-- A record that can be read, sent and stored. -/
structure LogWrite.Replicable (M : MapStore σ κ) (g : Globals) (w : LogWrite) : Prop where
  loggable : w.Loggable
  owned : g.ownsGroup (g.groupOf w.keyHashCode) = true
  sendable : w.record.Sendable
  room : M.room (4 + w.value.length)

/-- The receiver does not move the expiry. -/
def BinLogRecord.ExpiryKept (r : BinLogRecord) (now : Int) : Prop :=
  toInt32 r.timestamp ≤ 0 ∨ toInt32 r.expires ≤ 0 ∨ now = toInt32 r.timestamp

instance (r : BinLogRecord) (now : Int) : Decidable (r.ExpiryKept now) :=
  inferInstanceAs (Decidable (_ ∨ _))

section Records

variable {M : MapStore σ κ} {g g' : Globals} {w : LogWrite} {now : Int}

theorem LogWrite.FromClient.replicable {t : FastTaskInfo} (hw : w.FromClient M (g.at now) t)
    (hr : RecordsReadable (g.at now) t) : w.Replicable M g := by
  have hlog := hw.of.loggable hr hw.valueLen_nonneg
  refine ⟨hlog, ?_, ⟨hlog.key_ne, hw.fits⟩, hw.room⟩
  rw [hw.of.keyHashCode]
  exact hw.of.owns

theorem LogWrite.Replicable.owned_record (hw : w.Replicable M g) :
    g.ownsGroup (g.groupOf w.record.keyHashCode) = true := by
  rw [show w.record.keyHashCode = toInt32 w.keyHashCode from rfl, groupOf_toInt32]
  exact hw.owned

theorem SameGroups.groupOf (h : SameGroups g g') (hash : Int) : g'.groupOf hash = g.groupOf hash := by
  unfold Globals.groupOf
  rw [h.groupCount]

theorem SameGroups.ownsGroup (h : SameGroups g g') (i : Nat) : g'.ownsGroup i = g.ownsGroup i := by
  unfold Globals.ownsGroup
  rw [h.dbList]

theorem placeOf_record (h : SameGroups g g') (w : LogWrite) :
    M.placeOf g' w.record = (M.overwrite g w).1 := by
  unfold MapStore.placeOf MapStore.overwrite
  rw [h.groupOf]
  exact congrArg (fun i => M.slot i w.keyInfo.packFullKey) (groupOf_toInt32 g w.keyHashCode)

theorem newExpires_record (h : w.record.ExpiryKept now) :
    (g'.at now).newExpires (toInt32 w.record.timestamp) (toInt32 w.record.expires) =
      toInt32 w.expires := by
  have hself : toInt32 w.record.expires = toInt32 w.expires := by
    simp only [LogWrite.record, toInt32_toUInt32, toInt32_toInt32]
  unfold Globals.newExpires Globals.at
  rcases h with h | h | h
  · rw [if_neg (by omega), hself]
  · rw [if_neg (by omega), hself]
  · split
    · dsimp only
      omega
    · exact hself

theorem replicaValue_record (h : w.record.ExpiryKept now) :
    w.record.replicaValue (g'.at now) = (M.overwrite g w).2 := by
  unfold BinLogRecord.replicaValue MapStore.overwrite LogWrite.entry
  rw [newExpires_record h, int2buff_toInt32]
  rfl

theorem shown_dropped (h : w.record.dropped now = true) :
    shown now (M.overwrite g w).2 = none := by
  unfold MapStore.overwrite LogWrite.entry
  split
  · rw [shown_some, buff2int_int2buff, if_pos]
    have hexp : w.record.expires = toUInt32 (toInt32 w.expires) := rfl
    have hlt := toInt32_lt w.expires
    rw [BinLogRecord.dropped, hexp, Bool.and_eq_true, decide_eq_true_eq, decide_eq_true_eq] at h
    rw [expired, Bool.and_eq_true, decide_eq_true_eq, decide_eq_true_eq]
    unfold fdhtExpiresNever toUInt32 at *
    omega
  · rfl

theorem overwrite_carries {v : Bytes} (h : (M.overwrite g w).2 = some v) : CarriesExpiry v := by
  unfold MapStore.overwrite LogWrite.entry at h
  split at h
  · obtain rfl := Option.some.inj h
    simp [CarriesExpiry]
  · cases h

/-- What a binlog describes, from an empty store on. -/
def MapStore.described (M : MapStore σ κ) (g : Globals) (log : List LogWrite) : κ → Option Bytes :=
  replay (log.map (M.overwrite g)) fun _ => none

theorem described_append (a b : List LogWrite) :
    M.described g (a ++ b) = replay (b.map (M.overwrite g)) (M.described g a) := by
  unfold MapStore.described
  rw [List.map_append, replay_append]

theorem described_carries {log : List LogWrite} {k : κ} {v : Bytes}
    (h : M.described g log k = some v) : CarriesExpiry v := by
  have hne : M.described g log k ≠ none := by rw [h]; simp
  obtain ⟨w, -, hw⟩ := List.mem_map.mp (mem_of_replay_ne hne)
  refine overwrite_carries (M := M) (g := g) (w := w) ?_
  rw [hw]
  exact h

end Records

/-! ## Runs with one source -/

/-- Clients send SET, INC and DEL to `a` only, and its records go to `b`. -/
def GroupEvent.OneSource (a b : ι) : GroupEvent ι → Prop
  | .tick _ => True
  | .request i t _ => i = a ∧ ∃ c ∈ [ProtoCmd.set, .inc, .del], t.cmd = some c
  | .deliver i j _ _ _ => i = a ∧ j = b
  | .rewind i j _ => i = a ∧ j = b

/-- A request logs records that can be read. A record that is dropped finds nothing
to be seen at the replica, and one that is sent keeps its expiry. -/
def Group.KeepsMeaning (M : MapStore σ κ) (g : ι → Globals) (a b : ι) (s : Group ι σ) :
    GroupEvent ι → Prop
  | .request _ t _ => RecordsReadable ((g a).at s.now) t ∧ t.Fits M
  | .deliver _ _ _ _ _ => match s.next a b with
    | .ok (r, _) => if r.dropped s.now = true then
          shown s.now (M.lookup (s.server b).store (M.placeOf (g b) r)) = none
        else r.ExpiryKept s.now
    | .error _ => True
  | _ => True

instance (a b : ι) : (e : GroupEvent ι) → Decidable (e.OneSource a b)
  | .tick _ => .isTrue trivial
  | .request _ _ _ => inferInstanceAs (Decidable (_ ∧ ∃ c ∈ _, _))
  | .deliver _ _ _ _ _ => inferInstanceAs (Decidable (_ ∧ _))
  | .rewind _ _ _ => inferInstanceAs (Decidable (_ ∧ _))

instance (M : MapStore σ κ) [DecidablePred M.room] (g : ι → Globals) (a b : ι) (s : Group ι σ)
    (e : GroupEvent ι) : Decidable (s.KeepsMeaning M g a b e) := by
  cases e <;> unfold Group.KeepsMeaning
  case deliver => cases s.next a b <;> infer_instance
  all_goals infer_instance

/-- The two servers before the first request. -/
structure Group.Fresh (M : MapStore σ κ) (a b : ι) (s : Group ι σ) : Prop where
  quiet : ∀ i, M.Quiet (s.server i).store
  empty : ∀ i, M.lookup (s.server i).store = fun _ => none
  binlog : (s.server a).binlog = []
  offset : s.offset (a, b) = 0
  marks : s.marks (a, b) = []

/-- The source's binlog describes its store. For every key the replica has what
the binlog describes up to some record that the thread has sent. -/
structure Group.Tracks (M : MapStore σ κ) (g : ι → Globals) (a b : ι) (s : Group ι σ) : Prop where
  quiet : M.Quiet (s.server a).store ∧ M.Quiet (s.server b).store
  records : ∀ w ∈ (s.server a).binlog, w.Replicable M (g a) ∧ w.opType.isSource = true
  source : M.lookup (s.server a).store = M.described (g a) (s.server a).binlog
  marks : ∀ offset ∈ s.marks (a, b), ∃ n, StartsAt (s.server a).binlog offset n
  replica : ∃ n, StartsAt (s.server a).binlog (s.offset (a, b)) n ∧
    ∀ k, ∃ m, n ≤ m ∧ m ≤ (s.server a).binlog.length ∧
      SameToClients s.now (M.described (g a) ((s.server a).binlog.take m) k)
        (M.lookup (s.server b).store k)
  carries : ∀ k v, M.lookup (s.server b).store k = some v → CarriesExpiry v

section Converge

variable {M : MapStore σ κ} {g : ι → Globals} {a b : ι} {s s' : Group ι σ}

omit [DecidableEq ι] in
theorem Group.Tracks.tick (h : s.Tracks M g a b) (seconds : Nat) :
    ({ s with now := s.now + seconds } : Group ι σ).Tracks M g a b := by
  obtain ⟨n, hn, hreplica⟩ := h.replica
  refine ⟨h.quiet, h.records, h.source, h.marks, ⟨n, hn, fun k => ?_⟩, h.carries⟩
  obtain ⟨m, hnm, hm, hsame⟩ := hreplica k
  exact ⟨m, hnm, hm, hsame.later (by dsimp only; omega)⟩

theorem Group.Tracks.rewind (h : s.Tracks M g a b) {offset : Nat} (hmark : offset ∈ s.marks (a, b))
    (hle : offset ≤ s.offset (a, b)) :
    ({ s with offset := Function.update s.offset (a, b) offset } : Group ι σ).Tracks M g a b := by
  obtain ⟨n, hn, hreplica⟩ := h.replica
  obtain ⟨n', hn'⟩ := h.marks offset hmark
  refine ⟨h.quiet, h.records, h.source, h.marks, ⟨n', ?_, fun k => ?_⟩, h.carries⟩
  · dsimp only
    rw [Function.update_self]
    exact hn'
  · obtain ⟨m, hnm, hm, hsame⟩ := hreplica k
    exact ⟨m, (hn'.le_of_le hn hle).trans hnm, hm, hsame⟩

theorem Group.Tracks.request (hab : a ≠ b) (hflag : (g a).writeToBinlogFlag = true)
    (h : s.Tracks M g a b) {t : FastTaskInfo} {c : ProtoCmd} (hc : c ∈ [ProtoCmd.set, .inc, .del])
    (hcmd : t.cmd = some c) (hreadable : RecordsReadable ((g a).at s.now) t) (hfits : t.Fits M)
    {env : TaskEnv} {reply : Reply σ} (hdeal : dealCmd M.toStoreFuncs ((g a).at s.now) env t
      (s.server a) t.cmd = some reply) : (s.setServer a reply.server).Tracks M g a b := by
  have hflag' : ((g a).at s.now).writeToBinlogFlag = true := hflag
  obtain ⟨log, hfollows, hlog⟩ := dealCmd_follows hc hcmd hflag' h.quiet.1 hfits hdeal
  obtain ⟨n, hn, hreplica⟩ := h.replica
  have ha : (s.setServer a reply.server).server a = reply.server := Function.update_self ..
  have hb : (s.setServer a reply.server).server b = s.server b := Function.update_of_ne hab.symm ..
  refine ⟨by rw [ha, hb]; exact ⟨hfollows.quiet, h.quiet.2⟩, ?_, ?_, ?_, ⟨n, ?_, fun k => ?_⟩, ?_⟩
  · rw [ha, hfollows.binlog]
    intro w hw
    rcases List.mem_append.mp hw with hw | hw
    · exact h.records w hw
    · have hclient := (hlog w hw).1
      refine ⟨hclient.replicable hreadable, ?_⟩
      rcases hclient.source with hop | hop <;> rw [hop] <;> rfl
  · rw [ha, hfollows.binlog, hfollows.replay, described_append, h.source]
    rfl
  · rw [ha, hfollows.binlog]
    intro offset hoffset
    obtain ⟨n', hn'⟩ := h.marks offset hoffset
    exact ⟨n', hn'.append log⟩
  · rw [ha, hfollows.binlog]
    exact hn.append log
  · obtain ⟨m, hnm, hm, hsame⟩ := hreplica k
    rw [ha, hb, hfollows.binlog]
    refine ⟨m, hnm, by rw [List.length_append]; omega, ?_⟩
    rw [List.take_append_of_le_length hm]
    exact hsame
  · rw [hb]
    exact h.carries

/-- The thread has read a record of the source. The replica may do with its key
what the record says, as clients see it, and nothing with other keys. -/
theorem Group.Tracks.read (hab : a ≠ b) (h : s.Tracks M g a b) {r : BinLogRecord} {len : Int}
    (hnext : s.next a b = .ok (r, len)) :
    ∃ w : LogWrite, r = w.record ∧ w.Replicable M (g a) ∧ w.opType.isSource = true ∧
      ∀ server : Server σ, M.Quiet server.store →
        (∀ k v, M.lookup server.store k = some v → CarriesExpiry v) →
        SameToClients s.now (M.overwrite (g a) w).2
          (M.lookup server.store (M.overwrite (g a) w).1) →
        (∀ k, k ≠ (M.overwrite (g a) w).1 →
          M.lookup server.store k = M.lookup (s.server b).store k) →
        ((s.setServer b server).advance a b r).Tracks M g a b := by
  obtain ⟨n, hn, hreplica⟩ := h.replica
  obtain ⟨w, rest, hdrop, hr, htake, hnext'⟩ :=
    hn.read (fun w hw => (h.records w hw).1.loggable) hnext
  obtain ⟨hrecord, hsource⟩ := h.records w (List.mem_of_mem_drop (hdrop ▸ List.mem_cons_self))
  refine ⟨w, hr, hrecord, hsource, fun server hq hcarries hsame hother => ?_⟩
  have ha : ((s.setServer b server).advance a b r).server a = s.server a :=
    Function.update_of_ne hab ..
  have hb : ((s.setServer b server).advance a b r).server b = server := Function.update_self ..
  have hoffset : ((s.setServer b server).advance a b r).offset (a, b) =
      s.offset (a, b) + r.readBytes := Function.update_self ..
  have hmarks : ((s.setServer b server).advance a b r).marks (a, b) =
      s.offset (a, b) :: s.marks (a, b) := Function.update_self ..
  have hdescribed : M.described (g a) ((s.server a).binlog.take (n + 1)) =
      Function.update (M.described (g a) ((s.server a).binlog.take n)) (M.overwrite (g a) w).1
        (M.overwrite (g a) w).2 := by
    rw [htake, described_append]
    rfl
  refine ⟨by rw [ha, hb]; exact ⟨h.quiet.1, hq⟩, by rw [ha]; exact h.records,
    by rw [ha]; exact h.source, ?_, ⟨n + 1, by rw [ha, hoffset]; exact hnext', fun k => ?_⟩,
    by rw [hb]; exact hcarries⟩
  · rw [ha, hmarks]
    intro offset hoffset
    rcases List.mem_cons.mp hoffset with rfl | hoffset
    · exact ⟨n, hn⟩
    · exact h.marks offset hoffset
  · rw [ha, hb]
    by_cases hk : k = (M.overwrite (g a) w).1
    · subst hk
      refine ⟨n + 1, le_rfl, hnext'.1, ?_⟩
      rw [hdescribed, Function.update_self]
      exact hsame
    · rw [hother k hk]
      obtain ⟨m, hnm, hm, hsame⟩ := hreplica k
      by_cases hmn : m = n
      · refine ⟨n + 1, le_rfl, hnext'.1, ?_⟩
        rw [hdescribed, Function.update_of_ne hk, ← hmn]
        exact hsame
      · exact ⟨m, by omega, hm, hsame⟩

theorem Group.Tracks.deliver (hab : a ≠ b) (hgroups : SameGroups (g a) (g b))
    {reader : BinLogReader} (h : s.Tracks M g a b) {r : BinLogRecord} {len : Int}
    (hnext : s.next a b = .ok (r, len))
    (hok : if r.dropped s.now = true then
        shown s.now (M.lookup (s.server b).store (M.placeOf (g b) r)) = none
      else r.ExpiryKept s.now) {behind clientIp : Bytes} {env : TaskEnv}
    (hsync : s.sync M.toStoreFuncs g reader a b r behind clientIp env = some s') :
    s'.Tracks M g a b := by
  obtain ⟨w, rfl, hrecord, hsource, hadvance⟩ := h.read hab hnext
  have hplace := placeOf_record (M := M) hgroups w
  have howns : ((g a).at s.now).ownsGroup (((g a).at s.now).groupOf w.record.keyHashCode) = true :=
    hrecord.owned_record
  rcases hsend : fdhtSyncData ((g a).at s.now) reader w.record with _ | message
  · -- it is dropped, and its key cannot be seen at either server
    have hdropped : w.record.dropped s.now = true := by
      rcases fdhtSyncData_none howns hsend with hdropped | ⟨hop, -⟩
      · exact hdropped
      · exact absurd (hop.symm.trans hsource) (by decide)
    rw [if_pos hdropped, hplace] at hok
    unfold Group.sync at hsync
    rw [hsend] at hsync
    obtain rfl := Option.some.inj hsync
    have htracks := hadvance (s.server b) h.quiet.2 h.carries
      (.inr ⟨shown_dropped hdropped, hok⟩) fun _ _ => rfl
    rwa [Group.setServer_self] at htracks
  · have hdropped : w.record.dropped s.now = false := (fdhtSyncData_some hsend).2.1
    rw [if_neg (by rw [hdropped]; decide)] at hok
    obtain ⟨server, rfl, hq, hlookup, -⟩ := Group.sync_sent hsend hrecord.sendable
      (by rw [hgroups.groupOf, hgroups.ownsGroup]; exact howns) hrecord.room h.quiet.2 hsync
    rw [hplace, replicaValue_record (M := M) (g := g a) hok] at hlookup
    refine hadvance server hq ?_ (.inl ?_) fun k hk => ?_
    · intro k v hv
      rw [hlookup, Function.update_apply] at hv
      split at hv
      · exact overwrite_carries hv
      · exact h.carries k v hv
    · rw [hlookup, Function.update_self]
    · rw [hlookup, Function.update_of_ne hk]

theorem Group.Tracks.step (hab : a ≠ b) (hgroups : SameGroups (g a) (g b))
    (hflag : (g a).writeToBinlogFlag = true) {reader : BinLogReader} (h : s.Tracks M g a b)
    {e : GroupEvent ι} (hone : e.OneSource a b) (hok : s.KeepsMeaning M g a b e)
    (hstep : s.step M.toStoreFuncs g reader e = some s') : s'.Tracks M g a b := by
  cases e with
  | tick seconds =>
    obtain rfl := Option.some.inj hstep
    exact h.tick seconds
  | request i t env =>
    obtain ⟨rfl, c, hc, hcmd⟩ := hone
    obtain ⟨reply, hdeal, rfl⟩ := Option.map_eq_some_iff.mp hstep
    exact h.request hab hflag hc hcmd hok.1 hok.2 hdeal
  | deliver i j behind clientIp env =>
    obtain ⟨rfl, rfl⟩ := hone
    simp only [Group.step, if_neg hab] at hstep
    simp only [Group.KeepsMeaning] at hok
    rcases hnext : s.next i j with _ | ⟨r, len⟩
    · rw [hnext] at hstep
      cases hstep
    · rw [hnext] at hstep hok
      exact h.deliver hab hgroups hnext hok hstep
  | rewind i j offset =>
    obtain ⟨rfl, rfl⟩ := hone
    simp only [Group.step] at hstep
    split at hstep
    · rename_i hmark
      obtain rfl := Option.some.inj hstep
      exact h.rewind hmark.1 hmark.2
    · cases hstep

omit [DecidableEq ι] in
theorem Group.Fresh.tracks (h : s.Fresh M a b) : s.Tracks M g a b where
  quiet := ⟨h.quiet a, h.quiet b⟩
  records := by rw [h.binlog]; simp
  source := by rw [h.empty, h.binlog]; rfl
  marks := by rw [h.marks]; simp
  replica := by
    refine ⟨0, by rw [h.offset]; exact .zero _, fun k => ⟨0, le_rfl, Nat.zero_le _, .inl ?_⟩⟩
    rw [h.empty]
    rfl
  carries := by rw [h.empty]; intro k v hv; cases hv

variable (hab : a ≠ b) (hgroups : SameGroups (g a) (g b))
  (hflag : (g a).writeToBinlogFlag = true) (reader : BinLogReader) {s₀ : Group ι σ}
  (h₀ : s₀.Fresh M a b)
  (hrun : Runs (Group.step M.toStoreFuncs g reader)
    (fun s e => e.OneSource a b ∧ s.KeepsMeaning M g a b e) s₀ s)
include hab hgroups hflag h₀ hrun

theorem Group.tracks_of_run : s.Tracks M g a b :=
  hrun.invariant h₀.tracks fun _ _ _ h hok hstep => h.step hab hgroups hflag hok.1 hok.2 hstep

/-- **In every run in which the records keep their meaning, whatever their delay
and however often they are sent, every GET has the same answer at the replica as at
the source as soon as the whole binlog has been read.** -/
theorem replica_converges (hend : s.offset (a, b) = (binlogBytes (s.server a).binlog).length)
    (t : FastTaskInfo) (env env' : TaskEnv) (halloc : env.alloc 0 ≠ none) (halloc' : env'.alloc 0 ≠ none) :
    (dealCmdGet M.toStoreFuncs ((g b).at s.now) env' t (s.server b)).answer =
      (dealCmdGet M.toStoreFuncs ((g a).at s.now) env t (s.server a)).answer := by
  have h := Group.tracks_of_run hab hgroups hflag reader h₀ hrun
  have hparse : parseExact ((g b).at s.now) 12 true t = parseExact ((g a).at s.now) 12 true t := by
    obtain ⟨hcount, hdbs⟩ := hgroups
    generalize g b = gb at hcount hdbs ⊢
    obtain ⟨groupCount, dbList, flag, sub, time⟩ := gb
    obtain rfl : groupCount = _ := hcount
    obtain rfl : dbList = _ := hdbs
    rfl
  rcases hp : parseExact ((g a).at s.now) 12 true t with _ | r
  · unfold dealCmdGet
    rw [hparse, hp]
    rfl
  have hcarries : ∀ k v, M.lookup (s.server a).store k = some v → CarriesExpiry v := by
    intro k v hv
    rw [h.source] at hv
    exact described_carries hv
  rw [dealCmdGet_answer h.quiet.1 hcarries halloc hp,
    dealCmdGet_answer h.quiet.2 h.carries halloc' (hparse.trans hp)]
  obtain ⟨n, hn, hreplica⟩ := h.replica
  obtain ⟨m, hnm, hm, hsame⟩ := hreplica (M.slot r.header.groupId r.keyInfo.packFullKey)
  have hm' : m = (s.server a).binlog.length := by
    have := hn.at_end hend
    omega
  rw [hm', List.take_length, ← h.source] at hsame
  exact congrArg answerOf hsame.shown_eq.symm

/-- **Every GET shows a state that the source has been in.** At every moment of such a run a
GET at the source shows what its binlog describes, and a GET at the replica what the binlog
described up to some record, none before the place where the thread is. -/
theorem gets_show_past
    {t : FastTaskInfo} {r : KeyRequest} (hp : parseExact ((g a).at s.now) 12 true t = some r)
    (hp' : parseExact ((g b).at s.now) 12 true t = some r) (env : TaskEnv)
    (halloc : env.alloc 0 ≠ none) :
    (dealCmdGet M.toStoreFuncs ((g a).at s.now) env t (s.server a)).answer =
      answerOf (shown s.now (M.described (g a) (s.server a).binlog
        (M.slot r.header.groupId r.keyInfo.packFullKey))) ∧
    ∃ n m, StartsAt (s.server a).binlog (s.offset (a, b)) n ∧ n ≤ m ∧
      m ≤ (s.server a).binlog.length ∧
      (dealCmdGet M.toStoreFuncs ((g b).at s.now) env t (s.server b)).answer =
        answerOf (shown s.now (M.described (g a) ((s.server a).binlog.take m)
          (M.slot r.header.groupId r.keyInfo.packFullKey))) := by
  have h := Group.tracks_of_run hab hgroups hflag reader h₀ hrun
  obtain ⟨n, hn, hreplica⟩ := h.replica
  obtain ⟨m, hnm, hm, hsame⟩ := hreplica (M.slot r.header.groupId r.keyInfo.packFullKey)
  refine ⟨?_, n, m, hn, hnm, hm, ?_⟩
  · have hcarries : ∀ k v, M.lookup (s.server a).store k = some v → CarriesExpiry v := by
      rw [h.source]
      exact fun _ _ => described_carries
    rw [dealCmdGet_answer h.quiet.1 hcarries halloc hp, h.source]
    rfl
  · rw [dealCmdGet_answer h.quiet.2 h.carries halloc hp']
    exact congrArg answerOf hsame.shown_eq.symm

end Converge

instance : DecidablePred bdbMap.room := fun _ => .isTrue trivial

/-- Two servers without data. -/
def twoServers : Group Bool Bdb where
  server := fun _ => emptyServer
  offset := fun _ => 0
  marks := fun _ => []
  now := 1000

/-- GET of the key `a`. -/
def getRequest : FastTaskInfo :=
  request .get 0 (-1) (int2buff 0 ++ int2buff 0 ++ int2buff 1 ++ [97])

/-- SET of the key `a` to `y`, with an expiry ten seconds later. -/
def setExpiringRequest : FastTaskInfo :=
  request .set 1000 1010 (int2buff 0 ++ int2buff 0 ++ int2buff 1 ++ [97] ++ int2buff 1 ++ [121])

theorem twoServers_fresh : twoServers.Fresh bdbMap false true :=
  ⟨fun _ => emptyBdb_quiet, fun _ => rfl, rfl, rfl, rfl⟩

/-- The record is late by twenty seconds and sent twice. -/
theorem replica_converges_set :
    ∃ s, Runs (Group.step bdbMap.toStoreFuncs (fun _ => oneGroup) plainReader)
        (fun s e => e.OneSource false true ∧ s.KeepsMeaning bdbMap (fun _ => oneGroup) false true e)
        twoServers s ∧
      s.offset (false, true) = (binlogBytes (s.server false).binlog).length ∧
      (dealCmdGet bdbMap.toStoreFuncs (oneGroup.at s.now) roomyEnv getRequest (s.server true)).answer =
        (0, some [120]) := by
  have hexec : (exec (Group.step bdbMap.toStoreFuncs (fun _ => oneGroup) plainReader)
      (fun s e => e.OneSource false true ∧ s.KeepsMeaning bdbMap (fun _ => oneGroup) false true e)
      [.request false setRequest quietEnv, .tick 20, .deliver false true [] [] quietEnv,
        .rewind false true 0, .deliver false true [] [] quietEnv] twoServers).map (fun s =>
      (decide (s.offset (false, true) = (binlogBytes (s.server false).binlog).length),
        (dealCmdGet bdbMap.toStoreFuncs (oneGroup.at s.now) roomyEnv getRequest
          (s.server false)).answer)) = some (true, 0, some [120]) := by decide +kernel
  obtain ⟨s, hrun, heq⟩ := Option.map_eq_some_iff.mp hexec
  obtain ⟨hend, hanswer⟩ := Prod.mk.inj heq
  refine ⟨s, Runs.of_exec hrun, of_decide_eq_true hend, ?_⟩
  have hab : false ≠ true := by decide
  rw [replica_converges (g := fun _ => oneGroup) hab ⟨rfl, rfl⟩ rfl plainReader twoServers_fresh
    (Runs.of_exec hrun) (of_decide_eq_true hend) getRequest roomyEnv roomyEnv
    (by decide) (by decide)]
  exact hanswer

/-- The replica has got the first of two values. -/
theorem gets_show_past_first :
    ∃ (s : Group Bool Bdb) (m : Nat), m ≤ (s.server false).binlog.length ∧
      (dealCmdGet bdbMap.toStoreFuncs (oneGroup.at s.now) roomyEnv getRequest
        (s.server true)).answer =
        answerOf (shown s.now (bdbMap.described oneGroup ((s.server false).binlog.take m)
          (0, [1, 1, 97]))) := by
  have hexec : (exec (Group.step bdbMap.toStoreFuncs (fun _ => oneGroup) plainReader)
      (fun s e => e.OneSource false true ∧ s.KeepsMeaning bdbMap (fun _ => oneGroup) false true e)
      [.request false setRequest quietEnv, .deliver false true [] [] quietEnv,
        .request false setExpiringRequest quietEnv] twoServers).map Group.now = some 1000 := by
    decide +kernel
  obtain ⟨s, hrun, hnow⟩ := Option.map_eq_some_iff.mp hexec
  have hab : false ≠ true := by decide
  have hp : ∃ r, parseExact (oneGroup.at s.now) 12 true getRequest = some r ∧
      (r.header.groupId, r.keyInfo.packFullKey) = (0, [1, 1, 97]) := by
    rw [hnow]
    exact ⟨_, rfl, rfl⟩
  obtain ⟨r, hp, hkey⟩ := hp
  obtain ⟨-, -, m, -, -, hm, hanswer⟩ := gets_show_past (g := fun _ => oneGroup) hab ⟨rfl, rfl⟩ rfl
    plainReader twoServers_fresh (Runs.of_exec hrun) hp hp roomyEnv (by decide)
  refine ⟨s, m, hm, ?_⟩
  rw [hanswer, ← hkey]
  rfl

/-- The key is set to `x`, which the replica gets, and then to `y` with an expiry,
which it does not get: the record is read after the expiry and dropped. At the
source the key is gone, and the replica goes on answering `x`. -/
theorem replica_shows_old_value :
    ∃ s, Runs (Group.step bdbMap.toStoreFuncs (fun _ => oneGroup) plainReader)
        (fun _ e => e.OneSource false true) twoServers s ∧
      s.offset (false, true) = (binlogBytes (s.server false).binlog).length ∧
      (dealCmdGet bdbMap.toStoreFuncs (oneGroup.at s.now) roomyEnv getRequest (s.server false)).answer =
        (ENOENT, none) ∧
      (dealCmdGet bdbMap.toStoreFuncs (oneGroup.at s.now) roomyEnv getRequest (s.server true)).answer =
        (0, some [120]) := by
  have hexec : (exec (Group.step bdbMap.toStoreFuncs (fun _ => oneGroup) plainReader)
      (fun _ e => e.OneSource false true)
      [.request false setRequest quietEnv, .deliver false true [] [] quietEnv,
        .request false setExpiringRequest quietEnv, .tick 20,
        .deliver false true [] [] quietEnv] twoServers).map (fun s =>
      (decide (s.offset (false, true) = (binlogBytes (s.server false).binlog).length),
        (dealCmdGet bdbMap.toStoreFuncs (oneGroup.at s.now) roomyEnv getRequest
          (s.server false)).answer,
        (dealCmdGet bdbMap.toStoreFuncs (oneGroup.at s.now) roomyEnv getRequest
          (s.server true)).answer)) = some (true, (ENOENT, none), 0, some [120]) := by
    decide +kernel
  obtain ⟨s, hrun, heq⟩ := Option.map_eq_some_iff.mp hexec
  obtain ⟨hend, heq⟩ := Prod.mk.inj heq
  obtain ⟨hsource, hreplica⟩ := Prod.mk.inj heq
  exact ⟨s, Runs.of_exec hrun, of_decide_eq_true hend, hsource, hreplica⟩

end FastDht
