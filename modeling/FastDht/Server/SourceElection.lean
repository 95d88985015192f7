import FastDht.Lib.Machine
import FastDht.Server.SyncReq

/-! # The election of the source of the old data

A new server answers the SYNC_REQ messages of the members of its group until it
has its old data. Each message is weighed against a table that holds the last
message of every member. -/
namespace FastDht
open Lib

/-- The server as the sockets name it. -/
def FDHTGroupServer.id (p : FDHTGroupServer) : Bytes × Int := (cstr p.ipAddr, p.port)

def SyncState.source (s : SyncState) : Bytes × Int := (s.syncSrcIpAddr, s.syncSrcPort)

def SyncState.foreign (s : SyncState) (p : FDHTGroupServer) : Bool := !s.isLocalHostIp p.ipAddr

/-! ## The server that is chosen -/

theorem foldl_max_split {α : Type*} {f : α → Int} {a r : α} {l : List α}
    (h : l.foldl (fun m p => if f m < f p then p else m) a = r) :
    ∃ l₁ l₂, a :: l = l₁ ++ r :: l₂ ∧ (∀ q ∈ l₁, f q < f r) ∧ ∀ q ∈ l₂, f q ≤ f r := by
  induction l generalizing a with
  | nil =>
    cases h
    exact ⟨[], [], rfl, by simp, by simp⟩
  | cons b l ih =>
    rw [List.foldl_cons] at h
    by_cases hab : f a < f b
    · rw [if_pos hab] at h
      obtain ⟨l₁, l₂, hsplit, hlt, hle⟩ := ih h
      have hb : f b ≤ f r := by
        have hmem : b ∈ l₁ ++ r :: l₂ := hsplit ▸ List.mem_cons_self
        rcases List.mem_append.mp hmem with hmem | hmem
        · exact (hlt b hmem).le
        · rcases List.mem_cons.mp hmem with rfl | hmem
          · exact le_rfl
          · exact hle b hmem
      refine ⟨a :: l₁, l₂, congrArg (a :: ·) hsplit, ?_, hle⟩
      intro q hq
      rcases List.mem_cons.mp hq with rfl | hq
      · omega
      · exact hlt q hq
    · rw [if_neg hab] at h
      obtain ⟨l₁, l₂, hsplit, hlt, hle⟩ := ih h
      rcases l₁ with _ | ⟨c, l₁⟩
      · obtain ⟨rfl, rfl⟩ := List.cons.inj hsplit
        refine ⟨[], b :: l, rfl, by simp, ?_⟩
        intro q hq
        rcases List.mem_cons.mp hq with rfl | hq
        · omega
        · exact hle q hq
      · obtain ⟨rfl, hl⟩ := List.cons.inj hsplit
        have ha := hlt a List.mem_cons_self
        refine ⟨a :: b :: l₁, l₂, congrArg (a :: b :: ·) hl, ?_, hle⟩
        intro q hq
        rcases List.mem_cons.mp hq with rfl | hq
        · exact ha
        rcases List.mem_cons.mp hq with rfl | hq
        · omega
        · exact hlt q (List.mem_cons_of_mem _ hq)

section Choice

variable {now : Int} {s : SyncState} {p : FDHTGroupServer}

/-- `l₁` and `l₂` are what stands before and after the chosen server in the table.
Either it has its old data and nobody before it has; or nobody has, and it is the
first of those with the most updates. -/
def SyncState.Chosen (s : SyncState) (l₁ : List FDHTGroupServer) (p : FDHTGroupServer)
    (l₂ : List FDHTGroupServer) : Prop :=
  (p.syncOldDone = true ∧
    ∀ q ∈ l₁, s.foreign q = true → 0 < q.syncReqCount → q.syncOldDone = false) ∨
  (∀ q ∈ l₁ ++ p :: l₂, s.foreign q = true → q.syncOldDone = false) ∧
    (∀ q ∈ l₁, s.foreign q = true → q.updateCount < p.updateCount) ∧
    ∀ q ∈ l₂, s.foreign q = true → q.updateCount ≤ p.updateCount

theorem chooseServer_chosen
    (h : chooseServer now s (s.groupServers.dropWhile fun p => s.isLocalHostIp p.ipAddr) = .ok p) :
    ∃ l₁ l₂, s.groupServers = l₁ ++ p :: l₂ ∧ s.foreign p = true ∧ s.Chosen l₁ p l₂ := by
  have hsplit := List.takeWhile_append_dropWhile (p := fun p => s.isLocalHostIp p.ipAddr)
    (l := s.groupServers)
  have hlocal : ∀ q ∈ s.groupServers.takeWhile fun p => s.isLocalHostIp p.ipAddr,
      s.foreign q = true → False := by
    intro q hq hforeign
    have hq' : s.isLocalHostIp q.ipAddr = true := by
      have := List.mem_takeWhile_imp hq
      exact this
    simp [SyncState.foreign, hq'] at hforeign
  generalize s.groupServers.takeWhile (fun p => s.isLocalHostIp p.ipAddr) = l₀ at hsplit hlocal
  rcases hdrop : s.groupServers.dropWhile fun p => s.isLocalHostIp p.ipAddr with _ | ⟨first, rest⟩
  · rw [hdrop] at h
    cases h
  have hfirst : s.foreign first = true := by
    have := List.head_dropWhile_not (fun p => s.isLocalHostIp p.ipAddr) (l := s.groupServers)
      (by rw [hdrop]; simp)
    simp only [hdrop, List.head_cons] at this
    simp [SyncState.foreign, this]
  rw [hdrop] at h hsplit
  rw [← hsplit]
  unfold chooseServer at h
  dsimp only at h
  by_cases hdone : 0 < first.syncReqCount ∧ first.syncOldDone = true
  · rw [if_pos hdone] at h
    cases h
    exact ⟨l₀, rest, rfl, hfirst, .inl ⟨hdone.2, fun q hq hf => (hlocal q hq hf).elim⟩⟩
  rw [if_neg hdone] at h
  split at h
  · -- somebody is missing or has its old data
    split at h
    · cases h
    split at h <;> cases h
    rename_i hfind
    obtain ⟨hp, l₁, l₂, rfl, hbefore⟩ := List.find?_eq_some_iff_append.mp hfind
    simp only [Bool.and_eq_true, decide_eq_true_eq] at hp
    refine ⟨l₀ ++ first :: l₁, l₂, by simp, hp.2, .inl ⟨hp.1.2, ?_⟩⟩
    intro q hq hforeign hreq
    rcases List.mem_append.mp hq with hq | hq
    · exact (hlocal q hq hforeign).elim
    rcases List.mem_cons.mp hq with rfl | hq
    · simpa [hreq] using hdone
    · have hnot := hbefore q hq
      have hforeign' : (!s.isLocalHostIp q.ipAddr) = true := hforeign
      rw [hforeign', Bool.and_true, decide_eq_true hreq, Bool.true_and] at hnot
      simpa using hnot
  · -- all of them are new
    rename_i hnone
    have hp := Except.ok.inj h
    obtain ⟨l₁, l₂, hmax, hlt, hle⟩ := foldl_max_split hp
    have hfilter : (l₀ ++ first :: rest).filter s.foreign = l₁ ++ p :: l₂ := by
      rw [List.filter_append, List.filter_eq_nil_iff.mpr hlocal, List.nil_append,
        List.filter_cons_of_pos hfirst]
      exact hmax
    obtain ⟨k₁, k₂, hk, hk₁, hk₂⟩ := List.filter_eq_append_iff.mp hfilter
    obtain ⟨k₃, k₄, rfl, hk₃, hforeign, hk₄⟩ := List.filter_eq_cons_iff.mp hk₂
    refine ⟨k₁ ++ k₃, k₄, by rw [hk, List.append_assoc], hforeign, .inr ⟨?_, ?_, ?_⟩⟩
    · intro q hq hq'
      rw [List.append_assoc, ← hk] at hq
      have hmem : q ∈ (first :: rest).filter fun p => !s.isLocalHostIp p.ipAddr := by
        rcases List.mem_append.mp hq with hq | hq
        · exact (hlocal q hq hq').elim
        · exact List.mem_filter.mpr ⟨hq, hq'⟩
      simp only [List.any_eq_true, not_exists, not_and] at hnone
      have hnot := hnone q hmem
      rcases hold : q.syncOldDone with _ | _
      · rfl
      · rw [hold, Bool.or_true] at hnot
        exact absurd rfl hnot
    · intro q hq hq'
      rcases List.mem_append.mp hq with hq | hq
      · exact hlt q (hk₁ ▸ List.mem_filter.mpr ⟨hq, hq'⟩)
      · exact absurd hq' (hk₃ q hq)
    · intro q hq hq'
      exact hle q (hk₄ ▸ List.mem_filter.mpr ⟨hq, hq'⟩)

end Choice

/-! ## The messages of a run -/

/-- `need_sync_old` of `fdht_sync_req`: does the answer name the server that has
asked? -/
def FastTaskInfo.needSyncOld (t : FastTaskInfo) (id : Bytes × Int) : Bool :=
  (cstr (t.bodyBytes 1 (ipAddressSize - 1)), t.bodyInt (1 + ipAddressSize)) = id

/-- A new server, with the servers that have been answered that they are the
source. -/
structure SyncNode where
  sync : SyncState
  won : List (Bytes × Int)
  deriving DecidableEq, Repr

/-- A message that is handled at a time; `iniResult` is what
`write_to_sync_ini_file` returns. -/
inductive SyncEvent
  | req (now iniResult : Int) (t : FastTaskInfo)
  | notify (now iniResult : Int) (t : FastTaskInfo)
  deriving DecidableEq, Repr

def FastTaskInfo.sender (t : FastTaskInfo) : Bytes × Int := (cstr t.clientIp, t.bodyInt 0)

/-- The fields `sync_old_done` and `update_count` of a SYNC_REQ. -/
def FastTaskInfo.srcSyncOldDone (t : FastTaskInfo) : Bool := t.data.getD (sizeofHeader + 4) 0 ≠ 0

def FastTaskInfo.updateCount (t : FastTaskInfo) : Int := buff2long (t.bodyBytes 5 8)

def SyncNode.step (g : Globals) (s : SyncNode) : SyncEvent → Option SyncNode
  | .req now iniResult t =>
    let r := dealCmdSyncReq (g.at now) iniResult t s.sync
    some {
      sync := r.2.2
      won := if r.1 = 0 ∧ r.2.1.needSyncOld t.sender = true then s.won ++ [t.sender] else s.won }
  | .notify now iniResult t =>
    some { s with sync := (dealCmdSyncDone (g.at now) iniResult t s.sync).2.2 }

def SyncState.rank (s : SyncState) (id : Bytes × Int) : Nat :=
  (s.groupServers.map FDHTGroupServer.id).idxOf id

/-- Nobody overtakes the source: a member that says it has its old data stands
after a source that has, and one that has not has fewer updates, or as many and
stands after it, unless the source has its old data. -/
def SyncNode.NotOvertaken (s : SyncNode) : SyncEvent → Prop
  | .req _ _ t => s.won ≠ [] → s.sync.syncOldDone = false → t.sender ≠ s.sync.source →
    t.sender ∈ s.sync.groupServers.map FDHTGroupServer.id →
    ∀ p ∈ s.sync.groupServers, p.id = s.sync.source →
      if t.srcSyncOldDone then
        p.syncOldDone = true ∧ s.sync.rank s.sync.source < s.sync.rank t.sender
      else p.syncOldDone = true ∨ t.updateCount < p.updateCount ∨
        t.updateCount = p.updateCount ∧ s.sync.rank s.sync.source < s.sync.rank t.sender
  | .notify .. => True

instance (s : SyncNode) : (e : SyncEvent) → Decidable (s.NotOvertaken e)
  | .req .. => inferInstanceAs (Decidable (_ → _))
  | .notify .. => .isTrue trivial

/-! ## What a message does -/

/-- The table with the fields of a message at its sender. -/
def SyncState.record (s : SyncState) (now : Int) (t : FastTaskInfo) (i : Nat) : SyncState :=
  { s with
    firstSyncReqTime := if s.firstSyncReqTime = 0 then now else s.firstSyncReqTime
    groupServers := s.groupServers.modify i fun p => { p with
      syncOldDone := t.srcSyncOldDone
      syncReqCount := p.syncReqCount + 1
      updateCount := t.updateCount } }

/-- The server is chosen: it becomes the source if it has data at all. -/
def SyncState.elect (s : SyncState) (now : Int) (p : FDHTGroupServer) : SyncState :=
  if 0 < p.updateCount then
    { s with
      syncSrcIpAddr := cstr p.ipAddr
      syncSrcPort := p.port
      syncUntilTimestamp := now }
  else { s with syncOldDone := true }

theorem groupCmpByIpAndPort_eq_iff {a b : FDHTGroupServer} :
    groupCmpByIpAndPort a b = .eq ↔ a.id = b.id := by
  unfold groupCmpByIpAndPort FDHTGroupServer.id
  rw [Prod.mk.injEq, ← strcmp_eq_iff]
  rcases strcmp a.ipAddr b.ipAddr with _ | _ | _ <;> simp

theorem chooseServer_error {now : Int} {s : SyncState} {l : List FDHTGroupServer} {e : Int}
    (h : chooseServer now s l = .error e) : e ≠ 0 := by
  unfold chooseServer at h
  split at h
  · cases h
    decide
  · dsimp only at h
    split_ifs at h
    · cases h
      decide
    · split at h <;> cases h
      decide

theorem dealCmdSyncReq_cases (g : Globals) (iniResult : Int) (t : FastTaskInfo) (s : SyncState) :
    ((dealCmdSyncReq g iniResult t s).2.2 = s ∧ ((dealCmdSyncReq g iniResult t s).1 = 0 →
      s.syncOldDone = true ∧ (dealCmdSyncReq g iniResult t s).2.1 = packSyncReqBody t s)) ∨
    s.syncOldDone = false ∧ ∃ i x, s.groupServers[i]? = some x ∧ x.id = t.sender ∧
      (((dealCmdSyncReq g iniResult t s).2.2 = s.record g.currentTime t i ∧
        (dealCmdSyncReq g iniResult t s).1 ≠ 0) ∨
      ∃ p, chooseServer g.currentTime (s.record g.currentTime t i)
          ((s.record g.currentTime t i).groupServers.dropWhile fun p =>
            (s.record g.currentTime t i).isLocalHostIp p.ipAddr) = .ok p ∧ p.id = t.sender ∧
        (dealCmdSyncReq g iniResult t s).2.2 =
          (s.record g.currentTime t i).elect g.currentTime p ∧
        ((dealCmdSyncReq g iniResult t s).1 = 0 → (dealCmdSyncReq g iniResult t s).2.1 =
          packSyncReqBody t ((s.record g.currentTime t i).elect g.currentTime p))) := by
  unfold dealCmdSyncReq
  by_cases hlen : t.inBodyLen ≠ 13
  · rw [if_pos hlen]
    exact .inl ⟨rfl, fun h => absurd h (by decide : EINVAL ≠ 0)⟩
  rw [if_neg hlen]
  by_cases hdone : s.syncOldDone = true
  · rw [if_pos hdone]
    exact .inl ⟨rfl, fun _ => ⟨hdone, rfl⟩⟩
  rw [if_neg hdone]
  dsimp only
  split
  · exact .inl ⟨rfl, fun h => absurd h (by decide : ENOENT ≠ 0)⟩
  rename_i i hfound
  obtain ⟨x, hx, hcmp⟩ := bsearch_some hfound
  refine .inr ⟨by simpa using hdone, i, x, hx, (groupCmpByIpAndPort_eq_iff.mp hcmp).symm, ?_⟩
  split
  · rename_i hchoose
    exact .inl ⟨rfl, chooseServer_error hchoose⟩
  rename_i p hchoose
  split
  · rename_i hsender
    refine .inr ⟨p, hchoose, Prod.ext (strcmp_eq_iff.mp hsender.1).symm hsender.2.symm, ?_⟩
    split
    · exact ⟨rfl, fun h => absurd h (by assumption)⟩
    · exact ⟨rfl, fun _ => rfl⟩
  · exact .inl ⟨rfl, (by decide : EAGAIN ≠ 0)⟩

/-! ## The answer -/

/-- The source as the answer can hold it. -/
structure SyncState.Packable (s : SyncState) : Prop where
  ip : cstr s.syncSrcIpAddr = s.syncSrcIpAddr
  length : s.syncSrcIpAddr.length < ipAddressSize
  port_le : -2 ^ 31 ≤ s.syncSrcPort
  port_lt : s.syncSrcPort < 2 ^ 31

theorem cstr_readAt {b : Bytes} {n : Nat} (hb : cstr b = b) (hn : b.length ≤ n) :
    cstr (readAt b 0 n) = b := by
  rw [cstr_eq_self_iff] at hb
  unfold readAt
  rw [List.drop_zero]
  induction b generalizing n with
  | nil => rcases n with _ | n <;> simp [cstr]
  | cons c b ih =>
    obtain ⟨m, rfl⟩ := Nat.exists_eq_add_one_of_ne_zero (Nat.ne_zero_of_lt hn)
    rw [List.mem_cons, not_or] at hb
    have hhead : (c :: b).takeD (m + 1) 0 = c :: b.takeD m 0 := rfl
    rw [hhead, cstr_cons (Ne.symm hb.1), ih hb.2 (Nat.le_of_succ_le_succ hn)]

theorem needSyncOld_pack {t : FastTaskInfo} {s : SyncState} (hs : s.Packable) {id : Bytes × Int} :
    (packSyncReqBody t s).needSyncOld id = true ↔ s.source = id := by
  have hip : (packSyncReqBody t s).bodyBytes 1 (ipAddressSize - 1) =
      readAt s.syncSrcIpAddr 0 (ipAddressSize - 1) := by
    have hfield : (packSyncReqBody t s).bodyBytes 1 (ipAddressSize - 1 + 1) =
        readAt s.syncSrcIpAddr 0 (ipAddressSize - 1 + 1) := by
      simp only [packSyncReqBody, FastTaskInfo.bodyBytes, FastTaskInfo.write]
      rw [readAt_writeAt_disjoint (.inr (by decide)), readAt_writeAt_disjoint (.inr (by decide))]
      have hself := readAt_writeAt_self (writeAt t.data sizeofHeader
        [if s.syncOldDone then 1 else 0]) (readAt s.syncSrcIpAddr 0 ipAddressSize) (sizeofHeader + 1)
      exact hself
    unfold FastTaskInfo.bodyBytes at hfield
    rw [readAt_add, readAt_add] at hfield
    exact (List.append_inj hfield (by simp)).1
  have hport : (packSyncReqBody t s).bodyInt (1 + ipAddressSize) = s.syncSrcPort := by
    simp only [packSyncReqBody, FastTaskInfo.bodyInt, FastTaskInfo.intAt, FastTaskInfo.write]
    have hself := fun m => readAt_writeAt_self m (int2buff s.syncSrcPort)
      (sizeofHeader + 1 + ipAddressSize)
    rw [readAt_writeAt_disjoint (.inr (by decide)), ← Nat.add_assoc]
    rw [show (4 : Nat) = (int2buff s.syncSrcPort).length from rfl, hself,
      ← List.append_nil (int2buff _), buff2int_int2buff]
    exact toInt32_of_range hs.port_le hs.port_lt
  have hcstr : cstr (readAt s.syncSrcIpAddr 0 (ipAddressSize - 1)) = s.syncSrcIpAddr :=
    cstr_readAt hs.ip (Nat.le_pred_of_lt hs.length)
  unfold FastTaskInfo.needSyncOld
  rw [hip, hport, hcstr, decide_eq_true_eq]
  rfl

/-! ## The source stays -/

theorem modify_split {α : Type*} {l : List α} {i : Nat} {x : α} (h : l[i]? = some x) (f : α → α) :
    ∃ a b, l = a ++ x :: b ∧ l.modify i f = a ++ f x :: b := by
  induction l generalizing i with
  | nil => cases h
  | cons y l ih =>
    rcases i with _ | i
    · obtain rfl := Option.some.inj h
      exact ⟨[], l, rfl, rfl⟩
    · obtain ⟨a, b, hl, hmodify⟩ := ih h
      exact ⟨y :: a, b, congrArg (y :: ·) hl, congrArg (y :: ·) hmodify⟩

/-- The entry of the sender of a message, after it. -/
def FDHTGroupServer.record (p : FDHTGroupServer) (t : FastTaskInfo) : FDHTGroupServer :=
  { p with
    syncOldDone := t.srcSyncOldDone
    syncReqCount := p.syncReqCount + 1
    updateCount := t.updateCount }

section Recorded

variable {s : SyncState} (now : Int) (t : FastTaskInfo) {i : Nat} {x : FDHTGroupServer}

theorem record_split (hx : s.groupServers[i]? = some x) :
    ∃ a b, s.groupServers = a ++ x :: b ∧
      (s.record now t i).groupServers = a ++ x.record t :: b :=
  modify_split hx _

theorem record_ids (hx : s.groupServers[i]? = some x) :
    (s.record now t i).groupServers.map FDHTGroupServer.id =
      s.groupServers.map FDHTGroupServer.id := by
  obtain ⟨a, b, hs, hrecord⟩ := record_split now t hx
  rw [hs, hrecord, List.map_append, List.map_append, List.map_cons, List.map_cons]
  rfl

theorem record_sender (hx : s.groupServers[i]? = some x)
    (hdistinct : (s.groupServers.map FDHTGroupServer.id).Nodup) {p : FDHTGroupServer}
    (hp : p ∈ (s.record now t i).groupServers) (hid : p.id = x.id) : p = x.record t := by
  rw [← record_ids now t hx] at hdistinct
  have hmem : x.record t ∈ (s.record now t i).groupServers := by
    obtain ⟨a, b, -, hrecord⟩ := record_split now t hx
    rw [hrecord]
    exact List.mem_append_right _ List.mem_cons_self
  exact List.inj_on_of_nodup_map hdistinct hp hmem hid

theorem record_other (hx : s.groupServers[i]? = some x) {p : FDHTGroupServer}
    (hp : p ∈ s.groupServers) (hid : p.id ≠ x.id) : p ∈ (s.record now t i).groupServers := by
  obtain ⟨a, b, hs, hrecord⟩ := record_split now t hx
  rw [hs] at hp
  rw [hrecord]
  rcases List.mem_append.mp hp with hp | hp
  · exact List.mem_append_left _ hp
  rcases List.mem_cons.mp hp with rfl | hp
  · exact absurd rfl hid
  · exact List.mem_append_right _ (List.mem_cons_of_mem _ hp)

end Recorded

/-- The source is in the table and has sent a message. -/
def SyncState.SourceListed (s : SyncState) : Prop :=
  ∃ p ∈ s.groupServers, p.id = s.source ∧ 0 < p.syncReqCount ∧ s.foreign p = true

/-- The table of the new server has one entry a server. The addresses in it, and
that of the source, fit their field. -/
structure SyncState.Listed (s : SyncState) : Prop where
  distinct : (s.groupServers.map FDHTGroupServer.id).Nodup
  table : ∀ id ∈ s.groupServers.map FDHTGroupServer.id,
    id.1.length < ipAddressSize ∧ -2 ^ 31 ≤ id.2 ∧ id.2 < 2 ^ 31
  packable : s.Packable

theorem SyncState.Listed.record {s : SyncState} (hs : s.Listed) {i : Nat} {x : FDHTGroupServer}
    (hx : s.groupServers[i]? = some x) (now : Int) (t : FastTaskInfo) :
    (s.record now t i).Listed where
  distinct := by rw [record_ids now t hx]; exact hs.distinct
  table := by rw [record_ids now t hx]; exact hs.table
  packable := ⟨hs.packable.ip, hs.packable.length, hs.packable.port_le, hs.packable.port_lt⟩

theorem SyncState.Listed.closed {s : SyncState} (hs : s.Listed) (now : Int) :
    ({ s with syncOldDone := true, syncDoneTimestamp := now } : SyncState).Listed :=
  ⟨hs.distinct, hs.table, hs.packable.ip, hs.packable.length, hs.packable.port_le,
    hs.packable.port_lt⟩

theorem SyncState.Listed.elect {s : SyncState} (hs : s.Listed) (now : Int) {p : FDHTGroupServer}
    (hp : p ∈ s.groupServers) : (s.elect now p).Listed := by
  unfold SyncState.elect
  split
  · obtain ⟨hlength, hport_le, hport_lt⟩ := hs.table p.id (List.mem_map_of_mem hp)
    exact ⟨hs.distinct, hs.table, ⟨cstr_cstr _, hlength, hport_le, hport_lt⟩⟩
  · exact hs.closed _

/-- The servers that have been told that they are the source are the source, and until the
old data is there it is listed. -/
structure SyncNode.Settled (s : SyncNode) : Prop extends s.sync.Listed where
  won : ∀ id ∈ s.won, id = s.sync.source
  listed : s.won ≠ [] → s.sync.syncOldDone = false → s.sync.SourceListed

theorem not_rank_lt {s : SyncState} {l₁ l₂ : List FDHTGroupServer} {p q : FDHTGroupServer}
    (hs : s.groupServers.map FDHTGroupServer.id = (l₁ ++ p :: l₂).map FDHTGroupServer.id)
    (hdistinct : (s.groupServers.map FDHTGroupServer.id).Nodup) (hq : q ∈ l₂) :
    ¬ s.rank q.id < s.rank p.id := by
  rw [hs, List.map_append, List.map_cons, List.nodup_append] at hdistinct
  obtain ⟨-, -, hdisjoint⟩ := hdistinct
  have hp : p.id ∉ l₁.map FDHTGroupServer.id := fun h => hdisjoint _ h _ List.mem_cons_self rfl
  have hq' : q.id ∉ l₁.map FDHTGroupServer.id := fun h =>
    hdisjoint _ h _ (List.mem_cons_of_mem _ (List.mem_map_of_mem hq)) rfl
  unfold SyncState.rank
  rw [hs, List.map_append, List.map_cons, List.idxOf_append_of_notMem hp,
    List.idxOf_append_of_notMem hq', List.idxOf_cons_self]
  omega

section Election

variable {g : Globals} {s s' : SyncNode} {now iniResult : Int} {t : FastTaskInfo} {i : Nat}
  {x p : FDHTGroupServer}

theorem SyncNode.Settled.not_chosen (hs : s.Settled) (hx : s.sync.groupServers[i]? = some x)
    (hid : x.id = t.sender) (hwon : s.won ≠ []) (hold : s.sync.syncOldDone = false)
    (hother : t.sender ≠ s.sync.source) (hover : s.NotOvertaken (.req now iniResult t))
    (hp : p.id = t.sender)
    (hchoose : chooseServer now (s.sync.record now t i)
      ((s.sync.record now t i).groupServers.dropWhile fun p =>
        (s.sync.record now t i).isLocalHostIp p.ipAddr) = .ok p) : False := by
  obtain ⟨q, hq, hsource, hreq, hforeign⟩ := hs.listed hwon hold
  obtain ⟨l₁, l₂, hsplit, hpforeign, hchosen⟩ := chooseServer_chosen hchoose
  have hpmem : p ∈ l₁ ++ p :: l₂ := List.mem_append_right _ List.mem_cons_self
  have hmem : t.sender ∈ s.sync.groupServers.map FDHTGroupServer.id :=
    hid ▸ List.mem_map_of_mem (List.mem_of_getElem? hx)
  have hrank := hover hwon hold hother hmem q hq hsource
  have hrecord : p = x.record t :=
    record_sender now t hx hs.distinct (hsplit ▸ hpmem) (hp.trans hid.symm)
  have hne : q.id ≠ x.id := by
    rw [hsource, hid]
    exact hother.symm
  have hqmem : q ∈ l₁ ++ p :: l₂ := hsplit ▸ record_other now t hx hq hne
  have hside : q ∈ l₁ ∨ q ∈ l₂ := by
    rcases List.mem_append.mp hqmem with h | h
    · exact .inl h
    rcases List.mem_cons.mp h with rfl | h
    · exact absurd (hp.trans hid.symm) hne
    · exact .inr h
  have hafter : q ∈ l₂ → ¬ s.sync.rank s.sync.source < s.sync.rank t.sender := by
    intro hq₂
    rw [← hsource, ← hp]
    exact not_rank_lt (by rw [← hsplit, record_ids now t hx]) hs.distinct hq₂
  have hdone : t.srcSyncOldDone = p.syncOldDone := by rw [hrecord]; rfl
  have hcount : t.updateCount = p.updateCount := by rw [hrecord]; rfl
  rw [hdone, hcount] at hrank
  rcases hchosen with ⟨hpdone, hbefore⟩ | ⟨hnew, hlt, hle⟩
  · rw [if_pos hpdone] at hrank
    rcases hside with h | h
    · have hqdone := hbefore q h hforeign hreq
      rw [hrank.1] at hqdone
      cases hqdone
    · exact hafter h hrank.2
  · rw [if_neg (by rw [hnew p hpmem hpforeign]; decide)] at hrank
    rcases hrank with h | h | ⟨h, hbefore⟩
    · rw [hnew q hqmem hforeign] at h
      cases h
    · rcases hside with hq₁ | hq₂
      · have := hlt q hq₁ hforeign
        omega
      · have := hle q hq₂ hforeign
        omega
    · rcases hside with hq₁ | hq₂
      · have := hlt q hq₁ hforeign
        omega
      · exact hafter hq₂ hbefore

/-- What is recorded of a message does not touch the source. -/
theorem SyncNode.Settled.record (hs : s.Settled) (hx : s.sync.groupServers[i]? = some x)
    (now : Int) (t : FastTaskInfo) :
    ({ s with sync := s.sync.record now t i } : SyncNode).Settled where
  toListed := hs.toListed.record hx now t
  won := hs.won
  listed := by
    intro hwon hold
    obtain ⟨p, hp, hsource, hreq, hforeign⟩ := hs.listed hwon hold
    by_cases hid : p.id = x.id
    · obtain ⟨a, b, hsplit, hrecord⟩ := record_split now t hx
      have hpx : p = x := List.inj_on_of_nodup_map hs.distinct hp
        (List.mem_of_getElem? hx) hid
      subst hpx
      refine ⟨p.record t, ?_, hsource, Nat.succ_pos _, hforeign⟩
      rw [hrecord]
      exact List.mem_append_right _ List.mem_cons_self
    · exact ⟨p, record_other now t hx hp hid, hsource, hreq, hforeign⟩

theorem SyncNode.Settled.elect (hs : s.Settled) (now : Int) (hp : p ∈ s.sync.groupServers)
    (hreq : 0 < p.syncReqCount) (hforeign : s.sync.foreign p = true)
    (hsame : s.won ≠ [] → p.id = s.sync.source) :
    ({ s with sync := s.sync.elect now p } : SyncNode).Settled ∧
      ((s.sync.elect now p).syncOldDone = false → (s.sync.elect now p).SourceListed) := by
  have hlisted := hs.toListed.elect now hp
  unfold SyncState.elect at hlisted ⊢
  by_cases hcount : 0 < p.updateCount
  · rw [if_pos hcount] at hlisted ⊢
    refine ⟨⟨hlisted, ?_, ?_⟩, ?_⟩
    · intro id hid
      exact (hs.won id hid).trans (hsame (List.ne_nil_of_mem hid)).symm
    · exact fun _ _ => ⟨p, hp, rfl, hreq, hforeign⟩
    · exact fun _ => ⟨p, hp, rfl, hreq, hforeign⟩
  · rw [if_neg hcount] at hlisted ⊢
    refine ⟨⟨hlisted, hs.won, ?_⟩, ?_⟩
    · exact fun _ hold => absurd hold (by simp)
    · exact fun hold => absurd hold (by simp)

theorem SyncNode.Settled.answer (hs : s.Settled) (id : Bytes × Int) {result : Int}
    {out : FastTaskInfo} (hout : result = 0 → out = packSyncReqBody t s.sync ∧
      (s.sync.syncOldDone = false → s.sync.SourceListed)) :
    ({ s with won := if result = 0 ∧ out.needSyncOld id = true then s.won ++ [id] else s.won } :
      SyncNode).Settled := by
  by_cases hneed : result = 0 ∧ out.needSyncOld id = true
  · obtain ⟨rfl, hlisted⟩ := hout hneed.1
    have hid := (needSyncOld_pack hs.packable).mp hneed.2
    rw [if_pos hneed]
    refine ⟨hs.toListed, ?_, fun _ => hlisted⟩
    intro id' hid'
    rcases List.mem_append.mp hid' with h | h
    · exact hs.won id' h
    · exact (List.mem_singleton.mp h).trans hid.symm
  · rw [if_neg hneed]
    exact hs

theorem SyncNode.Settled.step {e : SyncEvent} (hs : s.Settled) (hover : s.NotOvertaken e)
    (hstep : s.step g e = some s') : s'.Settled := by
  cases e with
  | req now iniResult t =>
    obtain rfl := Option.some.inj hstep
    have hcases := dealCmdSyncReq_cases (g.at now) iniResult t s.sync
    generalize dealCmdSyncReq (g.at now) iniResult t s.sync = r at hcases ⊢
    obtain ⟨result, out, sync⟩ := r
    rcases hcases with
      ⟨rfl, hout⟩ | ⟨hold, i, x, hx, hid, ⟨rfl, hfail⟩ | ⟨p, hchoose, hp, rfl, hout⟩⟩
    · refine hs.answer t.sender fun hok => ⟨(hout hok).2, fun hold => ?_⟩
      rw [(hout hok).1] at hold
      cases hold
    · exact (hs.record hx now t).answer (t := t) t.sender fun hok => absurd hok hfail
    · obtain ⟨l₁, l₂, hsplit, hforeign, -⟩ := chooseServer_chosen hchoose
      have hmem : p ∈ (s.sync.record now t i).groupServers := by
        rw [show s.sync.record now t i = s.sync.record (g.at now).currentTime t i from rfl, hsplit]
        exact List.mem_append_right _ List.mem_cons_self
      have hreq : 0 < p.syncReqCount := by
        rw [record_sender now t hx hs.distinct hmem (hp.trans hid.symm)]
        exact Nat.succ_pos _
      have hsame : s.won ≠ [] → p.id = s.sync.source := by
        intro hwon
        by_contra hother
        rw [hp] at hother
        exact hs.not_chosen hx hid hwon hold hother hover hp hchoose
      obtain ⟨helect, hlisted⟩ := (hs.record hx now t).elect now hmem hreq hforeign hsame
      exact helect.answer t.sender fun hok => ⟨hout hok, hlisted⟩
  | notify now iniResult t =>
    obtain rfl := Option.some.inj hstep
    have hdone : ({ s with sync := { s.sync with
        syncOldDone := true
        syncDoneTimestamp := (g.at now).currentTime } } : SyncNode).Settled :=
      ⟨hs.toListed.closed _, hs.won, fun _ hold => absurd hold (by simp)⟩
    unfold dealCmdSyncDone
    split_ifs
    · exact hs
    · exact hs
    · exact hdone
    · exact hs

theorem SyncNode.step_won {e : SyncEvent} (hstep : s.step g e = some s') :
    ∀ id ∈ s.won, id ∈ s'.won := by
  intro id hid
  cases e with
  | req now iniResult t =>
    obtain rfl := Option.some.inj hstep
    split
    · exact List.mem_append_left _ hid
    · exact hid
  | notify now iniResult t =>
    obtain rfl := Option.some.inj hstep
    exact hid

end Election

/-- A new server before its first message: no source, and a table without
duplicates of names that fit their fields. -/
structure SyncNode.Starts (s : SyncNode) : Prop where
  distinct : (s.sync.groupServers.map FDHTGroupServer.id).Nodup
  table : ∀ id ∈ s.sync.groupServers.map FDHTGroupServer.id,
    id.1.length < ipAddressSize ∧ -2 ^ 31 ≤ id.2 ∧ id.2 < 2 ^ 31
  source : s.sync.source = ([], 0)
  won : s.won = []

/-- **In every run in which no member overtakes the source, the source never
changes once a server has been told that it is the source, and no second server
is ever told so.** -/
theorem source_elected_once {g : Globals} {s₀ s s' : SyncNode} (h₀ : s₀.Starts)
    (hrun : Runs (SyncNode.step g) SyncNode.NotOvertaken s₀ s)
    (hrun' : Runs (SyncNode.step g) SyncNode.NotOvertaken s s') :
    (s.won ≠ [] → s'.sync.source = s.sync.source) ∧ ∀ a ∈ s'.won, ∀ b ∈ s'.won, a = b := by
  have hstart : s₀.Settled := by
    obtain ⟨hip, hport⟩ := Prod.mk.inj h₀.source
    refine ⟨⟨h₀.distinct, h₀.table, by rw [hip]; rfl, by rw [hip]; decide, by omega, by omega⟩,
      ?_, ?_⟩
    · rw [h₀.won]
      exact fun _ h => absurd h List.not_mem_nil
    · exact fun h => absurd h₀.won h
  have hs : s.Settled := hrun.invariant hstart fun _ _ _ h hover hstep => h.step hover hstep
  have hs' : s'.Settled ∧ ∀ id ∈ s.won, id ∈ s'.won :=
    hrun'.invariant (I := fun s' => s'.Settled ∧ ∀ id ∈ s.won, id ∈ s'.won) ⟨hs, fun _ h => h⟩
      fun _ _ _ h hover hstep => ⟨h.1.step hover hstep, fun id hid =>
        SyncNode.step_won hstep id (h.2 id hid)⟩
  constructor
  · intro hwon
    obtain ⟨id, hid⟩ := List.exists_mem_of_ne_nil _ hwon
    rw [← hs.won id hid]
    exact (hs'.1.won id (hs'.2 id hid)).symm
  · intro a ha b hb
    rw [hs'.1.won a ha, hs'.1.won b hb]

/-! ## Two sources -/

def ipA : Bytes := [49]

def ipB : Bytes := [50]

/-- A group of the new server and two members, which it knows nothing of. -/
def newServer : SyncNode where
  sync := {
    groupServers := [⟨ipA, 1, false, 0, 0⟩, ⟨ipB, 1, false, 0, 0⟩]
    localIpAddrs := [[51]]
    syncOldDone := false
    syncSrcIpAddr := []
    syncSrcPort := 0
    syncUntilTimestamp := 0
    syncDoneTimestamp := 0
    firstSyncReqTime := 0 }
  won := []

def long2buff (n : Nat) : Bytes := (List.range 8).map fun i => UInt8.ofNat (n / 256 ^ (7 - i) % 256)

/-- The SYNC_REQ of a member: its address, does it have its old data, and the
number of its updates. -/
def syncReq (ip : Bytes) (done : Bool) (count : Nat) : FastTaskInfo :=
  ⟨List.replicate sizeofHeader 0 ++ int2buff 1 ++ [if done then 1 else 0] ++ long2buff count ++
    List.replicate 16 0, 32, ip⟩

/-- A configuration; the handlers read its clock only. -/
def anyGlobals : Globals := ⟨1, [true], true, false, 0⟩

/-- Both members ask, and the one with more updates is the source. They ask once
more, with updates that do not change the order. -/
theorem source_elected_once_count : ∃ s s' : SyncNode, s.won = [(ipB, 1)] ∧
    s'.won = [(ipB, 1), (ipB, 1)] ∧ s'.sync.source = s.sync.source ∧
    ∀ a ∈ s'.won, ∀ b ∈ s'.won, a = b := by
  have hstarts : newServer.Starts := ⟨by decide, by decide, rfl, rfl⟩
  have hexec : ((exec (SyncNode.step anyGlobals) SyncNode.NotOvertaken
        [.req 1000 0 (syncReq ipA false 5), .req 1001 0 (syncReq ipB false 7)] newServer).bind
      fun s => (exec (SyncNode.step anyGlobals) SyncNode.NotOvertaken
        [.req 1002 0 (syncReq ipA false 6), .req 1003 0 (syncReq ipB false 7)] s).map
      fun s' => (s.won, s'.won)) = some ([(ipB, 1)], [(ipB, 1), (ipB, 1)]) := by
    decide +kernel
  obtain ⟨s, hrun, hexec⟩ := Option.bind_eq_some_iff.mp hexec
  obtain ⟨s', hrun', heq⟩ := Option.map_eq_some_iff.mp hexec
  obtain ⟨hwon, hwon'⟩ := Prod.mk.inj heq
  obtain ⟨hsource, hsame⟩ :=
    source_elected_once hstarts (Runs.of_exec hrun) (Runs.of_exec hrun')
  exact ⟨s, s', hwon, hwon', hsource (by rw [hwon]; simp), hsame⟩

/-- The second member has its old data and asks alone for a minute: it becomes the
source. Then the first member asks, has its old data as well, and becomes the
source too. -/
theorem two_sources_elected : newServer.Starts ∧ ∃ s s' : SyncNode,
    Runs (SyncNode.step anyGlobals) (fun _ _ => True) newServer s ∧
    Runs (SyncNode.step anyGlobals) (fun _ _ => True) s s' ∧
    s.won = [(ipB, 1)] ∧ s.sync.source = (ipB, 1) ∧ s'.won = [(ipB, 1), (ipA, 1)] ∧
    s'.sync.source = (ipA, 1) ∧ s'.sync.syncOldDone = false := by
  refine ⟨⟨by decide, by decide, rfl, rfl⟩, ?_⟩
  have hexec : ((exec (SyncNode.step anyGlobals) (fun _ _ => True)
        [.req 1000 0 (syncReq ipB true 7), .req 1060 0 (syncReq ipB true 7)] newServer).bind
      fun s => (exec (SyncNode.step anyGlobals) (fun _ _ => True)
        [.req 1061 0 (syncReq ipA true 9)] s).map
      fun s' => decide (s.won = [(ipB, 1)] ∧ s.sync.source = (ipB, 1) ∧
        s'.won = [(ipB, 1), (ipA, 1)] ∧ s'.sync.source = (ipA, 1) ∧
        s'.sync.syncOldDone = false)) = some true := by
    decide +kernel
  obtain ⟨s, hrun, hexec⟩ := Option.bind_eq_some_iff.mp hexec
  obtain ⟨s', hrun', hstates⟩ := Option.map_eq_some_iff.mp hexec
  exact ⟨s, s', Runs.of_exec hrun, Runs.of_exec hrun', of_decide_eq_true hstates⟩

end FastDht
