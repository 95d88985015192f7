import FastDht.Common.FdhtFuncSoundness
import FastDht.Server.SourceElection

/-! # The servers of the groups of this server: server/func.c

A server may belong to several groups, but then all of them have to consist of the same
servers. `load_group_servers` inserts the servers of the first group into a sorted array and
looks the servers of the other groups up in it, with a counter for every entry. The ports are
those that `fdht_load_groups_ex` accepts, from 1 to 65535, so that their difference is an
`int`. -/
namespace FastDht
open Lib

/-- An entry after `memset` and `strcpy`. -/
def groupServer (server : FDHTServerInfo) : FDHTGroupServer :=
  ⟨cstr server.ipAddr, server.port, false, 0, 0⟩

/-! ## The first group -/

/-- The loop over `k`: the first place whose server is not before the new one, and the last
result of the comparison. -/
def placeLoop (target : FDHTGroupServer) : List FDHTGroupServer → Nat × Ordering
  | [] => (0, .gt)
  | server :: servers =>
    match groupCmpByIpAndPort target server with
    | .gt => ((placeLoop target servers).1 + 1, (placeLoop target servers).2)
    | compare => (0, compare)

/-- One round of the loop over the servers of the first group. -/
def insertGroupServer (servers : List FDHTGroupServer) (server : FDHTServerInfo) :
    List FDHTGroupServer :=
  let place := placeLoop (groupServer server) servers
  if place.2 = .eq then servers
  else servers.take place.1 ++ groupServer server :: servers.drop place.1

/-! ## The other groups -/

/-- The loop over the servers of another group: its result and `group_servers`. -/
def countLoop (servers : List FDHTGroupServer) :
    List FDHTServerInfo → List Nat → Nat → Int × Nat
  | [], _, groupServers => (0, groupServers)
  | server :: rest, counts, groupServers =>
    match bsearch (groupCmpByIpAndPort (groupServer server)) servers with
    | none => (EINVAL, groupServers)
    | some i => countLoop servers rest (counts.set i (counts.getD i 0 + 1))
        (if counts.getD i 0 = 0 then groupServers + 1 else groupServers)

/-- The loop over the other groups. -/
def compareGroups (servers : List FDHTGroupServer) : List (List FDHTServerInfo) → Int
  | [] => 0
  | group :: groups =>
    let r := countLoop servers group (List.replicate servers.length 0) 0
    if r.2 ≠ servers.length then EINVAL
    else if r.1 ≠ 0 then r.1
    else compareGroups servers groups

/-- `load_group_servers`: its result and the servers. -/
def loadGroupServers (groups : List (List FDHTServerInfo)) (groupIds : List Nat) :
    Int × List FDHTGroupServer :=
  let servers := (groups.getD (groupIds.headD 0) []).foldl insertGroupServer []
  let result := compareGroups servers (groupIds.tail.map fun id => groups.getD id [])
  if result ≠ 0 then (result, []) else (0, servers)

/-! ## The order of the servers -/

instance : Std.TransCmp groupCmpByIpAndPort :=
  transCmp_addrPort FDHTGroupServer.ipAddr FDHTGroupServer.port fun a b => by
    unfold groupCmpByIpAndPort
    cases strcmp a.ipAddr b.ipAddr <;> rfl

def ServersIncreasing (servers : List FDHTGroupServer) : Prop :=
  servers.Pairwise fun a b => groupCmpByIpAndPort a b = .lt

theorem ServersIncreasing.nodup {servers : List FDHTGroupServer} (h : ServersIncreasing servers) :
    (servers.map FDHTGroupServer.id).Nodup := by
  refine List.pairwise_map.mpr (h.imp fun {a b} hlt heq => ?_)
  rw [groupCmpByIpAndPort_eq_iff.mpr heq] at hlt
  cases hlt

theorem ServersIncreasing.eq_of_perm {l l' : List FDHTGroupServer} (h : ServersIncreasing l)
    (h' : ServersIncreasing l') (hperm : l.Perm l') : l = l' := by
  refine hperm.eq_of_pairwise (fun a b _ _ hab hba => ?_) h h'
  rw [← Std.OrientedCmp.gt_iff_lt, hba] at hab
  cases hab

theorem groupServer_id (server : FDHTServerInfo) :
    (groupServer server).id = (cstr server.ipAddr, server.port) :=
  congrArg (·, server.port) (cstr_cstr server.ipAddr)

theorem groupServer_id_inj {a b : FDHTServerInfo} :
    (groupServer a).id = (groupServer b).id ↔ groupServer a = groupServer b := by
  rw [groupServer_id, groupServer_id, Prod.mk.injEq]
  unfold groupServer
  simp

/-! ## The array of the first group -/

section First

variable {servers : List FDHTGroupServer} {target : FDHTGroupServer}

theorem placeLoop_found (h : (placeLoop target servers).2 = .eq) :
    ∃ v ∈ servers, groupCmpByIpAndPort target v = .eq := by
  induction servers with
  | nil => cases h
  | cons server servers ih =>
    unfold placeLoop at h
    cases hcmp : groupCmpByIpAndPort target server with
    | lt =>
      rw [hcmp] at h
      cases h
    | eq => exact ⟨server, List.mem_cons_self, hcmp⟩
    | gt =>
      rw [hcmp] at h
      obtain ⟨v, hv, heq⟩ := ih h
      exact ⟨v, List.mem_cons_of_mem _ hv, heq⟩

theorem placeLoop_between (hs : ServersIncreasing servers) (h : (placeLoop target servers).2 ≠ .eq) :
    (∀ v ∈ servers.take (placeLoop target servers).1, groupCmpByIpAndPort v target = .lt) ∧
      ∀ v ∈ servers.drop (placeLoop target servers).1, groupCmpByIpAndPort target v = .lt := by
  induction servers with
  | nil => exact ⟨nofun, nofun⟩
  | cons server servers ih =>
    obtain ⟨hfirst, hs⟩ := List.pairwise_cons.mp hs
    unfold placeLoop at h ⊢
    cases hcmp : groupCmpByIpAndPort target server with
    | lt =>
      refine ⟨nofun, List.forall_mem_cons.mpr ⟨hcmp, fun v hv => ?_⟩⟩
      exact Std.TransCmp.lt_trans hcmp (hfirst v hv)
    | eq =>
      rw [hcmp] at h
      exact absurd rfl h
    | gt =>
      rw [hcmp] at h
      obtain ⟨hbefore, hafter⟩ := ih hs h
      refine ⟨List.forall_mem_cons.mpr ⟨?_, hbefore⟩, hafter⟩
      rwa [← Std.OrientedCmp.gt_iff_lt]

/-- **One insertion.** -/
theorem insertGroupServer_spec (hs : ServersIncreasing servers)
    (hfresh : ∀ v ∈ servers, ∃ s, v = groupServer s) (server : FDHTServerInfo) :
    ServersIncreasing (insertGroupServer servers server) ∧
      ∀ v, v ∈ insertGroupServer servers server ↔ v ∈ servers ∨ v = groupServer server := by
  unfold insertGroupServer
  by_cases hfound : (placeLoop (groupServer server) servers).2 = .eq
  · rw [if_pos hfound]
    obtain ⟨v, hv, hcmp⟩ := placeLoop_found hfound
    obtain ⟨s, rfl⟩ := hfresh v hv
    have hsame := groupServer_id_inj.mp (groupCmpByIpAndPort_eq_iff.mp hcmp)
    refine ⟨hs, fun w => ⟨.inl, fun hw => hw.elim id fun heq => ?_⟩⟩
    rw [heq, hsame]
    exact hv
  · rw [if_neg hfound]
    obtain ⟨hbefore, hafter⟩ := placeLoop_between hs hfound
    generalize (placeLoop (groupServer server) servers).1 = k at hbefore hafter
    have hsplit := hs
    unfold ServersIncreasing at hsplit ⊢
    rw [← List.take_append_drop k servers, List.pairwise_append] at hsplit
    obtain ⟨htake, hdrop, hcross⟩ := hsplit
    refine ⟨List.pairwise_append.mpr ⟨htake, List.pairwise_cons.mpr ⟨hafter, hdrop⟩, ?_⟩, ?_⟩
    · intro a ha b hb
      rcases List.mem_cons.mp hb with rfl | hb
      · exact hbefore a ha
      · exact hcross a ha b hb
    · intro v
      have hmem : v ∈ servers ↔ v ∈ servers.take k ∨ v ∈ servers.drop k := by
        rw [← List.mem_append, List.take_append_drop]
      rw [List.mem_append, List.mem_cons, hmem]
      tauto

/-- **The array has the servers of the first group, in order.** -/
theorem firstGroup_spec (group : List FDHTServerInfo) :
    ServersIncreasing (group.foldl insertGroupServer []) ∧
      ∀ v, v ∈ group.foldl insertGroupServer [] ↔ v ∈ group.map groupServer := by
  have hloop : ∀ (group : List FDHTServerInfo) (servers : List FDHTGroupServer),
      ServersIncreasing servers → (∀ v ∈ servers, ∃ s, v = groupServer s) →
      ServersIncreasing (group.foldl insertGroupServer servers) ∧
        ∀ v, v ∈ group.foldl insertGroupServer servers ↔ v ∈ servers ∨ v ∈ group.map groupServer := by
    intro group
    induction group with
    | nil => exact fun servers hs _ => ⟨hs, fun v => by simp⟩
    | cons server group ih =>
      intro servers hs hfresh
      obtain ⟨hs', hmem⟩ := insertGroupServer_spec hs hfresh server
      have hfresh' : ∀ v ∈ insertGroupServer servers server, ∃ s, v = groupServer s := by
        intro v hv
        rcases (hmem v).mp hv with hv | hv
        · exact hfresh v hv
        · exact ⟨server, hv⟩
      obtain ⟨hdone, hall⟩ := ih _ hs' hfresh'
      refine ⟨hdone, fun v => ?_⟩
      rw [List.foldl_cons, hall v, hmem v, List.map_cons, List.mem_cons, or_assoc]
  obtain ⟨hs, hmem⟩ := hloop group [] List.Pairwise.nil nofun
  exact ⟨hs, fun v => by rw [hmem v]; simp⟩

end First

/-! ## Looking the other groups up -/

section Others

variable {servers : List FDHTGroupServer}

theorem ServersIncreasing.bsearch_some (hs : ServersIncreasing servers) {v : FDHTGroupServer}
    (hv : v ∈ servers) :
    ∃ i, bsearch (groupCmpByIpAndPort v) servers = some i ∧ servers[i]? = some v := by
  have hfind : ∃ i, Lib.bsearch (fun x => groupCmpByIpAndPort v (id x)) servers = some i ∧
      servers[i]? = some v := bsearch_sorted hs hv Std.ReflCmp.compare_self
  exact hfind

/-- What the counters say after the servers `done` of a group. -/
structure Counted (servers : List FDHTGroupServer) (done : List FDHTGroupServer)
    (counts : List Nat) (groupServers : Nat) : Prop where
  length : counts.length = servers.length
  count : groupServers = counts.countP (0 < ·)
  counted : ∀ i v, servers[i]? = some v → (0 < counts.getD i 0 ↔ v ∈ done)

theorem Counted.start (servers : List FDHTGroupServer) :
    Counted servers [] (List.replicate servers.length 0) 0 where
  length := List.length_replicate
  count := by simp [List.countP_replicate]
  counted := fun i v _ => by simp

theorem Counted.step {done : List FDHTGroupServer} {counts : List Nat} {groupServers i : Nat}
    {v : FDHTGroupServer} (h : Counted servers done counts groupServers)
    (hs : ServersIncreasing servers) (hi : servers[i]? = some v) :
    Counted servers (done ++ [v]) (counts.set i (counts.getD i 0 + 1))
      (if counts.getD i 0 = 0 then groupServers + 1 else groupServers) where
  length := by rw [List.length_set, h.length]
  count := by
    obtain ⟨hlt, -⟩ := List.getElem?_eq_some_iff.mp hi
    rw [← h.length] at hlt
    rw [List.countP_set hlt, h.count, List.getD_eq_getElem _ _ hlt]
    have hpos : counts[i] ≠ 0 → 0 < counts.countP (0 < ·) := fun hne =>
      List.countP_pos_iff.mpr ⟨counts[i], List.getElem_mem hlt, by simpa using Nat.pos_of_ne_zero hne⟩
    by_cases hzero : counts[i] = 0
    · simp [hzero]
    · simp [hzero, Nat.pos_of_ne_zero hzero]
      omega
  counted := by
    intro j w hj
    obtain ⟨hlt, hget⟩ := List.getElem?_eq_some_iff.mp hi
    by_cases hij : j = i
    · subst hij
      obtain rfl : v = w := Option.some.inj (hi.symm.trans hj)
      rw [List.getD_eq_getElem?_getD, List.getElem?_set_self (by rw [h.length]; exact hlt)]
      simp
    · have hne : w ≠ v := by
        rintro rfl
        exact hij ((List.getElem?_inj (List.getElem?_eq_some_iff.mp hj).1 hs.nodup.of_map).mp
          (hj.trans hi.symm))
      rw [List.getD_eq_getElem?_getD, List.getElem?_set_ne (Ne.symm hij),
        ← List.getD_eq_getElem?_getD, h.counted j w hj]
      simp [hne]

theorem countLoop_spec (hs : ServersIncreasing servers)
    (hfresh : ∀ v ∈ servers, ∃ s, v = groupServer s)
    {rest : List FDHTServerInfo} {done : List FDHTGroupServer} {counts : List Nat}
    {groupServers : Nat} (h : Counted servers done counts groupServers) :
    ((∀ s ∈ rest, groupServer s ∈ servers) → ∃ counts' n,
      countLoop servers rest counts groupServers = (0, n) ∧
        Counted servers (done ++ rest.map groupServer) counts' n) ∧
    (¬ (∀ s ∈ rest, groupServer s ∈ servers) →
      (countLoop servers rest counts groupServers).1 = EINVAL) := by
  induction rest generalizing done counts groupServers with
  | nil => exact ⟨fun _ => ⟨counts, groupServers, rfl, by simpa using h⟩, fun hno => absurd nofun hno⟩
  | cons server rest ih =>
    by_cases hserver : groupServer server ∈ servers
    · obtain ⟨i, hfound, hi⟩ := hs.bsearch_some hserver
      have hstep := ih (h.step hs hi)
      rw [List.append_assoc] at hstep
      rw [List.forall_mem_cons, countLoop, hfound]
      exact ⟨fun hall => hstep.1 hall.2, fun hno => hstep.2 fun hall => hno ⟨hserver, hall⟩⟩
    · have hnone : bsearch (groupCmpByIpAndPort (groupServer server)) servers = none := by
        refine Option.eq_none_iff_forall_ne_some.mpr fun i hfound => ?_
        obtain ⟨v, hi, hcmp⟩ := Lib.bsearch_some hfound
        have hv := List.mem_of_getElem? hi
        obtain ⟨s, rfl⟩ := hfresh v hv
        rw [groupServer_id_inj.mp (groupCmpByIpAndPort_eq_iff.mp hcmp)] at hserver
        exact hserver hv
      rw [countLoop, hnone]
      exact ⟨fun hall => absurd (hall server List.mem_cons_self) hserver, fun _ => rfl⟩

/-- **The comparison of the groups succeeds if each has the servers of the array.** -/
theorem compareGroups_spec (hs : ServersIncreasing servers)
    (hfresh : ∀ v ∈ servers, ∃ s, v = groupServer s)
    (groups : List (List FDHTServerInfo)) :
    ((∀ group ∈ groups, ∀ v, v ∈ servers ↔ v ∈ group.map groupServer) →
      compareGroups servers groups = 0) ∧
    (¬ (∀ group ∈ groups, ∀ v, v ∈ servers ↔ v ∈ group.map groupServer) →
      compareGroups servers groups = EINVAL) := by
  induction groups with
  | nil => exact ⟨fun _ => rfl, fun hno => absurd nofun hno⟩
  | cons group groups ih =>
    obtain ⟨hall, hmissing⟩ : _ ∧ (¬ (∀ s ∈ group, _) → _) :=
      countLoop_spec hs hfresh (.start servers)
    unfold compareGroups
    dsimp only
    by_cases hfound : ∀ s ∈ group, groupServer s ∈ servers
    · obtain ⟨counts, n, hloop, hcounted⟩ := hall hfound
      rw [List.nil_append] at hcounted
      have hgroup : n = servers.length ↔ ∀ v, v ∈ servers ↔ v ∈ group.map groupServer := by
        rw [hcounted.count, ← hcounted.length, List.countP_eq_length]
        constructor
        · intro hpos v
          refine ⟨fun hv => ?_, fun hv => ?_⟩
          · obtain ⟨i, hi⟩ := List.mem_iff_getElem?.mp hv
            have hlt := (List.getElem?_eq_some_iff.mp hi).1
            rw [← hcounted.length] at hlt
            rw [← hcounted.counted i v hi, List.getD_eq_getElem _ _ hlt]
            exact of_decide_eq_true (hpos _ (List.getElem_mem hlt))
          · obtain ⟨s, hs, rfl⟩ := List.mem_map.mp hv
            exact hfound s hs
        · intro hsame count hcount
          obtain ⟨i, hi, rfl⟩ := List.getElem_of_mem hcount
          have hlt := hi
          rw [hcounted.length] at hlt
          have hget := List.getElem?_eq_getElem hlt
          have hpos := (hcounted.counted i _ hget).mpr
            ((hsame _).mp (List.getElem_mem hlt))
          rw [List.getD_eq_getElem _ _ hi] at hpos
          exact decide_eq_true hpos
      rw [hloop, List.forall_mem_cons]
      by_cases hn : n = servers.length
      · rw [if_neg (not_not.mpr hn), if_neg (not_not.mpr rfl)]
        exact ⟨fun h => ih.1 h.2, fun h => ih.2 fun hrest => h ⟨hgroup.mp hn, hrest⟩⟩
      · rw [if_pos hn]
        exact ⟨fun h => absurd (hgroup.mpr h.1) hn, fun _ => rfl⟩
    · have herror := hmissing hfound
      have hdiffers : ¬ ∀ v, v ∈ servers ↔ v ∈ group.map groupServer := fun hsame =>
        hfound fun s hs => (hsame _).mpr (List.mem_map_of_mem hs)
      rw [List.forall_mem_cons]
      refine ⟨fun h => absurd h.1 hdiffers, fun _ => ?_⟩
      rw [herror, if_pos (show EINVAL ≠ 0 by decide), ite_self]

end Others

/-! ## The decision -/

def groupAddrs (groups : List (List FDHTServerInfo)) (id : Nat) : List (Bytes × Int) :=
  (groups.getD id []).map fun server => (cstr server.ipAddr, server.port)

def SameServers (groups : List (List FDHTServerInfo)) (groupIds : List Nat) : Prop :=
  ∀ id ∈ groupIds, ∀ id' ∈ groupIds, ∀ addr, addr ∈ groupAddrs groups id ↔ addr ∈ groupAddrs groups id'

section Decision

variable {groups : List (List FDHTServerInfo)} {groupIds : List Nat}

theorem groupAddrs_eq (groups : List (List FDHTServerInfo)) (id : Nat) :
    groupAddrs groups id = ((groups.getD id []).map groupServer).map FDHTGroupServer.id := by
  rw [List.map_map]
  exact List.map_congr_left fun server _ => (groupServer_id server).symm

theorem groupAddrs_same {id id' : Nat} :
    (∀ addr, addr ∈ groupAddrs groups id ↔ addr ∈ groupAddrs groups id') ↔
      ∀ v, v ∈ (groups.getD id []).map groupServer ↔ v ∈ (groups.getD id' []).map groupServer := by
  have hone : ∀ id id' : Nat, (∀ addr ∈ groupAddrs groups id, addr ∈ groupAddrs groups id') →
      ∀ v ∈ (groups.getD id []).map groupServer, v ∈ (groups.getD id' []).map groupServer := by
    intro id id' h v hv
    obtain ⟨s, hs, rfl⟩ := List.mem_map.mp hv
    rw [groupAddrs_eq, groupAddrs_eq] at h
    obtain ⟨w, hw, heq⟩ := List.mem_map.mp (h _ (List.mem_map_of_mem hv))
    obtain ⟨s', hs', rfl⟩ := List.mem_map.mp hw
    rwa [← groupServer_id_inj.mp heq]
  constructor
  · exact fun h v => ⟨hone id id' (fun addr => (h addr).mp) v, hone id' id (fun addr => (h addr).mpr) v⟩
  · intro h addr
    rw [groupAddrs_eq, groupAddrs_eq, List.mem_map, List.mem_map]
    exact exists_congr fun v => and_congr_left fun _ => h v

variable (groups) in
theorem loadGroupServers_cases (hne : groupIds ≠ []) :
    (SameServers groups groupIds ∧ ∃ servers, loadGroupServers groups groupIds = (0, servers) ∧
      ServersIncreasing servers ∧ ∀ id ∈ groupIds, ∀ v,
        v ∈ servers ↔ v ∈ (groups.getD id []).map groupServer) ∨
    (¬ SameServers groups groupIds ∧ loadGroupServers groups groupIds = (EINVAL, [])) := by
  obtain ⟨first, ids, rfl⟩ := List.exists_cons_of_ne_nil hne
  obtain ⟨servers, hservers⟩ : ∃ servers, servers =
    (groups.getD first []).foldl insertGroupServer [] := ⟨_, rfl⟩
  obtain ⟨hs, hmem⟩ := firstGroup_spec (groups.getD first [])
  rw [← hservers] at hs hmem
  have hfresh : ∀ v ∈ servers, ∃ s, v = groupServer s := by
    intro v hv
    obtain ⟨s, -, rfl⟩ := List.mem_map.mp ((hmem v).mp hv)
    exact ⟨s, rfl⟩
  have hsame : SameServers groups (first :: ids) ↔
      ∀ group ∈ ids.map fun id => groups.getD id [], ∀ v, v ∈ servers ↔ v ∈ group.map groupServer := by
    simp only [List.forall_mem_map, hmem]
    constructor
    · exact fun h id hid => groupAddrs_same.mp
        (h first List.mem_cons_self id (List.mem_cons_of_mem _ hid))
    · intro h
      have hfirst : ∀ id ∈ first :: ids, ∀ addr,
          addr ∈ groupAddrs groups first ↔ addr ∈ groupAddrs groups id :=
        List.forall_mem_cons.mpr ⟨fun _ => Iff.rfl, fun id hid => groupAddrs_same.mpr (h id hid)⟩
      exact fun id hid id' hid' addr => (hfirst id hid addr).symm.trans (hfirst id' hid' addr)
  have hload : loadGroupServers groups (first :: ids) =
      if compareGroups servers (ids.map fun id => groups.getD id []) ≠ 0 then
        (compareGroups servers (ids.map fun id => groups.getD id []), []) else (0, servers) := by
    rw [hservers]
    rfl
  obtain ⟨hok, herror⟩ := compareGroups_spec hs hfresh (ids.map fun id => groups.getD id [])
  rw [← hsame] at hok herror
  rw [hload]
  by_cases hall : SameServers groups (first :: ids)
  · rw [hok hall, if_neg (not_not.mpr rfl)]
    refine .inl ⟨hall, servers, rfl, hs, List.forall_mem_cons.mpr ⟨hmem, fun id hid => ?_⟩⟩
    exact hsame.mp hall _ (List.mem_map_of_mem hid)
  · rw [herror hall, if_pos (by decide)]
    exact .inr ⟨hall, rfl⟩

theorem getD_perm {groups' : List (List FDHTServerInfo)}
    (h : List.Forall₂ List.Perm groups' groups) (id : Nat) :
    (groups'.getD id []).Perm (groups.getD id []) := by
  induction h generalizing id with
  | nil => exact .rfl
  | cons hgroup _ ih =>
    cases id with
    | zero => exact hgroup
    | succ id => exact ih id

theorem loadGroupServers_perm (hne : groupIds ≠ []) {groups' : List (List FDHTServerInfo)}
    {groupIds' : List Nat} (hids : groupIds'.Perm groupIds)
    (hgroups : List.Forall₂ List.Perm groups' groups) :
    loadGroupServers groups' groupIds' = loadGroupServers groups groupIds := by
  have hmem : ∀ id v, v ∈ (groups'.getD id []).map groupServer ↔
      v ∈ (groups.getD id []).map groupServer := fun id v =>
    ((getD_perm hgroups id).map groupServer).mem_iff
  have haddr : ∀ id addr, addr ∈ groupAddrs groups' id ↔ addr ∈ groupAddrs groups id := by
    intro id addr
    rw [groupAddrs_eq, groupAddrs_eq, List.mem_map, List.mem_map]
    exact exists_congr fun v => and_congr_left fun _ => hmem id v
  have hsame : SameServers groups' groupIds' ↔ SameServers groups groupIds := by
    unfold SameServers
    simp only [hids.mem_iff, haddr]
  have hne' : groupIds' ≠ [] := fun h => hne (List.nil_perm.mp (h ▸ hids))
  rcases loadGroupServers_cases groups hne with
      ⟨hall, servers, hload, hs, hservers⟩ | ⟨hno, hload⟩ <;>
    rcases loadGroupServers_cases groups' hne' with
      ⟨hall', servers', hload', hs', hservers'⟩ | ⟨hno', hload'⟩
  · obtain ⟨id, hid⟩ := List.exists_mem_of_ne_nil _ hne
    have hperm : servers'.Perm servers := by
      refine (List.perm_ext_iff_of_nodup hs'.nodup.of_map hs.nodup.of_map).mpr fun v => ?_
      rw [hservers' id (hids.mem_iff.mpr hid), hservers id hid]
      exact hmem id v
    rw [hload, hload', hs'.eq_of_perm hs hperm]
  · exact absurd (hsame.mpr hall) hno'
  · exact absurd (hsame.mp hall') hno
  · rw [hload, hload']

/-- **`load_group_servers` decides whether the groups have the same servers**, whatever their
order; it then gives these servers in order. -/
theorem load_group_servers_iff (groups : List (List FDHTServerInfo)) (groupIds : List Nat)
    (hne : groupIds ≠ []) :
    ((loadGroupServers groups groupIds).1 = 0 ↔ SameServers groups groupIds) ∧
    ((loadGroupServers groups groupIds).1 = 0 →
      ServersIncreasing (loadGroupServers groups groupIds).2 ∧
      ((loadGroupServers groups groupIds).2.map FDHTGroupServer.id).Nodup ∧
      ∀ id ∈ groupIds, ∀ addr,
        addr ∈ (loadGroupServers groups groupIds).2.map FDHTGroupServer.id ↔
          addr ∈ groupAddrs groups id) ∧
    ∀ groups' groupIds', List.Forall₂ List.Perm groups' groups → groupIds'.Perm groupIds →
      loadGroupServers groups' groupIds' = loadGroupServers groups groupIds := by
  refine ⟨?_, ?_, fun groups' groupIds' hgroups hids => loadGroupServers_perm hne hids hgroups⟩
  · rcases loadGroupServers_cases groups hne with ⟨hall, servers, hload, -⟩ | ⟨hno, hload⟩
    · rw [hload]
      exact iff_of_true rfl hall
    · rw [hload]
      exact iff_of_false (show EINVAL ≠ 0 by decide) hno
  · intro h0
    rcases loadGroupServers_cases groups hne with ⟨-, servers, hload, hs, hmem⟩ | ⟨-, hload⟩
    · rw [hload]
      refine ⟨hs, hs.nodup, fun id hid addr => ?_⟩
      rw [groupAddrs_eq, List.mem_map, List.mem_map]
      exact exists_congr fun v => and_congr_left fun _ => hmem id hid v
    · rw [hload] at h0
      exact absurd h0 (by decide)

end Decision

/-- Two groups with the same two servers, in different orders and once with a repetition. -/
def twoGroups : List (List FDHTServerInfo) :=
  [[⟨-1, 11411, [49]⟩, ⟨-1, 11411, [50]⟩], [⟨-1, 11411, [50]⟩, ⟨-1, 11411, [49]⟩, ⟨-1, 11411, [50]⟩]]

theorem load_group_servers_two : (loadGroupServers twoGroups [1, 0]).1 = 0 ∧
    ServersIncreasing (loadGroupServers twoGroups [1, 0]).2 := by
  obtain ⟨-, hlist, -⟩ := load_group_servers_iff twoGroups [1, 0] (by decide)
  have h0 : (loadGroupServers twoGroups [1, 0]).1 = 0 := by decide
  exact ⟨h0, (hlist h0).1⟩

end FastDht
