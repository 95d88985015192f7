import FastDht.Common.FdhtFunc
import Mathlib.Data.List.Dedup

/-! # What `fdht_load_groups_ex` makes of a configuration

The array of servers is strictly sorted, so that `bsearch` finds every server of a group
in it, and the pointers of a group are sorted by the servers they point to. A
configuration is accepted or not regardless of the order of its lines. -/
namespace FastDht
open Lib

/-! ## The order of servers -/

theorem transCmp_comap {α β : Type*} (f : α → β) (cmp : β → β → Ordering) [Std.TransCmp cmp] :
    Std.TransCmp fun a b => cmp (f a) (f b) where
  eq_swap := Std.OrientedCmp.eq_swap
  isLE_trans := Std.TransCmp.isLE_trans

/-- Addresses and then ports. -/
theorem transCmp_addrPort {α : Type*} (ipAddr : α → Bytes) (port : α → Int)
    {cmp : α → α → Ordering} (h : ∀ a b, cmp a b =
      (strcmp (ipAddr a) (ipAddr b)).then (compare (port a) (port b))) : Std.TransCmp cmp := by
  have := transCmp_comap ipAddr strcmp
  have := transCmp_comap port (compare : Int → Int → Ordering)
  rw [show cmp = compareLex (fun a b => strcmp (ipAddr a) (ipAddr b))
    fun a b => compare (port a) (port b) from funext₂ h]
  infer_instance

instance : Std.TransCmp fdhtCmpByIpAndPortP :=
  transCmp_addrPort FDHTServerInfo.ipAddr FDHTServerInfo.port fun a b => by
    unfold fdhtCmpByIpAndPortP
    cases strcmp a.ipAddr b.ipAddr <;> rfl

/-- A server as it is read: not connected, with the address as a string. -/
structure FDHTServerInfo.Fresh (s : FDHTServerInfo) : Prop where
  sock : s.sock = -1
  ipAddr : cstr s.ipAddr = s.ipAddr

theorem FDHTServerInfo.Fresh.cmp_eq_iff {a b : FDHTServerInfo} (ha : a.Fresh) (hb : b.Fresh) :
    fdhtCmpByIpAndPortP a b = .eq ↔ a = b := by
  have hcmp : fdhtCmpByIpAndPortP a b = .eq ↔ strcmp a.ipAddr b.ipAddr = .eq ∧ a.port = b.port := by
    unfold fdhtCmpByIpAndPortP
    cases strcmp a.ipAddr b.ipAddr with
    | lt => simp
    | eq => simp
    | gt => simp
  rw [hcmp, strcmp_eq_iff, ha.ipAddr, hb.ipAddr]
  constructor
  · rintro ⟨hip, hport⟩
    obtain ⟨sock, port, ip⟩ := a
    obtain ⟨sock', port', ip'⟩ := b
    have hsock : sock = sock' := ha.sock.trans hb.sock.symm
    exact (FDHTServerInfo.mk.injEq ..).mpr ⟨hsock, hport, hip⟩
  · rintro rfl
    exact ⟨rfl, rfl⟩

def Ordered (servers : List FDHTServerInfo) : Prop :=
  servers.Pairwise fun a b => fdhtCmpByIpAndPortP a b = .lt

theorem Ordered.nodup {servers : List FDHTServerInfo} (h : Ordered servers) : servers.Nodup := by
  refine h.imp fun {a b} hlt heq => ?_
  subst heq
  have hself : fdhtCmpByIpAndPortP a a = .eq := Std.ReflCmp.compare_self
  exact nomatch hself.symm.trans hlt

theorem Ordered.eq_of_perm {l l' : List FDHTServerInfo} (h : Ordered l) (h' : Ordered l')
    (hperm : l.Perm l') : l = l' := by
  refine hperm.eq_of_pairwise (fun a b _ _ hab hba => ?_) h h'
  rw [← Std.OrientedCmp.gt_iff_lt, hba] at hab
  cases hab

theorem Ordered.bsearch {servers : List FDHTServerInfo} (h : Ordered servers) {s : FDHTServerInfo}
    (hs : s ∈ servers) :
    ∃ i, bsearch (fdhtCmpByIpAndPortP s) servers = some i ∧ servers[i]? = some s := by
  have hfind : ∃ i, Lib.bsearch (fun x => fdhtCmpByIpAndPortP s (id x)) servers = some i ∧
      servers[i]? = some s := bsearch_sorted h hs Std.ReflCmp.compare_self
  exact hfind

/-- **A server is inserted at its place.** -/
theorem fdhtInsertSortedServers_spec {servers : List FDHTServerInfo} {s : FDHTServerInfo}
    (h : Ordered servers) (hnew : ∀ a ∈ servers, fdhtCmpByIpAndPortP a s ≠ .eq) :
    Ordered (fdhtInsertSortedServers servers s) ∧
      (fdhtInsertSortedServers servers s).Perm (s :: servers) := by
  obtain ⟨p, hp⟩ : ∃ p : FDHTServerInfo → Bool,
    p = fun a => decide (fdhtCmpByIpAndPortP a s ≠ .lt) := ⟨_, rfl⟩
  have hpiff : ∀ a, p a = true ↔ fdhtCmpByIpAndPortP a s ≠ .lt := by
    intro a
    rw [hp, decide_eq_true_eq]
  have hsplit : servers.rdropWhile p ++ servers.rtakeWhile p = servers :=
    List.rdropWhile_append_rtakeWhile
  have hinsert : fdhtInsertSortedServers servers s =
      servers.rdropWhile p ++ s :: servers.rtakeWhile p := by
    have hdrop : servers.drop (servers.rdropWhile p).length = servers.rtakeWhile p := by
      have hleft : (servers.rdropWhile p ++ servers.rtakeWhile p).drop
          (servers.rdropWhile p).length = servers.rtakeWhile p := List.drop_left
      rwa [hsplit] at hleft
    rw [← hdrop, hp]
    rfl
  have hafter : ∀ a ∈ servers.rtakeWhile p, fdhtCmpByIpAndPortP s a = .lt := by
    intro a ha
    have hnot := (hpiff a).mp (List.mem_rtakeWhile_imp ha)
    have hne := hnew a (hsplit ▸ List.mem_append_right _ ha)
    rw [← Std.OrientedCmp.gt_iff_lt]
    cases hcmp : fdhtCmpByIpAndPortP a s with
    | lt => exact absurd hcmp hnot
    | eq => exact absurd hcmp hne
    | gt => rfl
  have hord := h
  unfold Ordered at hord
  rw [← hsplit, List.pairwise_append] at hord
  obtain ⟨hbefore, hrest, hcross⟩ := hord
  -- the last server that stays is before the new one, and the others are before that
  have hbelow : ∀ a ∈ servers.rdropWhile p, fdhtCmpByIpAndPortP a s = .lt := by
    intro a ha
    have hne := List.ne_nil_of_mem ha
    have hlast := List.rdropWhile_last_not p servers hne
    rw [hpiff, not_not] at hlast
    rw [← List.dropLast_append_getLast hne, List.mem_append, List.mem_singleton] at ha
    rcases ha with ha | ha
    · rw [← List.dropLast_append_getLast hne, List.pairwise_append] at hbefore
      exact Std.TransCmp.lt_trans (hbefore.2.2 a ha _ (List.mem_singleton.mpr rfl)) hlast
    · rw [ha]
      exact hlast
  rw [hinsert]
  constructor
  · refine List.pairwise_append.mpr ⟨hbefore, List.pairwise_cons.mpr ⟨hafter, hrest⟩, ?_⟩
    intro a ha b hb
    rcases List.mem_cons.mp hb with rfl | hb
    · exact hbelow a ha
    · exact hcross a ha b hb
  · refine List.perm_middle.trans (.cons _ ?_)
    rw [hsplit]

/-! ## The table of all servers -/

namespace ServerTable

/-- The table holds the servers of `all`, in order and each once. The room has been made
larger as often as was needed. -/
structure Holds (t : ServerTable) (groupCount : Nat) (all : List FDHTServerInfo) : Prop where
  ordered : Ordered t.servers
  mem : ∀ s, s ∈ t.servers ↔ s ∈ all
  room : ∃ k, t.allocServerCount = groupCount * 2 + k * (groupCount + 8) ∧
    t.servers.length ≤ t.allocServerCount ∧
    (k ≠ 0 → groupCount * 2 + (k - 1) * (groupCount + 8) < t.servers.length)

variable {t : ServerTable} {groupCount : Nat} {all servers : List FDHTServerInfo}
  {s : FDHTServerInfo}

theorem Holds.found_iff (h : t.Holds groupCount all) (hall : ∀ a ∈ all, a.Fresh) (hs : s.Fresh) :
    (bsearch (fdhtCmpByIpAndPortP s) t.servers).isSome = true ↔ s ∈ t.servers := by
  constructor
  · intro hsome
    obtain ⟨i, hi⟩ := Option.isSome_iff_exists.mp hsome
    obtain ⟨a, ha, heq⟩ := bsearch_some hi
    have hmem := List.mem_of_getElem? ha
    rw [(hs.cmp_eq_iff (hall a ((h.mem a).mp hmem))).mp heq]
    exact hmem
  · intro hmem
    obtain ⟨i, hi, -⟩ := h.ordered.bsearch hmem
    exact Option.isSome_iff_exists.mpr ⟨i, hi⟩

/-- **One more server.** -/
theorem Holds.add (h : t.Holds groupCount all) (hall : ∀ a ∈ all, a.Fresh) (hs : s.Fresh) :
    (t.add groupCount s).Holds groupCount (all ++ [s]) := by
  unfold ServerTable.add
  by_cases hfound : (bsearch (fdhtCmpByIpAndPortP s) t.servers).isSome = true
  · rw [if_pos hfound]
    refine ⟨h.ordered, fun a => ?_, h.room⟩
    have hin := (h.mem s).mp ((h.found_iff hall hs).mp hfound)
    rw [h.mem, List.mem_append, List.mem_singleton]
    exact ⟨.inl, fun ha => ha.elim id fun heq => heq ▸ hin⟩
  · rw [if_neg hfound]
    have hnew : ∀ a ∈ t.servers, fdhtCmpByIpAndPortP a s ≠ .eq := by
      intro a ha heq
      have has := ((hall a ((h.mem a).mp ha)).cmp_eq_iff hs).mp heq
      exact hfound ((h.found_iff hall hs).mpr (has ▸ ha))
    obtain ⟨hordered, hperm⟩ := fdhtInsertSortedServers_spec h.ordered hnew
    have hlength := hperm.length_eq
    rw [List.length_cons] at hlength
    refine ⟨hordered, fun a => ?_, ?_⟩
    · rw [hperm.mem_iff, List.mem_cons, h.mem, List.mem_append, List.mem_singleton, or_comm]
    · obtain ⟨k, halloc, hle, hpast⟩ := h.room
      dsimp only
      rw [hlength]
      split_ifs with hfull
      · -- the room is full, so one step more is needed
        refine ⟨k + 1, ?_, by omega, fun _ => ?_⟩
        · rw [le_antisymm hle hfull, halloc]
          ring
        · rw [Nat.add_sub_cancel, ← halloc]
          omega
      · exact ⟨k, halloc, by omega, fun hk => (hpast hk).trans (Nat.lt_succ_self _)⟩

theorem Holds.foldl (h : t.Holds groupCount all) (hall : ∀ a ∈ all, a.Fresh)
    (hservers : ∀ a ∈ servers, a.Fresh) :
    (servers.foldl (ServerTable.add groupCount) t).Holds groupCount (all ++ servers) := by
  induction servers generalizing t all with
  | nil => rwa [List.append_nil]
  | cons s servers ih =>
    obtain ⟨hs, hservers⟩ := List.forall_mem_cons.mp hservers
    have hall' : ∀ a ∈ all ++ [s], a.Fresh := by
      intro a ha
      rcases List.mem_append.mp ha with ha | ha
      · exact hall a ha
      · rw [List.mem_singleton.mp ha]
        exact hs
    have hrest := ih (h.add hall hs) hall' hservers
    rwa [List.append_assoc] at hrest

theorem Holds.room_lt_iff (h : t.Holds groupCount all) :
    t.servers.length < t.allocServerCount ↔
      ∀ k, t.servers.length ≠ groupCount * 2 + k * (groupCount + 8) := by
  obtain ⟨k, halloc, hle, hpast⟩ := h.room
  constructor
  · intro hlt j hj
    rw [halloc, hj, Nat.add_lt_add_iff_left] at hlt
    have hjk : j < k := Nat.lt_of_mul_lt_mul_right hlt
    have hle : j * (groupCount + 8) ≤ (k - 1) * (groupCount + 8) :=
      Nat.mul_le_mul_right _ (by omega)
    omega
  · intro hne
    exact lt_of_le_of_ne hle fun heq => hne k (heq.trans halloc)

end ServerTable

/-! ## The lines of a configuration -/

theorem parseServer_fresh {env : LoadEnv} {value : Bytes} {s : FDHTServerInfo}
    (h : parseServer env value = .ok s) : s.Fresh := by
  unfold parseServer at h
  dsimp only at h
  split at h
  · cases h
  split at h
  · cases h
  split at h
  · cases h
  split at h
  · cases h
  · obtain rfl := Except.ok.inj h
    exact ⟨rfl, cstr_cstr _⟩

def readServers (env : LoadEnv) (values : List Bytes) : List FDHTServerInfo :=
  values.filterMap fun v => (parseServer env v).toOption

def AllParse (env : LoadEnv) (values : List Bytes) : Prop :=
  ∀ v ∈ values, ∃ s, parseServer env v = .ok s

theorem mem_readServers {env : LoadEnv} {values : List Bytes} {s : FDHTServerInfo} :
    s ∈ readServers env values ↔ ∃ v ∈ values, parseServer env v = .ok s := by
  unfold readServers
  rw [List.mem_filterMap]
  refine exists_congr fun v => and_congr_right fun _ => ?_
  cases parseServer env v with
  | error e => exact ⟨nofun, nofun⟩
  | ok a => exact ⟨fun h => congrArg _ (Option.some.inj h), fun h => congrArg _ (Except.ok.inj h)⟩

theorem readServers_fresh {env : LoadEnv} {values : List Bytes} {s : FDHTServerInfo}
    (h : s ∈ readServers env values) : s.Fresh := by
  obtain ⟨v, -, hv⟩ := mem_readServers.mp h
  exact parseServer_fresh hv

theorem readServers_cons {env : LoadEnv} {v : Bytes} {values : List Bytes} {s : FDHTServerInfo}
    (h : parseServer env v = .ok s) :
    readServers env (v :: values) = s :: readServers env values := by
  unfold readServers
  rw [List.filterMap_cons, h]
  rfl

/-- **The first loop reads a group if all its lines are in order.** -/
theorem loadServers_ok_iff {env : LoadEnv} {groupCount : Nat} {values : List Bytes} {t : ServerTable}
    {r : List FDHTServerInfo × ServerTable} :
    loadServers env groupCount values t = .ok r ↔ AllParse env values ∧
      r = (readServers env values, (readServers env values).foldl (ServerTable.add groupCount) t) := by
  induction values generalizing t r with
  | nil => exact ⟨fun h => ⟨nofun, (Except.ok.inj h).symm⟩, fun h => congrArg _ h.2.symm⟩
  | cons v values ih =>
    unfold loadServers
    cases hv : parseServer env v with
    | error e =>
      refine ⟨nofun, fun h => ?_⟩
      obtain ⟨s, hs⟩ := h.1 v List.mem_cons_self
      exact nomatch hv.symm.trans hs
    | ok s =>
      have hall : AllParse env (v :: values) ↔ AllParse env values := by
        unfold AllParse
        rw [List.forall_mem_cons]
        exact and_iff_right ⟨s, hv⟩
      rw [hall, readServers_cons hv, List.foldl_cons]
      dsimp only
      cases hrest : loadServers env groupCount values (t.add groupCount s) with
      | error e =>
        refine ⟨nofun, fun h => ?_⟩
        exact nomatch hrest.symm.trans (ih.mpr ⟨h.1, rfl⟩)
      | ok r' =>
        obtain ⟨hparse, rfl⟩ := ih.mp hrest
        exact ⟨fun h => ⟨hparse, (Except.ok.inj h).symm⟩, fun h => congrArg _ h.2.symm⟩

/-- A group that is accepted: it has lines, all in order, and no server twice. -/
structure GroupItems.GroupValid (env : LoadEnv) (items : GroupItems) (i : Nat) : Prop where
  nonempty : items.values i ≠ []
  parse : AllParse env (items.values i)
  nodup : (readServers env (items.values i)).Nodup

/-- **The first loop over the groups.** -/
theorem loadGroups_ok_iff {env : LoadEnv} {items : GroupItems} {groupCount n id : Nat}
    {t : ServerTable} {r : List (List FDHTServerInfo) × ServerTable} :
    loadGroups env items groupCount n id t = .ok r ↔
      (∀ i ∈ List.range' id n, items.values i ≠ [] ∧ AllParse env (items.values i)) ∧
      r = ((List.range' id n).map fun i => readServers env (items.values i),
        ((List.range' id n).flatMap fun i => readServers env (items.values i)).foldl
          (ServerTable.add groupCount) t) := by
  induction n generalizing id t r with
  | zero => exact ⟨fun h => ⟨nofun, (Except.ok.inj h).symm⟩, fun h => congrArg _ h.2.symm⟩
  | succ n ih =>
    unfold loadGroups
    rw [List.range'_succ, List.forall_mem_cons, List.map_cons, List.flatMap_cons, List.foldl_append]
    split_ifs with hnil
    · exact ⟨nofun, fun h => absurd hnil h.1.1.1⟩
    · cases hload : loadServers env groupCount (items.values id) t with
      | error e =>
        refine ⟨nofun, fun h => ?_⟩
        exact nomatch hload.symm.trans (loadServers_ok_iff.mpr ⟨h.1.1.2, rfl⟩)
      | ok p =>
        obtain ⟨hparse, rfl⟩ := loadServers_ok_iff.mp hload
        dsimp only
        cases hrest : loadGroups env items groupCount n (id + 1)
            ((readServers env (items.values id)).foldl (ServerTable.add groupCount) t) with
        | error e =>
          refine ⟨nofun, fun h => ?_⟩
          exact nomatch hrest.symm.trans (ih.mpr ⟨h.1.2, rfl⟩)
        | ok r' =>
          obtain ⟨hall, rfl⟩ := ih.mp hrest
          exact ⟨fun h => ⟨⟨⟨hnil, hparse⟩, hall⟩, (Except.ok.inj h).symm⟩,
            fun h => congrArg _ h.2.symm⟩

/-! ## The pointers of a group -/

section Pointers

variable {servers group : List FDHTServerInfo}

theorem mapM_bsearch (h : Ordered servers) (hgroup : ∀ s ∈ group, s ∈ servers) :
    ∃ found, group.mapM (fun s => bsearch (fdhtCmpByIpAndPortP s) servers) = some found ∧
      found.map (servers[·]?) = group.map some := by
  induction group with
  | nil => exact ⟨[], rfl, rfl⟩
  | cons s group ih =>
    obtain ⟨hs, hgroup⟩ := List.forall_mem_cons.mp hgroup
    obtain ⟨i, hi, hget⟩ := h.bsearch hs
    obtain ⟨found, hfound, hmap⟩ := ih hgroup
    refine ⟨i :: found, ?_, ?_⟩
    · rw [List.mapM_cons, hi, hfound]
      rfl
    · rw [List.map_cons, List.map_cons, hget, hmap]

theorem hasDuplicate_eq_false_iff {l : List Nat}
    (hl : (l.map (serverAt servers)).Pairwise fun a b => fdhtCmpByIpAndPortP a b ≠ .gt) :
    hasDuplicate servers l = false ↔ Ordered (l.map (serverAt servers)) := by
  induction l with
  | nil => exact ⟨fun _ => .nil, fun _ => rfl⟩
  | cons i l ih =>
    cases l with
    | nil => exact ⟨fun _ => List.pairwise_singleton _ _, fun _ => rfl⟩
    | cons j l =>
      rw [List.map_cons, List.pairwise_cons] at hl
      have hij : fdhtCmpByIpAndPortP (serverAt servers i) (serverAt servers j) ≠ .gt :=
        hl.1 _ List.mem_cons_self
      have hrest := ih hl.2
      unfold hasDuplicate
      rw [Bool.or_eq_false_iff, decide_eq_false_iff_not, hrest]
      have hcons : Ordered ((i :: j :: l).map (serverAt servers)) ↔
          (∀ b ∈ (j :: l).map (serverAt servers), fdhtCmpByIpAndPortP (serverAt servers i) b = .lt) ∧
            Ordered ((j :: l).map (serverAt servers)) := List.pairwise_cons
      rw [hcons]
      refine and_congr_left fun hord => ?_
      constructor
      · intro hne
        have hlt : fdhtCmpByIpAndPortP (serverAt servers i) (serverAt servers j) = .lt := by
          cases hcmp : fdhtCmpByIpAndPortP (serverAt servers i) (serverAt servers j) with
          | lt => rfl
          | eq => exact absurd hcmp hne
          | gt => exact absurd hcmp hij
        rw [List.map_cons, List.forall_mem_cons]
        refine ⟨hlt, fun b hb => Std.TransCmp.lt_trans hlt ?_⟩
        exact (List.pairwise_cons.mp hord).1 b hb
      · intro hlt heq
        exact nomatch heq.symm.trans (hlt _ List.mem_cons_self)

theorem ordered_of_sorted (hle : group.Pairwise fun a b => fdhtCmpByIpAndPortP a b ≠ .gt)
    (hnodup : group.Nodup) (hfresh : ∀ s ∈ group, s.Fresh) : Ordered group := by
  refine (List.Pairwise.and_mem.mp (hle.and hnodup)).imp fun {a b} hab => ?_
  obtain ⟨ha, hb, hgt, hne⟩ := hab
  cases hcmp : fdhtCmpByIpAndPortP a b with
  | lt => rfl
  | eq => exact absurd (((hfresh a ha).cmp_eq_iff (hfresh b hb)).mp hcmp) hne
  | gt => exact absurd hcmp hgt

def sortServers (group : List FDHTServerInfo) : List FDHTServerInfo :=
  qsort fdhtCmpByIpAndPortP group

theorem sortServers_ordered (hfresh : ∀ s ∈ group, s.Fresh) (hnodup : group.Nodup) :
    Ordered (sortServers group) := by
  have hle : (qsort (fun a b => fdhtCmpByIpAndPortP (id a) (id b)) group).Pairwise
      fun a b => fdhtCmpByIpAndPortP (id a) (id b) ≠ .gt := qsort_pairwise group
  refine ordered_of_sorted hle ((qsort_perm _ _).nodup_iff.mpr hnodup) fun s hs => ?_
  exact hfresh s ((qsort_perm _ _).mem_iff.mp hs)

theorem sortServers_perm (group : List FDHTServerInfo) : (sortServers group).Perm group :=
  qsort_perm _ _

/-- **The pointers of a group without duplicates are in the order of its servers**; a group
with one is refused. -/
theorem sortGroup_spec (h : Ordered servers) (hgroup : ∀ s ∈ group, s ∈ servers)
    (hfresh : ∀ s ∈ group, s.Fresh) :
    ∃ sorted, sortGroup servers group = some (if group.Nodup then .ok sorted else .error EINVAL) ∧
      (group.Nodup → sorted.map (servers[·]?) = (sortServers group).map some) := by
  obtain ⟨found, hfound, hmap⟩ := mapM_bsearch h hgroup
  obtain ⟨sorted, hsorted⟩ : ∃ sorted, sorted = qsort
    (fun i j => fdhtCmpByIpAndPortP (serverAt servers i) (serverAt servers j)) found := ⟨_, rfl⟩
  have hperm : sorted.Perm found := by
    rw [hsorted]
    exact qsort_perm _ _
  have hat : found.map (serverAt servers) = group := by
    have hget := congrArg (List.map fun o : Option FDHTServerInfo => o.getD ⟨-1, 0, []⟩) hmap
    rw [List.map_map, List.map_map] at hget
    exact hget.trans (List.map_id _)
  have hperm' : (sorted.map (serverAt servers)).Perm group := hat ▸ hperm.map _
  have hle : (sorted.map (serverAt servers)).Pairwise fun a b => fdhtCmpByIpAndPortP a b ≠ .gt := by
    rw [List.pairwise_map, hsorted]
    exact qsort_pairwise found
  have hdup : hasDuplicate servers sorted = false ↔ group.Nodup := by
    rw [hasDuplicate_eq_false_iff hle]
    constructor
    · exact fun hord => hperm'.nodup_iff.mp hord.nodup
    · exact fun hnodup => ordered_of_sorted hle (hperm'.nodup_iff.mpr hnodup) fun s hs =>
        hfresh s (hperm'.mem_iff.mp hs)
  refine ⟨sorted, ?_, fun hnodup => ?_⟩
  · unfold sortGroup
    rw [hfound, Option.map_some]
    dsimp only
    rw [← hsorted]
    by_cases hnodup : group.Nodup
    · rw [if_pos hnodup, hdup.mpr hnodup]
      rfl
    · rw [if_neg hnodup, if_pos]
      by_contra hnone
      exact hnodup (hdup.mp (Bool.not_eq_true _ ▸ hnone))
  · have hsame := (((hasDuplicate_eq_false_iff hle).mp (hdup.mpr hnodup)).eq_of_perm
      (sortServers_ordered hfresh hnodup) (hperm'.trans (sortServers_perm group).symm))
    rw [← hsame, List.map_map]
    refine List.map_congr_left fun i hi => ?_
    have hget : servers[i]? ∈ group.map some := by
      rw [← hmap]
      exact List.mem_map_of_mem (hperm.mem_iff.mp hi)
    obtain ⟨s, -, hs⟩ := List.mem_map.mp hget
    show servers[i]? = some ((servers[i]?).getD _)
    rw [← hs]
    rfl

theorem sortGroups_of_nodup {groups : List (List FDHTServerInfo)} (h : Ordered servers)
    (hgroups : ∀ group ∈ groups, (∀ s ∈ group, s ∈ servers) ∧ (∀ s ∈ group, s.Fresh) ∧ group.Nodup) :
    ∃ sorted, sortGroups servers groups = some (.ok sorted) ∧
      sorted.map (·.map (servers[·]?)) = groups.map fun group => (sortServers group).map some := by
  induction groups with
  | nil => exact ⟨[], rfl, rfl⟩
  | cons group groups ih =>
    obtain ⟨⟨hmem, hfresh, hnodup⟩, hgroups⟩ := List.forall_mem_cons.mp hgroups
    obtain ⟨first, hfirst, hmap⟩ := sortGroup_spec h hmem hfresh
    obtain ⟨rest, hrest, hrestmap⟩ := ih hgroups
    rw [if_pos hnodup] at hfirst
    refine ⟨first :: rest, ?_, ?_⟩
    · unfold sortGroups
      rw [hfirst]
      rw [hrest]
      rfl
    · rw [List.map_cons, List.map_cons, hmap hnodup, hrestmap]

theorem nodup_of_sortGroups {groups : List (List FDHTServerInfo)} {sorted : List (List Nat)}
    (h : Ordered servers) (hgroups : ∀ group ∈ groups, (∀ s ∈ group, s ∈ servers) ∧
      ∀ s ∈ group, s.Fresh) (hsort : sortGroups servers groups = some (.ok sorted)) :
    ∀ group ∈ groups, group.Nodup := by
  induction groups generalizing sorted with
  | nil => exact nofun
  | cons group groups ih =>
    obtain ⟨⟨hmem, hfresh⟩, hgroups⟩ := List.forall_mem_cons.mp hgroups
    obtain ⟨first, hfirst, -⟩ := sortGroup_spec h hmem hfresh
    unfold sortGroups at hsort
    rw [hfirst] at hsort
    by_cases hnodup : group.Nodup
    · rw [if_pos hnodup] at hsort
      obtain ⟨r, hr, hok⟩ := Option.map_eq_some_iff.mp hsort
      cases r with
      | error e => cases hok
      | ok rest => exact List.forall_mem_cons.mpr ⟨hnodup, ih hgroups hr⟩
    · rw [if_neg hnodup] at hsort
      cases hsort

end Pointers

/-! ## The whole configuration -/

namespace GroupItems

variable {env : LoadEnv} {items : GroupItems}

/-- A configuration that is accepted. -/
structure Valid (env : LoadEnv) (items : GroupItems) : Prop where
  count : 0 < items.groupCount
  group : ∀ i < items.groupCount.toNat, items.GroupValid env i

def allServers (env : LoadEnv) (items : GroupItems) : List FDHTServerInfo :=
  (List.range items.groupCount.toNat).flatMap fun i => readServers env (items.values i)

theorem allServers_fresh : ∀ s ∈ items.allServers env, s.Fresh := by
  intro s hs
  obtain ⟨i, -, hi⟩ := List.mem_flatMap.mp hs
  exact readServers_fresh hi

theorem mem_allServers {i : Nat} (hi : i < items.groupCount.toNat) {s : FDHTServerInfo}
    (hs : s ∈ readServers env (items.values i)) : s ∈ items.allServers env :=
  List.mem_flatMap.mpr ⟨i, List.mem_range.mpr hi, hs⟩

/-- The room for the servers is not used up, and the array is moved when it is made
smaller. -/
def Dangling (env : LoadEnv) (items : GroupItems) : Prop :=
  env.moves = true ∧ ∀ k, (items.allServers env).dedup.length ≠
    items.groupCount.toNat * 2 + k * (items.groupCount.toNat + 8)

def table (env : LoadEnv) (items : GroupItems) : ServerTable :=
  (items.allServers env).foldl (ServerTable.add items.groupCount.toNat)
    ⟨[], items.groupCount.toNat * 2⟩

theorem table_holds : (items.table env).Holds items.groupCount.toNat (items.allServers env) := by
  have hempty : (⟨[], items.groupCount.toNat * 2⟩ : ServerTable).Holds items.groupCount.toNat [] :=
    ⟨.nil, fun _ => Iff.rfl, 0, by simp, Nat.zero_le _, fun h => absurd rfl h⟩
  exact hempty.foldl nofun allServers_fresh

theorem table_length :
    (items.table env).servers.length = (items.allServers env).dedup.length := by
  have h : (items.table env).Holds items.groupCount.toNat (items.allServers env) := table_holds
  refine ((List.perm_ext_iff_of_nodup h.ordered.nodup (List.nodup_dedup _)).mpr fun s => ?_).length_eq
  rw [h.mem, List.mem_dedup]

theorem fdhtLoadGroupsEx_ok_iff {g : GroupArray} : fdhtLoadGroupsEx env items = some (.ok g) ↔
    0 < items.groupCount ∧
    (∀ i < items.groupCount.toNat, items.values i ≠ [] ∧ AllParse env (items.values i)) ∧
    ∃ sorted, sortGroups (items.table env).servers ((List.range items.groupCount.toNat).map fun i =>
        readServers env (items.values i)) = some (.ok sorted) ∧
      g = { servers := (items.table env).servers
            address := if (items.table env).allocServerCount > (items.table env).servers.length ∧
              env.moves then 1 else 0
            groups := sorted.map (·.map (ServerPtr.mk 0)) } := by
  unfold fdhtLoadGroupsEx
  by_cases hcount : items.groupCount ≤ 0
  · rw [if_pos hcount]
    exact ⟨nofun, fun h => absurd hcount (not_le.mpr h.1)⟩
  rw [if_neg hcount, and_iff_right (not_le.mp hcount)]
  dsimp only
  have hrange : (∀ i < items.groupCount.toNat, items.values i ≠ [] ∧ AllParse env (items.values i)) ↔
      ∀ i ∈ List.range' 0 items.groupCount.toNat,
        items.values i ≠ [] ∧ AllParse env (items.values i) := by
    simp only [← List.range_eq_range', List.mem_range]
  rw [hrange]
  cases hload : loadGroups env items items.groupCount.toNat items.groupCount.toNat 0
      ⟨[], items.groupCount.toNat * 2⟩ with
  | error e =>
    refine ⟨nofun, fun h => ?_⟩
    exact nomatch hload.symm.trans (loadGroups_ok_iff.mpr ⟨h.1, rfl⟩)
  | ok r =>
    obtain ⟨hall, rfl⟩ := loadGroups_ok_iff.mp hload
    rw [and_iff_right hall, ← List.range_eq_range', Option.map_eq_some_iff]
    constructor
    · rintro ⟨r, hr, hok⟩
      cases r with
      | error e => cases hok
      | ok sorted => exact ⟨sorted, hr, (Except.ok.inj hok).symm⟩
    · rintro ⟨sorted, hr, rfl⟩
      exact ⟨.ok sorted, hr, rfl⟩

theorem valid_of_load {g : GroupArray} (h : fdhtLoadGroupsEx env items = some (.ok g)) :
    items.Valid env := by
  obtain ⟨hcount, hparse, sorted, hsort, -⟩ := fdhtLoadGroupsEx_ok_iff.mp h
  refine ⟨hcount, fun i hi => ⟨(hparse i hi).1, (hparse i hi).2, ?_⟩⟩
  refine nodup_of_sortGroups table_holds.ordered ?_ hsort _
    (List.mem_map.mpr ⟨i, List.mem_range.mpr hi, rfl⟩)
  intro group hgroup
  obtain ⟨j, hj, rfl⟩ := List.mem_map.mp hgroup
  exact ⟨fun s hs => (table_holds.mem s).mpr (mem_allServers (List.mem_range.mp hj) hs),
    fun s hs => readServers_fresh hs⟩

end GroupItems

/-- What a configuration is loaded to. -/
structure GroupArray.Loaded (g : GroupArray) (env : LoadEnv) (items : GroupItems) : Prop where
  dangling : g.address ≠ 0 ↔ items.Dangling env
  length : g.groups.length = items.groupCount.toNat
  groups : ∀ i < items.groupCount.toNat, ∃ ptrs, g.groups[i]? = some ptrs ∧
    (∀ p ∈ ptrs, p.address = 0) ∧ ptrs.map (g.servers[·.index]?) =
      (sortServers (readServers env (items.values i))).map some

/-- **A configuration that is in order is loaded**, and the pointers of each group lead to
its servers in order, as long as the array of servers has not been moved. -/
theorem GroupItems.Valid.load {env : LoadEnv} {items : GroupItems} (h : items.Valid env) :
    ∃ g, fdhtLoadGroupsEx env items = some (.ok g) ∧ g.Loaded env items := by
  have htable : (items.table env).Holds items.groupCount.toNat (items.allServers env) := table_holds
  have hgroups : ∀ group ∈ (List.range items.groupCount.toNat).map fun i =>
      readServers env (items.values i), (∀ s ∈ group, s ∈ (items.table env).servers) ∧
        (∀ s ∈ group, s.Fresh) ∧ group.Nodup := by
    intro group hgroup
    obtain ⟨j, hj, rfl⟩ := List.mem_map.mp hgroup
    have hj := List.mem_range.mp hj
    exact ⟨fun s hs => (htable.mem s).mpr (mem_allServers hj hs), fun s hs => readServers_fresh hs,
      (h.group j hj).nodup⟩
  obtain ⟨sorted, hsort, hmap⟩ := sortGroups_of_nodup htable.ordered hgroups
  refine ⟨_, fdhtLoadGroupsEx_ok_iff.mpr ⟨h.count,
    fun i hi => ⟨(h.group i hi).nonempty, (h.group i hi).parse⟩, sorted, hsort, rfl⟩, ?_, ?_, ?_⟩
  · unfold Dangling
    rw [← table_length, ← htable.room_lt_iff]
    by_cases hmoves : env.moves = true
    · by_cases hroom : (items.table env).servers.length < (items.table env).allocServerCount
      · simp [hmoves, hroom]
      · simp [hroom]
    · simp [hmoves]
  · have hlength := congrArg List.length hmap
    rw [List.length_map, List.length_map, List.length_map, List.length_range] at hlength
    rw [List.length_map, hlength]
  · intro i hi
    have hget := congrArg (·[i]?) hmap
    rw [List.getElem?_map, List.getElem?_map, List.getElem?_map, List.getElem?_range hi] at hget
    obtain ⟨ptrs, hptrs, heq⟩ := Option.map_eq_some_iff.mp hget
    refine ⟨ptrs.map (ServerPtr.mk 0), ?_, ?_, ?_⟩
    · rw [List.getElem?_map, hptrs]
      rfl
    · intro p hp
      obtain ⟨k, -, rfl⟩ := List.mem_map.mp hp
      rfl
    · rw [List.map_map]
      exact heq

end FastDht
