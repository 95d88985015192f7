import Mathlib.Data.Finset.Card
import FastDht.Lib.Machine
import FastDht.Server.ListCalls

/-! # Lists that only grow

`key_add` and `key_batch_add` limit the bytes of a list, and `key_do_get` splits it into
4096 pieces at the most. As long as an object has no more keys than that, and its keys can be
told apart in the joined list, what is read back are the keys of the calls that
returned 0. -/
namespace FastDht
open Lib

section Status

variable {σ κ : Type} [DecidableEq κ] {M : MapStore σ κ} {g : Globals} {h : ReqHeader}
  {k : FDHTKeyInfo} {s : Server σ}

theorem keyListSet_status (hq : M.Quiet s.store) {keys : List Bytes}
    (hsize : (joinKeys keys).length ≤ fdhtKeyListMaxSize) :
    (keyListSet M.toStoreFuncs g h.groupId k.listKey h.keyHashCode keys s).1 = 0 := by
  have hlen := newKeyList_length keys
  exact (M.set_quiet h.groupId k.listKey.packFullKey (newKeyList keys)
    (packFullKey_length_le _) (M.room_le (by omega) M.room_list) hq).2.1

theorem keyDoAdd_status (hq : M.Quiet s.store) {l : SubKeyList}
    (hlist : M.lookup s.store (M.listPlace h k) = l.value)
    (hcount : l.keys.length ≤ fdhtKeyListMaxCount) (hsize : l.valueLen < 4 + fdhtKeyListMaxSize) :
    (keyDoAdd M.toStoreFuncs g h.groupId k h.keyHashCode s).1 =
      if (bsearch (strcmp k.szKey) l.keys).isSome then 0
      else if fdhtKeyListMaxSize ≤ l.valueLen + 1 + k.szKey.length then ENOSPC else 0 := by
  obtain ⟨hread, hq₁, -, -⟩ := readList_quiet (g := g) (h := h) (k := k) hq
  rw [hlist, keyListOf_value hcount hsize] at hread
  unfold keyDoAdd
  dsimp only
  rw [hread]
  dsimp only
  rw [if_neg (not_not.mpr rfl)]
  split
  · rfl
  by_cases hlong : fdhtKeyListMaxSize ≤ l.valueLen + 1 + k.szKey.length
  · rw [if_pos hlong, if_pos (by exact_mod_cast hlong)]
  · rw [if_neg hlong, if_neg (by exact_mod_cast hlong)]
    refine keyListSet_status hq₁ ?_
    rw [joinKeys_insert]
    have := l.joinKeys_le
    omega

theorem keyBatchDoAdd_status (hq : M.Quiet s.store) {l : SubKeyList} {subKeys : List FDHTKeyInfo}
    (hmany : 2 ≤ subKeys.length) (hlist : M.lookup s.store (M.listPlace h k) = l.value)
    (hcount : l.keys.length ≤ fdhtKeyListMaxCount) (hsize : l.valueLen < 4 + fdhtKeyListMaxSize) :
    (keyBatchDoAdd M.toStoreFuncs g h.groupId k h.keyHashCode subKeys s).1 =
      if fdhtKeyListMaxSize ≤ l.valueLen + (joinKeys (subKeys.map FDHTKeyInfo.szKey)).length
      then ENOSPC else 0 := by
  obtain ⟨hread, hq₁, -, -⟩ := readList_quiet (g := g) (h := h) (k := k) hq
  rw [hlist, keyListOf_value hcount hsize] at hread
  match subKeys, hmany with
  | k₁ :: k₂ :: rest, _ =>
    unfold keyBatchDoAdd
    dsimp only
    rw [hread]
    dsimp only
    rw [if_neg (not_not.mpr rfl)]
    by_cases hlong : fdhtKeyListMaxSize ≤
        l.valueLen + (joinKeys ((k₁ :: k₂ :: rest).map FDHTKeyInfo.szKey)).length
    · rw [if_pos hlong, if_pos (by exact_mod_cast hlong)]
    · rw [if_neg hlong, if_neg (by exact_mod_cast hlong)]
      split
      · rfl
      · refine keyListSet_status hq₁ ((batchMerge_length _ _ _).trans ?_)
        have := l.joinKeys_le
        omega

end Status

/-! ## One addition -/

section Adding

variable {σ κ : Type} [DecidableEq κ] {M : MapStore σ κ} {g : Globals} {h : ReqHeader}
  {o : FDHTObjectInfo} {s : Server σ}

/-- A store that holds a list which can be read. -/
structure MapStore.HoldsList (M : MapStore σ κ) (h : ReqHeader) (o : FDHTObjectInfo) (l : SubKeyList)
    (s : Server σ) : Prop where
  quiet : M.Quiet s.store
  lookup : M.lookup s.store (M.listPlace h o.noKey) = l.value
  size : l.valueLen < 4 + fdhtKeyListMaxSize

def ListCall.Adds : ListCall → Prop
  | .add _ | .batchAdd _ => True
  | .del _ | .batchDel _ => False

instance : DecidablePred ListCall.Adds
  | .add _ | .batchAdd _ => isTrue trivial
  | .del _ | .batchDel _ => isFalse id

/-- What an addition leaves: the list with the new keys, or a status that is not 0 and
the list as it was. -/
def ListCall.Added (M : MapStore σ κ) (h : ReqHeader) (o : FDHTObjectInfo) (c : ListCall)
    (l : SubKeyList) (r : Int × Server σ) : Prop :=
  (r.1 = 0 ∧ ∃ l' : SubKeyList, l'.set = c.result l.set ∧ M.HoldsList h o l' r.2) ∨
    (r.1 ≠ 0 ∧ M.HoldsList h o l r.2)

section Cases

variable {c : ListCall} {l l' : SubKeyList}

theorem MapStore.HoldsList.kept (hl : M.HoldsList h o l s)
    (hkeep : c.effect o (keyListOf l.value) = .keep) :
    M.HoldsList h o l (c.run M.toStoreFuncs g h o s).2 := by
  have hu := c.run_quiet (g := g) (h := h) (o := o) hl.quiet
  refine ⟨hu.quiet, ?_, hl.size⟩
  rw [hu.lookup, Function.update_self, hl.lookup, hkeep]
  rfl

theorem MapStore.HoldsList.stored (hl : M.HoldsList h o l s) (hstores : c.Stores o l l')
    (hsize : l'.valueLen < 4 + fdhtKeyListMaxSize) :
    M.HoldsList h o l' (c.run M.toStoreFuncs g h o s).2 := by
  have hu := c.run_quiet (g := g) (h := h) (o := o) hl.quiet
  refine ⟨hu.quiet, ?_, hsize⟩
  rw [hu.lookup, Function.update_self, hl.lookup]
  exact hstores

end Cases

theorem add_added {l : SubKeyList} (hl : M.HoldsList h o l s)
    (hcount : l.keys.length ≤ fdhtKeyListMaxCount) {key : FDHTSubKey} (hkey : CleanKey key.szKey) :
    (ListCall.add key).Added M h o l ((ListCall.add key).run M.toStoreFuncs g h o s) := by
  have hstatus : ((ListCall.add key).run M.toStoreFuncs g h o s).1 =
      if (bsearch (strcmp key.szKey) l.keys).isSome then 0
      else if fdhtKeyListMaxSize ≤ l.valueLen + 1 + key.szKey.length then ENOSPC else 0 :=
    keyDoAdd_status hl.quiet (k := o.keyInfo key) hl.lookup hcount hl.size
  have hresult : (ListCall.add key).result l.set = Insert.insert key.szKey l.set := by
    rw [Set.insert_eq, Set.union_comm]
    exact congrArg (l.set ∪ ·) (Set.ext fun k => List.mem_singleton)
  have hfound : (bsearch (strcmp key.szKey) l.keys).isSome = true ↔ key.szKey ∈ l.set :=
    bsearch_isSome_iff hkey.no_nul
  by_cases hmem : key.szKey ∈ l.set
  · rw [if_pos (hfound.mpr hmem)] at hstatus
    refine .inl ⟨hstatus, l, ?_, hl.kept (ofAdd_keep hcount hkey (.inl hmem))⟩
    rw [hresult, Set.insert_eq_of_mem hmem]
  rw [if_neg (hfound.not.mpr hmem)] at hstatus
  by_cases hlong : fdhtKeyListMaxSize ≤ l.valueLen + 1 + key.szKey.length
  · rw [if_pos hlong] at hstatus
    refine .inr ⟨by rw [hstatus]; decide, hl.kept (ofAdd_keep hcount hkey (.inr hlong))⟩
  · rw [if_neg hlong] at hstatus
    have hset := SubKeyList.insert_set hkey hmem
    have hle := SubKeyList.insert_valueLen_le hkey hmem
    have hkeyLen : key.szKey.length ≤ 128 := key.keyLen_le
    have hmax : fdhtKeyListMaxSize = 65536 := rfl
    refine .inl ⟨hstatus, _, hset.trans hresult.symm, hl.stored ?_ (by omega)⟩
    exact ofAdd_value hcount (by omega) hkey hset

theorem batch_added {l : SubKeyList} (hl : M.HoldsList h o l s)
    (hcount : l.keys.length ≤ fdhtKeyListMaxCount) {keyList : List FDHTSubKey}
    (hmany : 2 ≤ keyList.length) (hclean : ∀ k ∈ (ListCall.batchAdd keyList).keys, CleanKey k) :
    (ListCall.batchAdd keyList).Added M h o l
      ((ListCall.batchAdd keyList).run M.toStoreFuncs g h o s) := by
  obtain ⟨subs, hsubs⟩ :
      ∃ subs, subs = (ListCall.sorted o keyList).map FDHTKeyInfo.szKey := ⟨_, rfl⟩
  have hlen : 2 ≤ subs.length := by rw [hsubs, ListCall.sorted_length]; exact hmany
  have hstatus : ((ListCall.batchAdd keyList).run M.toStoreFuncs g h o s).1 =
      if fdhtKeyListMaxSize ≤ l.valueLen + (joinKeys subs).length then ENOSPC else 0 := by
    rw [hsubs]
    refine keyBatchDoAdd_status hl.quiet ?_ hl.lookup hcount hl.size
    rw [hsubs, List.length_map] at hlen
    exact hlen
  by_cases hlong : fdhtKeyListMaxSize ≤ l.valueLen + (joinKeys subs).length
  · rw [if_pos hlong] at hstatus
    refine .inr ⟨by rw [hstatus]; decide, hl.kept ?_⟩
    have hkeep := ofBatchAdd_keep hcount hlen hlong
    rw [hsubs] at hkeep
    exact hkeep
  · rw [if_neg hlong] at hstatus
    have hsorted : Sorted subs := hsubs ▸ ListCall.sorted_sorted o keyList
    have hsubsClean : ∀ k ∈ subs, CleanKey k := by
      intro k hk
      rw [hsubs] at hk
      exact hclean k (ListCall.mem_sorted.mp hk)
    have hset := l.merge_set hsorted hsubsClean
    have hle := l.merge_valueLen_le hsorted hsubsClean
    have hresult : (ListCall.batchAdd keyList).result l.set = l.set ∪ { k | k ∈ subs } := by
      rw [hsubs]
      exact congrArg (l.set ∪ ·) (Set.ext fun k => ListCall.mem_sorted.symm)
    refine .inl ⟨hstatus, _, hset.trans hresult.symm, hl.stored ?_ (by omega)⟩
    have hvalue := ofBatchAdd_value hcount hlen (not_le.mp hlong) hsorted hsubsClean hset
    rw [ListCall.Stores, ← hvalue, hsubs]
    rfl

theorem ListCall.added {c : ListCall} {l : SubKeyList} (hl : M.HoldsList h o l s) (hadds : c.Adds)
    (hcount : l.keys.length ≤ fdhtKeyListMaxCount) (hclean : ∀ k ∈ c.keys, CleanKey k) :
    c.Added M h o l (c.run M.toStoreFuncs g h o s) := by
  match c, hadds with
  | .add key, _ => exact add_added hl hcount (hclean _ List.mem_cons_self)
  | .batchAdd [], _ =>
    exact .inl ⟨rfl, l, (Set.union_eq_self_of_subset_right nofun).symm, hl⟩
  | .batchAdd [key], _ =>
    have hadd : (ListCall.add key).Added M h o l ((ListCall.add key).run M.toStoreFuncs g h o s) :=
      add_added hl hcount (hclean _ List.mem_cons_self)
    exact hadd
  | .batchAdd (k₁ :: k₂ :: rest), _ =>
    exact batch_added hl hcount (Nat.le_add_left 2 rest.length) hclean

end Adding

/-! ## Whole runs -/

/-- A server, and the keys of one object that calls which returned 0 have added. -/
structure ListHistory (σ : Type) where
  server : Server σ
  added : Finset Bytes

/-- An addition, at the time of `g` and under the lock of a hash code. -/
structure Addition where
  g : Globals
  keyHashCode : Int
  call : ListCall

def Addition.header (e : Addition) (grp : Nat) : ReqHeader := ⟨e.keyHashCode, grp, 0, 0⟩

def ListHistory.step {σ : Type} (S : StoreFuncs σ) (grp : Nat) (o : FDHTObjectInfo)
    (st : ListHistory σ) (e : Addition) : Option (ListHistory σ) :=
  if e.call.Adds then
    let r := e.call.enter S e.g (e.header grp) o st.server
    some ⟨r.2, if r.1 = 0 then st.added ∪ e.call.keys.toFinset else st.added⟩
  else none

/-- The object has a list, its keys can be told apart in it, and there are not too many. -/
structure ListHistory.Representable {σ : Type} (o : FDHTObjectInfo) (st : ListHistory σ)
    (e : Addition) : Prop where
  object : hasObject o.noKey = true
  clean : ∀ k ∈ e.call.keys, CleanKey k
  count : (st.added ∪ e.call.keys.toFinset).card ≤ fdhtKeyListMaxCount

instance {σ : Type} (o : FDHTObjectInfo) (st : ListHistory σ) (e : Addition) :
    Decidable (st.Representable o e) :=
  decidable_of_iff (hasObject o.noKey = true ∧ (∀ k ∈ e.call.keys, CleanKey k) ∧
    (st.added ∪ e.call.keys.toFinset).card ≤ fdhtKeyListMaxCount)
    ⟨fun h => ⟨h.1, h.2.1, h.2.2⟩, fun h => ⟨h.1, h.2, h.3⟩⟩

theorem ListCall.enter_eq_run {σ : Type} {S : StoreFuncs σ} {g : Globals} {h : ReqHeader}
    {o : FDHTObjectInfo} (hobject : hasObject o.noKey = true) (s : Server σ) (c : ListCall) :
    c.enter S g h o s = c.run S g h o s := by
  cases c with
  | add key => exact if_pos hobject
  | del key => exact if_pos hobject
  | batchAdd keyList => exact if_pos hobject
  | batchDel keyList => exact if_pos hobject

section Runs

variable {σ κ : Type} [DecidableEq κ] {M : MapStore σ κ} {grp : Nat} {o : FDHTObjectInfo}

/-- The list of an object is that of the keys added so far. -/
def ListHistory.Listed (M : MapStore σ κ) (grp : Nat) (o : FDHTObjectInfo) (st : ListHistory σ) :
    Prop :=
  st.added.card ≤ fdhtKeyListMaxCount ∧
    ∃ l : SubKeyList, l.set = st.added ∧ M.HoldsList ⟨0, grp, 0, 0⟩ o l st.server

theorem SubKeyList.length_eq_card {l : SubKeyList} {keys : Finset Bytes} (h : l.set = keys) :
    l.keys.length = keys.card := by
  have hkeys : l.keys.toFinset = keys := by
    ext k
    rw [List.mem_toFinset, ← SubKeyList.mem_set, h, Finset.mem_coe]
  rw [← hkeys, List.toFinset_card_of_nodup l.increasing.nodup]

theorem ListHistory.Listed.step {st st' : ListHistory σ} {e : Addition} (h : st.Listed M grp o)
    (hok : st.Representable o e) (hstep : st.step M.toStoreFuncs grp o e = some st') :
    st'.Listed M grp o := by
  obtain ⟨hcard, l, hset, hl⟩ := h
  unfold ListHistory.step at hstep
  split at hstep
  · rename_i hadds
    rw [ListCall.enter_eq_run hok.object] at hstep
    obtain rfl := Option.some.inj hstep
    have hl' : M.HoldsList (e.header grp) o l st.server := ⟨hl.quiet, hl.lookup, hl.size⟩
    have hcount : l.keys.length ≤ fdhtKeyListMaxCount := by
      rw [SubKeyList.length_eq_card hset]
      exact hcard
    rcases ListCall.added (g := e.g) hl' hadds hcount hok.clean with
      ⟨hzero, l', hresult, hlist⟩ | ⟨hne, hlist⟩
    · rw [if_pos hzero]
      refine ⟨hok.count, l', ?_, hlist.quiet, hlist.lookup, hlist.size⟩
      rw [hresult, Finset.coe_union, List.coe_toFinset, ← hset]
      match e.call, hadds with
      | .add _, _ => rfl
      | .batchAdd _, _ => rfl
    · rw [if_neg hne]
      exact ⟨hcard, l, hset, hlist.quiet, hlist.lookup, hlist.size⟩
  · cases hstep

/-- **As long as the keys of an object can be told apart in its list and there are at most
4096 of them, reading the list gives the keys that were added, in order.** -/
theorem added_keys_read_back (M : MapStore σ κ) (grp : Nat) (o : FDHTObjectInfo) {s : Server σ}
    (hq : M.Quiet s.store) (hnone : M.lookup s.store (M.slot grp o.noKey.listKey.packFullKey) = none)
    {st : ListHistory σ}
    (hrun : Runs (ListHistory.step M.toStoreFuncs grp o) (ListHistory.Representable o) ⟨s, ∅⟩ st) :
    (keyDoGet M.toStoreFuncs grp o.noKey.listKey.packFullKey st.server).1.result = 0 ∧
    Increasing (keyDoGet M.toStoreFuncs grp o.noKey.listKey.packFullKey st.server).1.keyArray ∧
    ∀ k, k ∈ (keyDoGet M.toStoreFuncs grp o.noKey.listKey.packFullKey st.server).1.keyArray ↔
      k ∈ st.added := by
  have hfirst : (⟨s, ∅⟩ : ListHistory σ).Listed M grp o :=
    ⟨Nat.zero_le _, .empty, SubKeyList.empty_set.trans Finset.coe_empty.symm, hq, hnone, by decide⟩
  obtain ⟨hcard, l, hset, hl⟩ :=
    hrun.invariant hfirst fun _ _ _ h hok hstep => h.step hok hstep
  have hread := (keyDoGet_quiet hl.quiet grp o.noKey.listKey.packFullKey).1
  have hlookup : M.lookup st.server.store (M.slot grp o.noKey.listKey.packFullKey) = l.value :=
    hl.lookup
  rw [hlookup, keyListOf_value (by rw [SubKeyList.length_eq_card hset]; exact hcard) hl.size]
    at hread
  rw [hread]
  refine ⟨rfl, l.increasing, fun k => ?_⟩
  rw [← SubKeyList.mem_set, hset, Finset.mem_coe]

end Runs

/-- A key, and then a batch that has it once more. -/
theorem added_short_key_read_back :
    ∃ st : ListHistory Bdb,
      exec (ListHistory.step bdbMap.toStoreFuncs 0 oneObject) (ListHistory.Representable oneObject)
        [⟨oneGroup, 0, .add ⟨[98], by decide⟩⟩,
          ⟨oneGroup, 0, .batchAdd [⟨[99], by decide⟩, ⟨[98], by decide⟩, ⟨[97], by decide⟩]⟩]
        ⟨emptyServer, ∅⟩ = some st ∧ st.added = {[97], [98], [99]} ∧
      ∀ k, k ∈ (keyDoGet bdbMap.toStoreFuncs 0 oneObject.noKey.listKey.packFullKey
        st.server).1.keyArray ↔ k ∈ st.added := by
  have hexec : (exec (ListHistory.step bdbMap.toStoreFuncs 0 oneObject)
      (ListHistory.Representable oneObject) [⟨oneGroup, 0, .add ⟨[98], by decide⟩⟩,
        ⟨oneGroup, 0, .batchAdd [⟨[99], by decide⟩, ⟨[98], by decide⟩, ⟨[97], by decide⟩]⟩]
      ⟨emptyServer, ∅⟩).map ListHistory.added = some {[97], [98], [99]} := by decide +kernel
  obtain ⟨st, hrun, hkeys⟩ := Option.map_eq_some_iff.mp hexec
  exact ⟨st, hrun, hkeys, (added_keys_read_back bdbMap 0 oneObject (s := emptyServer)
    emptyBdb_quiet rfl (.of_exec hrun)).2.2⟩

/-- A SET with the key can be handled. -/
def FDHTKeyInfo.Accepted (g : Globals) (k : FDHTKeyInfo) : Prop :=
  ∃ t value, SingleCmd.set.parse g t = some (k, value)

/-- The key `a`, 0x01, `b`. -/
def splitKey : FDHTSubKey := ⟨[97, 1, 98], by decide⟩

/-- The key is added, and the list has two other keys. -/
theorem added_key_split :
    ¬ ∀ (o : FDHTObjectInfo) (st : ListHistory Bdb),
      Runs (ListHistory.step bdbMap.toStoreFuncs 0 o)
          (fun _ e => ∀ key : FDHTSubKey, key.szKey ∈ e.call.keys → (o.keyInfo key).Accepted e.g)
          ⟨emptyServer, ∅⟩ st →
        ∀ k, k ∈ (keyDoGet bdbMap.toStoreFuncs 0 o.noKey.listKey.packFullKey
          st.server).1.keyArray ↔ k ∈ st.added := by
  intro hall
  have hparse : SingleCmd.set.parse oneGroup
      (request .set 0 0 ((oneObject.keyInfo splitKey).packBodyUntilKey ++ int2buff 1 ++ [120])) =
        some (oneObject.keyInfo splitKey, [120]) := by decide +kernel
  have hstep : (ListHistory.step bdbMap.toStoreFuncs 0 oneObject ⟨emptyServer, ∅⟩
      ⟨oneGroup, 0, .add splitKey⟩).map (fun st => (st.added, (keyDoGet bdbMap.toStoreFuncs 0
        oneObject.noKey.listKey.packFullKey st.server).1.keyArray)) =
      some ({[97, 1, 98]}, [[97], [98]]) := by decide +kernel
  obtain ⟨st, hst, hpair⟩ := Option.map_eq_some_iff.mp hstep
  obtain ⟨hadded, hread⟩ := Prod.mk.inj hpair
  have hkeys := hall oneObject st (.single ⟨_, ?_, hst⟩) [97]
  · rw [hread, hadded] at hkeys
    exact absurd (hkeys.mp List.mem_cons_self) (by decide)
  · intro key hkey
    obtain ⟨name, hname⟩ := key
    obtain rfl := List.mem_singleton.mp hkey
    exact ⟨_, _, hparse⟩

end FastDht
