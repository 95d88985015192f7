import FastDht.Server.Actions
import FastDht.Server.MapStore

/-! # What the list routines do in a quiet store

In a store in which nothing fails an update of a sub-key list is a function of
the value under the reserved key: it leaves the value, writes a new list or
removes it. -/
namespace FastDht
open Lib

inductive ListEffect
  | keep
  | write (keys : List Bytes)
  | remove
  deriving DecidableEq, Repr

/-- What `key_do_get` returns for a value. -/
def keyListOf : Option Bytes → KeyList
  | none => ⟨0, 0, []⟩
  | some v =>
    if (4 + fdhtKeyListMaxSize - 1 : Int) < v.length then ⟨ENOSPC, v.length, []⟩
    else if v.length ≤ 4 then ⟨0, 0, []⟩
    else ⟨0, v.length, splitEx fdhtFullKeySeperator fdhtKeyListMaxCount (cstr (v.drop 4))⟩

namespace ListEffect

/-- The value under the reserved key afterwards. -/
def apply (value : Option Bytes) : ListEffect → Option Bytes
  | keep => value
  | write keys => some (newKeyList keys)
  | remove => none

/-- The records that are logged; the removal of what is not there is not. -/
def records (g : Globals) (h : ReqHeader) (k : FDHTKeyInfo) (value : Option Bytes) :
    ListEffect → List LogWrite
  | keep => []
  | write keys => [listWrite g h .sourceSet k ((newKeyList keys).drop 4)]
  | remove => if value.isSome then [listWrite g h .sourceDel k []] else []

/-- `key_do_set`. -/
def ofKeys (keys : List Bytes) : ListEffect :=
  if 4 < 3 + (joinKeys keys).length then write keys else remove

/-- `key_do_add`. -/
def ofAdd (key : Bytes) (old : KeyList) : ListEffect :=
  let notBefore : Bytes → Bool := fun k => strcmp key k ≠ .lt
  if old.result ≠ 0 then keep
  else if (bsearch (strcmp key) old.keyArray).isSome then keep
  else if fdhtKeyListMaxSize ≤ old.valueLen + 1 + key.length then keep
  else write (old.keyArray.takeWhile notBefore ++ key :: old.keyArray.dropWhile notBefore)

/-- `key_do_del`. -/
def ofDel (key : Bytes) (old : KeyList) : ListEffect :=
  if old.result ≠ 0 then keep
  else match bsearch (strcmp key) old.keyArray with
    | none => keep
    | some index => ofKeys (old.keyArray.eraseIdx index)

/-- `key_batch_do_add` of keys in `strcmp` order. -/
def ofBatchAdd : List Bytes → KeyList → ListEffect
  | [], _ => keep
  | [key], old => ofAdd key old
  | subs, old =>
    let merged := batchMerge (subs.length + old.keyArray.length + 1) subs old.keyArray
    if old.result ≠ 0 then keep
    else if fdhtKeyListMaxSize ≤ old.valueLen + (joinKeys subs).length then keep
    else if merged.2 = 0 then keep
    else write merged.1

/-- `key_batch_do_del` of keys in `strcmp` order. -/
def ofBatchDel : List Bytes → KeyList → ListEffect
  | [], _ => keep
  | [key], old => ofDel key old
  | subs, old =>
    if old.result ≠ 0 then keep
    else ofKeys (batchRemove (subs.length + old.keyArray.length + 1) subs old.keyArray)

end ListEffect

/-! ## The size of a list -/

theorem keyListOf_size (value : Option Bytes) :
    (joinKeys (keyListOf value).keyArray).length ≤ (keyListOf value).valueLen ∧
      (joinKeys (keyListOf value).keyArray).length ≤ fdhtKeyListMaxSize := by
  rcases value with _ | v
  · exact ⟨by decide, by decide⟩
  unfold keyListOf
  dsimp only
  split
  · exact ⟨by simp, by simp⟩
  split
  · exact ⟨by simp, by simp⟩
  · have hsplit := joinKeys_splitEx fdhtFullKeySeperator fdhtKeyListMaxCount (cstr (v.drop 4))
    have hcstr := (List.takeWhile_sublist (l := v.drop 4) (· ≠ 0)).length_le
    rw [List.length_drop] at hcstr
    unfold cstr at hsplit ⊢
    dsimp only
    constructor <;> omega

theorem ListEffect.ofAdd_size {key : Bytes} {value : Option Bytes} {keys : List Bytes}
    (h : ofAdd key (keyListOf value) = .write keys) :
    (joinKeys keys).length ≤ fdhtKeyListMaxSize := by
  have hsize := (keyListOf_size value).1
  unfold ofAdd at h
  split_ifs at h with h1 h2 h3
  cases h
  rw [joinKeys_insert]
  omega

theorem ListEffect.ofKeys_write {keys keys' : List Bytes} (h : ofKeys keys = .write keys') :
    keys = keys' := by
  unfold ofKeys at h
  split at h
  · exact ListEffect.write.inj h
  · cases h

theorem ListEffect.ofDel_size {key : Bytes} {value : Option Bytes} {keys : List Bytes}
    (h : ofDel key (keyListOf value) = .write keys) :
    (joinKeys keys).length ≤ fdhtKeyListMaxSize := by
  unfold ofDel at h
  split at h
  · cases h
  split at h
  · cases h
  · rw [← ListEffect.ofKeys_write h]
    exact (joinKeys_sublist (List.eraseIdx_sublist _ _)).trans (keyListOf_size value).2

/-! ## The routines -/

section Routines

variable {σ κ : Type} [DecidableEq κ] (M : MapStore σ κ) (g : Globals) (h : ReqHeader)

def MapStore.listPlace (k : FDHTKeyInfo) : κ := M.slot h.groupId k.listKey.packFullKey

/-- The server after an update of a list. -/
structure MapStore.ListUpdated (k : FDHTKeyInfo) (e : ListEffect) (s s' : Server σ) : Prop where
  quiet : M.Quiet s'.store
  lookup : M.lookup s'.store = Function.update (M.lookup s.store) (M.listPlace h k)
    (e.apply (M.lookup s.store (M.listPlace h k)))
  binlog : s'.binlog = s.binlog ++ if g.writeToBinlogFlag = true then
    e.records g h k (M.lookup s.store (M.listPlace h k)) else []

variable {M g h} {k : FDHTKeyInfo} {s : Server σ}

theorem keyDoGet_quiet (hq : M.Quiet s.store) (grp : Nat) (key : Bytes) :
    (keyDoGet M.toStoreFuncs grp key s).1 = keyListOf (M.lookup s.store (M.slot grp key)) ∧
      M.Quiet (keyDoGet M.toStoreFuncs grp key s).2.store ∧
      M.lookup (keyDoGet M.toStoreFuncs grp key s).2.store = M.lookup s.store ∧
      (keyDoGet M.toStoreFuncs grp key s).2.binlog = s.binlog := by
  obtain ⟨hq', hlookup, hget⟩ := M.get_quiet grp key (4 + fdhtKeyListMaxSize - 1) hq
  have hstate : (keyDoGet M.toStoreFuncs grp key s).2 =
      { s with store := (M.get s.store grp key (4 + fdhtKeyListMaxSize - 1)).2 } := by
    rcases keyDoGet_cases M.toStoreFuncs grp key s with ⟨-, -, h⟩ | h | ⟨-, -, h⟩ <;> rw [h]
  rw [hstate]
  refine ⟨?_, hq', hlookup, rfl⟩
  unfold keyDoGet keyListOf
  generalize M.get s.store grp key (4 + fdhtKeyListMaxSize - 1) = r at hget ⊢
  obtain ⟨r, store⟩ := r
  obtain rfl : r = _ := hget
  unfold getResult
  rcases M.lookup s.store (M.slot grp key) with _ | v
  · rfl
  by_cases hfits : (4 + fdhtKeyListMaxSize - 1 : Int) < v.length
  · simp only [if_pos hfits]
    rfl
  · by_cases hlen : v.length ≤ 4 <;> simp [hfits, hlen, ENOENT]

theorem MapStore.ListUpdated.of_read {s₁ s' : Server σ} {e : ListEffect}
    (hlookup : M.lookup s₁.store = M.lookup s.store) (hbinlog : s₁.binlog = s.binlog)
    (hu : M.ListUpdated g h k e s₁ s') : M.ListUpdated g h k e s s' :=
  ⟨hu.quiet, hlookup ▸ hu.lookup, hbinlog ▸ hlookup ▸ hu.binlog⟩

theorem MapStore.ListUpdated.kept (hq : M.Quiet s.store) : M.ListUpdated g h k .keep s s :=
  ⟨hq, (Function.update_eq_self _ _).symm, by simp [ListEffect.records]⟩

/-- A routine reads the list of its object first. -/
theorem readList_quiet (hq : M.Quiet s.store) :
    (keyDoGet M.toStoreFuncs h.groupId k.listKey.packFullKey s).1 =
        keyListOf (M.lookup s.store (M.listPlace h k)) ∧
      M.Quiet (keyDoGet M.toStoreFuncs h.groupId k.listKey.packFullKey s).2.store ∧
      M.ListUpdated g h k .keep s
        (keyDoGet M.toStoreFuncs h.groupId k.listKey.packFullKey s).2 ∧
      ∀ {e s'}, M.ListUpdated g h k e
        (keyDoGet M.toStoreFuncs h.groupId k.listKey.packFullKey s).2 s' →
          M.ListUpdated g h k e s s' := by
  obtain ⟨hlist, hq', hlookup, hbinlog⟩ := keyDoGet_quiet hq h.groupId k.listKey.packFullKey
  exact ⟨hlist, hq', .of_read hlookup hbinlog (.kept hq'), .of_read hlookup hbinlog⟩

theorem keyListSet_quiet (hq : M.Quiet s.store) {keys : List Bytes}
    (hsize : (joinKeys keys).length ≤ fdhtKeyListMaxSize) :
    M.ListUpdated g h k (.write keys) s
      (keyListSet M.toStoreFuncs g h.groupId k.listKey h.keyHashCode keys s).2 := by
  have hlen := newKeyList_length keys
  obtain ⟨hq', hstatus, hlookup⟩ := M.set_quiet h.groupId k.listKey.packFullKey (newKeyList keys)
    (packFullKey_length_le _) (M.room_le (by omega) M.room_list) hq
  have hset : (keyListSet M.toStoreFuncs g h.groupId k.listKey h.keyHashCode keys s).2 =
      s.logged g (M.set s.store h.groupId k.listKey.packFullKey (newKeyList keys))
        (listWrite g h .sourceSet k ((newKeyList keys).drop 4)) := by
    have hvalue : (listWrite g h .sourceSet k ((newKeyList keys).drop 4)).valueLen =
        (newKeyList keys).length - 4 := by
      simp only [listWrite, List.length_drop]
      omega
    unfold keyListSet
    rw [← hvalue]
    rfl
  rw [hset]
  refine ⟨by rwa [Server.logged_store], by rw [Server.logged_store, hlookup]; rfl, ?_⟩
  rw [logged_binlog]
  by_cases hflag : g.writeToBinlogFlag = true <;> simp [hstatus, hflag, ListEffect.records]

theorem keyDoSet_quiet (hq : M.Quiet s.store) {keys : List Bytes}
    (hsize : (joinKeys keys).length ≤ fdhtKeyListMaxSize) :
    M.ListUpdated g h k (.ofKeys keys) s
      (keyDoSet M.toStoreFuncs g h.groupId k.listKey h.keyHashCode keys s).2 := by
  unfold keyDoSet ListEffect.ofKeys
  split
  · exact keyListSet_quiet hq hsize
  · obtain ⟨hq', hstatus, hlookup⟩ := M.delete_quiet h.groupId k.listKey.packFullKey hq
    refine ⟨by rwa [Server.logged_store], by rw [Server.logged_store, hlookup]; rfl, ?_⟩
    rw [logged_binlog, hstatus]
    unfold ListEffect.records MapStore.listPlace
    rcases (M.lookup s.store (M.slot h.groupId k.listKey.packFullKey)).isSome with _ | _
    · simp [ENOENT]
    · by_cases hflag : g.writeToBinlogFlag = true
      · simp only [hflag, if_true, and_self]
        rfl
      · simp [hflag]

theorem keyDoAdd_quiet (hq : M.Quiet s.store) :
    M.ListUpdated g h k (.ofAdd k.szKey (keyListOf (M.lookup s.store (M.listPlace h k)))) s
      (keyDoAdd M.toStoreFuncs g h.groupId k h.keyHashCode s).2 := by
  obtain ⟨hlist, hq₁, hkept, hread⟩ := readList_quiet (g := g) (h := h) (k := k) hq
  have hsize := @ListEffect.ofAdd_size k.szKey (M.lookup s.store (M.listPlace h k))
  unfold keyDoAdd
  dsimp only
  rw [hlist]
  unfold ListEffect.ofAdd at hsize ⊢
  split_ifs at hsize ⊢
  · exact hkept
  · exact hkept
  · exact hkept
  · exact hread (keyListSet_quiet hq₁ (hsize rfl))

theorem keyDoDel_quiet (hq : M.Quiet s.store) :
    M.ListUpdated g h k (.ofDel k.szKey (keyListOf (M.lookup s.store (M.listPlace h k)))) s
      (keyDoDel M.toStoreFuncs g h.groupId k h.keyHashCode s).2 := by
  obtain ⟨hlist, hq₁, hkept, hread⟩ := readList_quiet (g := g) (h := h) (k := k) hq
  have hsize := (keyListOf_size (M.lookup s.store (M.listPlace h k))).2
  unfold keyDoDel ListEffect.ofDel
  dsimp only
  rw [hlist]
  split
  · exact hkept
  rcases bsearch (strcmp k.szKey) (keyListOf (M.lookup s.store (M.listPlace h k))).keyArray with
    _ | index
  · exact hkept
  · exact hread (keyDoSet_quiet hq₁ ((joinKeys_sublist (List.eraseIdx_sublist _ _)).trans hsize))

theorem MapStore.ListUpdated.of_listKey {k' : FDHTKeyInfo} {e : ListEffect} {s' : Server σ}
    (hk : k'.listKey = k.listKey) (hu : M.ListUpdated g h k' e s s') :
    M.ListUpdated g h k e s s' := by
  have hplace : M.listPlace h k' = M.listPlace h k := by rw [listPlace, hk, listPlace]
  have hrecords : ∀ v, e.records g h k' v = e.records g h k v := by
    intro v
    have hwrite : ∀ op value, listWrite g h op k' value = listWrite g h op k value := by
      intro op value
      rw [listWrite, hk, listWrite]
    cases e with
    | keep => rfl
    | write keys => rw [ListEffect.records, hwrite, ListEffect.records]
    | remove => rw [ListEffect.records, hwrite, ListEffect.records]
  refine ⟨hu.quiet, ?_, ?_⟩
  · rw [← hplace]
    exact hu.lookup
  · rw [← hplace, ← hrecords]
    exact hu.binlog

theorem keyBatchDoAdd_quiet (hq : M.Quiet s.store) {subKeys : List FDHTKeyInfo}
    (hsame : ∀ k' ∈ subKeys, k'.listKey = k.listKey) :
    M.ListUpdated g h k (.ofBatchAdd (subKeys.map FDHTKeyInfo.szKey)
        (keyListOf (M.lookup s.store (M.listPlace h k)))) s
      (keyBatchDoAdd M.toStoreFuncs g h.groupId k h.keyHashCode subKeys s).2 := by
  match subKeys, hsame with
  | [], _ => exact .kept hq
  | [subKey], hsame =>
    have hk := hsame subKey List.mem_cons_self
    have hadd := (keyDoAdd_quiet (g := g) (h := h) (k := subKey) hq).of_listKey hk
    rw [MapStore.listPlace, hk] at hadd
    exact hadd
  | k₁ :: k₂ :: rest, _ =>
    obtain ⟨subKeys, hsubKeys⟩ : ∃ subKeys, subKeys = k₁ :: k₂ :: rest := ⟨_, rfl⟩
    obtain ⟨hlist, hq₁, hkept, hread⟩ := readList_quiet (g := g) (h := h) (k := k) hq
    obtain ⟨old, hold⟩ : ∃ old, old = keyListOf (M.lookup s.store (M.listPlace h k)) := ⟨_, rfl⟩
    have hsize := keyListOf_size (M.lookup s.store (M.listPlace h k))
    rw [← hold] at hsize hlist
    rw [← hold]
    have hmerge := batchMerge_length ((subKeys.map FDHTKeyInfo.szKey).length + old.keyArray.length + 1)
      (subKeys.map FDHTKeyInfo.szKey) old.keyArray
    rw [hsubKeys] at hmerge
    simp only [keyBatchDoAdd, hlist, ListEffect.ofBatchAdd, List.map_cons]
    simp only [List.map_cons] at hmerge
    split_ifs with h1 h2 h3
    · exact hkept
    · exact hkept
    · exact hkept
    · refine hread (keyListSet_quiet hq₁ (hmerge.trans ?_))
      omega

theorem keyBatchDoDel_quiet (hq : M.Quiet s.store) {subKeys : List FDHTKeyInfo}
    (hsame : ∀ k' ∈ subKeys, k'.listKey = k.listKey) :
    M.ListUpdated g h k (.ofBatchDel (subKeys.map FDHTKeyInfo.szKey)
        (keyListOf (M.lookup s.store (M.listPlace h k)))) s
      (keyBatchDoDel M.toStoreFuncs g h.groupId k h.keyHashCode subKeys s).2 := by
  match subKeys, hsame with
  | [], _ => exact .kept hq
  | [subKey], hsame =>
    have hk := hsame subKey List.mem_cons_self
    have hdel := (keyDoDel_quiet (g := g) (h := h) (k := subKey) hq).of_listKey hk
    rw [MapStore.listPlace, hk] at hdel
    exact hdel
  | k₁ :: k₂ :: rest, _ =>
    obtain ⟨hlist, hq₁, hkept, hread⟩ := readList_quiet (g := g) (h := h) (k := k) hq
    have hsize := (keyListOf_size (M.lookup s.store (M.listPlace h k))).2
    simp only [keyBatchDoDel, hlist, ListEffect.ofBatchDel, List.map_cons]
    split_ifs with h1
    · exact hkept
    · exact hread (keyDoSet_quiet hq₁
        ((joinKeys_sublist (batchRemove_sublist _ _ _)).trans hsize))

end Routines

end FastDht
