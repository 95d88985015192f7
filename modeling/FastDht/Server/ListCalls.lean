import FastDht.Server.KeyLists
import FastDht.Server.RequestGrammar

/-! # The list routines as operations on sets

On a list that stands for a set of keys the four routines of server/key_op.c add keys to
the set or take keys from it. A batch is refused for the bytes of all its keys, those
the list has already and repetitions among them, so a union that fits may not be stored. -/
namespace FastDht
open Lib

/-- A call of a list routine. The handlers sort a batch before the call. -/
inductive ListCall
  | add (key : FDHTSubKey)
  | del (key : FDHTSubKey)
  | batchAdd (keyList : List FDHTSubKey)
  | batchDel (keyList : List FDHTSubKey)
  deriving DecidableEq

namespace ListCall

def keys : ListCall → List Bytes
  | add key | del key => [key.szKey]
  | batchAdd keyList | batchDel keyList => keyList.map FDHTSubKey.szKey

/-- What the routine makes of a set. -/
def result (c : ListCall) (K : Set Bytes) : Set Bytes :=
  match c with
  | add _ | batchAdd _ => K ∪ { k | k ∈ c.keys }
  | del _ | batchDel _ => K \ { k | k ∈ c.keys }

def sorted (o : FDHTObjectInfo) (keyList : List FDHTSubKey) : List FDHTKeyInfo :=
  qsort compareSubKey (keyList.map o.keyInfo)

/-- `key_do_add`, `key_do_del`, `key_batch_do_add` and `key_batch_do_del`. -/
def run {σ : Type} (S : StoreFuncs σ) (g : Globals) (h : ReqHeader) (o : FDHTObjectInfo)
    (s : Server σ) : ListCall → Int × Server σ
  | add key => keyDoAdd S g h.groupId (o.keyInfo key) h.keyHashCode s
  | del key => keyDoDel S g h.groupId (o.keyInfo key) h.keyHashCode s
  | batchAdd keyList => keyBatchDoAdd S g h.groupId o.noKey h.keyHashCode (sorted o keyList) s
  | batchDel keyList => keyBatchDoDel S g h.groupId o.noKey h.keyHashCode (sorted o keyList) s

/-- `key_add`, `key_del`, `key_batch_add` and `key_batch_del`. -/
def enter {σ : Type} (S : StoreFuncs σ) (g : Globals) (h : ReqHeader) (o : FDHTObjectInfo)
    (s : Server σ) : ListCall → Int × Server σ
  | add key => keyAdd S g h.groupId (o.keyInfo key) h.keyHashCode s
  | del key => keyDel S g h.groupId (o.keyInfo key) h.keyHashCode s
  | batchAdd keyList => keyBatchAdd S g h.groupId o.noKey h.keyHashCode (sorted o keyList) s
  | batchDel keyList => keyBatchDel S g h.groupId o.noKey h.keyHashCode (sorted o keyList) s

/-- What a list must leave room for. -/
def Fits (l : SubKeyList) : ListCall → Prop
  | add _ => True
  | del _ | batchDel _ => l.valueLen < 4 + fdhtKeyListMaxSize
  | batchAdd keyList => keyList.length ≤ 1 ∨
      l.valueLen + (joinKeys (keyList.map FDHTSubKey.szKey)).length < fdhtKeyListMaxSize

def effect (o : FDHTObjectInfo) (old : KeyList) : ListCall → ListEffect
  | add key => .ofAdd key.szKey old
  | del key => .ofDel key.szKey old
  | batchAdd keyList => .ofBatchAdd ((sorted o keyList).map FDHTKeyInfo.szKey) old
  | batchDel keyList => .ofBatchDel ((sorted o keyList).map FDHTKeyInfo.szKey) old

/-! ## Batches in order -/

section Sorted

variable (o : FDHTObjectInfo) (keyList : List FDHTSubKey)

theorem sorted_perm : ((sorted o keyList).map FDHTKeyInfo.szKey).Perm
    (keyList.map FDHTSubKey.szKey) := by
  have hperm := (qsort_perm compareSubKey (keyList.map o.keyInfo)).map FDHTKeyInfo.szKey
  rw [List.map_map] at hperm
  exact hperm

theorem sorted_sorted : Sorted ((sorted o keyList).map FDHTKeyInfo.szKey) :=
  List.pairwise_map.mpr (qsort_pairwise (keyList.map o.keyInfo))

theorem sorted_listKey : ∀ k ∈ sorted o keyList, k.listKey = o.noKey.listKey := by
  intro k hk
  obtain ⟨key, -, rfl⟩ := List.mem_map.mp (mem_qsort.mp hk)
  rfl

theorem sorted_joinKeys : (joinKeys ((sorted o keyList).map FDHTKeyInfo.szKey)).length =
    (joinKeys (keyList.map FDHTSubKey.szKey)).length :=
  ((sorted_perm o keyList).flatMap_right _).length_eq

theorem sorted_length : ((sorted o keyList).map FDHTKeyInfo.szKey).length = keyList.length :=
  (sorted_perm o keyList).length_eq.trans (List.length_map _)

end Sorted

/-! ## One call -/

section Calls

variable {o : FDHTObjectInfo} {l l' : SubKeyList}

/-- A call turns one list into another. -/
structure Turns (c : ListCall) (l l' : SubKeyList) : Prop where
  clean : ∀ k ∈ c.keys, CleanKey k
  count : l.keys.length ≤ fdhtKeyListMaxCount
  count' : l'.keys.length ≤ fdhtKeyListMaxCount
  size' : l'.valueLen < fdhtKeyListMaxSize
  set : l'.set = c.result l.set

/-- The call leaves the value that stands for the new set. -/
def Stores (o : FDHTObjectInfo) (c : ListCall) (l l' : SubKeyList) : Prop :=
  (c.effect o (keyListOf l.value)).apply l.value = l'.value

theorem Turns.value_eq_iff {c : ListCall} (h : c.Turns l l') :
    l.value = l'.value ↔ c.result l.set = l.set := by
  have hsize' := h.size'
  constructor
  · intro hvalue
    rw [← h.set, SubKeyList.value_inj h.count h.count' (by omega) hvalue]
  · intro hset
    rw [SubKeyList.ext_set (h.set.trans hset)]

theorem Turns.kept {c : ListCall} (h : c.Turns l l')
    (hkeep : c.effect o (keyListOf l.value) = .keep) (hnot : ¬ c.Fits l) :
    c.Stores o l l' ↔ c.result l.set = l.set ∨ c.Fits l := by
  rw [or_iff_left hnot, ← h.value_eq_iff, Stores, hkeep]
  rfl

theorem Turns.add {key : FDHTSubKey} (h : (add key).Turns l l') :
    (ListCall.add key).Stores o l l' := by
  refine ofAdd_value h.count h.size' (h.clean _ List.mem_cons_self) (h.set.trans ?_)
  rw [Set.insert_eq, Set.union_comm]
  exact congrArg (l.set ∪ ·) (Set.ext fun k => List.mem_singleton)

theorem Turns.del {key : FDHTSubKey} (h : (del key).Turns l l') :
    (ListCall.del key).Stores o l l' ↔
      (ListCall.del key).result l.set = l.set ∨ (ListCall.del key).Fits l := by
  by_cases hread : l.valueLen < 4 + fdhtKeyListMaxSize
  · refine iff_of_true ?_ (.inr hread)
    refine ofDel_value h.count hread (h.clean _ List.mem_cons_self) (h.set.trans ?_)
    exact congrArg (l.set \ ·) (Set.ext fun k => List.mem_singleton)
  · exact h.kept (ofDel_keep (not_lt.mp hread)) hread

theorem mem_sorted {keyList : List FDHTSubKey} {k : Bytes} :
    k ∈ (sorted o keyList).map FDHTKeyInfo.szKey ↔ k ∈ keyList.map FDHTSubKey.szKey :=
  (sorted_perm o keyList).mem_iff

/-- **A call makes a list the one that stands for the new set exactly if it leaves the set
as it is or fits.** -/
theorem Turns.stores_iff {c : ListCall} (h : c.Turns l l') :
    c.Stores o l l' ↔ c.result l.set = l.set ∨ c.Fits l := by
  match c with
  | .add key => exact iff_of_true h.add (.inr trivial)
  | .del key => exact h.del
  | .batchAdd [] | .batchDel [] =>
    refine iff_of_true ?_ (.inl (by simp [result, keys]))
    exact h.value_eq_iff.mpr (by simp [result, keys])
  | .batchAdd [key] =>
    have hadd : (ListCall.add key).Turns l l' := ⟨h.clean, h.count, h.count', h.size', h.set⟩
    exact iff_of_true (hadd.add (o := o)) (.inr (.inl (Nat.le_refl _)))
  | .batchDel [key] =>
    have hdel : (ListCall.del key).Turns l l' := ⟨h.clean, h.count, h.count', h.size', h.set⟩
    exact hdel.del (o := o)
  | .batchAdd (k₁ :: k₂ :: rest) =>
    obtain ⟨keyList, hlist⟩ : ∃ keyList, keyList = k₁ :: k₂ :: rest := ⟨_, rfl⟩
    have hmany : 2 ≤ keyList.length := by simp [hlist]
    rw [← hlist] at h ⊢
    by_cases hfits : l.valueLen + (joinKeys (keyList.map FDHTSubKey.szKey)).length <
        fdhtKeyListMaxSize
    · refine iff_of_true ?_ (.inr (.inr hfits))
      refine ofBatchAdd_value h.count (by rw [sorted_length]; exact hmany)
        (by rw [sorted_joinKeys]; exact hfits) (sorted_sorted o keyList)
        (fun k hk => h.clean k (mem_sorted.mp hk)) (h.set.trans ?_)
      exact congrArg (l.set ∪ ·) (Set.ext fun k => mem_sorted.symm)
    · refine h.kept (ofBatchAdd_keep h.count (by rw [sorted_length]; exact hmany) ?_) ?_
      · rw [sorted_joinKeys]
        exact not_lt.mp hfits
      · rintro (hle | hlt)
        · omega
        · exact hfits hlt
  | .batchDel (k₁ :: k₂ :: rest) =>
    obtain ⟨keyList, hlist⟩ : ∃ keyList, keyList = k₁ :: k₂ :: rest := ⟨_, rfl⟩
    have hmany : 2 ≤ ((sorted o keyList).map FDHTKeyInfo.szKey).length := by
      rw [sorted_length]
      simp [hlist]
    rw [← hlist] at h ⊢
    by_cases hread : l.valueLen < 4 + fdhtKeyListMaxSize
    · refine iff_of_true ?_ (.inr hread)
      refine ofBatchDel_value h.count hmany hread (sorted_sorted o keyList)
        (fun k hk => h.clean k (mem_sorted.mp hk)) (h.set.trans ?_)
      exact congrArg (l.set \ ·) (Set.ext fun k => mem_sorted.symm)
    · exact h.kept (ofBatchDel_keep hmany (not_lt.mp hread)) hread

variable {σ κ : Type} [DecidableEq κ] {M : MapStore σ κ} {g : Globals} {h : ReqHeader}
  {s : Server σ}

theorem run_quiet (hq : M.Quiet s.store) (c : ListCall) :
    M.ListUpdated g h o.noKey (c.effect o (keyListOf (M.lookup s.store (M.listPlace h o.noKey)))) s
      (c.run M.toStoreFuncs g h o s).2 := by
  cases c with
  | add key =>
    have hadd := keyDoAdd_quiet (g := g) (h := h) (k := o.keyInfo key) hq
    have hsame : (o.keyInfo key).listKey = o.noKey.listKey := rfl
    exact hadd.of_listKey hsame
  | del key =>
    have hdel := keyDoDel_quiet (g := g) (h := h) (k := o.keyInfo key) hq
    have hsame : (o.keyInfo key).listKey = o.noKey.listKey := rfl
    exact hdel.of_listKey hsame
  | batchAdd keyList => exact keyBatchDoAdd_quiet hq (sorted_listKey o keyList)
  | batchDel keyList => exact keyBatchDoDel_quiet hq (sorted_listKey o keyList)

theorem run_stores_iff (hq : M.Quiet s.store) (c : ListCall)
    (hlist : M.lookup s.store (M.listPlace h o.noKey) = l.value) :
    M.lookup (c.run M.toStoreFuncs g h o s).2.store =
        Function.update (M.lookup s.store) (M.listPlace h o.noKey) l'.value ↔ c.Stores o l l' := by
  rw [(c.run_quiet hq).lookup, hlist, ListCall.Stores]
  constructor
  · intro heq
    have hplace := congrFun heq (M.listPlace h o.noKey)
    rw [Function.update_self, Function.update_self] at hplace
    exact hplace
  · intro heq
    rw [heq]

end Calls

end ListCall

section SetSemantics

variable {σ κ : Type} [DecidableEq κ]

/-- **In a store in which nothing fails a call stores the list of the new set exactly if
the set stays as it is or the call fits: a deletion finds a list it can read, and a batch
of two or more keys stays below the limit with all its keys counted.** -/
theorem list_call_stores_iff (M : MapStore σ κ) (g : Globals) (h : ReqHeader) (o : FDHTObjectInfo)
    {s : Server σ} (hq : M.Quiet s.store) (c : ListCall) {l l' : SubKeyList}
    (hlist : M.lookup s.store (M.listPlace h o.noKey) = l.value) (hturns : c.Turns l l') :
    M.lookup (c.run M.toStoreFuncs g h o s).2.store =
        Function.update (M.lookup s.store) (M.listPlace h o.noKey) l'.value ↔
      c.result l.set = l.set ∨ c.Fits l :=
  (c.run_stores_iff hq hlist).trans hturns.stores_iff

end SetSemantics

def SubKeyList.empty : SubKeyList := ⟨[], nofun, List.Pairwise.nil⟩

theorem SubKeyList.not_mem_empty (k : Bytes) : k ∉ empty.set := List.not_mem_nil

theorem SubKeyList.empty_set : empty.set = ∅ := Set.eq_empty_of_forall_notMem not_mem_empty

theorem shortKey_clean : CleanKey [97] := by decide

def SubKeyList.short : SubKeyList := empty.insert [97] shortKey_clean (not_mem_empty _)

theorem SubKeyList.not_mem_short : [98] ∉ short.set := by
  rw [short, insert_set, empty_set]
  decide

/-- The object `o` of the namespace `n`. -/
def oneObject : FDHTObjectInfo := ⟨[110], [111], by decide, by decide⟩

def zeroHeader : ReqHeader := ⟨0, 0, 0, 0⟩

def listServer (o : FDHTObjectInfo) (l : SubKeyList) : Server Bdb :=
  { emptyServer with store := { emptyBdb with
      data := Function.update (fun _ => none) (0, o.noKey.listKey.packFullKey) l.value } }

theorem listServer_lookup (o : FDHTObjectInfo) (l : SubKeyList) :
    bdbMap.lookup (listServer o l).store (bdbMap.listPlace zeroHeader o.noKey) = l.value := by
  show Function.update (fun _ => none) (0, o.noKey.listKey.packFullKey) l.value
    (0, o.noKey.listKey.packFullKey) = l.value
  exact Function.update_self _ _ _

/-- A batch of a key that the list has and one that it does not have. -/
theorem list_call_stores_first :
    bdbMap.lookup ((ListCall.batchAdd [⟨[98], by decide⟩, ⟨[97], by decide⟩]).run
        bdbMap.toStoreFuncs oneGroup zeroHeader oneObject (listServer oneObject .short)).2.store =
      Function.update (bdbMap.lookup (listServer oneObject .short).store)
        (bdbMap.listPlace zeroHeader oneObject.noKey)
        (SubKeyList.short.insert [98] (by decide) SubKeyList.not_mem_short).value := by
  have hturns : (ListCall.batchAdd [⟨[98], by decide⟩, ⟨[97], by decide⟩]).Turns .short
      (SubKeyList.short.insert [98] (by decide) SubKeyList.not_mem_short) := by
    refine ⟨by decide, by decide, by decide, by decide, ?_⟩
    rw [SubKeyList.insert_set, SubKeyList.short, SubKeyList.insert_set, SubKeyList.empty_set]
    ext k
    simp [ListCall.result, ListCall.keys, or_comm]
  exact (list_call_stores_iff bdbMap oneGroup zeroHeader oneObject (s := listServer oneObject .short)
    emptyBdb_quiet _ (listServer_lookup _ _) hturns).mpr (.inr (.inr (by decide)))

def SubKeyList.ofKeys (keys : List Bytes) (hclean : ∀ k ∈ keys, CleanKey k) (hnodup : keys.Nodup) :
    SubKeyList where
  keys := qsort strcmp keys
  clean := fun k hk => hclean k (mem_qsort.mp hk)
  increasing := by
    refine qsort_sorted (hnodup.imp_of_mem fun ha hb hne heq => hne ?_)
    exact (strcmp_eq_iff_eq (hclean _ ha).no_nul (hclean _ hb).no_nul).mp heq

theorem SubKeyList.ofKeys_perm {keys : List Bytes} (hclean : ∀ k ∈ keys, CleanKey k)
    (hnodup : keys.Nodup) : (ofKeys keys hclean hnodup).keys.Perm keys := qsort_perm _ _

theorem SubKeyList.ofKeys_valueLen {keys : List Bytes} (hclean : ∀ k ∈ keys, CleanKey k)
    (hnodup : keys.Nodup) (hne : keys ≠ []) :
    (ofKeys keys hclean hnodup).valueLen = 3 + (joinKeys keys).length := by
  have hperm := ofKeys_perm hclean hnodup
  rw [valueLen_of_ne_nil fun hnil => hne ?_]
  · exact congrArg (3 + ·) (hperm.flatMap_right _).length_eq
  · rw [hnil] at hperm
    exact hperm.symm.eq_nil

theorem joinKeys_length_of_eq {n : Nat} {keys : List Bytes} (h : ∀ k ∈ keys, k.length = n) :
    (joinKeys keys).length = keys.length * (n + 1) := by
  induction keys with
  | nil => rw [List.length_nil, Nat.zero_mul]; rfl
  | cons k keys ih =>
    rw [joinKeys_cons, List.length_append, ih fun k hk => h k (List.mem_cons_of_mem _ hk),
      List.length_cons, List.length_cons, h k List.mem_cons_self, Nat.add_mul]
    omega

theorem joinKeys_cons_replicate (key : Bytes) (n : Nat) (k : Bytes) :
    (joinKeys (key :: List.replicate n k)).length = key.length + 1 + n * (k.length + 1) := by
  rw [joinKeys_cons, List.length_append, List.length_cons, joinKeys_length_of_eq
    fun x hx => congrArg List.length (List.eq_of_mem_replicate hx), List.length_replicate]

/-! ## A batch of a key the list has -/

section Refused

/-- A key of 128 bytes that begins with the number of it. -/
def wideKey (i : Nat) : Bytes :=
  UInt8.ofNat (2 + i / 200) :: UInt8.ofNat (2 + i % 200) :: List.replicate 126 97

theorem wideKey_length (i : Nat) : (wideKey i).length = 128 := by
  rw [wideKey, List.length_cons, List.length_cons, List.length_replicate]

theorem toNat_wideByte {n : Nat} (h : n < 202) : (UInt8.ofNat n).toNat = n :=
  UInt8.toNat_ofNat_of_lt' (by simp only [UInt8.size]; omega)

theorem wideKey_clean {i : Nat} (hi : i < 400) : CleanKey (wideKey i) := by
  have hbyte : ∀ n < 202, 2 ≤ n → UInt8.ofNat n ≠ 0 ∧ UInt8.ofNat n ≠ 1 := by
    intro n hn hle
    constructor <;>
    · intro heq
      have hnat := congrArg UInt8.toNat heq
      simp at hnat
      omega
  obtain ⟨h0, h1⟩ := hbyte (2 + i / 200) (by omega) (Nat.le_add_right _ _)
  obtain ⟨h0', h1'⟩ := hbyte (2 + i % 200) (by omega) (Nat.le_add_right _ _)
  have hmem : ∀ b ∈ wideKey i, b ≠ 0 ∧ b ≠ 1 := by
    intro b hb
    rcases List.mem_cons.mp hb with rfl | hb
    · exact ⟨h0, h1⟩
    rcases List.mem_cons.mp hb with rfl | hb
    · exact ⟨h0', h1'⟩
    rw [List.eq_of_mem_replicate hb]
    decide
  exact ⟨List.cons_ne_nil _ _, fun h => (hmem 0 h).1 rfl, fun h => (hmem _ h).2 rfl⟩

theorem wideKey_inj {i j : Nat} (hi : i < 400) (hj : j < 400) (h : wideKey i = wideKey j) :
    i = j := by
  obtain ⟨hfirst, hrest⟩ := List.cons.inj h
  have hsecond := (List.cons.inj hrest).1
  have h₁ := congrArg UInt8.toNat hfirst
  have h₂ := congrArg UInt8.toNat hsecond
  rw [toNat_wideByte (by omega), toNat_wideByte (by omega)] at h₁ h₂
  omega

def wideList : SubKeyList :=
  .ofKeys ((List.range 400).map wideKey)
    (fun k hk => by
      obtain ⟨i, hi, rfl⟩ := List.mem_map.mp hk
      exact wideKey_clean (List.mem_range.mp hi))
    (List.Nodup.map_on
      (fun i hi j hj => wideKey_inj (List.mem_range.mp hi) (List.mem_range.mp hj))
      List.nodup_range)

theorem wideList_keys_perm : wideList.keys.Perm ((List.range 400).map wideKey) :=
  SubKeyList.ofKeys_perm _ _

theorem wideList_valueLen : wideList.valueLen = 51603 := by
  have hlen : (joinKeys ((List.range 400).map wideKey)).length = _ * (128 + 1) :=
    joinKeys_length_of_eq ?_
  · rw [List.length_map, List.length_range] at hlen
    rw [wideList, SubKeyList.ofKeys_valueLen _ _ ?_, hlen]
    exact List.ne_nil_of_length_pos (by rw [List.length_map, List.length_range]; omega)
  · intro k hk
    obtain ⟨i, -, rfl⟩ := List.mem_map.mp hk
    exact wideKey_length i

theorem short_not_mem : [97] ∉ wideList.set := by
  intro h
  obtain ⟨i, -, heq⟩ := List.mem_map.mp (wideList_keys_perm.mem_iff.mp (SubKeyList.mem_set.mp h))
  have hlen := congrArg List.length heq
  rw [wideKey_length] at hlen
  exact absurd hlen (by decide)

def wideSubKey (i : Nat) : FDHTSubKey := ⟨wideKey i, (wideKey_length i).le⟩

/-- A new key, and a key of the list 127 times. -/
def repeatedBatch : List FDHTSubKey :=
  ⟨[97], keyA_le⟩ :: List.replicate 127 (wideSubKey 0)

theorem repeatedBatch_keys :
    repeatedBatch.map FDHTSubKey.szKey = [97] :: List.replicate 127 (wideKey 0) := by
  rfl

theorem repeatedBatch_joinKeys :
    (joinKeys (repeatedBatch.map FDHTSubKey.szKey)).length = 16385 := by
  have hlen := joinKeys_cons_replicate [97] 127 (wideKey 0)
  rw [wideKey_length] at hlen
  exact hlen

theorem repeatedBatch_turns : (ListCall.batchAdd repeatedBatch).Turns wideList
    (wideList.insert [97] shortKey_clean short_not_mem) := by
  have hcount : wideList.keys.length = 400 := by
    rw [wideList_keys_perm.length_eq, List.length_map, List.length_range]
  have hmem : wideKey 0 ∈ wideList.keys :=
    wideList_keys_perm.mem_iff.mpr (List.mem_map_of_mem (List.mem_range.mpr (by decide)))
  have hkeys : ∀ k, k ∈ (ListCall.batchAdd repeatedBatch).keys ↔ k = [97] ∨ k = wideKey 0 := by
    intro k
    rw [ListCall.keys, repeatedBatch_keys, List.mem_cons, List.mem_replicate]
    exact or_congr_right (and_iff_right (by decide))
  refine ⟨?_, ?_, ?_, ?_, ?_⟩
  · intro k hk
    rcases (hkeys k).mp hk with rfl | rfl
    · exact shortKey_clean
    · exact wideKey_clean (by decide)
  · rw [hcount]
    decide
  · rw [SubKeyList.insert_length, hcount]
    decide
  · have hle := SubKeyList.insert_valueLen_le shortKey_clean short_not_mem
    rw [wideList_valueLen, List.length_singleton] at hle
    exact hle.trans_lt (by decide)
  · rw [SubKeyList.insert_set]
    ext k
    rw [Set.mem_insert_iff, ListCall.result, Set.mem_union, Set.mem_ofPred_eq, hkeys]
    constructor
    · rintro (h | h)
      · exact .inr (.inl h)
      · exact .inl h
    · rintro (h | h | h)
      · exact .inr h
      · exact .inl h
      · exact .inr (h ▸ SubKeyList.mem_set.mpr hmem)

/-- The result takes 51605 bytes, and the batch is refused. -/
theorem batch_add_refused :
    ¬ ∀ (g : Globals) (h : ReqHeader) (o : FDHTObjectInfo) (s : Server Bdb) (c : ListCall)
        (l l' : SubKeyList), bdbMap.Quiet s.store → c.keys.length ≤ fdhtMaxKeyCountPerReq →
      bdbMap.lookup s.store (bdbMap.listPlace h o.noKey) = l.value → c.Turns l l' →
        bdbMap.lookup (c.run bdbMap.toStoreFuncs g h o s).2.store =
          Function.update (bdbMap.lookup s.store) (bdbMap.listPlace h o.noKey) l'.value := by
  intro hall
  have hstored := hall oneGroup zeroHeader oneObject (listServer oneObject wideList)
    (.batchAdd repeatedBatch) wideList _ emptyBdb_quiet
    (by rw [ListCall.keys, repeatedBatch_keys, List.length_cons, List.length_replicate]; decide)
    (listServer_lookup _ _) repeatedBatch_turns
  rw [ListCall.run_stores_iff emptyBdb_quiet _ (listServer_lookup _ _),
    repeatedBatch_turns.stores_iff] at hstored
  rcases hstored with hsame | hone | hroom
  · refine short_not_mem ?_
    rw [← hsame, ListCall.result]
    refine .inr ?_
    exact List.mem_cons_self
  · rw [repeatedBatch, List.length_cons, List.length_replicate] at hone
    exact absurd hone (by decide)
  · rw [wideList_valueLen, repeatedBatch_joinKeys] at hroom
    exact absurd hroom (by decide)

end Refused

end FastDht
