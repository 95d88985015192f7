import FastDht.Common.HashSoundness

/-! # The nodes of the hash table

What an operation does to the node of its key, the size of its buffer included, to
the bytes in use and to its status. A later overwrite depends on that size, so the
map of the values does not determine what the next operation does; the map of the
nodes and the number of bytes do, in a table that does not grow. -/

namespace FastDht
open Lib

variable {h : HashArray}
variable {key value : Bytes} {mem : Malloc}

theorem HashInv.find_perm (hi : HashInv h) {l : List HashData} (hp : h.nodes.Perm l) (k : Bytes) :
    hashFindEx h k = findKey HashData.key l k := by
  rw [hi.find_eq, findKey_perm hp hi.nodup]

theorem HashInv.setValue_find (hi : HashInv h) {d : HashData}
    (hf : hashFindEx h key = some d) (hl : value.length ≤ d.mallocValueSize) (k : Bytes) :
    hashFindEx (h.setValue key value) k =
      if k = key then some { d with value := value } else hashFindEx h k := by
  obtain ⟨hk, rest, hnodes, hset, -⟩ := hi.found hf
  rw [(hi.setValue hf hl).1.find_perm (hset value), hi.find_perm hnodes, findKey_cons, findKey_cons,
    hk]
  by_cases hkk : key = k
  · rw [if_pos hkk, if_pos hkk.symm]
  · rw [if_neg hkk, if_neg hkk, if_neg (Ne.symm hkk)]

theorem HashInv.deleteFromBucket_find (hi : HashInv h) {d : HashData}
    (hf : hashFindEx h key = some d) (k : Bytes) :
    hashFindEx (h.deleteFromBucket d) k = if k = key then none else hashFindEx h k := by
  obtain ⟨hk, rest, hnodes, -, hdel⟩ := hi.found hf
  obtain ⟨hinv, hview⟩ := hi.deleteFromBucket hf
  by_cases hkk : k = key
  · rw [if_pos hkk]
    have hnone := hview k
    rw [if_pos hkk] at hnone
    exact Option.map_eq_none_iff.mp hnone
  · rw [if_neg hkk, hinv.find_perm hdel, hi.find_perm hnodes, findKey_cons, hk,
      if_neg (Ne.symm hkk)]

theorem find_self (h : HashArray) (key k : Bytes) :
    hashFindEx h k = if k = key then hashFindEx h key else hashFindEx h k := by
  by_cases hk : k = key
  · rw [if_pos hk, hk]
  · rw [if_neg hk]

/-! ## Operations on one node -/

/-- The status of an operation, and what it makes of the node of its key and of the bytes in
use. -/
structure NodeResult where
  status : Int
  node : Option HashData
  bytesUsed : Int

/-- The allocation and the linking of a node, with `used` bytes in use. -/
def linkNode (mem : Malloc) (maxBytes used : Int) (key value : Bytes) : NodeResult :=
  let bytes := calcNodeMallocBytes key.length (memAlign value.length)
  if 2 ^ 31 ≤ bytes then ⟨-ENOMEM, none, used⟩
  else if 0 < maxBytes ∧ maxBytes < used + bytes then ⟨-ENOSPC, none, used⟩
  else if mem.node = false then ⟨-ENOMEM, none, used⟩
  else ⟨1, some ⟨key, value, memAlign value.length⟩, used + bytes⟩

/-- `hash_insert_ex`. -/
def insertOnNode (mem : Malloc) (maxBytes used : Int) (key value : Bytes) :
    Option HashData → NodeResult
  | some d => if d.reuses value.length then ⟨0, some { d with value := value }, used⟩
      else linkNode mem maxBytes (used - d.mallocBytes) key value
  | none => linkNode mem maxBytes used key value

/-- The callers of `hash_insert_ex` turn its negative error into a status. -/
def NodeResult.toStatus (r : NodeResult) : NodeResult :=
  { r with status := if r.status < 0 then -r.status else 0 }

theorem NodeResult.toStatus_congr {r r' : NodeResult} (hs : r.status = r'.status) :
    r.toStatus.status = r'.toStatus.status := by
  rw [toStatus, toStatus, hs]

/-- `hash_inc_ex`. -/
def incOnNode (mem : Malloc) (maxBytes used : Int) (key : Bytes) (inc : Int) (valueLen : Nat)
    (convertFunc : ConvertValueFunc) (old : Option HashData) : NodeResult :=
  let value := convertFunc (old.map HashData.value) inc valueLen
  if old.any fun d => value.length ≤ d.mallocValueSize then
    ⟨0, old.map fun d => { d with value := value }, used⟩
  else (insertOnNode mem maxBytes used key value old).toStatus

/-- `hash_partial_set`. -/
def partialOnNode (mem : Malloc) (maxBytes used : Int) (key value : Bytes) (offset : Int)
    (old : Option HashData) : NodeResult :=
  match old with
  | some d =>
    if offset < 0 ∨ (d.value.length : Int) ≤ offset then ⟨EINVAL, old, used⟩
    else if offset.toNat + value.length ≤ d.value.length then
      ⟨0, some { d with value := writeAt d.value offset.toNat value }, used⟩
    else if mem.newBuff = false then ⟨ENOMEM, old, used⟩
    else (insertOnNode mem maxBytes used key (d.value.take offset.toNat ++ value) old).toStatus
  | none =>
    if offset ≠ 0 then ⟨ENOENT, none, used⟩
    else (insertOnNode mem maxBytes used key value none).toStatus

/-- `hash_delete`. -/
def deleteOnNode (used : Int) : Option HashData → NodeResult
  | some d => ⟨0, none, used - d.mallocBytes⟩
  | none => ⟨ENOENT, none, used⟩

/-! ## The status -/

theorem insertNode_status (mem : Malloc) (h : HashArray) (key value : Bytes) :
    (insertNode mem h key value).1 = (linkNode mem h.maxBytes h.bytesUsed key value).status := by
  unfold insertNode linkNode
  dsimp only
  split_ifs <;> rfl

theorem hashInsertEx_status (mem : Malloc) (h : HashArray) (key value : Bytes) :
    (hashInsertEx mem h key value).1 =
      (insertOnNode mem h.maxBytes h.bytesUsed key value (hashFindEx h key)).status := by
  unfold hashInsertEx insertOnNode
  cases hashFindEx h key with
  | some d =>
    dsimp only
    split_ifs
    · rfl
    · exact insertNode_status mem (h.deleteFromBucket d) key value
  | none => exact insertNode_status mem h key value

theorem hashIncEx_status (mem : Malloc) (h : HashArray) (key : Bytes) (inc : Int) (valueLen : Nat)
    (convert : ConvertValueFunc) : (hashIncEx mem h key inc valueLen convert).1 =
      (incOnNode mem h.maxBytes h.bytesUsed key inc valueLen convert
        (hashFindEx h key)).status := by
  unfold hashIncEx incOnNode NodeResult.toStatus
  dsimp only
  rw [← hashInsertEx_status]
  split_ifs <;> rfl

theorem hashPartialSet_status (mem : Malloc) (h : HashArray) (key value : Bytes) (offset : Int) :
    (hashPartialSet mem h key value offset).1 =
      (partialOnNode mem h.maxBytes h.bytesUsed key value offset (hashFindEx h key)).status := by
  unfold hashPartialSet partialOnNode
  cases hf : hashFindEx h key with
  | some d =>
    dsimp only
    split_ifs
    · rfl
    · rfl
    · rfl
    · rw [insertStatus, hashInsertEx_status, hf]
      rfl
  | none =>
    dsimp only
    split_ifs
    · rfl
    · rw [insertStatus, hashInsertEx_status, hf]
      rfl

theorem hashDelete_status (h : HashArray) (key : Bytes) :
    (hashDelete h key).1 = (deleteOnNode h.bytesUsed (hashFindEx h key)).status := by
  unfold hashDelete deleteOnNode
  cases hashFindEx h key <;> rfl

/-! ## The nodes and the bytes -/

/-- A table that does not grow: `hash_set_locks` refuses a load factor with which it could. -/
structure HashArray.Locked (h : HashArray) : Prop where
  inv : HashInv h
  capacity : h.capacity < primeArraySize
  stays : ∀ n c, h.loadTest n c = false

/-- A call has done to the node of its key what `r` says, and nothing to the others. -/
structure HashArray.Did (h : HashArray) (key : Bytes) (h' : HashArray) (r : NodeResult) : Prop where
  locked : h'.Locked
  maxBytes : h'.maxBytes = h.maxBytes
  find : ∀ k, hashFindEx h' k = if k = key then r.node else hashFindEx h k
  bytesUsed : h'.bytesUsed = r.bytesUsed

theorem HashArray.Did.same (hl : h.Locked) {r : NodeResult} (hnode : r.node = hashFindEx h key)
    (hused : r.bytesUsed = h.bytesUsed) : h.Did key h r where
  locked := hl
  maxBytes := rfl
  find := fun k => by rw [hnode, ← find_self]
  bytesUsed := hused.symm

theorem insertNode_did (hl : h.Locked) (hf : hashFindEx h key = none) :
    h.Did key (insertNode mem h key value).2
      (linkNode mem h.maxBytes h.bytesUsed key value) := by
  have hi := hl.inv
  unfold insertNode linkNode
  dsimp only
  split_ifs with h1 h2 h3 h4
  · exact .same hl hf.symm rfl
  · exact .same hl hf.symm rfl
  · exact .same hl hf.symm rfl
  · exact absurd (h4.symm.trans (hl.stays _ _)) (by decide)
  · have hinv := (hi.addToBucket (d := ⟨key, value, memAlign value.length⟩) hf (le_memAlign _)).1
    refine ⟨⟨hinv, hl.capacity, hl.stays⟩, rfl, fun k => ?_, rfl⟩
    refine (hinv.find_perm (push_flatten_perm (h.bucketIndex ∘ HashData.key) (hi.index_lt key))
      k).trans ?_
    rw [findKey_cons, hi.find_eq]
    exact if_congr eq_comm rfl rfl

theorem setValue_did (hl : h.Locked) {d : HashData} (hf : hashFindEx h key = some d)
    (hle : value.length ≤ d.mallocValueSize) (status : Int) :
    h.Did key (h.setValue key value) ⟨status, some { d with value := value }, h.bytesUsed⟩ where
  locked := ⟨(hl.inv.setValue hf hle).1, hl.capacity, hl.stays⟩
  maxBytes := rfl
  find := hl.inv.setValue_find hf hle
  bytesUsed := rfl

theorem deleteFromBucket_did (hl : h.Locked) {d : HashData} (hf : hashFindEx h key = some d)
    (status : Int) :
    h.Did key (h.deleteFromBucket d) ⟨status, none, h.bytesUsed - d.mallocBytes⟩ where
  locked := ⟨(hl.inv.deleteFromBucket hf).1, hl.capacity, hl.stays⟩
  maxBytes := rfl
  find := hl.inv.deleteFromBucket_find hf
  bytesUsed := rfl

theorem HashData.reuses_le {d : HashData} {n : Nat} (hu : d.reuses n = true) :
    n ≤ d.mallocValueSize := by
  simp only [HashData.reuses, Bool.and_eq_true, decide_eq_true_eq] at hu
  exact hu.1

theorem hashInsertEx_did (hl : h.Locked) (mem : Malloc) (key value : Bytes) :
    h.Did key (hashInsertEx mem h key value).2
      (insertOnNode mem h.maxBytes h.bytesUsed key value (hashFindEx h key)) := by
  unfold hashInsertEx insertOnNode
  cases hf : hashFindEx h key with
  | some d =>
    dsimp only
    split_ifs with hu
    · exact setValue_did hl hf (HashData.reuses_le hu) 0
    · have hdel := deleteFromBucket_did hl hf 0
      have hins : (h.deleteFromBucket d).Did key _
          (linkNode mem h.maxBytes (h.bytesUsed - d.mallocBytes) key value) :=
        insertNode_did hdel.locked ((hdel.find key).trans (if_pos rfl))
      refine ⟨hins.locked, hins.maxBytes.trans hdel.maxBytes, fun k => ?_, hins.bytesUsed⟩
      rw [hins.find, hdel.find]
      by_cases hk : k = key
      · rw [if_pos hk, if_pos hk]
      · rw [if_neg hk, if_neg hk, if_neg hk]
  | none => exact insertNode_did hl hf

theorem hashIncEx_did (hl : h.Locked) (mem : Malloc) (key : Bytes) (inc : Int) (valueLen : Nat)
    (convert : ConvertValueFunc) : h.Did key (hashIncEx mem h key inc valueLen convert).2.2
      (incOnNode mem h.maxBytes h.bytesUsed key inc valueLen convert (hashFindEx h key)) := by
  obtain ⟨value, hvalue⟩ : ∃ value,
      value = convert ((hashFindEx h key).map HashData.value) inc valueLen := ⟨_, rfl⟩
  have hins := hashInsertEx_did hl mem key value
  unfold hashIncEx incOnNode
  dsimp only
  rw [← hvalue]
  by_cases hplace : ((hashFindEx h key).any fun d => value.length ≤ d.mallocValueSize) = true
  · obtain ⟨d, hf, hle⟩ := (Option.any_eq_true _ _).mp hplace
    rw [if_pos hplace, if_pos hplace, hf]
    exact setValue_did hl hf (of_decide_eq_true hle) 0
  · rw [if_neg hplace, if_neg hplace]
    split_ifs
    · exact ⟨hins.locked, hins.maxBytes, hins.find, hins.bytesUsed⟩
    · exact ⟨hins.locked, hins.maxBytes, hins.find, hins.bytesUsed⟩

theorem hashPartialSet_did (hl : h.Locked) (mem : Malloc) (key value : Bytes) (offset : Int) :
    h.Did key (hashPartialSet mem h key value offset).2
      (partialOnNode mem h.maxBytes h.bytesUsed key value offset (hashFindEx h key)) := by
  unfold hashPartialSet partialOnNode
  cases hf : hashFindEx h key with
  | some d =>
    dsimp only
    split_ifs with h1 h2 h3
    · exact .same hl hf.symm rfl
    · have hfit := hl.inv.fits d (by
        rw [hl.inv.find_eq] at hf
        exact ((findKey_eq_some hl.inv.nodup).mp hf).1)
      exact setValue_did hl hf (by rw [writeAt_length h2]; exact hfit) 0
    · exact .same hl hf.symm rfl
    · have hins := hashInsertEx_did hl mem key (d.value.take offset.toNat ++ value)
      rw [hf] at hins
      exact ⟨hins.locked, hins.maxBytes, hins.find, hins.bytesUsed⟩
  | none =>
    dsimp only
    split_ifs
    · exact .same hl hf.symm rfl
    · have hins := hashInsertEx_did hl mem key value
      rw [hf] at hins
      exact ⟨hins.locked, hins.maxBytes, hins.find, hins.bytesUsed⟩

theorem hashDelete_did (hl : h.Locked) (key : Bytes) :
    h.Did key (hashDelete h key).2 (deleteOnNode h.bytesUsed (hashFindEx h key)) := by
  unfold hashDelete deleteOnNode
  cases hf : hashFindEx h key with
  | some d => exact deleteFromBucket_did hl hf 0
  | none => exact .same hl hf.symm rfl

/-! ## With more bytes in use -/

/-- The same outcome with `f` more bytes in use before and after. -/
structure NodeResult.Shifted (r r' : NodeResult) (f : Int) : Prop where
  node : r'.node = r.node
  bytesUsed : r'.bytesUsed = r.bytesUsed + f

theorem linkNode_shifted {maxBytes used f : Int}
    (hs : (linkNode mem maxBytes (used + f) key value).toStatus.status =
      (linkNode mem maxBytes used key value).toStatus.status) :
    (linkNode mem maxBytes used key value).Shifted
      (linkNode mem maxBytes (used + f) key value) f := by
  obtain ⟨bytes, hbytes⟩ : ∃ bytes, bytes = calcNodeMallocBytes key.length (memAlign value.length) :=
    ⟨_, rfl⟩
  unfold linkNode at hs ⊢
  simp only [← hbytes] at hs ⊢
  by_cases h1 : 2 ^ 31 ≤ bytes
  · simp only [if_pos h1]
    exact ⟨rfl, rfl⟩
  simp only [if_neg h1] at hs ⊢
  -- where the two tests of the cap differ, so do the statuses
  by_cases h2 : 0 < maxBytes ∧ maxBytes < used + bytes
  · by_cases h3 : 0 < maxBytes ∧ maxBytes < used + f + bytes
    · simp only [if_pos h2, if_pos h3]
      exact ⟨rfl, rfl⟩
    · simp only [if_pos h2, if_neg h3] at hs
      split at hs <;> simp [NodeResult.toStatus, ENOSPC, ENOMEM] at hs
  · by_cases h3 : 0 < maxBytes ∧ maxBytes < used + f + bytes
    · simp only [if_neg h2, if_pos h3] at hs
      split at hs <;> simp [NodeResult.toStatus, ENOSPC, ENOMEM] at hs
    · simp only [if_neg h2, if_neg h3]
      split
      · exact ⟨rfl, rfl⟩
      · exact ⟨rfl, by dsimp only; omega⟩

theorem insertOnNode_shifted {maxBytes used f : Int} {old : Option HashData}
    (hs : (insertOnNode mem maxBytes (used + f) key value old).toStatus.status =
      (insertOnNode mem maxBytes used key value old).toStatus.status) :
    (insertOnNode mem maxBytes used key value old).Shifted
      (insertOnNode mem maxBytes (used + f) key value old) f := by
  cases old with
  | some d =>
    unfold insertOnNode at hs ⊢
    dsimp only at hs ⊢
    split_ifs at hs ⊢
    · exact ⟨rfl, rfl⟩
    · rw [show used + f - d.mallocBytes = used - d.mallocBytes + f by omega] at hs ⊢
      exact linkNode_shifted hs
  | none => exact linkNode_shifted hs

theorem incOnNode_shifted {maxBytes used f inc : Int} {valueLen : Nat} {convert : ConvertValueFunc}
    {old : Option HashData}
    (hs : (incOnNode mem maxBytes (used + f) key inc valueLen convert old).status =
      (incOnNode mem maxBytes used key inc valueLen convert old).status) :
    (incOnNode mem maxBytes used key inc valueLen convert old).Shifted
      (incOnNode mem maxBytes (used + f) key inc valueLen convert old) f := by
  unfold incOnNode at hs ⊢
  dsimp only at hs ⊢
  split_ifs at hs ⊢
  · exact ⟨rfl, rfl⟩
  · obtain ⟨hnode, hused⟩ := insertOnNode_shifted hs
    exact ⟨hnode, hused⟩

theorem partialOnNode_shifted {maxBytes used f offset : Int} {old : Option HashData}
    (hs : (partialOnNode mem maxBytes (used + f) key value offset old).status =
      (partialOnNode mem maxBytes used key value offset old).status) :
    (partialOnNode mem maxBytes used key value offset old).Shifted
      (partialOnNode mem maxBytes (used + f) key value offset old) f := by
  cases old with
  | some d =>
    unfold partialOnNode at hs ⊢
    dsimp only at hs ⊢
    split_ifs at hs ⊢
    · exact ⟨rfl, rfl⟩
    · exact ⟨rfl, rfl⟩
    · exact ⟨rfl, rfl⟩
    · obtain ⟨hnode, hused⟩ := insertOnNode_shifted hs
      exact ⟨hnode, hused⟩
  | none =>
    unfold partialOnNode at hs ⊢
    dsimp only at hs ⊢
    split_ifs at hs ⊢
    · exact ⟨rfl, rfl⟩
    · obtain ⟨hnode, hused⟩ := insertOnNode_shifted hs
      exact ⟨hnode, hused⟩

theorem deleteOnNode_shifted (used f : Int) (old : Option HashData) :
    (deleteOnNode used old).Shifted (deleteOnNode (used + f) old) f := by
  cases old with
  | some d => exact ⟨rfl, by simp only [deleteOnNode]; omega⟩
  | none => exact ⟨rfl, rfl⟩

end FastDht
