import FastDht.Server.MpoolSoundness

/-! # The byte cap of a table

`max_bytes` is checked where memory is allocated: for a node and for a larger
array of buckets. `hash_init_ex` allocates the first array before it stores the cap.
From there on no operation takes the table above the larger of the cap and what it
used before. A table may also borrow its values (`is_malloc_value` false); its nodes
then have no value buffer. -/
namespace FastDht
open Lib

/-! ## Tables that may borrow their values -/

/-- `malloc_value_size` of a new node. -/
def newValueSize (isMallocValue : Bool) (valueLen : Nat) : Nat :=
  if isMallocValue then memAlign valueLen else 0

/-- `insertNode` in either kind of table. -/
def insertNodeAs (isMallocValue : Bool) (mem : Malloc) (h : HashArray) (key value : Bytes) :
    Int × HashArray :=
  let mallocValueSize := newValueSize isMallocValue value.length
  let bytes := calcNodeMallocBytes key.length mallocValueSize
  if 2 ^ 31 ≤ bytes then (-ENOMEM, h)
  else if 0 < h.maxBytes ∧ h.maxBytes < h.bytesUsed + bytes then (-ENOSPC, h)
  else if mem.node = false then (-ENOMEM, h)
  else
    let h := { h with bytesUsed := h.bytesUsed + bytes }
    let h := h.addToBucket ⟨key, value, mallocValueSize⟩
    if h.loadTest h.itemCount h.cap then (1, (rehash mem h).2) else (1, h)

/-- `hash_insert_ex`; a borrowed value is replaced by the new one. -/
def hashInsertExAs (isMallocValue : Bool) (mem : Malloc) (h : HashArray) (key value : Bytes) :
    Int × HashArray :=
  match hashFindEx h key with
  | some d =>
    if isMallocValue = false ∨ d.reuses value.length then (0, h.setValue key value)
    else insertNodeAs isMallocValue mem (h.deleteFromBucket d) key value
  | none => insertNodeAs isMallocValue mem h key value

/-- `hash_inc_ex`. -/
def hashIncExAs (isMallocValue : Bool) (mem : Malloc) (h : HashArray) (key : Bytes) (inc : Int)
    (valueLen : Nat) (convertFunc : ConvertValueFunc) : Int × HashArray :=
  let old := hashFindEx h key
  let value := convertFunc (old.map HashData.value) inc valueLen
  if old.any fun d => !isMallocValue || value.length ≤ d.mallocValueSize then
    (0, h.setValue key value)
  else insertStatus (hashInsertExAs isMallocValue mem h key value)

/-- `hash_partial_set`. -/
def hashPartialSetAs (isMallocValue : Bool) (mem : Malloc) (h : HashArray) (key value : Bytes)
    (offset : Int) : Int × HashArray :=
  match hashFindEx h key with
  | some d =>
    if offset < 0 ∨ (d.value.length : Int) ≤ offset then (EINVAL, h)
    else if offset.toNat + value.length ≤ d.value.length then
      (0, h.setValue key (writeAt d.value offset.toNat value))
    else if mem.newBuff = false then (ENOMEM, h)
    else insertStatus
      (hashInsertExAs isMallocValue mem h key (d.value.take offset.toNat ++ value))
  | none =>
    if offset ≠ 0 then (ENOENT, h)
    else insertStatus (hashInsertExAs isMallocValue mem h key value)

def HashOp.runAs (isMallocValue : Bool) (mem : Malloc) (h : HashArray) : HashOp → Int × HashArray
  | .insertEx key value => hashInsertExAs isMallocValue mem h key value
  | .incEx key inc valueLen convert => hashIncExAs isMallocValue mem h key inc valueLen convert
  | .partialSet key value offset => hashPartialSetAs isMallocValue mem h key value offset
  | .delete key => hashDelete h key
  | .clear currentTime tail => (0, h.clearExpired currentTime tail)

/-- The table after some operations; each has the answers of `malloc` with it. -/
def runTable (isMallocValue : Bool) (calls : List (Malloc × HashOp)) (h : HashArray) : HashArray :=
  calls.foldl (fun h c => (c.2.runAs isMallocValue c.1 h).2) h

/-! ## What an operation does to the counter -/

/-- Between two states of a table the counter does not pass the cap. -/
structure HashArray.Capped (h h' : HashArray) : Prop where
  maxBytes : h'.maxBytes = h.maxBytes
  bytesUsed : h'.bytesUsed ≤ max h.bytesUsed h.maxBytes

section Capped

variable {isMallocValue : Bool} {mem : Malloc} {h h' h'' : HashArray}

theorem HashArray.Capped.refl (h : HashArray) : h.Capped h := ⟨rfl, le_max_left _ _⟩

theorem HashArray.Capped.trans (h₁ : h.Capped h') (h₂ : h'.Capped h'') : h.Capped h'' := by
  refine ⟨h₂.maxBytes.trans h₁.maxBytes, h₂.bytesUsed.trans ?_⟩
  rw [h₁.maxBytes]
  exact max_le h₁.bytesUsed (le_max_right _ _)

theorem HashArray.capped_setValue (h : HashArray) (key value : Bytes) :
    h.Capped (h.setValue key value) := ⟨rfl, le_max_left _ _⟩

theorem HashArray.capped_deleteFromBucket (h : HashArray) (d : HashData) :
    h.Capped (h.deleteFromBucket d) := by
  refine ⟨rfl, le_max_of_le_left ?_⟩
  show h.bytesUsed - d.mallocBytes ≤ h.bytesUsed
  omega

theorem rehash_capped (hmax : 0 < h.maxBytes) : h.Capped (rehash mem h).2 := by
  by_cases hr : (rehash mem h).1 = 0
  · obtain ⟨b, hshape, hb⟩ := rehash_grown hr
    have hroom : h.bytesUsed + 8 * (primeArray.getD (h.capacity + 1) 0 : Nat) ≤ h.maxBytes := by
      unfold rehash rehash1 hashAllocBuckets at hr
      dsimp only at hr
      split_ifs at hr with hfull
      · simp [ENOSPC] at hr
      · simp [ENOMEM] at hr
      · have hfits := not_lt.mp fun hlt => hfull ⟨hmax, hlt⟩
        simpa [HashArray.cap] using hfits
    rw [hshape]
    refine ⟨rfl, le_max_of_le_right ?_⟩
    show b ≤ h.maxBytes
    omega
  · rw [rehash_fail hr]
    exact .refl h

theorem insertNodeAs_capped (hmax : 0 < h.maxBytes) (key value : Bytes) :
    h.Capped (insertNodeAs isMallocValue mem h key value).2 := by
  unfold insertNodeAs
  dsimp only
  split
  · exact .refl h
  split
  · exact .refl h
  split
  · exact .refl h
  rename_i hfull _
  obtain ⟨bytes, hbytes⟩ : ∃ bytes, bytes =
    calcNodeMallocBytes key.length (newValueSize isMallocValue value.length) := ⟨_, rfl⟩
  rw [← hbytes] at hfull ⊢
  obtain ⟨linked, hlinked⟩ : ∃ linked, linked = HashArray.addToBucket
    { h with bytesUsed := h.bytesUsed + bytes }
    ⟨key, value, newValueSize isMallocValue value.length⟩ := ⟨_, rfl⟩
  have hfirst : h.Capped linked := by
    rw [hlinked]
    refine ⟨rfl, le_max_of_le_right ?_⟩
    exact not_lt.mp fun hlt => hfull ⟨hmax, hlt⟩
  rw [← hlinked]
  split
  · exact hfirst.trans (rehash_capped (by rw [hfirst.maxBytes]; exact hmax))
  · exact hfirst

theorem hashInsertExAs_capped (hmax : 0 < h.maxBytes) (key value : Bytes) :
    h.Capped (hashInsertExAs isMallocValue mem h key value).2 := by
  unfold hashInsertExAs
  split
  · rename_i d _
    split
    · exact h.capped_setValue key value
    · exact (h.capped_deleteFromBucket d).trans
        (insertNodeAs_capped (show 0 < (h.deleteFromBucket d).maxBytes from hmax) key value)
  · exact insertNodeAs_capped hmax key value

/-- **An operation takes a table above its cap only from above it.** -/
theorem HashOp.capped (hmax : 0 < h.maxBytes) (op : HashOp) :
    h.Capped (op.runAs isMallocValue mem h).2 := by
  cases op with
  | insertEx key value => exact hashInsertExAs_capped hmax key value
  | incEx key inc valueLen convert =>
    simp only [runAs, hashIncExAs]
    split
    · exact h.capped_setValue _ _
    · exact hashInsertExAs_capped hmax _ _
  | partialSet key value offset =>
    simp only [runAs, hashPartialSetAs]
    split
    · split
      · exact .refl h
      split
      · exact h.capped_setValue _ _
      split
      · exact .refl h
      · exact hashInsertExAs_capped hmax _ _
    · split
      · exact .refl h
      · exact hashInsertExAs_capped hmax _ _
  | delete key =>
    simp only [runAs, hashDelete]
    split
    · exact h.capped_deleteFromBucket _
    · exact .refl h
  | clear currentTime tail =>
    simp only [runAs]
    rw [clearExpired_eq h currentTime tail rfl]
    refine ⟨rfl, le_max_of_le_left ?_⟩
    dsimp only
    omega

theorem runTable_capped (calls : List (Malloc × HashOp)) :
    ∀ {h : HashArray}, 0 < h.maxBytes → h.Capped (runTable isMallocValue calls h) := by
  induction calls with
  | nil => exact fun _ => .refl _
  | cons c calls ih =>
    intro h hmax
    have hfirst : h.Capped (c.2.runAs isMallocValue c.1 h).2 := HashOp.capped hmax c.2
    exact hfirst.trans (ih (by rw [hfirst.maxBytes]; exact hmax))

end Capped

/-! ## Whole runs -/

theorem hashInitEx_bytesUsed {mem : Malloc} {hashFunc : Bytes → Int} {capacity : Nat}
    {loadTest : Int → Nat → Bool} {maxBytes : Int} {h : HashArray}
    (hinit : hashInitEx mem hashFunc capacity loadTest maxBytes = .ok h) :
    h.maxBytes = maxBytes ∧
      h.bytesUsed = 8 * ((primeArray.find? fun p => capacity < p).getD 0 : Nat) := by
  unfold hashInitEx at hinit
  cases hidx : primeArray.findIdx? (fun p => decide (capacity < p)) with
  | none =>
    rw [hidx] at hinit
    cases hinit
  | some i =>
    have hfind : primeArray.find? (fun p => decide (capacity < p)) = primeArray[i]? := by
      rw [List.find?_eq_getElem?_findIdx, List.findIdx_eq_getD_findIdx?, hidx]
      rfl
    rw [hidx] at hinit
    simp only [hashAllocBuckets, lt_irrefl, false_and, if_false] at hinit
    split_ifs at hinit
    · simp [ENOMEM] at hinit
    · simp only [Except.ok.injEq] at hinit
      rw [hfind, ← hinit]
      refine ⟨rfl, ?_⟩
      simp [HashArray.cap]

/-- **A table stays within its cap in every run exactly if its first buckets do.** -/
theorem bytes_used_le_iff (isMallocValue : Bool) {mem : Malloc} {hashFunc : Bytes → Int}
    {capacity : Nat} {loadTest : Int → Nat → Bool} {maxBytes : Int} {h : HashArray}
    (hmax : 0 < maxBytes)
    (hinit : hashInitEx mem hashFunc capacity loadTest maxBytes = .ok h) :
    (∀ calls, (runTable isMallocValue calls h).bytesUsed ≤ maxBytes) ↔
      (8 * ((primeArray.find? fun p => capacity < p).getD 0 : Nat) : Int) ≤ maxBytes := by
  obtain ⟨hcap, hused⟩ := hashInitEx_bytesUsed hinit
  constructor
  · intro hall
    have hfirst := hall []
    rw [← hused]
    exact hfirst
  · intro hfits calls
    have hrun : h.Capped (runTable isMallocValue calls h) :=
      runTable_capped calls (by rw [hcap]; exact hmax)
    refine hrun.bytesUsed.trans (max_le ?_ ?_)
    · rw [hused]
      exact hfits
    · rw [hcap]

/-- A table without a load factor, with all the memory it asks for. -/
def cappedTable (capacity : Nat) (maxBytes : Int) : Except Int HashArray :=
  hashInitEx ⟨true, true, true⟩ (fun _ => 0) capacity (fun _ _ => false) maxBytes

theorem bytes_used_le_three_buckets :
    ∃ h, cappedTable 1 64 = .ok h ∧
      ∀ calls, (runTable true calls h).bytesUsed ≤ 64 :=
  ⟨_, rfl, (bytes_used_le_iff true (show (0 : Int) < 64 by decide)
    (show cappedTable 1 64 = .ok _ from rfl)).mpr (by decide)⟩

/-- Three buckets take 24 bytes, and the table may use one. -/
theorem bytes_used_above_cap :
    ¬ ∀ (isMallocValue : Bool) (mem : Malloc) (hashFunc : Bytes → Int) (capacity : Nat)
        (loadTest : Int → Nat → Bool) (maxBytes : Int) (h : HashArray)
        (calls : List (Malloc × HashOp)), 0 < maxBytes →
      hashInitEx mem hashFunc capacity loadTest maxBytes = .ok h →
        (runTable isMallocValue calls h).bytesUsed ≤ maxBytes := by
  intro hall
  have hle := hall true ⟨true, true, true⟩ (fun _ => 0) 1 (fun _ _ => false) 1 _ []
    (by decide) (show cappedTable 1 1 = .ok _ from rfl)
  exact absurd hle (by decide)

end FastDht
