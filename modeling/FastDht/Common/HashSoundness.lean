import FastDht.Common.Hash
import Mathlib.Algebra.BigOperators.Group.List.Basic

/-! # The hash table keeps its invariant and behaves as a finite map

`HashInv` is the invariant of the table: placement, distinct keys, the two
counters and the buffer sizes. Each operation has one specification: it keeps
the invariant and changes the map `HashArray.view` in a stated way. The rest of
the development uses these specifications and never opens a chain again. -/
namespace FastDht
open Lib

variable {h : HashArray} {key value : Bytes} {d : HashData} {mem : Malloc}

structure HashInv (h : HashArray) : Prop where
  capPos : 0 < h.cap
  length : h.buckets.length = h.cap
  placed : Placed (h.bucketIndex ∘ HashData.key) h.buckets
  nodup : (h.nodes.map HashData.key).Nodup
  count : h.itemCount = h.nodes.length
  bytes : h.bytesUsed = 8 * h.cap + ((h.nodes.map HashData.mallocBytes).sum : Nat)
  fits : ∀ d ∈ h.nodes, d.value.length ≤ d.mallocValueSize

/-- The value a key has in a list of nodes. -/
def nodeView (l : List HashData) (k : Bytes) : Option Bytes :=
  (findKey HashData.key l k).map HashData.value

def HashArray.view (h : HashArray) (k : Bytes) : Option Bytes := (hashFindEx h k).map HashData.value

theorem nodeView_cons (d : HashData) (l : List HashData) (k : Bytes) :
    nodeView (d :: l) k = if d.key = k then some d.value else nodeView l k := by
  unfold nodeView; rw [findKey_cons]; split <;> rfl

theorem nodeView_perm {l l' : List HashData} (hp : l.Perm l')
    (hn : (l.map HashData.key).Nodup) (k : Bytes) : nodeView l k = nodeView l' k := by
  unfold nodeView; rw [findKey_perm hp hn]

theorem primeArray_pos {i : Nat} (h : i < primeArraySize) : 0 < primeArray.getD i 0 := by
  have hall : ∀ p ∈ primeArray, 0 < p := by decide
  rw [List.getD_eq_getElem _ _ (show i < primeArray.length from h)]
  exact hall _ (List.getElem_mem _)

theorem HashInv.find_eq (hi : HashInv h) (k : Bytes) :
    hashFindEx h k = findKey HashData.key h.nodes k :=
  findKey_chainAt hi.placed hi.nodup k

theorem HashInv.index_lt (hi : HashInv h) (k : Bytes) :
    h.bucketIndex k < h.buckets.length := by
  rw [hi.length]; exact Nat.mod_lt _ hi.capPos

theorem HashInv.view_eq (hi : HashInv h) {l : List HashData}
    (hp : h.nodes.Perm l) (k : Bytes) : h.view k = nodeView l k := by
  unfold HashArray.view
  rw [hi.find_eq, ← nodeView_perm hp hi.nodup]
  rfl

theorem HashInv.of_nodes {l : List HashData} (hp : h.nodes.Perm l)
    (capPos : 0 < h.cap) (length : h.buckets.length = h.cap)
    (placed : Placed (h.bucketIndex ∘ HashData.key) h.buckets)
    (nodup : (l.map HashData.key).Nodup) (count : h.itemCount = l.length)
    (bytes : h.bytesUsed = 8 * h.cap + ((l.map HashData.mallocBytes).sum : Nat))
    (fits : ∀ d ∈ l, d.value.length ≤ d.mallocValueSize) : HashInv h where
  capPos := capPos
  length := length
  placed := placed
  nodup := (hp.map _).nodup_iff.mpr nodup
  count := by rw [count, hp.length_eq]
  bytes := by rw [bytes, (hp.map HashData.mallocBytes).sum_eq]
  fits := fun d hd => fits d (hp.mem_iff.mp hd)

/-! ## One node of a chain -/

theorem chainSetValue_split {pre post : List HashData}
    (hk : d.key = key) (hpre : ∀ e ∈ pre, e.key ≠ key) :
    chainSetValue key value (pre ++ d :: post) = pre ++ { d with value := value } :: post := by
  induction pre with
  | nil => simp [chainSetValue, hk]
  | cons e pre ih =>
    have he : e.key ≠ key := hpre e (by simp)
    simp only [List.cons_append, chainSetValue, if_neg he]
    rw [ih fun b hb => hpre b (by simp [hb])]

theorem eraseP_split {pre post : List HashData} (hk : d.key = key) (hpre : ∀ e ∈ pre, e.key ≠ key) :
    (pre ++ d :: post).eraseP (fun e => e.key = key) = pre ++ post := by
  rw [List.eraseP_append_right _ (fun e he => by simpa using hpre e he)]
  simp [hk]

/-- A found node and the rest of the table: the update rewrites the node, the
deletion drops it, and neither touches the rest. -/
theorem HashInv.found (hi : HashInv h) (hf : hashFindEx h key = some d) :
    d.key = key ∧ ∃ rest, h.nodes.Perm (d :: rest) ∧
      (∀ value, (h.setValue key value).nodes.Perm ({ d with value := value } :: rest)) ∧
      (h.deleteFromBucket d).nodes.Perm rest := by
  obtain ⟨hk, pre, post, hchain, hpre⟩ := findKey_split hf
  have hlt := hi.index_lt key
  obtain ⟨hnodes, hset⟩ := flatten_set_perm hlt
  refine ⟨hk, (pre ++ post) ++ (h.buckets.eraseIdx (h.bucketIndex key)).flatten, ?_, ?_, ?_⟩
  · rw [hchain] at hnodes
    exact hnodes.trans (by simp)
  · intro value
    refine (hset _).trans ?_
    rw [hchain, chainSetValue_split hk hpre]
    simp
  · unfold HashArray.nodes HashArray.deleteFromBucket
    simp only [hk]
    refine (hset _).trans ?_
    rw [hchain, eraseP_split hk hpre]

theorem chainSetValue_key {c : List HashData} :
    ∀ e ∈ chainSetValue key value c, ∃ d ∈ c, d.key = e.key := by
  induction c with
  | nil => simp [chainSetValue]
  | cons d c ih =>
    intro e he
    simp only [chainSetValue] at he
    split at he
    · rcases List.mem_cons.mp he with rfl | he
      · exact ⟨d, by simp, rfl⟩
      · exact ⟨e, by simp [he], rfl⟩
    · rcases List.mem_cons.mp he with rfl | he
      · exact ⟨e, by simp, rfl⟩
      · obtain ⟨d', hd', hk⟩ := ih e he
        exact ⟨d', by simp [hd'], hk⟩

theorem HashInv.setValue (hi : HashInv h)
    (hf : hashFindEx h key = some d) (hl : value.length ≤ d.mallocValueSize) :
    HashInv (h.setValue key value) ∧
      ∀ k, (h.setValue key value).view k = if k = key then some value else h.view k := by
  obtain ⟨hk, rest, hnodes, hset, _⟩ := hi.found hf
  have hnodup := (hnodes.map HashData.key).nodup_iff.mp hi.nodup
  have hinv : HashInv (h.setValue key value) := by
    refine .of_nodes (hset value) hi.capPos (by simp [HashArray.setValue, hi.length, HashArray.cap])
      ?_ hnodup ?_ ?_ ?_
    · refine hi.placed.set ?_
      intro e he
      obtain ⟨e', he', hek⟩ := chainSetValue_key e he
      simpa [← hek] using hi.placed _ e' he'
    · exact hi.count.trans (by rw [hnodes.length_eq]; rfl)
    · exact hi.bytes.trans (by rw [(hnodes.map HashData.mallocBytes).sum_eq]; rfl)
    · intro e he
      rcases List.mem_cons.mp he with rfl | he
      · exact hl
      · exact hi.fits e (hnodes.mem_iff.mpr (by simp [he]))
  refine ⟨hinv, fun k => ?_⟩
  rw [hinv.view_eq (hset value), hi.view_eq hnodes, nodeView_cons, nodeView_cons, hk]
  by_cases hkk : key = k
  · simp [hkk]
  · simp [hkk, Ne.symm hkk]

theorem HashInv.deleteFromBucket (hi : HashInv h) (hf : hashFindEx h key = some d) :
    HashInv (h.deleteFromBucket d) ∧
      ∀ k, (h.deleteFromBucket d).view k = if k = key then none else h.view k := by
  obtain ⟨hk, rest, hnodes, _, hdel⟩ := hi.found hf
  have hnodup := (hnodes.map HashData.key).nodup_iff.mp hi.nodup
  obtain ⟨hfresh, hnodup⟩ := List.nodup_cons.mp hnodup
  have hinv : HashInv (h.deleteFromBucket d) := by
    refine .of_nodes hdel hi.capPos
      (by simp [HashArray.deleteFromBucket, hi.length, HashArray.cap]) ?_ hnodup ?_ ?_ ?_
    · refine hi.placed.set ?_
      exact fun e he => hi.placed _ e (List.mem_of_mem_eraseP he)
    · have hc := hi.count
      rw [hnodes.length_eq, List.length_cons] at hc
      change h.itemCount - 1 = _
      omega
    · have hb := hi.bytes
      rw [(hnodes.map HashData.mallocBytes).sum_eq, List.map_cons, List.sum_cons] at hb
      change h.bytesUsed - (d.mallocBytes : Int) = 8 * (h.cap : Int) + _
      omega
    · exact fun e he => hi.fits e (hnodes.mem_iff.mpr (by simp [he]))
  refine ⟨hinv, fun k => ?_⟩
  rw [hinv.view_eq hdel, hi.view_eq hnodes, nodeView_cons, hk]
  by_cases hkk : key = k
  · subst hkk
    have hnone : findKey HashData.key rest key = none := by
      rw [findKey_eq_none]
      intro e he hek
      exact hfresh (List.mem_map.mpr ⟨e, he, hek.trans hk.symm⟩)
    simp [nodeView, hnone]
  · simp [hkk, Ne.symm hkk]

theorem HashInv.addToBucket (hi : HashInv h)
    (hf : hashFindEx h d.key = none) (hl : d.value.length ≤ d.mallocValueSize) :
    HashInv ({ h with bytesUsed := h.bytesUsed + d.mallocBytes }.addToBucket d) ∧
      ∀ k, ({ h with bytesUsed := h.bytesUsed + d.mallocBytes }.addToBucket d).view k =
        if k = d.key then some d.value else h.view k := by
  have hnodes : ({ h with bytesUsed := h.bytesUsed + d.mallocBytes }.addToBucket d).nodes.Perm
      (d :: h.nodes) := push_flatten_perm (h.bucketIndex ∘ HashData.key) (hi.index_lt d.key)
  have hfresh : d.key ∉ h.nodes.map HashData.key := by
    rw [hi.find_eq, findKey_eq_none] at hf
    intro hm
    obtain ⟨e, he, hek⟩ := List.mem_map.mp hm
    exact hf e he hek
  have hinv : HashInv ({ h with bytesUsed := h.bytesUsed + d.mallocBytes }.addToBucket d) := by
    refine .of_nodes hnodes hi.capPos
      (by simp [HashArray.addToBucket, push_length, hi.length, HashArray.cap])
      (hi.placed.push d)
      (List.nodup_cons.mpr ⟨hfresh, hi.nodup⟩) ?_ ?_ ?_
    · have hc := hi.count
      change h.itemCount + 1 = _
      rw [List.length_cons]; omega
    · have hb := hi.bytes
      change h.bytesUsed + (d.mallocBytes : Int) = 8 * (h.cap : Int) + _
      rw [List.map_cons, List.sum_cons]; omega
    · intro e he
      rcases List.mem_cons.mp he with rfl | he
      · exact hl
      · exact hi.fits e he
  refine ⟨hinv, fun k => ?_⟩
  rw [hinv.view_eq hnodes, nodeView_cons, hi.view_eq (List.Perm.refl _)]
  by_cases hkk : d.key = k
  · simp [hkk]
  · simp [hkk, Ne.symm hkk]

/-! ## Growing the table -/

theorem foldl_addToBucket (l : List HashData) : ∀ h : HashArray,
    l.foldl HashArray.addToBucket h =
      { h with
        buckets := l.foldl (push (fun d => h.bucketIndex d.key)) h.buckets
        itemCount := h.itemCount + l.length } := by
  induction l with
  | nil => intro h; simp
  | cons d l ih =>
    intro h
    rw [List.foldl_cons, ih, List.foldl_cons]
    have hidx : (fun e : HashData => (h.addToBucket d).bucketIndex e.key) =
        fun e => h.bucketIndex e.key := rfl
    rw [hidx]
    simp only [HashArray.addToBucket, List.length_cons, HashArray.mk.injEq, true_and, and_true]
    omega

theorem rehash_fail (hr : (rehash mem h).1 ≠ 0) :
    (rehash mem h).2 = h := by
  unfold rehash rehash1 hashAllocBuckets at hr ⊢
  dsimp only at hr ⊢
  split_ifs at hr ⊢ <;> simp_all [ENOSPC, ENOMEM]

theorem rehash_grown (hr : (rehash mem h).1 = 0) :
    ∃ b, (rehash mem h).2 = { h with
        capacity := h.capacity + 1
        buckets := h.nodes.foldl (push fun d =>
            toUInt32 (h.hashFunc d.key) % primeArray.getD (h.capacity + 1) 0)
          (List.replicate (primeArray.getD (h.capacity + 1) 0) [])
        itemCount := 0 + h.nodes.length
        bytesUsed := b } ∧
      b = h.bytesUsed + 8 * (primeArray.getD (h.capacity + 1) 0 : Nat) - 8 * (h.cap : Int) := by
  have hshape : ∃ b, (rehash mem h).2 = h.nodes.foldl HashArray.addToBucket
      { h with
        capacity := h.capacity + 1
        buckets := List.replicate (primeArray.getD (h.capacity + 1) 0) []
        itemCount := 0
        bytesUsed := b } ∧
      b = h.bytesUsed + 8 * (primeArray.getD (h.capacity + 1) 0 : Nat) - 8 * (h.cap : Int) := by
    unfold rehash rehash1 hashAllocBuckets at hr ⊢
    dsimp only at hr ⊢
    split_ifs at hr ⊢
    · simp [ENOSPC] at hr
    · simp [ENOMEM] at hr
    · exact ⟨_, rfl, by simp [HashArray.cap]⟩
  obtain ⟨b, hshape, hb⟩ := hshape
  rw [foldl_addToBucket] at hshape
  exact ⟨b, hshape, hb⟩

theorem HashInv.rehash (hi : HashInv h) (hc : (rehash mem h).2.capacity < primeArraySize) :
    HashInv (rehash mem h).2 ∧ ∀ k, (FastDht.rehash mem h).2.view k = h.view k := by
  by_cases hr : (FastDht.rehash mem h).1 = 0
  · obtain ⟨b, hshape, hb⟩ := rehash_grown hr
    have hpos : 0 < primeArray.getD (h.capacity + 1) 0 := primeArray_pos (by rw [hshape] at hc; exact hc)
    obtain ⟨hperm, hplaced, hlen⟩ := distribute_spec
      (fun d : HashData => toUInt32 (h.hashFunc d.key) % primeArray.getD (h.capacity + 1) 0)
      (n := primeArray.getD (h.capacity + 1) 0) (l := h.nodes) fun d _ => Nat.mod_lt _ hpos
    have hnodes : (FastDht.rehash mem h).2.nodes.Perm h.nodes := by rw [hshape]; exact hperm
    have hinv : HashInv (FastDht.rehash mem h).2 := by
      refine .of_nodes hnodes ?_ ?_ ?_ hi.nodup ?_ ?_ hi.fits <;> rw [hshape]
      · exact hpos
      · exact hlen
      · exact hplaced
      · exact Int.zero_add _
      · have := hi.bytes
        simp only [HashArray.cap] at hb this ⊢
        omega
    exact ⟨hinv, fun k => (hinv.view_eq hnodes k).trans (hi.view_eq (List.Perm.refl _) k).symm⟩
  · rw [rehash_fail hr]
    exact ⟨hi, fun _ => rfl⟩

/-! ## The operations -/

/-- The conditions under which `hash_insert_ex` refuses to allocate a node,
with `bytesUsed` bytes in use: the size overflows, the byte cap would be
exceeded, or `malloc` fails. -/
def HashArray.refuses (mem : Malloc) (h : HashArray) (bytesUsed : Int) (key value : Bytes) : Prop :=
  2 ^ 31 ≤ calcNodeMallocBytes key.length (memAlign value.length) ∨
    (0 < h.maxBytes ∧
      h.maxBytes < bytesUsed + calcNodeMallocBytes key.length (memAlign value.length)) ∨
    mem.node = false

instance (mem : Malloc) (h : HashArray) (bytesUsed : Int) (key value : Bytes) :
    Decidable (h.refuses mem bytesUsed key value) :=
  inferInstanceAs (Decidable (_ ∨ _ ∨ _))

theorem insertNode_refused (hr : h.refuses mem h.bytesUsed key value) :
    ((insertNode mem h key value).1 = -ENOSPC ∨ (insertNode mem h key value).1 = -ENOMEM) ∧
      (insertNode mem h key value).2 = h := by
  unfold insertNode
  dsimp only
  split_ifs with h1 h2 h3 h4
  · exact ⟨.inr rfl, rfl⟩
  · exact ⟨.inl rfl, rfl⟩
  · exact ⟨.inr rfl, rfl⟩
  · exact absurd hr (by simp only [HashArray.refuses, not_or]; exact ⟨h1, h2, h3⟩)
  · exact absurd hr (by simp only [HashArray.refuses, not_or]; exact ⟨h1, h2, h3⟩)

theorem le_memAlign (n : Nat) : n ≤ memAlign n := by unfold memAlign; omega

theorem insertNode_code
    (hr : ¬ h.refuses mem h.bytesUsed key value) : (insertNode mem h key value).1 = 1 := by
  simp only [HashArray.refuses, not_or] at hr
  obtain ⟨h1, h2, h3⟩ := hr
  unfold insertNode
  simp only [if_neg h1, if_neg h2, if_neg h3]
  split <;> rfl

theorem HashInv.insertNode (hi : HashInv h)
    (hf : hashFindEx h key = none) (hr : ¬ h.refuses mem h.bytesUsed key value)
    (hc : (insertNode mem h key value).2.capacity < primeArraySize) :
    HashInv (FastDht.insertNode mem h key value).2 ∧
      ∀ k, (FastDht.insertNode mem h key value).2.view k = if k = key then some value else h.view k := by
  simp only [HashArray.refuses, not_or] at hr
  obtain ⟨h1, h2, h3⟩ := hr
  obtain ⟨hinv, hview⟩ := hi.addToBucket (d := ⟨key, value, memAlign value.length⟩) hf
    (le_memAlign _)
  unfold FastDht.insertNode at hc ⊢
  simp only [if_neg h1, if_neg h2, if_neg h3] at hc ⊢
  split at hc
  · rename_i hload
    rw [if_pos hload]
    obtain ⟨hinv', hview'⟩ := hinv.rehash hc
    exact ⟨hinv', fun k => (hview' k).trans (hview k)⟩
  · rename_i hload
    rw [if_neg hload]
    exact ⟨hinv, hview⟩

/-- `hash_insert_ex` refuses the value: its node must be allocated, next to
everything but the old node of the key, and cannot be. -/
def insertRefused (mem : Malloc) (h : HashArray) (key value : Bytes) : Prop :=
  match hashFindEx h key with
  | some d => d.reuses value.length = false ∧
      h.refuses mem (h.bytesUsed - d.mallocBytes) key value
  | none => h.refuses mem h.bytesUsed key value

theorem hashInsertEx_refused (hi : HashInv h) (hr : insertRefused mem h key value) :
    ((hashInsertEx mem h key value).1 = -ENOSPC ∨ (hashInsertEx mem h key value).1 = -ENOMEM) ∧
      HashInv (hashInsertEx mem h key value).2 ∧
      ∀ k, (hashInsertEx mem h key value).2.view k = if k = key then none else h.view k := by
  unfold insertRefused at hr
  unfold hashInsertEx
  cases hf : hashFindEx h key with
  | some d =>
    simp only [hf] at hr
    obtain ⟨hcode, hsame⟩ := insertNode_refused (h := h.deleteFromBucket d) hr.2
    obtain ⟨hinv, hview⟩ := hi.deleteFromBucket hf
    simp only [hr.1, Bool.false_eq_true, if_false]
    exact ⟨hcode, by rwa [hsame], by rwa [hsame]⟩
  | none =>
    simp only [hf] at hr
    obtain ⟨hcode, hsame⟩ := insertNode_refused hr
    refine ⟨hcode, by rwa [hsame], fun k => ?_⟩
    rw [hsame]
    by_cases hk : k = key
    · simp [hk, HashArray.view, hf]
    · simp [hk]

theorem hashInsertEx_done (hi : HashInv h) (hr : ¬ insertRefused mem h key value)
    (hc : (hashInsertEx mem h key value).2.capacity < primeArraySize) :
    HashInv (hashInsertEx mem h key value).2 ∧
      ∀ k, (hashInsertEx mem h key value).2.view k = if k = key then some value else h.view k := by
  unfold insertRefused at hr
  unfold hashInsertEx at hc ⊢
  cases hf : hashFindEx h key with
  | some d =>
    simp only [hf] at hr hc ⊢
    by_cases hu : d.reuses value.length = true
    · simp only [hu, if_true]
      have hl : value.length ≤ d.mallocValueSize := by
        simp only [HashData.reuses, Bool.and_eq_true, decide_eq_true_eq] at hu
        exact hu.1
      exact hi.setValue hf hl
    · rw [if_neg hu] at hc ⊢
      obtain ⟨hinv, hview⟩ := hi.deleteFromBucket hf
      have hgone : hashFindEx (h.deleteFromBucket d) key = none := by
        simpa [HashArray.view] using hview key
      obtain ⟨hinv', hview'⟩ := hinv.insertNode hgone
        (fun href => hr ⟨by simpa using hu, href⟩) hc
      refine ⟨hinv', fun k => ?_⟩
      rw [hview', hview]
      by_cases hk : k = key <;> simp [hk]
  | none =>
    simp only [hf] at hr hc ⊢
    exact hi.insertNode hf hr hc

theorem hashInsertEx_code
    (hr : ¬ insertRefused mem h key value) : 0 ≤ (hashInsertEx mem h key value).1 := by
  unfold insertRefused at hr
  unfold hashInsertEx
  cases hf : hashFindEx h key with
  | some d =>
    simp only [hf] at hr ⊢
    by_cases hu : d.reuses value.length = true
    · simp [hu]
    · have hcode := insertNode_code (h := h.deleteFromBucket d) fun href =>
        hr ⟨by simpa using hu, href⟩
      rw [if_neg hu, hcode]
      decide
  | none =>
    simp only [hf] at hr ⊢
    rw [insertNode_code hr]
    decide

theorem HashInv.hashDelete (hi : HashInv h) (key : Bytes) :
    HashInv (hashDelete h key).2 ∧
      (∀ k, (FastDht.hashDelete h key).2.view k = if k = key then none else h.view k) ∧
      ((FastDht.hashDelete h key).1 = 0 ↔ (h.view key).isSome) := by
  unfold FastDht.hashDelete
  cases hf : hashFindEx h key with
  | some d =>
    obtain ⟨hinv, hview⟩ := hi.deleteFromBucket hf
    exact ⟨hinv, hview, by simp [HashArray.view, hf]⟩
  | none =>
    refine ⟨hi, fun k => ?_, by simp [HashArray.view, hf, ENOENT]⟩
    by_cases hk : k = key
    · simp [hk, HashArray.view, hf]
    · simp [hk]

theorem insertStatus_cases (mem : Malloc) (hi : HashInv h) (key value : Bytes) :
    (insertRefused mem h key value ∧ (hashInsertEx mem h key value).1 < 0 ∧
      ((insertStatus (hashInsertEx mem h key value)).1 = ENOSPC ∨
        (insertStatus (hashInsertEx mem h key value)).1 = ENOMEM) ∧
      HashInv (hashInsertEx mem h key value).2 ∧
      ∀ k, (hashInsertEx mem h key value).2.view k = if k = key then none else h.view k) ∨
    (¬ insertRefused mem h key value ∧ 0 ≤ (hashInsertEx mem h key value).1 ∧
      (insertStatus (hashInsertEx mem h key value)).1 = 0 ∧
      ((hashInsertEx mem h key value).2.capacity < primeArraySize →
        HashInv (hashInsertEx mem h key value).2 ∧
        ∀ k, (hashInsertEx mem h key value).2.view k = if k = key then some value else h.view k)) := by
  by_cases hr : insertRefused mem h key value
  · obtain ⟨hcode, hinv, hview⟩ := hashInsertEx_refused hi hr
    refine .inl ⟨hr, ?_, ?_, hinv, hview⟩
    · rcases hcode with hcode | hcode <;> rw [hcode] <;> decide
    · rcases hcode with hcode | hcode <;> simp [insertStatus, hcode, ENOSPC, ENOMEM]
  · have hpos := hashInsertEx_code hr
    exact .inr ⟨hr, hpos, if_neg (not_lt.mpr hpos), hashInsertEx_done hi hr⟩

/-- `hash_inc_ex` refuses the new value: it does not fit the old buffer, and
the insertion is refused. -/
def incRefused (mem : Malloc) (h : HashArray) (key value : Bytes) : Prop :=
  ((hashFindEx h key).any fun d => value.length ≤ d.mallocValueSize) = false ∧
    insertRefused mem h key value

theorem hashIncEx_cases (mem : Malloc) (hi : HashInv h)
    {inc : Int} {valueLen : Nat} {convert : ConvertValueFunc}
    (hv : convert (h.view key) inc valueLen = value) :
    (incRefused mem h key value ∧
      ((hashIncEx mem h key inc valueLen convert).1 = ENOSPC ∨
        (hashIncEx mem h key inc valueLen convert).1 = ENOMEM) ∧
      HashInv (hashIncEx mem h key inc valueLen convert).2.2 ∧
      ∀ k, (hashIncEx mem h key inc valueLen convert).2.2.view k =
        if k = key then none else h.view k) ∨
    (¬ incRefused mem h key value ∧
      (hashIncEx mem h key inc valueLen convert).1 = 0 ∧
      (hashIncEx mem h key inc valueLen convert).2.1 = value ∧
      ((hashIncEx mem h key inc valueLen convert).2.2.capacity < primeArraySize →
        HashInv (hashIncEx mem h key inc valueLen convert).2.2 ∧
        ∀ k, (hashIncEx mem h key inc valueLen convert).2.2.view k =
          if k = key then some value else h.view k)) := by
  have heq : hashIncEx mem h key inc valueLen convert =
      if (hashFindEx h key).any fun d => value.length ≤ d.mallocValueSize then
        (0, value, h.setValue key value)
      else if (hashInsertEx mem h key value).1 < 0 then
        (-(hashInsertEx mem h key value).1, [], (hashInsertEx mem h key value).2)
      else (0, value, (hashInsertEx mem h key value).2) := by
    subst hv; rfl
  rw [heq]
  by_cases hplace : ((hashFindEx h key).any fun d => value.length ≤ d.mallocValueSize) = true
  · obtain ⟨d, hf, hl⟩ := (Option.any_eq_true _ _).mp hplace
    rw [if_pos hplace]
    exact .inr ⟨fun h' => absurd (hplace.symm.trans h'.1) (by decide), rfl, rfl,
      fun _ => hi.setValue hf (by simpa using hl)⟩
  · rw [if_neg hplace]
    rcases insertStatus_cases mem hi key value with ⟨hr, hneg, hcode, hinv, hview⟩ | ⟨hr, hpos, -, hdone⟩
    · simp only [insertStatus, if_pos hneg] at hcode ⊢
      exact .inl ⟨⟨by simpa using hplace, hr⟩, hcode, hinv, hview⟩
    · simp only [if_neg (not_lt.mpr hpos)]
      exact .inr ⟨fun h' => hr h'.2, trivial, trivial, hdone⟩

/-- `hash_partial_set` gets to an insertion, and the insertion is refused. -/
def partialRefused (mem : Malloc) (h : HashArray) (key value : Bytes) (offset : Int) : Prop :=
  match hashFindEx h key with
  | some d => 0 ≤ offset ∧ offset < d.value.length ∧ d.value.length < offset.toNat + value.length ∧
      mem.newBuff = true ∧ insertRefused mem h key (d.value.take offset.toNat ++ value)
  | none => offset = 0 ∧ insertRefused mem h key value

theorem hashPartialSet_cases (mem : Malloc) (hi : HashInv h) (key value : Bytes) (offset : Int) :
    (partialRefused mem h key value offset ∧
      ((hashPartialSet mem h key value offset).1 = ENOSPC ∨
        (hashPartialSet mem h key value offset).1 = ENOMEM) ∧
      HashInv (hashPartialSet mem h key value offset).2 ∧
      ∀ k, (hashPartialSet mem h key value offset).2.view k = if k = key then none else h.view k) ∨
    (¬ partialRefused mem h key value offset ∧ (hashPartialSet mem h key value offset).1 ≠ 0 ∧
      (hashPartialSet mem h key value offset).2 = h) ∨
    (¬ partialRefused mem h key value offset ∧ (hashPartialSet mem h key value offset).1 = 0 ∧
      ((hashPartialSet mem h key value offset).2.capacity < primeArraySize →
        HashInv (hashPartialSet mem h key value offset).2 ∧
        ∀ k, (hashPartialSet mem h key value offset).2.view k =
          if k = key then some (writeAt ((h.view key).getD []) offset.toNat value)
          else h.view k)) := by
  unfold hashPartialSet partialRefused
  cases hf : hashFindEx h key with
  | some d =>
    have hv : h.view key = some d.value := by simp [HashArray.view, hf]
    simp only [hv, Option.getD_some]
    by_cases h1 : offset < 0 ∨ (d.value.length : Int) ≤ offset
    · rw [if_pos h1]
      exact .inr (.inl ⟨by omega, by simp [EINVAL], rfl⟩)
    by_cases h2 : offset.toNat + value.length ≤ d.value.length
    · have hfit := hi.fits d (by
        rw [hi.find_eq] at hf
        exact ((findKey_eq_some hi.nodup).mp hf).1)
      rw [if_neg h1, if_pos h2]
      refine .inr (.inr ⟨by omega, rfl, fun _ => hi.setValue hf ?_⟩)
      rw [writeAt_length h2]
      exact hfit
    by_cases h3 : mem.newBuff = false
    · rw [if_neg h1, if_neg h2, if_pos h3]
      exact .inr (.inl ⟨by simp [h3], by simp [ENOMEM], rfl⟩)
    rw [if_neg h1, if_neg h2, if_neg h3]
    have hjoin : writeAt d.value offset.toNat value = d.value.take offset.toNat ++ value := by
      unfold writeAt
      rw [List.takeD_eq_take _ (by omega), List.drop_eq_nil_of_le (by omega), List.append_nil]
    rcases insertStatus_cases mem hi key (d.value.take offset.toNat ++ value) with
      ⟨hr, -, hcode, hinv, hview⟩ | ⟨hr, -, hcode, hdone⟩
    · exact .inl ⟨⟨by omega, by omega, by omega, by simpa using h3, hr⟩, hcode, hinv, hview⟩
    · exact .inr (.inr ⟨fun h' => hr h'.2.2.2.2, hcode, by rw [hjoin]; exact hdone⟩)
  | none =>
    have hv : h.view key = none := by simp [HashArray.view, hf]
    simp only [hv, Option.getD_none]
    by_cases h1 : offset ≠ 0
    · rw [if_pos h1]
      exact .inr (.inl ⟨fun h' => h1 h'.1, by simp [ENOENT], rfl⟩)
    rw [if_neg h1]
    have hjoin : writeAt [] offset.toNat value = value := by simp [not_not.mp h1, writeAt]
    rcases insertStatus_cases mem hi key value with ⟨hr, -, hcode, hinv, hview⟩ | ⟨hr, -, hcode, hdone⟩
    · exact .inl ⟨⟨by simpa using h1, hr⟩, hcode, hinv, hview⟩
    · exact .inr (.inr ⟨fun h' => hr h'.2, hcode, by rw [hjoin]; exact hdone⟩)

theorem hashInitEx_inv {hashFunc : Bytes → Int} {capacity : Nat}
    {loadTest : Int → Nat → Bool} {maxBytes : Int}
    (hok : hashInitEx mem hashFunc capacity loadTest maxBytes = .ok h) :
    HashInv h ∧ h.capacity < primeArraySize ∧ ∀ k, h.view k = none := by
  unfold hashInitEx at hok
  cases hidx : primeArray.findIdx? (fun p => decide (capacity < p)) with
  | none => rw [hidx] at hok; cases hok
  | some i =>
    have hi : i < primeArraySize := (List.findIdx?_eq_some_iff_getElem.mp hidx).1
    have hpos := primeArray_pos hi
    rw [hidx] at hok
    simp only [hashAllocBuckets, lt_irrefl, false_and, if_false] at hok
    split_ifs at hok
    · simp [ENOMEM] at hok
    · simp only [Except.ok.injEq] at hok
      have hnodes : h.nodes = [] := by
        rw [← hok]; simp [HashArray.nodes]
      have hinv : HashInv h := by
        refine .of_nodes (List.Perm.of_eq hnodes) ?_ ?_ ?_ List.nodup_nil ?_ ?_ (by simp) <;>
          subst hok
        · exact hpos
        · simp [HashArray.cap]
        · exact placed_replicate _ _
        · rfl
        · simp [HashArray.cap]
      refine ⟨hinv, by subst hok; exact hi, fun k => ?_⟩
      rw [hinv.view_eq (List.Perm.of_eq hnodes)]
      rfl

end FastDht
