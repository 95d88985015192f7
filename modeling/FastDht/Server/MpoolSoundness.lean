import FastDht.Server.MpoolOp
import FastDht.Common.HashSoundness

/-! # Whole runs of the memory pool table

A run starts from hash_init_ex and takes insertions, increments, partial sets,
deletions and clear passes in any order. The invariant of the table holds in
every state of every run. The table agrees with the map of the last successful
writes as long as no write of a key that is in the table is refused after its
old node has been unlinked; such a write loses the key. -/
namespace FastDht
open Lib

/-! ## A clear pass -/

theorem clearChain_eq (keep : HashData → Bool) (c : List HashData) : ∀ h : HashArray,
    clearChain keep h c = (c.filter keep,
      { h with
        itemCount := h.itemCount - ((c.filter (fun d => !keep d)).length : Nat)
        bytesUsed := h.bytesUsed -
          (((c.filter (fun d => !keep d)).map HashData.mallocBytes).sum : Nat) }) := by
  induction c with
  | nil => intro h; simp [clearChain]
  | cons d c ih =>
    intro h
    by_cases hd : keep d = true
    · simp [clearChain, hd, ih]
    · have hd' : keep d = false := by simpa using hd
      simp only [clearChain, hd', ih, HashArray.freeHashData, List.filter_cons, Bool.not_false,
        if_true, Bool.false_eq_true, if_false, List.length_cons, List.map_cons, List.sum_cons]
      simp only [Prod.mk.injEq, HashArray.mk.injEq, true_and]
      push_cast
      constructor <;> ring

theorem clearBuckets_eq (keep : HashData → Bool) (bs : List (List HashData)) : ∀ h : HashArray,
    clearBuckets keep h bs = (bs.map (List.filter keep),
      { h with
        itemCount := h.itemCount - ((bs.flatten.filter (fun d => !keep d)).length : Nat)
        bytesUsed := h.bytesUsed -
          (((bs.flatten.filter (fun d => !keep d)).map HashData.mallocBytes).sum : Nat) }) := by
  induction bs with
  | nil => intro h; simp [clearBuckets]
  | cons c bs ih =>
    intro h
    simp only [clearBuckets, clearChain_eq, ih, List.map_cons, List.flatten_cons,
      List.filter_append, List.map_append, List.sum_append, List.length_append]
    simp only [Prod.mk.injEq, HashArray.mk.injEq, true_and]
    push_cast
    constructor <;> ring

theorem chainAt_map_filter (keep : HashData → Bool) (bs : List (List HashData)) (i : Nat) :
    chainAt (bs.map (List.filter keep)) i = (chainAt bs i).filter keep := by
  simp only [chainAt, List.getD_eq_getElem?_getD, List.getElem?_map]
  cases bs[i]? <;> rfl

theorem clearExpired_eq (h : HashArray) (currentTime : Int) (tail : Bytes → Bytes)
    {keep : HashData → Bool} (hkeep : keep = fun d => keepsValue currentTime tail d.key d.value) :
    h.clearExpired currentTime tail =
      { h with
        buckets := h.buckets.map (List.filter keep)
        itemCount := h.itemCount - ((h.nodes.filter (fun d => !keep d)).length : Nat)
        bytesUsed := h.bytesUsed -
          (((h.nodes.filter (fun d => !keep d)).map HashData.mallocBytes).sum : Nat) } := by
  subst hkeep
  unfold HashArray.clearExpired
  rw [clearBuckets_eq]
  rfl

theorem clearExpired_nodes (h : HashArray) (currentTime : Int) (tail : Bytes → Bytes) :
    (h.clearExpired currentTime tail).nodes =
      h.nodes.filter fun d => keepsValue currentTime tail d.key d.value := by
  rw [clearExpired_eq h currentTime tail rfl]
  simp [HashArray.nodes, List.filter_flatten]

theorem HashInv.clearExpired {h : HashArray} (hi : HashInv h) (currentTime : Int)
    (tail : Bytes → Bytes) :
    HashInv (h.clearExpired currentTime tail) ∧
      ∀ k, (h.clearExpired currentTime tail).view k =
        (h.view k).filter (keepsValue currentTime tail k) := by
  let keep : HashData → Bool := fun d => keepsValue currentTime tail d.key d.value
  have hshape := clearExpired_eq h currentTime tail (rfl : keep = _)
  have hnodes : (h.clearExpired currentTime tail).nodes = h.nodes.filter keep :=
    clearExpired_nodes h currentTime tail
  have hsplit : (h.nodes.filter keep ++ h.nodes.filter (fun d => !keep d)).Perm h.nodes :=
    List.filter_append_perm keep h.nodes
  have hinv : HashInv (h.clearExpired currentTime tail) := by
    refine .of_nodes (List.Perm.of_eq hnodes) ?_ ?_ ?_ ?_ ?_ ?_ ?_
    · rw [hshape]; exact hi.capPos
    · rw [hshape]; simp [HashArray.cap, hi.length]
    · rw [hshape]
      intro i d hd
      rw [chainAt_map_filter] at hd
      exact hi.placed i d (List.mem_of_mem_filter hd)
    · exact hi.nodup.sublist (List.filter_sublist.map _)
    · have hlen := hsplit.length_eq
      rw [List.length_append] at hlen
      have hc := hi.count
      rw [hshape]
      change h.itemCount - _ = _
      omega
    · have hsum := (hsplit.map HashData.mallocBytes).sum_eq
      rw [List.map_append, List.sum_append] at hsum
      have hb := hi.bytes
      rw [hshape]
      change h.bytesUsed - _ = 8 * (h.cap : Int) + _
      omega
    · exact fun d hd => hi.fits d (List.mem_of_mem_filter hd)
  refine ⟨hinv, fun k => ?_⟩
  rw [hinv.view_eq (List.Perm.of_eq hnodes), hi.view_eq (List.Perm.refl _)]
  unfold nodeView
  rw [findKey_filter hi.nodup]
  cases hf : findKey HashData.key h.nodes k with
  | none => rfl
  | some d =>
    have hk : d.key = k := ((findKey_eq_some hi.nodup).mp hf).2
    by_cases hkeep : keepsValue currentTime tail k d.value = true
    · rw [Option.filter_some_pos (by simpa [keep, hk] using hkeep), Option.map_some,
        Option.filter_some_pos hkeep]
    · rw [Option.filter_some_neg (by simpa [keep, hk] using hkeep), Option.map_some,
        Option.filter_some_neg (by simpa using hkeep), Option.map_none]

/-! ## Operations and runs -/

/-- The operations on the table. -/
inductive HashOp
  | insertEx (key value : Bytes)
  | incEx (key : Bytes) (inc : Int) (valueLen : Nat) (convert : ConvertValueFunc)
  | partialSet (key value : Bytes) (offset : Int)
  | delete (key : Bytes)
  | clear (currentTime : Int) (tail : Bytes → Bytes)

/-- The status an operation returns and the table after it. -/
def HashOp.run (mem : Malloc) (h : HashArray) : HashOp → Int × HashArray
  | .insertEx key value => hashInsertEx mem h key value
  | .incEx key inc valueLen convert =>
    let r := hashIncEx mem h key inc valueLen convert
    (r.1, r.2.2)
  | .partialSet key value offset => hashPartialSet mem h key value offset
  | .delete key => hashDelete h key
  | .clear currentTime tail => (0, h.clearExpired currentTime tail)

/-- The error an operation reports; `hash_insert_ex` reports errors negated and
success as 0 or 1. -/
def HashOp.errno (status : Int) : HashOp → Int
  | .insertEx _ _ => if status < 0 then -status else 0
  | _ => status

/-- The map of the last successful writes, after an operation that returned
`status`. -/
def HashOp.spec (status : Int) (m : Bytes → Option Bytes) : HashOp → Bytes → Option Bytes
  | .insertEx key value => if status < 0 then m else Function.update m key (some value)
  | .incEx key inc valueLen convert =>
    if status = 0 then Function.update m key (some (convert (m key) inc valueLen)) else m
  | .partialSet key value offset =>
    if status = 0 then
      Function.update m key (some (writeAt ((m key).getD []) offset.toNat value))
    else m
  | .delete key => if status = 0 then Function.update m key none else m
  | .clear currentTime tail => fun k => (m k).filter (keepsValue currentTime tail k)

def HashOp.key : HashOp → Bytes
  | .insertEx key _ => key
  | .incEx key _ _ _ => key
  | .partialSet key _ _ => key
  | .delete key => key
  | .clear _ _ => []

/-- The operation needs a new node, and the node is refused. -/
def HashOp.refused (mem : Malloc) (h : HashArray) : HashOp → Prop
  | .insertEx key value => insertRefused mem h key value
  | .incEx key inc valueLen convert => incRefused mem h key (convert (h.view key) inc valueLen)
  | .partialSet key value offset => partialRefused mem h key value offset
  | .delete _ => False
  | .clear _ _ => False

/-- The refused operation was to overwrite a key of the table, whose old node
is gone by then. -/
def HashOp.loses (mem : Malloc) (h : HashArray) (op : HashOp) : Prop :=
  (h.view op.key).isSome ∧ op.refused mem h

/-- The table and the map of the last successful writes, after a run whose
operations all satisfy `ok` and do not exhaust the prime table. -/
inductive HashRun (ok : Malloc → HashArray → HashOp → Prop) :
    HashArray → (Bytes → Option Bytes) → Prop
  | init {mem : Malloc} {hashFunc : Bytes → Int} {capacity : Nat} {loadTest : Int → Nat → Bool}
      {maxBytes : Int} {h : HashArray}
      (hok : hashInitEx mem hashFunc capacity loadTest maxBytes = .ok h) :
      HashRun ok h fun _ => none
  | step {h : HashArray} {m : Bytes → Option Bytes} (mem : Malloc) (op : HashOp)
      (hrun : HashRun ok h m) (hok : ok mem h op)
      (hc : (op.run mem h).2.capacity < primeArraySize) :
      HashRun ok (op.run mem h).2 (op.spec (op.run mem h).1 m)

/-- Everything an operation can do to a table that satisfies the invariant. -/
theorem HashOp.run_cases (op : HashOp) (mem : Malloc) {h : HashArray} (hi : HashInv h) :
    (op.refused mem h ∧
      (op.errno (op.run mem h).1 = ENOSPC ∨ op.errno (op.run mem h).1 = ENOMEM) ∧
      (∀ m, op.spec (op.run mem h).1 m = m) ∧ HashInv (op.run mem h).2 ∧
      ∀ k, (op.run mem h).2.view k = if k = op.key then none else h.view k) ∨
    (¬ op.refused mem h ∧ (∀ m, op.spec (op.run mem h).1 m = m) ∧ (op.run mem h).2 = h) ∨
    (¬ op.refused mem h ∧ op.errno (op.run mem h).1 = 0 ∧
      ((op.run mem h).2.capacity < primeArraySize →
        HashInv (op.run mem h).2 ∧
          ∀ k, (op.run mem h).2.view k = op.spec (op.run mem h).1 h.view k)) := by
  cases op with
  | insertEx key value =>
    rcases insertStatus_cases mem hi key value with
      ⟨hr, hneg, hcode, hinv, hview⟩ | ⟨hr, hpos, hcode, hdone⟩
    · exact .inl ⟨hr, hcode, fun m => if_pos hneg, hinv, hview⟩
    · refine .inr (.inr ⟨hr, hcode, fun hc => ⟨(hdone hc).1, fun k => ?_⟩⟩)
      have hspec : HashOp.spec (hashInsertEx mem h key value).1 h.view (.insertEx key value) =
          Function.update h.view key (some value) := if_neg (not_lt.mpr hpos)
      exact ((hdone hc).2 k).trans (by rw [HashOp.run, hspec, Function.update_apply])
  | incEx key inc valueLen convert =>
    rcases hashIncEx_cases mem hi (rfl : convert (h.view key) inc valueLen = _) with
      ⟨hr, hcode, hinv, hview⟩ | ⟨hr, hcode, -, hdone⟩
    · have hne : (hashIncEx mem h key inc valueLen convert).1 ≠ 0 := by
        rcases hcode with hcode | hcode <;> rw [hcode] <;> decide
      exact .inl ⟨hr, hcode, fun m => if_neg hne, hinv, hview⟩
    · refine .inr (.inr ⟨hr, hcode, fun hc => ⟨(hdone hc).1, fun k => ?_⟩⟩)
      have hspec : HashOp.spec (hashIncEx mem h key inc valueLen convert).1 h.view
          (.incEx key inc valueLen convert) =
          Function.update h.view key (some (convert (h.view key) inc valueLen)) := if_pos hcode
      exact ((hdone hc).2 k).trans (by rw [HashOp.run, hspec, Function.update_apply])
  | partialSet key value offset =>
    rcases hashPartialSet_cases mem hi key value offset with
      ⟨hr, hcode, hinv, hview⟩ | ⟨hr, hne, hsame⟩ | ⟨hr, hcode, hdone⟩
    · have hne : (hashPartialSet mem h key value offset).1 ≠ 0 := by
        rcases hcode with hcode | hcode <;> rw [hcode] <;> decide
      exact .inl ⟨hr, hcode, fun m => if_neg hne, hinv, hview⟩
    · exact .inr (.inl ⟨hr, fun m => if_neg hne, hsame⟩)
    · refine .inr (.inr ⟨hr, hcode, fun hc => ⟨(hdone hc).1, fun k => ?_⟩⟩)
      have hspec : HashOp.spec (hashPartialSet mem h key value offset).1 h.view
          (.partialSet key value offset) = Function.update h.view key
          (some (writeAt ((h.view key).getD []) offset.toNat value)) := if_pos hcode
      exact ((hdone hc).2 k).trans (by rw [HashOp.run, hspec, Function.update_apply])
  | delete key =>
    obtain ⟨hinv, hview, hcode⟩ := hi.hashDelete key
    by_cases hz : (hashDelete h key).1 = 0
    · refine .inr (.inr ⟨id, hz, fun _ => ⟨hinv, fun k => ?_⟩⟩)
      have hspec : HashOp.spec (hashDelete h key).1 h.view (.delete key) =
          Function.update h.view key none := if_pos hz
      exact (hview k).trans (by rw [HashOp.run, hspec, Function.update_apply])
    · refine .inr (.inl ⟨id, fun m => if_neg hz, ?_⟩)
      have hnone : hashFindEx h key = none := by
        simpa [HashArray.view] using mt hcode.mpr hz
      simp [HashOp.run, hashDelete, hnone]
  | clear currentTime tail =>
    exact .inr (.inr ⟨id, rfl, fun _ => hi.clearExpired currentTime tail⟩)

theorem HashRun.inv {ok : Malloc → HashArray → HashOp → Prop} {h : HashArray}
    {m : Bytes → Option Bytes} (hr : HashRun ok h m) : HashInv h := by
  induction hr with
  | init hok => exact (hashInitEx_inv hok).1
  | step mem op _ _ hc ih =>
    rcases op.run_cases mem ih with ⟨-, -, -, hinv, -⟩ | ⟨-, -, hsame⟩ | ⟨-, -, hdone⟩
    · exact hinv
    · rwa [hsame]
    · exact (hdone hc).1

/-- One operation keeps the agreement of the table with the map of the last
successful writes, unless it loses a key; then the agreement is gone. -/
theorem HashOp.run_agrees (op : HashOp) (mem : Malloc) {h : HashArray} (hi : HashInv h)
    {m : Bytes → Option Bytes} (hm : ∀ k, h.view k = m k)
    (hc : (op.run mem h).2.capacity < primeArraySize) :
    (∀ k, (op.run mem h).2.view k = op.spec (op.run mem h).1 m k) ↔ ¬ op.loses mem h := by
  obtain rfl : h.view = m := funext hm
  rcases op.run_cases mem hi with ⟨hr, -, hspec, -, hview⟩ | ⟨hr, hspec, hsame⟩ | ⟨hr, -, hdone⟩
  · rw [hspec]
    constructor
    · rintro hagree ⟨hsome, -⟩
      have := hagree op.key
      rw [hview, if_pos rfl] at this
      simp [← this] at hsome
    · intro hl k
      rw [hview]
      split
      · rename_i hk
        subst hk
        by_contra hne
        exact hl ⟨Option.isSome_iff_ne_none.mpr (Ne.symm hne), hr⟩
      · rfl
  · rw [hspec, hsame]
    simp [HashOp.loses, hr]
  · simp only [HashOp.loses, hr, and_false, not_false_iff, iff_true]
    exact (hdone hc).2

/-- **The table refines the map of the last successful writes.** The invariant
holds after every run. The map is exact after every run in which no operation
loses a key, and an operation that loses a key breaks it. -/
theorem hashRun_refines {ok : Malloc → HashArray → HashOp → Prop} {h : HashArray}
    {m : Bytes → Option Bytes} (hr : HashRun ok h m) :
    HashInv h ∧ ((∀ mem h op, ok mem h op → ¬ op.loses mem h) → ∀ k, h.view k = m k) ∧
      ((∀ k, h.view k = m k) → ∀ (mem : Malloc) (op : HashOp), (op.run mem h).2.capacity < primeArraySize →
        ((∀ k, (op.run mem h).2.view k = op.spec (op.run mem h).1 m k) ↔ ¬ op.loses mem h)) := by
  refine ⟨hr.inv, fun hok => ?_, fun hm mem op hc => op.run_agrees mem hr.inv hm hc⟩
  induction hr with
  | init hinit => exact (hashInitEx_inv hinit).2.2
  | step mem op hrun hop hc ih => exact (op.run_agrees mem hrun.inv ih hc).mpr (hok _ _ _ hop)

/-- A table of one bucket that has room for one node of 41 bytes. -/
def smallTable : HashArray := ⟨[[]], fun _ => 0, 0, 0, fun _ _ => false, 49, 8⟩

def allocates : Malloc := ⟨true, true, true⟩

theorem smallTable_init :
    hashInitEx allocates (fun _ => 0) 0 (fun _ _ => false) 49 = .ok smallTable := rfl

/-- The small table with the key `a` in it. -/
def fullTable : HashArray :=
  ((HashOp.insertEx [97] (List.replicate 8 0)).run allocates smallTable).2

theorem fullTable_run (ok : Malloc → HashArray → HashOp → Prop)
    (hok : ok allocates smallTable (.insertEx [97] (List.replicate 8 0))) :
    HashRun ok fullTable (Function.update (fun _ => none) [97] (some (List.replicate 8 0))) :=
  .step allocates (.insertEx [97] (List.replicate 8 0)) (.init smallTable_init) hok (by decide)

theorem hashRun_refines_fullTable :
    HashInv fullTable ∧ fullTable.view [97] = some (List.replicate 8 0) := by
  have hr := fullTable_run (fun mem h op => ¬ op.loses mem h) (by
    rintro ⟨hsome, -⟩
    exact absurd hsome (by decide))
  exact ⟨(hashRun_refines hr).1, (hashRun_refines hr).2.1 (fun _ _ _ h => h) [97]⟩

/-- Overwriting the key of the full table with one byte more is refused with
`ENOSPC`, and the key is gone. -/
theorem hashRun_loses_key : ¬ ∀ h m, HashRun (fun _ _ _ => True) h m →
    HashInv h ∧ ∀ k, h.view k = m k := by
  intro hall
  have hr := HashRun.step allocates (.insertEx [97] (List.replicate 9 0))
    (fullTable_run (fun _ _ _ => True) trivial) trivial (by decide)
  exact absurd ((hall _ _ hr).2 [97]) (by decide)

/-! ## Refused writes -/

theorem HashInv.mpClearExpiredKeys {p : Mpool} (hi : HashInv p.hashArray) (c : ClearCall)
    (tail : Bytes → Bytes) {key : Bytes} (hk : p.hashArray.view key = none) :
    HashInv (mpClearExpiredKeys c tail p).2.hashArray ∧
      (FastDht.mpClearExpiredKeys c tail p).2.hashArray.view key = none := by
  unfold FastDht.mpClearExpiredKeys
  split
  · exact ⟨hi, hk⟩
  · cases c.tvStart with
    | none => exact ⟨hi, hk⟩
    | some currentTime =>
      dsimp only
      split
      · exact ⟨hi, hk⟩
      · obtain ⟨hinv, hview⟩ := hi.clearExpired currentTime tail
        exact ⟨hinv, by rw [hview, hk, Option.filter_none]⟩

/-- After a set that fails the key is not in the table, whatever it was before. -/
theorem mpDoSet_fails {c : MpCall} {key value : Bytes} (n : Nat) :
    ∀ (i : Nat) (result : Int) (p : Mpool), HashInv p.hashArray →
      (n = 0 → p.hashArray.view key = none) → (mpDoSet c key value n i result p).1 ≠ 0 →
      (mpDoSet c key value n i result p).2.hashArray.view key = none := by
  induction n with
  | zero => intro i result p _ hn _; exact hn rfl
  | succ n ih =>
    intro i result p hi _ hf
    rcases insertStatus_cases (c.mem i) hi key value with ⟨-, hneg, -, hinv, hview⟩ | ⟨-, hpos, -, -⟩
    · have hkey : (hashInsertEx (c.mem i) p.hashArray key value).2.view key = none := by
        rw [hview, if_pos rfl]
      obtain ⟨hinv', hkey'⟩ := HashInv.mpClearExpiredKeys
        (p := { p with hashArray := (hashInsertEx (c.mem i) p.hashArray key value).2 })
        hinv (c.clear i) c.tail hkey
      simp only [mpDoSet, if_pos hneg] at hf ⊢
      split_ifs at hf ⊢ with h1 h2
      · exact ih _ _ _ hinv' (fun _ => hkey') hf
      · exact hkey'
      · exact hkey
    · simp only [mpDoSet, if_neg (not_lt.mpr hpos)] at hf
      exact absurd rfl hf

/-- **What a refused write leaves.** An operation that reports `ENOSPC` or
`ENOMEM` leaves the table as a map as it was exactly if it does not lose its
key. Of the memory pool functions, a failed set or increment leaves the key
readable only if there was nothing to read, and a failed partial set exactly if
it does not lose the key. -/
theorem refused_write_keeps {h : HashArray} {m : Bytes → Option Bytes}
    (hr : HashRun (fun _ _ _ => True) h m) :
    (∀ (mem : Malloc) (op : HashOp),
      (op.errno (op.run mem h).1 = ENOSPC ∨ op.errno (op.run mem h).1 = ENOMEM →
        ∀ k, (op.run mem h).2.view k = h.view k) ↔ ¬ op.loses mem h) ∧
    ∀ (p : Mpool), p.hashArray = h → ∀ (g : Nat) (key value : Bytes),
      ((mpSet p g key value).1 ≠ 0 →
        ((mpSet p g key value).2.hashArray.view key = h.view key ↔ h.view key = none)) ∧
      (∀ inc valueLen expires now, (mpIncEx p g key inc valueLen expires now).1 ≠ 0 →
        ((mpIncEx p g key inc valueLen expires now).2.2.hashArray.view key = h.view key ↔
          h.view key = none)) ∧
      ∀ offset, (mpPartialSet p g key value offset).1 ≠ 0 →
        ((mpPartialSet p g key value offset).2.hashArray.view key = h.view key ↔
          ¬ (HashOp.partialSet key value offset).loses ((p.call p.calls).mem 0) h) := by
  have hi := hr.inv
  refine ⟨fun mem op => ?_, ?_⟩
  · rcases op.run_cases mem hi with ⟨hrf, hcode, -, -, hview⟩ | ⟨hrf, -, hsame⟩ | ⟨hrf, hcode, -⟩
    · constructor
      · rintro hkeeps ⟨hsome, -⟩
        have hkey := hkeeps hcode op.key
        rw [hview, if_pos rfl] at hkey
        simp [← hkey] at hsome
      · intro hl _ k
        rw [hview]
        split
        · rename_i hk
          subst hk
          by_contra hne
          exact hl ⟨Option.isSome_iff_ne_none.mpr (Ne.symm hne), hrf⟩
        · rfl
    · simp [HashOp.loses, hrf, hsame]
    · simp [HashOp.loses, hrf, hcode, ENOSPC, ENOMEM]
  · rintro p rfl g key value
    refine ⟨fun hf => ?_, fun inc valueLen expires now hf => ?_, fun offset hf => ?_⟩
    · have hnone : (mpSet p g key value).2.hashArray.view key = none :=
        mpDoSet_fails 2 0 0 { p with calls := p.calls + 1 } hi
          (fun h2 => absurd h2 (by decide)) hf
      rw [hnone, eq_comm]
    · rcases hashIncEx_cases ((p.call p.calls).mem 0) hi
        (rfl : mpIncValue ((p.call p.calls).tail key) (p.call p.calls).stack expires now
          (p.hashArray.view key) inc valueLen = _) with ⟨-, -, -, hview⟩ | ⟨-, hcode, -, -⟩
      · have hnone : (mpIncEx p g key inc valueLen expires now).2.2.hashArray.view key = none :=
          (hview key).trans (if_pos rfl)
        rw [hnone, eq_comm]
      · exact absurd hcode hf
    · rcases hashPartialSet_cases ((p.call p.calls).mem 0) hi key value offset with
        ⟨hrf, -, -, hview⟩ | ⟨hrf, -, hsame⟩ | ⟨-, hcode, -⟩
      · have hnone : (mpPartialSet p g key value offset).2.hashArray.view key = none :=
          (hview key).trans (if_pos rfl)
        rw [hnone, eq_comm]
        simp only [HashOp.loses, HashOp.key, HashOp.refused, hrf, and_true]
        cases p.hashArray.view key <;> simp
      · have hkeep : (mpPartialSet p g key value offset).2.hashArray = p.hashArray := hsame
        simp [HashOp.loses, HashOp.refused, hrf, hkeep]
      · exact absurd hcode hf

theorem refused_write_keeps_fullTable :
    (fullTable.view [97]).isSome ∧
      ((HashOp.insertEx [98] [0]).errno ((HashOp.insertEx [98] [0]).run allocates fullTable).1 =
        ENOSPC ∧
      ∀ k, ((HashOp.insertEx [98] [0]).run allocates fullTable).2.view k = fullTable.view k) := by
  refine ⟨by decide, by decide, ?_⟩
  refine ((refused_write_keeps (fullTable_run _ trivial)).1 allocates (.insertEx [98] [0])).mpr ?_
    (by decide)
  rintro ⟨hsome, -⟩
  exact absurd hsome (by decide)

/-- An `ENOSPC` that costs the key. -/
theorem refused_write_loses : ¬ ∀ h m, HashRun (fun _ _ _ => True) h m →
    (∀ (mem : Malloc) (op : HashOp),
      op.errno (op.run mem h).1 = ENOSPC ∨ op.errno (op.run mem h).1 = ENOMEM →
        ∀ k, (op.run mem h).2.view k = h.view k) ∧
    ∀ (p : Mpool), p.hashArray = h → ∀ (g : Nat) (key value : Bytes),
      ((mpSet p g key value).1 ≠ 0 →
        (mpSet p g key value).2.hashArray.view key = h.view key) ∧
      (∀ inc valueLen expires now, (mpIncEx p g key inc valueLen expires now).1 ≠ 0 →
        (mpIncEx p g key inc valueLen expires now).2.2.hashArray.view key = h.view key) ∧
      ∀ offset, (mpPartialSet p g key value offset).1 ≠ 0 →
        (mpPartialSet p g key value offset).2.hashArray.view key = h.view key := by
  intro hall
  have hkeeps := (hall _ _ (fullTable_run _ trivial)).1 allocates
    (.insertEx [97] (List.replicate 9 0)) (by decide) [97]
  exact absurd hkeeps (by decide)

end FastDht
