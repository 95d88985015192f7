import FastDht.Server.Store
import FastDht.Common.Hash

/-! # The memory pool store of server/mpool_op.c

One hash table for all groups. A set that finds no room clears the expired keys
and tries again; the other functions are the hash functions under a lock. -/
namespace FastDht
open Lib

/-- What a clear pass gets from outside: whether another pass is running, and
the two clock readings (`none` if `gettimeofday` fails). -/
structure ClearCall where
  clearing : Bool
  tvStart : Option Int
  tvEnd : Int
  deriving DecidableEq, Repr

/-- What one call of the store gets from outside. -/
structure MpCall where
  /-- The allocator, at the n-th insertion of the call. -/
  mem : Nat → Malloc
  /-- The n-th clear pass of the call. -/
  clear : Nat → ClearCall
  /-- What follows a key's value in memory. -/
  tail : Bytes → Bytes
  /-- What the caller's value buffer held. -/
  stack : Bytes

structure Mpool where
  hashArray : HashArray
  needClearExpiredData : Bool
  clearMinInterval : Int
  lastClearTime : Int
  /-- The outside world, by the number of the call. -/
  call : Nat → MpCall
  calls : Nat

def HashArray.freeHashData (h : HashArray) (d : HashData) : HashArray :=
  { h with itemCount := h.itemCount - 1, bytesUsed := h.bytesUsed - d.mallocBytes }

/-- The inner loop of `mp_clear_expired_keys`: the nodes of a chain that are
kept, and the table with the others freed. -/
def clearChain (keep : HashData → Bool) (h : HashArray) : List HashData → List HashData × HashArray
  | [] => ([], h)
  | d :: rest =>
    if keep d then
      let (kept, h) := clearChain keep h rest
      (d :: kept, h)
    else clearChain keep (h.freeHashData d) rest

/-- The outer loop, over the buckets. -/
def clearBuckets (keep : HashData → Bool) (h : HashArray) :
    List (List HashData) → List (List HashData) × HashArray
  | [] => ([], h)
  | chain :: rest =>
    let (chain, h) := clearChain keep h chain
    let (rest, h) := clearBuckets keep h rest
    (chain :: rest, h)

/-- A value a clear pass leaves alone. A value of less than four bytes is read
together with what follows it in memory. -/
def keepsValue (currentTime : Int) (tail : Bytes → Bytes) (key value : Bytes) : Bool :=
  let expires := buff2int (value ++ tail key)
  expires = fdhtExpiresNever || currentTime < expires

/-- The table after a clear pass. -/
def HashArray.clearExpired (h : HashArray) (currentTime : Int) (tail : Bytes → Bytes) : HashArray :=
  let (buckets, h') := clearBuckets (fun d => keepsValue currentTime tail d.key d.value) h h.buckets
  { h' with buckets := buckets }

def mpClearExpiredKeys (c : ClearCall) (tail : Bytes → Bytes) (p : Mpool) : Int × Mpool :=
  if c.clearing then (0, p)
  else match c.tvStart with
    | none => (-1, p)
    | some currentTime =>
      if currentTime - p.lastClearTime < p.clearMinInterval then (0, p)
      else
        let h := p.hashArray.clearExpired currentTime tail
        (p.hashArray.itemCount - h.itemCount, { p with hashArray := h, lastClearTime := c.tvEnd })

def mpGet (p : Mpool) (_ : Nat) (key : Bytes) (size : Int) : GetResult × Mpool :=
  (match hashFindEx p.hashArray key with
    | none => ⟨ENOENT, [], size⟩
    | some d => if size < d.value.length then ⟨ENOSPC, [], d.value.length⟩
        else ⟨0, d.value, d.value.length⟩,
    { p with calls := p.calls + 1 })

/-- The loop of `mp_do_set`, with `n` rounds left; `i` counts the rounds. -/
def mpDoSet (c : MpCall) (key value : Bytes) : Nat → Nat → Int → Mpool → Int × Mpool
  | 0, _, result, p => (result, p)
  | n + 1, i, _, p =>
    let (r, h) := hashInsertEx (c.mem i) p.hashArray key value
    let p := { p with hashArray := h }
    if r < 0 then
      if -r = ENOSPC ∧ p.needClearExpiredData = true then
        let (count, p) := mpClearExpiredKeys (c.clear i) c.tail p
        if 0 < count then mpDoSet c key value n (i + 1) (-r) p else (-r, p)
      else (-r, p)
    else (0, p)

def mpSet (p : Mpool) (_ : Nat) (key value : Bytes) : Int × Mpool :=
  mpDoSet (p.call p.calls) key value 2 0 0 { p with calls := p.calls + 1 }

def mpPartialSet (p : Mpool) (_ : Nat) (key value : Bytes) (offset : Int) : Int × Mpool :=
  let (result, h) := hashPartialSet ((p.call p.calls).mem 0) p.hashArray key value offset
  (result, { p with hashArray := h, calls := p.calls + 1 })

def mpDelete (p : Mpool) (_ : Nat) (key : Bytes) : Int × Mpool :=
  let (result, h) := hashDelete p.hashArray key
  (result, { p with hashArray := h, calls := p.calls + 1 })

def mpIncValue (tail stack : Bytes) (expires now : Int) : ConvertValueFunc :=
  fun old inc newValueLen =>
    let n := match old with
      | none => inc
      | some value =>
        let oldExpires := buff2int (value ++ tail)
        if oldExpires ≠ fdhtExpiresNever ∧ oldExpires < now then inc
        else if newValueLen ≤ value.length then inc
        else strtoll ((writeAt (writeAt stack 0 value) value.length [0]).drop 4) + inc
    incValue expires n

def mpIncEx (p : Mpool) (_ : Nat) (key : Bytes) (inc : Int) (valueLen : Nat) (expires now : Int) :
    Int × Bytes × Mpool :=
  let c := p.call p.calls
  let (result, value, h) := hashIncEx (c.mem 0) p.hashArray key inc valueLen
    (mpIncValue (c.tail key) c.stack expires now)
  (result, value, { p with hashArray := h, calls := p.calls + 1 })

/-- The memory pool as the store of the server. -/
def mpoolFuncs : StoreFuncs Mpool where
  get := mpGet
  set := mpSet
  partialSet := mpPartialSet
  delete := mpDelete
  incEx := mpIncEx
  get_le := by
    intro p g key size h
    simp only [mpGet] at h ⊢
    cases hd : hashFindEx p.hashArray key with
    | none => simp [hd, ENOENT] at h
    | some d =>
      by_cases hs : size < d.value.length
      · simp [hd, hs, ENOSPC] at h
      · simp [hs]
        omega
  incEx_value := by
    intro p g key inc n e now h
    unfold mpIncEx hashIncEx at h ⊢
    dsimp only at h ⊢
    split
    · exact ⟨_, rfl⟩
    · rename_i hold
      rw [if_neg hold] at h
      split
      · rename_i hneg
        rw [if_pos hneg] at h
        omega
      · exact ⟨_, rfl⟩

end FastDht
