import FastDht.Common.Types
import FastDht.Lib.Buckets
import FastDht.Lib.Buffer

/-! # The chained hash table of common/hash.c

The table with owned value buffers (`is_malloc_value` true), as mp_init creates
it. A chain is the list of its nodes, head first; a node's `key_len` and
`value_len` are the lengths of its byte strings. What the allocator answers at
each `malloc` of an operation, the hash function and the `double` comparison
with the load factor are parameters. Sizes that do not fit the C `int` they are
computed in become negative there, and `malloc` refuses them. -/
namespace FastDht
open Lib

def primeArray : List Nat :=
  [1, 3, 17, 37, 79, 163, 331, 673, 1361, 2729, 5471, 10949, 21911, 43853, 87719, 175447,
    350899, 701819, 1403641, 2807303, 5614657, 11229331, 22458671, 44917381, 89834777,
    179669557, 359339171, 718678369, 1437356741, 2147483647]

def primeArraySize : Nat := 30

structure HashData where
  key : Bytes
  value : Bytes
  mallocValueSize : Nat
  deriving DecidableEq, Repr

def memAlign (x : Nat) : Nat := (x + 7) / 8 * 8

/-- `sizeof(HashData)` on an LP64 machine. -/
def sizeofHashData : Nat := 32

def calcNodeMallocBytes (keyLen valueSize : Nat) : Nat := sizeofHashData + keyLen + valueSize

def HashData.mallocBytes (d : HashData) : Nat := calcNodeMallocBytes d.key.length d.mallocValueSize

structure HashArray where
  buckets : List (List HashData)
  hashFunc : Bytes → Int
  itemCount : Int
  /-- The index in `prime_array` that the `capacity` pointer stands for. -/
  capacity : Nat
  /-- The test `load_factor >= 0.10 && item_count / capacity >= load_factor`. -/
  loadTest : Int → Nat → Bool
  maxBytes : Int
  bytesUsed : Int

/-- `*pHash->capacity`. Past the end of the prime table the C code reads what
follows it; the model reads 0 there. -/
def HashArray.cap (h : HashArray) : Nat := primeArray.getD h.capacity 0

/-- `hash_code % (*pHash->capacity)`. -/
def HashArray.bucketIndex (h : HashArray) (key : Bytes) : Nat := toUInt32 (h.hashFunc key) % h.cap

def HashArray.nodes (h : HashArray) : List HashData := h.buckets.flatten

/-- The answers of `malloc` for a node, for a bucket array and for the joined
value of hash_partial_set. -/
structure Malloc where
  node : Bool
  buckets : Bool
  newBuff : Bool
  deriving DecidableEq, Repr

def hashAllocBuckets (mem : Malloc) (h : HashArray) (oldCapacity : Nat) : Int × HashArray :=
  let bytes := 8 * h.cap
  if 0 < h.maxBytes ∧ h.maxBytes < h.bytesUsed + bytes then (ENOSPC, h)
  else if mem.buckets = false then (ENOMEM, h)
  else (0, { h with
    buckets := List.replicate h.cap []
    bytesUsed := h.bytesUsed + bytes - 8 * oldCapacity })

/-- `hash_init_ex` with `bMallocValue` true. The byte cap is stored after the
first allocation, which it therefore does not bound. -/
def hashInitEx (mem : Malloc) (hashFunc : Bytes → Int) (capacity : Nat)
    (loadTest : Int → Nat → Bool) (maxBytes : Int) : Except Int HashArray :=
  match primeArray.findIdx? (fun p => capacity < p) with
  | none => .error EINVAL
  | some i =>
    let h : HashArray := ⟨[], hashFunc, 0, i, loadTest, 0, 0⟩
    match hashAllocBuckets mem h 0 with
    | (0, h) => .ok { h with maxBytes := maxBytes }
    | (result, _) => .error result

def HashArray.addToBucket (h : HashArray) (d : HashData) : HashArray :=
  { h with
    buckets := push (fun d => h.bucketIndex d.key) h.buckets d
    itemCount := h.itemCount + 1 }

/-- `DELETE_FROM_BUCKET` of the first node of the chain with this key. -/
def HashArray.deleteFromBucket (h : HashArray) (d : HashData) : HashArray :=
  let i := h.bucketIndex d.key
  { h with
    buckets := h.buckets.set i ((chainAt h.buckets i).eraseP fun e => e.key = d.key)
    itemCount := h.itemCount - 1
    bytesUsed := h.bytesUsed - d.mallocBytes }

/-- Overwrite the value of the first node of a chain with this key. -/
def chainSetValue (key value : Bytes) : List HashData → List HashData
  | [] => []
  | d :: rest => if d.key = key then { d with value := value } :: rest
      else d :: chainSetValue key value rest

/-- `memcpy` into the value buffer of the node found for `key`. -/
def HashArray.setValue (h : HashArray) (key value : Bytes) : HashArray :=
  let i := h.bucketIndex key
  { h with buckets := h.buckets.set i (chainSetValue key value (chainAt h.buckets i)) }

def rehash1 (mem : Malloc) (h : HashArray) (oldCapacity newCapacity : Nat) : Int × HashArray :=
  match hashAllocBuckets mem { h with capacity := newCapacity } oldCapacity with
  | (0, h') => (0, h.buckets.flatten.foldl HashArray.addToBucket { h' with itemCount := 0 })
  | (result, h') => (result, { h' with buckets := h.buckets })

/-- `_rehash` of a table whose capacity points into the prime table. -/
def rehash (mem : Malloc) (h : HashArray) : Int × HashArray :=
  match rehash1 mem h h.cap (h.capacity + 1) with
  | (0, h') => (0, h')
  | (result, h') => (result, { h' with capacity := h.capacity })

def hashFindEx (h : HashArray) (key : Bytes) : Option HashData :=
  findKey HashData.key (chainAt h.buckets (h.bucketIndex key)) key

/-- The part of `hash_insert_ex` after the chain has been searched: allocate a
node, link it and grow the table when it is loaded. -/
def insertNode (mem : Malloc) (h : HashArray) (key value : Bytes) : Int × HashArray :=
  let mallocValueSize := memAlign value.length
  let bytes := calcNodeMallocBytes key.length mallocValueSize
  if 2 ^ 31 ≤ bytes then (-ENOMEM, h)
  else if 0 < h.maxBytes ∧ h.maxBytes < h.bytesUsed + bytes then (-ENOSPC, h)
  else if mem.node = false then (-ENOMEM, h)
  else
    let h := { h with bytesUsed := h.bytesUsed + bytes }
    let h := h.addToBucket ⟨key, value, mallocValueSize⟩
    if h.loadTest h.itemCount h.cap then (1, (rehash mem h).2) else (1, h)

/-- The overwrite test of `hash_insert_ex`: the new value goes into the old
buffer, unless that is too small or more than 128 bytes and half empty. -/
def HashData.reuses (d : HashData) (valueLen : Nat) : Bool :=
  valueLen ≤ d.mallocValueSize && (d.mallocValueSize ≤ 128 || d.mallocValueSize / 2 < valueLen)

def hashInsertEx (mem : Malloc) (h : HashArray) (key value : Bytes) : Int × HashArray :=
  match hashFindEx h key with
  | some d =>
    if d.reuses value.length then (0, h.setValue key value)
    else insertNode mem (h.deleteFromBucket d) key value
  | none => insertNode mem h key value

/-- `ConvertValueFunc`: from the old value, the increment and the size of the
reply buffer to the new value. -/
abbrev ConvertValueFunc := Option Bytes → Int → Nat → Bytes

/-- `hash_inc_ex`: the status, the reply bytes and the table. -/
def hashIncEx (mem : Malloc) (h : HashArray) (key : Bytes) (inc : Int) (valueLen : Nat)
    (convertFunc : ConvertValueFunc) : Int × Bytes × HashArray :=
  let old := hashFindEx h key
  let value := convertFunc (old.map HashData.value) inc valueLen
  if old.any fun d => value.length ≤ d.mallocValueSize then (0, value, h.setValue key value)
  else match hashInsertEx mem h key value with
    | (result, h') => if result < 0 then (-result, [], h') else (0, value, h')

/-- The callers of `hash_insert_ex` turn its negative error into a status. -/
def insertStatus (r : Int × HashArray) : Int × HashArray := (if r.1 < 0 then -r.1 else 0, r.2)

def hashPartialSet (mem : Malloc) (h : HashArray) (key value : Bytes) (offset : Int) :
    Int × HashArray :=
  match hashFindEx h key with
  | some d =>
    if offset < 0 ∨ (d.value.length : Int) ≤ offset then (EINVAL, h)
    else if offset.toNat + value.length ≤ d.value.length then
      (0, h.setValue key (writeAt d.value offset.toNat value))
    else if mem.newBuff = false then (ENOMEM, h)
    else insertStatus (hashInsertEx mem h key (d.value.take offset.toNat ++ value))
  | none =>
    if offset ≠ 0 then (ENOENT, h) else insertStatus (hashInsertEx mem h key value)

def hashDelete (h : HashArray) (key : Bytes) : Int × HashArray :=
  match hashFindEx h key with
  | some d => (0, h.deleteFromBucket d)
  | none => (ENOENT, h)

end FastDht
