import FastDht.Server.DbOp
import FastDht.Server.MpoolStore

/-! # Stores in which nothing fails

A Berkeley DB store whose calls succeed and a memory pool without a byte cap
whose allocations succeed are both maps: a call does its update and says so.
Berkeley DB has a map for every group, the memory pool one for all of them, so
the place of a key in the map is a function of the group and the key. -/
namespace FastDht
open Lib

/-- What a get into a buffer of `n` bytes returns for a value. -/
def getResult (value : Option Bytes) (n : Int) : GetResult :=
  match value with
  | none => ⟨ENOENT, [], n⟩
  | some v => if n < v.length then ⟨ENOSPC, [], v.length⟩ else ⟨0, v, v.length⟩

/-- A store that is a map as long as it is in a quiet state, and whose calls
lead from quiet states to quiet states. -/
structure MapStore (σ κ : Type) [DecidableEq κ] extends StoreFuncs σ where
  slot : Nat → Bytes → κ
  lookup : σ → κ → Option Bytes
  Quiet : σ → Prop
  /-- The lengths of a value that the store has room for. -/
  room : Nat → Prop
  room_le : ∀ {n m}, n ≤ m → room m → room n
  room_list : room (4 + fdhtKeyListMaxSize)
  get_quiet : ∀ {s} g k n, Quiet s → Quiet (get s g k n).2 ∧ lookup (get s g k n).2 = lookup s ∧
    (get s g k n).1 = getResult (lookup s (slot g k)) n
  set_quiet : ∀ {s} g k v, k.length ≤ 1024 → room v.length → Quiet s → Quiet (set s g k v).2 ∧
    (set s g k v).1 = 0 ∧ lookup (set s g k v).2 = Function.update (lookup s) (slot g k) (some v)
  delete_quiet : ∀ {s} g k, Quiet s → Quiet (delete s g k).2 ∧
    (delete s g k).1 = (if (lookup s (slot g k)).isSome then 0 else ENOENT) ∧
    lookup (delete s g k).2 = Function.update (lookup s) (slot g k) none
  incEx_quiet : ∀ {s} g k inc n e now, k.length ≤ 1024 → Quiet s →
    Quiet (incEx s g k inc n e now).2.2 ∧
    ∃ m, (incEx s g k inc n e now).1 = 0 ∧ (incEx s g k inc n e now).2.1 = incValue e m ∧
      lookup (incEx s g k inc n e now).2.2 =
        Function.update (lookup s) (slot g k) (some (incValue e m))

theorem packFullKey_length_le (k : FDHTKeyInfo) : k.packFullKey.length ≤ 1024 := by
  have hn := k.namespaceLen_le
  have ho := k.objIdLen_le
  have hk := k.keyLen_le
  simp only [fdhtMaxNamespaceLen, fdhtMaxObjectIdLen, fdhtMaxSubKeyLen] at hn ho hk
  simp only [FDHTKeyInfo.packFullKey, List.length_append, List.length_cons]
  omega

/-! ## Berkeley DB -/

/-- Berkeley DB is a map while its calls succeed. -/
def bdbMap : MapStore Bdb (Nat × Bytes) where
  toStoreFuncs := bdbFuncs
  slot := fun g k => (g, k)
  lookup := Bdb.data
  Quiet := Bdb.Quiet
  room := fun _ => True
  room_le := fun _ _ => trivial
  room_list := trivial
  get_quiet := fun g k n hq => ⟨hq, rfl, hq.get g k n⟩
  set_quiet := by
    intro db g k v _ _ hq
    have hset : bdbFuncs.set db g k v = (0, db.next.put g k v) := hq.set g k v
    rw [hset]
    exact ⟨hq, rfl, rfl⟩
  delete_quiet := by
    intro db g k hq
    obtain ⟨-, hq', hdata⟩ := hq.delete g k
    refine ⟨hq', ?_, hdata⟩
    change (dbDelete db g k).1 = _
    cases hd : db.data (g, k) with
    | none => rw [hq.delete_absent hd]; rfl
    | some v => exact hq.delete_present hd
  incEx_quiet := by
    intro db g k inc n e now _ hq
    have h0 : (dbIncEx db g k inc n e now).1 = 0 := hq.incEx g k inc n e now
    rcases dbIncEx_cases db g k inc n e now with ⟨code, hne, heq⟩ | ⟨m, heq⟩
    · rw [heq] at h0
      exact absurd h0 hne
    · have hinc : bdbFuncs.incEx db g k inc n e now =
          (0, incValue e m, db.next.put g k (incValue e m)) := heq
      rw [hinc]
      exact ⟨hq, m, rfl, rfl, rfl⟩

/-! ## The memory pool -/

/-- The table has no byte cap and does not outgrow the prime table. -/
structure HashArray.Ample (h : HashArray) : Prop extends h.Bounded where
  maxBytes : h.maxBytes ≤ 0

theorem HashArray.Ample.run {h : HashArray} (ha : h.Ample) (mem : Malloc) (op : HashOp) :
    (op.run mem h).2.Ample :=
  ⟨ha.toBounded.run mem op, (op.run_grows mem ha.inv).maxBytes ▸ ha.maxBytes⟩

theorem HashArray.Ample.insertRefused {h : HashArray} (ha : h.Ample) {key value : Bytes}
    (hk : key.length ≤ 1024) (hv : value.length + 2048 < 2 ^ 31) :
    ¬ insertRefused allocates h key value := by
  have hroom : ∀ b, ¬ h.refuses allocates b key value := by
    rintro b (hbig | ⟨hcap, -⟩ | hmem)
    · have halign : memAlign value.length ≤ value.length + 7 := by unfold memAlign; omega
      simp only [calcNodeMallocBytes, sizeofHashData] at hbig
      omega
    · have := ha.maxBytes
      omega
    · cases hmem
  unfold FastDht.insertRefused
  split
  · exact fun hno => hroom _ hno.2
  · exact hroom _

/-- A pool with an ample table and an allocator that does not fail. -/
structure Mpool.Ample (p : Mpool) : Prop where
  table : p.hashArray.Ample
  mem : ∀ n i, (p.call n).mem i = allocates

theorem Mpool.Ample.set {p : Mpool} (hp : p.Ample) (g : Nat) {key value : Bytes}
    (hk : key.length ≤ 1024) (hv : value.length + 2048 < 2 ^ 31) :
    (mpSet p g key value).2.Ample ∧ (mpSet p g key value).1 = 0 ∧
      (mpSet p g key value).2.hashArray.view =
        Function.update p.hashArray.view key (some value) := by
  have hr := hp.table.insertRefused hk hv
  have hcode := hashInsertEx_code hr
  have hset : mpSet p g key value = (0, { p with
      hashArray := (hashInsertEx allocates p.hashArray key value).2
      calls := p.calls + 1 }) := by
    simp only [mpSet, mpDoSet, hp.mem, if_neg (not_lt.mpr hcode)]
  rw [hset]
  refine ⟨⟨hp.table.run allocates (.insertEx key value), hp.mem⟩, rfl, ?_⟩
  exact (HashOp.run_exact (.insertEx key value) allocates hp.table.toBounded fun _ _ => .inr hr).trans
    (if_neg (not_lt.mpr hcode))

theorem Mpool.Ample.incEx {p : Mpool} (hp : p.Ample) (g : Nat) {key : Bytes} (inc : Int)
    (n : Nat) (e now : Int) (hk : key.length ≤ 1024) :
    (mpIncEx p g key inc n e now).2.2.Ample ∧
      ∃ m, (mpIncEx p g key inc n e now).1 = 0 ∧ (mpIncEx p g key inc n e now).2.1 = incValue e m ∧
        (mpIncEx p g key inc n e now).2.2.hashArray.view =
          Function.update p.hashArray.view key (some (incValue e m)) := by
  obtain ⟨convert, hconvert⟩ : ∃ c,
      c = mpIncValue ((p.call p.calls).tail key) (p.call p.calls).stack e now := ⟨_, rfl⟩
  obtain ⟨m, hm⟩ : ∃ m, convert (p.hashArray.view key) inc n = incValue e m := by
    rw [hconvert]
    exact ⟨_, rfl⟩
  have hr : ¬ incRefused allocates p.hashArray key (incValue e m) := fun hno =>
    hp.table.insertRefused hk (by have := incValue_length e m; omega) hno.2
  rcases hashIncEx_cases allocates hp.table.inv hm with ⟨hno, -⟩ | ⟨-, hcode, hvalue, -⟩
  · exact absurd hno hr
  have hinc : mpIncEx p g key inc n e now = (0, incValue e m, { p with
      hashArray := (hashIncEx allocates p.hashArray key inc n convert).2.2
      calls := p.calls + 1 }) := by
    simp only [mpIncEx, hp.mem, ← hconvert, hcode, hvalue]
  rw [hinc]
  refine ⟨⟨hp.table.run allocates (.incEx key inc n convert), hp.mem⟩, m, rfl, rfl, ?_⟩
  refine ((HashOp.run_exact (.incEx key inc n convert) allocates hp.table.toBounded
    fun _ _ => .inr (by rw [HashOp.refused, hm]; exact hr)).trans (if_pos hcode)).trans ?_
  rw [hm]

/-- The memory pool is a map while there is memory. -/
def mpoolMap : MapStore Mpool Bytes where
  toStoreFuncs := mpoolFuncs
  slot := fun _ k => k
  lookup := fun p => p.hashArray.view
  Quiet := Mpool.Ample
  room := fun n => n + 2048 < 2 ^ 31
  room_le := fun hle hm => by omega
  room_list := by decide
  get_quiet := by
    intro p g k n hp
    refine ⟨⟨hp.table, hp.mem⟩, rfl, ?_⟩
    change (mpGet p g k n).1 = getResult (p.hashArray.view k) n
    unfold mpGet HashArray.view getResult
    cases hashFindEx p.hashArray k <;> rfl
  set_quiet := fun g _ _ hk hv hp => hp.set g hk hv
  delete_quiet := by
    intro p g k hp
    refine ⟨⟨hp.table.run allocates (.delete k), hp.mem⟩, ?_, ?_⟩
    · change (hashDelete p.hashArray k).1 = if (p.hashArray.view k).isSome then 0 else ENOENT
      unfold hashDelete HashArray.view
      cases hashFindEx p.hashArray k <;> rfl
    · funext j
      rw [Function.update_apply]
      exact (hp.table.inv.hashDelete k).2.1 j
  incEx_quiet := fun g _ inc n e now hk hp => hp.incEx g inc n e now hk

/-- A table of one bucket without a byte cap. -/
def openTable : HashArray := ⟨[[]], fun _ => 0, 0, 0, fun _ _ => false, 0, 8⟩

theorem openTable_ample : openTable.Ample where
  inv := (hashInitEx_inv (show hashInitEx allocates (fun _ => 0) 0 (fun _ _ => false) 0 =
    .ok openTable from rfl)).1
  capacity := by decide
  stays := .inr fun _ => rfl
  maxBytes := le_rfl

/-- A pool without a byte cap, and with nothing in it. -/
def openPool : Mpool where
  hashArray := openTable
  needClearExpiredData := false
  clearMinInterval := 0
  lastClearTime := 0
  call := fun _ => ⟨fun _ => allocates, fun _ => ⟨false, none, 0⟩, fun _ => [], []⟩
  calls := 0

end FastDht
