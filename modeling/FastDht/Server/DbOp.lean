import FastDht.Server.Store

/-! # The Berkeley DB store of server/db_op.c

Berkeley DB is a map from keys to byte strings, one per group. A call on it may
fail at any time with an error other than `DB_NOTFOUND` and `DB_BUFFER_SMALL`;
the functions then answer `EFAULT` and the map is as before. -/
namespace FastDht
open Lib

variable {db : Bdb} {key : Bytes}

/-- What one call gets from outside: whether Berkeley DB fails (for db_inc_ex
at its get and at its put), and what the caller's buffer held. -/
structure DbCall where
  fail : Bool
  failPut : Bool
  stack : Bytes
  deriving DecidableEq, Repr

structure Bdb where
  data : Nat × Bytes → Option Bytes
  /-- The outside world, by the number of the call. -/
  call : Nat → DbCall
  calls : Nat

def Bdb.next (db : Bdb) : Bdb := { db with calls := db.calls + 1 }

def Bdb.put (db : Bdb) (g : Nat) (key value : Bytes) : Bdb :=
  { db with data := Function.update db.data (g, key) (some value) }

/-- `_db_do_get` into a buffer of `*size` bytes. -/
def dbDoGet (db : Bdb) (g : Nat) (key : Bytes) (size : Int) : GetResult :=
  if (db.call db.calls).fail then ⟨EFAULT, [], size⟩
  else match db.data (g, key) with
    | none => ⟨ENOENT, [], size⟩
    | some value => if size < value.length then ⟨ENOSPC, [], value.length⟩
        else ⟨0, value, value.length⟩

def dbGet (db : Bdb) (g : Nat) (key : Bytes) (size : Int) : GetResult × Bdb :=
  (dbDoGet db g key size, db.next)

def dbSet (db : Bdb) (g : Nat) (key value : Bytes) : Int × Bdb :=
  if (db.call db.calls).fail then (EFAULT, db.next) else (0, db.next.put g key value)

/-- A put with `DB_DBT_PARTIAL`, which creates the record if there is none. -/
def dbPartialSet (db : Bdb) (g : Nat) (key value : Bytes) (offset : Int) : Int × Bdb :=
  if (db.call db.calls).fail then (EFAULT, db.next)
  else (0, db.next.put g key (writeAt ((db.data (g, key)).getD []) offset.toNat value))

def dbDelete (db : Bdb) (g : Nat) (key : Bytes) : Int × Bdb :=
  if (db.call db.calls).fail then (EFAULT, db.next)
  else match db.data (g, key) with
    | none => (ENOENT, db.next)
    | some _ => (0, { db.next with data := Function.update db.data (g, key) none })

/-- The new number of `db_inc_ex` when the get has returned `value` in the
caller's buffer. -/
def dbIncValue (stack value : Bytes) (inc now : Int) : Int :=
  let buff := writeAt stack 0 value
  let oldExpires := buff2int buff
  if oldExpires ≠ fdhtExpiresNever ∧ oldExpires < now then inc
  else strtoll ((writeAt buff value.length [0]).drop 4) + inc

def dbIncEx (db : Bdb) (g : Nat) (key : Bytes) (inc : Int) (valueLen : Nat) (expires now : Int) :
    Int × Bytes × Bdb :=
  let c := db.call db.calls
  let r := dbDoGet db g key valueLen
  if r.result ≠ 0 ∧ r.result ≠ ENOENT ∧ r.result ≠ ENOSPC then (r.result, [], db.next)
  else
    let n := if r.result ≠ 0 then inc else dbIncValue c.stack r.value inc now
    let value := incValue expires n
    if c.failPut then (EFAULT, [], db.next) else (0, value, db.next.put g key value)

@[simp] theorem Bdb.next_data (db : Bdb) : db.next.data = db.data := rfl

@[simp] theorem Bdb.put_data (db : Bdb) (g : Nat) (key value : Bytes) :
    (db.put g key value).data = Function.update db.data (g, key) (some value) := rfl

theorem dbDoGet_ok {g : Nat} {size : Int} (h : (dbDoGet db g key size).result = 0) :
    db.data (g, key) = some (dbDoGet db g key size).value ∧
      ((dbDoGet db g key size).value.length : Int) ≤ size := by
  unfold dbDoGet at h ⊢
  split at h
  · simp [EFAULT] at h
  · rename_i hf
    rw [if_neg hf]
    cases hd : db.data (g, key) with
    | none => simp [hd, ENOENT] at h
    | some v =>
      by_cases hs : size < v.length
      · simp [hd, hs, ENOSPC] at h
      · simp [hs]
        omega

/-- An increment fails without a trace, or stores the expiry and a number. -/
theorem dbIncEx_cases (db : Bdb) (g : Nat) (key : Bytes) (inc : Int) (valueLen : Nat)
    (expires now : Int) :
    (∃ code, code ≠ 0 ∧ dbIncEx db g key inc valueLen expires now = (code, [], db.next)) ∨
    ∃ n, dbIncEx db g key inc valueLen expires now =
      (0, incValue expires n, db.next.put g key (incValue expires n)) := by
  unfold dbIncEx
  by_cases h1 : (dbDoGet db g key valueLen).result ≠ 0 ∧
      (dbDoGet db g key valueLen).result ≠ ENOENT ∧ (dbDoGet db g key valueLen).result ≠ ENOSPC
  · rw [if_pos h1]
    exact .inl ⟨_, h1.1, rfl⟩
  · rw [if_neg h1]
    by_cases h2 : (db.call db.calls).failPut = true
    · rw [if_pos h2]
      exact .inl ⟨_, by decide, rfl⟩
    · rw [if_neg h2]
      exact .inr ⟨_, rfl⟩

/-- Berkeley DB as the store of the server. -/
def bdbFuncs : StoreFuncs Bdb where
  get := dbGet
  set := dbSet
  partialSet := dbPartialSet
  delete := dbDelete
  incEx := dbIncEx
  get_le := fun _ _ _ _ h => (dbDoGet_ok h).2
  incEx_value := by
    intro db g k inc n e now h
    rcases dbIncEx_cases db g k inc n e now with ⟨code, hne, heq⟩ | ⟨m, heq⟩
    · rw [heq] at h
      exact absurd h hne
    · exact ⟨m, by rw [heq]⟩

/-- Berkeley DB loses no key. -/
def bdbStore : KeyStore Bdb (Nat × Bytes) where
  toStoreFuncs := bdbFuncs
  slot := fun g k => (g, k)
  lookup := Bdb.data
  Valid := fun _ => True
  lost := fun _ => false
  lost_run := fun _ _ _ _ h => h
  run_exact := by
    intro db g k c _ _
    refine ⟨trivial, ?_⟩
    cases c with
    | get size =>
      rw [StoreFuncs.result, Function.update_eq_self, ite_self]
      rfl
    | set value =>
      simp only [StoreFuncs.run, StoreFuncs.result, bdbFuncs, dbSet]
      split <;> simp [EFAULT]
    | partialSet value offset =>
      simp only [StoreFuncs.run, StoreFuncs.result, bdbFuncs, dbPartialSet]
      split <;> simp [EFAULT]
    | delete =>
      simp only [StoreFuncs.run, StoreFuncs.result, bdbFuncs, dbDelete]
      split
      · simp [EFAULT]
      · cases db.data (g, k) <;> simp [ENOENT]
    | incEx inc n e now =>
      simp only [StoreFuncs.run, StoreFuncs.result, bdbFuncs]
      rcases dbIncEx_cases db g k inc n e now with ⟨code, hne, heq⟩ | ⟨m, heq⟩
      · simp [heq, hne]
      · simp [heq]

/-! ## A database that never fails -/

def Bdb.Quiet (db : Bdb) : Prop := ∀ n, (db.call n).fail = false ∧ (db.call n).failPut = false

theorem Bdb.Quiet.set (hq : db.Quiet) (g : Nat) (key value : Bytes) :
    dbSet db g key value = (0, db.next.put g key value) := by
  unfold dbSet
  rw [if_neg (by simp [(hq _).1])]

theorem Bdb.Quiet.delete_absent (hq : db.Quiet) {g : Nat}
    (hd : db.data (g, key) = none) : dbDelete db g key = (ENOENT, db.next) := by
  unfold dbDelete
  rw [if_neg (by simp [(hq _).1]), hd]

theorem Bdb.Quiet.delete_present (hq : db.Quiet) {g : Nat} {v : Bytes}
    (hd : db.data (g, key) = some v) : (dbDelete db g key).1 = 0 := by
  unfold dbDelete
  rw [if_neg (by simp [(hq _).1]), hd]

theorem Bdb.Quiet.delete (hq : db.Quiet) (g : Nat) (key : Bytes) :
    ((dbDelete db g key).1 = 0 ∨ (dbDelete db g key).1 = ENOENT) ∧
      (dbDelete db g key).2.Quiet ∧
      (dbDelete db g key).2.data = Function.update db.data (g, key) none := by
  cases hd : db.data (g, key) with
  | none =>
    have hsame : Function.update db.data (g, key) none = db.data := by
      rw [← hd, Function.update_eq_self]
    rw [hq.delete_absent hd]
    exact ⟨.inr rfl, hq, hsame.symm⟩
  | some v =>
    refine ⟨.inl (hq.delete_present hd), ?_, ?_⟩
    · unfold dbDelete
      rw [if_neg (by simp [(hq _).1]), hd]
      exact hq
    · unfold dbDelete
      rw [if_neg (by simp [(hq _).1]), hd]

theorem Bdb.Quiet.get (hq : db.Quiet) (grp : Nat) (key : Bytes) (n : Int) :
    dbDoGet db grp key n = match db.data (grp, key) with
      | none => ⟨ENOENT, [], n⟩
      | some v => if n < v.length then ⟨ENOSPC, [], v.length⟩ else ⟨0, v, v.length⟩ := by
  unfold dbDoGet
  rw [if_neg (by simp [(hq _).1])]

theorem Bdb.Quiet.partialSet (hq : db.Quiet) {grp : Nat} {v : Bytes} (e : Int)
    (hv : db.data (grp, key) = some v) :
    (dbPartialSet db grp key (int2buff e) 0).2 =
      db.next.put grp key (writeAt v 0 (int2buff e)) := by
  unfold dbPartialSet
  rw [if_neg (by simp [(hq _).1]), hv]
  rfl

theorem Bdb.Quiet.incEx (hq : db.Quiet) (grp : Nat) (key : Bytes) (inc : Int) (n : Nat)
    (e now : Int) : (dbIncEx db grp key inc n e now).1 = 0 := by
  have hget : ¬ ((dbDoGet db grp key n).result ≠ 0 ∧ (dbDoGet db grp key n).result ≠ ENOENT ∧
      (dbDoGet db grp key n).result ≠ ENOSPC) := by
    unfold dbDoGet
    rw [if_neg (by simp [(hq _).1])]
    cases db.data (grp, key) with
    | none => simp
    | some v =>
      dsimp only
      split <;> simp
  unfold dbIncEx
  rw [if_neg hget, if_neg (by simp [(hq _).2])]

end FastDht
