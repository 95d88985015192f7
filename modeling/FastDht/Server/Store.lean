import FastDht.Common.Types
import FastDht.Lib.Buffer
import FastDht.Lib.Decimal
import Mathlib.Logic.Function.Basic

/-! # The store interface of server/store.c

The request handlers reach their store through function pointers that
store_init sets to the Berkeley DB or to the memory pool functions. The state
of the store is explicit; a handle is the index of a group in `g_db_list`.
Whatever a call gets from outside (errors, clocks, memory contents) is part of
the state, so a function of the state describes every outcome. -/
namespace FastDht

/-- What a get returns: its status, the bytes copied to the caller's buffer,
and `*size`, which after `ENOSPC` is the size the value needs. -/
structure GetResult where
  result : Int
  value : Bytes
  size : Int
  deriving DecidableEq, Repr

/-- What an increment to `n` stores: the expiry and the number as text. -/
def incValue (expires n : Int) : Bytes := int2buff expires ++ Lib.formatInt (toInt64 n)

/-- The function pointers `g_func_get` .. `g_func_inc_ex`, and what their
callers rely on: a get stays within the buffer, and a successful increment
returns a number after its expiry. -/
structure StoreFuncs (σ : Type) where
  /-- handle, key, `*size` -/
  get : σ → Nat → Bytes → Int → GetResult × σ
  /-- handle, key, value -/
  set : σ → Nat → Bytes → Bytes → Int × σ
  /-- handle, key, value, offset -/
  partialSet : σ → Nat → Bytes → Bytes → Int → Int × σ
  /-- handle, key -/
  delete : σ → Nat → Bytes → Int × σ
  /-- handle, key, increment, `*value_len`, expires and `g_current_time` -/
  incEx : σ → Nat → Bytes → Int → Nat → Int → Int → Int × Bytes × σ
  get_le : ∀ s g k n, (get s g k n).1.result = 0 → ((get s g k n).1.value.length : Int) ≤ n
  incEx_value : ∀ s g k inc n e now, (incEx s g k inc n e now).1 = 0 →
    ∃ m, (incEx s g k inc n e now).2.1 = incValue e m

inductive StoreCall
  | get (size : Int)
  | set (value : Bytes)
  | partialSet (value : Bytes) (offset : Int)
  | delete
  | incEx (inc : Int) (valueLen : Nat) (expires now : Int)

def StoreFuncs.run {σ : Type} (S : StoreFuncs σ) (s : σ) (g : Nat) (k : Bytes) :
    StoreCall → Int × σ
  | .get size => ((S.get s g k size).1.result, (S.get s g k size).2)
  | .set value => S.set s g k value
  | .partialSet value offset => S.partialSet s g k value offset
  | .delete => S.delete s g k
  | .incEx inc n e now => ((S.incEx s g k inc n e now).1, (S.incEx s g k inc n e now).2.2)

/-- What a call that succeeds makes of the value of its key. -/
def StoreFuncs.result {σ : Type} (S : StoreFuncs σ) (s : σ) (g : Nat) (k : Bytes)
    (old : Option Bytes) : StoreCall → Option Bytes
  | .get _ => old
  | .set value => some value
  | .partialSet value offset => some (Lib.writeAt (old.getD []) offset.toNat value)
  | .delete => none
  | .incEx inc n e now => some (S.incEx s g k inc n e now).2.1

/-- A store that is a map as long as it loses no key: a call that succeeds does exactly its
update, and a call that fails does nothing. -/
structure KeyStore (σ κ : Type) [DecidableEq κ] extends StoreFuncs σ where
  slot : Nat → Bytes → κ
  lookup : σ → κ → Option Bytes
  Valid : σ → Prop
  /-- A call so far has lost a key. -/
  lost : σ → Bool
  lost_run : ∀ s g k c, lost (toStoreFuncs.run s g k c).2 = false → lost s = false
  run_exact : ∀ {s} g k c, Valid s → lost (toStoreFuncs.run s g k c).2 = false →
    Valid (toStoreFuncs.run s g k c).2 ∧
    lookup (toStoreFuncs.run s g k c).2 =
      if (toStoreFuncs.run s g k c).1 = 0 then
        Function.update (lookup s) (slot g k)
          (toStoreFuncs.result s g k (lookup s (slot g k)) c)
      else lookup s

/-- A store with a mark beside it: whether a call so far has lost a key. -/
def StoreFuncs.watched {σ : Type} (S : StoreFuncs σ)
    (loses : σ → Nat → Bytes → StoreCall → Bool) : StoreFuncs (σ × Bool) where
  get := fun s g k n => ((S.get s.1 g k n).1, (S.get s.1 g k n).2, s.2 || loses s.1 g k (.get n))
  set := fun s g k v => ((S.set s.1 g k v).1, (S.set s.1 g k v).2, s.2 || loses s.1 g k (.set v))
  partialSet := fun s g k v off => ((S.partialSet s.1 g k v off).1, (S.partialSet s.1 g k v off).2,
    s.2 || loses s.1 g k (.partialSet v off))
  delete := fun s g k => ((S.delete s.1 g k).1, (S.delete s.1 g k).2, s.2 || loses s.1 g k .delete)
  incEx := fun s g k inc n e now => ((S.incEx s.1 g k inc n e now).1,
    (S.incEx s.1 g k inc n e now).2.1, (S.incEx s.1 g k inc n e now).2.2,
    s.2 || loses s.1 g k (.incEx inc n e now))
  get_le := fun s => S.get_le s.1
  incEx_value := fun s => S.incEx_value s.1

section Watched

variable {σ : Type} (S : StoreFuncs σ) (loses : σ → Nat → Bytes → StoreCall → Bool)
  (s : σ × Bool) (g : Nat) (k : Bytes) (c : StoreCall)

theorem StoreFuncs.watched_run : (S.watched loses).run s g k c =
    ((S.run s.1 g k c).1, (S.run s.1 g k c).2, s.2 || loses s.1 g k c) := by
  cases c <;> rfl

theorem StoreFuncs.watched_result (old : Option Bytes) :
    (S.watched loses).result s g k old c = S.result s.1 g k old c := by
  cases c <;> rfl

end Watched

/-- A store of which one can say that all its values satisfy `P`: a value that
is there after a call was there before, or has been written by the call. -/
structure ValueStore (σ : Type) extends StoreFuncs σ where
  Holds : (Bytes → Prop) → σ → Prop
  holds_get : ∀ {P s} g k n, Holds P s → Holds P (get s g k n).2
  holds_set : ∀ {P s} g k {v}, Holds P s → P v → Holds P (set s g k v).2
  holds_partialSet : ∀ {P s} g k {v} off, Holds P s → (∀ w, v.length ≤ w.length → P w) →
    Holds P (partialSet s g k v off).2
  holds_delete : ∀ {P s} g k, Holds P s → Holds P (delete s g k).2
  holds_incEx : ∀ {P s} g k inc n {e} now, Holds P s → (∀ m, P (incValue e m)) →
    Holds P (incEx s g k inc n e now).2.2

theorem incValue_length (expires n : Int) :
    4 ≤ (incValue expires n).length ∧ (incValue expires n).length ≤ 24 := by
  have hfit : (Lib.formatInt (toInt64 n)).length ≤ 20 := by
    rw [Lib.formatInt_length_le (by decide)]
    unfold toInt64
    split <;> omega
  simp only [incValue, List.length_append, int2buff_length]
  omega

end FastDht
