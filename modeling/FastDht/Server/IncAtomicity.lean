import FastDht.Lib.History
import FastDht.Lib.Machine
import FastDht.Server.StoredValues
import Mathlib.Data.List.Permutation

/-! # INC against SET and DEL on Berkeley DB

`db_inc_ex` is a get and a put. Its caller holds `inc_thread_mutex`, which
keeps two increments apart; SET and DEL do not take it, so any number of them
may run between the two calls. The requests of one key are followed here, with
the answers that have been given. -/
namespace FastDht
open Lib

/-- A request for one key. INC brings its increment, the new expiry, the time
it reads and what its buffer held. -/
inductive KeyOp
  | set (value : Bytes)
  | del
  | inc (n expires now : Int) (stack : Bytes)
  deriving DecidableEq, Repr

/-- The number an increment arrives at. -/
def incTo (old : Option Bytes) (n now : Int) (stack : Bytes) : Int :=
  match old with
  | none => n
  | some v => if incValueLen < v.length then n else dbIncValue stack v n now

/-- A request handled alone: its status and what INC returns, and the value
after it. -/
def KeyOp.run (old : Option Bytes) : KeyOp → (Int × Bytes) × Option Bytes
  | .set value => ((0, []), some value)
  | .del => ((if old.isSome then 0 else ENOENT, []), none)
  | .inc n expires now stack =>
    ((0, incValue expires (incTo old n now stack)), some (incValue expires (incTo old n now stack)))

/-- The increment that holds the mutex, between its get and its put. -/
structure PendingInc where
  op : KeyOp
  /-- What the get has found. -/
  seen : Option Bytes
  value : Bytes

/-- The database, the increment in progress and the requests that have been
answered, in the order of their last database call. A request that a failing
call has ended is not among them: it has changed nothing. -/
structure IncState where
  db : Bdb
  inc : Option PendingInc
  done : List (KeyOp × Int × Bytes)

inductive IncEvent
  | set (value : Bytes)
  | del
  | incGet (n expires now : Int)
  | incPut

/-- The steps on the key `key` of the group `g`. -/
def IncState.step (g : Nat) (key : Bytes) (st : IncState) : IncEvent → Option IncState
  | .set value =>
    let r := dbSet st.db g key value
    some { st with
      db := r.2
      done := if r.1 = 0 then st.done ++ [(.set value, 0, [])] else st.done }
  | .del =>
    let r := dbDelete st.db g key
    some { st with
      db := r.2
      done := if r.1 = EFAULT then st.done else st.done ++ [(.del, r.1, [])] }
  | .incGet n expires now =>
    if st.inc.isSome then none
    else
      let stack := (st.db.call st.db.calls).stack
      let r := dbDoGet st.db g key incValueLen
      if r.result ≠ 0 ∧ r.result ≠ ENOENT ∧ r.result ≠ ENOSPC then some { st with db := st.db.next }
      else some { st with
        db := st.db.next
        inc := some {
          op := .inc n expires now stack
          seen := st.db.data (g, key)
          value := incValue expires (if r.result ≠ 0 then n else dbIncValue stack r.value n now) } }
  | .incPut => st.inc.map fun p =>
    let r := dbSet st.db g key p.value
    { db := r.2
      inc := none
      done := if r.1 = 0 then st.done ++ [(p.op, 0, p.value)] else st.done }

/-! ## One request alone -/

theorem dbDoGet_incTo {db : Bdb} {g : Nat} {key : Bytes} (n now : Int) (stack : Bytes)
    (hok : ¬ ((dbDoGet db g key incValueLen).result ≠ 0 ∧
      (dbDoGet db g key incValueLen).result ≠ ENOENT ∧
      (dbDoGet db g key incValueLen).result ≠ ENOSPC)) :
    (if (dbDoGet db g key incValueLen).result ≠ 0 then n
      else dbIncValue stack (dbDoGet db g key incValueLen).value n now) =
      incTo (db.data (g, key)) n now stack := by
  unfold dbDoGet at hok ⊢
  by_cases hf : (db.call db.calls).fail = true
  · rw [if_pos hf] at hok
    exact absurd (by decide) hok
  · rw [if_neg hf]
    cases db.data (g, key) with
    | none => rfl
    | some v =>
      by_cases hlen : incValueLen < v.length
      · simp [incTo, hlen, ENOSPC]
      · simp [incTo, hlen]

/-! ## Any number of requests -/

/-- The answers and the final value are those of some order of the requests. -/
def Linearizable (v₀ : Option Bytes) (done : List (KeyOp × Int × Bytes)) (v : Option Bytes) : Prop :=
  ∃ order : List (KeyOp × Int × Bytes), order.Perm done ∧ Sequential KeyOp.run v₀ order v

/-- When an increment puts its value, the key still has the value its get has
found. -/
def IncState.PutsOnSeen (g : Nat) (key : Bytes) (st : IncState) : IncEvent → Prop
  | .incPut => ∀ p ∈ st.inc, st.db.data (g, key) = p.seen
  | _ => True

instance (g : Nat) (key : Bytes) (st : IncState) (e : IncEvent) :
    Decidable (st.PutsOnSeen g key e) := by
  cases e <;> unfold IncState.PutsOnSeen <;> infer_instance

/-- The answers so far are those of the requests in the order they have been
answered in. -/
structure AnswersInOrder (g : Nat) (key : Bytes) (v₀ : Option Bytes) (st : IncState) : Prop where
  answers : Sequential KeyOp.run v₀ st.done (st.db.data (g, key))
  pending : ∀ p ∈ st.inc, KeyOp.run p.seen p.op = ((0, p.value), some p.value)

theorem dbSet_cases (db : Bdb) (g : Nat) (key value : Bytes) :
    ((dbSet db g key value).1 ≠ 0 ∧ (dbSet db g key value).2.data = db.data) ∨
      ((dbSet db g key value).1 = 0 ∧
        (dbSet db g key value).2.data = Function.update db.data (g, key) (some value)) := by
  unfold dbSet
  split
  · exact .inl ⟨(by decide : EFAULT ≠ 0), rfl⟩
  · exact .inr ⟨rfl, rfl⟩

theorem dbDelete_cases (db : Bdb) (g : Nat) (key : Bytes) :
    ((dbDelete db g key).1 = EFAULT ∧ (dbDelete db g key).2.data = db.data) ∨
      ((dbDelete db g key).1 ≠ EFAULT ∧
        (dbDelete db g key).1 = (KeyOp.run (db.data (g, key)) .del).1.1 ∧
        (dbDelete db g key).2.data (g, key) = none) := by
  unfold dbDelete
  split
  · exact .inl ⟨rfl, rfl⟩
  · cases hd : db.data (g, key) with
    | none => exact .inr ⟨(by decide : ENOENT ≠ EFAULT), rfl, hd⟩
    | some v => exact .inr ⟨(by decide : (0 : Int) ≠ EFAULT), rfl, Function.update_self ..⟩

theorem AnswersInOrder.step {g : Nat} {key : Bytes} {v₀ : Option Bytes} {st st' : IncState}
    {e : IncEvent} (h : AnswersInOrder g key v₀ st) (hok : st.PutsOnSeen g key e)
    (hstep : st.step g key e = some st') : AnswersInOrder g key v₀ st' := by
  cases e with
  | set value =>
    cases hstep
    refine ⟨?_, h.pending⟩
    rcases dbSet_cases st.db g key value with ⟨hne, hdata⟩ | ⟨h0, hdata⟩
    · rw [if_neg hne, hdata]
      exact h.answers
    · rw [if_pos h0, hdata, Function.update_self]
      exact h.answers.concat (.set value)
  | del =>
    cases hstep
    refine ⟨?_, h.pending⟩
    rcases dbDelete_cases st.db g key with ⟨hf, hdata⟩ | ⟨hf, hcode, hdata⟩
    · rw [if_pos hf, hdata]
      exact h.answers
    · rw [if_neg hf, hdata, hcode]
      exact h.answers.concat .del
  | incGet n expires now =>
    unfold IncState.step at hstep
    dsimp only at hstep
    split at hstep
    · cases hstep
    split at hstep
    · cases hstep
      exact ⟨h.answers, h.pending⟩
    · rename_i hget
      cases hstep
      refine ⟨h.answers, fun p hp => ?_⟩
      cases hp
      rw [dbDoGet_incTo n now _ hget]
      rfl
  | incPut =>
    obtain ⟨p, hp, rfl⟩ := Option.map_eq_some_iff.mp hstep
    refine ⟨?_, fun p hp => (by cases hp)⟩
    -- nothing has happened to the key since the get
    have hseen : st.db.data (g, key) = p.seen := hok p hp
    have hrun := h.pending p hp
    rw [← hseen] at hrun
    have hdone := h.answers.concat p.op
    rw [hrun] at hdone
    dsimp only
    rcases dbSet_cases st.db g key p.value with ⟨hne, hdata⟩ | ⟨h0, hdata⟩
    · rw [if_neg hne, hdata]
      exact h.answers
    · rw [if_pos h0, hdata, Function.update_self]
      exact hdone

/-- **INC is linearizable when nothing comes between its get and its put.** In
every run in which each put of an increment finds the value its get has seen,
the answers and the final value are those of the requests in the order of their
last database call. -/
theorem inc_linearizable (g : Nat) (key : Bytes) (db : Bdb) (st : IncState)
    (hrun : Runs (IncState.step g key) (IncState.PutsOnSeen g key) ⟨db, none, []⟩ st) :
    Linearizable (db.data (g, key)) st.done (st.db.data (g, key)) := by
  have hstart : AnswersInOrder g key (db.data (g, key)) ⟨db, none, []⟩ :=
    ⟨rfl, fun p hp => by cases hp⟩
  exact ⟨st.done, .refl _,
    (hrun.invariant hstart fun _ _ _ h hok hstep => h.step hok hstep).answers⟩

/-- SET to 10, then INC by 1: the answer is 11. -/
theorem inc_linearizable_set :
    ∃ st, exec (IncState.step 0 [97]) (IncState.PutsOnSeen 0 [97])
        [.set [0, 0, 0, 0, 49, 48], .incGet 1 0 1000, .incPut] ⟨emptyBdb, none, []⟩ = some st ∧
      st.db.data (0, [97]) = some [0, 0, 0, 0, 49, 49] ∧
      Linearizable none st.done (some [0, 0, 0, 0, 49, 49]) := by
  have hcheck : (exec (IncState.step 0 [97]) (IncState.PutsOnSeen 0 [97])
      [.set [0, 0, 0, 0, 49, 48], .incGet 1 0 1000, .incPut] ⟨emptyBdb, none, []⟩).map
      (fun st => st.db.data (0, [97])) = some (some [0, 0, 0, 0, 49, 49]) := by decide +kernel
  obtain ⟨st, hexec, hvalue⟩ := Option.map_eq_some_iff.mp hcheck
  have hlin := inc_linearizable 0 [97] emptyBdb st (.of_exec hexec)
  rw [hvalue] at hlin
  exact ⟨st, hexec, hvalue, hlin⟩

/-- A SET to 10 between the get and the put of an INC by 1 is lost: INC answers
1 and the value is 1, which no order of the two explains. -/
theorem inc_loses_set :
    ¬ ∀ (g : Nat) (key : Bytes) (db : Bdb) (st : IncState),
      Runs (IncState.step g key) (fun _ _ => True) ⟨db, none, []⟩ st → st.inc = none →
      Linearizable (db.data (g, key)) st.done (st.db.data (g, key)) := by
  intro hall
  let answers : List (KeyOp × Int × Bytes) :=
    [(.set [0, 0, 0, 0, 49, 48], 0, []), (.inc 1 0 1000 [], 0, [0, 0, 0, 0, 49])]
  have hcheck : (exec (IncState.step 0 [97]) (fun _ _ => True)
      [.incGet 1 0 1000, .set [0, 0, 0, 0, 49, 48], .incPut] ⟨emptyBdb, none, []⟩).map
      (fun st => (st.inc.isSome, decide (st.done = answers), st.db.data (0, [97]))) =
      some (false, true, some [0, 0, 0, 0, 49]) := by decide +kernel
  obtain ⟨st, hexec, heq⟩ := Option.map_eq_some_iff.mp hcheck
  obtain ⟨hinc, heq⟩ := Prod.mk.inj heq
  obtain ⟨hdone, hvalue⟩ := Prod.mk.inj heq
  obtain ⟨order, hperm, hseq⟩ := hall 0 [97] emptyBdb st (.of_exec hexec)
    (Option.isNone_iff_eq_none.mp (by simpa using hinc))
  have hempty : emptyBdb.data (0, [97]) = none := rfl
  rw [hvalue, hempty] at hseq
  rw [of_decide_eq_true hdone] at hperm
  have hnone : ∀ order ∈ List.permutations' answers,
      ¬ Sequential KeyOp.run none order (some [0, 0, 0, 0, 49]) := by decide +kernel
  exact hnone order (List.mem_permutations'.mpr hperm) hseq

end FastDht
