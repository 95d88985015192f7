import FastDht.Server.BatchLoops
import FastDht.Server.StoredValues

/-! # The loop of BATCH_GET

The value of a key is read into the task's own buffer, behind the entries of the
response that are there already. The buffer grows when the next key, or the value
that the store has announced, does not fit. -/
namespace FastDht
open Lib

variable {σ : Type}

/-! ## Stores that answer -/

/-- A status that the one byte of a response can carry. -/
def FitsByte (status : Int) : Prop := -128 ≤ status ∧ status < 128

theorem errors_ne : ENOENT ≠ 0 ∧ ENOENT ≠ ENOSPC ∧ EFAULT ≠ 0 ∧ EFAULT ≠ ENOSPC := by decide

theorem fitsByte_codes : FitsByte 0 ∧ FitsByte ENOENT ∧ FitsByte EFAULT ∧ FitsByte ENOSPC ∧
    FitsByte ENOMEM ∧ FitsByte EINVAL := by
  unfold FitsByte
  decide

theorem fitsByte_zero : FitsByte 0 := fitsByte_codes.1

/-- The answers to a get: an error, a value that has been copied, or the size of one
that has not. -/
def GetResult.Answers (P : Bytes → Prop) (r : GetResult) : Prop :=
  (r.result ≠ 0 ∧ r.result ≠ ENOSPC ∧ FitsByte r.result) ∨
    ∃ value, P value ∧ (r = ⟨0, value, value.length⟩ ∨ r = ⟨ENOSPC, [], value.length⟩)

/-- A store whose gets can be answered. -/
structure AnsweringStore (σ : Type) extends ValueStore σ where
  get_answers : ∀ {P s} g k n, Holds P s → (get s g k n).1.Answers P

def bdbAnswers : AnsweringStore Bdb where
  toValueStore := bdbValues
  get_answers := by
    intro P db g k n hs
    obtain ⟨-, hno, hfault, -⟩ := fitsByte_codes
    change (dbDoGet db g k n).Answers P
    unfold dbDoGet
    split
    · exact .inl ⟨errors_ne.2.2.1, errors_ne.2.2.2, hfault⟩
    split
    · exact .inl ⟨errors_ne.1, errors_ne.2.1, hno⟩
    · rename_i value hvalue
      refine .inr ⟨value, hs _ _ hvalue, ?_⟩
      split
      · exact .inr rfl
      · exact .inl rfl

def mpoolAnswers : AnsweringStore Mpool where
  toValueStore := mpoolValues
  get_answers := by
    intro P p g k n hs
    change (mpGet p g k n).1.Answers P
    unfold mpGet
    dsimp only
    split
    · exact .inl ⟨errors_ne.1, errors_ne.2.1, fitsByte_codes.2.1⟩
    · rename_i d hd
      refine .inr ⟨d.value, hs d (mem_flatten_iff.mpr ⟨_, List.mem_of_find?_eq_some hd⟩), ?_⟩
      split
      · exact .inr rfl
      · exact .inl rfl

/-! ## The loop -/

section Loop

variable {V : AnsweringStore σ} {g : Globals} {env : TaskEnv} {r : BatchRequest} {inBodyLen : Int}
  {inBuff : Bytes} {b : BatchState σ}

/-- The end of an entry after the last answer of the store. -/
def BatchState.answered (S : StoreFuncs σ) (g : Globals) (r : BatchRequest) (k : FDHTKeyInfo)
    (get : GetResult × σ) (b : BatchState σ) : BatchState σ :=
  let b := { b with server := { b.server with store := get.2 } }
  if get.1.result ≠ 0 then b.getFailed get.1.result
  else batchGetValue S g r k get.1.size { b with task := b.task.write b.dest get.1.value }

/-- An entry whose key is read and has room: a value that does not fit is asked for
again. -/
theorem batchGetEntry_answered (S : StoreFuncs σ) {i src : Nat} {k : FDHTKeyInfo}
    {t : FastTaskInfo} (hkey : batchKey r inBodyLen inBuff b.src = some (k, src))
    (hroom : (if b.task.size ≤ b.dest + (9 + k.szKey.length) then
        checkBuffSize (env.alloc (2 * i)) b.dest (9 + k.szKey.length) b.task
      else some b.task) = some t) :
    batchGetEntry S g env r inBodyLen inBuff i b =
      let b₁ := { b with
        task := t.writeKey b.dest k
        src := src
        dest := b.dest + 4 + k.szKey.length + 1 }
      let get := S.get b.server.store r.header.groupId k.packFullKey (b₁.task.size - b₁.dest)
      if get.1.result = ENOSPC then
        (checkBuffSize (env.alloc (2 * i + 1)) b₁.dest get.1.size b₁.task).elim
          (.error (.ret ENOMEM { b₁ with server := { b₁.server with store := get.2 } }))
          fun t' => .ok ({ b₁ with task := t' }.answered S g r k
            (S.get get.2 r.header.groupId k.packFullKey get.1.size))
      else .ok (b₁.answered S g r k get) := by
  unfold batchGetEntry BatchState.answered
  rw [hkey]
  dsimp only
  rw [hroom]
  dsimp only
  rw [← FastTaskInfo.writeKey]
  by_cases h0 : (S.get b.server.store r.header.groupId k.packFullKey
      ((t.writeKey b.dest k).size - (b.dest + 4 + k.szKey.length + 1 : Nat))).1.result = 0
  · rw [if_pos h0, if_neg (by rw [h0]; decide), if_neg (not_not.mpr h0)]
  rw [if_neg h0, if_pos h0]
  by_cases hnospc : (S.get b.server.store r.header.groupId k.packFullKey
      ((t.writeKey b.dest k).size - (b.dest + 4 + k.szKey.length + 1 : Nat))).1.result = ENOSPC
  · rw [if_pos hnospc, if_pos hnospc]
    rcases checkBuffSize (env.alloc (2 * i + 1)) (b.dest + 4 + k.szKey.length + 1)
      (S.get b.server.store r.header.groupId k.packFullKey
        ((t.writeKey b.dest k).size - (b.dest + 4 + k.szKey.length + 1 : Nat))).1.size
      (t.writeKey b.dest k) with _ | t'
    · rfl
    · exact (apply_ite Except.ok _ _ _).symm
  · rw [if_neg hnospc, if_neg hnospc]

end Loop

end FastDht
