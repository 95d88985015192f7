import FastDht.Server.TableGrowth

/-! # The memory pool as a map

A call of the memory pool that is refused may cost a key: the old node of the key
is unlinked before its new one is refused, and a set that finds no room clears the
expired keys. A call that drops no key is exact, whatever the allocator answers
and however full the table is. -/
namespace FastDht
open Lib

/-- A key of the table is not in it any more. -/
def Mpool.drops (p p' : Mpool) : Bool :=
  p.hashArray.nodes.any fun d => (p'.hashArray.view d.key).isNone

/-- A call that is no delete drops a key. -/
def mpLoses (p : Mpool) (g : Nat) (key : Bytes) : StoreCall → Bool
  | .delete => false
  | c => p.drops (mpoolFuncs.run p g key c).2

theorem Mpool.keeps_of_drops {p p' : Mpool} (hi : HashInv p.hashArray) (h : p.drops p' = false)
    {k : Bytes} (hk : p'.hashArray.view k = none) : p.hashArray.view k = none := by
  rw [hi.view_eq (List.Perm.refl _), nodeView, Option.map_eq_none_iff, findKey_eq_none]
  intro d hd hdk
  have hsome := List.any_eq_false.mp h d hd
  rw [hdk, hk] at hsome
  exact hsome rfl

/-- A map from which some keys have been dropped, and none of those it had, is that map. -/
theorem eq_of_thinned {v v' : Bytes → Option Bytes} (hthin : ∀ k, v' k = none ∨ v' k = v k)
    (hkeeps : ∀ k, v' k = none → v k = none) : v' = v := by
  funext k
  rcases hthin k with hk | hk
  · rw [hk, hkeeps k hk]
  · exact hk

theorem thins_trans {v v₁ v₂ : Option Bytes} (h : v₁ = none ∨ v₁ = v)
    (h' : v₂ = none ∨ v₂ = v₁) : v₂ = none ∨ v₂ = v := by
  rcases h' with h' | rfl
  · exact .inl h'
  · exact h

/-- An operation that drops no key has done what its status says. -/
theorem HashOp.run_exact (op : HashOp) (mem : Malloc) {h : HashArray} (hb : h.Bounded)
    (hkeeps : ∀ k, (op.run mem h).2.view k = none → h.view k = none ∨ ¬ op.refused mem h) :
    (op.run mem h).2.view = op.spec (op.run mem h).1 h.view := by
  funext k
  refine (op.run_agrees mem hb.inv (fun _ => rfl) (hb.run mem op).capacity).mpr ?_ k
  rintro ⟨hsome, hr⟩
  rcases op.run_cases mem hb.inv with ⟨-, -, -, -, hview⟩ | ⟨hr', -⟩ | ⟨hr', -⟩
  · rcases hkeeps op.key ((hview op.key).trans (if_pos rfl)) with hnone | hr'
    · rw [hnone] at hsome
      cases hsome
    · exact hr' hr
  · exact hr' hr
  · exact hr' hr

/-! ## Sets -/

theorem mpClearExpiredKeys_thins (c : ClearCall) (tail : Bytes → Bytes) {p : Mpool}
    (hb : p.hashArray.Bounded) :
    (mpClearExpiredKeys c tail p).2.hashArray.Bounded ∧
      ∀ k, (mpClearExpiredKeys c tail p).2.hashArray.view k = none ∨
        (mpClearExpiredKeys c tail p).2.hashArray.view k = p.hashArray.view k := by
  unfold mpClearExpiredKeys
  split
  · exact ⟨hb, fun _ => .inr rfl⟩
  · cases c.tvStart with
    | none => exact ⟨hb, fun _ => .inr rfl⟩
    | some now =>
      dsimp only
      split
      · exact ⟨hb, fun _ => .inr rfl⟩
      · refine ⟨hb.run ⟨true, true, true⟩ (.clear now tail), fun k => ?_⟩
        dsimp only
        rw [(hb.inv.clearExpired now tail).2]
        cases p.hashArray.view k with
        | none => exact .inl rfl
        | some v =>
          by_cases hkeep : keepsValue now tail k v = true
          · exact .inr (Option.filter_some_pos hkeep)
          · exact .inl (Option.filter_some_neg (Bool.eq_false_iff.mpr hkeep))

/-- A set stores its value or fails, and drops other keys at most. -/
theorem mpDoSet_thins (c : MpCall) (key value : Bytes) (n : Nat) :
    ∀ (i : Nat) (result : Int) (p : Mpool), p.hashArray.Bounded → (n = 0 → result ≠ 0) →
      (mpDoSet c key value n i result p).2.hashArray.Bounded ∧
      ((mpDoSet c key value n i result p).1 = 0 →
        (mpDoSet c key value n i result p).2.hashArray.view key = some value) ∧
      ∀ k, (k = key → (mpDoSet c key value n i result p).1 ≠ 0) →
        (mpDoSet c key value n i result p).2.hashArray.view k = none ∨
        (mpDoSet c key value n i result p).2.hashArray.view k = p.hashArray.view k := by
  induction n with
  | zero =>
    intro i result p hb hne
    exact ⟨hb, fun h0 => absurd h0 (hne rfl), fun _ _ => .inr rfl⟩
  | succ n ih =>
    intro i result p hb _
    have hb' := hb.run (c.mem i) (.insertEx key value)
    rcases insertStatus_cases (c.mem i) hb.inv key value with
      ⟨-, hneg, -, -, hview⟩ | ⟨-, hpos, -, hdone⟩
    · have hthin : ∀ k, (hashInsertEx (c.mem i) p.hashArray key value).2.view k = none ∨
          (hashInsertEx (c.mem i) p.hashArray key value).2.view k = p.hashArray.view k := by
        intro k
        rw [hview]
        split
        · exact .inl rfl
        · exact .inr rfl
      have hfail : -(hashInsertEx (c.mem i) p.hashArray key value).1 ≠ 0 := by omega
      obtain ⟨hclear, hcleared⟩ := mpClearExpiredKeys_thins (c.clear i) c.tail
        (p := { p with hashArray := (hashInsertEx (c.mem i) p.hashArray key value).2 }) hb'
      have hboth := fun k => thins_trans (hthin k) (hcleared k)
      simp only [mpDoSet, if_pos hneg]
      split_ifs with hspace hcount
      · obtain ⟨hlast, hset, hrest⟩ := ih (i + 1) (-(hashInsertEx (c.mem i) p.hashArray key value).1)
          _ hclear fun _ => hfail
        exact ⟨hlast, hset, fun k hk => thins_trans (hboth k) (hrest k hk)⟩
      · exact ⟨hclear, fun h0 => absurd h0 hfail, fun k _ => hboth k⟩
      · exact ⟨hb', fun h0 => absurd h0 hfail, fun k _ => hthin k⟩
    · obtain ⟨-, hview⟩ := hdone hb'.capacity
      simp only [mpDoSet, if_neg (not_lt.mpr hpos)]
      refine ⟨hb', fun _ => (hview key).trans (if_pos rfl), fun k hk => .inr ?_⟩
      exact (hview k).trans (if_neg fun heq => hk heq rfl)

/-! ## The store -/

/-- The memory pool functions with the mark beside them. -/
def mpoolStore : KeyStore (Mpool × Bool) Bytes where
  toStoreFuncs := mpoolFuncs.watched mpLoses
  slot := fun _ k => k
  lookup := fun s => s.1.hashArray.view
  Valid := fun s => s.1.hashArray.Bounded
  lost := Prod.snd
  lost_run := by
    intro s g k c h
    rw [StoreFuncs.watched_run] at h
    exact (Bool.or_eq_false_iff.mp h).1
  run_exact := by
    intro s g k c hb hlost
    rw [StoreFuncs.watched_run] at hlost ⊢
    rw [StoreFuncs.watched_result]
    have hlost := (Bool.or_eq_false_iff.mp hlost).2
    obtain ⟨p, b⟩ := s
    dsimp only at hb hlost ⊢
    cases c with
    | get size =>
      rw [StoreFuncs.result, Function.update_eq_self, ite_self]
      exact ⟨hb, rfl⟩
    | set value =>
      obtain ⟨hb', hset, hthin⟩ := mpDoSet_thins (p.call p.calls) k value 2 0 0
        { p with calls := p.calls + 1 } hb fun h2 => absurd h2 (by decide)
      refine ⟨hb', ?_⟩
      have hkeeps : ∀ j, (mpSet p g k value).2.hashArray.view j = none →
          p.hashArray.view j = none := fun j => Mpool.keeps_of_drops hb.inv hlost
      by_cases h0 : (mpSet p g k value).1 = 0
      · refine Eq.trans (funext fun j => ?_) (if_pos h0).symm
        rw [StoreFuncs.result, Function.update_apply]
        split
        · rename_i hj
          rw [hj]
          exact hset h0
        · rename_i hj
          rcases hthin j fun h => absurd h hj with hnone | hsame
          · rw [hkeeps j hnone]
            exact hnone
          · exact hsame
      · exact (eq_of_thinned (fun j => hthin j fun _ => h0) hkeeps).trans (if_neg h0).symm
    | partialSet value offset =>
      refine ⟨hb.run _ (.partialSet k value offset), ?_⟩
      exact HashOp.run_exact (.partialSet k value offset) ((p.call p.calls).mem 0) hb
        fun j hj => .inl (Mpool.keeps_of_drops hb.inv hlost hj)
    | delete =>
      refine ⟨hb.run allocates (.delete k), ?_⟩
      exact HashOp.run_exact (.delete k) allocates hb fun _ _ => .inr id
    | incEx inc n e now =>
      refine ⟨hb.run ((p.call p.calls).mem 0) (.incEx k inc n
        (mpIncValue ((p.call p.calls).tail k) (p.call p.calls).stack e now)), ?_⟩
      have hrun := HashOp.run_exact (.incEx k inc n
        (mpIncValue ((p.call p.calls).tail k) (p.call p.calls).stack e now))
        ((p.call p.calls).mem 0) hb fun j hj => .inl (Mpool.keeps_of_drops hb.inv hlost hj)
      refine hrun.trans ?_
      by_cases h0 : (mpIncEx p g k inc n e now).1 = 0
      · rcases hashIncEx_cases ((p.call p.calls).mem 0) hb.inv
          (rfl : mpIncValue ((p.call p.calls).tail k) (p.call p.calls).stack e now
            (p.hashArray.view k) inc n = _) with ⟨-, hcode, -⟩ | ⟨-, -, hvalue, -⟩
        · exact absurd h0 (by rcases hcode with hcode | hcode <;> exact hcode ▸ by decide)
        · refine (if_pos h0).trans (Eq.trans ?_ (if_pos h0).symm)
          rw [StoreFuncs.result]
          exact congrArg (fun v => Function.update p.hashArray.view k (some v)) hvalue.symm
      · exact (if_neg h0).trans (if_neg h0).symm

/-- A table of one bucket with the smallest cache the server accepts; it grows when it has as
many nodes as buckets. -/
def cachedTable : HashArray := ⟨[[]], fun _ => 0, 0, 0, fun n c => (c : Int) ≤ n, 1048576, 8⟩

theorem cachedTable_bounded : cachedTable.Bounded where
  inv := (hashInitEx_inv (show hashInitEx allocates (fun _ => 0) 0 (fun n c => (c : Int) ≤ n)
    1048576 = .ok cachedTable from rfl)).1
  capacity := by decide
  stays := .inl ⟨by decide, by decide, by decide⟩

end FastDht
