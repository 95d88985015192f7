import FastDht.Server.MpoolSoundness

/-! # Tables that stay within the prime table

`_rehash` moves the capacity on by one prime and does not look whether it was the
last. A table whose byte cap has no room for the largest bucket array never gets
there, nor does one whose load test does not ask for more. -/
namespace FastDht
open Lib

/-- The largest prime. -/
def lastPrime : Nat := 2147483647

/-- What an operation does to the parameters of the table: the capacity moves on by
one prime at most, and only if the load test asks for it and the cap allows it. -/
structure HashArray.Grows (h h' : HashArray) : Prop where
  maxBytes : h'.maxBytes = h.maxBytes
  loadTest : h'.loadTest = h.loadTest
  capacity : h'.capacity = h.capacity ∨ h'.capacity = h.capacity + 1 ∧
    (∃ n, h.loadTest n h.cap = true) ∧
    (0 < h.maxBytes → 8 * (primeArray.getD (h.capacity + 1) 0 : Int) ≤ h.maxBytes)

theorem HashArray.Grows.of_eq {h h' : HashArray} (hm : h'.maxBytes = h.maxBytes)
    (hl : h'.loadTest = h.loadTest) (hc : h'.capacity = h.capacity) : h.Grows h' :=
  ⟨hm, hl, .inl hc⟩

theorem rehash_cap {mem : Malloc} {h : HashArray} (hr : (rehash mem h).1 = 0)
    (hmax : 0 < h.maxBytes) :
    h.bytesUsed + 8 * (primeArray.getD (h.capacity + 1) 0 : Int) ≤ h.maxBytes := by
  unfold rehash rehash1 hashAllocBuckets at hr
  dsimp only at hr
  split_ifs at hr with h1
  · simp [ENOSPC] at hr
  all_goals
    have hle := not_and.mp h1 hmax
    simp only [HashArray.cap] at hle
    push_cast at hle
    omega

theorem insertNode_grows (mem : Malloc) {h : HashArray} (hb : 0 ≤ h.bytesUsed) (key value : Bytes) :
    h.Grows (insertNode mem h key value).2 := by
  unfold insertNode
  dsimp only
  split_ifs with h1 h2 h3 h4
  · exact .of_eq rfl rfl rfl
  · exact .of_eq rfl rfl rfl
  · exact .of_eq rfl rfl rfl
  · obtain ⟨grown, hgrown⟩ : ∃ grown, grown = { h with bytesUsed := h.bytesUsed +
        (calcNodeMallocBytes key.length (memAlign value.length) : Nat) }.addToBucket
        ⟨key, value, memAlign value.length⟩ := ⟨_, rfl⟩
    have hmax : grown.maxBytes = h.maxBytes := by rw [hgrown]; rfl
    have hcap : grown.capacity = h.capacity := by rw [hgrown]; rfl
    have hload : grown.loadTest = h.loadTest := by rw [hgrown]; rfl
    have hused : 0 ≤ grown.bytesUsed := by
      rw [hgrown]
      exact Int.add_nonneg hb (Int.natCast_nonneg _)
    rw [← hgrown]
    by_cases hr : (rehash mem grown).1 = 0
    · obtain ⟨b, hshape, -⟩ := rehash_grown hr
      have hroom := rehash_cap hr
      rw [hshape]
      refine ⟨hmax, hload, .inr ⟨congrArg (· + 1) hcap, ⟨_, h4⟩, fun hpos => ?_⟩⟩
      rw [hmax, hcap] at hroom
      have := hroom hpos
      omega
    · rw [rehash_fail hr]
      exact .of_eq hmax hload hcap
  · exact .of_eq rfl rfl rfl

theorem HashInv.bytesUsed_nonneg {h : HashArray} (hi : HashInv h) : 0 ≤ h.bytesUsed := by
  have := hi.bytes
  omega

theorem hashInsertEx_grows (mem : Malloc) {h : HashArray} (hi : HashInv h) (key value : Bytes) :
    h.Grows (hashInsertEx mem h key value).2 := by
  unfold hashInsertEx
  split
  · rename_i d hf
    split
    · exact .of_eq rfl rfl rfl
    · obtain ⟨hmax, hload, hcap⟩ := insertNode_grows mem
        (hi.deleteFromBucket hf).1.bytesUsed_nonneg key value
      exact ⟨hmax, hload, hcap⟩
  · exact insertNode_grows mem hi.bytesUsed_nonneg key value

theorem HashOp.run_grows (op : HashOp) (mem : Malloc) {h : HashArray} (hi : HashInv h) :
    h.Grows (op.run mem h).2 := by
  cases op with
  | insertEx key value => exact hashInsertEx_grows mem hi key value
  | incEx key inc valueLen convert =>
    simp only [HashOp.run, hashIncEx]
    split_ifs
    · exact .of_eq rfl rfl rfl
    · exact hashInsertEx_grows mem hi key _
    · exact hashInsertEx_grows mem hi key _
  | partialSet key value offset =>
    simp only [HashOp.run, hashPartialSet]
    split <;> split_ifs
    · exact .of_eq rfl rfl rfl
    · exact .of_eq rfl rfl rfl
    · exact .of_eq rfl rfl rfl
    · exact hashInsertEx_grows mem hi key _
    · exact .of_eq rfl rfl rfl
    · exact hashInsertEx_grows mem hi key value
  | delete key =>
    simp only [HashOp.run, hashDelete]
    split <;> exact .of_eq rfl rfl rfl
  | clear currentTime tail =>
    rw [HashOp.run, clearExpired_eq h currentTime tail rfl]
    exact .of_eq rfl rfl rfl

/-- A table that does not outgrow the prime table. -/
structure HashArray.Bounded (h : HashArray) : Prop where
  inv : HashInv h
  capacity : h.capacity < primeArraySize
  stays : (h.capacity + 1 < primeArraySize ∧ 0 < h.maxBytes ∧ h.maxBytes < 8 * lastPrime) ∨
    ∀ n, h.loadTest n lastPrime = false

theorem HashArray.Bounded.grows {h h' : HashArray} (hb : h.Bounded) (hg : h.Grows h') :
    h'.capacity < primeArraySize ∧
      ((h'.capacity + 1 < primeArraySize ∧ 0 < h'.maxBytes ∧ h'.maxBytes < 8 * lastPrime) ∨
        ∀ n, h'.loadTest n lastPrime = false) := by
  have hlt := hb.capacity
  rw [hg.maxBytes, hg.loadTest]
  rcases hg.capacity with hcap | ⟨hcap, ⟨n, hload⟩, hroom⟩
  · rw [hcap]
    exact ⟨hlt, hb.stays⟩
  · rw [hcap]
    rcases hb.stays with ⟨hlast, hpos, hmax⟩ | hstays
    · have hne : h.capacity + 1 ≠ primeArraySize - 1 := by
        intro heq
        have hbytes := hroom hpos
        rw [heq, show primeArray.getD (primeArraySize - 1) 0 = lastPrime from rfl] at hbytes
        omega
      unfold primeArraySize at *
      exact ⟨hlast, .inl ⟨by omega, hpos, hmax⟩⟩
    · have hne : h.capacity ≠ primeArraySize - 1 := by
        intro heq
        rw [HashArray.cap, heq, show primeArray.getD (primeArraySize - 1) 0 = lastPrime from rfl,
          hstays] at hload
        cases hload
      unfold primeArraySize at *
      exact ⟨by omega, .inr hstays⟩

/-- **No operation makes a table outgrow the prime table.** -/
theorem HashArray.Bounded.run {h : HashArray} (hb : h.Bounded) (mem : Malloc) (op : HashOp) :
    (op.run mem h).2.Bounded := by
  obtain ⟨hc, hstays⟩ := hb.grows (op.run_grows mem hb.inv)
  refine ⟨?_, hc, hstays⟩
  rcases op.run_cases mem hb.inv with ⟨-, -, -, hinv, -⟩ | ⟨-, -, hsame⟩ | ⟨-, -, hdone⟩
  · exact hinv
  · rw [hsame]
    exact hb.inv
  · exact (hdone hc).1

end FastDht
