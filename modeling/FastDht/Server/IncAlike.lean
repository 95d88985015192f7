import FastDht.Server.MapStore
import FastDht.Server.WorkThread

/-! # The increments of the two stores

`db_inc_ex` reads the old value into the caller's buffer and writes the new one;
`mp_inc_ex` converts the value in the node. Both drop a value that has expired
and one that is too long for the buffer, but they do not mean the same by too
long: Berkeley DB fills a buffer to the last byte, `mp_inc_value` wants one byte
more for the NUL. -/

namespace FastDht
open Lib

/-- The value is live: it never expires, or not before `now`. -/
def liveValue (now : Int) (v : Bytes) : Prop :=
  buff2int v = fdhtExpiresNever ∨ now ≤ buff2int v

instance (now : Int) (v : Bytes) : Decidable (liveValue now v) := inferInstanceAs (Decidable (_ ∨ _))

/-- The new number: a live value that is short enough is scanned, and any other
counts as 0. -/
def incNumber (short : Nat → Bool) (value : Option Bytes) (inc now : Int) : Int :=
  match value with
  | none => inc
  | some v => if liveValue now v ∧ short v.length = true then strtoll (v.drop 4) + inc else inc

section Numbers

variable {v : Bytes}

theorem buff2int_append (h4 : 4 ≤ v.length) (rest : Bytes) : buff2int (v ++ rest) = buff2int v := by
  have hget : ∀ i < 4, (v ++ rest).getD i 0 = v.getD i 0 := fun i hi =>
    List.getD_append _ _ _ _ (by omega)
  unfold buff2int
  rw [hget 0 (by decide), hget 1 (by decide), hget 2 (by decide), hget 3 (by decide)]

theorem strtoll_stack (stack : Bytes) (h4 : 4 ≤ v.length) :
    strtoll ((writeAt (writeAt stack 0 v) v.length [0]).drop 4) = strtoll (v.drop 4) := by
  have hbuff : writeAt (writeAt stack 0 v) v.length [0] =
      v ++ 0 :: (writeAt stack 0 v).drop (v.length + 1) := by
    rw [writeAt_zero, writeAt, List.takeD_left, List.append_assoc]
    rfl
  rw [hbuff, List.drop_append_of_le_length h4, strtoll_append_zero]

theorem not_liveValue {now : Int} : ¬ liveValue now v ↔
    buff2int v ≠ fdhtExpiresNever ∧ buff2int v < now := by
  simp [liveValue, not_or]

theorem dbIncValue_eq (stack : Bytes) (h4 : 4 ≤ v.length) (inc now : Int) :
    dbIncValue stack v inc now = incNumber (fun _ => true) (some v) inc now := by
  unfold dbIncValue incNumber
  dsimp only
  rw [strtoll_stack stack h4, writeAt_zero, buff2int_append h4]
  by_cases hlive : liveValue now v
  · rw [if_neg (fun h => not_liveValue.mpr h hlive), if_pos ⟨hlive, rfl⟩]
  · rw [if_pos (not_liveValue.mp hlive), if_neg (fun h => hlive h.1)]

theorem mpIncValue_eq (tail stack : Bytes) (e now : Int) {value : Option Bytes}
    (h4 : ∀ v, value = some v → 4 ≤ v.length) (inc : Int) (n : Nat) :
    mpIncValue tail stack e now value inc n =
      incValue e (incNumber (fun l => l < n) value inc now) := by
  cases value with
  | none => rfl
  | some v =>
    have hv := h4 v rfl
    unfold mpIncValue incNumber
    dsimp only
    rw [strtoll_stack stack hv, buff2int_append hv]
    by_cases hlive : liveValue now v
    · rw [if_neg (fun h => not_liveValue.mpr h hlive)]
      by_cases hshort : v.length < n
      · rw [if_neg (by omega), if_pos ⟨hlive, by simpa using hshort⟩]
      · rw [if_pos (by omega), if_neg (fun h => hshort (by simpa using h.2))]
    · rw [if_pos (not_liveValue.mp hlive), if_neg (fun h => hlive h.1)]

end Numbers

/-! ## One increment of each store -/

section Stores

variable {db : Bdb} {p : Mpool} {g : Nat} {key : Bytes} {inc : Int} {n : Nat} {e now : Int}

theorem dbIncEx_eq (hget : (db.call db.calls).fail = false)
    (h4 : ∀ v, db.data (g, key) = some v → 4 ≤ v.length) :
    dbIncEx db g key inc n e now =
      if (db.call db.calls).failPut = true then (EFAULT, [], db.next)
      else (0, incValue e (incNumber (fun l => l ≤ n) (db.data (g, key)) inc now),
        db.next.put g key (incValue e (incNumber (fun l => l ≤ n) (db.data (g, key)) inc now))) := by
  have hdo : dbDoGet db g key n = match db.data (g, key) with
      | none => ⟨ENOENT, [], n⟩
      | some v => if (n : Int) < v.length then ⟨ENOSPC, [], v.length⟩ else ⟨0, v, v.length⟩ :=
    if_neg (by simp [hget])
  unfold dbIncEx
  cases hd : db.data (g, key) with
  | none =>
    rw [hd] at hdo
    simp [hdo, incNumber, ENOENT]
  | some v =>
    rw [hd] at hdo
    by_cases hlong : (n : Int) < v.length
    · have hshort : ¬ v.length ≤ n := by omega
      simp only [if_pos hlong] at hdo
      simp [hdo, incNumber, hshort, ENOSPC]
    · have hshort : v.length ≤ n := by omega
      simp only [if_neg hlong] at hdo
      rw [hdo]
      simp only [dbIncValue_eq _ (h4 v hd)]
      simp [incNumber, hshort]

/-- The pool has memory for the number that its increment arrives at. -/
def Mpool.takesInc (p : Mpool) (key : Bytes) (inc : Int) (n : Nat) (e now : Int) : Prop :=
  ¬ incRefused ((p.call p.calls).mem 0) p.hashArray key
    (incValue e (incNumber (fun l => l < n) (p.hashArray.view key) inc now))

/-- What the pool's increment does: it stores its number, or reports that there is
no memory for it. -/
theorem mpIncEx_cases (hi : HashInv p.hashArray)
    (h4 : ∀ v, p.hashArray.view key = some v → 4 ≤ v.length)
    (hc : (mpIncEx p g key inc n e now).2.2.hashArray.capacity < primeArraySize) :
    (¬ p.takesInc key inc n e now ∧
      ((mpIncEx p g key inc n e now).1 = ENOSPC ∨ (mpIncEx p g key inc n e now).1 = ENOMEM)) ∨
    (p.takesInc key inc n e now ∧ (mpIncEx p g key inc n e now).1 = 0 ∧
      (mpIncEx p g key inc n e now).2.1 =
        incValue e (incNumber (fun l => l < n) (p.hashArray.view key) inc now) ∧
      (mpIncEx p g key inc n e now).2.2.hashArray.view key =
        some (incValue e (incNumber (fun l => l < n) (p.hashArray.view key) inc now))) := by
  rcases hashIncEx_cases ((p.call p.calls).mem 0) hi
      (mpIncValue_eq ((p.call p.calls).tail key) (p.call p.calls).stack e now h4 inc n) with
    ⟨hr, hcode, -, -⟩ | ⟨hr, hcode, hvalue, hdone⟩
  · exact .inl ⟨not_not.mpr hr, hcode⟩
  · exact .inr ⟨hr, hcode, hvalue, ((hdone hc).2 key).trans (if_pos rfl)⟩

/-- The increments have the same status and the same reply, and leave the same
bytes. -/
def IncAlike (db : Bdb) (p : Mpool) (g : Nat) (key : Bytes) (inc : Int) (n : Nat) (e now : Int) :
    Prop :=
  (dbIncEx db g key inc n e now).1 = (mpIncEx p g key inc n e now).1 ∧
    (dbIncEx db g key inc n e now).2.1 = (mpIncEx p g key inc n e now).2.1 ∧
    (dbIncEx db g key inc n e now).2.2.data (g, key) =
      (mpIncEx p g key inc n e now).2.2.hashArray.view key

/-- A live value that fills the buffer of `n` bytes to the last one and starts
with a number other than 0. -/
def FillsBuffer (n : Nat) (now : Int) (value : Option Bytes) : Prop :=
  ∃ v, value = some v ∧ v.length = n ∧ liveValue now v ∧ strtoll (v.drop 4) ≠ 0

theorem toInt64_spec (n : Int) : -2 ^ 63 ≤ toInt64 n ∧ toInt64 n < 2 ^ 63 ∧
    ∃ q : Int, toInt64 n = n + 2 ^ 64 * q := by
  unfold toInt64
  split
  · exact ⟨by omega, by omega, -(n / 2 ^ 64), by omega⟩
  · exact ⟨by omega, by omega, -(n / 2 ^ 64) - 1, by omega⟩

theorem incValue_inj {e m m' : Int} : incValue e m = incValue e m' ↔ toInt64 m = toInt64 m' := by
  refine ⟨fun h => ?_, fun h => by rw [incValue, incValue, h]⟩
  have htext : formatInt (toInt64 m) = formatInt (toInt64 m') := List.append_cancel_left h
  have hm := strtoll_formatInt (toInt64_spec m).1 (toInt64_spec m).2.1
  have hm' := strtoll_formatInt (toInt64_spec m').1 (toInt64_spec m').2.1
  rw [← hm, ← hm', htext]

theorem incValue_add_eq {e inc : Int} {text : Bytes} :
    incValue e (strtoll text + inc) = incValue e inc ↔ strtoll text = 0 := by
  rw [incValue_inj]
  have hrange := strtoll_range text
  obtain ⟨-, -, q, hq⟩ := toInt64_spec (strtoll text + inc)
  obtain ⟨-, -, q', hq'⟩ := toInt64_spec inc
  constructor
  · intro h
    omega
  · intro h
    rw [h, zero_add]

theorem incNumber_alike (value : Option Bytes) (inc now : Int) (n : Nat) (e : Int) :
    incValue e (incNumber (fun l => l ≤ n) value inc now) =
        incValue e (incNumber (fun l => l < n) value inc now) ↔
      ¬ FillsBuffer n now value := by
  cases value with
  | none => simp [incNumber, FillsBuffer]
  | some v =>
    by_cases hfull : v.length = n ∧ liveValue now v
    · obtain ⟨hlen, hlive⟩ := hfull
      have hle : incNumber (fun l => l ≤ n) (some v) inc now = strtoll (v.drop 4) + inc :=
        if_pos ⟨hlive, by simpa using hlen.le⟩
      have hlt : incNumber (fun l => l < n) (some v) inc now = inc :=
        if_neg (by simp [hlen])
      have hfills : FillsBuffer n now (some v) ↔ strtoll (v.drop 4) ≠ 0 := by
        simp [FillsBuffer, hlen, hlive]
      rw [hle, hlt, hfills, not_not]
      exact incValue_add_eq
    · have hsame : incNumber (fun l => l ≤ n) (some v) inc now =
          incNumber (fun l => l < n) (some v) inc now := by
        refine if_congr ?_ rfl rfl
        simp only [decide_eq_true_eq]
        constructor
        · rintro ⟨hl, hle⟩
          exact ⟨hl, lt_of_le_of_ne hle fun h => hfull ⟨h, hl⟩⟩
        · rintro ⟨hl, hlt⟩
          exact ⟨hl, hlt.le⟩
      rw [hsame]
      simp only [true_iff]
      rintro ⟨v', hv, hlen, hlive, -⟩
      obtain rfl := Option.some.inj hv
      exact hfull ⟨hlen, hlive⟩

/-- **Two stores that hold the same value for a key increment it alike exactly if
neither fails for want of disk or memory and the value does not fill the buffer.** -/
theorem incEx_alike_iff (hi : HashInv p.hashArray)
    (hsame : p.hashArray.view key = db.data (g, key))
    (h4 : ∀ v, db.data (g, key) = some v → 4 ≤ v.length)
    (hget : (db.call db.calls).fail = false)
    (hc : (mpIncEx p g key inc n e now).2.2.hashArray.capacity < primeArraySize) :
    IncAlike db p g key inc n e now ↔
      (db.call db.calls).failPut = false ∧ p.takesInc key inc n e now ∧
        ¬ FillsBuffer n now (db.data (g, key)) := by
  have hmp := mpIncEx_cases hi (by rwa [hsame]) hc
  unfold IncAlike
  rw [dbIncEx_eq hget h4]
  by_cases hput : (db.call db.calls).failPut = true
  · rw [if_pos hput]
    refine iff_of_false ?_ (fun h => Bool.false_ne_true (h.1.symm.trans hput))
    rintro ⟨hstatus, -⟩
    dsimp only at hstatus
    rcases hmp with ⟨-, hcode | hcode⟩ | ⟨-, hcode, -⟩ <;> rw [hcode] at hstatus <;>
      exact absurd hstatus (by decide)
  · rw [if_neg hput]
    have hput' : (db.call db.calls).failPut = false := by simpa using hput
    rcases hmp with ⟨hno, hcode⟩ | ⟨hyes, hcode, hvalue, hview⟩
    · refine iff_of_false ?_ (fun h => hno h.2.1)
      rintro ⟨hstatus, -⟩
      dsimp only at hstatus
      rcases hcode with hcode | hcode <;> rw [hcode] at hstatus <;>
        exact absurd hstatus (by decide)
    · rw [hcode, hvalue, hview, hsame, ← incNumber_alike _ inc now n e]
      simp only [Bdb.put_data, Function.update_self, Option.some.injEq, true_and, and_self, hput',
        hyes]

end Stores

/-- The two stores with one value under the key `a`. -/
def oneValueDb (value : Bytes) : Bdb :=
  ⟨Function.update (fun _ => none) (0, [97]) (some value), fun _ => ⟨false, false, []⟩, 0⟩

def oneValuePool (value : Bytes) : Mpool :=
  { openPool with hashArray := (hashInsertEx allocates openTable [97] value).2 }

theorem oneValuePool_inv (value : Bytes) : HashInv (oneValuePool value).hashArray :=
  (openTable_ample.run allocates (.insertEx [97] value)).inv

/-- The number 5, without an expiry. -/
theorem incEx_alike_five :
    IncAlike (oneValueDb [0, 0, 0, 0, 53]) (oneValuePool [0, 0, 0, 0, 53]) 0 [97] 1 incValueLen 0
      1000 := by
  refine (incEx_alike_iff (oneValuePool_inv _) (by decide) ?_ rfl (by decide)).mpr
    ⟨rfl, ?_, ?_⟩
  · rintro v hv
    obtain rfl : [0, 0, 0, 0, 53] = v := Option.some.inj hv
    decide
  · rintro ⟨hno, -⟩
    exact absurd hno (by decide)
  · rintro ⟨v, hv, hlen, -⟩
    obtain rfl : [0, 0, 0, 0, 53] = v := Option.some.inj hv
    exact absurd hlen (by decide)

/-- The number 5 with leading zeros, 31 bytes with its expiry. -/
def paddedFive : Bytes := int2buff 0 ++ List.replicate 26 48 ++ [53]

/-- Berkeley DB counts from 5 to 6, the memory pool starts again with 1. -/
theorem incEx_differs_at_buffer_size :
    ¬ ∀ (db : Bdb) (p : Mpool) (g : Nat) (key : Bytes) (inc : Int) (e now : Int),
      db.Quiet → (∀ k i, (p.call k).mem i = allocates) → p.hashArray.maxBytes ≤ 0 →
      p.hashArray.view key = db.data (g, key) →
      (∀ v, db.data (g, key) = some v → 4 ≤ v.length) →
      IncAlike db p g key inc incValueLen e now := by
  intro hall
  have h := hall (oneValueDb paddedFive) (oneValuePool paddedFive) 0 [97] 1 0 1000
    (fun _ => ⟨rfl, rfl⟩) (fun _ _ => rfl) (by decide) (by decide) (by
      intro v hv
      obtain rfl : paddedFive = v := Option.some.inj hv
      decide)
  have hreply := h.2.1
  exact absurd hreply (by decide)

end FastDht
