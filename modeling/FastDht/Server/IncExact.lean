import FastDht.Server.IncAlike
import FastDht.Server.StoredValues

/-! # The sum of an increment

A counter is stored as the decimal text of a 64-bit number. Both stores scan the text, add
the increment and print the sum; neither looks for an overflow. The text has at most 20
characters, so it always fits the buffer of `deal_cmd_inc`. -/
namespace FastDht
open Lib

/-- The signed 64-bit range. -/
def isInt64 (n : Int) : Prop := -2 ^ 63 ≤ n ∧ n < 2 ^ 63

instance (n : Int) : Decidable (isInt64 n) := inferInstanceAs (Decidable (_ ∧ _))

def counterValue (expires n : Int) : Bytes := int2buff expires ++ formatInt n

def incAnswer (t : FastTaskInfo) : Bytes :=
  readAt t.data (sizeofHeader + 4) (t.length - (sizeofHeader + 4)).toNat

section Exact

variable {σ : Type}

/-- INC of a counter `n` is exact: the text of the sum is stored and returned, or, if the sum is
out of range, there is an error and the value stays as it was. `value` looks up the key in the
store. -/
def IncExact (S : StoreFuncs σ) (value : σ → Option Bytes) (g : Globals) (t : FastTaskInfo)
    (r : KeyRequest) (s : Server σ) (n : Int) : Prop :=
  if isInt64 (n + t.bodyInt r.off) then
    (dealCmdInc S g t s).status = 0 ∧
      incAnswer (dealCmdInc S g t s).task = formatInt (n + t.bodyInt r.off) ∧
      (value (incCall S g r t s).2.2).map (List.drop 4) = some (formatInt (n + t.bodyInt r.off))
  else (dealCmdInc S g t s).status ≠ 0 ∧ value (incCall S g r t s).2.2 = value s.store

variable {S : StoreFuncs σ} {g : Globals} {t : FastTaskInfo} {r : KeyRequest}

theorem dealCmdInc_answer (hp : parseExact g 16 true t = some r) {s : Server σ}
    (h0 : (incCall S g r t s).1 = 0) {e m : Int} (hvalue : (incCall S g r t s).2.1 = incValue e m) :
    incAnswer (dealCmdInc S g t s).task = formatInt (toInt64 m) := by
  have hdrop : (incValue e m).drop 4 = formatInt (toInt64 m) := by
    exact List.drop_left' (int2buff_length e)
  have hlength : ((incValue e m).length : Int) - 4 = (formatInt (toInt64 m)).length := by
    unfold incValue
    rw [List.length_append, int2buff_length]
    omega
  unfold dealCmdInc
  rw [hp]
  dsimp only
  split
  · rename_i hne
    exact absurd h0 hne
  · change readAt (writeAt _ (sizeofHeader + 4) ((incCall S g r t s).2.1.drop 4)) (sizeofHeader + 4)
      ((sizeofHeader : Int) + 4 + (((incCall S g r t s).2.1.length : Int) - 4) -
        (sizeofHeader + 4)).toNat = _
    have hlen : ((sizeofHeader : Int) + 4 + (formatInt (toInt64 m)).length -
        (sizeofHeader + 4)).toNat = (formatInt (toInt64 m)).length := by omega
    rw [hvalue, hlength, hdrop, hlen, readAt_writeAt_self]

theorem toInt64_of_range {n : Int} (h : isInt64 n) : toInt64 n = n := by
  obtain ⟨hl, hu⟩ := h
  obtain ⟨hl', hu', q, hq⟩ := toInt64_spec n
  omega

/-- **A store call that prints the sum and succeeds is exact in range**, and only there. -/
theorem incExact_of_sum (hp : parseExact g 16 true t = some r) {s : Server σ}
    {value : σ → Option Bytes} {e n : Int} (h0 : (incCall S g r t s).1 = 0)
    (hvalue : (incCall S g r t s).2.1 = incValue e (n + t.bodyInt r.off))
    (hstored : value (incCall S g r t s).2.2 = some (incValue e (n + t.bodyInt r.off))) :
    IncExact S value g t r s n ↔ isInt64 (n + t.bodyInt r.off) := by
  have hstatus : (dealCmdInc S g t s).status = 0 := (dealCmdInc_eq hp s).1.trans h0
  unfold IncExact
  by_cases hin : isInt64 (n + t.bodyInt r.off)
  · rw [if_pos hin, dealCmdInc_answer hp h0 hvalue, hstored, toInt64_of_range hin]
    refine iff_of_true ⟨hstatus, rfl, ?_⟩ hin
    unfold incValue
    rw [Option.map_some, toInt64_of_range hin, List.drop_left' (int2buff_length e)]
  · rw [if_neg hin]
    exact iff_of_false (fun h => h.1 hstatus) hin

end Exact

/-! ## The two stores -/

section Stores

variable {g : Globals} {t : FastTaskInfo} {r : KeyRequest} {n e : Int}

theorem counterValue_length (hn : isInt64 n) : (counterValue e n).length < incValueLen := by
  have hlen := formatInt_length_int64 hn.1 hn.2
  unfold counterValue
  rw [List.length_append, int2buff_length]
  exact lt_of_le_of_lt (Nat.add_le_add_left hlen 4) (by decide)

theorem incNumber_counter (hn : isInt64 n) {now : Int} (hlive : liveValue now (counterValue e n))
    (short : Nat → Bool) (hshort : short (counterValue e n).length = true) (inc : Int) :
    incNumber short (some (counterValue e n)) inc now = n + inc := by
  unfold incNumber
  dsimp only
  rw [if_pos ⟨hlive, hshort⟩]
  unfold counterValue
  rw [List.drop_left' (int2buff_length e), strtoll_formatInt hn.1 hn.2]

theorem counterValue_four {value : Option Bytes} (h : value = some (counterValue e n)) :
    ∀ v, value = some v → 4 ≤ v.length := by
  intro v hv
  rw [h] at hv
  rw [← Option.some.inj hv, counterValue, List.length_append, int2buff_length]
  omega

/-- The calls of Berkeley DB that an increment makes succeed. -/
def Bdb.takesInc (db : Bdb) : Prop :=
  (db.call db.calls).fail = false ∧ (db.call db.calls).failPut = false

theorem dbIncEx_fails {db : Bdb} (h : ¬ db.takesInc) (grp : Nat) (key : Bytes) (inc : Int)
    (size : Nat) (e now : Int) :
    (dbIncEx db grp key inc size e now).1 ≠ 0 ∧
      (dbIncEx db grp key inc size e now).2.2.data = db.data := by
  unfold dbIncEx
  dsimp only
  by_cases hfail : (db.call db.calls).fail = true
  · have hget : (dbDoGet db grp key size).result = EFAULT := by
      unfold dbDoGet
      rw [if_pos hfail]
    rw [hget, if_pos (by decide)]
    exact ⟨(by decide : EFAULT ≠ 0), rfl⟩
  · have hput : (db.call db.calls).failPut = true := by
      by_contra hput
      exact h ⟨Bool.eq_false_iff.mpr hfail, Bool.eq_false_iff.mpr hput⟩
    by_cases hget : (dbDoGet db grp key size).result ≠ 0 ∧
        (dbDoGet db grp key size).result ≠ ENOENT ∧ (dbDoGet db grp key size).result ≠ ENOSPC
    · rw [if_pos hget]
      exact ⟨hget.1, rfl⟩
    · rw [if_neg hget, if_pos hput]
      exact ⟨(by decide : EFAULT ≠ 0), rfl⟩

variable (hp : parseExact g 16 true t = some r) (hn : isInt64 n)
  (hlive : liveValue g.currentTime (counterValue e n))
include hp hn hlive

theorem bdb_incExact_iff {s : Server Bdb}
    (hs : s.store.data (r.header.groupId, r.keyInfo.packFullKey) = some (counterValue e n)) :
    IncExact bdbFuncs (fun db => db.data (r.header.groupId, r.keyInfo.packFullKey))
        g t r s n ↔ (isInt64 (n + t.bodyInt r.off) ↔ s.store.takesInc) := by
  have hstatus := (dealCmdInc_eq (S := bdbFuncs) hp s).1
  by_cases htakes : s.store.takesInc
  · have hsum := incNumber_counter hn hlive (fun l => l ≤ incValueLen)
      (decide_eq_true (counterValue_length hn).le) (t.bodyInt r.off)
    have hcall : incCall bdbFuncs g r t s = _ :=
      dbIncEx_eq htakes.1 (counterValue_four hs)
    rw [if_neg (by rw [htakes.2]; decide), hs, hsum] at hcall
    rw [iff_true_right htakes]
    refine incExact_of_sum hp (by rw [hcall]) (by rw [hcall]) ?_
    rw [hcall]
    exact Function.update_self _ _ _
  · obtain ⟨hne, hdata⟩ := dbIncEx_fails htakes r.header.groupId r.keyInfo.packFullKey
      (t.bodyInt r.off) incValueLen (toInt32 r.header.newExpires) g.currentTime
    rw [iff_false_right htakes]
    unfold IncExact
    by_cases hin : isInt64 (n + t.bodyInt r.off)
    · rw [if_pos hin, hstatus]
      exact iff_of_false (fun h => hne h.1) (not_not.mpr hin)
    · rw [if_neg hin, hstatus]
      exact iff_of_true ⟨hne, congrFun hdata _⟩ hin

theorem mpool_incExact_iff {s : Server Mpool}
    (hs : s.store.hashArray.view r.keyInfo.packFullKey = some (counterValue e n))
    (hi : HashInv s.store.hashArray)
    (hc : (incCall mpoolFuncs g r t s).2.2.hashArray.capacity < primeArraySize) :
    IncExact mpoolFuncs (fun p => p.hashArray.view r.keyInfo.packFullKey) g t r s n ↔
      isInt64 (n + t.bodyInt r.off) ∧ s.store.takesInc r.keyInfo.packFullKey (t.bodyInt r.off)
        incValueLen (toInt32 r.header.newExpires) g.currentTime := by
  have hsum := incNumber_counter hn hlive (fun l => l < incValueLen)
    (decide_eq_true (counterValue_length hn)) (t.bodyInt r.off)
  have hnumber := mpIncValue_eq ((s.store.call s.store.calls).tail r.keyInfo.packFullKey)
    (s.store.call s.store.calls).stack (toInt32 r.header.newExpires) g.currentTime
    (counterValue_four hs) (t.bodyInt r.off) incValueLen
  have htakes : s.store.takesInc r.keyInfo.packFullKey (t.bodyInt r.off) incValueLen
      (toInt32 r.header.newExpires) g.currentTime ↔ ¬ incRefused
        ((s.store.call s.store.calls).mem 0) s.store.hashArray r.keyInfo.packFullKey
        (incValue (toInt32 r.header.newExpires) (n + t.bodyInt r.off)) := by
    unfold Mpool.takesInc
    rw [hs, hsum]
  rw [hs, hsum] at hnumber
  rw [htakes]
  have hstatus := (dealCmdInc_eq (S := mpoolFuncs) hp s).1
  rcases hashIncEx_cases ((s.store.call s.store.calls).mem 0) hi (hs ▸ hnumber) with
    ⟨hr, hcode, -, hview⟩ | ⟨hr, hcode, hvalue, hdone⟩
  · have hne : (dealCmdInc mpoolFuncs g t s).status ≠ 0 := by
      rw [hstatus]
      rcases hcode with hcode | hcode
      · exact ne_of_eq_of_ne hcode (by decide)
      · exact ne_of_eq_of_ne hcode (by decide)
    refine iff_of_false ?_ (fun h => h.2 hr)
    unfold IncExact
    split
    · exact fun h => hne h.1
    · intro h
      have hgone := (hview r.keyInfo.packFullKey).trans (if_pos rfl)
      exact Option.some_ne_none _ (hs.symm.trans (h.2.symm.trans hgone))
  · rw [and_iff_left hr]
    exact incExact_of_sum hp hcode hvalue
      (((hdone hc).2 r.keyInfo.packFullKey).trans (if_pos rfl))

end Stores

/-- **INC of a counter is exact if the sum is in the signed 64-bit range and the store performs
it.** If the sum overflows, the wrapped number is stored and returned. -/
theorem inc_exact_iff (g : Globals) (t : FastTaskInfo) (r : KeyRequest)
    (hp : parseExact g 16 true t = some r) (n e : Int) (hn : isInt64 n)
    (hlive : liveValue g.currentTime (counterValue e n)) :
    (∀ s : Server Bdb,
      s.store.data (r.header.groupId, r.keyInfo.packFullKey) = some (counterValue e n) →
      (IncExact bdbFuncs (fun db => db.data (r.header.groupId, r.keyInfo.packFullKey))
        g t r s n ↔ (isInt64 (n + t.bodyInt r.off) ↔ s.store.takesInc))) ∧
    (∀ s : Server Mpool,
      s.store.hashArray.view r.keyInfo.packFullKey = some (counterValue e n) →
      HashInv s.store.hashArray →
      (incCall mpoolFuncs g r t s).2.2.hashArray.capacity < primeArraySize →
      (IncExact mpoolFuncs (fun p => p.hashArray.view r.keyInfo.packFullKey) g t r s n ↔
        isInt64 (n + t.bodyInt r.off) ∧ s.store.takesInc r.keyInfo.packFullKey (t.bodyInt r.off)
          incValueLen (toInt32 r.header.newExpires) g.currentTime)) :=
  ⟨fun _ hs => bdb_incExact_iff hp hn hlive hs,
    fun _ hs hi hc => mpool_incExact_iff hp hn hlive hs hi hc⟩

/-! ## A counter under the key `a` -/

/-- INC of the key `a` by 1. -/
def incRequest : FastTaskInfo :=
  request .inc 1000 0 (int2buff 0 ++ int2buff 0 ++ int2buff 1 ++ [97] ++ int2buff 1)

def incRequestKey : FDHTKeyInfo := ⟨[], [], [97], noNamespace_le, noObjectId_le, keyA_le⟩

theorem incRequest_parsed : ∃ r, parseExact oneGroup 16 true incRequest = some r ∧
    r.header.groupId = 0 ∧ r.keyInfo = incRequestKey ∧ incRequest.bodyInt r.off = 1 :=
  ⟨_, rfl, rfl, rfl, rfl⟩

def counterDb (n : Int) : Server Bdb :=
  ⟨⟨Function.update (fun _ => none) (0, incRequestKey.packFullKey) (some (counterValue 0 n)),
    fun _ => ⟨false, false, []⟩, 0⟩, [], default⟩

theorem inc_exact_five : ∃ r, parseExact oneGroup 16 true incRequest = some r ∧
    IncExact bdbFuncs (fun db => db.data (r.header.groupId, r.keyInfo.packFullKey))
      oneGroup incRequest r (counterDb 5) 5 := by
  obtain ⟨r, hp, hg, hk, hinc⟩ := incRequest_parsed
  have hiff := (inc_exact_iff oneGroup incRequest r hp 5 0 (by decide) (by decide)).1 (counterDb 5)
    (by rw [hg, hk]; rfl)
  refine ⟨r, hp, hiff.mpr ?_⟩
  rw [hinc]
  exact iff_of_true (by decide) ⟨rfl, rfl⟩

/-- The largest number plus 1 is the smallest, without an error. -/
theorem inc_wraps : ¬ ∀ (g : Globals) (t : FastTaskInfo) (r : KeyRequest) (n e : Int)
    (s : Server Bdb), parseExact g 16 true t = some r → isInt64 n →
    liveValue g.currentTime (counterValue e n) → s.store.Quiet →
    s.store.data (r.header.groupId, r.keyInfo.packFullKey) = some (counterValue e n) →
    IncExact bdbFuncs (fun db => db.data (r.header.groupId, r.keyInfo.packFullKey))
      g t r s n := by
  intro h
  obtain ⟨r, hp, hg, hk, hinc⟩ := incRequest_parsed
  have hn : isInt64 (2 ^ 63 - 1) := by decide
  have hlive : liveValue oneGroup.currentTime (counterValue 0 (2 ^ 63 - 1)) := .inl (by decide)
  have hs : (counterDb (2 ^ 63 - 1)).store.data (r.header.groupId, r.keyInfo.packFullKey) =
      some (counterValue 0 (2 ^ 63 - 1)) := by
    rw [hg, hk]
    rfl
  have hexact := h oneGroup incRequest r (2 ^ 63 - 1) 0 (counterDb (2 ^ 63 - 1)) hp hn hlive
    (fun _ => ⟨rfl, rfl⟩) hs
  rw [bdb_incExact_iff hp hn hlive hs, hinc] at hexact
  exact absurd (hexact.mpr ⟨rfl, rfl⟩) (by decide)

end FastDht
