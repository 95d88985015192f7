import FastDht.Server.KeyOp

/-! # The size of a sub-key list

A list is read into a buffer of `FDHT_KEY_LIST_MAX_SIZE` bytes, and what an
update adds to it is checked against the same limit, so its length is far from
the range of `int`. -/
namespace FastDht
open Lib

variable {σ : Type}

@[simp] theorem joinKeys_nil : joinKeys [] = [] := rfl

@[simp] theorem joinKeys_cons (k : Bytes) (keys : List Bytes) :
    joinKeys (k :: keys) = fdhtFullKeySeperator :: k ++ joinKeys keys := rfl

@[simp] theorem joinKeys_append (a b : List Bytes) : joinKeys (a ++ b) = joinKeys a ++ joinKeys b :=
  List.flatMap_append

theorem joinKeys_sublist {a b : List Bytes} (h : a.Sublist b) :
    (joinKeys a).length ≤ (joinKeys b).length := by
  induction h with
  | slnil => simp
  | cons k _ ih =>
    simp only [joinKeys_cons, List.length_append]
    omega
  | cons_cons k _ ih =>
    simp only [joinKeys_cons, List.length_append]
    omega

theorem joinKeys_insert (key : Bytes) (keys : List Bytes) (p : Bytes → Bool) :
    (joinKeys (keys.takeWhile p ++ key :: keys.dropWhile p)).length =
      (joinKeys keys).length + key.length + 1 := by
  have hl := congrArg (fun l => (joinKeys l).length)
    (List.takeWhile_append_dropWhile (p := p) (l := keys))
  simp only [joinKeys_append, List.length_append] at hl
  simp only [joinKeys_append, joinKeys_cons, List.length_append, List.length_cons]
  omega

theorem newKeyList_length (keys : List Bytes) :
    (newKeyList keys).length = 4 + ((joinKeys keys).length - 1) := by
  simp [newKeyList]

theorem joinKeys_splitEx (sep : UInt8) (n : Nat) (s : Bytes) :
    (joinKeys (splitEx sep n s)).length ≤ s.length + 1 := by
  fun_induction splitEx sep n s with
  | case1 => simp
  | case2 s => simp
  | case3 n s h => simp
  | case4 n s b rest h ih =>
    have hs := congrArg List.length (List.takeWhile_append_dropWhile (p := (· ≠ sep)) (l := s))
    rw [h, List.length_append, List.length_cons] at hs
    simp only [joinKeys_cons, List.length_append, List.length_cons]
    omega

theorem keyDoGet_cases (S : StoreFuncs σ) (grp : Nat) (fullKey : Bytes) (s : Server σ) :
    let r := S.get s.store grp fullKey (4 + fdhtKeyListMaxSize - 1)
    let s' := { s with store := r.2 }
    (r.1.result ≠ 0 ∧ r.1.result ≠ ENOENT ∧
      keyDoGet S grp fullKey s = (⟨r.1.result, r.1.size, []⟩, s')) ∨
    keyDoGet S grp fullKey s = (⟨0, 0, []⟩, s') ∨
    (r.1.result = 0 ∧ 4 < r.1.size ∧ keyDoGet S grp fullKey s =
      (⟨0, r.1.size, splitEx fdhtFullKeySeperator fdhtKeyListMaxCount (cstr (r.1.value.drop 4))⟩,
        s')) := by
  intro r s'
  have hr : S.get s.store grp fullKey (4 + fdhtKeyListMaxSize - 1) = r := rfl
  unfold keyDoGet
  simp only [hr]
  by_cases h0 : r.1.result = 0
  · by_cases h4 : r.1.size ≤ 4
    · exact .inr (.inl (by simp [h0, h4, ENOENT]; rfl))
    · exact .inr (.inr ⟨h0, by omega, by simp [h0, h4, ENOENT]; rfl⟩)
  · by_cases hno : r.1.result = ENOENT
    · exact .inr (.inl (by simp [hno]; rfl))
    · exact .inl ⟨h0, hno, by simp [h0, hno]; rfl⟩

theorem keyDoGet_size (S : StoreFuncs σ) (grp : Nat) (fullKey : Bytes) (s : Server σ) :
    (joinKeys (keyDoGet S grp fullKey s).1.keyArray).length ≤ fdhtKeyListMaxSize := by
  rcases keyDoGet_cases S grp fullKey s with ⟨_, _, h⟩ | h | ⟨h0, _, h⟩
  · simp [h]
  · simp [h]
  · have hle := S.get_le _ _ _ _ h0
    have hsplit := joinKeys_splitEx fdhtFullKeySeperator fdhtKeyListMaxCount
      (cstr ((S.get s.store grp fullKey (4 + fdhtKeyListMaxSize - 1)).1.value.drop 4))
    have hcstr := (List.takeWhile_sublist (l := (S.get s.store grp fullKey
      (4 + fdhtKeyListMaxSize - 1)).1.value.drop 4) (· ≠ 0)).length_le
    rw [List.length_drop] at hcstr
    have hmax : fdhtKeyListMaxSize = 65536 := rfl
    rw [h]
    unfold cstr at hsplit
    exact hsplit.trans (by omega)

theorem keyDoGet_valueLen_nonneg {S : StoreFuncs σ} {grp : Nat} {fullKey : Bytes} {s : Server σ}
    (h : (keyDoGet S grp fullKey s).1.result = 0) : 0 ≤ (keyDoGet S grp fullKey s).1.valueLen := by
  rcases keyDoGet_cases S grp fullKey s with ⟨hne, _, heq⟩ | heq | ⟨_, hsize, heq⟩
  · rw [heq] at h
    exact absurd h hne
  · rw [heq]
  · rw [heq]
    exact (by decide : (0 : Int) ≤ 4).trans hsize.le

theorem batchMerge_length (n : Nat) (subs keys : List Bytes) :
    (joinKeys (batchMerge n subs keys).1).length ≤
      (joinKeys subs).length + (joinKeys keys).length := by
  have hdrop : ∀ (sub : Bytes) (subs : List Bytes),
      (joinKeys (subs.dropWhile fun k => strcmp k sub = .eq)).length ≤ (joinKeys subs).length :=
    fun sub subs => joinKeys_sublist (List.dropWhile_sublist _)
  fun_induction batchMerge n subs keys with
  | case1 => simp
  | case2 n keys => simp
  | case3 n sub subs l count h ih =>
    have := hdrop sub subs
    rw [h] at ih
    simp only [joinKeys_cons, List.length_append, List.length_cons, joinKeys_nil] at ih ⊢
    omega
  | case4 n sub subs key keys h l count hm ih =>
    have := hdrop sub subs
    rw [hm] at ih
    simp only [joinKeys_cons, List.length_append, List.length_cons] at ih ⊢
    omega
  | case5 n sub subs key keys h l count hm ih =>
    have := hdrop sub subs
    rw [hm] at ih
    simp only [joinKeys_cons, List.length_append, List.length_cons] at ih ⊢
    omega
  | case6 n sub subs key keys h l count hm ih =>
    rw [hm] at ih
    simp only [joinKeys_cons, List.length_append, List.length_cons] at ih ⊢
    omega

theorem batchRemove_sublist (n : Nat) (subs keys : List Bytes) :
    (batchRemove n subs keys).Sublist keys := by
  fun_induction batchRemove n subs keys with
  | case1 => simp
  | case2 => simp
  | case3 => simp
  | case4 n sub subs key keys h ih => exact ih
  | case5 n sub subs key keys h ih => exact ih.cons _
  | case6 n sub subs key keys h ih => exact ih.cons_cons _

end FastDht
