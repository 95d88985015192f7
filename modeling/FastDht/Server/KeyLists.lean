import FastDht.Server.ListEffects

/-! # Sub-key lists as sorted sets

A list of sub keys that are not empty and hold neither a NUL nor the separator is
split back into its keys. Kept in `strcmp` order it stands for the set of its keys,
and the four list routines add to the set and take from it. -/
namespace FastDht
open Lib

/-- A sub key that a list can carry. -/
structure CleanKey (k : Bytes) : Prop where
  ne_nil : k ≠ []
  no_nul : 0 ∉ k
  no_seperator : fdhtFullKeySeperator ∉ k

instance (k : Bytes) : Decidable (CleanKey k) :=
  decidable_of_iff (k ≠ [] ∧ 0 ∉ k ∧ fdhtFullKeySeperator ∉ k)
    ⟨fun h => ⟨h.1, h.2.1, h.2.2⟩, fun h => ⟨h.1, h.2, h.3⟩⟩

/-- Strictly increasing in `strcmp` order. -/
def Increasing (keys : List Bytes) : Prop := keys.Pairwise fun a b => strcmp a b = .lt

/-- A list as the routines keep it. -/
structure SubKeyList where
  keys : List Bytes
  clean : ∀ k ∈ keys, CleanKey k
  increasing : Increasing keys

def SubKeyList.set (l : SubKeyList) : Set Bytes := { k | k ∈ l.keys }

theorem SubKeyList.mem_set {l : SubKeyList} {k : Bytes} : k ∈ l.set ↔ k ∈ l.keys := Iff.rfl

def SubKeyList.value (l : SubKeyList) : Option Bytes :=
  if l.keys = [] then none else some (newKeyList l.keys)

/-- `value_len` after the list has been read. -/
def SubKeyList.valueLen (l : SubKeyList) : Nat :=
  if l.keys = [] then 0 else (newKeyList l.keys).length

/-! ## The order of keys without a NUL -/

section Order

variable {a b c : Bytes} {keys : List Bytes}

theorem strcmp_eq_iff_eq (ha : 0 ∉ a) (hb : 0 ∉ b) : strcmp a b = .eq ↔ a = b := by
  rw [strcmp_eq_iff, cstr_eq_self_iff.mpr ha, cstr_eq_self_iff.mpr hb]

theorem strcmp_self (a : Bytes) : strcmp a a = .eq := strcmp_eq_iff.mpr rfl

theorem strcmp_lt_trans (hab : strcmp a b = .lt) (hbc : strcmp b c = .lt) : strcmp a c = .lt :=
  Std.TransCmp.lt_trans hab hbc

theorem strcmp_gt_iff : strcmp a b = .gt ↔ strcmp b a = .lt := Std.OrientedCmp.gt_iff_lt

theorem strcmp_irrefl : strcmp a a ≠ .lt := by
  rw [strcmp_self]
  nofun

theorem Increasing.tail (h : Increasing (a :: keys)) : Increasing keys := (List.pairwise_cons.mp h).2

theorem Increasing.head_lt (h : Increasing (a :: keys)) : ∀ k ∈ keys, strcmp a k = .lt :=
  (List.pairwise_cons.mp h).1

theorem Increasing.nodup (h : Increasing keys) : keys.Nodup := by
  refine List.Pairwise.imp ?_ h
  intro a b hlt heq
  rw [heq] at hlt
  exact strcmp_irrefl hlt

theorem Increasing.ext {l l' : List Bytes} (h : Increasing l) (h' : Increasing l')
    (hmem : ∀ k, k ∈ l ↔ k ∈ l') : l = l' := by
  have hperm : l.Perm l' := (List.perm_ext_iff_of_nodup h.nodup h'.nodup).mpr hmem
  refine List.Perm.eq_of_pairwise ?_ h h' hperm
  intro a b _ _ hab hba
  exact absurd (strcmp_lt_trans hab hba) strcmp_irrefl

theorem SubKeyList.ext_set {l l' : SubKeyList} (h : l.set = l'.set) : l = l' := by
  obtain ⟨keys, clean, inc⟩ := l
  obtain ⟨keys', clean', inc'⟩ := l'
  obtain rfl := inc.ext inc' fun k => Set.ext_iff.mp h k
  rfl

end Order

/-! ## Splitting -/

section Split

theorem splitEx_join {sep : UInt8} (rest : List Bytes) :
    ∀ (n : Nat) (k : Bytes), (∀ x ∈ k :: rest, sep ∉ x) → rest.length < n →
      splitEx sep n (k ++ rest.flatMap fun x => sep :: x) = k :: rest := by
  have hwhile : ∀ k : Bytes, sep ∉ k → ∀ x ∈ k, decide (x ≠ sep) = true := by
    intro k hk x hx
    exact decide_eq_true fun heq => hk (heq ▸ hx)
  induction rest with
  | nil =>
    intro n k hsep hn
    have hk := hwhile k (hsep k List.mem_cons_self)
    rw [List.flatMap_nil, List.append_nil]
    rcases n with _ | _ | n
    · cases hn
    · rfl
    · unfold splitEx
      rw [List.dropWhile_eq_nil_iff.mpr hk]
  | cons k' rest ih =>
    intro n k hsep hn
    have hk := hwhile k (hsep k List.mem_cons_self)
    obtain ⟨n, rfl⟩ : ∃ m, n = m + 2 := ⟨n - 2, by rw [List.length_cons] at hn; omega⟩
    rw [List.length_cons] at hn
    have hstop : ¬decide (sep ≠ sep) = true := fun hne => of_decide_eq_true hne rfl
    unfold splitEx
    rw [List.flatMap_cons, List.cons_append, List.dropWhile_append_of_pos hk,
      List.dropWhile_cons_of_neg (by exact hstop)]
    dsimp only
    rw [List.takeWhile_append_of_pos hk, List.takeWhile_cons_of_neg (by exact hstop),
      List.append_nil, ih (n + 1) k' (fun x hx => hsep x (List.mem_cons_of_mem _ hx)) (by omega)]

theorem newKeyList_cons (k : Bytes) (rest : List Bytes) :
    newKeyList (k :: rest) = int2buff fdhtExpiresNever ++ (k ++ joinKeys rest) := rfl

theorem joined_no_nul {k : Bytes} {rest : List Bytes} (h : ∀ x ∈ k :: rest, CleanKey x) :
    0 ∉ k ++ joinKeys rest := by
  rw [List.mem_append, not_or]
  refine ⟨(h k List.mem_cons_self).no_nul, ?_⟩
  unfold joinKeys
  rw [List.mem_flatMap]
  rintro ⟨x, hx, hmem⟩
  rcases List.mem_cons.mp hmem with h0 | h0
  · exact absurd h0 (by decide)
  · exact (h x (List.mem_cons_of_mem _ hx)).no_nul h0

variable {l : SubKeyList}

theorem keyListOf_value (hcount : l.keys.length ≤ fdhtKeyListMaxCount)
    (hsize : l.valueLen < 4 + fdhtKeyListMaxSize) :
    keyListOf l.value = ⟨0, l.valueLen, l.keys⟩ := by
  obtain ⟨keys, clean, inc⟩ := l
  unfold SubKeyList.value SubKeyList.valueLen at *
  dsimp only at *
  cases keys with
  | nil => rfl
  | cons k rest =>
    rw [if_neg (List.cons_ne_nil _ _)] at hsize
    rw [if_neg (List.cons_ne_nil _ _), if_neg (List.cons_ne_nil _ _)]
    have hpos := List.length_pos_iff.mpr (clean k List.mem_cons_self).ne_nil
    have hlen : 4 < (newKeyList (k :: rest)).length := by
      rw [newKeyList_cons, List.length_append, int2buff_length, List.length_append]
      omega
    unfold keyListOf
    dsimp only
    rw [if_neg (by omega), if_neg (by omega), newKeyList_cons,
      show (int2buff fdhtExpiresNever ++ (k ++ joinKeys rest)).drop 4 = k ++ joinKeys rest from rfl,
      cstr_eq_self_iff.mpr (joined_no_nul clean)]
    exact congrArg _ (splitEx_join rest _ k (fun x hx => (clean x hx).no_seperator)
      (by rw [List.length_cons] at hcount; omega))

theorem keyListOf_value_long (hsize : 4 + fdhtKeyListMaxSize ≤ l.valueLen) :
    keyListOf l.value = ⟨ENOSPC, l.valueLen, []⟩ := by
  unfold SubKeyList.value SubKeyList.valueLen at *
  by_cases hnil : l.keys = []
  · rw [if_pos hnil] at hsize
    exact absurd hsize (by decide)
  · rw [if_neg hnil] at hsize
    rw [if_neg hnil, if_neg hnil]
    unfold keyListOf
    dsimp only
    rw [if_pos (by omega)]

end Split

/-! ## Single keys -/

section Single

variable {l l' : SubKeyList} {key : Bytes}

theorem bsearch_isSome_iff (hkey : 0 ∉ key) :
    (bsearch (strcmp key) l.keys).isSome = true ↔ key ∈ l.set := by
  constructor
  · intro hsome
    obtain ⟨i, hi⟩ := Option.isSome_iff_exists.mp hsome
    obtain ⟨a, ha, heq⟩ := bsearch_some hi
    have hmem := List.mem_of_getElem? ha
    rw [(strcmp_eq_iff_eq hkey (l.clean a hmem).no_nul).mp heq]
    exact hmem
  · intro hmem
    have hsorted : l.keys.Pairwise fun a b => strcmp (id a) (id b) = .lt := l.increasing
    obtain ⟨i, hi, -⟩ := bsearch_sorted hsorted hmem (strcmp_self key)
    exact Option.isSome_iff_exists.mpr ⟨i, hi⟩

theorem insert_increasing {keys : List Bytes} (h : Increasing keys)
    (hnew : ∀ k ∈ keys, strcmp key k ≠ .eq) :
    Increasing (keys.takeWhile (fun k => strcmp key k ≠ .lt) ++
      key :: keys.dropWhile fun k => strcmp key k ≠ .lt) := by
  induction keys with
  | nil => exact List.pairwise_singleton _ _
  | cons a keys ih =>
    by_cases hlt : strcmp key a = .lt
    · rw [List.takeWhile_cons_of_neg (by simp [hlt]), List.dropWhile_cons_of_neg (by simp [hlt])]
      refine List.pairwise_cons.mpr ⟨fun k hk => ?_, h⟩
      rcases List.mem_cons.mp hk with rfl | hk
      · exact hlt
      · exact strcmp_lt_trans hlt (h.head_lt k hk)
    · have hgt : strcmp a key = .lt := by
        rw [← strcmp_gt_iff]
        cases hc : strcmp key a with
        | lt => exact absurd hc hlt
        | eq => exact absurd hc (hnew a List.mem_cons_self)
        | gt => rfl
      rw [List.takeWhile_cons_of_pos (by simp [hlt]), List.dropWhile_cons_of_pos (by simp [hlt])]
      refine List.pairwise_cons.mpr ⟨fun k hk => ?_,
        ih h.tail fun k hk => hnew k (List.mem_cons_of_mem _ hk)⟩
      rcases List.mem_append.mp hk with hk | hk
      · exact h.head_lt k (List.takeWhile_sublist _ |>.mem hk)
      rcases List.mem_cons.mp hk with rfl | hk
      · exact hgt
      · exact h.head_lt k (List.dropWhile_sublist _ |>.mem hk)

theorem mem_insertAt {keys : List Bytes} (p : Bytes → Bool) (k : Bytes) :
    k ∈ keys.takeWhile p ++ key :: keys.dropWhile p ↔ k = key ∨ k ∈ keys := by
  conv_rhs => rw [← List.takeWhile_append_dropWhile (p := p) (l := keys)]
  rw [List.mem_append, List.mem_cons, List.mem_append]
  tauto

def SubKeyList.insert (l : SubKeyList) (key : Bytes) (hkey : CleanKey key) (hnew : key ∉ l.set) :
    SubKeyList where
  keys := l.keys.takeWhile (fun k => strcmp key k ≠ .lt) ++
    key :: l.keys.dropWhile fun k => strcmp key k ≠ .lt
  clean := by
    intro k hk
    rcases (mem_insertAt _ k).mp hk with rfl | hk
    · exact hkey
    · exact l.clean k hk
  increasing := by
    refine insert_increasing l.increasing fun k hk heq => hnew ?_
    rw [(strcmp_eq_iff_eq hkey.no_nul (l.clean k hk).no_nul).mp heq]
    exact hk

theorem SubKeyList.insert_set (hkey : CleanKey key) (hnew : key ∉ l.set) :
    (l.insert key hkey hnew).set = Insert.insert key l.set :=
  Set.ext fun k => mem_insertAt _ k

def SubKeyList.sublist (l : SubKeyList) (keys : List Bytes) (h : keys.Sublist l.keys) :
    SubKeyList where
  keys := keys
  clean := fun k hk => l.clean k (h.mem hk)
  increasing := l.increasing.sublist h

theorem mem_eraseIdx_iff (l : SubKeyList) {i : Nat} (hi : l.keys[i]? = some key) (k : Bytes) :
    k ∈ l.keys.eraseIdx i ↔ k ∈ l.keys ∧ k ≠ key := by
  have hnodup := l.increasing.nodup
  obtain ⟨hlt, rfl⟩ := List.getElem?_eq_some_iff.mp hi
  rw [← List.Nodup.erase_getElem hnodup i hlt, List.Nodup.mem_erase_iff hnodup, and_comm]

end Single

/-! ## Batches -/

section Batch

/-- The order `qsort` leaves: repeated keys stand together. -/
def Sorted (subs : List Bytes) : Prop := subs.Pairwise fun a b => strcmp a b ≠ .gt

variable {sub : Bytes} {subs keys : List Bytes}

theorem skip_equal (hsubs : Sorted (sub :: subs)) (hclean : ∀ k ∈ sub :: subs, 0 ∉ k) :
    (∀ k, k ∈ sub :: subs ↔ k = sub ∨ k ∈ subs.dropWhile fun k => strcmp k sub = .eq) ∧
      ∀ k ∈ subs.dropWhile (fun k => strcmp k sub = .eq), strcmp sub k = .lt := by
  have hsub := hclean sub List.mem_cons_self
  obtain ⟨hle, htail⟩ := List.pairwise_cons.mp hsubs
  induction subs with
  | nil => exact ⟨fun k => List.mem_cons, fun k hk => absurd hk List.not_mem_nil⟩
  | cons a subs ih =>
    have ha := hclean a (List.mem_cons_of_mem _ List.mem_cons_self)
    by_cases heq : strcmp a sub = .eq
    · obtain rfl := (strcmp_eq_iff_eq ha hsub).mp heq
      have hrest : ∀ k ∈ subs, strcmp a k ≠ .gt := fun k hk => hle k (List.mem_cons_of_mem _ hk)
      rw [List.dropWhile_cons_of_pos (by simp [heq])]
      obtain ⟨hmem, hlt⟩ := ih (List.pairwise_cons.mpr ⟨hrest, htail.tail⟩)
        (fun k hk => hclean k (List.mem_cons_of_mem _ hk)) hrest htail.tail
      refine ⟨fun k => ?_, hlt⟩
      rw [List.mem_cons, hmem k]
      tauto
    · rw [List.dropWhile_cons_of_neg (by simp [heq])]
      refine ⟨fun k => List.mem_cons, fun k hk => ?_⟩
      have hlta : strcmp sub a = .lt := by
        cases hc : strcmp sub a with
        | lt => rfl
        | eq => exact absurd (Std.OrientedCmp.eq_symm hc) heq
        | gt => exact absurd hc (hle a List.mem_cons_self)
      rcases List.mem_cons.mp hk with rfl | hk
      · exact hlta
      · cases hc : strcmp sub k with
        | lt => rfl
        | gt => exact absurd hc (hle k (List.mem_cons_of_mem _ hk))
        | eq =>
          obtain rfl := (strcmp_eq_iff_eq hsub
            (hclean k (List.mem_cons_of_mem _ (List.mem_cons_of_mem _ hk)))).mp hc
          exact absurd (strcmp_gt_iff.mpr hlta) ((List.pairwise_cons.mp htail).1 sub hk)

/-- What the merge of sorted keys into a list comes to. -/
structure MergeOf (subs keys : List Bytes) (merged : List Bytes × Nat) : Prop where
  increasing : Increasing merged.1
  mem : ∀ k, k ∈ merged.1 ↔ k ∈ subs ∨ k ∈ keys
  count : merged.2 = 0 ↔ ∀ k ∈ subs, k ∈ keys

namespace MergeOf

variable {rest : List Bytes} {key : Bytes} {merged : List Bytes × Nat}

theorem new (h : MergeOf rest keys merged) (hmem : ∀ k, k ∈ subs ↔ k = sub ∨ k ∈ rest)
    (hrest : ∀ k ∈ rest, strcmp sub k = .lt) (hkeys : ∀ k ∈ keys, strcmp sub k = .lt) :
    MergeOf subs keys (sub :: merged.1, merged.2 + 1) := by
  refine ⟨List.pairwise_cons.mpr ⟨fun k hk => ?_, h.increasing⟩, fun k => ?_, ?_⟩
  · exact ((h.mem k).mp hk).elim (hrest k) (hkeys k)
  · rw [List.mem_cons, h.mem k, hmem k]
    tauto
  · refine iff_of_false (Nat.succ_ne_zero _) fun hall => ?_
    exact strcmp_irrefl (hkeys sub (hall sub ((hmem sub).mpr (.inl rfl))))

theorem known (h : MergeOf rest keys merged) (hmem : ∀ k, k ∈ subs ↔ k = sub ∨ k ∈ rest)
    (hrest : ∀ k ∈ rest, strcmp sub k = .lt) (hkeys : ∀ k ∈ keys, strcmp sub k = .lt) :
    MergeOf subs (sub :: keys) (sub :: merged.1, merged.2) := by
  refine ⟨List.pairwise_cons.mpr ⟨fun k hk => ?_, h.increasing⟩, fun k => ?_, h.count.trans ?_⟩
  · exact ((h.mem k).mp hk).elim (hrest k) (hkeys k)
  · rw [List.mem_cons, List.mem_cons, h.mem k, hmem k]
    tauto
  · constructor
    · intro hall k hk
      exact List.mem_cons.mpr (((hmem k).mp hk).imp_right (hall k))
    · intro hall k hk
      refine (List.mem_cons.mp (hall k ((hmem k).mpr (.inr hk)))).resolve_left fun heq => ?_
      rw [heq] at hk
      exact strcmp_irrefl (hrest sub hk)

theorem passed (h : MergeOf subs keys merged) (hsubs : ∀ k ∈ subs, strcmp key k = .lt)
    (hkeys : ∀ k ∈ keys, strcmp key k = .lt) :
    MergeOf subs (key :: keys) (key :: merged.1, merged.2) := by
  refine ⟨List.pairwise_cons.mpr ⟨fun k hk => ?_, h.increasing⟩, fun k => ?_, h.count.trans ?_⟩
  · exact ((h.mem k).mp hk).elim (hsubs k) (hkeys k)
  · rw [List.mem_cons, List.mem_cons, h.mem k]
    tauto
  · refine forall₂_congr fun k hk => ⟨List.mem_cons_of_mem _, fun hcons => ?_⟩
    refine (List.mem_cons.mp hcons).resolve_left fun heq => ?_
    rw [heq] at hk
    exact strcmp_irrefl (hsubs key hk)

end MergeOf

theorem Sorted.tail (h : Sorted (sub :: subs)) : Sorted subs := (List.pairwise_cons.mp h).2

theorem Sorted.head_le (h : Sorted (sub :: subs)) {k : Bytes} (hk : k ∈ sub :: subs) :
    strcmp sub k ≠ .gt := by
  rcases List.mem_cons.mp hk with rfl | hk
  · rw [strcmp_self]
    nofun
  · exact (List.pairwise_cons.mp h).1 k hk

theorem Sorted.lt_of_lt_head {key k : Bytes} (h : Sorted (sub :: subs))
    (hlt : strcmp key sub = .lt) (hk : k ∈ sub :: subs) : strcmp key k = .lt :=
  Std.TransCmp.lt_of_lt_of_isLE hlt (Ordering.isLE_iff_ne_gt.mpr (h.head_le hk))

theorem batchMerge_spec (n : Nat) (hn : subs.length + keys.length < n) (hsubs : Sorted subs)
    (hkeys : Increasing keys) (hclean : ∀ k, k ∈ subs ∨ k ∈ keys → 0 ∉ k) :
    MergeOf subs keys (batchMerge n subs keys) := by
  induction n generalizing subs keys with
  | zero => exact absurd hn (Nat.not_lt_zero _)
  | succ n ih =>
    match subs, keys with
    | [], keys => exact ⟨hkeys, fun k => by simp [batchMerge], by simp [batchMerge]⟩
    | sub :: subs, keys =>
      obtain ⟨hmem, hlt⟩ := skip_equal hsubs fun k hk => hclean k (.inl hk)
      obtain ⟨rest, hrest⟩ : ∃ rest, rest = subs.dropWhile fun k => strcmp k sub = .eq := ⟨_, rfl⟩
      have hsublist : rest.Sublist subs := hrest ▸ List.dropWhile_sublist _
      have hlen := hsublist.length_le
      have hsorted : Sorted rest := List.Pairwise.sublist hsublist hsubs.tail
      rw [← hrest] at hmem hlt
      rw [List.length_cons] at hn
      have hclean' : ∀ k, k ∈ rest ∨ k ∈ keys → 0 ∉ k := fun k hk =>
        hclean k (hk.imp_left fun h => List.mem_cons_of_mem _ (hsublist.mem h))
      match keys with
      | [] =>
        simp only [batchMerge, ← hrest]
        exact (ih (by omega) hsorted hkeys hclean').new hmem hlt fun k hk => absurd hk List.not_mem_nil
      | key :: keys =>
        rw [List.length_cons] at hn
        unfold batchMerge
        cases hc : strcmp sub key with
        | lt =>
          simp only [← hrest]
          refine (ih (by rw [List.length_cons]; omega) hsorted hkeys hclean').new hmem hlt ?_
          intro k hk
          rcases List.mem_cons.mp hk with rfl | hk
          · exact hc
          · exact strcmp_lt_trans hc (hkeys.head_lt k hk)
        | eq =>
          obtain rfl := (strcmp_eq_iff_eq (hclean sub (.inl List.mem_cons_self))
            (hclean key (.inr List.mem_cons_self))).mp hc
          simp only [← hrest]
          exact (ih (by omega) hsorted hkeys.tail fun k hk =>
            hclean' k (hk.imp_right (List.mem_cons_of_mem _))).known hmem hlt hkeys.head_lt
        | gt =>
          have hbelow := strcmp_gt_iff.mp hc
          exact (ih (by rw [List.length_cons]; omega) hsubs hkeys.tail fun k hk =>
            hclean k (hk.imp_right (List.mem_cons_of_mem _))).passed
              (fun k hk => hsubs.lt_of_lt_head hbelow hk) hkeys.head_lt

theorem mem_batchRemove (n : Nat) (hn : subs.length + keys.length < n) (hsubs : Sorted subs)
    (hkeys : Increasing keys) (hclean : ∀ k, k ∈ subs ∨ k ∈ keys → 0 ∉ k) (k : Bytes) :
    k ∈ batchRemove n subs keys ↔ k ∈ keys ∧ k ∉ subs := by
  induction n generalizing subs keys with
  | zero => exact absurd hn (Nat.not_lt_zero _)
  | succ n ih =>
    match subs, keys with
    | [], keys => simp [batchRemove]
    | sub :: subs, [] => simp [batchRemove]
    | sub :: subs, key :: keys =>
      rw [List.length_cons, List.length_cons] at hn
      unfold batchRemove
      cases hc : strcmp sub key with
      | lt =>
        -- the sub key is below the list and names nothing in it
        have hbelow : ∀ x ∈ key :: keys, x ≠ sub := by
          rintro x hx rfl
          rcases List.mem_cons.mp hx with rfl | hx
          · exact strcmp_irrefl hc
          · exact strcmp_irrefl (strcmp_lt_trans hc (hkeys.head_lt x hx))
        rw [ih (by rw [List.length_cons]; omega) hsubs.tail hkeys fun k hk =>
          hclean k (hk.imp_left (List.mem_cons_of_mem _)), List.mem_cons (l := subs)]
        refine and_congr_right fun hk => ?_
        rw [not_or, and_iff_right (hbelow k hk)]
      | eq =>
        obtain rfl := (strcmp_eq_iff_eq (hclean sub (.inl List.mem_cons_self))
          (hclean key (.inr List.mem_cons_self))).mp hc
        rw [ih (by omega) hsubs.tail hkeys.tail fun k hk =>
          hclean k (hk.imp (List.mem_cons_of_mem _) (List.mem_cons_of_mem _)), List.mem_cons,
          List.mem_cons]
        have hne : k ∈ keys → k ≠ sub := by
          rintro hk rfl
          exact strcmp_irrefl (hkeys.head_lt k hk)
        tauto
      | gt =>
        have hbelow := strcmp_gt_iff.mp hc
        have hne : ∀ x ∈ sub :: subs, key ≠ x := by
          rintro x hx rfl
          exact strcmp_irrefl (hsubs.lt_of_lt_head hbelow hx)
        have hkey : key ∉ sub :: subs := fun hmem => hne key hmem rfl
        rw [List.mem_cons, List.mem_cons, ih (by rw [List.length_cons]; omega) hsubs hkeys.tail
          fun k hk => hclean k (hk.imp_right (List.mem_cons_of_mem _))]
        constructor
        · rintro (rfl | h)
          · exact ⟨.inl rfl, hkey⟩
          · exact ⟨.inr h.1, h.2⟩
        · rintro ⟨rfl | h, hnot⟩
          · exact .inl rfl
          · exact .inr ⟨h, hnot⟩

end Batch

/-! ## The routines on a list -/

section Effects

variable {l l' : SubKeyList} {key : Bytes} {subs : List Bytes}

theorem SubKeyList.valueLen_eq (l : SubKeyList) : l.valueLen = (l.value.getD []).length := by
  unfold valueLen value
  split_ifs <;> rfl

theorem SubKeyList.value_inj (hcount : l.keys.length ≤ fdhtKeyListMaxCount)
    (hcount' : l'.keys.length ≤ fdhtKeyListMaxCount) (hsize : l'.valueLen < 4 + fdhtKeyListMaxSize)
    (h : l.value = l'.value) : l = l' := by
  have hlen : l.valueLen = l'.valueLen := by rw [valueLen_eq, h, ← valueLen_eq]
  have hread := keyListOf_value hcount (hlen ▸ hsize)
  rw [h, keyListOf_value hcount' hsize] at hread
  have hkeys : l'.keys = l.keys := congrArg KeyList.keyArray hread
  exact SubKeyList.ext_set (congrArg (fun keys : List Bytes => { k | k ∈ keys }) hkeys.symm)

theorem SubKeyList.write_apply (hne : l.keys ≠ []) (v : Option Bytes) :
    (ListEffect.write l.keys).apply v = l.value := by
  rw [value, if_neg hne]
  rfl

theorem SubKeyList.ofKeys_apply (l : SubKeyList) (v : Option Bytes) :
    (ListEffect.ofKeys l.keys).apply v = l.value := by
  unfold ListEffect.ofKeys
  by_cases hnil : l.keys = []
  · rw [value, if_pos hnil, hnil]
    rfl
  · rw [if_pos ?_, write_apply hnil]
    obtain ⟨k, rest, hkeys⟩ := List.exists_cons_of_ne_nil hnil
    have hpos := List.length_pos_iff.mpr (l.clean k (hkeys ▸ List.mem_cons_self)).ne_nil
    rw [hkeys, joinKeys_cons, List.length_append, List.length_cons]
    omega

theorem SubKeyList.valueLen_le (l : SubKeyList) : l.valueLen ≤ 3 + (joinKeys l.keys).length := by
  unfold valueLen
  split_ifs with hnil
  · exact Nat.zero_le _
  · obtain ⟨k, rest, hkeys⟩ := List.exists_cons_of_ne_nil hnil
    rw [hkeys, newKeyList_length, joinKeys_cons, List.length_append, List.length_cons]
    omega

theorem SubKeyList.valueLen_of_ne_nil (hne : l.keys ≠ []) :
    l.valueLen = 3 + (joinKeys l.keys).length := by
  obtain ⟨k, rest, hkeys⟩ := List.exists_cons_of_ne_nil hne
  rw [valueLen, if_neg hne, hkeys, newKeyList_length, joinKeys_cons, List.length_append,
    List.length_cons]
  omega

theorem SubKeyList.insert_ne_nil (hkey : CleanKey key) (hnew : key ∉ l.set) :
    (l.insert key hkey hnew).keys ≠ [] :=
  List.append_ne_nil_of_right_ne_nil _ (List.cons_ne_nil _ _)

theorem SubKeyList.insert_valueLen (hkey : CleanKey key) (hnew : key ∉ l.set) :
    l.valueLen + 1 + key.length ≤ (l.insert key hkey hnew).valueLen := by
  have hle := l.valueLen_le
  have hlen := joinKeys_insert key l.keys fun k => strcmp key k ≠ .lt
  rw [valueLen_of_ne_nil (insert_ne_nil hkey hnew)]
  change _ ≤ 3 + (joinKeys (_ ++ _)).length
  rw [hlen]
  omega

theorem SubKeyList.joinKeys_le (l : SubKeyList) : 3 + (joinKeys l.keys).length ≤ max l.valueLen 3 := by
  by_cases hnil : l.keys = []
  · rw [hnil]
    exact le_max_right _ _
  · rw [← valueLen_of_ne_nil hnil]
    exact le_max_left _ _

theorem SubKeyList.insert_valueLen_le (hkey : CleanKey key) (hnew : key ∉ l.set) :
    (l.insert key hkey hnew).valueLen ≤ max l.valueLen 3 + 1 + key.length := by
  have hle := l.joinKeys_le
  have hlen := joinKeys_insert key l.keys fun k => strcmp key k ≠ .lt
  rw [valueLen_of_ne_nil (insert_ne_nil hkey hnew)]
  change 3 + (joinKeys (_ ++ _)).length ≤ _
  rw [hlen]
  omega

theorem SubKeyList.insert_length (hkey : CleanKey key) (hnew : key ∉ l.set) :
    (l.insert key hkey hnew).keys.length = l.keys.length + 1 := by
  have hperm : (l.insert key hkey hnew).keys.Perm (key :: l.keys) :=
    List.perm_middle.trans (.cons _ (.of_eq List.takeWhile_append_dropWhile))
  exact hperm.length_eq

theorem ofAdd_keep (hcount : l.keys.length ≤ fdhtKeyListMaxCount) (hkey : CleanKey key)
    (h : key ∈ l.set ∨ fdhtKeyListMaxSize ≤ l.valueLen + 1 + key.length) :
    ListEffect.ofAdd key (keyListOf l.value) = .keep := by
  by_cases hread : l.valueLen < 4 + fdhtKeyListMaxSize
  · rw [keyListOf_value hcount hread]
    unfold ListEffect.ofAdd
    dsimp only
    rw [if_neg (not_not.mpr rfl)]
    split_ifs with hfound hlong
    · rfl
    · rfl
    · rcases h with hmem | hlong'
      · exact absurd ((bsearch_isSome_iff hkey.no_nul).mpr hmem) hfound
      · exact absurd (by exact_mod_cast hlong') hlong
  · rw [keyListOf_value_long (not_lt.mp hread)]
    rfl

theorem ofAdd_value (hcount : l.keys.length ≤ fdhtKeyListMaxCount)
    (hsize' : l'.valueLen < fdhtKeyListMaxSize) (hkey : CleanKey key)
    (hset : l'.set = Insert.insert key l.set) :
    (ListEffect.ofAdd key (keyListOf l.value)).apply l.value = l'.value := by
  by_cases hmem : key ∈ l.set
  · rw [Set.insert_eq_of_mem hmem] at hset
    rw [ofAdd_keep hcount hkey (.inl hmem), SubKeyList.ext_set hset]
    rfl
  · have hl' : l' = l.insert key hkey hmem :=
      SubKeyList.ext_set (hset.trans (SubKeyList.insert_set hkey hmem).symm)
    have hlen := SubKeyList.insert_valueLen hkey hmem
    rw [← hl'] at hlen
    have hfound : (bsearch (strcmp key) l.keys).isSome = false :=
      Bool.eq_false_iff.mpr fun h => hmem ((bsearch_isSome_iff hkey.no_nul).mp h)
    rw [keyListOf_value hcount (by omega)]
    simp only [ListEffect.ofAdd, ne_eq, not_true_eq_false, if_false, hfound, Bool.false_eq_true]
    rw [if_neg (by omega), hl']
    exact SubKeyList.write_apply (SubKeyList.insert_ne_nil hkey hmem) _

theorem ofDel_value (hcount : l.keys.length ≤ fdhtKeyListMaxCount)
    (hsize : l.valueLen < 4 + fdhtKeyListMaxSize) (hkey : CleanKey key)
    (hset : l'.set = l.set \ {key}) :
    (ListEffect.ofDel key (keyListOf l.value)).apply l.value = l'.value := by
  rw [keyListOf_value hcount hsize]
  simp only [ListEffect.ofDel, ne_eq, not_true_eq_false, if_false]
  cases hfound : bsearch (strcmp key) l.keys with
  | none =>
    have hmem : key ∉ l.set := fun h => by
      have := (bsearch_isSome_iff hkey.no_nul).mpr h
      rw [hfound] at this
      exact Bool.false_ne_true this
    rw [Set.sdiff_singleton_eq_self hmem] at hset
    rw [SubKeyList.ext_set hset]
    rfl
  | some i =>
    obtain ⟨a, ha, heq⟩ := bsearch_some hfound
    obtain rfl := (strcmp_eq_iff_eq hkey.no_nul (l.clean a (List.mem_of_getElem? ha)).no_nul).mp heq
    have hl' : l' = l.sublist (l.keys.eraseIdx i) (List.eraseIdx_sublist _ _) :=
      SubKeyList.ext_set (hset.trans (Set.ext fun k => (mem_eraseIdx_iff l ha k).symm))
    rw [hl']
    exact SubKeyList.ofKeys_apply (l.sublist _ _) _

theorem ListEffect.ofBatchAdd_many (hmany : 2 ≤ subs.length) (old : KeyList) :
    ofBatchAdd subs old =
      if old.result ≠ 0 then keep
      else if fdhtKeyListMaxSize ≤ old.valueLen + (joinKeys subs).length then keep
      else if (batchMerge (subs.length + old.keyArray.length + 1) subs old.keyArray).2 = 0 then keep
      else write (batchMerge (subs.length + old.keyArray.length + 1) subs old.keyArray).1 := by
  match subs, hmany with
  | _ :: _ :: _, _ => rfl

theorem ListEffect.ofBatchDel_many (hmany : 2 ≤ subs.length) (old : KeyList) :
    ofBatchDel subs old =
      if old.result ≠ 0 then keep
      else ofKeys (batchRemove (subs.length + old.keyArray.length + 1) subs old.keyArray) := by
  match subs, hmany with
  | _ :: _ :: _, _ => rfl

theorem SubKeyList.merge_spec (l : SubKeyList) (hsorted : Sorted subs)
    (hclean : ∀ k ∈ subs, CleanKey k) :
    MergeOf subs l.keys (batchMerge (subs.length + l.keys.length + 1) subs l.keys) :=
  batchMerge_spec _ (Nat.lt_succ_self _) hsorted l.increasing fun k hk =>
    hk.elim (fun h => (hclean k h).no_nul) fun h => (l.clean k h).no_nul

theorem ofBatchAdd_value (hcount : l.keys.length ≤ fdhtKeyListMaxCount) (hmany : 2 ≤ subs.length)
    (hsize : l.valueLen + (joinKeys subs).length < fdhtKeyListMaxSize) (hsorted : Sorted subs)
    (hclean : ∀ k ∈ subs, CleanKey k) (hset : l'.set = l.set ∪ { k | k ∈ subs }) :
    (ListEffect.ofBatchAdd subs (keyListOf l.value)).apply l.value = l'.value := by
  have hm := l.merge_spec hsorted hclean
  rw [keyListOf_value hcount (by omega), ListEffect.ofBatchAdd_many hmany]
  dsimp only
  rw [if_neg (not_not.mpr rfl), if_neg (by omega)]
  split_ifs with hzero
  · -- nothing is new
    have hsub : { k | k ∈ subs } ⊆ l.set := hm.count.mp hzero
    rw [Set.union_eq_self_of_subset_right hsub] at hset
    rw [SubKeyList.ext_set hset]
    rfl
  · have hkeys : (batchMerge (subs.length + l.keys.length + 1) subs l.keys).1 = l'.keys := by
      refine hm.increasing.ext l'.increasing fun k => (hm.mem k).trans ?_
      rw [or_comm]
      exact (Set.ext_iff.mp hset k).symm
    rw [hkeys]
    refine SubKeyList.write_apply ?_ _
    obtain ⟨k, hk⟩ := List.exists_mem_of_length_pos (show 0 < subs.length by omega)
    refine List.ne_nil_of_mem (a := k) ?_
    rw [← hkeys, hm.mem]
    exact .inl hk

def SubKeyList.merge (l : SubKeyList) (subs : List Bytes) (hsorted : Sorted subs)
    (hclean : ∀ k ∈ subs, CleanKey k) : SubKeyList where
  keys := (batchMerge (subs.length + l.keys.length + 1) subs l.keys).1
  clean := by
    intro k hk
    have hm := l.merge_spec hsorted hclean
    exact ((hm.mem k).mp hk).elim (hclean k) (l.clean k)
  increasing := (l.merge_spec hsorted hclean).increasing

theorem SubKeyList.merge_set (hsorted : Sorted subs) (hclean : ∀ k ∈ subs, CleanKey k) :
    (l.merge subs hsorted hclean).set = l.set ∪ { k | k ∈ subs } := by
  have hm := l.merge_spec hsorted hclean
  ext k
  exact (hm.mem k).trans or_comm

theorem SubKeyList.merge_valueLen_le (hsorted : Sorted subs) (hclean : ∀ k ∈ subs, CleanKey k) :
    (l.merge subs hsorted hclean).valueLen ≤ max l.valueLen 3 + (joinKeys subs).length := by
  have hle := l.joinKeys_le
  have hlen : (joinKeys (l.merge subs hsorted hclean).keys).length ≤ _ := batchMerge_length _ _ _
  refine (valueLen_le _).trans ?_
  omega

theorem ofBatchDel_value (hcount : l.keys.length ≤ fdhtKeyListMaxCount) (hmany : 2 ≤ subs.length)
    (hsize : l.valueLen < 4 + fdhtKeyListMaxSize) (hsorted : Sorted subs)
    (hclean : ∀ k ∈ subs, CleanKey k) (hset : l'.set = l.set \ { k | k ∈ subs }) :
    (ListEffect.ofBatchDel subs (keyListOf l.value)).apply l.value = l'.value := by
  have hmem := mem_batchRemove (subs.length + l.keys.length + 1) (Nat.lt_succ_self _) hsorted
    l.increasing fun k hk => hk.elim (fun h => (hclean k h).no_nul) fun h => (l.clean k h).no_nul
  have hl' : l' = l.sublist _ (batchRemove_sublist (subs.length + l.keys.length + 1) subs l.keys) :=
    SubKeyList.ext_set (hset.trans (Set.ext fun k => (hmem k).symm))
  rw [keyListOf_value hcount hsize, ListEffect.ofBatchDel_many hmany]
  rw [if_neg (not_not.mpr rfl), hl']
  exact SubKeyList.ofKeys_apply (l.sublist _ _) _

/-! A list that cannot be read is kept, and so is one that a batch would make too long. -/

theorem ofDel_keep (hsize : 4 + fdhtKeyListMaxSize ≤ l.valueLen) :
    ListEffect.ofDel key (keyListOf l.value) = .keep := by
  rw [keyListOf_value_long hsize]
  rfl

theorem ofBatchDel_keep (hmany : 2 ≤ subs.length) (hsize : 4 + fdhtKeyListMaxSize ≤ l.valueLen) :
    ListEffect.ofBatchDel subs (keyListOf l.value) = .keep := by
  rw [keyListOf_value_long hsize, ListEffect.ofBatchDel_many hmany]
  rfl

theorem ofBatchAdd_keep (hcount : l.keys.length ≤ fdhtKeyListMaxCount) (hmany : 2 ≤ subs.length)
    (hsize : fdhtKeyListMaxSize ≤ l.valueLen + (joinKeys subs).length) :
    ListEffect.ofBatchAdd subs (keyListOf l.value) = .keep := by
  rw [ListEffect.ofBatchAdd_many hmany]
  by_cases hread : l.valueLen < 4 + fdhtKeyListMaxSize
  · rw [keyListOf_value hcount hread]
    dsimp only
    rw [if_neg (not_not.mpr rfl), if_pos (by omega)]
  · rw [keyListOf_value_long (not_lt.mp hread)]
    rfl

end Effects

end FastDht
