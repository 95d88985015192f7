import Mathlib.Data.List.Perm.Basic
import Mathlib.Data.List.GetD

/-! # Bucket tables

A table of chains: a list of lists, where an element belongs in the chain its
index function names. Replacing one chain changes the contents of the table by
exactly that chain, and pushing elements one by one onto empty chains
distributes a list without losing or repeating anything. Nothing here knows
what the elements are. -/
namespace FastDht.Lib

variable {α : Type*}
variable {bs : List (List α)} {i : Nat} {a : α} {idx : α → Nat} {l : List α}

/-- The chain at index `i`; empty outside the table. -/
def chainAt (bs : List (List α)) (i : Nat) : List α := bs.getD i []

/-- Every element sits in the chain its index names. -/
def Placed (idx : α → Nat) (bs : List (List α)) : Prop :=
  ∀ i, ∀ a ∈ chainAt bs i, idx a = i

/-- Push one element on the front of its chain. -/
def push (idx : α → Nat) (bs : List (List α)) (a : α) : List (List α) :=
  bs.set (idx a) (a :: chainAt bs (idx a))

def distribute (idx : α → Nat) (n : Nat) (l : List α) : List (List α) :=
  l.foldl (push idx) (List.replicate n [])

theorem chainAt_eq_getElem (h : i < bs.length) :
    chainAt bs i = bs[i] := List.getD_eq_getElem _ _ h

theorem chainAt_of_length_le (h : bs.length ≤ i) :
    chainAt bs i = [] := List.getD_eq_default _ _ h

theorem chainAt_set_self (h : i < bs.length) (c : List α) :
    chainAt (bs.set i c) i = c := by
  rw [chainAt_eq_getElem (by simpa using h)]; simp

theorem chainAt_set_ne {j : Nat} (h : i ≠ j) (c : List α) :
    chainAt (bs.set i c) j = chainAt bs j := by
  simp [chainAt, List.getD_eq_getElem?_getD, List.getElem?_set_ne h]

theorem mem_flatten_iff :
    a ∈ bs.flatten ↔ ∃ i, a ∈ chainAt bs i := by
  constructor
  · intro h
    obtain ⟨c, hc, ha⟩ := List.mem_flatten.mp h
    obtain ⟨i, hi, rfl⟩ := List.mem_iff_getElem.mp hc
    exact ⟨i, by rwa [chainAt_eq_getElem hi]⟩
  · rintro ⟨i, ha⟩
    by_cases hi : i < bs.length
    · rw [chainAt_eq_getElem hi] at ha
      exact List.mem_flatten.mpr ⟨_, List.getElem_mem hi, ha⟩
    · rw [chainAt_of_length_le (Nat.le_of_not_lt hi)] at ha; cases ha

/-- In a table whose elements are placed, the chain an index names holds
exactly the elements with that index. -/
theorem Placed.mem_chainAt (hp : Placed idx bs)
    : a ∈ chainAt bs i ↔ a ∈ bs.flatten ∧ idx a = i := by
  constructor
  · intro h; exact ⟨mem_flatten_iff.mpr ⟨i, h⟩, hp i a h⟩
  · rintro ⟨h, rfl⟩
    obtain ⟨j, hj⟩ := mem_flatten_iff.mp h
    rwa [hp j a hj]

theorem Placed.set (hp : Placed idx bs)
    {c : List α} (hc : ∀ a ∈ c, idx a = i) : Placed idx (bs.set i c) := by
  intro j a ha
  by_cases hij : i = j
  · subst hij
    by_cases hi : i < bs.length
    · rw [chainAt_set_self hi] at ha; exact hc a ha
    · rw [List.set_eq_of_length_le (Nat.le_of_not_lt hi)] at ha; exact hp _ a ha
  · rw [chainAt_set_ne hij] at ha; exact hp j a ha

theorem placed_replicate (idx : α → Nat) (n : Nat) : Placed idx (List.replicate n []) := by
  intro i a ha
  by_cases hi : i < n
  · rw [chainAt_eq_getElem (by simpa using hi)] at ha; simp at ha
  · rw [chainAt_of_length_le (by simpa using hi)] at ha; cases ha

theorem flatten_set_perm (h : i < bs.length) :
    bs.flatten.Perm (chainAt bs i ++ (bs.eraseIdx i).flatten) ∧
      ∀ c, (bs.set i c).flatten.Perm (c ++ (bs.eraseIdx i).flatten) := by
  have hset : ∀ c, (bs.set i c).flatten.Perm (c ++ (bs.eraseIdx i).flatten) := by
    intro c
    simpa using (List.set_perm_cons_eraseIdx h c).flatten
  refine ⟨?_, hset⟩
  have hself : bs.set i (chainAt bs i) = bs := by
    rw [chainAt_eq_getElem h]; exact List.set_getElem_self h
  simpa [hself] using hset (chainAt bs i)

theorem mem_flatten_set {c : List α} (h : a ∈ (bs.set i c).flatten) : a ∈ bs.flatten ∨ a ∈ c := by
  obtain ⟨c', hc', ha⟩ := List.mem_flatten.mp h
  rcases List.mem_or_eq_of_mem_set hc' with hc' | rfl
  · exact .inl (List.mem_flatten.mpr ⟨c', hc', ha⟩)
  · exact .inr ha

theorem push_length (idx : α → Nat) (bs : List (List α)) (a : α) :
    (push idx bs a).length = bs.length := by simp [push]

theorem push_flatten_perm (idx : α → Nat)
    (h : idx a < bs.length) : (push idx bs a).flatten.Perm (a :: bs.flatten) := by
  obtain ⟨hb, hs⟩ := flatten_set_perm h
  exact (hs _).trans (by simpa using hb.symm.cons a)

theorem Placed.push (hp : Placed idx bs) (a : α) :
    Placed idx (push idx bs a) := by
  refine hp.set ?_
  intro b hb
  rcases List.mem_cons.mp hb with rfl | hb
  · rfl
  · exact hp _ b hb

theorem foldl_push (l : List α) :
    ∀ bs : List (List α), (∀ a ∈ l, idx a < bs.length) → Placed idx bs →
      (l.foldl (push idx) bs).flatten.Perm (l ++ bs.flatten) ∧
      Placed idx (l.foldl (push idx) bs) ∧ (l.foldl (push idx) bs).length = bs.length := by
  induction l with
  | nil => intro bs _ hp; exact ⟨by simp, hp, rfl⟩
  | cons a l ih =>
    intro bs hl hp
    have hlen := push_length idx bs a
    obtain ⟨hperm, hplaced, hlen'⟩ := ih (FastDht.Lib.push idx bs a)
      (fun b hb => by rw [hlen]; exact hl b (by simp [hb])) (hp.push a)
    refine ⟨?_, hplaced, hlen'.trans hlen⟩
    have hpush := push_flatten_perm idx (hl a (by simp))
    exact hperm.trans ((hpush.append_left l).trans List.perm_middle)

theorem distribute_spec (idx : α → Nat) {n : Nat} (hl : ∀ a ∈ l, idx a < n) :
    (distribute idx n l).flatten.Perm l ∧ Placed idx (distribute idx n l) ∧
      (distribute idx n l).length = n := by
  have hrep : (List.replicate n ([] : List α)).flatten = [] := by simp
  have h := foldl_push l (List.replicate n []) (by simpa using hl) (placed_replicate idx n)
  rw [hrep, List.append_nil, List.length_replicate] at h
  exact h

/-! ## Looking elements up by key -/

section Keyed
variable {κ : Type*} [DecidableEq κ] (key : α → κ)

def findKey (l : List α) (k : κ) : Option α := l.find? fun a => key a = k

variable {key}

theorem findKey_eq_some (hn : (l.map key).Nodup) {k : κ} :
    findKey key l k = some a ↔ a ∈ l ∧ key a = k := by
  unfold findKey
  constructor
  · intro h
    exact ⟨List.mem_of_find?_eq_some h, by simpa using List.find?_some h⟩
  · rintro ⟨ha, rfl⟩
    induction l with
    | nil => cases ha
    | cons b l ih =>
      obtain ⟨hb, hn⟩ := List.nodup_cons.mp hn
      rcases List.mem_cons.mp ha with rfl | ha
      · simp
      · have hne : key b ≠ key a := fun h => hb (h ▸ List.mem_map_of_mem ha)
        simpa [hne] using ih hn ha

theorem findKey_eq_none {k : κ} : findKey key l k = none ↔ ∀ a ∈ l, key a ≠ k := by
  simp [findKey]

/-- With distinct keys, what a key finds does not depend on the order. -/
theorem findKey_perm {l' : List α} (hp : l.Perm l') (hn : (l.map key).Nodup) (k : κ) :
    findKey key l k = findKey key l' k := by
  have hn' : (l'.map key).Nodup := (hp.map key).nodup_iff.mp hn
  cases h : findKey key l' k with
  | some a =>
    obtain ⟨ha, hk⟩ := (findKey_eq_some hn').mp h
    exact (findKey_eq_some hn).mpr ⟨hp.mem_iff.mpr ha, hk⟩
  | none =>
    rw [findKey_eq_none] at h ⊢
    exact fun a ha => h a (hp.mem_iff.mp ha)

theorem findKey_cons (a : α) (l : List α) (k : κ) :
    findKey key (a :: l) k = if key a = k then some a else findKey key l k := by
  unfold findKey
  by_cases h : key a = k <;> simp [h]

theorem findKey_chainAt {idx : κ → Nat} (hp : Placed (idx ∘ key) bs)
    (hn : (bs.flatten.map key).Nodup) (k : κ) :
    findKey key (chainAt bs (idx k)) k = findKey key bs.flatten k := by
  cases h : findKey key bs.flatten k with
  | some a =>
    obtain ⟨ha, rfl⟩ := (findKey_eq_some hn).mp h
    have hmem : a ∈ chainAt bs (idx (key a)) := hp.mem_chainAt.mpr ⟨ha, rfl⟩
    have hsub : ((chainAt bs (idx (key a))).map key).Nodup := by
      by_cases hi : idx (key a) < bs.length
      · have hperm := ((flatten_set_perm hi).1.map key).nodup_iff.mp hn
        rw [List.map_append] at hperm
        exact (List.nodup_append.mp hperm).1
      · rw [chainAt_of_length_le (Nat.le_of_not_lt hi)]; simp
    exact (findKey_eq_some hsub).mpr ⟨hmem, rfl⟩
  | none =>
    rw [findKey_eq_none] at h ⊢
    exact fun a ha => h a (mem_flatten_iff.mpr ⟨_, ha⟩)

theorem findKey_split {k : κ} (h : findKey key l k = some a) :
    key a = k ∧ ∃ pre post, l = pre ++ a :: post ∧ ∀ b ∈ pre, key b ≠ k := by
  obtain ⟨hk, pre, post, hl, hpre⟩ := List.find?_eq_some_iff_append.mp h
  exact ⟨by simpa using hk, pre, post, hl, fun b hb => by simpa using hpre b hb⟩

theorem findKey_filter (hn : (l.map key).Nodup) (p : α → Bool) (k : κ) :
    findKey key (l.filter p) k = (findKey key l k).filter p := by
  have hn' : ((l.filter p).map key).Nodup := hn.sublist (List.filter_sublist.map key)
  cases h : findKey key l k with
  | none =>
    rw [findKey_eq_none] at h
    rw [Option.filter_none, findKey_eq_none]
    exact fun a ha => h a (List.mem_of_mem_filter ha)
  | some a =>
    obtain ⟨ha, hk⟩ := (findKey_eq_some hn).mp h
    by_cases hp : p a = true
    · rw [Option.filter_some_pos hp]
      exact (findKey_eq_some hn').mpr ⟨List.mem_filter.mpr ⟨ha, hp⟩, hk⟩
    · rw [Option.filter_some_neg (by simpa using hp), findKey_eq_none]
      intro b hb hbk
      have hab : findKey key l k = some b :=
        (findKey_eq_some hn).mpr ⟨List.mem_of_mem_filter hb, hbk⟩
      rw [h] at hab
      cases hab
      exact hp (List.mem_filter.mp hb).2

end Keyed

end FastDht.Lib
