import Mathlib.Data.List.Basic
import Mathlib.Data.List.Sort
import Mathlib.Data.List.TakeWhile

/-! # C strings, bsearch and qsort

A C string ends at its first NUL byte. `bsearch` is the loop of the C library;
`qsort` is a stable sort. What `bsearch` finds compares equal, in a sorted list it
finds something whenever it is there, and in a strictly sorted one exactly that. -/
namespace FastDht.Lib

/-- The string a `char` pointer to these bytes denotes. -/
def cstr (s : List UInt8) : List UInt8 := s.takeWhile (· ≠ 0)

def strcmp (a b : List UInt8) : Ordering := List.compareLex compare (cstr a) (cstr b)

/-- The loop of `bsearch` between `l` and `u`; every round but the last shrinks
the interval, so `u - l` rounds are enough. -/
def bsearchLoop {α : Type*} (cmp : α → Ordering) (arr : List α) : Nat → Nat → Nat → Option Nat
  | 0, _, _ => none
  | n + 1, l, u =>
    if l < u then
      let idx := (l + u) / 2
      match arr[idx]? with
      | none => none
      | some a =>
        match cmp a with
        | .lt => bsearchLoop cmp arr n l idx
        | .gt => bsearchLoop cmp arr n (idx + 1) u
        | .eq => some idx
    else none

/-- The index of an element that compares equal; `cmp a` compares the target
with `a`. -/
def bsearch {α : Type*} (cmp : α → Ordering) (arr : List α) : Option Nat :=
  bsearchLoop cmp arr (arr.length + 1) 0 arr.length

def qsort {α : Type*} (cmp : α → α → Ordering) (l : List α) : List α :=
  l.insertionSort fun a b => cmp a b ≠ .gt

theorem strcmp_eq_iff {a b : List UInt8} : strcmp a b = .eq ↔ cstr a = cstr b := by
  unfold strcmp
  exact Std.LawfulEqCmp.compare_eq_iff_eq

theorem cstr_cons {c : UInt8} (hc : c ≠ 0) (s : List UInt8) : cstr (c :: s) = c :: cstr s := by
  simp [cstr, hc]

theorem cstr_eq_self_iff {s : List UInt8} : cstr s = s ↔ 0 ∉ s := by
  unfold cstr
  rw [List.takeWhile_eq_self_iff]
  constructor
  · intro h h0
    simpa using h 0 h0
  · intro h b hb
    have hne : b ≠ 0 := fun h0 => h (h0 ▸ hb)
    simpa using hne

@[simp] theorem cstr_cstr (s : List UInt8) : cstr (cstr s) = cstr s := by
  rw [cstr_eq_self_iff]
  intro h0
  simpa using List.mem_takeWhile_imp h0

theorem bsearch_some {α : Type*} {cmp : α → Ordering} {arr : List α} {i : Nat}
    (h : bsearch cmp arr = some i) : ∃ a, arr[i]? = some a ∧ cmp a = .eq := by
  have hloop : ∀ n l u, bsearchLoop cmp arr n l u = some i → ∃ a, arr[i]? = some a ∧ cmp a = .eq := by
    intro n
    induction n with
    | zero => intro l u h; cases h
    | succ n ih =>
      intro l u h
      unfold bsearchLoop at h
      split at h
      · dsimp only at h
        split at h
        · cases h
        · rename_i a ha
          split at h
          · exact ih _ _ h
          · exact ih _ _ h
          · rename_i heq
            cases h
            exact ⟨a, ha, heq⟩
      · cases h
  exact hloop _ _ _ h

theorem bsearch_eq_some {α : Type*} {cmp : α → Ordering} {arr : List α} {i : Nat} {a : α}
    (hi : arr[i]? = some a) (ha : cmp a = .eq)
    (hbefore : ∀ j b, j < i → arr[j]? = some b → cmp b = .gt)
    (hafter : ∀ j b, i < j → arr[j]? = some b → cmp b = .lt) : bsearch cmp arr = some i := by
  have hlt : i < arr.length := by
    rw [List.getElem?_eq_some_iff] at hi
    exact hi.1
  -- the interval always holds `i`
  have hloop : ∀ n l u, l ≤ i → i < u → u ≤ arr.length → u - l ≤ n →
      bsearchLoop cmp arr n l u = some i := by
    intro n
    induction n with
    | zero => intro l u hl hu _ hn; omega
    | succ n ih =>
      intro l u hl hu hlen hn
      obtain ⟨b, hget⟩ : ∃ b, arr[(l + u) / 2]? = some b :=
        ⟨_, List.getElem?_eq_getElem (by omega)⟩
      unfold bsearchLoop
      rw [if_pos (by omega)]
      dsimp only
      rw [hget]
      dsimp only
      rcases Nat.lt_trichotomy ((l + u) / 2) i with h | h | h
      · rw [hbefore _ _ h hget]
        exact ih _ _ (by omega) hu hlen (by omega)
      · rw [h, hi] at hget
        rw [← Option.some.inj hget, ha, h]
      · rw [hafter _ _ h hget]
        exact ih _ _ hl h (by omega) (by omega)
  exact hloop _ _ _ (Nat.zero_le i) hlt le_rfl (by omega)

/-- Something is found if there is an equal element, everything after a larger one is
larger and everything before a smaller one is smaller. -/
theorem bsearch_isSome {α : Type*} {cmp : α → Ordering} {arr : List α}
    (hlarger : arr.Pairwise fun a b => cmp a = .lt → cmp b = .lt)
    (hsmaller : arr.Pairwise fun a b => cmp b = .gt → cmp a = .gt)
    {a : α} (ha : a ∈ arr) (heq : cmp a = .eq) : ∃ i, bsearch cmp arr = some i := by
  obtain ⟨i, hi, rfl⟩ := List.getElem_of_mem ha
  -- the interval always holds `i`
  have hloop : ∀ n l u, l ≤ i → i < u → u ≤ arr.length → u - l ≤ n →
      ∃ j, bsearchLoop cmp arr n l u = some j := by
    intro n
    induction n with
    | zero => intro l u hl hu _ hn; omega
    | succ n ih =>
      intro l u hl hu hlen hn
      have hmid : (l + u) / 2 < arr.length := by omega
      unfold bsearchLoop
      rw [if_pos (by omega)]
      dsimp only
      rw [List.getElem?_eq_getElem hmid]
      dsimp only
      cases hcmp : cmp arr[(l + u) / 2] with
      | lt =>
        have hle : i ≤ (l + u) / 2 := by
          by_contra hgt
          have := List.pairwise_iff_getElem.mp hlarger _ i hmid hi (by omega) hcmp
          rw [heq] at this
          cases this
        have hne : i ≠ (l + u) / 2 := by
          rintro rfl
          rw [heq] at hcmp
          cases hcmp
        exact ih _ _ hl (by omega) (by omega) (by omega)
      | eq => exact ⟨_, rfl⟩
      | gt =>
        have hle : (l + u) / 2 ≤ i := by
          by_contra hlt
          have := List.pairwise_iff_getElem.mp hsmaller i _ hi hmid (by omega) hcmp
          rw [heq] at this
          cases this
        have hne : i ≠ (l + u) / 2 := by
          rintro rfl
          rw [heq] at hcmp
          cases hcmp
        exact ih _ _ (by omega) hu hlen (by omega)
  exact hloop _ _ _ (Nat.zero_le i) hi le_rfl (by omega)

theorem takeWhile_eq_filter {α : Type*} {p : α → Bool} {l : List α}
    (h : l.Pairwise fun a b => p b = true → p a = true) : l.takeWhile p = l.filter p := by
  induction l with
  | nil => rfl
  | cons a l ih =>
    obtain ⟨ha, hl⟩ := List.pairwise_cons.mp h
    by_cases hp : p a = true
    · rw [List.takeWhile_cons_of_pos hp, List.filter_cons_of_pos hp, ih hl]
    · rw [List.takeWhile_cons_of_neg hp, List.filter_cons_of_neg hp]
      exact (List.filter_eq_nil_iff.mpr fun b hb hpb => hp (ha b hb hpb)).symm

section Sorted

variable {α β : Type*} {cmp : β → β → Ordering} [Std.TransCmp cmp] {key : α → β}

/-- **`bsearch` is complete on a strictly sorted list.** -/
theorem bsearch_sorted {arr : List α} (hs : arr.Pairwise fun a b => cmp (key a) (key b) = .lt)
    {a : α} (ha : a ∈ arr) {k : β} (hk : cmp k (key a) = .eq) :
    ∃ i, bsearch (fun x => cmp k (key x)) arr = some i ∧ arr[i]? = some a := by
  obtain ⟨i, hi, rfl⟩ := List.getElem_of_mem ha
  refine ⟨i, bsearch_eq_some (List.getElem?_eq_getElem hi) hk ?_ ?_, List.getElem?_eq_getElem hi⟩
  · intro j b hj hb
    obtain ⟨hjl, rfl⟩ := List.getElem?_eq_some_iff.mp hb
    rw [Std.OrientedCmp.gt_iff_lt]
    exact Std.TransCmp.lt_of_lt_of_eq (List.pairwise_iff_getElem.mp hs j i hjl hi hj)
      (Std.OrientedCmp.eq_symm hk)
  · intro j b hj hb
    obtain ⟨hjl, rfl⟩ := List.getElem?_eq_some_iff.mp hb
    exact Std.TransCmp.lt_of_eq_of_lt hk (List.pairwise_iff_getElem.mp hs i j hi hjl hj)

section Equal

variable {arr : List α} (hs : arr.Pairwise fun a b => cmp (key a) (key b) ≠ .gt) {k : β}
include hs

/-- **`bsearch` finds an equal element of a sorted list if there is one.** -/
theorem bsearch_ne_none_iff :
    bsearch (fun x => cmp k (key x)) arr ≠ none ↔ ∃ a ∈ arr, cmp k (key a) = .eq := by
  constructor
  · intro h
    obtain ⟨i, hi⟩ := Option.ne_none_iff_exists'.mp h
    obtain ⟨a, ha, heq⟩ := bsearch_some hi
    exact ⟨a, List.mem_of_getElem? ha, heq⟩
  · rintro ⟨a, ha, heq⟩
    have hlarger : arr.Pairwise fun x y => cmp k (key x) = .lt → cmp k (key y) = .lt :=
      hs.imp fun hxy hx => Std.TransCmp.lt_of_lt_of_isLE hx (Ordering.isLE_iff_ne_gt.mpr hxy)
    have hsmaller : arr.Pairwise fun x y => cmp k (key y) = .gt → cmp k (key x) = .gt := by
      refine hs.imp fun hxy hy => ?_
      rw [Std.OrientedCmp.gt_iff_lt] at hy ⊢
      exact Std.TransCmp.lt_of_isLE_of_lt (Ordering.isLE_iff_ne_gt.mpr hxy) hy
    obtain ⟨i, hi⟩ := bsearch_isSome hlarger hsmaller ha heq
    exact Option.ne_none_iff_exists'.mpr ⟨i, hi⟩

theorem equal_block {before after : List α} {a : α} (hsplit : arr = before ++ a :: after)
    {p : α → Bool} (hp : ∀ x, p x = true ↔ cmp k (key x) = .eq) (ha : p a = true) :
    (before.reverse.takeWhile p).reverse ++ a :: after.takeWhile p = arr.filter p := by
  subst hsplit
  obtain ⟨hbefore, htail, hacross⟩ := List.pairwise_append.mp hs
  obtain ⟨ha_after, hafter⟩ := List.pairwise_cons.mp htail
  -- what lies between two equal elements is equal
  have hbetween : ∀ x y z, cmp (key x) (key y) ≠ .gt → cmp (key y) (key z) ≠ .gt →
      p x = true → p z = true → p y = true := by
    intro x y z hxy hyz hx hz
    rw [hp] at hx hz ⊢
    have hle : (cmp k (key y)).isLE := Std.TransCmp.isLE_trans (Ordering.isLE_of_eq_eq hx)
      (Ordering.isLE_iff_ne_gt.mpr hxy)
    have hge : (cmp (key y) k).isLE := Std.TransCmp.isLE_trans (Ordering.isLE_iff_ne_gt.mpr hyz)
      (Ordering.isLE_of_eq_eq (Std.OrientedCmp.eq_symm hz))
    exact Std.OrientedCmp.isLE_antisymm hle hge
  have hright : after.takeWhile p = after.filter p :=
    takeWhile_eq_filter (hafter.imp_of_mem fun {x y} hx _ hxy hy =>
      hbetween a x y (ha_after x hx) hxy ha hy)
  have hleft : before.reverse.takeWhile p = before.reverse.filter p :=
    takeWhile_eq_filter (List.pairwise_reverse.mpr (hbefore.imp_of_mem fun {x y} _ hy hxy hx =>
      hbetween x y a hxy (hacross y hy a List.mem_cons_self) hx ha))
  rw [hright, hleft, List.filter_reverse, List.reverse_reverse, List.filter_append,
    List.filter_cons_of_pos ha]

end Equal

theorem qsort_perm (cmp : α → α → Ordering) (l : List α) : (qsort cmp l).Perm l :=
  List.perm_insertionSort _ l

theorem mem_qsort {cmp : α → α → Ordering} {l : List α} {a : α} : a ∈ qsort cmp l ↔ a ∈ l :=
  (qsort_perm cmp l).mem_iff

theorem qsort_pairwise (l : List α) :
    (qsort (fun a b => cmp (key a) (key b)) l).Pairwise fun a b => cmp (key a) (key b) ≠ .gt := by
  have htotal : Std.Total fun a b => cmp (key a) (key b) ≠ .gt := ⟨fun a b => by
    by_cases h : cmp (key a) (key b) = .gt
    · right
      rw [Std.OrientedCmp.gt_iff_lt] at h
      simp [h]
    · exact Or.inl h⟩
  have htrans : IsTrans α fun a b => cmp (key a) (key b) ≠ .gt := ⟨fun a b c hab hbc => by
    exact Ordering.isLE_iff_ne_gt.mp (Std.TransCmp.isLE_trans (Ordering.isLE_iff_ne_gt.mpr hab)
      (Ordering.isLE_iff_ne_gt.mpr hbc))⟩
  exact List.pairwise_insertionSort _ l

theorem qsort_sorted {l : List α} (hl : l.Pairwise fun a b => cmp (key a) (key b) ≠ .eq) :
    (qsort (fun a b => cmp (key a) (key b)) l).Pairwise fun a b => cmp (key a) (key b) = .lt := by
  have hne : (qsort (fun a b => cmp (key a) (key b)) l).Pairwise
      fun a b => cmp (key a) (key b) ≠ .eq :=
    (qsort_perm _ l).symm.pairwise hl fun h heq => h (Std.OrientedCmp.eq_symm heq)
  refine ((qsort_pairwise l).and hne).imp ?_
  intro a b ⟨hle, hneq⟩
  cases h : cmp (key a) (key b) with
  | lt => rfl
  | eq => exact absurd h hneq
  | gt => exact absurd h hle

end Sorted

instance : Std.TransCmp strcmp where
  eq_swap := fun {a b} => @Std.OrientedCmp.eq_swap _ (List.compareLex compare) _ (cstr a) (cstr b)
  isLE_trans := fun {a b c} =>
    @Std.TransCmp.isLE_trans _ (List.compareLex compare) _ (cstr a) (cstr b) (cstr c)

end FastDht.Lib
