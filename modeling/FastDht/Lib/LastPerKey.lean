import FastDht.Lib.CString
import FastDht.Lib.KeyedLog

/-! # The last entry of every key

A stable sort by key puts the entries of a key next to each other and keeps their
order, so the last entry of each run is the last of its key. -/
namespace FastDht.Lib

theorem exists_last {α : Type*} {p : α → Prop} {l : List α} (h : ∃ a ∈ l, p a) :
    ∃ before a after, l = before ++ a :: after ∧ p a ∧ ∀ b ∈ after, ¬p b := by
  induction l with
  | nil =>
    obtain ⟨a, ha, -⟩ := h
    cases ha
  | cons a l ih =>
    by_cases hl : ∃ b ∈ l, p b
    · obtain ⟨before, b, after, rfl, hb, hafter⟩ := ih hl
      exact ⟨a :: before, b, after, rfl, hb, hafter⟩
    · obtain ⟨b, hb, hpb⟩ := h
      rcases List.mem_cons.mp hb with rfl | hb
      · exact ⟨[], b, l, rfl, hpb, fun c hc hpc => hl ⟨c, hc, hpc⟩⟩
      · exact absurd ⟨b, hb, hpb⟩ hl

section Runs

variable {α β : Type*} [DecidableEq β] (key : α → β)

/-- The last entry of every run of entries with one key. -/
def lastOfRuns : List α → List α
  | [] => []
  | [a] => [a]
  | a :: b :: l => if key a = key b then lastOfRuns (b :: l) else a :: lastOfRuns (b :: l)

variable {key}

theorem lastOfRuns_subset (l : List α) : lastOfRuns key l ⊆ l := by
  induction l using lastOfRuns.induct key with
  | case1 => exact List.Subset.refl _
  | case2 a => exact List.Subset.refl _
  | case3 a b l heq ih =>
    rw [lastOfRuns, if_pos heq]
    exact List.subset_cons_of_subset a ih
  | case4 a b l hne ih =>
    rw [lastOfRuns, if_neg hne]
    exact List.cons_subset_cons a ih

theorem lastOfRuns_map {γ : Type*} (f : γ → α) (l : List γ) :
    lastOfRuns key (l.map f) = (lastOfRuns (fun c => key (f c)) l).map f := by
  induction l using lastOfRuns.induct fun c => key (f c) with
  | case1 => rfl
  | case2 c => rfl
  | case3 c d l heq ih =>
    rw [lastOfRuns, if_pos heq, ← ih, List.map_cons, List.map_cons, lastOfRuns, if_pos heq]
  | case4 c d l hne ih =>
    have hmap : lastOfRuns key ((c :: d :: l).map f) =
        f c :: lastOfRuns key ((d :: l).map f) := by
      rw [List.map_cons, List.map_cons, lastOfRuns, if_neg hne]
    rw [hmap, ih, lastOfRuns, if_neg hne, List.map_cons]

theorem qsort_map {γ : Type*} (f : γ → α) (cmp : α → α → Ordering) (l : List γ) :
    qsort cmp (l.map f) = (qsort (fun c d => cmp (f c) (f d)) l).map f := by
  exact (List.map_insertionSort (fun c d => cmp (f c) (f d) ≠ .gt) (fun a b => cmp a b ≠ .gt) f l
    fun _ _ _ _ => Iff.rfl).symm

/-- A sort is stable: entries that compare equal or in their order keep it. -/
theorem qsort_filter {cmp : α → α → Ordering} {p : α → Bool}
    (h : ∀ a b, p a = true → p b = true → cmp a b ≠ .gt) (l : List α) :
    (qsort cmp l).filter p = l.filter p := by
  have hinsert : ∀ (a : α) (l : List α),
      (l.orderedInsert (fun a b => cmp a b ≠ .gt) a).filter p = (a :: l).filter p := by
    intro a l
    induction l with
    | nil => rfl
    | cons b l ih =>
      rw [List.orderedInsert]
      split
      · rfl
      · rename_i hgt
        rw [List.filter_cons, ih]
        by_cases ha : p a = true
        · have hb : ¬p b = true := fun hb => hgt (h a b ha hb)
          rw [if_neg hb, List.filter_cons_of_pos ha, List.filter_cons_of_pos ha,
            List.filter_cons_of_neg hb]
        · rw [List.filter_cons_of_neg ha, List.filter_cons_of_neg ha, List.filter_cons]
  induction l with
  | nil => rfl
  | cons a l ih =>
    unfold qsort at ih ⊢
    rw [List.insertionSort_cons, hinsert, List.filter_cons, ih, List.filter_cons]

variable {cmp : β → β → Ordering} [Std.TransCmp cmp] [Std.LawfulEqCmp cmp]

theorem lastOfRuns_filter {l : List α} (hs : l.Pairwise fun a b => cmp (key a) (key b) ≠ .gt)
    (k : β) : (lastOfRuns key l).filter (fun a => key a = k) =
      ((l.filter fun a => key a = k).getLast?).toList := by
  induction l using lastOfRuns.induct key with
  | case1 => rfl
  | case2 a =>
    rw [lastOfRuns, List.filter_cons]
    split <;> rfl
  | case3 a b l heq ih =>
    obtain ⟨-, hs'⟩ := List.pairwise_cons.mp hs
    rw [lastOfRuns, if_pos heq, ih hs', List.filter_cons (x := a)]
    split
    · rename_i ha
      have hb : key b = k := heq ▸ of_decide_eq_true ha
      rw [List.filter_cons_of_pos (by simpa using hb), List.getLast?_cons_cons]
    · rfl
  | case4 a b l hne ih =>
    obtain ⟨hle, hs'⟩ := List.pairwise_cons.mp hs
    rw [lastOfRuns, if_neg hne, List.filter_cons, List.filter_cons (x := a), ih hs']
    split
    · rename_i ha
      have ha : key a = k := of_decide_eq_true ha
      -- the key of `a` lies below all later ones
      have hnone : (b :: l).filter (fun c => key c = k) = [] := by
        rw [List.filter_eq_nil_iff]
        intro c hc hck
        have hck : key c = k := of_decide_eq_true hck
        have hlt : cmp (key a) (key b) = .lt := by
          cases h : cmp (key a) (key b) with
          | lt => rfl
          | eq => exact absurd (Std.LawfulEqCmp.compare_eq_iff_eq.mp h) hne
          | gt => exact absurd h (hle b (List.mem_cons_self ..))
        rcases List.mem_cons.mp hc with rfl | hc
        · exact hne (ha.trans hck.symm)
        · have hbc := (List.pairwise_cons.mp hs').1 c hc
          have hac : cmp (key a) (key c) = .lt :=
            Std.TransCmp.lt_of_lt_of_isLE hlt (Ordering.isLE_iff_ne_gt.mpr hbc)
          have hself : cmp k k = .eq := Std.ReflCmp.compare_self
          rw [ha, hck, hself] at hac
          cases hac
      rw [hnone]
      rfl
    · rfl

variable (key cmp) in
/-- A stable sort: in order, and the entries of each key in the order they had. -/
structure StableSort (sort : List α → List α) : Prop where
  ordered : ∀ l, (sort l).Pairwise fun a b => cmp (key a) (key b) ≠ .gt
  stable : ∀ l k, (sort l).filter (fun a => key a = k) = l.filter fun a => key a = k

theorem qsort_stableSort : StableSort key cmp (qsort fun a b => cmp (key a) (key b)) where
  ordered := qsort_pairwise
  stable := fun l k => by
    refine qsort_filter (fun a b ha hb => ?_) l
    have hself : cmp k k = .eq := Std.ReflCmp.compare_self
    rw [of_decide_eq_true ha, of_decide_eq_true hb, hself]
    exact nofun

theorem mem_of_filter_eq {l l' : List α} (h : ∀ k, l.filter (fun a => key a = k) =
    l'.filter fun a => key a = k) {a : α} (ha : a ∈ l) : a ∈ l' := by
  have hmem : a ∈ l.filter fun b => key b = key a :=
    List.mem_filter.mpr ⟨ha, decide_eq_true rfl⟩
  rw [h] at hmem
  exact (List.mem_filter.mp hmem).1

/-- The order of the keys and the order in each key determine the list. -/
theorem eq_of_ordered {l l' : List α} (hs : l.Pairwise fun a b => cmp (key a) (key b) ≠ .gt)
    (hs' : l'.Pairwise fun a b => cmp (key a) (key b) ≠ .gt)
    (h : ∀ k, l.filter (fun a => key a = k) = l'.filter fun a => key a = k) : l = l' := by
  induction l generalizing l' with
  | nil => exact (List.eq_nil_iff_forall_not_mem.mpr fun a ha =>
      List.not_mem_nil (mem_of_filter_eq (fun k => (h k).symm) ha)).symm
  | cons a l ih =>
    cases l' with
    | nil => exact absurd (mem_of_filter_eq h List.mem_cons_self) List.not_mem_nil
    | cons b l' =>
      obtain ⟨hle, hrest⟩ := List.pairwise_cons.mp hs
      obtain ⟨hle', hrest'⟩ := List.pairwise_cons.mp hs'
      -- the two first keys lie below each other
      have hkey : key a = key b := by
        rcases List.mem_cons.mp (mem_of_filter_eq h List.mem_cons_self) with rfl | ha
        · rfl
        rcases List.mem_cons.mp (mem_of_filter_eq (fun k => (h k).symm) List.mem_cons_self) with
          rfl | hb
        · rfl
        have heq : cmp (key a) (key b) = .eq := Std.OrientedCmp.isLE_antisymm
          (Ordering.isLE_iff_ne_gt.mpr (hle b hb)) (Ordering.isLE_iff_ne_gt.mpr (hle' a ha))
        exact Std.LawfulEqCmp.compare_eq_iff_eq.mp heq
      have hfirst := h (key b)
      simp only [List.filter_cons, hkey, decide_true, if_true] at hfirst
      obtain rfl := (List.cons.inj hfirst).1
      refine congrArg (a :: ·) (ih hrest hrest' fun k => ?_)
      have hk := h k
      rw [List.filter_cons, List.filter_cons] at hk
      split at hk
      · exact (List.cons.inj hk).2
      · exact hk

theorem StableSort.eq_qsort {sort : List α → List α} (h : StableSort key cmp sort) :
    sort = qsort fun a b => cmp (key a) (key b) :=
  funext fun l => eq_of_ordered (h.ordered l) (qsort_stableSort.ordered l)
    fun k => (h.stable l k).trans (qsort_stableSort.stable l k).symm

variable (key cmp) in
/-- **Sorting and taking the last of each run gives the last entry of every key.** -/
theorem lastOfRuns_qsort_filter (l : List α) (k : β) :
    (lastOfRuns key (qsort (fun a b => cmp (key a) (key b)) l)).filter (fun a => key a = k) =
      ((l.filter fun a => key a = k).getLast?).toList := by
  rw [lastOfRuns_filter (qsort_pairwise l), qsort_stableSort.stable]

end Runs

end FastDht.Lib
