import Mathlib.Data.List.Basic
import Mathlib.Order.Defs.LinearOrder

/-! # Lists in the order of a comparison

Values that compare equal have the same key; a list in order has at most one value of each key.
Such a list falls into the values below a given one, the value with its key, and those above. -/
namespace FastDht.Lib

universe u

section OrderedList
variable {α : Type u} (cmp : α → α → Ordering)

/-- Strictly increasing. -/
def OrderedBy (l : List α) : Prop := l.Pairwise (cmp · · = .lt)

/-- The values that compare with `x` as `o`. -/
def part (o : Ordering) (x : α) (l : List α) : List α := l.filter (cmp · x = o)

variable {cmp} {x y d : α} {o o' : Ordering} {l front back : List α}

theorem mem_part : y ∈ part cmp o x l ↔ y ∈ l ∧ cmp y x = o := by
  rw [part, List.mem_filter, decide_eq_true_iff]

theorem part_all (h : ∀ a ∈ l, cmp a x = o) : part cmp o x l = l :=
  List.filter_eq_self.mpr fun a ha => decide_eq_true (h a ha)

theorem part_none (h : ∀ a ∈ l, cmp a x = o) (ho : o ≠ o') : part cmp o' x l = [] :=
  List.filter_eq_nil_iff.mpr fun a ha => by rw [h a ha, decide_eq_true_iff]; exact ho

variable [Std.TransCmp cmp]

theorem front_lt (h : OrderedBy cmp (front ++ d :: back)) (hd : cmp d x ≠ .gt) :
    ∀ a ∈ front, cmp a x = .lt := fun a ha =>
  Std.TransCmp.lt_of_lt_of_isLE ((List.pairwise_append.mp h).2.2 a ha d List.mem_cons_self)
    (Ordering.isLE_iff_ne_gt.mpr hd)

theorem back_gt (h : OrderedBy cmp (front ++ d :: back)) (hd : cmp d x ≠ .lt) :
    ∀ b ∈ back, cmp b x = .gt := fun _ hb =>
  Std.OrientedCmp.gt_of_lt (Std.TransCmp.lt_of_isLE_of_lt
    (Std.OrientedCmp.isLE_of_isGE (Ordering.isGE_iff_ne_lt.mpr hd))
    (List.rel_of_pairwise_cons (List.pairwise_append.mp h).2.1 hb))

/-! ## The parts of a list around one of its values -/

omit [Std.TransCmp cmp] in
theorem part_append_cons : part cmp o x (front ++ d :: back) =
    part cmp o x front ++ ((if cmp d x = o then [d] else []) ++ part cmp o x back) := by
  simp only [part, List.filter_append, List.filter_cons, decide_eq_true_eq]
  split <;> rfl

theorem parts_of_gt (h : OrderedBy cmp (front ++ d :: back)) (hd : cmp d x = .gt) :
    part cmp .lt x (front ++ d :: back) = part cmp .lt x front ∧
      part cmp .eq x (front ++ d :: back) = part cmp .eq x front ∧
      part cmp .gt x (front ++ d :: back) = part cmp .gt x front ++ d :: back := by
  have hback := back_gt h (hd.trans_ne nofun)
  simp [part_append_cons, hd, part_all hback, part_none hback]

theorem parts_of_lt (h : OrderedBy cmp (front ++ d :: back)) (hd : cmp d x = .lt) :
    part cmp .lt x (front ++ d :: back) = front ++ d :: part cmp .lt x back ∧
      part cmp .eq x (front ++ d :: back) = part cmp .eq x back ∧
      part cmp .gt x (front ++ d :: back) = part cmp .gt x back := by
  have hfront := front_lt h (hd.trans_ne nofun)
  simp [part_append_cons, hd, part_all hfront, part_none hfront]

theorem parts_of_eq (h : OrderedBy cmp (front ++ d :: back)) (hd : cmp d x = .eq) :
    part cmp .lt x (front ++ d :: back) = front ∧
      part cmp .eq x (front ++ d :: back) = [d] ∧
      part cmp .gt x (front ++ d :: back) = back := by
  have hfront := front_lt h (hd.trans_ne nofun)
  have hback := back_gt h (hd.trans_ne nofun)
  simp [part_append_cons, hd, part_all hfront, part_none hfront, part_all hback,
    part_none hback]

/-! ## What stays in order -/

theorem OrderedBy.parts (h : OrderedBy cmp l) (x : α) :
    OrderedBy cmp (part cmp .lt x l ++ part cmp .gt x l) := by
  refine List.pairwise_append.mpr ⟨h.filter _, h.filter _, fun a ha b hb => ?_⟩
  exact Std.TransCmp.lt_trans (mem_part.mp ha).2 (Std.OrientedCmp.lt_of_gt (mem_part.mp hb).2)

theorem OrderedBy.parts_around (h : OrderedBy cmp l) (x : α) :
    OrderedBy cmp (part cmp .lt x l ++ x :: part cmp .gt x l) := by
  have hparts := List.pairwise_append.mp (h.parts x)
  refine List.pairwise_append.mpr ⟨hparts.1, List.pairwise_cons.mpr ⟨fun b hb => ?_, hparts.2.1⟩,
    fun a ha => List.forall_mem_cons.mpr ⟨(mem_part.mp ha).2, hparts.2.2 a ha⟩⟩
  exact Std.OrientedCmp.lt_of_gt (mem_part.mp hb).2

theorem OrderedBy.find?_least (h : OrderedBy cmp l) (hy : l.find? (cmp · x ≠ .lt) = some y) :
    y ∈ l ∧ cmp y x ≠ .lt ∧ ∀ z ∈ l, cmp z x ≠ .lt → cmp y z ≠ .gt := by
  obtain ⟨hyx, front, back, rfl, hfront⟩ := List.find?_eq_some_iff_append.mp hy
  refine ⟨List.mem_append_right _ List.mem_cons_self, of_decide_eq_true hyx, fun z hz hzx => ?_⟩
  rcases List.mem_append.mp hz with hz | hz
  · exact absurd (decide_eq_true hzx) (by simpa using hfront z hz)
  rcases List.mem_cons.mp hz with rfl | hz
  · exact (Std.ReflCmp.compare_self).trans_ne nofun
  · exact (List.rel_of_pairwise_cons (List.pairwise_append.mp h).2.1 hz).trans_ne nofun

end OrderedList

end FastDht.Lib
