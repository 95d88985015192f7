import FastDht.Common.AvlTree
import FastDht.Lib.OrderedList

/-! # What the AVL tree keeps

The list of a tree in order carries the search order: rotations leave it as it is, and each
call changes it as it should. Heights and balances need nothing of the order. -/
namespace FastDht.AvlTree
open Lib

universe u
variable {α : Type u}

/-! ## Trees -/

def AVLTreeNode.toList : AVLTreeNode α → List α
  | null => []
  | node data left right _ => left.toList ++ data :: right.toList

def AVLTreeNode.height : AVLTreeNode α → Nat
  | null => 0
  | node _ left right _ => max left.height right.height + 1

/-- Every balance is the difference of the heights, and at most 1 apart. -/
def AVLTreeNode.Balanced : AVLTreeNode α → Prop
  | null => True
  | node _ left right balance => left.Balanced ∧ right.Balanced ∧
    balance = right.height - left.height ∧ -1 ≤ balance ∧ balance ≤ 1

/-- The `balance` of a tree that is not `NULL`. -/
def AVLTreeNode.balance : AVLTreeNode α → Int
  | null => 0
  | node _ _ _ balance => balance

section Nodes
variable {side : Side} {data : α} {near far : AVLTreeNode α} {x : Int}

theorem exists_nodeAt (side : Side) {t : AVLTreeNode α} (ht : 0 < t.height) :
    ∃ data near far x, t = nodeAt side data near far x := by
  cases t with
  | null => exact absurd ht (Nat.lt_irrefl 0)
  | node data left right x =>
    cases side with
    | left => exact ⟨data, left, right, x, rfl⟩
    | right => exact ⟨data, right, left, x, rfl⟩

@[simp] theorem height_nodeAt :
    (nodeAt side data near far x).height = max near.height far.height + 1 := by
  cases side with
  | left => rfl
  | right => rw [nodeAt, AVLTreeNode.height, max_comm]; rfl

theorem toList_nodeAt : (nodeAt side data near far x).toList =
    side.pick (near.toList ++ data :: far.toList) (far.toList ++ data :: near.toList) := by
  cases side <;> rfl

@[simp] theorem sign_ne_zero : side.sign ≠ 0 := by cases side <;> decide

@[simp] theorem neg_sign_ne_sign : -side.sign ≠ side.sign := by cases side <;> decide

/-! The balance of a node says which child is higher. -/

theorem AVLTreeNode.Balanced.cases (h : (nodeAt side data near far x).Balanced) :
    x = side.sign ∨ x = 0 ∨ x = -side.sign := by
  obtain ⟨-, -, -, hlow, hhigh⟩ := h
  cases side <;> simp only [Side.sign] <;> omega

@[simp] theorem balanced_sign : (nodeAt side data near far side.sign).Balanced ↔
    near.Balanced ∧ far.Balanced ∧ near.height = far.height + 1 := by
  cases side <;> simp only [nodeAt, Side.pick, Side.sign, AVLTreeNode.Balanced] <;> grind

@[simp] theorem balanced_zero : (nodeAt side data near far 0).Balanced ↔
    near.Balanced ∧ far.Balanced ∧ near.height = far.height := by
  cases side <;> simp only [nodeAt, Side.pick, AVLTreeNode.Balanced] <;> grind

@[simp] theorem balanced_neg_sign : (nodeAt side data near far (-side.sign)).Balanced ↔
    near.Balanced ∧ far.Balanced ∧ far.height = near.height + 1 := by
  cases side <;> simp only [nodeAt, Side.pick, Side.sign, AVLTreeNode.Balanced] <;> grind

end Nodes

/-! ## Rotations -/

section Rotations
variable {side : Side} {data data' data'' : α} {near far a b c d : AVLTreeNode α}
  {x x' y y' z z' : Int}

theorem rotations_one : rotations side data (nodeAt side data' a b side.sign) c x =
    some (nodeAt side data' a (nodeAt side data b c 0) 0) := by
  cases side <;> rfl

theorem rotations_two : rotations side data
      (nodeAt side data' a (nodeAt side data'' b c z) (-side.sign)) d x =
    some (nodeAt side data'' (nodeAt side data' a b (balancesAround side z x (-side.sign)).2)
      (nodeAt side data c d (balancesAround side z x (-side.sign)).1) 0) := by
  cases side <;> rfl

theorem toList_rotate : (nodeAt side data' a (nodeAt side data b c x) y).toList =
    (nodeAt side data (nodeAt side data' a b z) c x').toList := by
  cases side <;> simp [nodeAt, Side.pick, AVLTreeNode.toList]

theorem toList_rotate_two :
    (nodeAt side data'' (nodeAt side data' a b y') (nodeAt side data c d x') z').toList =
      (nodeAt side data (nodeAt side data' a (nodeAt side data'' b c z) y) d x).toList := by
  cases side <;> simp [nodeAt, Side.pick, AVLTreeNode.toList]

theorem two_rotations_balanced (ha : a.Balanced) (hraised : (nodeAt side data'' b c z).Balanced)
    (hd : d.Balanced) (hheight : (nodeAt side data'' b c z).height = a.height + 1)
    (hda : d.height = a.height) :
    (nodeAt side data'' (nodeAt side data' a b (balancesAround side z x y).2)
      (nodeAt side data c d (balancesAround side z x y).1) 0).Balanced := by
  rw [height_nodeAt] at hheight
  rcases hraised.cases with rfl | rfl | rfl
  · obtain ⟨hb, hc, hbc⟩ := balanced_sign.mp hraised
    simp only [balancesAround, if_true, balanced_zero, balanced_neg_sign, height_nodeAt]
    exact ⟨⟨ha, hb, by omega⟩, ⟨hc, hd, by omega⟩, by omega⟩
  · obtain ⟨hb, hc, hbc⟩ := balanced_zero.mp hraised
    simp only [balancesAround, if_neg sign_ne_zero.symm, if_true, balanced_zero, height_nodeAt]
    exact ⟨⟨ha, hb, by omega⟩, ⟨hc, hd, by omega⟩, by omega⟩
  · obtain ⟨hb, hc, hbc⟩ := balanced_neg_sign.mp hraised
    simp only [balancesAround, if_neg neg_sign_ne_sign, neg_eq_zero, if_neg sign_ne_zero, if_true,
      balanced_zero, balanced_sign, height_nodeAt]
    exact ⟨⟨ha, hb, by omega⟩, ⟨hc, hd, by omega⟩, by omega⟩

/-- The rotations lower a child that is two levels too high and not level itself. -/
theorem rotations_spec (side : Side) (data : α) (x : Int) (hnear : near.Balanced)
    (hfar : far.Balanced) (hheight : near.height = far.height + 2) (hbalance : near.balance ≠ 0) :
    ∃ t, rotations side data near far x = some t ∧ t.Balanced ∧ t.height = near.height ∧
      t.toList = (nodeAt side data near far x).toList := by
  obtain ⟨data', a, b, y, rfl⟩ := exists_nodeAt side (t := near) (by omega)
  rcases hnear.cases with rfl | rfl | rfl
  · obtain ⟨ha, hb, hab⟩ := balanced_sign.mp hnear
    rw [height_nodeAt] at hheight
    refine ⟨_, rotations_one, ?_, ?_, toList_rotate⟩
    · simp only [balanced_zero, height_nodeAt]
      exact ⟨ha, ⟨hb, hfar, by omega⟩, by omega⟩
    · simp only [height_nodeAt]
      omega
  · exact absurd rfl hbalance
  · obtain ⟨ha, hb, hab⟩ := balanced_neg_sign.mp hnear
    obtain ⟨data'', b, c, z, rfl⟩ := exists_nodeAt side (t := b) (by omega)
    rw [height_nodeAt] at hheight
    refine ⟨_, rotations_two, two_rotations_balanced ha hb hfar (by omega) (by omega), ?_,
      toList_rotate_two⟩
    simp only [height_nodeAt] at hab hheight ⊢
    omega

end Rotations

/-! ## One level of the recursion -/

section Levels
variable {side : Side} {data data' : α} {old near far a b c : AVLTreeNode α} {x y : Int}
  {flag : Bool}

/-- `t` has come of `old` by an insertion, and is one level higher if `taller`. A higher tree is
a new node or leans to one side: `avlBalanceWhenInsert` has no rotation for one that does not. -/
structure Grown (old t : AVLTreeNode α) (taller : Bool) : Prop where
  balanced : t.Balanced
  height : t.height = old.height + taller.toNat
  leans : taller = true → t.height = 1 ∨ t.balance ≠ 0

/-- `t` has come of `old` by a deletion, and is one level lower if `shorter`. -/
structure Shrunk (old t : AVLTreeNode α) (shorter : Bool) : Prop where
  balanced : t.Balanced
  height : old.height = t.height + shorter.toNat

theorem nodeAt_other : nodeAt side.other data far near x = nodeAt side data near far x := by
  cases side <;> rfl

@[simp] theorem sign_other : side.other.sign = -side.sign := by cases side <;> rfl

theorem AVLTreeNode.Balanced.replace (h : (nodeAt side data old far x).Balanced)
    (hnear : near.Balanced) (hheight : near.height = old.height) :
    (nodeAt side data' near far x).Balanced := by
  rcases h.cases with rfl | rfl | rfl <;>
    simp only [balanced_sign, balanced_zero, balanced_neg_sign, hheight] at h ⊢ <;>
    exact ⟨hnear, h.2⟩

theorem avlBalanceWhenInsert_spec (side : Side) (data : α) (x : Int) (hnear : near.Balanced)
    (hfar : far.Balanced) (hheight : near.height = far.height + 2) (hbalance : near.balance ≠ 0) :
    ∃ t, avlBalanceWhenInsert side data near far x = some (t, false) ∧ t.Balanced ∧
      t.height = near.height ∧ t.toList = (nodeAt side data near far x).toList := by
  obtain ⟨t, ht, hspec⟩ := rotations_spec side data x hnear hfar hheight hbalance
  refine ⟨t, ?_, hspec⟩
  obtain ⟨data', a, b, y, rfl⟩ := exists_nodeAt side (t := near) (by omega)
  have hy : y = side.sign ∨ y = -side.sign := hnear.cases.imp_right (·.resolve_left hbalance)
  refine (if_pos hy).trans ?_
  rw [ht]
  rfl

/-- The rebalancing after a deletion. The height is kept if the child was level. -/
theorem avlBalanceWhenDelete_spec (side : Side) (data : α) (hnear : near.Balanced)
    (hfar : far.Balanced) (hheight : near.height = far.height + 2) :
    ∃ t shorter, avlBalanceWhenDelete side data near far side.sign = some (t, shorter) ∧
      t.Balanced ∧ t.height + shorter.toNat = near.height + 1 ∧
      t.toList = (nodeAt side data near far side.sign).toList := by
  by_cases hbalance : near.balance = 0
  · obtain ⟨data', a, b, y, rfl⟩ := exists_nodeAt side (t := near) (by omega)
    obtain rfl : y = 0 := hbalance
    obtain ⟨ha, hb, hab⟩ := balanced_zero.mp hnear
    rw [height_nodeAt] at hheight
    refine ⟨nodeAt side data' a (nodeAt side data b far side.sign) (-side.sign), false,
      by cases side <;> rfl, ?_, ?_, toList_rotate⟩
    · simp only [balanced_sign, balanced_neg_sign, height_nodeAt]
      exact ⟨ha, ⟨hb, hfar, by omega⟩, by omega⟩
    · simp only [height_nodeAt, Bool.toNat_false]
      omega
  · obtain ⟨t, ht, hbalanced, hth, hlist⟩ :=
      rotations_spec side data side.sign hnear hfar hheight hbalance
    refine ⟨t, true, ?_, hbalanced, congrArg (· + 1) hth, hlist⟩
    obtain ⟨data', a, b, y, rfl⟩ := exists_nodeAt side (t := near) (by omega)
    have hy : y = side.sign ∨ y = -side.sign := hnear.cases.imp_right (·.resolve_left hbalance)
    refine (if_neg hbalance).trans ((if_pos hy).trans ?_)
    rw [ht]
    rfl

theorem afterInsert_spec (side : Side) (hold : (nodeAt side data old far x).Balanced)
    (h : Grown old near flag) : ∃ t taller, afterInsert side data near far x flag =
      some (t, taller) ∧ Grown (nodeAt side data old far x) t taller ∧
      t.toList = (nodeAt side data near far x).toList := by
  obtain ⟨hnear, hheight, hleans⟩ := h
  cases flag with
  | false =>
    refine ⟨_, _, if_pos rfl, ⟨hold.replace hnear hheight, ?_, nofun⟩, rfl⟩
    rw [height_nodeAt, height_nodeAt, hheight]
    rfl
  | true =>
    rw [Bool.toNat_true] at hheight
    rcases hold.cases with rfl | rfl | rfl
    · obtain ⟨-, hfar, hof⟩ := balanced_sign.mp hold
      obtain ⟨t, ht, hbalanced, hth, hlist⟩ := avlBalanceWhenInsert_spec side data
        side.sign hnear hfar (by omega) ((hleans rfl).resolve_left (by omega))
      refine ⟨t, false, ?_, ⟨hbalanced, ?_, nofun⟩, hlist⟩
      · rw [← ht]
        cases side <;> rfl
      · rw [height_nodeAt, hth, Bool.toNat_false]
        omega
    · obtain ⟨-, hfar, hof⟩ := balanced_zero.mp hold
      refine ⟨nodeAt side data near far side.sign, true, by cases side <;> rfl,
        ⟨balanced_sign.mpr ⟨hnear, hfar, by omega⟩, ?_, fun _ => .inr sign_ne_zero⟩, ?_⟩
      · rw [height_nodeAt, height_nodeAt, Bool.toNat_true]
        omega
      · rw [toList_nodeAt, toList_nodeAt]
    · obtain ⟨-, hfar, hof⟩ := balanced_neg_sign.mp hold
      refine ⟨nodeAt side data near far 0, false, by cases side <;> rfl,
        ⟨balanced_zero.mpr ⟨hnear, hfar, by omega⟩, ?_, nofun⟩, ?_⟩
      · rw [height_nodeAt, height_nodeAt, Bool.toNat_false]
        omega
      · rw [toList_nodeAt, toList_nodeAt]

theorem afterDelete_spec (side : Side) (data' : α) (hold : (nodeAt side data old far x).Balanced)
    (h : Shrunk old near flag) : ∃ t shorter, afterDelete side data' near far x flag =
      some (t, shorter) ∧ Shrunk (nodeAt side data old far x) t shorter ∧
      t.toList = (nodeAt side data' near far x).toList := by
  obtain ⟨hnear, hheight⟩ := h
  cases flag with
  | false =>
    refine ⟨_, _, if_pos rfl, ⟨?_, ?_⟩, rfl⟩
    · exact hold.replace hnear hheight.symm
    · rw [height_nodeAt, height_nodeAt, hheight]
      rfl
  | true =>
    rw [Bool.toNat_true] at hheight
    rcases hold.cases with rfl | rfl | rfl
    · obtain ⟨-, hfar, hof⟩ := balanced_sign.mp hold
      refine ⟨nodeAt side data' near far 0, true, by cases side <;> rfl,
        ⟨balanced_zero.mpr ⟨hnear, hfar, by omega⟩, ?_⟩, ?_⟩
      · rw [height_nodeAt, height_nodeAt, Bool.toNat_true]
        omega
      · rw [toList_nodeAt, toList_nodeAt]
    · obtain ⟨-, hfar, hof⟩ := balanced_zero.mp hold
      refine ⟨nodeAt side data' near far (-side.sign), false, by cases side <;> rfl,
        ⟨balanced_neg_sign.mpr ⟨hnear, hfar, by omega⟩, ?_⟩, ?_⟩
      · rw [height_nodeAt, height_nodeAt, Bool.toNat_false]
        omega
      · rw [toList_nodeAt, toList_nodeAt]
    · obtain ⟨-, hfar, hof⟩ := balanced_neg_sign.mp hold
      obtain ⟨t, shorter, ht, hbalanced, hth, hlist⟩ := avlBalanceWhenDelete_spec
        side.other data' hfar hnear (by omega)
      refine ⟨t, shorter, ?_, ⟨hbalanced, ?_⟩, ?_⟩
      · rw [← ht]
        cases side <;> rfl
      · rw [height_nodeAt]
        omega
      · rw [hlist, nodeAt_other, sign_other]

end Levels

/-! ## The loops on the list of a tree -/

section Loops
variable (cmp : α → α → Ordering)

def putList (onEqual : α → α) (x : α) (mallocOk : Bool) (l : List α) : Int × List α :=
  match part cmp .eq x l with
  | y :: _ => (0, part cmp .lt x l ++ onEqual y :: part cmp .gt x l)
  | [] => if mallocOk then (1, part cmp .lt x l ++ x :: part cmp .gt x l) else (-ENOMEM, l)

def deleteList (x : α) (l : List α) : Int × List α :=
  (if part cmp .eq x l = [] then 0 else 1, part cmp .lt x l ++ part cmp .gt x l)

variable {cmp} [Std.TransCmp cmp] {onEqual : α → α} {x d : α} {mallocOk : Bool}
  {front back : List α} {t : AVLTreeNode α}

theorem putList_gt (h : OrderedBy cmp (front ++ d :: back)) (hd : cmp d x = .gt) :
    putList cmp onEqual x mallocOk (front ++ d :: back) =
      ((putList cmp onEqual x mallocOk front).1,
        (putList cmp onEqual x mallocOk front).2 ++ d :: back) := by
  obtain ⟨hlt, heq, hgt⟩ := parts_of_gt h hd
  rw [putList, putList, hlt, heq, hgt]
  cases part cmp .eq x front with
  | nil => cases mallocOk <;> simp
  | cons y _ => simp

theorem putList_lt (h : OrderedBy cmp (front ++ d :: back)) (hd : cmp d x = .lt) :
    putList cmp onEqual x mallocOk (front ++ d :: back) =
      ((putList cmp onEqual x mallocOk back).1,
        front ++ d :: (putList cmp onEqual x mallocOk back).2) := by
  obtain ⟨hlt, heq, hgt⟩ := parts_of_lt h hd
  rw [putList, putList, hlt, heq, hgt]
  cases part cmp .eq x back with
  | nil => cases mallocOk <;> simp
  | cons y _ => simp

theorem deleteList_gt (h : OrderedBy cmp (front ++ d :: back)) (hd : cmp d x = .gt) :
    deleteList cmp x (front ++ d :: back) =
      ((deleteList cmp x front).1, (deleteList cmp x front).2 ++ d :: back) := by
  obtain ⟨hlt, heq, hgt⟩ := parts_of_gt h hd
  rw [deleteList, deleteList, hlt, heq, hgt, ← List.append_assoc]

theorem deleteList_lt (h : OrderedBy cmp (front ++ d :: back)) (hd : cmp d x = .lt) :
    deleteList cmp x (front ++ d :: back) =
      ((deleteList cmp x back).1, front ++ d :: (deleteList cmp x back).2) := by
  obtain ⟨hlt, heq, hgt⟩ := parts_of_lt h hd
  rw [deleteList, deleteList, hlt, heq, hgt, List.append_assoc, List.cons_append]

theorem deleteList_eq (h : OrderedBy cmp (front ++ d :: back)) (hd : cmp d x = .eq) :
    deleteList cmp x (front ++ d :: back) = (1, front ++ back) := by
  obtain ⟨hlt, heq, hgt⟩ := parts_of_eq h hd
  rw [deleteList, hlt, heq, hgt, if_neg (List.cons_ne_nil _ _)]

theorem putLoop_spec (onEqual : α → α) (hbalanced : t.Balanced) (hordered : OrderedBy cmp t.toList) :
    ∃ success t' taller, putLoop cmp onEqual x mallocOk t = some (success, t', taller) ∧
      Grown t t' taller ∧ (success, t'.toList) = putList cmp onEqual x mallocOk t.toList := by
  induction t with
  | null =>
    cases mallocOk with
    | true =>
      have hleaf : (nodeAt .left x .null .null 0).Balanced :=
        balanced_zero.mpr ⟨trivial, trivial, rfl⟩
      exact ⟨_, _, _, rfl, ⟨hleaf, rfl, fun _ => .inl rfl⟩, rfl⟩
    | false => exact ⟨_, _, _, rfl, ⟨trivial, rfl, nofun⟩, rfl⟩
  | node d left right balance ihl ihr =>
    obtain ⟨hol, hor, -⟩ := List.pairwise_append.mp hordered
    rw [putLoop]
    cases hd : cmp d x with
    | gt =>
      obtain ⟨success, left', taller, hloop, hgrown, hlist⟩ := ihl hbalanced.1 hol
      obtain ⟨t, taller, hafter, hgrown, hspec⟩ := afterInsert_spec .left hbalanced hgrown
      refine ⟨success, t, taller, by rw [hloop]; exact congrArg (Option.map _) hafter, hgrown, ?_⟩
      rw [hspec, AVLTreeNode.toList, putList_gt hordered hd, ← hlist]
      rfl
    | lt =>
      obtain ⟨success, right', taller, hloop, hgrown, hlist⟩ := ihr hbalanced.2.1 hor.of_cons
      obtain ⟨t, taller, hafter, hgrown, hspec⟩ := afterInsert_spec .right hbalanced hgrown
      refine ⟨success, t, taller, by rw [hloop]; exact congrArg (Option.map _) hafter, hgrown, ?_⟩
      rw [hspec, AVLTreeNode.toList, putList_lt hordered hd, ← hlist]
      rfl
    | eq =>
      obtain ⟨hlt, heq, hgt⟩ := parts_of_eq hordered hd
      refine ⟨_, _, _, rfl, ⟨hbalanced, rfl, nofun⟩, ?_⟩
      rw [AVLTreeNode.toList, AVLTreeNode.toList, putList, hlt, heq, hgt]

omit [Std.TransCmp cmp] in
theorem isNull_iff : t.isNull = true ↔ t = .null := by
  cases t <;> simp [AVLTreeNode.isNull]

theorem deleteRightmost_spec (ht : ¬t.isNull = true) (hbalanced : t.Balanced) :
    ∃ moved t' shorter, deleteRightmost t = some (moved, t', shorter) ∧ Shrunk t t' shorter ∧
      t.toList = t'.toList ++ [moved] := by
  induction t with
  | null => exact absurd rfl ht
  | node d left right balance _ ihr =>
    rw [deleteRightmost]
    by_cases hright : right.isNull = true
    · obtain rfl := isNull_iff.mp hright
      refine ⟨d, left, true, if_pos rfl, ⟨hbalanced.1, ?_⟩, rfl⟩
      rw [AVLTreeNode.height, AVLTreeNode.height, Nat.max_zero, Bool.toNat_true]
    · obtain ⟨moved, right', shorter, hloop, hshrunk, hlist⟩ := ihr hright hbalanced.2.1
      obtain ⟨t, shorter, hafter, hshrunk, hspec⟩ := afterDelete_spec .right d hbalanced hshrunk
      refine ⟨moved, t, shorter, ?_, hshrunk, ?_⟩
      · rw [if_neg hright, hloop]
        exact congrArg (Option.map _) hafter
      · rw [hspec, AVLTreeNode.toList, hlist, toList_nodeAt, ← List.cons_append,
          ← List.append_assoc]
        rfl

theorem avlTreeDeleteLoop_spec (ht : ¬t.isNull = true) (hbalanced : t.Balanced)
    (hordered : OrderedBy cmp t.toList) :
    ∃ result t' shorter, avlTreeDeleteLoop cmp x t = some (result, t', shorter) ∧
      Shrunk t t' shorter ∧ (result, t'.toList) = deleteList cmp x t.toList := by
  induction t with
  | null => exact absurd rfl ht
  | node d left right balance ihl ihr =>
    obtain ⟨hol, hor, -⟩ := List.pairwise_append.mp hordered
    rw [avlTreeDeleteLoop]
    cases hd : cmp d x with
    | gt =>
      rw [AVLTreeNode.toList, deleteList_gt hordered hd]
      by_cases hleft : left.isNull = true
      · obtain rfl := isNull_iff.mp hleft
        exact ⟨0, _, false, rfl, ⟨hbalanced, rfl⟩, rfl⟩
      · obtain ⟨result, left', shorter, hloop, hshrunk, hlist⟩ := ihl hleft hbalanced.1 hol
        obtain ⟨t, shorter, hafter, hshrunk, hspec⟩ := afterDelete_spec .left d hbalanced hshrunk
        refine ⟨result, t, shorter, ?_, hshrunk, by rw [hspec, ← hlist]; rfl⟩
        rw [if_neg hleft, hloop]
        exact congrArg (Option.map _) hafter
    | lt =>
      rw [AVLTreeNode.toList, deleteList_lt hordered hd]
      by_cases hright : right.isNull = true
      · obtain rfl := isNull_iff.mp hright
        exact ⟨0, _, false, rfl, ⟨hbalanced, rfl⟩, rfl⟩
      · obtain ⟨result, right', shorter, hloop, hshrunk, hlist⟩ :=
          ihr hright hbalanced.2.1 hor.of_cons
        obtain ⟨t, shorter, hafter, hshrunk, hspec⟩ := afterDelete_spec .right d hbalanced hshrunk
        refine ⟨result, t, shorter, ?_, hshrunk, by rw [hspec, ← hlist]; rfl⟩
        rw [if_neg hright, hloop]
        exact congrArg (Option.map _) hafter
    | eq =>
      rw [AVLTreeNode.toList, deleteList_eq hordered hd]
      by_cases hleft : left.isNull = true
      · obtain rfl := isNull_iff.mp hleft
        refine ⟨1, right, true, rfl, ⟨hbalanced.2.1, ?_⟩, rfl⟩
        rw [AVLTreeNode.height, AVLTreeNode.height, Nat.zero_max, Bool.toNat_true]
      by_cases hright : right.isNull = true
      · obtain rfl := isNull_iff.mp hright
        refine ⟨1, left, true, if_neg hleft, ⟨hbalanced.1, ?_⟩, ?_⟩
        · rw [AVLTreeNode.height, AVLTreeNode.height, Nat.max_zero, Bool.toNat_true]
        · rw [AVLTreeNode.toList, List.append_nil]
      obtain ⟨moved, left', shorter, hloop, hshrunk, hlist⟩ :=
        deleteRightmost_spec hleft hbalanced.1
      obtain ⟨t, shorter, hafter, hshrunk, hspec⟩ :=
        afterDelete_spec .left moved hbalanced hshrunk
      refine ⟨1, t, shorter, ?_, hshrunk, ?_⟩
      · dsimp only
        rw [if_neg hleft, if_neg hright, hloop]
        exact congrArg (Option.map _) hafter
      · rw [hspec, hlist, List.append_assoc]
        rfl

theorem avlTreeFindGeLoop_eq (hordered : OrderedBy cmp t.toList) :
    avlTreeFindGeLoop cmp x t = t.toList.find? (cmp · x ≠ .lt) := by
  induction t with
  | null => rfl
  | node d left right balance ihl ihr =>
    obtain ⟨hol, hor, -⟩ := List.pairwise_append.mp hordered
    rw [avlTreeFindGeLoop, ihl hol, ihr hor.of_cons, AVLTreeNode.toList, List.find?_append,
      List.find?_cons]
    have hnone (h : cmp d x ≠ .gt) : left.toList.find? (cmp · x ≠ .lt) = none :=
      List.find?_eq_none.mpr fun a ha => by rw [front_lt hordered h a ha]; decide
    cases hd : cmp d x with
    | gt => rfl
    | lt => rw [hnone (hd.trans_ne nofun)]; rfl
    | eq => rw [hnone (hd.trans_ne nofun)]; rfl

end Loops

/-! ## What the calls are for -/

section Calls
open Classical
variable (cmp : α → α → Ordering)

def AVLTreeNode.elements (t : AVLTreeNode α) : Set α := {y | y ∈ t.toList}

/-- The keys of a set, each given by all values that have it. -/
def keys (s : Set α) : Set α := {k | ∃ y ∈ s, cmp y k = .eq}

def without (x : α) (s : Set α) : Set α := {y ∈ s | cmp y x ≠ .eq}

/-- A set that gets `x`, and becomes `known` if it has the key already. -/
noncomputable def put (x : α) (mallocOk : Bool) (known s : Set α) : Set α :=
  if x ∈ keys cmp s then known else if mallocOk then s ∪ {x} else s

noncomputable def TreeCall.onSet (s : Set α) : TreeCall α → Set α
  | insert x mallocOk => put cmp x mallocOk s s
  | replace x mallocOk => put cmp x mallocOk (without cmp x s ∪ {x}) s
  | delete x => without cmp x s

/-- The call needs a node for a new key and gets none. -/
def TreeCall.NoMemory (s : Set α) : TreeCall α → Prop
  | insert x mallocOk | replace x mallocOk => x ∉ keys cmp s ∧ mallocOk = false
  | delete _ => False

/-- 1 if the keys change, 0 or the error if they do not. -/
noncomputable def TreeCall.report (s : Set α) (call : TreeCall α) : Int :=
  if keys cmp (call.onSet cmp s) ≠ keys cmp s then 1
  else if call.NoMemory cmp s then -ENOMEM
  else 0

noncomputable def runOnSet (s : Set α) : List (TreeCall α) → List Int × Set α
  | [] => ([], s)
  | call :: calls =>
    (call.report cmp s :: (runOnSet (call.onSet cmp s) calls).1,
      (runOnSet (call.onSet cmp s) calls).2)

/-- The least element that is not smaller than `x`, if there is one. -/
def LeastGe (s : Set α) (x : α) : Option α → Prop
  | some y => y ∈ s ∧ cmp y x ≠ .lt ∧ ∀ z ∈ s, cmp z x ≠ .lt → cmp y z ≠ .gt
  | none => ∀ z ∈ s, cmp z x = .lt

/-! ### What a call reports -/

variable {cmp} {x : α} {s s' : Set α} {mallocOk : Bool} {l : List α} {t : AVLTreeNode α}

theorem without_absent (hx : x ∉ keys cmp s) : without cmp x s = s :=
  Set.sep_eq_self_iff_mem_true.mpr fun y hy heq => hx ⟨y, hy, heq⟩

theorem report_of_ne {call : TreeCall α} (hset : call.onSet cmp s = s')
    (h : keys cmp s' ≠ keys cmp s) : call.report cmp s = 1 := if_pos (hset ▸ h)

theorem report_of_eq {call : TreeCall α} (hset : call.onSet cmp s = s')
    (h : keys cmp s' = keys cmp s) :
    call.report cmp s = if call.NoMemory cmp s then -ENOMEM else 0 :=
  if_neg (not_not.mpr (hset ▸ h))

theorem report_delete :
    (TreeCall.delete x).report cmp s = if x ∈ keys cmp s then 1 else 0 := by
  by_cases hx : x ∈ keys cmp s
  · have hgone : x ∉ keys cmp (without cmp x s) := fun ⟨_, hy, heq⟩ => hy.2 heq
    rw [if_pos hx, report_of_ne rfl]
    exact fun h => hgone (h ▸ hx)
  · have hset : (TreeCall.delete x).onSet cmp s = s := without_absent hx
    rw [if_neg hx, report_of_eq hset rfl]
    exact if_neg id

variable [Std.TransCmp cmp]

theorem keys_replace (hx : x ∈ keys cmp s) : keys cmp (without cmp x s ∪ {x}) = keys cmp s := by
  obtain ⟨z, hz, hzx⟩ := hx
  refine Set.Subset.antisymm ?_ ?_
  · rintro k ⟨y, hy | rfl, hyk⟩
    · exact ⟨y, hy.1, hyk⟩
    · exact ⟨z, hz, Std.TransCmp.eq_trans hzx hyk⟩
  · rintro k ⟨y, hy, hyk⟩
    by_cases hyx : cmp y x = .eq
    · exact ⟨x, .inr rfl, Std.TransCmp.eq_trans (Std.OrientedCmp.eq_symm hyx) hyk⟩
    · exact ⟨y, .inl ⟨hy, hyx⟩, hyk⟩

theorem keys_add_ne (hx : x ∉ keys cmp s) : keys cmp (s ∪ {x}) ≠ keys cmp s :=
  fun h => hx (h ▸ ⟨x, .inr rfl, Std.ReflCmp.compare_self⟩)

theorem report_put {call : TreeCall α} (hset : call.onSet cmp s = put cmp x mallocOk s' s)
    (hmemory : call.NoMemory cmp s = (x ∉ keys cmp s ∧ mallocOk = false))
    (hsame : x ∈ keys cmp s → keys cmp s' = keys cmp s) : call.report cmp s =
      if x ∈ keys cmp s then 0 else if mallocOk then 1 else -ENOMEM := by
  by_cases hx : x ∈ keys cmp s
  · rw [if_pos hx, report_of_eq (hset.trans (if_pos hx)) (hsame hx), hmemory]
    exact if_neg fun h => h.1 hx
  rw [if_neg hx]
  rw [put, if_neg hx] at hset
  cases mallocOk with
  | true => exact report_of_ne hset (keys_add_ne hx)
  | false =>
    rw [report_of_eq hset rfl, hmemory]
    exact if_pos ⟨hx, rfl⟩

/-! ### The lists as sets -/

/-- The list operation `r` of a call has the meaning of the call. -/
structure Agrees (cmp : α → α → Ordering) (call : TreeCall α) (l : List α)
    (r : Int × List α) : Prop where
  report : r.1 = call.report cmp {y | y ∈ l}
  ordered : OrderedBy cmp r.2
  elements : {y | y ∈ r.2} = call.onSet cmp {y | y ∈ l}

omit [Std.TransCmp cmp] in
theorem setOf_parts : {y | y ∈ part cmp .lt x l ++ part cmp .gt x l} =
    without cmp x {y | y ∈ l} := by
  ext y
  simp only [Set.mem_ofPred_eq, List.mem_append, mem_part, without, ← and_or_left]
  cases cmp y x <;> simp

omit [Std.TransCmp cmp] in
theorem setOf_parts_around : {y | y ∈ part cmp .lt x l ++ x :: part cmp .gt x l} =
    without cmp x {y | y ∈ l} ∪ {x} := by
  rw [← setOf_parts]
  ext y
  simp only [Set.mem_ofPred_eq, Set.mem_union, Set.mem_singleton_iff, List.mem_append,
    List.mem_cons]
  tauto

omit [Std.TransCmp cmp] in
theorem part_eq_nil_iff : part cmp .eq x l = [] ↔ x ∉ keys cmp {y | y ∈ l} := by
  simp [part, keys]

theorem deleteList_agrees (h : OrderedBy cmp l) :
    Agrees cmp (.delete x) l (deleteList cmp x l) where
  report := by
    rw [report_delete, deleteList, ← ite_not]
    simp only [part_eq_nil_iff, not_not]
  ordered := h.parts x
  elements := setOf_parts

theorem putList_agrees {call : TreeCall α} {onEqual : α → α} (h : OrderedBy cmp l)
    (hset : call.onSet cmp {y | y ∈ l} = put cmp x mallocOk s' {y | y ∈ l})
    (hmemory : call.NoMemory cmp {y | y ∈ l} = (x ∉ keys cmp {y | y ∈ l} ∧ mallocOk = false))
    (hsame : x ∈ keys cmp {y | y ∈ l} → keys cmp s' = keys cmp {y | y ∈ l})
    (hpresent : ∀ d, part cmp .lt x l ++ d :: part cmp .gt x l = l →
      OrderedBy cmp (part cmp .lt x l ++ onEqual d :: part cmp .gt x l) ∧
        {y | y ∈ part cmp .lt x l ++ onEqual d :: part cmp .gt x l} = s') :
    Agrees cmp call l (putList cmp onEqual x mallocOk l) := by
  have hreport := report_put hset hmemory hsame
  by_cases hx : x ∈ keys cmp {y | y ∈ l}
  · rw [if_pos hx] at hreport
    rw [put, if_pos hx] at hset
    obtain ⟨d, hmem, hd⟩ := hx
    obtain ⟨front, back, rfl⟩ := List.append_of_mem hmem
    obtain ⟨hlt, heq, hgt⟩ := parts_of_eq h hd
    obtain ⟨hordered, helements⟩ := hpresent d (by rw [hlt, hgt])
    rw [putList, heq]
    exact ⟨hreport.symm, hordered, helements.trans hset.symm⟩
  · rw [if_neg hx] at hreport
    rw [put, if_neg hx] at hset
    rw [putList, part_eq_nil_iff.mpr hx]
    cases mallocOk with
    | true =>
      refine ⟨hreport.symm, h.parts_around x, (setOf_parts_around.trans ?_).trans hset.symm⟩
      exact congrArg (· ∪ {x}) (without_absent hx)
    | false => exact ⟨hreport.symm, h, hset.symm⟩

/-! ### Calls and runs -/

variable (cmp) in
/-- What every call keeps. -/
structure Holds (t : AVLTreeNode α) : Prop where
  balanced : t.Balanced
  ordered : OrderedBy cmp t.toList

theorem run_spec (h : Holds cmp t) (call : TreeCall α) :
    ∃ result t', call.run cmp t = some (result, t') ∧ Holds cmp t' ∧
      result = call.report cmp t.elements ∧ t'.elements = call.onSet cmp t.elements := by
  have hof {result : Int} {t' : AVLTreeNode α} {r : Int × List α}
      (hagrees : Agrees cmp call t.toList r) (hlist : (result, t'.toList) = r)
      (hbalanced : t'.Balanced) : Holds cmp t' ∧
        result = call.report cmp t.elements ∧ t'.elements = call.onSet cmp t.elements := by
    subst hlist
    exact ⟨⟨hbalanced, hagrees.ordered⟩, hagrees.report, hagrees.elements⟩
  cases call with
  | insert x mallocOk =>
    obtain ⟨success, t', taller, hloop, hgrown, hlist⟩ := putLoop_spec id h.balanced h.ordered
    have hagrees : Agrees cmp (.insert x mallocOk) t.toList (putList cmp id x mallocOk t.toList) :=
      putList_agrees h.ordered rfl rfl (fun _ => rfl) fun d hl => by
        rw [id, hl]
        exact ⟨h.ordered, rfl⟩
    refine ⟨success, t', ?_, hof hagrees hlist hgrown.balanced⟩
    rw [TreeCall.run, avlTreeInsert, avlTreeInsertLoop, hloop]
    rfl
  | replace x mallocOk =>
    obtain ⟨success, t', taller, hloop, hgrown, hlist⟩ :=
      putLoop_spec (fun _ => x) h.balanced h.ordered
    have hagrees : Agrees cmp (.replace x mallocOk) t.toList
        (putList cmp (fun _ => x) x mallocOk t.toList) :=
      putList_agrees h.ordered rfl rfl keys_replace fun _ _ =>
        ⟨h.ordered.parts_around x, setOf_parts_around⟩
    refine ⟨success, t', ?_, hof hagrees hlist hgrown.balanced⟩
    rw [TreeCall.run, avlTreeReplace, avlTreeReplaceLoop, hloop]
    rfl
  | delete x =>
    rw [TreeCall.run, avlTreeDelete]
    by_cases ht : t.isNull = true
    · obtain rfl := isNull_iff.mp ht
      exact ⟨0, .null, rfl, hof (deleteList_agrees h.ordered) rfl trivial⟩
    · obtain ⟨result, t', shorter, hloop, hshrunk, hlist⟩ :=
        avlTreeDeleteLoop_spec ht h.balanced h.ordered
      refine ⟨result, t', ?_, hof (deleteList_agrees h.ordered) hlist hshrunk.balanced⟩
      rw [if_neg ht, hloop]
      rfl

theorem runCalls_spec (h : Holds cmp t) (calls : List (TreeCall α)) :
    ∃ results t', runCalls cmp t calls = some (results, t') ∧ Holds cmp t' ∧
      (results, t'.elements) = runOnSet cmp t.elements calls := by
  induction calls generalizing t with
  | nil => exact ⟨[], t, rfl, h, rfl⟩
  | cons call calls ih =>
    obtain ⟨result, t', hrun, h', hreport, helements⟩ := run_spec h call
    obtain ⟨results, last, hruns, hlast, hset⟩ := ih h'
    refine ⟨result :: results, last, ?_, hlast, ?_⟩
    · rw [runCalls, hrun]
      exact congrArg (Option.map _) hruns
    · rw [runOnSet, ← helements, ← hset, hreport]

theorem avlTreeFindGe_spec (h : Holds cmp t) (x : α) :
    LeastGe cmp t.elements x (avlTreeFindGe cmp t x) := by
  rw [avlTreeFindGe, avlTreeFindGeLoop_eq h.ordered]
  cases hfind : t.toList.find? (cmp · x ≠ .lt) with
  | some y => exact h.ordered.find?_least hfind
  | none => exact fun z hz => by simpa using List.find?_eq_none.mp hfind z hz

/-- **The AVL tree is a set in order.** Whatever calls are made on an empty tree, no `NULL` is
followed, every balance is right and at most 1 apart, the elements and the results are those of
the set operations, and `avl_tree_find_ge` finds the least element from its argument on. -/
theorem avl_tree_correct (cmp : α → α → Ordering) [Std.TransCmp cmp]
    (calls : List (TreeCall α)) :
    ∃ results root, runCalls cmp .null calls = some (results, root) ∧
      OrderedBy cmp root.toList ∧ root.Balanced ∧
      (results, root.elements) = runOnSet cmp ∅ calls ∧
      ∀ x, LeastGe cmp root.elements x (avlTreeFindGe cmp root x) := by
  have hempty : Holds cmp (.null : AVLTreeNode α) := ⟨trivial, List.Pairwise.nil⟩
  obtain ⟨results, root, hrun, h, hset⟩ := runCalls_spec hempty calls
  refine ⟨results, root, hrun, h.ordered, h.balanced, hset.trans ?_, avlTreeFindGe_spec h⟩
  exact congrArg (runOnSet cmp · calls) (Set.eq_empty_of_forall_notMem fun _ hy => nomatch hy)

/-- Insertions that rotate twice, a refused one and a deletion. -/
theorem avl_tree_correct_five :
    ∃ results root, runCalls compare .null [.insert 3 true, .insert 1 true, .insert 2 true,
        .replace 4 false, .delete 3] = some (results, root) ∧
      OrderedBy compare root.toList ∧ root.Balanced ∧
      (results, root.elements) = runOnSet (compare : Nat → Nat → Ordering) ∅
        [.insert 3 true, .insert 1 true, .insert 2 true, .replace 4 false, .delete 3] ∧
      ∀ x, LeastGe compare root.elements x (avlTreeFindGe compare root x) :=
  avl_tree_correct compare _

end Calls

end FastDht.AvlTree
