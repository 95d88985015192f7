import FastDht.Common.Types

/-! # The AVL tree: common/avl_tree.c

Every function of the source that works on the left of a node has a counterpart on the right in
which `left` and `right`, `-1` and `1` are exchanged; both are one definition here, for a `Side`.
`compare_func` enters by the sign of its result. A `NULL` that the source would follow is `none`,
and the flags `taller` and `shorter`, which every call finds 0, are results. -/
namespace FastDht.AvlTree

universe u

inductive AVLTreeNode (α : Type u) where
  | null
  | node (data : α) (left right : AVLTreeNode α) (balance : Int)
deriving Repr, DecidableEq

def AVLTreeNode.isNull {α : Type u} : AVLTreeNode α → Bool
  | null => true
  | node .. => false

inductive Side where
  | left
  | right
deriving Repr, DecidableEq

/-- The balance of a node that is higher on this side. -/
def Side.sign : Side → Int
  | left => -1
  | right => 1

def Side.other : Side → Side
  | left => right
  | right => left

/-- Of two values, a left and a right one, that of this side. -/
def Side.pick {β : Type u} : Side → β → β → β
  | left, l, _ => l
  | right, _, r => r

variable {α : Type u}

def nodeAt (side : Side) (data : α) (near far : AVLTreeNode α) (balance : Int) : AVLTreeNode α :=
  .node data (side.pick near far) (side.pick far near) balance

/-! ## Rotations -/

/-- Raises the child on `side`. -/
def avlRotate (side : Side) (data : α) (near far : AVLTreeNode α) (balance : Int) :
    Option (AVLTreeNode α) :=
  match near with
  | .null => none
  | .node data' left' right' balance' =>
    some (nodeAt side data' (side.pick left' right')
      (nodeAt side data (side.pick right' left') far balance) balance')

def avlRotateRight : α → AVLTreeNode α → AVLTreeNode α → Int → Option (AVLTreeNode α) :=
  avlRotate .left

def avlRotateLeft : α → AVLTreeNode α → AVLTreeNode α → Int → Option (AVLTreeNode α) :=
  avlRotate .right

/-- The switch on the balance of the grandchild that two rotations raise: the balances of the
node and of its child. -/
def balancesAround (side : Side) (raised balance balance' : Int) : Int × Int :=
  if raised = side.sign then (-side.sign, 0)
  else if raised = 0 then (0, 0)
  else if raised = -side.sign then (0, side.sign)
  else (balance, balance')

/-- One rotation if the child is higher on `side`, else two. -/
def rotations (side : Side) (data : α) (near far : AVLTreeNode α) (balance : Int) :
    Option (AVLTreeNode α) :=
  match near with
  | .null => none
  | .node data' left' right' balance' =>
    if balance' = side.sign then
      side.pick avlRotateRight avlRotateLeft data (.node data' left' right' 0) far 0
    else
      match side.pick right' left' with
      | .null => none
      | .node data'' left'' right'' balance'' =>
        let balances := balancesAround side balance'' balance balance'
        (side.pick avlRotateLeft avlRotateRight data' (.node data'' left'' right'' 0)
          (side.pick left' right') balances.2).bind fun raised =>
            side.pick avlRotateRight avlRotateLeft data raised far balances.1

/-! ## Insertion -/

/-- The child on `side` has become two levels higher than the other one. -/
def avlBalanceWhenInsert (side : Side) (data : α) (near far : AVLTreeNode α) (balance : Int) :
    Option (AVLTreeNode α × Bool) :=
  match near with
  | .null => none
  | .node _ _ _ balance' =>
    if balance' = side.sign ∨ balance' = -side.sign then
      (rotations side data near far balance).map (·, false)
    else some (nodeAt side data near far balance, true)

def avlLeftBalanceWhenInsert :
    α → AVLTreeNode α → AVLTreeNode α → Int → Option (AVLTreeNode α × Bool) :=
  avlBalanceWhenInsert .left

def avlRightBalanceWhenInsert :
    α → AVLTreeNode α → AVLTreeNode α → Int → Option (AVLTreeNode α × Bool) :=
  avlBalanceWhenInsert .right

def afterInsert (side : Side) (data : α) (near far : AVLTreeNode α) (balance : Int)
    (taller : Bool) : Option (AVLTreeNode α × Bool) :=
  if taller = false then some (nodeAt side data near far balance, false)
  else if balance = side.sign then
    side.pick avlLeftBalanceWhenInsert avlRightBalanceWhenInsert data near far balance
  else if balance = 0 then some (nodeAt side data near far side.sign, true)
  else if balance = -side.sign then some (nodeAt side data near far 0, false)
  else some (nodeAt side data near far balance, true)

variable (cmp : α → α → Ordering)

/-- `avl_tree_insert_loop` and `avl_tree_replace_loop`, which differ in what they do with a node
that has the key already. -/
def putLoop (onEqual : α → α) (targetData : α) (mallocOk : Bool) :
    AVLTreeNode α → Option (Int × AVLTreeNode α × Bool)
  | .null =>
    if mallocOk then some (1, .node targetData .null .null 0, true)
    else some (-ENOMEM, .null, false)
  | .node data left right balance =>
    match cmp data targetData with
    | .gt => (putLoop onEqual targetData mallocOk left).bind fun (success, left', taller) =>
      (afterInsert .left data left' right balance taller).map (success, ·)
    | .lt => (putLoop onEqual targetData mallocOk right).bind fun (success, right', taller) =>
      (afterInsert .right data right' left balance taller).map (success, ·)
    | .eq => some (0, .node (onEqual data) left right balance, false)

def avlTreeInsertLoop (targetData : α) (mallocOk : Bool) (pCurrentNode : AVLTreeNode α) :
    Option (Int × AVLTreeNode α × Bool) :=
  putLoop cmp id targetData mallocOk pCurrentNode

def avlTreeReplaceLoop (targetData : α) (mallocOk : Bool) (pCurrentNode : AVLTreeNode α) :
    Option (Int × AVLTreeNode α × Bool) :=
  putLoop cmp (fun _ => targetData) targetData mallocOk pCurrentNode

def avlTreeInsert (root : AVLTreeNode α) (data : α) (mallocOk : Bool) :
    Option (Int × AVLTreeNode α) :=
  (avlTreeInsertLoop cmp data mallocOk root).map fun (success, root', _) => (success, root')

def avlTreeReplace (root : AVLTreeNode α) (data : α) (mallocOk : Bool) :
    Option (Int × AVLTreeNode α) :=
  (avlTreeReplaceLoop cmp data mallocOk root).map fun (success, root', _) => (success, root')

/-! ## Search -/

/-- The guards of the source answer for a child that is `NULL` what this loop answers on it. -/
def avlTreeFindGeLoop (targetData : α) : AVLTreeNode α → Option α
  | .null => none
  | .node data left right _ =>
    match cmp data targetData with
    | .gt => (avlTreeFindGeLoop targetData left).or (some data)
    | .lt => avlTreeFindGeLoop targetData right
    | .eq => some data

def avlTreeFindGe (root : AVLTreeNode α) (targetData : α) : Option α :=
  avlTreeFindGeLoop cmp targetData root

/-! ## Deletion -/

/-- The child on `side` has become two levels higher than the other one. -/
def avlBalanceWhenDelete (side : Side) (data : α) (near far : AVLTreeNode α) (balance : Int) :
    Option (AVLTreeNode α × Bool) :=
  match near with
  | .null => none
  | .node data' left' right' balance' =>
    if balance' = 0 then
      (side.pick avlRotateRight avlRotateLeft data (.node data' left' right' (-side.sign)) far
        balance).map (·, false)
    else if balance' = side.sign ∨ balance' = -side.sign then
      (rotations side data near far balance).map (·, true)
    else some (nodeAt side data near far balance, true)

def avlLeftBalanceWhenDelete :
    α → AVLTreeNode α → AVLTreeNode α → Int → Option (AVLTreeNode α × Bool) :=
  avlBalanceWhenDelete .left

def avlRightBalanceWhenDelete :
    α → AVLTreeNode α → AVLTreeNode α → Int → Option (AVLTreeNode α × Bool) :=
  avlBalanceWhenDelete .right

def afterDelete (side : Side) (data : α) (near far : AVLTreeNode α) (balance : Int)
    (shorter : Bool) : Option (AVLTreeNode α × Bool) :=
  if shorter = false then some (nodeAt side data near far balance, false)
  else if balance = side.sign then some (nodeAt side data near far 0, true)
  else if balance = 0 then some (nodeAt side data near far (-side.sign), false)
  else if balance = -side.sign then
    side.pick avlRightBalanceWhenDelete avlLeftBalanceWhenDelete data far near balance
  else some (nodeAt side data near far balance, true)

/-- `avl_tree_delete_loop` with a `pDeletedDataNode`: takes out the rightmost node, whose data
that node gets. -/
def deleteRightmost : AVLTreeNode α → Option (α × AVLTreeNode α × Bool)
  | .null => none
  | .node data left right balance =>
    if right.isNull then some (data, left, true)
    else (deleteRightmost right).bind fun (moved, right', shorter) =>
      (afterDelete .right data right' left balance shorter).map (moved, ·)

def avlTreeDeleteLoop (targetData : α) : AVLTreeNode α → Option (Int × AVLTreeNode α × Bool)
  | .null => none
  | .node data left right balance =>
    match cmp data targetData with
    | .gt =>
      if left.isNull then some (0, .node data left right balance, false)
      else (avlTreeDeleteLoop targetData left).bind fun (result, left', shorter) =>
        (afterDelete .left data left' right balance shorter).map (result, ·)
    | .lt =>
      if right.isNull then some (0, .node data left right balance, false)
      else (avlTreeDeleteLoop targetData right).bind fun (result, right', shorter) =>
        (afterDelete .right data right' left balance shorter).map (result, ·)
    | .eq =>
      if left.isNull then some (1, right, true)
      else if right.isNull then some (1, left, true)
      else (deleteRightmost left).bind fun (moved, left', shorter) =>
        (afterDelete .left moved left' right balance shorter).map (1, ·)

def avlTreeDelete (root : AVLTreeNode α) (data : α) : Option (Int × AVLTreeNode α) :=
  if root.isNull then some (0, root)
  else (avlTreeDeleteLoop cmp data root).map fun (result, root', _) => (result, root')

/-! ## Sequences of calls -/

inductive TreeCall (α : Type u) where
  | insert (data : α) (mallocOk : Bool)
  | replace (data : α) (mallocOk : Bool)
  | delete (data : α)

def TreeCall.run (root : AVLTreeNode α) : TreeCall α → Option (Int × AVLTreeNode α)
  | insert data mallocOk => avlTreeInsert cmp root data mallocOk
  | replace data mallocOk => avlTreeReplace cmp root data mallocOk
  | delete data => avlTreeDelete cmp root data

def runCalls (root : AVLTreeNode α) : List (TreeCall α) → Option (List Int × AVLTreeNode α)
  | [] => some ([], root)
  | call :: calls => (call.run cmp root).bind fun (result, root') =>
    (runCalls root' calls).map fun (results, last) => (result :: results, last)

end FastDht.AvlTree
