import Kata.Allocator.Range

/-!
# Kata.Allocator.Tree

The nodes of the interval tree (`dbs_allocator/src/interval_tree.rs`): an AVL tree of disjoint
ranges in which every node caches its height and the greatest id below it.

`Option<Node<T>>` of the source is `Tree T`, with `nil` for `None`. A method that consumes `self`
and returns a node is a function on trees here; a mutation returns the new tree next to its result.
What can panic returns `Except Panic`. `entries` is the in-order list of keys and states, in terms
of which the operations are specified.
-/

namespace Kata.Allocator

inductive NodeState (T : Type) where
  | free
  | allocated
  | valued (t : T)
deriving DecidableEq, Repr

namespace NodeState

variable {T : Type}

def isFree : NodeState T → Bool
  | .free => true
  | _ => false

def toOption : NodeState T → Option T
  | .valued t => some t
  | _ => none

def ofOption : Option T → NodeState T
  | some t => .valued t
  | none => .free

@[simp] theorem isFree_iff {st : NodeState T} : st.isFree = true ↔ st = .free := by
  cases st <;> simp [isFree]

end NodeState

inductive Tree (T : Type) where
  | nil
  | node (key : Range) (data : NodeState T) (left right : Tree T) (height maxKey : Nat)
deriving DecidableEq, Repr

namespace Tree

variable {T : Type}

def isNone : Tree T → Bool
  | .nil => true
  | .node _ _ _ _ _ _ => false

def height : Tree T → Nat
  | .nil => 0
  | .node _ _ _ _ h _ => h

def maxKey : Tree T → Nat
  | .nil => 0
  | .node _ _ _ _ _ m => m

def new (key : Range) (data : Option T) : Tree T :=
  .node key (.ofOption data) .nil .nil 1 key.max

/-! ## Lookups -/

def searchSuperset (key : Range) : Tree T → Option (Range × NodeState T)
  | .nil => none
  | .node k d l r _ _ =>
    if k.contain key then some (k, d)
    else if key.max < k.min ∧ l.isNone = false then searchSuperset key l
    else if key.min > k.max ∧ r.isNone = false then searchSuperset key r
    else none

/-! ## Rebalancing -/

def updateCachedInfo : Tree T → Tree T
  | .nil => .nil
  | .node k d l r _ _ =>
    .node k d l r (max l.height r.height + 1) (max l.maxKey (max r.maxKey k.max))

def rotateLeft : Tree T → Except Panic (Tree T)
  | .node k d l (.node rk rd rl rr rh rm) h m =>
    .ok (updateCachedInfo (.node rk rd (updateCachedInfo (.node k d l rl h m)) rr rh rm))
  | _ => .error .nodeBroken

def rotateRight : Tree T → Except Panic (Tree T)
  | .node k d (.node lk ld ll lr lh lm) r h m =>
    .ok (updateCachedInfo (.node lk ld ll (updateCachedInfo (.node k d lr r h m)) lh lm))
  | _ => .error .nodeBroken

def rotateLeftSuccessor : Tree T → Except Panic (Tree T)
  | .node k d (.node lk ld ll lr lh lm) r h m =>
    if ll.height < lr.height then do
      let rotated ← rotateLeft (.node lk ld ll lr lh lm)
      rotateRight (updateCachedInfo (.node k d rotated r h m))
    else rotateRight (.node k d (.node lk ld ll lr lh lm) r h m)
  | _ => .error .nodeBroken

def rotateRightSuccessor : Tree T → Except Panic (Tree T)
  | .node k d l (.node rk rd rl rr rh rm) h m =>
    if rl.height > rr.height then do
      let rotated ← rotateRight (.node rk rd rl rr rh rm)
      rotateLeft (updateCachedInfo (.node k d l rotated h m))
    else rotateLeft (.node k d l (.node rk rd rl rr rh rm) h m)
  | _ => .error .nodeBroken

def rotate : Tree T → Except Panic (Tree T)
  | .nil => .ok .nil
  | .node k d l r h m =>
    let diff : Int := (l.height : Int) - (r.height : Int)
    if diff = 1 ∨ diff = 0 ∨ diff = -1 then .ok (.node k d l r h m)
    else if diff = 2 then rotateLeftSuccessor (.node k d l r h m)
    else if diff = -2 then rotateRightSuccessor (.node k d l r h m)
    else .error .unreachable

def updatedNode (t : Tree T) : Except Panic (Tree T) := rotate (updateCachedInfo t)

/-! ## Mutations -/

-- the `nil` case is the `Node::new` that the source calls where it finds no child (or no root)
def insert (key : Range) (data : Option T) : Tree T → Except Panic (Tree T)
  | .nil => .ok (Tree.new key data)
  | .node k d l r h m =>
    match k.cmp key with
    | .eq => .error (.keyExists key)
    | .lt =>
      if k.intersect key then .error (.keyIntersects key k)
      else do updatedNode (.node k d l (← insert key data r) h m)
    | .gt =>
      if k.intersect key then .error (.keyIntersects key k)
      else do updatedNode (.node k d (← insert key data l) r h m)

def updateRefused : NodeState T → NodeState T → Bool
  | .free, .free | .free, .valued _ => true
  | .allocated, .free | .allocated, .allocated => true
  | .valued _, .free | .valued _, .allocated => true
  | _, _ => false

def update (key : Range) (data : NodeState T) : Tree T → Except Panic (Option T × Tree T)
  | .nil => .ok (none, .nil)
  | .node k d l r h m =>
    match k.cmp key with
    | .eq =>
      if updateRefused d data then .error .updateUnallocated
      else .ok (d.toOption, .node k data l r h m)
    | .lt => do
      let (old, r) ← update key data r
      return (old, .node k d l r h m)
    | .gt => do
      let (old, l) ← update key data l
      return (old, .node k d l r h m)

/-- `Node::get_new_root` of the node with these fields: detach the least node. Both children of the
detached node have been taken and its caches are recomputed by the caller, so it is given by its key
and state. -/
def getNewRoot (key : Range) (data : NodeState T) (right : Tree T) (h m : Nat) :
    (left : Tree T) → Except Panic ((Range × NodeState T) × Tree T)
  | .nil => .ok ((key, data), right)
  | .node lk ld ll lr lh lm => do
    let (minNode, left) ← getNewRoot lk ld lr lh lm ll
    return (minNode, ← updatedNode (.node key data left right h m))

-- on the two children of the deleted node; the last case is `combine_subtrees`
def deleteRoot : Tree T → Tree T → Except Panic (Tree T)
  | .nil, .nil => .ok .nil
  | l, .nil => .ok l
  | .nil, r => .ok r
  | l, .node rk rd rl rr rh rm => do
    let ((k, d), remaining) ← getNewRoot rk rd rr rh rm rl
    updatedNode (.node k d l remaining 0 0)

def delete (key : Range) : Tree T → Except Panic (Option T × Tree T)
  | .nil => .ok (none, .nil)
  | .node k d l r h m =>
    match k.cmp key with
    | .eq => do return (d.toOption, ← deleteRoot l r)
    | .lt =>
      if r.isNone then .ok (none, .node k d l r h m)
      else do
        let (data, r) ← delete key r
        return (data, ← updatedNode (.node k d l r h m))
    | .gt =>
      if l.isNone then .ok (none, .node k d l r h m)
      else do
        let (data, l) ← delete key l
        return (data, ← updatedNode (.node k d l r h m))

/-! ## The view of a tree as a list -/

def entries : Tree T → List (Range × NodeState T)
  | .nil => []
  | .node k d l r _ _ => l.entries ++ (k, d) :: r.entries

/-- The nodes of a tree, each as the subtree below it. -/
def nodes : Tree T → List (Tree T)
  | .nil => []
  | .node k d l r h m => l.nodes ++ .node k d l r h m :: r.nodes

/-- The height that the cache stands for. -/
def depth : Tree T → Nat
  | .nil => 0
  | .node _ _ l r _ _ => max l.depth r.depth + 1

@[simp] theorem isNone_nil : (.nil : Tree T).isNone = true := rfl
@[simp] theorem isNone_node (k : Range) (d : NodeState T) (l r : Tree T) (h m : Nat) :
    (Tree.node k d l r h m).isNone = false := rfl
@[simp] theorem height_nil : (.nil : Tree T).height = 0 := rfl
@[simp] theorem height_node (k : Range) (d : NodeState T) (l r : Tree T) (h m : Nat) :
    (Tree.node k d l r h m).height = h := rfl
@[simp] theorem maxKey_nil : (.nil : Tree T).maxKey = 0 := rfl
@[simp] theorem maxKey_node (k : Range) (d : NodeState T) (l r : Tree T) (h m : Nat) :
    (Tree.node k d l r h m).maxKey = m := rfl
@[simp] theorem entries_nil : (.nil : Tree T).entries = [] := rfl
@[simp] theorem entries_node (k : Range) (d : NodeState T) (l r : Tree T) (h m : Nat) :
    (Tree.node k d l r h m).entries = l.entries ++ (k, d) :: r.entries := rfl

end Tree
end Kata.Allocator
