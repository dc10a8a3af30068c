import Kata.Allocator.Balance

/-!
# Kata.Allocator.IntervalTree

The interface of the interval tree: lookups, `allocate` and `free`
(`dbs_allocator/src/interval_tree.rs`, `impl<T> IntervalTree<T>`).

`Inv` is the representation invariant. `searchSuperset_point` shows that `get_superset` of a single
id finds the entry that contains it.
-/

namespace Kata.Allocator

inductive AllocPolicy where
  | default
  | firstMatch
deriving DecidableEq, Repr

structure Constraint where
  size : U64
  min : U64
  max : U64
  align : U64
  policy : AllocPolicy
deriving DecidableEq, Repr

def Constraint.new (size : U64) : Constraint :=
  { size := size, min := 0, max := Fin.last _, align := 1, policy := .default }

/-- The tree with its root; `None` is the empty tree. -/
abbrev IntervalTree (T : Type) := Tree T

namespace IntervalTree

variable {T : Type}

def new : IntervalTree T := .nil

def getSuperset (t : IntervalTree T) (key : Range) : Option (Range × NodeState T) :=
  t.searchSuperset key

def insert (t : IntervalTree T) (key : Range) (data : Option T) : Except Panic (IntervalTree T) :=
  Tree.insert key data t

def delete (t : IntervalTree T) (key : Range) : Except Panic (Option T × IntervalTree T) :=
  Tree.delete key t

def update (t : IntervalTree T) (key : Range) (data : T) : Except Panic (Option T × IntervalTree T) :=
  Tree.update key (.valued data) t

/-- `self.root.as_mut().unwrap()` -/
def unwrapRoot : IntervalTree T → Except Panic (IntervalTree T)
  | .nil => .error .unwrapNone
  | t => .ok t

section Allocate

-- `checks` is the build setting `overflow-checks`
variable (checks : Bool)

def checkConstraint (c : Constraint) (key : Range) (data : NodeState T) : Except Panic Bool :=
  if data.isFree then
    let min := Max.max key.min c.min
    let max := Min.min key.max c.max
    if min ≤ max then do
      let key ← Range.new min max
      if (c.align : Nat) = 0 ∨ (c.align : Nat) = 1 then
        return decide ((← key.len checks) ≥ c.size)
      else
        match ← key.alignTo c.align with
        | none => return false
        | some alignedKey => return decide ((← alignedKey.len checks) ≥ c.size)
    else .ok false
  else .ok false

def firstMatch (c : Constraint) : Tree T → Except Panic (Option (Range × NodeState T))
  | .nil => .ok none
  | .node k d l r _ _ => do
    match ← firstMatch c l with
    | some e => return some e
    | none =>
      if ← checkConstraint checks c k d then return some (k, d)
      else firstMatch c r

def findCandidate (c : Constraint) (t : Tree T) : Except Panic (Option (Range × NodeState T)) :=
  match c.policy with
  | .firstMatch => firstMatch checks c t
  | .default => firstMatch checks c t

variable (t : IntervalTree T)

def insertBelow (nodeKey alignedKey : Range) : Except Panic (IntervalTree T) :=
  if alignedKey.min > nodeKey.min then do
    Tree.insert (← Range.new nodeKey.min (← subU64 checks alignedKey.min 1)) none t
  else .ok t

def insertAbove (nodeKey result : Range) : Except Panic (IntervalTree T) :=
  if result.max < nodeKey.max then do
    Tree.insert (← Range.new (← addU64 checks result.max 1) nodeKey.max) none t
  else .ok t

/-- The split of the candidate node in `allocate`: the node makes way for the result, with what is
left of it below and above. -/
def splitNode (nodeKey alignedKey result : Range) :
    Except Panic (IntervalTree T) := do
  let (_, t) ← Tree.delete nodeKey t
  let t ← insertBelow checks t nodeKey alignedKey
  let t ← Tree.insert result none t
  let t ← insertAbove checks t nodeKey result
  let (_, t) ← Tree.update result .allocated (← unwrapRoot t)
  return t

-- the condition for taking the candidate node as a whole; `&&` does not compute the length in vain
def exactFit (c : Constraint) (nodeKey alignedKey : Range) : Except Panic Bool :=
  if nodeKey.min = alignedKey.min then do return decide ((← nodeKey.len checks) = c.size)
  else .ok false

/-- The rest of `allocate`, once a candidate node has been found. -/
def allocateFrom (c : Constraint) (nodeKey : Range) :
    Except Panic (Option Range × IntervalTree T) := do
  let range ← Range.new (Max.max nodeKey.min c.min) (Min.min nodeKey.max c.max)
  match ← range.alignTo c.align with
  | none => .error .unwrapNone
  | some alignedKey =>
    let result ← Range.new alignedKey.min
      (← subU64 checks (← addU64 checks alignedKey.min c.size) 1)
    if ← exactFit checks c nodeKey alignedKey then
      let (_, t) ← Tree.update nodeKey .allocated (← unwrapRoot t)
      return (some nodeKey, t)
    else
      return (some result, ← splitNode checks t nodeKey alignedKey result)

def allocate (c : Constraint) : Except Panic (Option Range × IntervalTree T) :=
  if (c.size : Nat) = 0 then .ok (none, t)
  else do
    match ← findCandidate checks c t with
    | none => return (none, t)
    | some (nodeKey, _) => allocateFrom checks t c nodeKey

-- the free neighbour below `key`, found by looking up the id next to it, gives the new lower end
def mergedMin (key : Range) : Except Panic Nat :=
  if key.min > 0 then do
    let p ← subU64 checks key.min 1
    match t.getSuperset (← Range.new p p) with
    | some (r, v) => return if v.isFree then r.min else key.min
    | none => return key.min
  else .ok key.min

def mergedMax (key : Range) : Except Panic Nat :=
  if key.max < u64Max then do
    let p ← addU64 checks key.max 1
    match t.getSuperset (← Range.new p p) with
    | some (r, v) => return if v.isFree then r.max else key.max
    | none => return key.max
  else .ok key.max

def deleteBelow (range key : Range) : Except Panic (IntervalTree T) :=
  if range.min < key.min then do
    return (← Tree.delete (← Range.new range.min (← subU64 checks key.min 1)) t).2
  else .ok t

def deleteAbove (range key : Range) : Except Panic (IntervalTree T) :=
  if range.max > key.max then do
    return (← Tree.delete (← Range.new (← addU64 checks key.max 1) range.max) t).2
  else .ok t

/-- The two ends of the merged range are assigned directly, without `Range::new`. -/
def free (key : Range) : Except Panic (Option T × IntervalTree T) := do
  let (result, t) ← Tree.delete key t
  let range : Range := ⟨← mergedMin checks t key, ← mergedMax checks t key⟩
  let t ← deleteBelow checks t range key
  let t ← deleteAbove checks t range key
  let t ← Tree.insert range none t
  return (result, t)

end Allocate

/-! ## The representation invariant -/

structure Inv (t : IntervalTree T) : Prop where
  avl : t.Avl
  ordered : Ordered t.entries

theorem inv_new : Inv (new : IntervalTree T) := ⟨trivial, by simp [new, Ordered]⟩

end IntervalTree

/-! ## Lookups -/

section Lookup

variable {T : Type} {es pre post : List (Range × NodeState T)} {e e' : Range × NodeState T}

theorem Range.has_newPoint {r : Range} {id : Nat} : r.contain (newPoint id) = true ↔ r.Has id := by
  rw [contain_iff]; rfl

/-- Two entries of an ordered list that share an id are the same entry. -/
theorem Ordered.eq_of_has (h : Ordered es) (he : e ∈ es) (he' : e' ∈ es) {id : Nat}
    (hid : e.1.Has id) (hid' : e'.1.Has id) : e = e' := by
  obtain ⟨pre, post, rfl⟩ := List.append_of_mem he
  have h1 := hid.1; have h2 := hid.2; have h3 := hid'.1; have h4 := hid'.2
  simp only [List.mem_append, List.mem_cons] at he'
  rcases he' with hm | rfl | hm
  · have hb : e'.1.max < e.1.min := h.before_of_mem_left hm
    omega
  · rfl
  · have hb : e.1.max < e'.1.min := h.before_of_mem_right hm
    omega

theorem Tree.searchSuperset_none {key : Range} {t : Tree T} (h : ¬ t.isNone = false) :
    t.searchSuperset key = none := by
  cases t with
  | nil => rfl
  | node => simp at h

/-- The descent of `search_superset`: a side without a child and no side at all both give `none`. -/
theorem Tree.searchSuperset_node {key k : Range} (hkey : key.min ≤ key.max) (hk : k.min ≤ k.max)
    {d : NodeState T} {l r : Tree T} {h m : Nat} :
    (Tree.node k d l r h m).searchSuperset key =
      if k.contain key then some (k, d)
      else if key.max < k.min then l.searchSuperset key
      else if key.min > k.max then r.searchSuperset key
      else none := by
  simp only [searchSuperset]
  split
  · rfl
  · by_cases hl : key.max < k.min
    · have hr : ¬ key.min > k.max := by omega
      by_cases hn : l.isNone = false
      · simp [hl, hn]
      · simp [hl, hn, hr, searchSuperset_none hn]
    · by_cases hr : key.min > k.max
      · by_cases hn : r.isNone = false
        · simp [hl, hr, hn]
        · simp [hl, hn, hr, searchSuperset_none hn]
      · simp [hl, hr]

theorem Tree.searchSuperset_point {id : Nat} : ∀ {t : Tree T}, Ordered t.entries →
    (t.searchSuperset (Range.newPoint id) = some e ↔ e ∈ t.entries ∧ e.1.Has id) := by
  intro t
  induction t with
  | nil => intro _; simp [searchSuperset]
  | node k d l r h m ihl ihr =>
    intro ho
    have ihl := ihl (ho.sublist (by simp))
    have ihr := ihr (ho.sublist (by simp))
    have hmem : (k, d) ∈ (Tree.node k d l r h m).entries := by simp
    have hw : k.min ≤ k.max := (ho.1 _ hmem).min_le_max
    rw [searchSuperset_node (Nat.le_refl id) hw]
    split
    · rename_i hcon
      rw [Range.has_newPoint] at hcon
      constructor
      · intro he; cases he; exact ⟨hmem, hcon⟩
      · rintro ⟨he, hid⟩; rw [ho.eq_of_has he hmem hid hcon]
    · rename_i hcon
      rw [Range.has_newPoint] at hcon
      have hk : ∀ e', e' = (k, d) → ¬ e'.1.Has id := by rintro _ rfl; exact hcon
      split
      · rename_i hlt
        have hlt : id < k.min := hlt
        rw [ihl]
        constructor
        · rintro ⟨he, hid⟩; exact ⟨by simp [he], hid⟩
        · rintro ⟨he, hid⟩
          simp only [entries_node, List.mem_append, List.mem_cons] at he
          rcases he with he | he | he
          · exact ⟨he, hid⟩
          · exact absurd hid (hk e he)
          · have hb : k.max < e.1.min := ho.before_of_mem_right (b := e) he
            have := hid.1
            omega
      · rename_i hge
        have hge : ¬ id < k.min := hge
        have hgt : (Range.newPoint id).min > k.max := by
          simp only [Range.Has] at hcon
          simp only [Range.newPoint]
          omega
        rw [if_pos hgt, ihr]
        constructor
        · rintro ⟨he, hid⟩; exact ⟨by simp [he], hid⟩
        · rintro ⟨he, hid⟩
          simp only [entries_node, List.mem_append, List.mem_cons] at he
          rcases he with he | he | he
          · have hb : e.1.max < k.min := ho.before_of_mem_left (a := e) he
            have := hid.2
            omega
          · exact absurd hid (hk e he)
          · exact ⟨he, hid⟩

end Lookup

end Kata.Allocator
