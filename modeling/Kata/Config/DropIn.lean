import Mathlib.Data.List.Infix
import Mathlib.Tactic.Common

/-!
# Kata.Config.DropIn

How drop-in configuration files are merged into the base file (`kata-types/src/config/drop_in.rs`,
`toml_tree_ops`).

`merged_value_iff`: for each path the last file decides that says anything about it, by an entry
there or by a value in the place of a table above it.
-/

namespace Kata.Config

variable {α : Type}

/- `toml::Value`, where `α` are the values that are no tables, and `toml::value::Table` as its entries. -/
mutual

inductive Value (α : Type) where
  | leaf (v : α)
  | table (t : Table α)

inductive Table (α : Type) where
  | empty
  | entry (key : String) (val : Value α) (rest : Table α)

end

namespace Table

def get (key : String) : Table α → Option (Value α)
  | empty => none
  | entry k val rest => if k = key then some val else rest.get key

/-- Put `val` in the place of the entry for `key`, or add an entry. -/
def put (key : String) (val : Value α) : Table α → Table α
  | empty => entry key val empty
  | entry k old rest => if k = key then entry k val rest else entry k old (rest.put key val)

end Table

mutual

def merge (base : Value α) : Value α → Value α
  | .table dropinTable =>
    match base with
    | .table baseTable => .table (mergeTables baseTable dropinTable)
    | .leaf _ => .table dropinTable
  | .leaf v => .leaf v

def mergeTables (baseTable : Table α) : Table α → Table α
  | .empty => baseTable
  | .entry key val rest =>
    match baseTable.get key with
    | some baseVal => mergeTables (baseTable.put key (merge baseVal val)) rest
    | none => mergeTables (baseTable.put key val) rest

end

mutual

/-- A table has one entry for each of its keys. -/
def Value.Wf : Value α → Prop
  | .leaf _ => True
  | .table t => t.Wf

def Table.Wf : Table α → Prop
  | .empty => True
  | .entry key val rest => rest.get key = none ∧ val.Wf ∧ rest.Wf

end

/-- What parsing a file gives. -/
abbrev Tree (α : Type) := { v : Value α // v.Wf }

/-- The entry at a path. -/
def Value.entryAt : Value α → List String → Option (Value α)
  | v, [] => some v
  | .leaf _, _ :: _ => none
  | .table t, key :: path => (t.get key).bind (·.entryAt path)

/-- There is an entry at the path, or a value that is no table above it. -/
def Value.Speaks (v : Value α) (path : List String) : Prop :=
  (∃ w, v.entryAt path = some w) ∨ ∃ above w, above <+: path ∧ above ≠ path ∧ v.entryAt above = some (.leaf w)

/-! ## Tables -/

section Tables

variable {key k : String} {val : Value α}

theorem Table.get_put_self : ∀ t : Table α, (t.put key val).get key = some val
  | .empty => if_pos rfl
  | .entry k old rest => by
    by_cases h : k = key
    · rw [put, if_pos h, get, if_pos h]
    · rw [put, if_neg h, get, if_neg h]
      exact get_put_self rest

theorem Table.get_put_of_ne (hk : key ≠ k) : ∀ t : Table α, (t.put key val).get k = t.get k
  | .empty => if_neg hk
  | .entry k' old rest => by
    by_cases h : k' = key
    · subst h
      rw [put, if_pos rfl, get, if_neg hk, get, if_neg hk]
    · rw [put, if_neg h, get, get, get_put_of_ne hk rest]

/-- What a table has for a key after the entry of a drop-in for it, if there is one. -/
def mergeEntry (base : Option (Value α)) : Option (Value α) → Option (Value α)
  | none => base
  | some val => some (base.elim val (merge · val))

theorem get_mergeTables (base : Table α) : ∀ dropin : Table α, dropin.Wf →
    (mergeTables base dropin).get k = mergeEntry (base.get k) (dropin.get k)
  | .empty, _ => rfl
  | .entry key val rest, ⟨hfresh, _, hrest⟩ => by
    have hstep : mergeTables base (.entry key val rest) =
        mergeTables (base.put key ((base.get key).elim val (merge · val))) rest := by
      rw [mergeTables]
      cases base.get key with
      | none | some baseVal => rfl
    rw [hstep, get_mergeTables _ rest hrest, Table.get]
    by_cases hk : key = k
    · subst hk
      rw [hfresh, if_pos rfl, Table.get_put_self]
      rfl
    · rw [if_neg hk, Table.get_put_of_ne hk]

theorem Table.Wf.get : ∀ {t : Table α}, t.Wf → t.get k = some val → val.Wf
  | .entry key v rest, ⟨_, hv, hrest⟩, h => by
    rw [Table.get] at h
    split at h
    · cases h
      exact hv
    · exact hrest.get h

end Tables

/-! ## Paths -/

section Paths

variable {t : Table α} {v base dropin : Value α} {key : String} {path : List String} {w : α}

theorem speaks_table : (Value.table t).Speaks (key :: path) ↔ ∃ v, t.get key = some v ∧ v.Speaks path := by
  constructor
  · rintro (⟨w, hw⟩ | ⟨above, w, hle, hne, hw⟩)
    · obtain ⟨v, hv, hw⟩ := Option.bind_eq_some_iff.mp hw
      exact ⟨v, hv, .inl ⟨w, hw⟩⟩
    · cases above with
      | nil => cases hw
      | cons k above =>
        obtain ⟨rfl, hbelow⟩ := List.cons_prefix_cons.mp hle
        obtain ⟨v, hv, hw⟩ := Option.bind_eq_some_iff.mp hw
        exact ⟨v, hv, .inr ⟨above, w, hbelow, fun h => hne (congrArg (k :: ·) h), hw⟩⟩
  · rintro ⟨v, hv, ⟨w, hw⟩ | ⟨above, w, hle, hne, hw⟩⟩
    · exact .inl ⟨w, Option.bind_eq_some_iff.mpr ⟨v, hv, hw⟩⟩
    · exact .inr ⟨key :: above, w, List.cons_prefix_cons.mpr ⟨rfl, hle⟩, fun h => hne (List.cons.inj h).2,
        Option.bind_eq_some_iff.mpr ⟨v, hv, hw⟩⟩

/-- One drop-in: it decides if it speaks about the path. -/
theorem merge_value_iff (path : List String) : ∀ {base dropin : Value α}, dropin.Wf →
    ((merge base dropin).entryAt path = some (.leaf w) ↔
      dropin.entryAt path = some (.leaf w) ∨ ¬ dropin.Speaks path ∧ base.entryAt path = some (.leaf w)) := by
  induction path with
  | nil =>
    intro base dropin _
    have hspeaks : dropin.Speaks [] := .inl ⟨dropin, rfl⟩
    rw [or_iff_left fun h => h.1 hspeaks]
    cases dropin with
    | leaf v => rfl
    | table t =>
      cases base with
      | leaf v => rfl
      | table b => exact ⟨nofun, nofun⟩
  | cons key path ih =>
    intro base dropin hwf
    cases dropin with
    | leaf v => rw [or_iff_left fun h => h.1 (.inr ⟨[], v, ⟨_, rfl⟩, nofun, rfl⟩)]; rfl
    | table t =>
      cases base with
      | leaf v => exact (or_iff_left fun h => nomatch h.2).symm
      | table b =>
        show ((mergeTables b t).get key).bind _ = _ ↔ (t.get key).bind _ = _ ∨ _ ∧ (b.get key).bind _ = _
        rw [get_mergeTables b t hwf, speaks_table]
        cases hget : t.get key with
        | none => simp [mergeEntry]
        | some v =>
          cases b.get key with
          | none => simp [mergeEntry]
          | some u => simpa [mergeEntry] using ih (Table.Wf.get hwf hget)

/-- The order of two drop-ins matters only where both speak. -/
theorem merge_order (d e : Tree α) : d.1.Speaks path ∧ e.1.Speaks path ∨
    ((merge (merge base d.1) e.1).entryAt path = some (.leaf w) ↔
      (merge (merge base e.1) d.1).entryAt path = some (.leaf w)) := by
  have hspeaks (t : Tree α) (h : t.1.entryAt path = some (.leaf w)) : t.1.Speaks path := .inl ⟨_, h⟩
  have hd := hspeaks d
  have he := hspeaks e
  simp only [merge_value_iff path d.2, merge_value_iff path e.2]
  tauto

/-- The last of the trees that speaks about the path has the value `w` there. -/
def Decides (trees : List (Tree α)) (path : List String) (w : α) : Prop :=
  ∃ pre tree post, trees = pre ++ tree :: post ∧ tree.1.Speaks path ∧ (∀ t ∈ post, ¬ t.1.Speaks path) ∧
    tree.1.entryAt path = some (.leaf w)

theorem decides_cons {tree : Tree α} {trees : List (Tree α)} : Decides (tree :: trees) path w ↔
    Decides trees path w ∨ (∀ t ∈ trees, ¬ t.1.Speaks path) ∧ tree.1.entryAt path = some (.leaf w) := by
  constructor
  · rintro ⟨pre, tree', post, heq, hspeaks, hpost, hvalue⟩
    cases pre with
    | nil =>
      cases heq
      exact .inr ⟨hpost, hvalue⟩
    | cons x pre =>
      cases heq
      exact .inl ⟨pre, tree', post, rfl, hspeaks, hpost, hvalue⟩
  · rintro (⟨pre, tree', post, rfl, hrest⟩ | ⟨hsilent, hvalue⟩)
    · exact ⟨tree :: pre, tree', post, rfl, hrest⟩
    · exact ⟨[], tree, trees, rfl, .inl ⟨_, hvalue⟩, hsilent, hvalue⟩

theorem foldl_value_iff (dropins : List (Tree α)) (base : Value α) :
    (dropins.foldl (fun v dropin => merge v dropin.1) base).entryAt path = some (.leaf w) ↔
      Decides dropins path w ∨ (∀ t ∈ dropins, ¬ t.1.Speaks path) ∧ base.entryAt path = some (.leaf w) := by
  induction dropins generalizing base with
  | nil =>
    have hnone : ¬ Decides ([] : List (Tree α)) path w := by
      rintro ⟨pre, tree, post, heq, -⟩
      exact absurd heq (by simp)
    simp [hnone]
  | cons dropin dropins ih =>
    rw [List.foldl_cons, ih, merge_value_iff path dropin.2, decides_cons, List.forall_mem_cons]
    tauto

theorem merged_value_iff (base : Tree α) (dropins : List (Tree α)) (path : List String) (w : α) :
    (dropins.foldl (fun v dropin => merge v dropin.1) base.1).entryAt path = some (.leaf w) ↔
      Decides (base :: dropins) path w := by
  rw [foldl_value_iff, decides_cons]

end Paths

end Kata.Config
