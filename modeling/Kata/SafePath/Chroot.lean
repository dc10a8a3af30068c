import Mathlib.Data.List.Basic
import Kata.SafePath.ScopedResolve

/-!
# Kata.SafePath.Chroot

What a path means inside a root directory, and that `scoped_resolve` computes it.

`Resolves` is the meaning as the documentation of `scoped_resolve` has it: component by component,
with the target of a symlink resolved before the rest of the path, from the root or from the
directory of the symlink. `Meets` says what is looked up on the way and after how many symlinks,
also where the path has no meaning because they never end. The code has no recursion: at a symlink
it builds a new path from what is resolved already, the target and the rest, and starts again from
the root. `resolveLoop_outcome` connects the two.

The code takes every error of `read_link` for an answer that there is no symlink.
`scopedResolve_correct_iff` says that it computes the meaning of all paths if and only if
`read_link` fails at no symlink that one of them meets.
-/

namespace Kata.SafePath

variable {Name : Type}

/-- Where the target of a symlink starts. -/
def startOf (cur : List Name) (target : Path Name) : List Name := if target.isAbsolute then [] else cur

section Meaning

-- the symlinks, by their path from the root
variable (link : List Name → Option (Path Name))

/-- From the directory `cur`, the components lead to a path, through a number of symlinks. -/
inductive Resolves : List Name → List (Component Name) → Nat → List Name → Prop where
  | nil {cur : List Name} : Resolves cur [] 0 cur
  | curDir {cur path : List Name} {rest : List (Component Name)} {k : Nat} (h : Resolves cur rest k path) :
      Resolves cur (.curDir :: rest) k path
  | parentDir {cur path : List Name} {rest : List (Component Name)} {k : Nat}
      (h : Resolves cur.dropLast rest k path) : Resolves cur (.parentDir :: rest) k path
  | plain {cur path : List Name} {n : Name} {rest : List (Component Name)} {k : Nat}
      (hlink : link (cur ++ [n]) = none) (h : Resolves (cur ++ [n]) rest k path) :
      Resolves cur (.normal n :: rest) k path
  | symlink {cur mid path : List Name} {n : Name} {target : Path Name} {rest : List (Component Name)} {i j : Nat}
      (hlink : link (cur ++ [n]) = some target) (htarget : Resolves (startOf cur target) target.components i mid)
      (hrest : Resolves mid rest j path) : Resolves cur (.normal n :: rest) (i + j + 1) path

/-- From the directory `cur`, after a number of symlinks, the components look up a path. -/
inductive Meets : List Name → List (Component Name) → Nat → List Name → Prop where
  | here {cur : List Name} {n : Name} {rest : List (Component Name)} : Meets cur (.normal n :: rest) 0 (cur ++ [n])
  | curDir {cur p : List Name} {rest : List (Component Name)} {k : Nat} (h : Meets cur rest k p) :
      Meets cur (.curDir :: rest) k p
  | parentDir {cur p : List Name} {rest : List (Component Name)} {k : Nat} (h : Meets cur.dropLast rest k p) :
      Meets cur (.parentDir :: rest) k p
  | plain {cur p : List Name} {n : Name} {rest : List (Component Name)} {k : Nat}
      (hlink : link (cur ++ [n]) = none) (h : Meets (cur ++ [n]) rest k p) : Meets cur (.normal n :: rest) k p
  | symlink {cur p : List Name} {n : Name} {target : Path Name} {rest : List (Component Name)} {k : Nat}
      (hlink : link (cur ++ [n]) = some target) (h : Meets (startOf cur target) (target.components ++ rest) k p) :
      Meets cur (.normal n :: rest) (k + 1) p

end Meaning

variable {link : List Name → Option (Path Name)} {cur path p : List Name}
  {comps a b : List (Component Name)} {k m : Nat}

/-- A path can be resolved in two parts. -/
theorem Resolves.split (h : Resolves link cur (a ++ b) k path) :
    ∃ i j mid, Resolves link cur a i mid ∧ Resolves link mid b j path ∧ k = i + j := by
  induction a generalizing cur k with
  | nil => exact ⟨0, k, cur, .nil, h, (Nat.zero_add k).symm⟩
  | cons c a ih =>
    cases h with
    | curDir h =>
      obtain ⟨i, j, mid, ha, hb, hk⟩ := ih h
      exact ⟨i, j, mid, .curDir ha, hb, hk⟩
    | parentDir h =>
      obtain ⟨i, j, mid, ha, hb, hk⟩ := ih h
      exact ⟨i, j, mid, .parentDir ha, hb, hk⟩
    | plain hlink h =>
      obtain ⟨i, j, mid, ha, hb, hk⟩ := ih h
      exact ⟨i, j, mid, .plain hlink ha, hb, hk⟩
    | symlink hlink htarget hrest =>
      obtain ⟨i, j, mid, ha, hb, rfl⟩ := ih hrest
      exact ⟨_, j, mid, .symlink hlink htarget ha, hb, by omega⟩

/-- Where the components before the others have a meaning, a symlink is met in them or in the
others. -/
theorem Resolves.meets_append (h : Resolves link cur a k path) (hp : (link p).isSome) :
    Meets link cur (a ++ b) m p → m < k ∨ ∃ m', m = k + m' ∧ Meets link path b m' p := by
  induction h generalizing b m with
  | nil =>
    intro hm
    exact .inr ⟨m, (Nat.zero_add m).symm, hm⟩
  | curDir h ih =>
    intro hm
    cases hm with
    | curDir hm => exact ih hm
  | parentDir h ih =>
    intro hm
    cases hm with
    | parentDir hm => exact ih hm
  | plain hlink h ih =>
    intro hm
    cases hm with
    | here =>
      rw [hlink] at hp
      cases hp
    | plain _ hm => exact ih hm
    | symlink hlink' hm =>
      rw [hlink] at hlink'
      cases hlink'
  | symlink hlink htarget hrest ih1 ih2 =>
    intro hm
    cases hm with
    | here => exact .inl (Nat.zero_lt_succ _)
    | plain hlink' hm =>
      rw [hlink] at hlink'
      cases hlink'
    | symlink hlink' hm =>
      rw [hlink] at hlink'
      cases hlink'
      rcases ih1 hm with hlt | ⟨m1, rfl, hm1⟩
      · exact .inl (by omega)
      · rcases ih2 hm1 with hlt | ⟨m2, rfl, hm2⟩
        · exact .inl (by omega)
        · exact .inr ⟨m2, by omega, hm2⟩

theorem Resolves.meets_lt (h : Resolves link cur comps k path) (hm : Meets link cur comps m p)
    (hp : (link p).isSome) : m < k := by
  rw [← List.append_nil comps] at hm
  rcases h.meets_append hp hm with hlt | ⟨m', -, hend⟩
  · exact hlt
  · cases hend

theorem Resolves.unique {path' : List Name} {k' : Nat} (h : Resolves link cur comps k path)
    (h' : Resolves link cur comps k' path') : path' = path := by
  induction h generalizing k' path' with
  | nil =>
    cases h'
    rfl
  | curDir h ih =>
    cases h' with
    | curDir h' => exact ih h'
  | parentDir h ih =>
    cases h' with
    | parentDir h' => exact ih h'
  | plain hlink h ih =>
    cases h' with
    | plain _ h' => exact ih h'
    | symlink hlink' _ _ =>
      rw [hlink] at hlink'
      cases hlink'
  | symlink hlink htarget hrest ih1 ih2 =>
    cases h' with
    | plain hlink' _ =>
      rw [hlink] at hlink'
      cases hlink'
    | symlink hlink' htarget' hrest' =>
      rw [hlink] at hlink'
      cases hlink'
      have hmid := ih1 htarget'
      subst hmid
      exact ih2 hrest'

/-! ## Paths without symlinks -/

/-- Neither the path nor a part of it from the beginning is a symlink. -/
def Clear (link : List Name → Option (Path Name)) (path : List Name) : Prop := ∀ k, link (path.take k) = none

theorem Clear.last (h : Clear link path) : link path = none := by
  have hall := h path.length
  rwa [List.take_length] at hall

theorem Clear.left {p q : List Name} (h : Clear link (p ++ q)) : Clear link p := by
  intro k
  by_cases hk : k ≤ p.length
  · have htake : (p ++ q).take k = p.take k := List.take_append_of_le_length hk
    rw [← htake]
    exact h k
  · have htake : (p ++ q).take p.length = p := List.take_left
    rw [List.take_of_length_le (by omega), ← htake]
    exact h p.length

theorem Clear.snoc {n : Name} (h : Clear link path) (hn : link (path ++ [n]) = none) : Clear link (path ++ [n]) := by
  intro k
  by_cases hk : k ≤ path.length
  · rw [List.take_append_of_le_length hk]
    exact h k
  · rw [List.take_of_length_le (by rw [List.length_append, List.length_singleton]; omega)]
    exact hn

theorem Clear.head {n : Name} {names : List Name} (h : Clear link (cur ++ n :: names)) :
    link (cur ++ [n]) = none := by
  rw [List.append_cons] at h
  exact h.left.last

/-- Components that are no symlinks are walked through. -/
theorem Resolves.of_names {names : List Name} (hclear : Clear link (cur ++ names))
    (h : Resolves link cur (names.map .normal ++ comps) k path) : Resolves link (cur ++ names) comps k path := by
  induction names generalizing cur with
  | nil =>
    rw [List.append_nil]
    exact h
  | cons n names ih =>
    have hnone := hclear.head
    rw [List.append_cons] at hclear ⊢
    cases h with
    | plain _ h => exact ih hclear h
    | symlink hlink _ _ =>
      rw [hnone] at hlink
      cases hlink

theorem Meets.of_names {names : List Name} (hclear : Clear link (cur ++ names)) (hp : (link p).isSome)
    (h : Meets link cur (names.map .normal ++ comps) k p) : Meets link (cur ++ names) comps k p := by
  induction names generalizing cur with
  | nil =>
    rw [List.append_nil]
    exact h
  | cons n names ih =>
    have hnone := hclear.head
    rw [List.append_cons] at hclear ⊢
    cases h with
    | here =>
      rw [hnone] at hp
      cases hp
    | plain _ h => exact ih hclear h
    | symlink hlink _ =>
      rw [hnone] at hlink
      cases hlink

/-! ## The loops -/

namespace FileSystem

variable [DecidableEq Name] {fs : FileSystem Name} {root : List Name}

/-- The symlinks below a root. -/
def linkBelow (fs : FileSystem Name) (root sub : List Name) : Option (Path Name) := fs.tree.linkAt (root ++ sub)

theorem readLink_of_plain {n : Name} (h : fs.tree.Plain path) (hr : fs.unreadable (path ++ [n]) = false) :
    fs.readLink (path ++ [n]) = fs.tree.linkAt (path ++ [n]) := by
  unfold readLink
  rw [hr, if_neg Bool.false_ne_true, if_neg]
  intro hany
  obtain ⟨k, hk, hsome⟩ := List.any_eq_true.mp hany
  rw [List.mem_range, List.length_append, List.length_singleton] at hk
  rw [List.take_append_of_le_length (by omega), h k] at hsome
  cases hsome

theorem readLink_of_unreadable (h : fs.unreadable path = true) : fs.readLink path = none := if_pos h

/-- An error changes nothing where there is no symlink. -/
theorem readLink_eq_none {n : Name} (h : fs.tree.Plain path) (hnone : fs.tree.linkAt (path ++ [n]) = none) :
    fs.readLink (path ++ [n]) = none := by
  cases hr : fs.unreadable (path ++ [n]) with
  | true => exact readLink_of_unreadable hr
  | false => rw [readLink_of_plain h hr, hnone]

theorem plain_dropLast (h : fs.tree.Plain (root ++ cur)) : fs.tree.Plain (root ++ cur.dropLast) := by
  obtain ⟨t, ht⟩ := List.dropLast_prefix cur
  rw [← ht, ← List.append_assoc] at h
  exact Clear.left h

theorem plain_snoc {n : Name} (h : fs.tree.Plain (root ++ cur)) (hn : fs.linkBelow root (cur ++ [n]) = none) :
    fs.tree.Plain (root ++ (cur ++ [n])) := by
  rw [linkBelow, ← List.append_assoc] at hn
  rw [← List.append_assoc]
  exact Clear.snoc h hn

/-- No symlink is taken for something else, among those that are met before the first one is
followed. -/
def Seen (fs : FileSystem Name) (root cur : List Name) (comps : List (Component Name)) : Prop :=
  ∀ p, Meets (fs.linkBelow root) cur comps 0 p → (fs.linkBelow root p).isSome → fs.unreadable (root ++ p) = false

/-- What the loop over the components has done. -/
def Walked (fs : FileSystem Name) (root cur : List Name) (comps : List (Component Name)) : Walk Name → Prop
  | .done sub => fs.tree.Plain (root ++ sub) ∧ Resolves (fs.linkBelow root) cur comps 0 sub
  | .link sub target rest => fs.tree.Plain (root ++ sub) ∧
      (∃ p, Meets (fs.linkBelow root) cur comps 0 p ∧ (fs.linkBelow root p).isSome) ∧
      (∀ k path, Resolves (fs.linkBelow root) (startOf sub target) (target.components ++ rest) k path →
        Resolves (fs.linkBelow root) cur comps (k + 1) path) ∧
      ∀ k p, Meets (fs.linkBelow root) (startOf sub target) (target.components ++ rest) k p →
        Meets (fs.linkBelow root) cur comps (k + 1) p

/-- A step before the others. -/
theorem Walked.cons {cur' : List Name} {w : Walk Name} (h : Walked fs root cur' a w)
    (hr : ∀ k path, Resolves (fs.linkBelow root) cur' a k path → Resolves (fs.linkBelow root) cur b k path)
    (hm : ∀ k p, Meets (fs.linkBelow root) cur' a k p → Meets (fs.linkBelow root) cur b k p) :
    Walked fs root cur b w := by
  cases w with
  | done sub => exact ⟨h.1, hr 0 sub h.2⟩
  | link sub target rest =>
    obtain ⟨hplain, ⟨p, hp, hlink⟩, hres, hmeets⟩ := h
    exact ⟨hplain, ⟨p, hm 0 p hp, hlink⟩, fun k path h => hr (k + 1) path (hres k path h),
      fun k p h => hm (k + 1) p (hmeets k p h)⟩

theorem walk_walked (hplain : fs.tree.Plain (root ++ cur)) (hseen : fs.Seen root cur comps) :
    Walked fs root cur comps (fs.walk root cur comps) := by
  induction comps generalizing cur with
  | nil => exact ⟨hplain, .nil⟩
  | cons c rest ih =>
    unfold walk
    cases c with
    | curDir =>
      exact (ih hplain fun p h => hseen p (.curDir h)).cons (fun _ _ h => .curDir h) (fun _ _ h => .curDir h)
    | parentDir =>
      exact (ih (plain_dropLast hplain) fun p h => hseen p (.parentDir h)).cons (fun _ _ h => .parentDir h)
        (fun _ _ h => .parentDir h)
    | normal n =>
      cases hlink : fs.linkBelow root (cur ++ [n]) with
      | some target =>
        have hsome : (fs.linkBelow root (cur ++ [n])).isSome := by
          rw [hlink]
          rfl
        have hread : fs.readLink (root ++ cur ++ [n]) = some target := by
          have hreadable := hseen _ .here hsome
          rw [← List.append_assoc] at hreadable
          rw [readLink_of_plain hplain hreadable, List.append_assoc]
          exact hlink
        simp only [hread]
        refine ⟨hplain, ⟨_, .here, hsome⟩, ?_, fun k p h => .symlink hlink h⟩
        intro k path h
        obtain ⟨i, j, mid, htarget, hrest, rfl⟩ := h.split
        exact .symlink hlink htarget hrest
      | none =>
        have hread : fs.readLink (root ++ cur ++ [n]) = none := by
          refine readLink_eq_none hplain ?_
          rw [List.append_assoc]
          exact hlink
        simp only [hread]
        exact (ih (plain_snoc hplain hlink) fun p h => hseen p (.plain hlink h)).cons (fun _ _ h => .plain hlink h)
          (fun _ _ h => .plain hlink h)

theorem walk_names {names : List Name} (hplain : fs.tree.Plain (root ++ cur ++ names)) :
    fs.walk root cur (names.map .normal ++ comps) = fs.walk root (cur ++ names) comps := by
  induction names generalizing cur with
  | nil =>
    rw [List.append_nil]
    rfl
  | cons n names ih =>
    have hcur : fs.tree.Plain (root ++ cur) := Clear.left hplain
    have hnone : fs.tree.linkAt (root ++ cur ++ [n]) = none := Clear.head hplain
    rw [List.append_cons, List.append_assoc root] at hplain
    rw [List.map_cons, List.cons_append, walk, readLink_eq_none hcur hnone, List.append_cons cur n names]
    exact ih hplain

theorem clear_below (hplain : fs.tree.Plain (root ++ path)) : Clear (fs.linkBelow root) path := by
  intro k
  have h := hplain (root.length + k)
  rwa [List.take_length_add_append] at h

section Restart

variable {sub : List Name} {target : Path Name} {rest : List (Component Name)}

omit [DecidableEq Name] in
theorem restartAt_absolute (h : target.isAbsolute = true) :
    (restartAt sub target rest).components = target.components ++ rest := by
  rw [restartAt, if_pos h]
  rfl

omit [DecidableEq Name] in
theorem restartAt_relative (h : ¬ target.isAbsolute = true) :
    (restartAt sub target rest).components = sub.map .normal ++ (target.components ++ rest) := by
  rw [restartAt, if_neg h, ← List.append_assoc]
  simp only [Path.join, if_neg h, Path.relative]
  rfl

/-- The new path means from the root what the target and the rest mean where the symlink is. -/
theorem resolves_restart (hplain : fs.tree.Plain (root ++ sub))
    (h : Resolves (fs.linkBelow root) [] (restartAt sub target rest).components k path) :
    Resolves (fs.linkBelow root) (startOf sub target) (target.components ++ rest) k path := by
  unfold startOf
  split
  · rename_i habs
    rwa [restartAt_absolute habs] at h
  · rename_i hrel
    rw [restartAt_relative hrel] at h
    exact h.of_names (clear_below hplain)

theorem meets_restart (hplain : fs.tree.Plain (root ++ sub)) (hp : (fs.linkBelow root p).isSome)
    (h : Meets (fs.linkBelow root) [] (restartAt sub target rest).components k p) :
    Meets (fs.linkBelow root) (startOf sub target) (target.components ++ rest) k p := by
  unfold startOf
  split
  · rename_i habs
    rwa [restartAt_absolute habs] at h
  · rename_i hrel
    rw [restartAt_relative hrel] at h
    exact h.of_names (clear_below hplain) hp

end Restart

/-- The symlinks that are met after at most `n` others can be read. -/
def ReadableFor (fs : FileSystem Name) (root : List Name) (path : Path Name) (n : Nat) : Prop :=
  ∀ k ≤ n, ∀ p, Meets (fs.linkBelow root) [] path.components k p → (fs.linkBelow root p).isSome →
    fs.unreadable (root ++ p) = false

/-- The two ways in which the outer loop ends. -/
theorem resolveLoop_outcome {fuel : Nat} (nlinks : Nat) (currPath : Path Name) (hroot : fs.tree.Plain root)
    (hlinks : nlinks ≤ maxSymlinkDepth) (hfuel : maxSymlinkDepth - nlinks < fuel)
    (hread : fs.ReadableFor root currPath (maxSymlinkDepth - nlinks)) :
    (∃ k sub, nlinks + k ≤ maxSymlinkDepth ∧ fs.resolveLoop root fuel nlinks currPath = some (.ok sub) ∧
      Resolves (fs.linkBelow root) [] currPath.components k sub ∧ fs.tree.Plain (root ++ sub)) ∨
    (fs.resolveLoop root fuel nlinks currPath = some (.error .tooManyLinks) ∧
      ∃ p, Meets (fs.linkBelow root) [] currPath.components (maxSymlinkDepth - nlinks) p ∧
        (fs.linkBelow root p).isSome) := by
  induction fuel generalizing nlinks currPath with
  | zero => omega
  | succ fuel ih =>
    have hstart : fs.tree.Plain (root ++ []) := by
      rw [List.append_nil]
      exact hroot
    have hwalk : Walked fs root [] currPath.components (fs.walk root [] currPath.components) :=
      walk_walked hstart (hread 0 (Nat.zero_le _))
    unfold resolveLoop
    cases hw : fs.walk root [] currPath.components with
    | done sub =>
      rw [hw] at hwalk
      exact .inl ⟨0, sub, hlinks, rfl, hwalk.2, hwalk.1⟩
    | link sub target rest =>
      rw [hw] at hwalk
      obtain ⟨hplain, hfirst, hres, hmeets⟩ := hwalk
      by_cases hmax : nlinks + 1 > maxSymlinkDepth
      · -- this symlink is one too many
        right
        refine ⟨if_pos hmax, ?_⟩
        rw [show maxSymlinkDepth - nlinks = 0 by omega]
        exact hfirst
      · simp only [if_neg hmax]
        have hleft : maxSymlinkDepth - nlinks = maxSymlinkDepth - (nlinks + 1) + 1 := by omega
        have hrest : fs.ReadableFor root (restartAt sub target rest) (maxSymlinkDepth - (nlinks + 1)) := by
          intro k hk p hp hlink
          exact hread (k + 1) (by omega) p (hmeets k p (meets_restart hplain hlink hp)) hlink
        have hagain := ih (nlinks + 1) (restartAt sub target rest) (by omega) (by omega) hrest
        rcases hagain with ⟨k, sub', hk, hloop, hmeaning, hplain'⟩ | ⟨hloop, p, hp, hlink⟩
        · exact .inl ⟨k + 1, sub', by omega, hloop, hres k sub' (resolves_restart hplain hmeaning), hplain'⟩
        · right
          rw [hleft]
          exact ⟨hloop, p, hmeets _ p (meets_restart hplain hlink hp), hlink⟩

theorem plain_before (h : Meets (fs.linkBelow root) cur comps k p) (hplain : fs.tree.Plain (root ++ cur)) :
    ∃ q n, p = q ++ [n] ∧ fs.tree.Plain (root ++ q) := by
  induction h with
  | here => exact ⟨_, _, rfl, hplain⟩
  | curDir _ ih => exact ih hplain
  | parentDir _ ih => exact ih (plain_dropLast hplain)
  | plain hlink _ ih => exact ih (plain_snoc hplain hlink)
  | symlink _ _ ih =>
    refine ih ?_
    unfold startOf
    split
    · rw [List.append_nil]
      exact Clear.left hplain
    · exact hplain

/-! ## The functions of the crate -/

theorem resolveLoop_of_plain {fuel : Nat} {sub : List Name} (hplain : fs.tree.Plain (root ++ sub)) :
    fs.resolveLoop root (fuel + 1) 0 (Path.relative sub) = some (.ok sub) := by
  have hwalk : fs.walk root [] (sub.map .normal ++ []) = .done sub := by
    rw [walk_names (by rwa [List.append_nil])]
    rfl
  rw [List.append_nil] at hwalk
  rw [resolveLoop, Path.relative, hwalk]

theorem doScopedResolve_eq {fuel : Nat} {rootPath unsafePath : Path Name}
    (hroot : fs.canonicalize rootPath = some root) : fs.doScopedResolve fuel rootPath unsafePath =
      (fs.resolveLoop root fuel 0 unsafePath).map fun out => out.map fun path => (root, path) := by
  rw [doScopedResolve, hroot]

theorem scopedResolve_eq {fuel : Nat} {rootPath unsafePath : Path Name} {out : Except Error (List Name)}
    (hroot : fs.canonicalize rootPath = some root) (h : fs.resolveLoop root fuel 0 unsafePath = some out) :
    fs.scopedResolve fuel rootPath unsafePath = some (out.map Path.relative) := by
  rw [scopedResolve, doScopedResolve_eq hroot, h]
  cases out <;> rfl

/-- 256 turns of the loop are enough. A path that has a meaning with at most 255 symlinks on the way
is resolved to it, and the answer for any other path is that there are too many of them. What is
resolved has no symlink in it, joining it does not leave the root, and resolving it again changes
nothing. -/
def Correct (fs : FileSystem Name) (rootPath : Path Name) (root : List Name) (fuel : Nat)
    (unsafePath : Path Name) : Prop :=
  (∃ sub, fs.scopedResolve fuel rootPath unsafePath = some (.ok (Path.relative sub)) ∧
    (∃ k ≤ maxSymlinkDepth, Resolves (fs.linkBelow root) [] unsafePath.components k sub) ∧
    (∀ k sub', Resolves (fs.linkBelow root) [] unsafePath.components k sub' → sub' = sub) ∧
    fs.tree.Plain (root ++ sub) ∧
    fs.scopedJoin fuel rootPath unsafePath = some (.ok (Path.absolute (root ++ sub))) ∧
    fs.scopedResolve fuel rootPath (Path.relative sub) = some (.ok (Path.relative sub))) ∨
  (fs.scopedResolve fuel rootPath unsafePath = some (.error .tooManyLinks) ∧
    fs.scopedJoin fuel rootPath unsafePath = some (.error .tooManyLinks) ∧
    (∃ p, Meets (fs.linkBelow root) [] unsafePath.components maxSymlinkDepth p ∧ (fs.linkBelow root p).isSome) ∧
    ¬ ∃ k ≤ maxSymlinkDepth, ∃ sub, Resolves (fs.linkBelow root) [] unsafePath.components k sub)

section Correct

variable {rootPath unsafePath : Path Name} {fuel : Nat}

theorem correct_of_readable (hroot : fs.canonicalize rootPath = some root) (hfuel : maxSymlinkDepth < fuel)
    (hread : fs.ReadableFor root unsafePath maxSymlinkDepth) : fs.Correct rootPath root fuel unsafePath := by
  have hplain := fs.canonical _ _ hroot
  rcases resolveLoop_outcome 0 unsafePath hplain (Nat.zero_le _) hfuel hread with
    ⟨k, sub, hk, hloop, hres, hsub⟩ | ⟨hloop, p, hp, hlink⟩
  · left
    obtain ⟨fuel, rfl⟩ := Nat.exists_eq_add_of_lt hfuel
    refine ⟨sub, scopedResolve_eq hroot hloop, ⟨k, by omega, hres⟩, fun _ _ hres' => hres.unique hres', hsub, ?_,
      scopedResolve_eq hroot (resolveLoop_of_plain hsub)⟩
    rw [scopedJoin, doScopedResolve_eq hroot, hloop]
    simp [Except.map, Path.join, Path.absolute, Path.relative]
  · right
    refine ⟨scopedResolve_eq hroot hloop, ?_, ⟨p, hp, hlink⟩, ?_⟩
    · rw [scopedJoin, doScopedResolve_eq hroot, hloop]
      rfl
    · rintro ⟨k, hk, sub, hres⟩
      exact absurd (hres.meets_lt hp hlink) (Nat.not_lt.mpr hk)

theorem Correct.plain (h : fs.Correct rootPath root fuel unsafePath) {names : List Name}
    (hout : fs.scopedResolve fuel rootPath unsafePath = some (.ok (Path.relative names))) :
    fs.tree.Plain (root ++ names) := by
  rcases h with ⟨sub, hsub, -, -, hclear, -⟩ | ⟨herr, -⟩
  · rw [hout] at hsub
    have hcomps := congrArg Path.components (Except.ok.inj (Option.some.inj hsub))
    rwa [List.map_injective_iff.mpr (fun _ _ h => Component.normal.inj h) hcomps]
  · rw [hout] at herr
    cases herr

/-- A symlink that cannot be read is kept in the result. -/
theorem not_correct_of_unreadable (hroot : fs.canonicalize rootPath = some root) (hfuel : maxSymlinkDepth < fuel)
    {q : List Name} {n : Name} (hplain : fs.tree.Plain (root ++ q)) (hlink : (fs.linkBelow root (q ++ [n])).isSome)
    (hfails : fs.unreadable (root ++ (q ++ [n])) = true) :
    ¬ fs.Correct rootPath root fuel (Path.relative (q ++ [n])) := by
  have hwalk : fs.walk root [] ((q ++ [n]).map .normal) = .done (q ++ [n]) := by
    rw [← List.append_assoc] at hfails
    rw [List.map_append, walk_names (by rwa [List.append_nil]), List.nil_append, List.map_singleton, walk,
      readLink_of_unreadable hfails]
    rfl
  obtain ⟨fuel, rfl⟩ := Nat.exists_eq_add_of_lt hfuel
  have hloop : fs.resolveLoop root (maxSymlinkDepth + fuel + 1) 0 (Path.relative (q ++ [n])) =
      some (.ok (q ++ [n])) := by
    rw [resolveLoop, Path.relative, hwalk]
  intro hcorrect
  have hclear := clear_below (hcorrect.plain (scopedResolve_eq hroot hloop))
  rw [hclear.last] at hlink
  cases hlink

end Correct

/-- Given a root that exists. -/
theorem scopedResolve_correct_iff (fs : FileSystem Name) {rootPath : Path Name} {root : List Name}
    (hroot : fs.canonicalize rootPath = some root) {fuel : Nat} (hfuel : maxSymlinkDepth < fuel) :
    (∀ unsafePath, fs.ReadableFor root unsafePath maxSymlinkDepth → fs.Correct rootPath root fuel unsafePath) ∧
      ((∀ unsafePath, fs.Correct rootPath root fuel unsafePath) ↔
        ∀ unsafePath, fs.ReadableFor root unsafePath maxSymlinkDepth) := by
  refine ⟨fun _ => correct_of_readable hroot hfuel, fun hall unsafePath k _ p hp hlink => ?_,
    fun hread _ => correct_of_readable hroot hfuel (hread _)⟩
  have hplain : fs.tree.Plain (root ++ []) := by
    rw [List.append_nil]
    exact fs.canonical _ _ hroot
  obtain ⟨q, n, rfl, hq⟩ := plain_before hp hplain
  refine Bool.eq_false_of_not_eq_true fun hfails => ?_
  exact not_correct_of_unreadable hroot hfuel hq hlink hfails (hall _)

/-! ## Small file systems -/

theorem plain_singleton {tree : Node Name} {n : Name} (htop : tree.linkAt [] = none) (h : tree.linkAt [n] = none) :
    tree.Plain [n] := by
  intro k
  cases k with
  | zero => exact htop
  | succ k =>
    rw [List.take_of_length_le (Nat.le_add_left 1 k)]
    exact h

/-- With the root `/n`, which is a directory. -/
def rootedAt (tree : Node Name) (n : Name) (htop : tree.linkAt [] = none) (h : tree.linkAt [n] = none)
    (unreadable : List Name → Bool) : FileSystem Name where
  tree := tree
  unreadable := unreadable
  follow _ := none
  canonicalize p := if p = Path.absolute [n] then some [n] else none
  canonical := by
    intro p root hp
    split at hp
    · cases hp
      exact plain_singleton htop h
    · cases hp

inductive SomeName where
  | root
  | etc
  | link
  | loop
deriving DecidableEq

/-- `/root/link` leads to `/etc/../etc`, and `/root/loop` to itself. What is deeper cannot be read. -/
def someFiles : FileSystem SomeName :=
  rootedAt
    (.dir [(.root, .dir [
      (.etc, .dir []),
      (.link, .symlink ⟨true, [.normal .etc, .parentDir, .normal .etc]⟩),
      (.loop, .symlink ⟨false, [.curDir, .normal .loop]⟩)])])
    .root rfl rfl fun p => 2 < p.length

theorem scopedResolve_correct_someFiles :
    (∀ unsafePath, someFiles.Correct (.absolute [.root]) [.root] 256 unsafePath) ∧
      someFiles.scopedResolve 256 (.absolute [.root]) ⟨false, [.parentDir, .normal .link, .normal .loop]⟩ =
        some (.ok (.relative [.etc, .loop])) := by
  refine ⟨(scopedResolve_correct_iff someFiles rfl (by decide)).2.mpr fun _ k _ p _ hlink => ?_, by decide⟩
  rcases p with _ | ⟨x, _ | ⟨y, rest⟩⟩
  · rfl
  · rfl
  · cases x <;> cases hlink

example : someFiles.scopedResolve 256 (.absolute [.root]) ⟨true, [.normal .loop]⟩ = some (.error .tooManyLinks) := by
  decide +kernel

/-- Directories in one another, with a symlink to the root in the last one. -/
def nested : Nat → Node Nat
  | 0 => .dir [(1, .symlink ⟨true, []⟩)]
  | n + 1 => .dir [(200, nested n)]

/-- A name is given by its number of letters. `read_link` fails for paths of 4096 bytes and more. -/
def deepFiles : FileSystem Nat :=
  rootedAt (.dir [(1, nested 21)]) 1 rfl rfl fun p => 4096 ≤ (p.map (· + 1)).sum

def deepLink : Path Nat := .relative (List.replicate 21 200 ++ [1])

theorem deepLink_kept : deepFiles.scopedResolve 256 (.absolute [1]) deepLink = some (.ok deepLink) ∧
    ¬ deepFiles.Correct (.absolute [1]) [1] 256 deepLink := by
  have hout : deepFiles.scopedResolve 256 (.absolute [1]) deepLink = some (.ok deepLink) := by decide +kernel
  refine ⟨hout, fun hcorrect => ?_⟩
  exact absurd (Clear.last (hcorrect.plain hout)) (by decide +kernel)

end FileSystem

end Kata.SafePath
