import Kata.Lib.Outcome

/-!
# Kata.SafePath.ScopedResolve

Paths that are resolved inside a root directory (`safe-path/src/scoped_path_resolver.rs`).

A path is what `Path::components` makes of it. The file system is a tree that does not change during
a call; what the kernel answers for a path that leads through a symlink is a parameter, as are the
paths at which `read_link` fails and `canonicalize`, of which only one thing is assumed: there is no
symlink on the way to its result.
-/

namespace Kata.SafePath

/-- `RootDir` is `Path.isAbsolute`, and there is no `Prefix` on Linux. -/
inductive Component (Name : Type) where
  | curDir
  | parentDir
  | normal (n : Name)
deriving DecidableEq

structure Path (Name : Type) where
  isAbsolute : Bool
  components : List (Component Name)
deriving DecidableEq

namespace Path

variable {Name : Type}

def join (p q : Path Name) : Path Name :=
  if q.isAbsolute then q else ⟨p.isAbsolute, p.components ++ q.components⟩

def relative (names : List Name) : Path Name := ⟨false, names.map .normal⟩

def absolute (names : List Name) : Path Name := ⟨true, names.map .normal⟩

end Path

/-! ## File systems -/

inductive Node (Name : Type) where
  | file
  | symlink (target : Path Name)
  | dir (entries : List (Name × Node Name))

variable {Name : Type} [DecidableEq Name]

namespace Node

def child : Node Name → Name → Option (Node Name)
  | .dir entries, n => entries.lookup n
  | _, _ => none

/-- The node at a path, which is not followed through symlinks. -/
def get (node : Node Name) : List Name → Option (Node Name)
  | [] => some node
  | n :: rest =>
    match node.child n with
    | none => none
    | some next => next.get rest

/-- The target, if there is a symlink at the path. -/
def linkAt (node : Node Name) (path : List Name) : Option (Path Name) :=
  match node.get path with
  | some (.symlink target) => some target
  | _ => none

/-- Neither the path nor a part of it from the beginning is a symlink. -/
def Plain (node : Node Name) (path : List Name) : Prop := ∀ k, node.linkAt (path.take k) = none

end Node

structure FileSystem (Name : Type) [DecidableEq Name] where
  tree : Node Name
  /-- Where `read_link` fails whatever is there, because the path is too long, say. -/
  unreadable : List Name → Bool
  follow : List Name → Option (Path Name)
  canonicalize : Path Name → Option (List Name)
  canonical : ∀ p root, canonicalize p = some root → tree.Plain root

namespace FileSystem

variable (fs : FileSystem Name)

/-- `read_link`: a symlink on the way is followed by the kernel. An error is `none`, as for what is
no symlink. -/
def readLink (path : List Name) : Option (Path Name) :=
  if fs.unreadable path then none
  else if (List.range path.length).any fun k => (fs.tree.linkAt (path.take k)).isSome then fs.follow path
  else fs.tree.linkAt path

/-! ## Resolution -/

def maxSymlinkDepth : Nat := 255

inductive Error where
  | canonicalize
  | tooManyLinks
deriving DecidableEq, Repr

/-- How the loop over the components ends: at their end, or at a symlink, with the components that
are left. -/
inductive Walk (Name : Type) where
  | done (subpath : List Name)
  | link (subpath : List Name) (target : Path Name) (rest : List (Component Name))

def walk (root subpath : List Name) : List (Component Name) → Walk Name
  | [] => .done subpath
  | .curDir :: rest => walk root subpath rest
  | .parentDir :: rest => walk root subpath.dropLast rest
  | .normal n :: rest =>
    match fs.readLink (root ++ subpath ++ [n]) with
    | some target => .link subpath target rest
    | none => walk root (subpath ++ [n]) rest

/-- The path with which the loop starts again. -/
def restartAt (subpath : List Name) (target : Path Name) (rest : List (Component Name)) : Path Name :=
  if target.isAbsolute then target.join ⟨false, rest⟩
  else ((Path.relative subpath).join target).join ⟨false, rest⟩

/-- The outer loop, with at most `fuel` turns; none if they are not enough. -/
def resolveLoop (root : List Name) : Nat → Nat → Path Name → Option (Except Error (List Name))
  | 0, _, _ => none
  | fuel + 1, nlinks, currPath =>
    match fs.walk root [] currPath.components with
    | .done subpath => some (.ok subpath)
    | .link subpath target rest =>
      if nlinks + 1 > maxSymlinkDepth then some (.error .tooManyLinks)
      else resolveLoop root fuel (nlinks + 1) (restartAt subpath target rest)

def doScopedResolve (fuel : Nat) (root unsafePath : Path Name) :
    Option (Except Error (List Name × List Name)) :=
  match fs.canonicalize root with
  | none => some (.error .canonicalize)
  | some root => (fs.resolveLoop root fuel 0 unsafePath).map fun out => out.map fun path => (root, path)

def scopedResolve (fuel : Nat) (root unsafePath : Path Name) : Option (Except Error (Path Name)) :=
  (fs.doScopedResolve fuel root unsafePath).map fun out => out.map fun (_, path) => Path.relative path

def scopedJoin (fuel : Nat) (root unsafePath : Path Name) : Option (Except Error (Path Name)) :=
  (fs.doScopedResolve fuel root unsafePath).map fun out =>
    out.map fun (root, path) => (Path.absolute root).join (Path.relative path)

end FileSystem

end Kata.SafePath
