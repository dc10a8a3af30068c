import Kata.Lib.Dict
import Kata.Lib.SortedMap
import Mathlib.Data.List.DropRight

/-!
# Kata.Agent.Watcher

The bind watcher of the agent: `Storage::scan` walks the tree of a mount that sends no
notifications, notes which entries are new or changed, and copies these to a target.

`scan_ok_iff` says when a scan goes through, and `scan_of_goesThrough` what it has done then: what
was watched and still exists is watched, and every entry of the walk.
-/

namespace Kata.Watcher

open Lib

/-- The components of a path below the mount point. -/
abbrev Path := List String

def maxEntriesPerStorage : Nat := 16

def maxSizePerWatchableMount : Nat := 1024 * 1024

variable {κ : Type}

/-- A file or a symlink. The length and the time are those of the symlink itself; `leads` says
whether there is something where it points to. -/
structure File (κ : Type) where
  len : Nat
  modified : Nat
  symlink : Bool
  leads : Bool
  content : κ
deriving DecidableEq

/-- The entries of a directory, in the order in which `read_dir` gives them. A socket, a pipe or a
device is walked like a directory that cannot be read. -/
inductive Listing (κ : Type) where
  | nil
  | file (name : String) (file : File κ) (rest : Listing κ)
  | dir (name : String) (modified : Nat) (inner rest : Listing κ)

inductive Node (κ : Type) where
  | file (file : File κ)
  | dir (modified : Nat) (entries : Listing κ)

/-- One entry of the walk. -/
inductive Entry (κ : Type) where
  | file (file : File κ)
  | dir (modified : Nat)

namespace Entry

def modified : Entry κ → Nat
  | .file f => f.modified
  | .dir m => m

def isDir : Entry κ → Bool
  | .file _ => false
  | .dir _ => true

def len : Entry κ → Nat
  | .file f => f.len
  | .dir _ => 0

/-- Whether there is something where a symlink points to. -/
def leads : Entry κ → Bool
  | .file f => !f.symlink || f.leads
  | .dir _ => true

end Entry

/-! ## The order of the walk -/

def Listing.walk : Listing κ → Path → List (Path × Entry κ)
  | .nil, _ => []
  | .file name f rest, path => (path ++ [name], .file f) :: rest.walk path
  | .dir name m inner rest, path =>
    (path ++ [name], .dir m) :: (inner.walk (path ++ [name]) ++ rest.walk path)

def Node.walk (path : Path) : Node κ → List (Path × Entry κ)
  | .file f => [(path, .file f)]
  | .dir m entries => (path, .dir m) :: entries.walk path

def sizeOf (l : List (Path × Entry κ)) : Nat := (l.map fun x => x.2.len).sum

theorem sizeOf_append (l l' : List (Path × Entry κ)) : sizeOf (l ++ l') = sizeOf l + sizeOf l' := by
  rw [sizeOf, List.map_append, List.sum_append]
  rfl

/-- The source of a storage as one scan meets it. `through` has the lengths of what is found at
paths that are not in the tree: those that lead through a symlink. -/
structure Source (κ : Type) where
  root : Option (Node κ)
  through : Path → Option Nat
  unique : ((root.elim [] (Node.walk [])).map Prod.fst).Nodup
  through_symlink : ∀ path, (through path).isSome →
    ∃ q f, (q, Entry.file f) ∈ root.elim [] (Node.walk []) ∧ f.symlink = true ∧ q <+: path ∧
      q ≠ path

namespace Source

def walk (s : Source κ) : List (Path × Entry κ) := s.root.elim [] (Node.walk [])

def entry (s : Source κ) (path : Path) : Option (Entry κ) := s.walk.lookup path

/-- Whether there is something at the path, where symlinks are followed. -/
def leadsAt (s : Source κ) (path : Path) : Bool :=
  match s.entry path with
  | some e => e.leads
  | none => (s.through path).isSome

theorem nodup_walk (s : Source κ) : (s.walk.map Prod.fst).Nodup := s.unique

variable {s : Source κ} {path : Path} {e : Entry κ}

theorem entry_of_mem (h : (path, e) ∈ s.walk) : s.entry path = some e :=
  SortedMap.lookup_of_mem s.nodup_walk h

theorem mem_of_entry (h : s.entry path = some e) : (path, e) ∈ s.walk :=
  SortedMap.mem_of_lookup h

end Source

/-! ## Scanning a path -/

inductive ScanError where
  | metadata (path : Path)
  | readDir (path : Path)
  | nextEntry (path : Path)
  | mountTooManyFiles (count : Nat)
  | mountTooLarge (size : Nat)
deriving DecidableEq

/-- What a copy that fails leaves behind: the first `made` directories of the path are there, and
`left` is what is at the destination of a file, if that was touched. -/
structure Failure (κ : Type) where
  made : Nat
  left : Option (Option κ)

/-- What fails in one scan. -/
structure Faults (κ : Type) where
  stat : Path → Bool
  metadata : Path → Bool
  readDir : Path → Bool
  nextEntry : Path → Nat → Bool
  copy : Path → Option (Failure κ)

def noFaults : Faults κ where
  stat _ := false
  metadata _ := false
  readDir _ := false
  nextEntry _ _ := false
  copy _ := none

/-- What `scan_path` works on: the watched files of the storage and the list of what is to be
updated. -/
structure Walk where
  watched : AList fun _ : Path => Nat
  updateList : List Path

namespace Walk

def insertFile (path : Path) (f : File κ) (w : Walk) : Walk where
  watched := w.watched.insert path f.modified
  updateList :=
    match w.watched.lookup path with
    | some old => if old < f.modified then w.updateList ++ [path] else w.updateList
    | none => w.updateList ++ [path]

def insertDir (path : Path) (modified : Nat) (w : Walk) : Walk where
  watched := w.watched.insert path modified
  updateList := if (w.watched.lookup path).isNone then w.updateList ++ [path] else w.updateList

def record (w : Walk) (x : Path × Entry κ) : Walk :=
  match x.2 with
  | .file f => w.insertFile x.1 f
  | .dir m => w.insertDir x.1 m

end Walk

-- The sizes are added without a bound. Each of them has been checked, and at most sixteen are not zero, so that the sum of
-- the source, a `u64`, does not overflow.
def checkSize (size : Nat) : Except ScanError Nat :=
  if size ≤ maxSizePerWatchableMount then .ok size else .error (.mountTooLarge size)

/-- `scan_path` at a file or a symlink. -/
def scanFile (faults : Faults κ) (path : Path) (f : File κ) (w : Walk) :
    Except ScanError Nat × Walk :=
  if faults.metadata path then (.error (.metadata path), w)
  else
    let w := w.insertFile path f
    if w.watched.keys.length ≤ maxEntriesPerStorage then (checkSize f.len, w)
    else (.error (.mountTooManyFiles w.watched.keys.length), w)

/-- `scan_path` at a directory, whose entries are scanned by `entries`. -/
def scanDir (faults : Faults κ) (path : Path) (modified : Nat)
    (entries : Walk → Except ScanError Nat × Walk) (w : Walk) : Except ScanError Nat × Walk :=
  if faults.metadata path then (.error (.metadata path), w)
  else
    let w := w.insertDir path modified
    if faults.readDir path then (.error (.readDir path), w)
    else
      match entries w with
      | (.error e, w) => (.error e, w)
      | (.ok size, w) => (checkSize size, w)

/-- One round of the loop over the entries of a directory, and the rounds after it. -/
def nextEntry (scanned : Except ScanError Nat × Walk) (rest : Walk → Except ScanError Nat × Walk) :
    Except ScanError Nat × Walk :=
  match scanned with
  | (.error e, w) => (.error e, w)
  | (.ok resSize, w) =>
    match rest w with
    | (.error e, w) => (.error e, w)
    | (.ok size, w) => (.ok (resSize + size), w)

/-- The loop of `scan_path` over the entries of the directory at `path`, from the `i`-th on. -/
def scanEntries (faults : Faults κ) : Listing κ → Path → Nat → Walk → Except ScanError Nat × Walk
  | .nil, path, i, w => if faults.nextEntry path i then (.error (.nextEntry path), w)
    else (.ok 0, w)
  | .file name f rest, path, i, w =>
    if faults.nextEntry path i then (.error (.nextEntry path), w)
    else nextEntry (scanFile faults (path ++ [name]) f w) (scanEntries faults rest path (i + 1))
  | .dir name m inner rest, path, i, w =>
    if faults.nextEntry path i then (.error (.nextEntry path), w)
    else
      nextEntry (scanDir faults (path ++ [name]) m (scanEntries faults inner (path ++ [name]) 0) w)
        (scanEntries faults rest path (i + 1))

def scanPath (faults : Faults κ) (path : Path) : Node κ → Walk → Except ScanError Nat × Walk
  | .file f, w => scanFile faults path f w
  | .dir m entries, w => scanDir faults path m (scanEntries faults entries path 0) w

/-! ## The target -/

/-- What is at a path of the target. -/
inductive Copy (κ : Type) where
  | file (content : κ)
  | symlink (content : κ)
  | dir
deriving DecidableEq

abbrev Target (κ : Type) := Path → Option (Copy κ)

def File.copyOf (f : File κ) (content : κ) :
    Copy κ := if f.symlink then .symlink content else .file content

def Entry.copy : Entry κ → Copy κ
  | .file f => f.copyOf f.content
  | .dir _ => .dir

namespace Target

/-- The loop body of `scan` over what was removed. The target path of the mount point itself ends in
a slash, and what is not a directory is not removed by such a path. -/
def remove (t : Target κ) (path : Path) : Target κ :=
  match t path with
  | some .dir => fun q => if path <+: q then none else t q
  | some _ => if path = [] then t else Function.update t path none
  | none => t

/-- `create_dir_all`, stopped after `n` directories, of which the first is the mount point. -/
def createDirAll (path : Path) (n : Nat) (t : Target κ) : Target κ := fun q =>
  if q <+: path ∧ q.length < n then some ((t q).getD .dir) else t q

/-- `update_target`. -/
def update (source : Source κ) (faults : Faults κ) (t : Target κ) (path : Path) : Target κ :=
  match source.entry path, faults.copy path with
  | none, _ => t
  | some (.dir _), none => createDirAll path (path.length + 1) t
  | some (.dir _), some failed => createDirAll path failed.made t
  | some (.file f), none => Function.update (createDirAll path path.length t) path
    (some (f.copyOf f.content))
  | some (.file f), some failed =>
    match failed.left with
    | none => createDirAll path (min failed.made path.length) t
    | some left => Function.update (createDirAll path (min failed.made path.length) t) path
      (left.map f.copyOf)

end Target

/-! ## A scan -/

/-- `Path::exists`, which is false for any error. -/
def Source.pathExists (s : Source κ) (faults : Faults κ) (path : Path) :
    Bool := !faults.stat path && s.leadsAt path

/-- The fields of a storage that a scan changes. -/
structure Storage (κ : Type) where
  watched : AList fun _ : Path => Nat
  target : Target κ

def scanRoot (source : Source κ) (faults : Faults κ) (watched : AList fun _ : Path => Nat) :
    Except ScanError Nat × Walk :=
  match source.root with
  | none => (.error (.metadata []), ⟨watched, []⟩)
  | some node => scanPath faults [] node ⟨watched, []⟩

namespace Storage

/-- What is still watched when what does not exist, or seems not to, has been dropped. -/
def retained (source : Source κ) (faults : Faults κ) (s : Storage κ) : AList fun _ : Path => Nat :=
  Dict.retain (source.pathExists faults) s.watched

def removeList (source : Source κ) (faults : Faults κ) (s : Storage κ) : List Path :=
  s.watched.keys.filter fun p => !source.pathExists faults p

def scan (source : Source κ) (faults : Faults κ) (s : Storage κ) :
    Except ScanError Nat × Storage κ :=
  let target := (s.removeList source faults).foldl Target.remove s.target
  match scanRoot source faults (s.retained source faults) with
  | (.error e, w) => (.error e, ⟨w.watched, target⟩)
  | (.ok _, w) => (.ok w.updateList.length,
    ⟨w.watched, w.updateList.foldl (Target.update source faults) target⟩)

end Storage

/-! ## When the walk goes through -/

/-- No entry of the directory fails to be read, from the `i`-th on. -/
def Listing.Readable (faults : Faults κ) : Listing κ → Path → Nat → Prop
  | .nil, path, i => faults.nextEntry path i = false
  | .file name _ rest, path, i =>
    faults.nextEntry path i = false ∧ faults.metadata (path ++ [name]) = false ∧
      rest.Readable faults path (i + 1)
  | .dir name _ inner rest, path, i =>
    faults.nextEntry path i = false ∧
      (faults.metadata (path ++ [name]) = false ∧ faults.readDir (path ++ [name]) = false ∧
        inner.Readable faults (path ++ [name]) 0) ∧
      rest.Readable faults path (i + 1)

def Node.Readable (faults : Faults κ) (path : Path) : Node κ → Prop
  | .file _ => faults.metadata path = false
  | .dir _ entries => faults.metadata path = false ∧ faults.readDir path = false ∧
    entries.Readable faults path 0

/-- Wherever the walk records a file or a symlink, there are not too many entries then. -/
def Counted (w : Walk) : List (Path × Entry κ) → Prop
  | [] => True
  | x :: l => (x.2.isDir = false → (w.record x).watched.keys.length ≤ maxEntriesPerStorage) ∧
    Counted (w.record x) l

variable {w : Walk}

theorem counted_append {l l' : List (Path × Entry κ)} :
    Counted w (l ++ l') ↔ Counted w l ∧ Counted (l.foldl Walk.record w) l' := by
  induction l generalizing w with
  | nil => exact (and_iff_right trivial).symm
  | cons x l ih =>
    rw [List.cons_append, Counted, Counted, ih, and_assoc]
    rfl

/-- The walk of `l` from `w` returns the size of `l` and has recorded `l`, if the directories can be
read, there are not too many entries at a file, and the files in it are not too large; and only
then. -/
def Scans (scanned : Except ScanError Nat × Walk) (readable : Prop) (w : Walk)
    (l : List (Path × Entry κ)) : Prop :=
  (readable → Counted w l → sizeOf l ≤ maxSizePerWatchableMount →
    scanned = (.ok (sizeOf l), l.foldl Walk.record w)) ∧
  (∀ size w', scanned = (.ok size, w') → readable ∧ Counted w l ∧ size = sizeOf l ∧
    w' = l.foldl Walk.record w)

theorem checkSize_eq_ok {size n : Nat} :
    checkSize size = .ok n ↔ n = size ∧ size ≤ maxSizePerWatchableMount := by
  unfold checkSize
  split
  case isTrue h =>
    constructor
    · intro heq
      cases heq
      exact ⟨rfl, h⟩
    · rintro ⟨rfl, _⟩
      rfl
  case isFalse h => exact ⟨nofun, fun h' => absurd h'.2 h⟩

variable {faults : Faults κ} {path : Path} {w' : Walk} {size : Nat}

theorem scanFile_size {f : File κ}
    (h : scanFile faults path f w = (.ok size, w')) : size ≤ maxSizePerWatchableMount := by
  unfold scanFile at h
  split at h
  case isTrue hm => cases h
  case isFalse hm =>
    simp only at h
    split at h
    case isTrue hc =>
      obtain ⟨rfl, hs⟩ := checkSize_eq_ok.mp (Prod.mk.inj h).1
      exact hs
    case isFalse hc => cases h

variable {modified : Nat} {entries : Walk → Except ScanError Nat × Walk}

theorem scanDir_size (h : scanDir faults path modified entries w = (.ok size, w')) :
    size ≤ maxSizePerWatchableMount := by
  unfold scanDir at h
  split at h
  case isTrue hm => cases h
  case isFalse hm =>
    simp only at h
    split at h
    case isTrue hr => cases h
    case isFalse hr =>
      split at h
      case h_1 => cases h
      case h_2 =>
        obtain ⟨rfl, hs⟩ := checkSize_eq_ok.mp (Prod.mk.inj h).1
        exact hs

theorem scanPath_size {node : Node κ}
    (h : scanPath faults path node w = (.ok size, w')) : size ≤ maxSizePerWatchableMount := by
  cases node with
  | file f => exact scanFile_size h
  | dir m entries => exact scanDir_size h

theorem scanFile_scans (faults : Faults κ) (path : Path) (f : File κ) (w : Walk) :
    Scans (scanFile faults path f w) (faults.metadata path = false) w [(path, .file f)] := by
  have hcount : Counted w [(path, Entry.file f)] ↔
      (w.insertFile path f).watched.keys.length ≤ maxEntriesPerStorage := by
    rw [Counted, Counted, and_true]
    exact ⟨fun h => h rfl, fun h _ => h⟩
  have hsize : sizeOf [(path, Entry.file f)] = f.len := Nat.add_zero _
  rw [Scans, hcount, hsize]
  unfold scanFile
  constructor
  · intro hm hc hs
    rw [hm, if_neg Bool.false_ne_true]
    simp only [if_pos hc, checkSize_eq_ok.mpr ⟨rfl, hs⟩]
    rfl
  · intro size w' heq
    split at heq
    case isTrue hm => cases heq
    case isFalse hm =>
      simp only at heq
      split at heq
      case isTrue hc =>
        obtain ⟨hok, rfl⟩ := Prod.mk.inj heq
        exact ⟨Bool.eq_false_iff.mpr hm, hc, (checkSize_eq_ok.mp hok).1, rfl⟩
      case isFalse hc => cases heq

variable {l : List (Path × Entry κ)}

variable {readable : Prop}

theorem scanDir_scans (h : Scans (entries (w.insertDir path modified)) readable
      (w.insertDir path modified) l) :
    Scans (scanDir faults path modified entries w)
      (faults.metadata path = false ∧ faults.readDir path = false ∧ readable) w
        ((path, .dir modified) :: l) := by
  have hcount : Counted w ((path, Entry.dir modified) :: l) ↔ Counted (w.insertDir path modified)
      l := by
    rw [Counted]
    exact and_iff_right nofun
  have hsize : sizeOf ((path, Entry.dir modified) :: l) = sizeOf l := Nat.zero_add _
  rw [Scans, hcount, hsize]
  unfold scanDir
  constructor
  · rintro ⟨hm, hr, hread⟩ hc hs
    rw [hm, hr, if_neg Bool.false_ne_true]
    simp only [Bool.false_eq_true, if_false, h.1 hread hc hs, checkSize_eq_ok.mpr ⟨rfl, hs⟩]
    rfl
  · intro size w' heq
    split at heq
    case isTrue hm => cases heq
    case isFalse hm =>
      simp only at heq
      split at heq
      case isTrue hr => cases heq
      case isFalse hr =>
        match hent : entries (w.insertDir path modified) with
        | (.error e, w1) =>
          rw [hent] at heq
          cases heq
        | (.ok size1, w1) =>
          rw [hent] at heq
          obtain ⟨hok, rfl⟩ := Prod.mk.inj heq
          obtain ⟨hread, hc, hs, hw⟩ := h.2 size1 w1 hent
          exact ⟨⟨Bool.eq_false_iff.mpr hm, Bool.eq_false_iff.mpr hr, hread⟩, hc,
            ((checkSize_eq_ok.mp hok).1).trans hs, hw⟩

variable {l' : List (Path × Entry κ)}

theorem nextEntry_scans {scanned : Except ScanError Nat × Walk}
    {rest : Walk → Except ScanError Nat × Walk}
    {readable readable' : Prop} (h : Scans scanned readable w l)
    (h' : Scans (rest (l.foldl Walk.record w)) readable' (l.foldl Walk.record w) l') :
    Scans (nextEntry scanned rest) (readable ∧ readable') w (l ++ l') := by
  rw [Scans, counted_append, sizeOf_append, List.foldl_append]
  constructor
  · rintro ⟨hread, hread'⟩ ⟨hc, hc'⟩ hs
    have hs1 : sizeOf l ≤ maxSizePerWatchableMount := by omega
    have hs2 : sizeOf l' ≤ maxSizePerWatchableMount := by omega
    rw [h.1 hread hc hs1]
    simp only [nextEntry, h'.1 hread' hc' hs2]
  · intro size w' heq
    match scanned, h with
    | (.error e, w1), _ => cases heq
    | (.ok size1, w1), h =>
      obtain ⟨hread, hc, rfl, rfl⟩ := h.2 size1 w1 rfl
      match hrest : rest (l.foldl Walk.record w) with
      | (.error e, w2) =>
        simp only [nextEntry, hrest] at heq
        cases heq
      | (.ok size2, w2) =>
        simp only [nextEntry, hrest] at heq
        cases heq
        obtain ⟨hread', hc', rfl, hw⟩ := h'.2 size2 _ hrest
        exact ⟨⟨hread, hread'⟩, ⟨hc, hc'⟩, rfl, hw⟩

theorem scanEntries_scans (faults : Faults κ) (entries : Listing κ) (path : Path) (i : Nat)
    (w : Walk) :
    Scans (scanEntries faults entries path i w) (entries.Readable faults path i) w
      (entries.walk path) := by
  induction entries generalizing path i w with
  | nil =>
    rw [scanEntries, Listing.Readable, Listing.walk]
    cases faults.nextEntry path i with
    | true => exact ⟨nofun, nofun⟩
    | false =>
      refine ⟨fun _ _ _ => rfl, ?_⟩
      intro size w' heq
      cases heq
      exact ⟨rfl, trivial, rfl, rfl⟩
  | file name f rest ih =>
    rw [scanEntries, Listing.Readable, Listing.walk]
    cases faults.nextEntry path i with
    | true => exact ⟨nofun, nofun⟩
    | false =>
      rw [if_neg Bool.false_ne_true, eq_self, true_and]
      exact nextEntry_scans (scanFile_scans faults (path ++ [name]) f w) (ih path (i + 1) _)
  | dir name m inner rest ih ihrest =>
    rw [scanEntries, Listing.Readable, Listing.walk]
    cases faults.nextEntry path i with
    | true => exact ⟨nofun, nofun⟩
    | false =>
      rw [if_neg Bool.false_ne_true, eq_self, true_and]
      exact nextEntry_scans (scanDir_scans (ih (path ++ [name]) 0 _)) (ihrest path (i + 1) _)

theorem scanPath_scans (faults : Faults κ) (path : Path) (node : Node κ) (w : Walk) :
    Scans (scanPath faults path node w) (node.Readable faults path) w (node.walk path) := by
  cases node with
  | file f => exact scanFile_scans faults path f w
  | dir m entries => exact scanDir_scans (scanEntries_scans faults entries path 0 _)

/-! ## What is watched after a scan -/

def paths (l : List (Path × Entry κ)) : Finset Path := (l.map Prod.fst).toFinset

theorem record_watched (w : Walk) (x : Path × Entry κ) :
    (w.record x).watched = w.watched.insert x.1 x.2.modified := by
  obtain ⟨path, e⟩ := x
  cases e <;> rfl

theorem watched_foldl_record (w : Walk) (l : List (Path × Entry κ)) :
    (l.foldl Walk.record w).watched = Dict.puts w.watched (l.map fun x => (x.1, x.2.modified)) := by
  induction l generalizing w with
  | nil => rfl
  | cons x l ih =>
    rw [List.foldl_cons, ih, record_watched]
    rfl

theorem keys_foldl_record (w : Walk) (l : List (Path × Entry κ)) :
    Dict.keys (l.foldl Walk.record w).watched = Dict.keys w.watched ∪ paths l := by
  rw [watched_foldl_record, Dict.keys_puts, List.map_map]
  rfl

/-- The walk counts the entries at every file and at every symlink, and so in effect at the last of
them only. -/
theorem counted_iff (w : Walk) (l : List (Path × Entry κ)) :
    Counted w l ↔ ((∃ x ∈ l, x.2.isDir = false) →
      (Dict.keys w.watched ∪ paths (l.rdropWhile fun x => x.2.isDir)).card ≤
        maxEntriesPerStorage) := by
  induction l using List.reverseRecOn with
  | nil =>
    refine ⟨?_, fun _ => trivial⟩
    rintro _ ⟨x, hx, _⟩
    cases hx
  | append_singleton l x ih =>
    rw [counted_append, ih, Counted, Counted, and_true]
    have hcount : ((l.foldl Walk.record w).record x).watched.keys.length =
        (Dict.keys w.watched ∪ paths (l ++ [x])).card := by
      rw [← keys_foldl_record, Dict.card_keys, List.foldl_append]
      rfl
    rw [hcount]
    cases hx : x.2.isDir with
    | true =>
      -- a directory at the end changes neither what is counted nor where
      rw [List.rdropWhile_concat_pos (fun x : Path × Entry κ => x.2.isDir) l x hx]
      have hfile : (∃ y ∈ l ++ [x], y.2.isDir = false) ↔ ∃ y ∈ l, y.2.isDir = false := by
        constructor
        · rintro ⟨y, hy, hd⟩
          rcases List.mem_append.mp hy with hy | hy
          · exact ⟨y, hy, hd⟩
          · rw [List.mem_singleton.mp hy, hx] at hd
            cases hd
        · rintro ⟨y, hy, hd⟩
          exact ⟨y, List.mem_append_left _ hy, hd⟩
      rw [hfile]
      exact and_iff_left nofun
    | false =>
      rw [List.rdropWhile_concat_neg (fun x : Path × Entry κ => x.2.isDir) l x
        (Bool.eq_false_iff.mp hx)]
      constructor
      · intro h _
        exact h.2 rfl
      · intro h
        have hle := h ⟨x, List.mem_append_right _ (List.mem_singleton_self x), hx⟩
        refine ⟨fun _ => Nat.le_trans (Finset.card_le_card ?_) hle, fun _ => hle⟩
        refine Finset.union_subset_union_right ?_
        intro p hp
        obtain ⟨y, hy, rfl⟩ := List.mem_map.mp (List.mem_toFinset.mp hp)
        refine List.mem_toFinset.mpr (List.mem_map_of_mem (List.mem_append_left _ ?_))
        exact (List.rdropWhile_prefix _ l).subset hy

namespace Storage

/-- What is watched and still seems to exist. -/
def kept (source : Source κ) (faults : Faults κ) (s : Storage κ) : Finset Path :=
  (Dict.keys s.watched).filter fun p => source.pathExists faults p

theorem keys_retained (source : Source κ) (faults : Faults κ) (s : Storage κ) :
    Dict.keys (s.retained source faults) = s.kept source faults := by
  ext p
  rw [Dict.mem_keys, retained, Dict.mem_retain, kept, Finset.mem_filter, Dict.mem_keys, and_comm]

/-- The walk of a scan goes through: everything can be read, the sizes do not add up to too much,
and there are not too many entries when the last file or symlink has been met. -/
structure GoesThrough (source : Source κ) (faults : Faults κ) (s : Storage κ) : Prop where
  readable : ∃ node, source.root = some node ∧ node.Readable faults []
  size : sizeOf source.walk ≤ maxSizePerWatchableMount
  count : (∃ x ∈ source.walk, x.2.isDir = false) →
    (s.kept source faults ∪ paths (source.walk.rdropWhile fun x => x.2.isDir)).card ≤
      maxEntriesPerStorage

variable {source : Source κ} {faults : Faults κ} {s : Storage κ}

theorem scanRoot_ok_iff {size : Nat} {w : Walk} :
    scanRoot source faults (s.retained source faults) = (.ok size, w) ↔
      s.GoesThrough source faults ∧ size = sizeOf source.walk ∧
        w = source.walk.foldl Walk.record ⟨s.retained source faults, []⟩ := by
  unfold scanRoot
  match hroot : source.root with
  | none =>
    refine ⟨nofun, fun h => ?_⟩
    obtain ⟨node, hnode, _⟩ := h.1.readable
    rw [hroot] at hnode
    cases hnode
  | some node =>
    have hwalk : source.walk = node.walk [] := by
      rw [Source.walk, hroot]
      rfl
    have hscans := scanPath_scans faults [] node ⟨s.retained source faults, []⟩
    rw [← hwalk] at hscans
    have hcount := counted_iff ⟨s.retained source faults, []⟩ source.walk
    rw [keys_retained] at hcount
    constructor
    · intro heq
      have hsize := scanPath_size heq
      obtain ⟨hread, hc, rfl, rfl⟩ := hscans.2 _ _ heq
      exact ⟨⟨⟨node, hroot, hread⟩, hsize, hcount.mp hc⟩, rfl, rfl⟩
    · rintro ⟨h, rfl, rfl⟩
      obtain ⟨node', hnode, hread⟩ := h.readable
      rw [hroot] at hnode
      cases hnode
      exact hscans.1 hread (hcount.mpr h.count) h.size

/-- What the target is when the scan has taken away what no longer exists. -/
def cleared (source : Source κ) (faults : Faults κ) (s : Storage κ) : Target κ :=
  (s.removeList source faults).foldl Target.remove s.target

/-- The entries of the walk that are new or changed. -/
def updates (source : Source κ) (faults : Faults κ) (s : Storage κ) : List Path :=
  (source.walk.foldl Walk.record ⟨s.retained source faults, []⟩).updateList

theorem scan_of_goesThrough (h : s.GoesThrough source faults) :
    s.scan source faults = (.ok (s.updates source faults).length,
      ⟨Dict.puts (s.retained source faults) (source.walk.map fun x => (x.1, x.2.modified)),
        (s.updates source faults).foldl (Target.update source faults)
          (s.cleared source faults)⟩) := by
  have hwatched : (source.walk.foldl Walk.record ⟨s.retained source faults, []⟩).watched =
      Dict.puts (s.retained source faults) (source.walk.map fun x =>
        (x.1, x.2.modified)) := watched_foldl_record _ _
  rw [scan, scanRoot_ok_iff.mpr ⟨h, rfl, rfl⟩, ← hwatched]
  rfl

theorem scan_ok_iff : (∃ n s', s.scan source faults = (.ok n, s')) ↔
      s.GoesThrough source faults := by
  constructor
  · rintro ⟨n, s', heq⟩
    unfold scan at heq
    match hroot : scanRoot source faults (s.retained source faults) with
    | (.error e, w) =>
      simp only [hroot] at heq
      cases heq
    | (.ok size, w) => exact (scanRoot_ok_iff.mp hroot).1
  · intro h
    exact ⟨_, _, scan_of_goesThrough h⟩

end Storage

end Kata.Watcher
