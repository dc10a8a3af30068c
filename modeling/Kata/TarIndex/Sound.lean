import Mathlib.Algebra.Order.BigOperators.Group.Finset
import Kata.TarIndex.Records
import Kata.TarIndex.Walk

/-!
# Kata.TarIndex.Sound

What holds of the tree after the archive has been read, whatever its entries are: the fields of the
entries fit the records of the index, and every symlink has the length of its target and, if its
target stands in the header, the position of it there. The tree does not have the target itself;
`targets` follows which entry of the archive was the last to write each entry of the tree.
`archive_sound` is the result.
-/

namespace Kata.TarIndex

open Lib

/-! ## Targets -/

/-- The entry of the tree that an entry of the archive replaces. -/
def State.written (s : State) (f : TarEntry) : Option Nat :=
  match f.read, cleanPath f.path with
  | .entry _ _, some path => if Plain path then some (traversePath s.heap s.root path).2 else none
  | _, _ => none

def State.retarget (s : State) (f : TarEntry) (t : Nat → Option Bytes) : Nat → Option Bytes :=
  match s.written f with
  | some a => fun b => if b = a then f.linkName else t b
  | none => t

/-- For each entry of the tree the link name of the entry of the archive that was written there
last. -/
def targets : List TarEntry → State → (Nat → Option Bytes) → Nat → Option Bytes
  | [], _, t => t
  | f :: fs, s, t => targets fs (s.next f) (s.retarget f t)

def Archive.target (ar : Archive) : Nat → Option Bytes := targets ar.entries initial fun _ => none

/-! ## The format -/

/-- The header of the entry is in the archive, and its link name is in the field of 100 bytes at
157. -/
structure TarEntry.Genuine (contents : Bytes) (f : TarEntry) : Prop where
  header : f.rawHeaderPosition.toNat + 512 ≤ contents.length
  linkName : ∀ name, f.headerLinkName = some name → At contents (f.rawHeaderPosition.toNat + 157) name

def Archive.Genuine (ar : Archive) : Prop := ∀ f ∈ ar.entries, f.Genuine ar.contents

/-! ## Modes -/

theorem type_of_perm (m : Nat) {type : Nat} (ht : type &&& S_IFMT = type) :
    (m &&& 0x1ff ||| type) &&& S_IFMT = type := by
  have hperm : m &&& 0x1ff &&& S_IFMT = 0 := by
    rw [Nat.and_assoc]
    exact Nat.and_zero m
  rw [Nat.and_or_distrib_right, hperm, Nat.zero_or, ht]

theorem type_of_whiteOut (m : Nat) : (m &&& 0o7777 ||| S_IFCHR) &&& S_IFMT = S_IFCHR := by
  have hperm : m &&& 0o7777 &&& S_IFMT = 0 := by
    rw [Nat.and_assoc]
    exact Nat.and_zero m
  rw [Nat.and_or_distrib_right, hperm, Nat.zero_or]
  rfl

theorem and_or_lt {m mask type n : Nat} (hm : mask < 2 ^ n) (ht : type < 2 ^ n) : m &&& mask ||| type < 2 ^ n :=
  Nat.or_lt_two_pow (Nat.and_lt_two_pow m hm) ht

/-! ## Sound entries -/

/-- How many bytes of the string table the index expects for the target of an entry. -/
def Entry.weight (e : Entry) : Nat := if e.isSpecial then e.size else 0

structure Entry.Sound (contents : Bytes) (target : Option Bytes) (e : Entry) : Prop where
  mode : e.mode < 2 ^ 16
  owner : e.owner < 2 ^ 32
  group : e.group < 2 ^ 32
  ino : e.ino = 0
  emitted : e.emitted = false
  symlink : e.isType S_IFLNK = true → ∃ name, target = some name ∧ e.size = name.length ∧
    (e.offset ≠ 0 → e.offset ≤ contents.length ∧ At contents e.offset name)
  other : e.isType S_IFLNK = false → e.size < 2 ^ 64 ∧ e.offset < 2 ^ 64

section Entry

variable {contents : Bytes} {target : Option Bytes} {e e' : Entry} {f : TarEntry}

theorem eq_of_childless (he : e'.childless = e.childless) : e' = { e with children := e'.children } := by
  obtain ⟨offset, size, children, mode, ino, emitted, isOpaque, mtime, owner, group⟩ := e
  obtain ⟨offset', size', children', mode', ino', emitted', isOpaque', mtime', owner', group'⟩ := e'
  cases he
  rfl

/-- Being sound is not about the children. -/
theorem Entry.Sound.of_childless (h : e.Sound contents target) (he : e'.childless = e.childless) :
    e'.Sound contents target := by
  rw [eq_of_childless he]
  exact ⟨h.mode, h.owner, h.group, h.ino, h.emitted, h.symlink, h.other⟩

theorem weight_of_childless (he : e'.childless = e.childless) : e'.weight = e.weight := by
  rw [eq_of_childless he]
  rfl

theorem default_sound : (default : Entry).Sound contents target :=
  ⟨by decide, by decide, by decide, rfl, rfl, fun h => absurd h (by decide), fun _ => by decide⟩

theorem Mark.sound {mark : Entry → Entry} (hm : Mark mark) (h : e.Sound contents target) :
    (mark e).Sound contents target := by
  cases hm with
  | setOpaque => exact ⟨h.mode, h.owner, h.group, h.ino, h.emitted, h.symlink, h.other⟩
  | whiteOut =>
    refine ⟨and_or_lt (by decide) (by decide), h.owner, h.group, h.ino, h.emitted, fun htype => ?_,
      fun _ => ⟨Nat.two_pow_pos 64, Nat.two_pow_pos 64⟩⟩
    have htype := of_decide_eq_true htype
    rw [type_of_whiteOut] at htype
    exact absurd htype (by decide)

theorem Mark.weight_le {mark : Entry → Entry} (hm : Mark mark) (e : Entry) : (mark e).weight ≤ e.weight := by
  cases hm with
  | setOpaque => exact Nat.le_refl _
  | whiteOut =>
    unfold Entry.weight
    split <;> exact Nat.zero_le _

theorem entry_sound {mode size offset : Nat} (hmode : mode < 2 ^ 16)
    (hsymlink : mode &&& S_IFMT = S_IFLNK → ∃ name, target = some name ∧ size = name.length ∧
      (offset ≠ 0 → offset ≤ contents.length ∧ At contents offset name))
    (hother : mode &&& S_IFMT ≠ S_IFLNK → size < 2 ^ 64 ∧ offset < 2 ^ 64) :
    (f.entry mode size offset).Sound contents target :=
  ⟨hmode, Nat.mod_lt _ (by decide), Nat.mod_lt _ (by decide), rfl, rfl, fun h => hsymlink (of_decide_eq_true h),
    fun h => hother (of_decide_eq_false h)⟩

/-- What is read is sound, and only a name that was put aside has a weight. -/
structure TarEntry.Reads (contents : Bytes) (f : TarEntry) (special : Option Bytes) (e : Entry) : Prop where
  sound : e.Sound contents f.linkName
  weight : e.weight ≤ special.toList.flatten.length

/-- An entry of another type than a symlink. -/
theorem reads_plain {m type size offset : Nat} (ht : type &&& S_IFMT = type) (hlt : type < 2 ^ 16)
    (hne : type ≠ S_IFLNK) (hsize : size < 2 ^ 64) (hoffset : offset < 2 ^ 64) :
    f.Reads contents none (f.entry (m &&& 0x1ff ||| type) size offset) := by
  constructor
  · refine entry_sound (and_or_lt (by decide) hlt) (fun h => ?_) (fun _ => ⟨hsize, hoffset⟩)
    rw [type_of_perm m ht] at h
    exact absurd h hne
  · have hnot : (f.entry (m &&& 0x1ff ||| type) size offset).isType S_IFLNK = false := by
      refine decide_eq_false ?_
      show ¬ (m &&& 0x1ff ||| type) &&& S_IFMT = S_IFLNK
      rw [type_of_perm m ht]
      exact hne
    unfold Entry.weight Entry.isSpecial
    rw [hnot]
    exact Nat.le_refl 0

theorem device_lt (major minor : UInt32) : minor.toNat ||| major.toNat <<< 32 < 2 ^ 64 := by
  have hmajor := major.toNat_lt
  have hminor := minor.toNat_lt
  refine Nat.or_lt_two_pow (by omega) ?_
  rw [Nat.shiftLeft_eq]
  omega

variable {special : Option Bytes}

theorem reads_device {m type : Nat} (ht : type &&& S_IFMT = type) (hlt : type < 2 ^ 16) (hne : type ≠ S_IFLNK)
    (h : f.device (m &&& 0x1ff ||| type) = .entry special e) : f.Reads contents special e := by
  unfold TarEntry.device at h
  split at h
  · cases h
    exact reads_plain ht hlt hne (by decide) (device_lt _ _)
  · cases h

variable {m : Nat}

theorem reads_symlink (hf : f.Genuine contents) {name : Bytes} (hlink : f.linkName = some name)
    (h : (if f.headerLinkName.getD [] ≠ name then
        Read.entry (some name) (f.entry (m &&& 0x1ff ||| S_IFLNK) name.length 0)
      else .entry none (f.entry (m &&& 0x1ff ||| S_IFLNK) name.length (f.rawHeaderPosition.toNat + 157)))
        = .entry special e) : f.Reads contents special e := by
  have htype : (m &&& 0x1ff ||| S_IFLNK) &&& S_IFMT = S_IFLNK := type_of_perm m rfl
  have hlt : m &&& 0x1ff ||| S_IFLNK < 2 ^ 16 := and_or_lt (by decide) (by decide)
  by_cases hname : f.headerLinkName.getD [] ≠ name
  · rw [if_pos hname] at h
    cases h
    constructor
    · exact entry_sound hlt (fun _ => ⟨name, hlink, rfl, fun h => absurd rfl h⟩) fun h => absurd htype h
    · have hlen : (some name).toList.flatten.length = name.length := by simp
      rw [hlen]
      unfold Entry.weight
      split
      · exact Nat.le_refl _
      · exact Nat.zero_le _
  · rw [if_neg hname] at h
    cases h
    have hat : At contents (f.rawHeaderPosition.toNat + 157) name := by
      have hname := not_not.mp hname
      cases hh : f.headerLinkName with
      | none =>
        rw [hh] at hname
        rw [← hname]
        exact at_nil
      | some hn =>
        rw [hh] at hname
        exact hf.linkName name (hh.trans (congrArg some hname))
    have hheader := hf.header
    constructor
    · exact entry_sound hlt (fun _ => ⟨name, hlink, rfl, fun _ => ⟨by omega, hat⟩⟩) fun h => absurd htype h
    · have hnot : (f.entry (m &&& 0x1ff ||| S_IFLNK) name.length
          (f.rawHeaderPosition.toNat + 157)).isSpecial = false := by
        unfold Entry.isSpecial
        exact Bool.and_eq_false_imp.mpr fun _ => decide_eq_false (Nat.succ_ne_zero _)
      unfold Entry.weight
      rw [hnot]
      exact Nat.le_refl 0

theorem reads_of_read (hf : f.Genuine contents) (hread : f.read = .entry special e) : f.Reads contents special e := by
  unfold TarEntry.read at hread
  cases hmode : f.mode with
  | none =>
    rw [hmode] at hread
    cases hread
  | some m =>
    rw [hmode] at hread
    dsimp only at hread
    cases htype : f.type with
    | regular =>
      rw [htype] at hread
      cases hread
      exact reads_plain rfl (by decide) (by decide) f.size.toNat_lt f.rawFilePosition.toNat_lt
    | directory | fifo =>
      rw [htype] at hread
      cases hread
      exact reads_plain rfl (by decide) (by decide) (by decide) (by decide)
    | char | block =>
      rw [htype] at hread
      exact reads_device rfl (by decide) (by decide) hread
    | symlink =>
      rw [htype] at hread
      cases hlink : f.linkName with
      | none =>
        rw [hlink] at hread
        cases hread
      | some name =>
        rw [hlink] at hread
        exact reads_symlink hf hlink hread
    | link =>
      rw [htype] at hread
      dsimp only at hread
      split at hread <;> cases hread
    | other =>
      rw [htype] at hread
      cases hread

end Entry

/-! ## Sound states -/

structure State.Sound (contents : Bytes) (s : State) (t : Nat → Option Bytes) : Prop where
  wf : s.Wf
  entry : ∀ a, (s.heap.cells a).Sound contents (t a)
  /-- The string table has room for the targets, however many of them survive. -/
  weight : ∀ D : Finset Nat, ∑ a ∈ D, (s.heap.cells a).weight ≤ s.specialLink.flatten.length

theorem traversePath_childless {h : Heap} {a : Nat} (path : List Bytes) (hw : h.Wf) (ha : a < h.next) (b : Nat) :
    ((traversePath h a path).1.cells b).childless = (h.cells b).childless := by
  refine traversePath_induct (P := fun h' => (h'.cells b).childless = (h.cells b).childless) ?_ path hw ha rfl
  intro h' c name _ _ _ hb
  by_cases hbc : b = c
  · subst hbc
    rw [Heap.addChild_cells_self]
    exact hb
  · rw [Heap.addChild_cells_of_ne hbc]
    exact hb

section Step

variable {contents : Bytes} {s : State} {t : Nat → Option Bytes} {f : TarEntry}

theorem written_of_not_entry (h : ¬ f.read.IsEntry) : s.written f = none := by
  unfold State.written
  cases hread : f.read with
  | skip | hardlink linkName => rfl
  | entry special e =>
    rw [hread] at h
    exact absurd trivial h

theorem written_of_path_none (h : cleanPath f.path = none) : s.written f = none := by
  unfold State.written
  rw [h]
  cases f.read <;> rfl

theorem written_of_not_plain (h : ∀ path, cleanPath f.path = some path → ¬ Plain path) : s.written f = none := by
  unfold State.written
  cases hpath : cleanPath f.path with
  | none => cases f.read <;> rfl
  | some path =>
    cases f.read with
    | skip | hardlink linkName => rfl
    | entry special e => exact if_neg (h path hpath)

variable {path : List Bytes}

theorem written_of_plain {special : Option Bytes} {e : Entry} (hread : f.read = .entry special e)
    (hpath : cleanPath f.path = some path) (hp : Plain path) :
    s.written f = some (traversePath s.heap s.root path).2 := by
  unfold State.written
  rw [hread, hpath]
  exact if_pos hp

theorem retarget_of_none (h : s.written f = none) : s.retarget f t = t := by
  unfold State.retarget
  rw [h]

theorem retarget_of_some {a : Nat} (h : s.written f = some a) :
    s.retarget f t = fun b => if b = a then f.linkName else t b := by
  unfold State.retarget
  rw [h]

/-- Entries that differ in their children only. -/
theorem State.Sound.of_childless (hs : s.Sound contents t) {s' : State} (hw : s'.Wf)
    (hcells : ∀ a, (s'.heap.cells a).childless = (s.heap.cells a).childless)
    (hlink : s'.specialLink = s.specialLink) : s'.Sound contents t := by
  refine ⟨hw, fun a => (hs.entry a).of_childless (hcells a), fun D => ?_⟩
  rw [hlink, Finset.sum_congr rfl fun a _ => weight_of_childless (hcells a)]
  exact hs.weight D

theorem update_childless_of_ne {h : Heap} {root : Nat} (hw : h.Wf) (hroot : root < h.next)
    {edit : Entry → Entry} {b : Nat} (hb : b ≠ (traversePath h root path).2) :
    ((h.update root path edit).cells b).childless = (h.cells b).childless := by
  unfold Heap.update
  rw [Heap.set_cells_of_ne hb]
  exact traversePath_childless path hw hroot b

theorem update_cells_self {h : Heap} {root : Nat} {edit : Entry → Entry} :
    (h.update root path edit).cells (traversePath h root path).2
      = edit ((traversePath h root path).1.cells (traversePath h root path).2) :=
  Heap.set_cells_self _ _ _

theorem Links.not_isEntry {n : Bytes} {u : Nat} (h : Links s f path n u) : ¬ f.read.IsEntry := by
  obtain ⟨linkName, linkPath, hread, -, -⟩ := h.target
  rw [hread]
  exact id

theorem sum_le_of_replace {w w' : Nat → Nat} {b n k : Nat} (hw : ∀ D : Finset Nat, ∑ a ∈ D, w a ≤ n)
    (hne : ∀ a, a ≠ b → w' a ≤ w a) (hb : w' b ≤ k) (D : Finset Nat) : ∑ a ∈ D, w' a ≤ n + k := by
  by_cases hmem : b ∈ D
  · have hrest : ∑ a ∈ D.erase b, w' a ≤ ∑ a ∈ D.erase b, w a :=
      Finset.sum_le_sum fun a ha => hne a (Finset.ne_of_mem_erase ha)
    rw [← Finset.sum_erase_add D w' hmem]
    exact Nat.add_le_add (hrest.trans (hw _)) hb
  · have hrest : ∑ a ∈ D, w' a ≤ ∑ a ∈ D, w a := Finset.sum_le_sum fun a ha => hne a fun heq => hmem (heq ▸ ha)
    exact (hrest.trans (hw D)).trans (Nat.le_add_right n k)

theorem Changes.sound {s' : State} (h : Changes s f s') (hs : s.Sound contents t) (hf : f.Genuine contents) :
    s'.Sound contents (s.retarget f t) := by
  have hw := h.wf hs.wf
  cases h with
  | same hno =>
    rw [retarget_of_none (written_of_not_entry hno)]
    exact hs
  | added path hno =>
    rw [retarget_of_none (written_of_not_entry hno)]
    exact hs.of_childless hw (traversePath_childless path hs.wf.heap hs.wf.root) rfl
  | ignored special e hread hpath =>
    rw [retarget_of_none (written_of_path_none hpath)]
    refine ⟨hw, hs.entry, fun D => (hs.weight D).trans ?_⟩
    show _ ≤ (s.specialLink ++ special.toList).flatten.length
    rw [List.flatten_append, List.length_append]
    exact Nat.le_add_right _ _
  | replaced special e path hread hpath hp =>
    have hr := reads_of_read hf hread
    rw [retarget_of_some (written_of_plain hread hpath hp)]
    refine ⟨hw, fun a => ?_, fun D => ?_⟩
    · dsimp only
      by_cases ha : a = (traversePath s.heap s.root path).2
      · subst ha
        rw [if_pos rfl, update_cells_self]
        exact hr.sound.of_childless rfl
      · rw [if_neg ha]
        exact (hs.entry a).of_childless (update_childless_of_ne hs.wf.heap hs.wf.root ha)
    · dsimp only
      rw [List.flatten_append, List.length_append]
      refine sum_le_of_replace hs.weight (b := (traversePath s.heap s.root path).2) (fun a ha => ?_) ?_ D
      · exact Nat.le_of_eq (weight_of_childless (update_childless_of_ne hs.wf.heap hs.wf.root ha))
      · rw [update_cells_self]
        exact hr.weight
  | marked special e path mark hread hm hnot =>
    rw [retarget_of_none (written_of_not_plain hnot)]
    refine ⟨hw, fun a => ?_, fun D => ?_⟩
    · dsimp only
      by_cases ha : a = (traversePath s.heap s.root path).2
      · subst ha
        rw [update_cells_self]
        exact hm.sound ((hs.entry _).of_childless (traversePath_childless path hs.wf.heap hs.wf.root _))
      · exact (hs.entry a).of_childless (update_childless_of_ne hs.wf.heap hs.wf.root ha)
    · dsimp only
      rw [List.flatten_append, List.length_append]
      refine Nat.le_trans (Finset.sum_le_sum fun a _ => ?_) ((hs.weight D).trans (Nat.le_add_right _ _))
      by_cases ha : a = (traversePath s.heap s.root path).2
      · subst ha
        rw [update_cells_self]
        refine (hm.weight_le _).trans (Nat.le_of_eq ?_)
        exact weight_of_childless (traversePath_childless path hs.wf.heap hs.wf.root _)
      · exact Nat.le_of_eq (weight_of_childless (update_childless_of_ne hs.wf.heap hs.wf.root ha))
  | rooted path u hno hwalk hreg =>
    rw [retarget_of_none (written_of_not_entry hno)]
    exact ⟨hw, hs.entry, hs.weight⟩
  | linked path n u hl =>
    rw [retarget_of_none (written_of_not_entry hl.not_isEntry)]
    refine hs.of_childless hw (fun a => ?_) rfl
    dsimp only
    by_cases ha : a = (traversePath s.heap s.root path).2
    · subst ha
      rw [update_cells_self]
      exact traversePath_childless path hs.wf.heap hs.wf.root _
    · exact update_childless_of_ne hs.wf.heap hs.wf.root ha

end Step

theorem initial_sound (contents : Bytes) (t : Nat → Option Bytes) : initial.Sound contents t := by
  have hroot : (initial.heap.cells 0).Sound contents (t 0) :=
    ⟨by decide, by decide, by decide, rfl, rfl, fun h => absurd h (by decide), fun _ => by decide⟩
  refine ⟨initial_wf, fun a => ?_, fun D => ?_⟩
  · by_cases ha : a = 0
    · subst ha
      exact hroot
    · rw [initial_wf.heap.fresh a (Nat.one_le_iff_ne_zero.mpr ha)]
      exact default_sound
  · refine Nat.le_of_eq (Finset.sum_eq_zero fun a _ => ?_)
    by_cases ha : a = 0
    · subst ha
      rfl
    · rw [initial_wf.heap.fresh a (Nat.one_le_iff_ne_zero.mpr ha)]
      rfl

theorem targets_sound {contents : Bytes} (fs : List TarEntry) (hfs : ∀ f ∈ fs, f.Genuine contents) {s : State}
    {t : Nat → Option Bytes} (hs : s.Sound contents t) : (fs.foldl State.next s).Sound contents (targets fs s t) := by
  induction fs generalizing s t with
  | nil => exact hs
  | cons f fs ih =>
    obtain ⟨hf, hfs⟩ := List.forall_mem_cons.mp hfs
    exact ih hfs ((next_changes hs.wf f).sound hs hf)

theorem archive_sound {ar : Archive} (har : ar.Genuine) : ar.state.Sound ar.contents ar.target :=
  targets_sound ar.entries har (initial_sound ar.contents _)

end Kata.TarIndex
