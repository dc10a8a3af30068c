import Kata.Agent.WatchTarget
import Kata.Lib.Runs

/-!
# Kata.Agent.WatchSync

Runs of a watched storage: the source changes and is scanned, and a scan may fail at an entry that
it cannot read, take one that it cannot stat for gone, or fail to copy some of what it has noted.

`scans_sync`: if every scan of the run has, of what it notes as new or changed and does not copy,
the copy in the target already, and keeps the copies of what it still watches, then after every scan
that returned a count and copied everything the target is in sync with the source. A file that a
scan notes and does not copy counts as up to date from then on: a scan right after it that goes
through does not copy it either (`lost_file_stays`). So a scan that fails at the second of two files
loses the first (`second_unreadable`).
-/

namespace Kata.Watcher

open Lib

variable {κ : Type}

inductive Kind where
  | file
  | symlink
  | dir
deriving DecidableEq

def Copy.kind : Copy κ → Kind
  | .file _ => .file
  | .symlink _ => .symlink
  | .dir => .dir

theorem File.kind_copyOf (f : File κ) (c c' : κ) : (f.copyOf c).kind = (f.copyOf c').kind := by
  unfold File.copyOf
  cases f.symlink <;> rfl

theorem Copy.eq_dir {c : Copy κ} (h : c.kind = .dir) : c = .dir := by
  cases c with
  | file _ | symlink _ => cases h
  | dir => rfl

/-- Every path has its type. -/
def Source.Typed (kind : Path → Kind) (source : Source κ) :
    Prop := ∀ p e, (p, e) ∈ source.walk → e.copy.kind = kind p

namespace Storage

/-- What a scan notes as new or changed until its walk ends. -/
def noted (source : Source κ) (faults : Faults κ) (s : Storage κ) : List Path :=
  (scanRoot source faults (s.retained source faults)).2.updateList

end Storage

/-- A storage and its source. `latest` has the last version of each file and symlink, and `copied`
the paths that were copied; no scan reads them. `complete` says that the last step was a scan that
returned a count and copied everything. -/
structure State (κ : Type) where
  source : Source κ
  storage : Storage κ
  latest : Path → Option (Nat × Copy κ)
  copied : List Path
  complete : Bool

inductive Step (κ : Type) where
  | change (source : Source κ)
  | scan (faults : Faults κ)

/-- The versions of the files and symlinks of the source, over older ones. -/
def Source.versions (source : Source κ) (latest : Path → Option (Nat × Copy κ)) :
    Path → Option (Nat × Copy κ) := fun p =>
  match source.entry p with
  | some (.file f) => some (f.modified, f.copyOf f.content)
  | _ => latest p

namespace State

def next (s : State κ) : Step κ → State κ
  | .change source => { s with source := source, latest := source.versions s.latest, complete := false }
  | .scan faults =>
    let r := s.storage.scan s.source faults
    let made := (s.storage.noted s.source faults).filter fun p => (faults.copy p).isNone
    { s with
      storage := r.2
      copied := if r.1.isOk then s.copied ++ made else s.copied
      complete := r.1.isOk && (s.storage.noted s.source faults).all fun p =>
        (faults.copy p).isNone }

/-- A new storage. The target mount point is made for a directory. -/
def initial (source : Source κ) : State κ where
  source := source
  storage := ⟨∅, fun p => if p = [] then (source.entry []).bind fun e => if e.isDir then some .dir
    else none else none⟩
  latest := source.versions fun _ => none
  copied := []
  complete := false

/-- Everything in the source is in the target, and nothing that was copied and is gone. -/
structure InSync (s : State κ) : Prop where
  copied : ∀ p e, (p, e) ∈ s.source.walk → s.storage.target p = some e.copy
  gone : ∀ p ∈ s.copied, s.source.entry p = none → s.storage.target p = none

/-- The source changes as it may: no path changes its type, the time of a path does not go back, and
goes on with every change of its content, also where the path was gone in between. -/
def Allowed (kind : Path → Kind) (s : State κ) : Step κ → Prop
  | .change source =>
    source.Typed kind ∧ ∀ p f, (p, .file f) ∈ source.walk → ∀ m c, s.latest p = some (m, c) →
      m ≤ f.modified ∧ (c ≠ f.copyOf f.content → m < f.modified)
  | .scan _ => True

/-- What the target has at the path of an entry that a scan has noted is what the source has there,
though its copy may fail. -/
def Spared (s : State κ) (faults : Faults κ) (p : Path) : Entry κ → Prop
  | .file f => Target.leaves faults p f (s.storage.cleared s.source faults p) = some
    (f.copyOf f.content)
  | .dir _ => s.storage.cleared s.source faults p = some .dir ∨
      ∃ u ∈ s.storage.noted s.source faults, p <+: u ∧ p.length < reach s.source faults u

/-- The scan does not lose an entry that it notes: if its walk fails, the target has the entry
already, and if the walk goes through, its copy does not fail or the target has it in spite of that. -/
def SavesEntry (s : State κ) (faults : Faults κ) (p : Path) (e : Entry κ) : Prop :=
  (¬ s.storage.GoesThrough s.source faults → s.storage.cleared s.source faults p = some e.copy) ∧
    (s.storage.GoesThrough s.source faults → s.Spared faults p e)

def Saves (s : State κ) (faults : Faults κ) : Prop :=
  ∀ p e, p ∈ s.storage.noted s.source faults → (p, e) ∈ s.source.walk → s.SavesEntry faults p e

/-- What stays watched and is not noted keeps its copy. It would lose it with a directory above it
for which `Path::exists` fails, because that is taken away from the target with all that is in it. -/
def Keeps (s : State κ) (faults : Faults κ) : Prop :=
  ∀ p ∈ s.storage.retained s.source faults, p ∉ s.storage.noted s.source faults →
    s.storage.cleared s.source faults p = s.storage.target p

def Careful (kind : Path → Kind) (s : State κ) (a : Step κ) : Prop :=
  s.Allowed kind a ∧ ∀ faults, a = .scan faults → s.Saves faults ∧ s.Keeps faults

end State

theorem State.saves_of_copies (s : State κ) {faults : Faults κ}
    (hgo : s.storage.GoesThrough s.source faults)
    (hcopy : ∀ p ∈ s.storage.noted s.source faults, faults.copy p = none) : s.Saves faults := by
  intro p e hn hp
  refine ⟨fun hno => absurd hgo hno, fun _ => ?_⟩
  cases e with
  | file f =>
    unfold State.Spared Target.leaves
    rw [hcopy p hn]
  | dir m =>
    refine .inr ⟨p, hn, List.prefix_rfl, ?_⟩
    unfold reach
    rw [Source.entry_of_mem hp, hcopy p hn]
    exact Nat.lt_succ_self _

/-- Nothing is lost if there is nothing below a path for which `Path::exists` fails. -/
theorem State.keeps_of_stat (s : State κ) {faults : Faults κ}
    (hthrough : ∀ p, s.source.through p = none)
    (hstat : ∀ q p e, faults.stat q = true → (p, e) ∈ s.source.walk → q <+: p → q = p) :
    s.Keeps faults := by
  intro p hp _
  obtain ⟨hok, hleads⟩ := Source.pathExists_iff.mp (Dict.mem_retain.mp hp).1
  cases hentry : s.source.entry p with
  | none =>
    rw [Source.leadsAt, hentry, hthrough p] at hleads
    cases hleads
  | some e =>
    have hmem := Source.mem_of_entry hentry
    rw [Source.leadsAt_of_mem hmem] at hleads
    refine Storage.cleared_of_leads hmem hleads fun q hq => Bool.eq_false_of_not_eq_true
      fun hfails => ?_
    rw [hstat q p e hfails hmem hq, hok] at hfails
    cases hfails

/-! ## One scan -/

/-- What a scan has done, with the entries `met` that it has recorded. -/
structure Scanned (source : Source κ) (faults : Faults κ) (s : Storage κ)
    (met : List (Path × Entry κ)) : Prop where
  met_walk : met <+: source.walk
  watched : (s.scan source faults).2.watched = Dict.puts (s.retained source faults)
    (met.map fun x => (x.1, x.2.modified))
  noted : ∀ p, p ∈ s.noted source faults ↔ ∃ e, (p, e) ∈ met ∧ Fresh (s.retained source faults) p e
  fails : ¬ s.GoesThrough source faults → (s.scan source faults).2.target = s.cleared source faults
  passes : s.GoesThrough source faults → met = source.walk ∧ (s.scan source faults).2.target =
    (s.noted source faults).foldl (Target.update source faults) (s.cleared source faults)

namespace Storage

variable {source : Source κ} {faults : Faults κ} {s : Storage κ} {p : Path} {e : Entry κ}

theorem scan_isOk : (s.scan source faults).1.isOk = true ↔ s.GoesThrough source faults := by
  rw [← scan_ok_iff]
  match s.scan source faults with
  | (.ok n, s') => exact ⟨fun _ => ⟨n, s', rfl⟩, fun _ => rfl⟩
  | (.error e, s') =>
    refine ⟨nofun, ?_⟩
    rintro ⟨n, s'', heq⟩
    cases heq

theorem exists_scanned (source : Source κ) (faults : Faults κ) (s : Storage κ) :
    ∃ met, Scanned source faults s met := by
  have hmem : ∀ {met : List (Path × Entry κ)}, met <+: source.walk → ∀ p,
      p ∈ (met.foldl Walk.record ⟨s.retained source faults, []⟩).updateList ↔
        ∃ e, (p, e) ∈ met ∧ Fresh (s.retained source faults) p e := by
    intro met hmet p
    rw [mem_updateList ((hmet.map Prod.fst).sublist.nodup source.nodup_walk)]
    exact or_iff_right List.not_mem_nil
  by_cases hgo : s.GoesThrough source faults
  · have hroot := scanRoot_ok_iff.mpr ⟨hgo, rfl, rfl⟩
    have hnoted : s.noted source faults = s.updates source faults := by
      rw [noted, hroot]
      rfl
    refine ⟨source.walk, List.prefix_rfl, ?_, ?_, fun h => absurd hgo h, fun _ => ⟨rfl, ?_⟩⟩
    · rw [scan_of_goesThrough hgo]
    · rw [hnoted]
      exact hmem List.prefix_rfl
    · rw [scan_of_goesThrough hgo, hnoted]
  · obtain ⟨met, hmet, hw⟩ := scanRoot_recorded source faults (s.retained source faults)
    match hroot : scanRoot source faults (s.retained source faults) with
    | (.ok size, w) => exact absurd (scanRoot_ok_iff.mp hroot).1 hgo
    | (.error e, w) =>
      rw [hroot] at hw
      simp only at hw
      have hscan : s.scan source faults = (.error e, ⟨w.watched, s.cleared source faults⟩) := by
        unfold scan
        simp only [hroot]
        rfl
      refine ⟨met, hmet, ?_, ?_, fun _ => ?_, fun h => absurd h hgo⟩
      · rw [hscan, hw]
        exact watched_foldl_record _ _
      · rw [noted, hroot, hw]
        exact hmem hmet
      · rw [hscan]

end Storage

namespace Scanned

variable {source : Source κ} {faults : Faults κ} {s : Storage κ} {met : List (Path × Entry κ)}
  {p : Path} {e : Entry κ}

section

variable (h : Scanned source faults s met)
include h

theorem nodup : (met.map Prod.fst).Nodup :=
  (h.met_walk.map Prod.fst).sublist.nodup source.nodup_walk

theorem mem_walk (hp : p ∈ s.noted source faults) : ∃ e, (p, e) ∈ source.walk := by
  obtain ⟨e, he, _⟩ := (h.noted p).mp hp
  exact ⟨e, h.met_walk.subset he⟩

theorem mem_watched : p ∈ (s.scan source faults).2.watched ↔ p ∈ s.retained source faults ∨ ∃ e,
      (p, e) ∈ met := by
  rw [h.watched, Dict.mem_puts, List.map_map]
  refine or_congr_right ?_
  constructor
  · intro hp
    obtain ⟨⟨_, e⟩, he, rfl⟩ := List.mem_map.mp hp
    exact ⟨e, he⟩
  · rintro ⟨e, he⟩
    exact List.mem_map.mpr ⟨(p, e), he, rfl⟩

theorem lookup_of_met (hp : (p, e) ∈ met) :
    (s.scan source faults).2.watched.lookup p = some e.modified := by
  rw [h.watched]
  refine Dict.lookup_puts_of_mem ?_ (List.mem_map.mpr ⟨(p, e), hp, rfl⟩)
  rw [List.map_map]
  exact h.nodup

theorem lookup_of_not_met (hp : ∀ e, (p, e) ∉ met) :
    (s.scan source faults).2.watched.lookup p = (s.retained source faults).lookup p := by
  rw [h.watched]
  refine Dict.lookup_puts_of_notMem fun hmem => ?_
  rw [List.map_map] at hmem
  obtain ⟨⟨_, e⟩, he, rfl⟩ := List.mem_map.mp hmem
  exact hp e he

/-- An entry that was met and not noted was watched, and is not newer than recorded. -/
theorem kept_of_not_noted (hp : (p, e) ∈ met) (hn : p ∉ s.noted source faults) :
    ∃ old, (s.retained source faults).lookup p = some old ∧
      (e.isDir = false → e.modified ≤ old) := by
  by_contra hnone
  refine hn ((h.noted p).mpr ⟨e, hp, fun old hold => ?_⟩)
  by_contra hfresh
  refine hnone ⟨old, hold, fun hd => ?_⟩
  exact Nat.not_lt.mp fun hlt => hfresh ⟨hd, hlt⟩

theorem target_file {f : File κ} (hgo : s.GoesThrough source faults)
    (hp : (p, .file f) ∈ source.walk) : (s.scan source faults).2.target p =
      if p ∈ s.noted source faults then Target.leaves faults p f (s.cleared source faults p)
        else s.cleared source faults p := by
  rw [(h.passes hgo).2]
  exact Target.updates_file hp (fun u hu => h.mem_walk hu) _

theorem target_dir (hgo : s.GoesThrough source faults) (hp : ∀ f, (p, .file f) ∉ source.walk) :
    (s.scan source faults).2.target p =
      if ∃ u ∈ s.noted source faults, p <+: u ∧ p.length < reach source faults u
      then some ((s.cleared source faults p).getD .dir) else s.cleared source faults p := by
  rw [(h.passes hgo).2]
  exact Target.updates_dir hp _ _

theorem target_of_not_mem (hp : ∀ e, (p, e) ∉ source.walk) :
    (s.scan source faults).2.target p = s.cleared source faults p := by
  by_cases hgo : s.GoesThrough source faults
  · rw [h.target_dir hgo fun f => hp _]
    refine if_neg ?_
    rintro ⟨u, hu, hpre, _⟩
    obtain ⟨e, he⟩ := h.mem_walk hu
    by_cases heq : p = u
    · subst heq
      exact hp e he
    · obtain ⟨m, hm⟩ := Source.dir_of_above he hpre heq
      exact hp _ hm
  · rw [h.fails hgo]

end

end Scanned

/-! ## What the watched files promise -/

/-- The watched files tell the truth about the target: where the recorded time is that of the last
version, the target has that version. -/
structure Truthful (kind : Path → Kind) (s : State κ) : Prop where
  typed : s.source.Typed kind
  versions : ∀ p f, (p, .file f) ∈ s.source.walk → s.latest p = some
    (f.modified, f.copyOf f.content)
  kinds : ∀ p c, s.storage.target p = some c → c.kind = kind p
  files : ∀ p m, s.storage.watched.lookup p = some m → kind p ≠ .dir →
    ∃ m' c, s.latest p = some (m', c) ∧ m ≤ m' ∧ (m = m' → s.storage.target p = some c)
  dirs : ∀ p, p ∈ s.storage.watched → kind p = .dir → s.storage.target p = some .dir
  above : ∀ p q, p ∈ s.storage.watched → q <+: p → q ≠ p → kind q = .dir
  copied : ∀ p ∈ s.copied, p ≠ [] → s.storage.target p ≠ none → p ∈ s.storage.watched

namespace Source.Typed

variable {kind : Path → Kind} {source : Source κ} {p q : Path} {e : Entry κ} {f : File κ} {m : Nat}

theorem kind_file (h : source.Typed kind) (hp : (p, .file f) ∈ source.walk) (c : κ) :
    (f.copyOf c).kind = kind p :=
  (f.kind_copyOf c f.content).trans (h p _ hp)

theorem kind_file_ne (h : source.Typed kind) (hp : (p, .file f) ∈ source.walk) : kind p ≠ .dir := by
  rw [← h.kind_file hp f.content]
  unfold File.copyOf
  cases f.symlink <;> nofun

theorem kind_dir (h : source.Typed kind) (hp : (p, .dir m) ∈ source.walk) :
    kind p = .dir := (h p _ hp).symm

theorem kind_above (h : source.Typed kind) (hp : (p, e) ∈ source.walk) (hq : q <+: p)
    (hne : q ≠ p) : kind q = .dir := by
  obtain ⟨m, hm⟩ := Source.dir_of_above hp hq hne
  exact h.kind_dir hm

end Source.Typed

theorem Source.versions_of_mem {source : Source κ} {latest : Path → Option (Nat × Copy κ)}
    {p : Path} {f : File κ}
    (h : (p, .file f) ∈ source.walk) :
    source.versions latest p = some (f.modified, f.copyOf f.content) := by
  unfold versions
  rw [Source.entry_of_mem h]

theorem Source.versions_eq (source : Source κ) (latest : Path → Option (Nat × Copy κ)) (p : Path) :
    (∃ f, (p, .file f) ∈ source.walk) ∨ source.versions latest p = latest p := by
  unfold versions
  match hentry : source.entry p with
  | some (.file f) => exact .inl ⟨f, Source.mem_of_entry hentry⟩
  | some (.dir m) | none => exact .inr rfl

namespace Truthful

variable {kind : Path → Kind} {s : State κ} {faults : Faults κ} {p : Path} {e : Entry κ}

theorem initial {source : Source κ} (h : source.Typed kind) :
    Truthful kind (State.initial source) where
  typed := h
  versions p f hp := by
    show source.versions (fun _ => none) p = _
    exact Source.versions_of_mem hp
  kinds p c hc := by
    simp only [State.initial] at hc
    split at hc
    case isFalse => cases hc
    case isTrue hp =>
      obtain ⟨e, he, hdir⟩ := Option.bind_eq_some_iff.mp hc
      cases e with
      | file f => cases hdir
      | dir m =>
        cases hdir
        rw [hp]
        exact h _ _ (Source.mem_of_entry he)
  files p m hm := nomatch hm
  dirs p hp := absurd hp (AList.notMem_empty p)
  above p q hp := absurd hp (AList.notMem_empty p)
  copied p hp := nomatch hp

theorem change (h : Truthful kind s) {source : Source κ} (ha : s.Allowed kind (.change source)) :
    Truthful kind (s.next (.change source)) where
  typed := ha.1
  versions p f hp := Source.versions_of_mem hp
  kinds := h.kinds
  files p m hm hkind := by
    obtain ⟨m', c, hlatest, hle, htarget⟩ := h.files p m hm hkind
    rcases source.versions_eq s.latest p with ⟨f, hf⟩ | heq
    · -- the new version is not older, and newer if the content has changed
      obtain ⟨hm', hc⟩ := ha.2 p f hf m' c hlatest
      refine ⟨f.modified, f.copyOf f.content, Source.versions_of_mem hf, hle.trans hm', fun hsame =>
        ?_⟩
      have heq : m = m' := by omega
      by_cases hcontent : c = f.copyOf f.content
      · rw [← hcontent]
        exact htarget heq
      · have := hc hcontent
        omega
    · exact ⟨m', c, heq.trans hlatest, hle, htarget⟩
  dirs := h.dirs
  above := h.above
  copied := h.copied

/-- What is watched and exists is in the tree: nothing above it has become a symlink. -/
theorem mem_of_exists (h : Truthful kind s) (hp : p ∈ s.storage.watched)
    (hex : s.source.leadsAt p = true) : ∃ e, (p, e) ∈ s.source.walk := by
  cases hentry : s.source.entry p with
  | some e =>
    have hmem := Source.mem_of_entry hentry
    exact ⟨e, hmem⟩
  | none =>
    rw [Source.leadsAt, hentry] at hex
    obtain ⟨q, f, hq, hsym, hpre, hne⟩ := s.source.through_symlink p hex
    exact absurd (h.above p q hp hpre hne) (h.typed.kind_file_ne hq)

theorem mem_retained (h : Truthful kind s) (hp : p ∈ s.storage.retained s.source faults) :
    p ∈ s.storage.watched ∧ ∃ e, (p, e) ∈ s.source.walk := by
  obtain ⟨hex, hw⟩ := Dict.mem_retain.mp hp
  exact ⟨hw, h.mem_of_exists hw (Source.pathExists_iff.mp hex).2⟩

theorem lookup_retained {m : Nat} (hm : (s.storage.retained s.source faults).lookup p = some m) :
    p ∈ s.storage.retained s.source faults ∧ s.storage.watched.lookup p = some m := by
  refine ⟨AList.lookup_isSome.mp (by rw [hm]; rfl), ?_⟩
  rw [Storage.retained, Dict.lookup_retain] at hm
  split at hm
  · exact hm
  · cases hm

/-- What was watched and is not newer than recorded is in the target. -/
theorem cleared_of_old (h : Truthful kind s) (hkeeps : s.Keeps faults) (hp : (p, e) ∈ s.source.walk)
    (hn : p ∉ s.storage.noted s.source faults) {old : Nat}
    (hold : (s.storage.retained s.source faults).lookup p = some old)
    (hle : e.isDir = false → e.modified ≤ old) :
    s.storage.cleared s.source faults p = some e.copy := by
  obtain ⟨hmem, hlookup⟩ := lookup_retained hold
  rw [hkeeps p hmem hn]
  cases e with
  | dir m => exact h.dirs p (h.mem_retained hmem).1 (h.typed.kind_dir hp)
  | file f =>
    obtain ⟨m', c, hlatest, hm', htarget⟩ := h.files p old hlookup (h.typed.kind_file_ne hp)
    rw [h.versions p f hp] at hlatest
    cases hlatest
    exact htarget (Nat.le_antisymm hm' (hle rfl))

theorem kind_cleared (h : Truthful kind s) {c : Copy κ}
    (hc : s.storage.cleared s.source faults p = some c) : c.kind = kind p := by
  rcases Storage.cleared_eq s.source faults s.storage p with heq | heq
  · rw [heq] at hc
    cases hc
  · exact h.kinds p c (heq.symm.trans hc)

theorem getD_cleared (h : Truthful kind s) (hp : kind p = .dir) :
    (s.storage.cleared s.source faults p).getD .dir = .dir := by
  cases hc : s.storage.cleared s.source faults p with
  | none => rfl
  | some c => exact Copy.eq_dir ((h.kind_cleared hc).trans hp)

variable {met : List (Path × Entry κ)}

section

variable (h : Truthful kind s)
include h

section Scanned

variable (hscan : Scanned s.source faults s.storage met)
include hscan

/-- After a scan that saves what it notes, the target has every entry that was met. -/
theorem target_of_met (hsaves : s.Saves faults)
    (hkeeps : s.Keeps faults) (hp : (p, e) ∈ met) :
    (s.storage.scan s.source faults).2.target p = some e.copy := by
  have hwalk := hscan.met_walk.subset hp
  have hcleared : p ∉ s.storage.noted s.source faults → s.storage.cleared s.source faults p =
      some e.copy := by
    intro hn
    obtain ⟨old, hold, hle⟩ := hscan.kept_of_not_noted hp hn
    exact h.cleared_of_old hkeeps hwalk hn hold hle
  by_cases hgo : s.storage.GoesThrough s.source faults
  · cases e with
    | file f =>
      rw [hscan.target_file hgo hwalk]
      split
      case isTrue hn => exact (hsaves p _ hn hwalk).2 hgo
      case isFalse hn => exact hcleared hn
    | dir m =>
      have hnofile : ∀ f, (p, Entry.file f) ∉ s.source.walk := fun f hf =>
        nomatch Source.eq_of_mem hf hwalk
      rw [hscan.target_dir hgo hnofile]
      split
      case isTrue hu => rw [h.getD_cleared (h.typed.kind_dir hwalk), Entry.copy]
      case isFalse hu =>
        by_cases hn : p ∈ s.storage.noted s.source faults
        · exact ((hsaves p _ hn hwalk).2 hgo).resolve_right hu
        · exact hcleared hn
  · rw [hscan.fails hgo]
    by_cases hn : p ∈ s.storage.noted s.source faults
    · exact (hsaves p e hn hwalk).1 hgo
    · exact hcleared hn

/-- What a scan does not meet and keeps, it leaves as it is. -/
theorem target_of_not_met (hkeeps : s.Keeps faults)
    (hp : p ∈ s.storage.retained s.source faults) (hmet : ∀ e, (p, e) ∉ met) :
    (s.storage.scan s.source faults).2.target p = s.storage.target p := by
  by_cases hgo : s.storage.GoesThrough s.source faults
  · obtain ⟨_, e, he⟩ := h.mem_retained hp
    rw [(hscan.passes hgo).1] at hmet
    exact absurd he (hmet e)
  · rw [hscan.fails hgo]
    refine hkeeps p hp fun hn => ?_
    obtain ⟨e, he, _⟩ := (hscan.noted p).mp hn
    exact hmet e he

theorem kinds_scan
    {c : Copy κ} (hc : (s.storage.scan s.source faults).2.target p = some c) : c.kind = kind p := by
  by_cases hgo : s.storage.GoesThrough s.source faults
  · by_cases hfile : ∃ f, (p, Entry.file f) ∈ s.source.walk
    · obtain ⟨f, hf⟩ := hfile
      rw [hscan.target_file hgo hf] at hc
      split at hc
      case isFalse => exact h.kind_cleared hc
      case isTrue =>
        unfold Target.leaves at hc
        split at hc
        case h_1 =>
          cases hc
          exact h.typed.kind_file hf _
        case h_2 failed _ =>
          cases hleft : failed.left with
          | none =>
            rw [hleft] at hc
            exact h.kind_cleared hc
          | some left =>
            rw [hleft] at hc
            obtain ⟨content, _, rfl⟩ := Option.map_eq_some_iff.mp hc
            exact h.typed.kind_file hf content
    · rw [hscan.target_dir hgo fun f hf => hfile ⟨f, hf⟩] at hc
      split at hc
      case isFalse => exact h.kind_cleared hc
      case isTrue hu =>
        -- a directory is only made on the path of an entry of the walk
        obtain ⟨u, hu, hpre, hlen⟩ := hu
        obtain ⟨e, he⟩ := hscan.mem_walk hu
        have hdir : kind p = .dir := by
          by_cases heq : p = u
          · subst heq
            cases e with
            | file f => exact absurd ⟨f, he⟩ hfile
            | dir m => exact h.typed.kind_dir he
          · exact h.typed.kind_above he hpre heq
        rw [h.getD_cleared hdir] at hc
        cases hc
        exact hdir.symm
  · rw [hscan.fails hgo] at hc
    exact h.kind_cleared hc

theorem copied_scan
    (hp : p ∈ (s.next (.scan faults)).copied) (hne : p ≠ [])
    (htarget : (s.storage.scan s.source faults).2.target p ≠ none) :
    p ∈ (s.storage.scan s.source faults).2.watched := by
  rw [hscan.mem_watched]
  by_cases hwalk : ∃ e, (p, e) ∈ met
  · exact .inr hwalk
  · -- such a path was not copied now, and not removed
    left
    have hold : p ∈ s.copied := by
      simp only [State.next] at hp
      split at hp
      case isFalse => exact hp
      case isTrue hok =>
        rcases List.mem_append.mp hp with hp | hp
        · exact hp
        · obtain ⟨e, he, _⟩ := (hscan.noted p).mp (List.mem_of_mem_filter hp)
          exact absurd ⟨e, he⟩ hwalk
    have hcleared : (s.storage.scan s.source faults).2.target p = s.storage.cleared s.source faults
        p := by
      by_cases hgo : s.storage.GoesThrough s.source faults
      · refine hscan.target_of_not_mem fun e he => hwalk ⟨e, ?_⟩
        rw [(hscan.passes hgo).1]
        exact he
      · rw [hscan.fails hgo]
    rw [hcleared] at htarget
    have hw : p ∈ s.storage.watched := by
      refine h.copied p hold hne fun hnone => htarget ?_
      rcases Storage.cleared_eq s.source faults s.storage p with heq | heq
      · exact heq
      · exact heq.trans hnone
    refine Dict.mem_retain.mpr ⟨?_, hw⟩
    by_contra hgone
    exact htarget (Storage.cleared_of_removed hw (Bool.eq_false_iff.mpr hgone) hne)

end Scanned

theorem scan (hsaves : s.Saves faults) (hkeeps : s.Keeps faults) :
    Truthful kind (s.next (.scan faults)) := by
  obtain ⟨met, hscan⟩ := Storage.exists_scanned s.source faults s.storage
  refine ⟨h.typed, h.versions, ?_, ?_, ?_, ?_, ?_⟩
  · intro p c hc
    exact h.kinds_scan hscan hc
  · intro p m hm hkind
    by_cases hmet : ∃ e, (p, e) ∈ met
    · obtain ⟨e, he⟩ := hmet
      have hwalk := hscan.met_walk.subset he
      cases e with
      | dir m' => exact absurd (h.typed.kind_dir hwalk) hkind
      | file f =>
        have hsame : m = f.modified := Option.some.inj (hm.symm.trans (hscan.lookup_of_met he))
        exact ⟨f.modified, f.copyOf f.content, h.versions p f hwalk, hsame.le, fun _ =>
          h.target_of_met hscan hsaves hkeeps he⟩
    · have hnot : ∀ e, (p, e) ∉ met := fun e he => hmet ⟨e, he⟩
      obtain ⟨hret, hlookup⟩ := lookup_retained ((hscan.lookup_of_not_met hnot).symm.trans hm)
      obtain ⟨m', c, hlatest, hle, htarget⟩ := h.files p m hlookup hkind
      exact ⟨m', c, hlatest, hle, fun heq => (h.target_of_not_met hscan hkeeps hret hnot).trans
        (htarget heq)⟩
  · intro p hp hkind
    by_cases hmet : ∃ e, (p, e) ∈ met
    · obtain ⟨e, he⟩ := hmet
      have hwalk := hscan.met_walk.subset he
      cases e with
      | dir m' => exact h.target_of_met hscan hsaves hkeeps he
      | file f => exact absurd hkind (h.typed.kind_file_ne hwalk)
    · have hret := (hscan.mem_watched.mp hp).resolve_right hmet
      have hnot : ∀ e, (p, e) ∉ met := fun e he => hmet ⟨e, he⟩
      exact (h.target_of_not_met hscan hkeeps hret hnot).trans
        (h.dirs p (h.mem_retained hret).1 hkind)
  · intro p q hp hq hne
    rcases hscan.mem_watched.mp hp with hret | ⟨e, he⟩
    · exact h.above p q (h.mem_retained hret).1 hq hne
    · exact h.typed.kind_above (hscan.met_walk.subset he) hq hne
  · intro p hp hne htarget
    exact h.copied_scan hscan hp hne htarget

theorem inSync_scan (hkeeps : s.Keeps faults) (hgo : s.storage.GoesThrough s.source faults)
    (hcopy : ∀ p ∈ s.storage.noted s.source faults, faults.copy p = none) :
    (s.next (.scan faults)).InSync := by
  obtain ⟨met, hscan⟩ := Storage.exists_scanned s.source faults s.storage
  have hsaves : s.Saves faults := s.saves_of_copies hgo hcopy
  refine ⟨?_, ?_⟩
  · intro p e hp
    refine h.target_of_met hscan hsaves hkeeps ?_
    rw [(hscan.passes hgo).1]
    exact hp
  · intro p hp hgone
    have hnot : ∀ e, (p, e) ∉ s.source.walk := by
      intro e he
      rw [State.next] at hgone
      rw [Source.entry_of_mem he] at hgone
      cases hgone
    have hne : p ≠ [] := by
      rintro rfl
      obtain ⟨node, hroot, _⟩ := hgo.readable
      have hwalk : s.source.walk = node.walk [] := by
        rw [Source.walk, hroot]
        rfl
      rw [hwalk] at hnot
      cases node with
      | file f | dir m entries => exact hnot _ List.mem_cons_self
    by_contra htarget
    -- what is still there is watched, and what is watched and gone was removed
    rcases hscan.mem_watched.mp (h.copied_scan hscan hp hne htarget) with hret | ⟨e, he⟩
    · obtain ⟨_, e, he⟩ := h.mem_retained hret
      exact hnot e he
    · exact hnot e (hscan.met_walk.subset he)

end

end Truthful

namespace State

variable {s : State κ} {faults : Faults κ} {p : Path} {f : File κ}

theorem complete_scan : (s.next (.scan faults)).complete = true ↔ s.storage.GoesThrough s.source
    faults ∧ ∀ p ∈ s.storage.noted s.source faults, faults.copy p = none := by
  rw [next, Bool.and_eq_true, Storage.scan_isOk, List.all_eq_true]
  refine and_congr_right fun _ => forall₂_congr fun p _ => ?_
  exact Option.isNone_iff_eq_none

theorem target_of_lost (hp : (p, .file f) ∈ s.source.walk)
    (hn : p ∈ s.storage.noted s.source faults) (hlost : ¬ s.SavesEntry faults p (.file f)) :
    (s.storage.scan s.source faults).2.target p ≠ some (f.copyOf f.content) := by
  obtain ⟨met, hscan⟩ := Storage.exists_scanned s.source faults s.storage
  intro heq
  refine hlost ⟨fun hgo => ?_, fun hgo => ?_⟩
  · rw [hscan.fails hgo] at heq
    exact heq
  · rw [hscan.target_file hgo hp, if_pos hn] at heq
    exact heq

/-- A file that a scan notes and loses is not in the target after a scan that goes through right
after it either. -/
theorem lost_file_stays (hp : (p, .file f) ∈ s.source.walk) (hleads : (Entry.file f).leads = true)
    (hn : p ∈ s.storage.noted s.source faults) (hlost : ¬ s.SavesEntry faults p (.file f))
    {faults' : Faults κ}
    (hstat : faults'.stat p = false)
    (hgo : (s.storage.scan s.source faults).2.GoesThrough s.source faults') :
    ¬ ((s.next (.scan faults)).next (.scan faults')).InSync := by
  obtain ⟨met, hscan⟩ := Storage.exists_scanned s.source faults s.storage
  obtain ⟨met', hscan'⟩ := Storage.exists_scanned s.source faults'
    (s.storage.scan s.source faults).2
  intro hsync
  have hmet : (p, Entry.file f) ∈ met := by
    obtain ⟨e, he, _⟩ := (hscan.noted p).mp hn
    cases Source.eq_of_mem hp (hscan.met_walk.subset he)
    exact he
  have hexists : s.source.pathExists faults' p = true :=
    Source.pathExists_iff.mpr ⟨hstat, (Source.leadsAt_of_mem hp).trans hleads⟩
  -- the recorded time is that of the source, so that the file is not noted again
  have hlookup : ((s.storage.scan s.source faults).2.retained s.source faults').lookup p =
      some f.modified := by
    rw [Storage.retained, Dict.lookup_retain, hexists, if_pos rfl]
    exact hscan.lookup_of_met hmet
  have hnot : p ∉ (s.storage.scan s.source faults).2.noted s.source faults' := by
    intro hmem
    obtain ⟨e, he, hfresh⟩ := (hscan'.noted p).mp hmem
    cases Source.eq_of_mem hp (hscan'.met_walk.subset he)
    exact Nat.lt_irrefl _ (hfresh f.modified hlookup).2
  have hsame := hscan'.target_file hgo hp
  rw [if_neg hnot] at hsame
  have hcopy := hsame.symm.trans (hsync.copied p _ hp)
  rcases Storage.cleared_eq s.source faults' (s.storage.scan s.source faults).2 p with heq | heq
  · rw [heq] at hcopy
    cases hcopy
  · exact target_of_lost hp hn hlost (heq.symm.trans hcopy)

/-- A scan that does not note a file leaves what the removals have left. -/
theorem cleared_of_inSync (hp : (p, .file f) ∈ s.source.walk)
    (hn : p ∉ s.storage.noted s.source faults)
    (hgo : s.storage.GoesThrough s.source faults) (h : (s.next (.scan faults)).InSync) :
    s.storage.cleared s.source faults p = some (f.copyOf f.content) := by
  obtain ⟨met, hscan⟩ := Storage.exists_scanned s.source faults s.storage
  have hsame := hscan.target_file hgo hp
  rw [if_neg hn] at hsame
  exact hsame.symm.trans (h.copied p _ hp)

/-! ## Runs -/

/-- A scan that returned a count and copied everything has left the target in sync. -/
def Synced (s : State κ) : Prop := s.complete = true → s.InSync

theorem truthful_next {kind : Path → Kind} {a : Step κ} (h : Truthful kind s)
    (ha : s.Careful kind a) : Truthful kind (s.next a) := by
  cases a with
  | change source => exact h.change ha.1
  | scan faults => exact h.scan (ha.2 faults rfl).1 (ha.2 faults rfl).2

theorem synced_next {kind : Path → Kind} {a : Step κ} (h : Truthful kind s)
    (ha : s.Careful kind a) : (s.next a).Synced := by
  cases a with
  | change source => exact nofun
  | scan faults =>
    intro hcomplete
    obtain ⟨hgo, hcopy⟩ := complete_scan.mp hcomplete
    exact h.inSync_scan (ha.2 faults rfl).2 hgo hcopy

/-- In a run of which every scan saves what it notes and keeps the rest, every complete scan leaves
the target in sync. Wherever a scan loses a file or a symlink, a complete scan right after it that
sees the path does not, and no complete scan does that has taken away the copy of one that it does
not note. -/
theorem scans_sync (kind : Path → Kind) (source : Source κ) (htyped : source.Typed kind)
    (steps : List (Step κ)) (h : Throughout next (Careful kind) (initial source) steps) :
    Always next Synced (initial source) steps ∧
      ∀ (s : State κ) (faults : Faults κ) (p : Path) (f : File κ), (p, .file f) ∈ s.source.walk →
        ((Entry.file f).leads = true → p ∈ s.storage.noted s.source faults → ¬ s.SavesEntry faults p
          (.file f) →
          ∀ faults', faults'.stat p = false →
            ((s.next (.scan faults)).next (.scan faults')).complete = true →
            ¬ ((s.next (.scan faults)).next (.scan faults')).InSync) ∧
        (p ∉ s.storage.noted s.source faults → s.storage.cleared s.source faults p ≠ some
          (f.copyOf f.content) →
          (s.next (.scan faults)).complete = true → ¬ (s.next (.scan faults)).InSync) := by
  refine ⟨?_, ?_⟩
  · refine always_of (fun s a hi ha => truthful_next hi ha) (fun s a hi ha => synced_next hi ha)
      (Truthful.initial htyped) nofun h
  · intro s faults p f hp
    refine ⟨?_, ?_⟩
    · intro hleads hn hlost faults' hstat hcomplete
      exact lost_file_stays hp hleads hn hlost hstat (complete_scan.mp hcomplete).1
    · intro hn htaken hcomplete hsync
      exact htaken (cleared_of_inSync hp hn (complete_scan.mp hcomplete).1 hsync)

end State

/-! ## Two files -/

def twoFiles (modified content : Nat) : Source Nat where
  root := some (.dir 0 (.file "a" ⟨1, modified, false, true, content⟩
    (.file "b" ⟨1, 0, false, true, 0⟩ .nil)))
  through _ := none
  unique := (by decide : ([[], ["a"], ["b"]] : List Path).Nodup)
  through_symlink := nofun

def twoFilesKind : Path → Kind
  | [] => .dir
  | _ => .file

theorem mem_twoFiles {modified content : Nat} {p : Path} {e : Entry Nat}
    (h : (p, e) ∈ (twoFiles modified content).walk) :
    p = [] ∧ e = .dir 0 ∨ p = ["a"] ∧ e = .file ⟨1, modified, false, true, content⟩ ∨
      p = ["b"] ∧ e = .file ⟨1, 0, false, true, 0⟩ := by
  rcases List.mem_cons.mp h with heq | h
  · cases heq
    exact .inl ⟨rfl, rfl⟩
  · rcases List.mem_cons.mp h with heq | h
    · cases heq
      exact .inr (.inl ⟨rfl, rfl⟩)
    · cases List.mem_singleton.mp h
      exact .inr (.inr ⟨rfl, rfl⟩)

theorem twoFiles_typed (modified content : Nat) :
    (twoFiles modified content).Typed twoFilesKind := by
  intro p e hp
  rcases mem_twoFiles hp with ⟨rfl, rfl⟩ | ⟨rfl, rfl⟩ | ⟨rfl, rfl⟩ <;> rfl

/-- The second file seems to be gone. -/
def secondMissing : Faults Nat := { (noFaults : Faults Nat) with stat := fun p => p == ["b"] }

/-- It is removed from the target, and copied again. -/
theorem twoFiles_careful {s : State Nat} {modified content : Nat}
    (hs : s.source = twoFiles modified content)
    (h : (s.next (.scan secondMissing)).complete = true) :
    s.Careful twoFilesKind (.scan secondMissing) := by
  obtain ⟨hgo, hcopy⟩ := State.complete_scan.mp h
  refine ⟨trivial, ?_⟩
  intro faults heq
  cases heq
  refine ⟨s.saves_of_copies hgo hcopy, s.keeps_of_stat (fun p => by rw [hs]; rfl) ?_⟩
  intro q p e hq hp hpre
  cases beq_iff_eq.mp hq
  rw [hs] at hp
  rcases mem_twoFiles hp with ⟨rfl, _⟩ | ⟨rfl, _⟩ | ⟨rfl, _⟩
  · exact absurd hpre (by decide)
  · exact absurd hpre (by decide)
  · rfl

theorem two_scans_sync :
    Always State.next State.Synced (State.initial (twoFiles 0 0))
      [.scan secondMissing, .change (twoFiles 1 1), .scan secondMissing] := by
  refine (State.scans_sync twoFilesKind (twoFiles 0 0) (twoFiles_typed 0 0) _ ?_).1
  refine ⟨twoFiles_careful rfl rfl, ⟨⟨twoFiles_typed 1 1, ?_⟩, nofun⟩, twoFiles_careful rfl rfl,
    trivial⟩
  intro p f hp m c hlatest
  rcases mem_twoFiles hp with ⟨rfl, heq⟩ | ⟨rfl, heq⟩ | ⟨rfl, heq⟩
  · cases heq
  · cases heq
    cases hlatest
    exact ⟨Nat.zero_le _, fun _ => Nat.one_pos⟩
  · cases heq
    cases hlatest
    exact ⟨Nat.le_refl _, fun hne => absurd rfl hne⟩

/-- The metadata of the second file cannot be read. -/
def secondUnreadable : Faults Nat :=
  { (noFaults : Faults Nat) with metadata := fun p => p == ["b"] }

theorem second_unreadable :
    ¬ Always State.next State.Synced (State.initial (twoFiles 0 0)) [.scan secondUnreadable,
      .scan noFaults] := by
  intro h
  have hsync := h.2.2 rfl
  have hcopied := hsync.copied ["a"] (.file ⟨1, 0, false, true, 0⟩)
    (List.mem_cons_of_mem _ List.mem_cons_self)
  cases hcopied

end Kata.Watcher
