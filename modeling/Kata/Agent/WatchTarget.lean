import Kata.Agent.Watcher

/-!
# Kata.Agent.WatchTarget

What one scan does: what it has recorded where it stops (`scanRoot_recorded`), and what is then at
each path of the target. Removals only touch what is at or below a path that is gone
(`cleared_of_leads`, `cleared_of_removed`), and an update only touches its own path and the
directories above it (`updates_file`, `updates_dir`).
-/

namespace Kata.Watcher

open Lib

variable {κ : Type}

/-! ## The paths of the walk -/

variable {path p : Path} {e : Entry κ}

theorem Listing.below_of_mem {l : Listing κ} (h : (p, e) ∈ l.walk path) : ∃ name rest, p = path ++ name :: rest := by
  induction l generalizing path with
  | nil => cases h
  | file name f rest ih =>
    rcases List.mem_cons.mp h with heq | h
    · cases heq
      exact ⟨name, [], rfl⟩
    · exact ih h
  | dir name m inner rest ih ihrest =>
    rcases List.mem_cons.mp h with heq | h
    · cases heq
      exact ⟨name, [], rfl⟩
    · rcases List.mem_append.mp h with h | h
      · obtain ⟨name', rest', rfl⟩ := ih h
        exact ⟨name, name' :: rest', by rw [List.append_assoc]; rfl⟩
      · exact ihrest h

theorem not_between {path q : Path} {name : String} (hq : q <+: path ++ [name]) (hne : q ≠ path ++ [name])
    (hlen : path.length < q.length) : False := by
  have hlt := lt_of_le_of_ne hq.length_le fun heq => hne (hq.eq_of_length heq)
  rw [List.length_append, List.length_singleton] at hlt
  omega

/-- What is above an entry of a directory, and below the directory, is a directory. -/
theorem Listing.dir_of_above {l : Listing κ} {path p q : Path} (h : (p, e) ∈ l.walk path) (hq : q <+: p)
    (hne : q ≠ p) (hlen : path.length < q.length) : ∃ m, (q, .dir m) ∈ l.walk path := by
  induction l generalizing path with
  | nil => cases h
  | file name f rest ih =>
    rcases List.mem_cons.mp h with heq | h
    · cases heq
      exact (not_between hq hne hlen).elim
    · obtain ⟨m, hm⟩ := ih h hlen
      exact ⟨m, List.mem_cons_of_mem _ hm⟩
  | dir name m inner rest ih ihrest =>
    rcases List.mem_cons.mp h with heq | h
    · cases heq
      exact (not_between hq hne hlen).elim
    · rcases List.mem_append.mp h with h | h
      · -- `q` is the inner directory, or below it
        have hinner : path ++ [name] <+: p := by
          obtain ⟨name', rest', rfl⟩ := Listing.below_of_mem h
          exact List.prefix_append _ _
        have hle : (path ++ [name]).length ≤ q.length := by
          rw [List.length_append, List.length_singleton]
          omega
        have hpre : path ++ [name] <+: q := List.prefix_of_prefix_length_le hinner hq hle
        by_cases heq : path ++ [name] = q
        · subst heq
          exact ⟨m, List.mem_cons_self⟩
        · obtain ⟨m', hm'⟩ := ih h (lt_of_le_of_ne hle fun hl => heq (hpre.eq_of_length hl))
          exact ⟨m', List.mem_cons_of_mem _ (List.mem_append_left _ hm')⟩
      · obtain ⟨m', hm'⟩ := ihrest h hlen
        exact ⟨m', List.mem_cons_of_mem _ (List.mem_append_right _ hm')⟩

namespace Source

variable {source : Source κ} {p q : Path} {e : Entry κ}

theorem dir_of_above (h : (p, e) ∈ source.walk) (hq : q <+: p) (hne : q ≠ p) : ∃ m, (q, .dir m) ∈ source.walk := by
  unfold walk at *
  match hroot : source.root with
  | none =>
    rw [hroot] at h
    cases h
  | some (.file f) =>
    rw [hroot] at h
    cases List.mem_singleton.mp h
    exact absurd (List.prefix_nil.mp hq) hne
  | some (.dir m entries) =>
    rw [hroot] at h
    rcases List.mem_cons.mp h with heq | h
    · cases heq
      exact absurd (List.prefix_nil.mp hq) hne
    · cases q with
      | nil => exact ⟨m, List.mem_cons_self⟩
      | cons name q =>
        obtain ⟨m', hm'⟩ := Listing.dir_of_above h hq hne (Nat.succ_pos _)
        exact ⟨m', List.mem_cons_of_mem _ hm'⟩

theorem eq_of_mem {e e' : Entry κ} (h : (p, e) ∈ source.walk) (h' : (p, e') ∈ source.walk) : e = e' :=
  Option.some.inj ((entry_of_mem h).symm.trans (entry_of_mem h'))

theorem leadsAt_of_mem (h : (p, e) ∈ source.walk) : source.leadsAt p = e.leads := by
  rw [leadsAt, entry_of_mem h]

theorem pathExists_iff {faults : Faults κ} :
    source.pathExists faults p = true ↔ faults.stat p = false ∧ source.leadsAt p = true := by
  rw [pathExists, Bool.and_eq_true, Bool.not_eq_true']

theorem not_below_file {f : File κ} (h : (p, .file f) ∈ source.walk) (h' : (q, e) ∈ source.walk)
    (hp : p <+: q) : p = q := by
  by_contra hne
  obtain ⟨m, hm⟩ := dir_of_above h' hp hne
  cases eq_of_mem h hm

end Source

/-! ## What is recorded where the walk stops -/

def Records (scanned : Except ScanError Nat × Walk) (w : Walk) (l : List (Path × Entry κ)) : Prop :=
  ∃ m, m <+: l ∧ scanned.2 = m.foldl Walk.record w

theorem scanFile_records (faults : Faults κ) (path : Path) (f : File κ) (w : Walk) :
    Records (scanFile faults path f w) w [(path, .file f)] := by
  unfold scanFile
  split
  case isTrue hm => exact ⟨[], List.nil_prefix, rfl⟩
  case isFalse hm =>
    simp only
    split
    case isTrue hc => exact ⟨_, List.prefix_rfl, rfl⟩
    case isFalse hc => exact ⟨_, List.prefix_rfl, rfl⟩

variable {w : Walk} {l : List (Path × Entry κ)}

theorem scanDir_records {faults : Faults κ} {modified : Nat} {entries : Walk → Except ScanError Nat × Walk}
    (h : Records (entries (w.insertDir path modified)) (w.insertDir path modified) l) :
    Records (scanDir faults path modified entries w) w ((path, .dir modified) :: l) := by
  unfold scanDir
  split
  case isTrue hm => exact ⟨[], List.nil_prefix, rfl⟩
  case isFalse hm =>
    simp only
    split
    case isTrue hr => exact ⟨[(path, .dir modified)], (List.cons_prefix_cons).mpr ⟨rfl, List.nil_prefix⟩, rfl⟩
    case isFalse hr =>
      obtain ⟨m, hm, hw⟩ := h
      refine ⟨(path, .dir modified) :: m, List.cons_prefix_cons.mpr ⟨rfl, hm⟩, ?_⟩
      split
      case h_1 heq =>
        rw [heq] at hw
        exact hw
      case h_2 heq =>
        rw [heq] at hw
        exact hw

theorem nextEntry_records {scanned : Except ScanError Nat × Walk} {rest : Walk → Except ScanError Nat × Walk}
    {readable : Prop} {l l' : List (Path × Entry κ)} (hs : Scans scanned readable w l) (h : Records scanned w l)
    (h' : Records (rest (l.foldl Walk.record w)) (l.foldl Walk.record w) l') :
    Records (nextEntry scanned rest) w (l ++ l') := by
  match scanned, hs, h with
  | (.error e, w1), _, h =>
    obtain ⟨m, hm, hw⟩ := h
    exact ⟨m, hm.trans (List.prefix_append _ _), hw⟩
  | (.ok size1, w1), hs, _ =>
    obtain ⟨_, _, _, rfl⟩ := hs.2 size1 w1 rfl
    obtain ⟨m, hm, hw⟩ := h'
    refine ⟨l ++ m, (List.prefix_append_right_inj l).mpr hm, ?_⟩
    rw [List.foldl_append, ← hw, nextEntry]
    split
    case h_1 heq => rw [heq]
    case h_2 heq => rw [heq]

theorem scanEntries_records (faults : Faults κ) (entries : Listing κ) (path : Path) (i : Nat) (w : Walk) :
    Records (scanEntries faults entries path i w) w (entries.walk path) := by
  induction entries generalizing path i w with
  | nil =>
    refine ⟨[], List.nil_prefix, ?_⟩
    rw [scanEntries]
    split <;> rfl
  | file name f rest ih =>
    rw [scanEntries, Listing.walk]
    split
    case isTrue hn => exact ⟨[], List.nil_prefix, rfl⟩
    case isFalse hn =>
      exact nextEntry_records (scanFile_scans faults (path ++ [name]) f w) (scanFile_records faults _ f w) (ih _ _ _)
  | dir name m inner rest ih ihrest =>
    rw [scanEntries, Listing.walk]
    split
    case isTrue hn => exact ⟨[], List.nil_prefix, rfl⟩
    case isFalse hn =>
      exact nextEntry_records (scanDir_scans (scanEntries_scans faults inner (path ++ [name]) 0 _))
        (scanDir_records (ih _ _ _)) (ihrest _ _ _)

theorem scanRoot_recorded (source : Source κ) (faults : Faults κ) (watched : AList fun _ : Path => Nat) :
    ∃ m, m <+: source.walk ∧ (scanRoot source faults watched).2 = m.foldl Walk.record ⟨watched, []⟩ := by
  unfold scanRoot Source.walk
  match source.root with
  | none => exact ⟨[], List.nil_prefix, rfl⟩
  | some (.file f) => exact scanFile_records faults [] f _
  | some (.dir m entries) => exact scanDir_records (scanEntries_records faults entries [] 0 _)

/-! ## What is noted as new or changed -/

/-- The walk notes the entry: it is not watched, or a file or symlink whose time is later than the
recorded one. -/
def Fresh (watched : AList fun _ : Path => Nat) (p : Path) (e : Entry κ) : Prop :=
  ∀ old, watched.lookup p = some old → e.isDir = false ∧ old < e.modified

theorem mem_updateList_record {x : Path × Entry κ} :
    p ∈ (w.record x).updateList ↔ p ∈ w.updateList ∨ p = x.1 ∧ Fresh w.watched x.1 x.2 := by
  obtain ⟨path, e⟩ := x
  have hpush : ∀ c : Prop, ∀ [Decidable c], (p ∈ if c then w.updateList ++ [path] else w.updateList) ↔
      p ∈ w.updateList ∨ p = path ∧ c := by
    intro c _
    by_cases hc : c
    · rw [if_pos hc, List.mem_append, List.mem_singleton, and_iff_left hc]
    · rw [if_neg hc]
      exact ⟨.inl, fun h => h.elim id fun h => absurd h.2 hc⟩
  cases e with
  | file f =>
    cases hold : w.watched.lookup path with
    | none =>
      have hfresh : Fresh w.watched path (Entry.file f) := by
        intro old h
        rw [hold] at h
        cases h
      simp only [Walk.record, Walk.insertFile, hold]
      rw [List.mem_append, List.mem_singleton, and_iff_left hfresh]
    | some old =>
      have hfresh : Fresh w.watched path (Entry.file f) ↔ old < f.modified := by
        constructor
        · intro h
          exact (h old hold).2
        · intro h old' hold'
          rw [hold] at hold'
          cases hold'
          exact ⟨rfl, h⟩
      simp only [Walk.record, Walk.insertFile, hold]
      rw [hpush, hfresh]
  | dir m =>
    have hfresh : Fresh w.watched path (Entry.dir m : Entry κ) ↔ (w.watched.lookup path).isNone := by
      constructor
      · intro h
        cases hold : w.watched.lookup path with
        | none => rfl
        | some old => cases (h old hold).1
      · intro h old hold
        rw [hold] at h
        cases h
    simp only [Walk.record, Walk.insertDir]
    rw [hpush, hfresh]

theorem fresh_record {x : Path × Entry κ} (hne : p ≠ x.1) : Fresh (w.record x).watched p e ↔ Fresh w.watched p e := by
  rw [Fresh, record_watched, AList.lookup_insert_ne hne, Fresh]

/-- What is noted, in the entries `l` of the walk. -/
theorem mem_updateList (hl : (l.map Prod.fst).Nodup) :
    p ∈ (l.foldl Walk.record w).updateList ↔ p ∈ w.updateList ∨ ∃ e, (p, e) ∈ l ∧ Fresh w.watched p e := by
  induction l generalizing w with
  | nil =>
    refine ⟨.inl, fun h => h.elim id ?_⟩
    rintro ⟨e, he, _⟩
    cases he
  | cons x l ih =>
    rw [List.map_cons, List.nodup_cons] at hl
    have hne : ∀ {e}, (p, e) ∈ l → p ≠ x.1 := by
      rintro e he rfl
      exact hl.1 (List.mem_map.mpr ⟨_, he, rfl⟩)
    rw [List.foldl_cons, ih hl.2, mem_updateList_record, or_assoc]
    refine or_congr_right ?_
    constructor
    · rintro (⟨rfl, hfresh⟩ | ⟨e, he, hfresh⟩)
      · exact ⟨x.2, List.mem_cons_self, hfresh⟩
      · exact ⟨e, List.mem_cons_of_mem _ he, (fresh_record (hne he)).mp hfresh⟩
    · rintro ⟨e, he, hfresh⟩
      rcases List.mem_cons.mp he with rfl | he
      · exact .inl ⟨rfl, hfresh⟩
      · exact .inr ⟨e, he, (fresh_record (hne he)).mpr hfresh⟩

/-! ## Removals -/

namespace Target

variable {t : Target κ} {p q : Path}

theorem remove_cases (t : Target κ) (q : Path) :
    (t q = some .dir ∧ t.remove q = fun p => if q <+: p then none else t p) ∨
      (q ≠ [] ∧ t.remove q = Function.update t q none) ∨ ((q = [] ∨ t q = none) ∧ t.remove q = t) := by
  match hq : t q with
  | none => exact .inr (.inr ⟨.inr rfl, by simp only [remove, hq]⟩)
  | some .dir => exact .inl ⟨rfl, by simp only [remove, hq]⟩
  | some (.file c) | some (.symlink c) =>
    by_cases hne : q = []
    · exact .inr (.inr ⟨.inl hne, by simp only [remove, hq, if_pos hne]⟩)
    · exact .inr (.inl ⟨hne, by simp only [remove, hq, if_neg hne]⟩)

theorem remove_of_not_above (h : ¬ q <+: p) : t.remove q p = t p := by
  have hne : p ≠ q := by
    rintro rfl
    exact h List.prefix_rfl
  rcases remove_cases t q with ⟨_, heq⟩ | ⟨_, heq⟩ | ⟨_, heq⟩
  · rw [heq]
    exact if_neg h
  · rw [heq, Function.update_of_ne hne]
  · rw [heq]

theorem remove_eq (t : Target κ) (q p : Path) : t.remove q p = none ∨ t.remove q p = t p := by
  by_cases h : q <+: p
  · rcases remove_cases t q with ⟨_, heq⟩ | ⟨_, heq⟩ | ⟨_, heq⟩
    · rw [heq]
      exact .inl (if_pos h)
    · by_cases hp : p = q
      · rw [heq, hp, Function.update_self]
        exact .inl rfl
      · rw [heq, Function.update_of_ne hp]
        exact .inr rfl
    · rw [heq]
      exact .inr rfl
  · exact .inr (remove_of_not_above h)

theorem remove_self (h : p ≠ []) : t.remove p p = none := by
  rcases remove_cases t p with ⟨_, heq⟩ | ⟨_, heq⟩ | ⟨hnone, heq⟩
  · rw [heq]
    exact if_pos List.prefix_rfl
  · rw [heq, Function.update_self]
  · rw [heq]
    exact hnone.resolve_left h

theorem removes_eq (l : List Path) (t : Target κ) (p : Path) :
    l.foldl remove t p = none ∨ l.foldl remove t p = t p := by
  induction l generalizing t with
  | nil => exact .inr rfl
  | cons q l ih =>
    rcases ih (t.remove q) with h | h
    · exact .inl h
    · rw [List.foldl_cons, h]
      exact remove_eq t q p

theorem removes_of_not_above {l : List Path} (h : ∀ q ∈ l, ¬ q <+: p) : l.foldl remove t p = t p := by
  induction l generalizing t with
  | nil => rfl
  | cons q l ih =>
    rw [List.foldl_cons, ih fun r hr => h r (List.mem_cons_of_mem _ hr)]
    exact remove_of_not_above (h q List.mem_cons_self)

theorem removes_of_mem {l : List Path} (h : p ∈ l) (hp : p ≠ []) : l.foldl remove t p = none := by
  induction l generalizing t with
  | nil => cases h
  | cons q l ih =>
    rcases List.mem_cons.mp h with rfl | h
    · rcases removes_eq l (t.remove p) p with h | h
      · exact h
      · exact h.trans (remove_self hp)
    · exact ih h

end Target

namespace Storage

variable {source : Source κ} {faults : Faults κ} {s : Storage κ} {p : Path} {e : Entry κ}

theorem mem_removeList : p ∈ s.removeList source faults ↔ p ∈ s.watched ∧ source.pathExists faults p = false := by
  rw [removeList, List.mem_filter, Bool.not_eq_true', ← AList.mem_keys]

theorem cleared_eq (source : Source κ) (faults : Faults κ) (s : Storage κ) (p : Path) :
    s.cleared source faults p = none ∨ s.cleared source faults p = s.target p := Target.removes_eq _ _ _

/-- What exists is not taken away, unless `Path::exists` fails for it or for something above it. -/
theorem cleared_of_leads (h : (p, e) ∈ source.walk) (hleads : e.leads = true)
    (hstat : ∀ q, q <+: p → faults.stat q = false) : s.cleared source faults p = s.target p := by
  refine Target.removes_of_not_above fun q hq hpre => ?_
  refine Bool.eq_false_iff.mp (mem_removeList.mp hq).2 (Source.pathExists_iff.mpr ⟨hstat q hpre, ?_⟩)
  by_cases hne : q = p
  · rw [hne, Source.leadsAt_of_mem h, hleads]
  · obtain ⟨m, hm⟩ := Source.dir_of_above h hpre hne
    exact Source.leadsAt_of_mem hm

theorem cleared_of_removed (h : p ∈ s.watched) (hgone : source.pathExists faults p = false) (hp : p ≠ []) :
    s.cleared source faults p = none := Target.removes_of_mem (mem_removeList.mpr ⟨h, hgone⟩) hp

end Storage

/-! ## Updates -/

/-- How many directories on its path the update of an entry makes, the mount point included. -/
def reach (source : Source κ) (faults : Faults κ) (path : Path) : Nat :=
  match source.entry path, faults.copy path with
  | none, _ => 0
  | some (.dir _), none => path.length + 1
  | some (.dir _), some failed => failed.made
  | some (.file _), none => path.length
  | some (.file _), some failed => min failed.made path.length

namespace Target

variable {source : Source κ} {faults : Faults κ} {t : Target κ} {p q : Path}

theorem createDirAll_of_not_above {n : Nat} (h : ¬ p <+: q) : createDirAll q n t p = t p := if_neg fun h' => h h'.1

/-- At any path but that of a file that it copies, an update only makes directories. -/
theorem update_apply (h : ∀ f, source.entry q = some (.file f) → p ≠ q) :
    update source faults t q p = createDirAll q (reach source faults q) t p := by
  cases hentry : source.entry q with
  | none =>
    simp only [update, reach, hentry]
    exact (if_neg fun h' => Nat.not_lt_zero _ h'.2).symm
  | some e =>
    cases e with
    | dir m => cases hcopy : faults.copy q <;> simp only [update, reach, hentry, hcopy]
    | file f =>
      have hne := h f hentry
      cases hcopy : faults.copy q with
      | none =>
        simp only [update, reach, hentry, hcopy]
        exact Function.update_of_ne hne _ _
      | some failed =>
        cases hleft : failed.left with
        | none => simp only [update, reach, hentry, hcopy, hleft]
        | some left =>
          simp only [update, reach, hentry, hcopy, hleft]
          exact Function.update_of_ne hne _ _

/-- What the copy of a file leaves at its destination. -/
def leaves (faults : Faults κ) (p : Path) (f : File κ) (before : Option (Copy κ)) : Option (Copy κ) :=
  match faults.copy p with
  | none => some (f.copyOf f.content)
  | some failed =>
    match failed.left with
    | none => before
    | some left => left.map f.copyOf

theorem leaves_leaves (faults : Faults κ) (p : Path) (f : File κ) (before : Option (Copy κ)) :
    leaves faults p f (leaves faults p f before) = leaves faults p f before := by
  unfold leaves
  cases faults.copy p with
  | none => rfl
  | some failed => cases hleft : failed.left <;> simp only [hleft]

theorem update_file {f : File κ} (h : source.entry p = some (.file f)) :
    update source faults t p p = leaves faults p f (t p) := by
  have hstay : ∀ n, createDirAll p (min n p.length) t p = t p := fun n =>
    if_neg fun h' => absurd h'.2 (Nat.not_lt.mpr (Nat.min_le_right _ _))
  unfold update leaves
  rw [h]
  cases faults.copy p with
  | none => exact Function.update_self _ _ _
  | some failed =>
    cases hleft : failed.left with
    | none =>
      simp only [hleft]
      exact hstay failed.made
    | some left =>
      simp only [hleft]
      exact Function.update_self _ _ _

theorem updates_file {f : File κ} (h : (p, .file f) ∈ source.walk) {us : List Path}
    (hus : ∀ u ∈ us, ∃ e, (u, e) ∈ source.walk) (t : Target κ) :
    us.foldl (update source faults) t p = if p ∈ us then leaves faults p f (t p) else t p := by
  induction us generalizing t with
  | nil => exact (if_neg List.not_mem_nil).symm
  | cons u us ih =>
    rw [List.foldl_cons, ih fun v hv => hus v (List.mem_cons_of_mem _ hv)]
    by_cases hu : p = u
    · subst hu
      rw [if_pos List.mem_cons_self, update_file (Source.entry_of_mem h), leaves_leaves, ite_self]
    · have hmem : p ∈ u :: us ↔ p ∈ us := by
        rw [List.mem_cons]
        exact or_iff_right hu
      have hsame : update source faults t u p = t p := by
        rw [update_apply fun _ _ => hu]
        refine createDirAll_of_not_above fun hpre => ?_
        obtain ⟨e, he⟩ := hus u List.mem_cons_self
        exact hu (Source.not_below_file h he hpre)
      rw [hsame, if_congr hmem rfl rfl]

theorem updates_dir (h : ∀ f, (p, .file f) ∉ source.walk) (us : List Path) (t : Target κ) :
    us.foldl (update source faults) t p =
      if ∃ u ∈ us, p <+: u ∧ p.length < reach source faults u then some ((t p).getD .dir) else t p := by
  induction us generalizing t with
  | nil =>
    refine (if_neg ?_).symm
    rintro ⟨u, hu, _⟩
    cases hu
  | cons u us ih =>
    have hstep : update source faults t u p = createDirAll u (reach source faults u) t p := by
      refine update_apply fun f hf heq => ?_
      subst heq
      exact h f (Source.mem_of_entry hf)
    have hmem : (∃ v ∈ u :: us, p <+: v ∧ p.length < reach source faults v) ↔
        (p <+: u ∧ p.length < reach source faults u) ∨ ∃ v ∈ us, p <+: v ∧ p.length < reach source faults v := by
      simp only [List.mem_cons, exists_eq_or_imp]
    rw [List.foldl_cons, ih, hstep, createDirAll, if_congr hmem rfl rfl]
    by_cases hu : p <+: u ∧ p.length < reach source faults u
    · rw [if_pos hu, if_pos (Or.inl hu : _ ∨ ∃ v ∈ us, p <+: v ∧ p.length < reach source faults v)]
      exact ite_self _
    · rw [if_neg hu, if_congr (or_iff_right hu) rfl rfl]

end Target

end Kata.Watcher
