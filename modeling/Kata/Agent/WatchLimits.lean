import Kata.Agent.Watcher

/-!
# Kata.Agent.WatchLimits

The limits of a watched mount after a scan that returned a count.

`limits_hold_iff`: a scan keeps to the limits if and only if it fails, or what is kept and met is
within them. The entries are counted at files and at symlinks only, so that directories that come
after the last of these are not counted, and the sizes are added up over the walk only, so that what
is kept without being met has no part in them. Sixteen empty directories make seventeen watched
entries (`sixteen_directories_pass`).
-/

namespace Kata.Watcher

open Lib

variable {κ : Type}

/-- The length of the file or symlink at a path. -/
def Source.sizeAt (source : Source κ) (path : Path) : Nat :=
  match source.entry path with
  | some e => e.len
  | none => (source.through path).getD 0

/-- The sizes of all watched files together. -/
def totalSize (source : Source κ) (watched : AList fun _ : Path => Nat) : Nat := (watched.keys.map source.sizeAt).sum

def WithinLimits (source : Source κ) (watched : AList fun _ : Path => Nat) : Prop :=
  watched.keys.length ≤ maxEntriesPerStorage ∧ totalSize source watched ≤ maxSizePerWatchableMount

theorem sum_sizeAt_walk (source : Source κ) : ∑ p ∈ paths source.walk, source.sizeAt p = sizeOf source.walk := by
  rw [paths, List.sum_toFinset source.sizeAt source.nodup_walk, List.map_map, sizeOf]
  refine congrArg List.sum (List.map_congr_left ?_)
  rintro ⟨path, e⟩ hx
  rw [Function.comp_apply, Source.sizeAt, Source.entry_of_mem hx]

namespace Storage

variable {source : Source κ} {faults : Faults κ} {s : Storage κ}

theorem keys_watched (source : Source κ) (faults : Faults κ) (s : Storage κ) :
    Dict.keys (Dict.puts (s.retained source faults) (source.walk.map fun x => (x.1, x.2.modified))) =
      s.kept source faults ∪ paths source.walk := by
  rw [Dict.keys_puts, keys_retained, List.map_map]
  rfl

theorem withinLimits_watched (source : Source κ) (faults : Faults κ) (s : Storage κ) :
    WithinLimits source (Dict.puts (s.retained source faults) (source.walk.map fun x => (x.1, x.2.modified))) ↔
      (s.kept source faults ∪ paths source.walk).card ≤ maxEntriesPerStorage ∧
        sizeOf source.walk + ∑ p ∈ s.kept source faults \ paths source.walk, source.sizeAt p ≤
          maxSizePerWatchableMount := by
  have hsum : ∑ p ∈ s.kept source faults ∪ paths source.walk, source.sizeAt p =
      sizeOf source.walk + ∑ p ∈ s.kept source faults \ paths source.walk, source.sizeAt p := by
    rw [← Finset.sdiff_union_self_eq_union, Finset.sum_union Finset.sdiff_disjoint, sum_sizeAt_walk, Nat.add_comm]
  rw [WithinLimits, totalSize, Dict.sum_keys, ← Dict.card_keys, keys_watched, hsum]

theorem limits_hold_iff (source : Source κ) (faults : Faults κ) (s : Storage κ) :
    (∀ n s', s.scan source faults = (.ok n, s') → WithinLimits source s'.watched) ↔
      (s.GoesThrough source faults →
        (s.kept source faults ∪ paths source.walk).card ≤ maxEntriesPerStorage ∧
          sizeOf source.walk + ∑ p ∈ s.kept source faults \ paths source.walk, source.sizeAt p ≤
            maxSizePerWatchableMount) := by
  rw [← withinLimits_watched]
  constructor
  · intro h hgo
    exact h _ _ (scan_of_goesThrough hgo)
  · intro h n s' heq
    have hgo : s.GoesThrough source faults := scan_ok_iff.mp ⟨n, s', heq⟩
    rw [scan_of_goesThrough hgo] at heq
    cases heq
    exact h hgo

end Storage

/-! ## Directories only -/

def emptyDirs : List String → Listing κ
  | [] => .nil
  | name :: names => .dir name 0 .nil (emptyDirs names)

def sixteenDirectories : Source Unit where
  root := some (.dir 0 (emptyDirs ["a", "b", "c", "d", "e", "f", "g", "h", "i", "j", "k", "l", "m", "n", "o", "p"]))
  through _ := none
  unique := by decide
  through_symlink := nofun

theorem sixteen_directories_pass :
    ¬ ∀ n s', (⟨∅, fun _ => none⟩ : Storage Unit).scan sixteenDirectories noFaults = (.ok n, s') →
      WithinLimits sixteenDirectories s'.watched := by
  intro h
  have hlimits := h 17 _ rfl
  have hcount := hlimits.1
  revert hcount
  decide

end Kata.Watcher
