import Mathlib.Order.Defs.LinearOrder
import Mathlib.Tactic.Ring

/-!
# Kata.Lib.Floor

The entry of an ordered map with the greatest key that is not above a given one, and the keys that
decide which one it is.
-/

namespace Lib

variable {K V : Type} [LinearOrder K]

def floorEntry (t : Std.ExtTreeMap K V) (k : K) : Option (K × V) :=
  (t.toList.filter fun e => e.1 ≤ k).getLast?

variable {t : Std.ExtTreeMap K V} {k b : K} {v : V}

theorem floorEntry_eq_some :
    floorEntry t k = some (b, v) ↔
      t[b]? = some v ∧ b ≤ k ∧ ∀ b' v', t[b']? = some v' → b' ≤ k → b' ≤ b := by
  have hsorted : (t.toList.filter fun e => e.1 ≤ k).Pairwise fun a b => a.1 < b.1 :=
    (Std.ExtTreeMap.ordered_keys_toList.imp compare_lt_iff_lt.mp).filter _
  have hmem : ∀ {b v}, (b, v) ∈ (t.toList.filter fun e => e.1 ≤ k) ↔ t[b]? = some v ∧ b ≤ k := by
    intro b v
    rw [List.mem_filter, Std.ExtTreeMap.mem_toList_iff_getElem?_eq_some, decide_eq_true_iff]
  unfold floorEntry
  constructor
  · intro h
    obtain ⟨pre, hpre⟩ := List.getLast?_eq_some_iff.mp h
    have hlast : (b, v) ∈ (t.toList.filter fun e => e.1 ≤ k) := by simp [hpre]
    refine ⟨(hmem.mp hlast).1, (hmem.mp hlast).2, ?_⟩
    intro b' v' hb' hle
    have hin := hmem.mpr ⟨hb', hle⟩
    rw [hpre] at hin hsorted
    rcases List.mem_append.mp hin with hin | hin
    · exact le_of_lt ((List.pairwise_append.mp hsorted).2.2 _ hin _ (List.mem_singleton_self _))
    · cases List.mem_singleton.mp hin
      exact le_refl _
  · rintro ⟨hb, hle, hmax⟩
    have hin := hmem.mpr ⟨hb, hle⟩
    obtain ⟨pre, post, hcut⟩ := List.append_of_mem hin
    cases hpost : post with
    | nil => rw [hcut, hpost, List.getLast?_concat]
    | cons e rest =>
      -- an entry behind it would have a greater key
      obtain ⟨b', v'⟩ := e
      have hin' : (b', v') ∈ (t.toList.filter fun e => e.1 ≤ k) := by simp [hcut, hpost]
      have hle' := hmax b' v' (hmem.mp hin').1 (hmem.mp hin').2
      rw [hcut, hpost] at hsorted
      have hlt := (List.pairwise_cons.mp (List.pairwise_append.mp hsorted).2.1).1 (b', v') (by simp)
      exact absurd hlt (not_lt.mpr hle')

theorem floorEntry_eq_none : floorEntry t k = none ↔ ∀ b v, t[b]? = some v → k < b := by
  unfold floorEntry
  rw [List.getLast?_eq_none_iff, List.filter_eq_nil_iff]
  constructor
  · intro h b v hb
    have hno := h (b, v) (Std.ExtTreeMap.mem_toList_iff_getElem?_eq_some.mpr hb)
    rw [decide_eq_true_iff, not_le] at hno
    exact hno
  · rintro h ⟨b, v⟩ hmem
    rw [decide_eq_true_iff, not_le]
    exact h b v (Std.ExtTreeMap.mem_toList_iff_getElem?_eq_some.mp hmem)

theorem floorEntry_self (h : t[k]? = some v) : floorEntry t k = some (k, v) :=
  floorEntry_eq_some.mpr ⟨h, le_refl _, fun _ _ _ hle => hle⟩

theorem floorEntry_insert {v' : V} (h : t[b]? = some v) :
    floorEntry (t.insert b v') k = (floorEntry t k).map fun e => if e.1 = b then (b, v') else e := by
  have hget : ∀ b' : K, (t.insert b v')[b']? = if b = b' then some v' else t[b']? := by
    intro b'
    rw [Std.ExtTreeMap.getElem?_insert]
    simp only [compare_eq_iff_eq]
  have hkeys : ∀ {b' : K}, (∃ w, (t.insert b v')[b']? = some w) → ∃ w, t[b']? = some w := by
    rintro b' ⟨w, hw⟩
    rw [hget] at hw
    split at hw
    · rename_i heq
      exact heq ▸ ⟨v, h⟩
    · exact ⟨w, hw⟩
  cases hf : floorEntry t k with
  | none =>
    rw [floorEntry_eq_none] at hf
    refine floorEntry_eq_none.mpr ?_
    intro b' w hw
    obtain ⟨w', hw'⟩ := hkeys ⟨w, hw⟩
    exact hf b' w' hw'
  | some e =>
    obtain ⟨c, w⟩ := e
    obtain ⟨hc, hle, hmax⟩ := floorEntry_eq_some.mp hf
    have hmax' : ∀ (b' : K) w', (t.insert b v')[b']? = some w' → b' ≤ k → b' ≤ c := by
      intro b' w' hw' hle'
      obtain ⟨w'', hw''⟩ := hkeys ⟨w', hw'⟩
      exact hmax b' w'' hw'' hle'
    simp only [Option.map_some]
    by_cases hcb : c = b
    · subst hcb
      rw [if_pos rfl]
      exact floorEntry_eq_some.mpr ⟨by rw [hget, if_pos rfl], hle, hmax'⟩
    · rw [if_neg hcb]
      exact floorEntry_eq_some.mpr ⟨by rw [hget, if_neg (Ne.symm hcb), hc], hle, hmax'⟩

end Lib
