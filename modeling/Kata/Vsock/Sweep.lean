import Kata.Vsock.MuxerSteps

/-!
# Kata.Vsock.Sweep

What `sweep_killq` does. A sweep only kills connections (`Killing`); an item of the queue is still
there afterwards, or the connection it names is killed if its time has come (`sweep_reaps`); and the
front of the queue is not due any more (`sweep_done`). A queue that was built anew has nothing that
is due, so the source does not sweep it a third time (`sweep_rebuilt`).
-/

namespace Kata.Vsock.VsockMuxer

/-- Some connections of `m` are killed in `m'`, and nothing else happens to the connections. -/
def Killing (m m' : VsockMuxer) : Prop :=
  ∀ key, m'.connMap.lookup key = m.connMap.lookup key ∨
    ∃ conn conn', m.connMap.lookup key = some conn ∧ m'.connMap.lookup key = some conn' ∧
      conn'.state = .killed

/-- The connection at `key` has not expired, or it is killed. -/
def Reaped (now : Nat) (m : VsockMuxer) (key : ConnMapKey) : Prop :=
  ∀ conn, m.connMap.lookup key = some conn → conn.hasExpired now = true → conn.state = .killed

variable {m m' m'' : VsockMuxer} {now fuel : Nat} {key : ConnMapKey} {conn : VsockConnection}

theorem Killing.refl (m : VsockMuxer) : Killing m m := fun _ => .inl rfl

theorem Killing.trans (h : Killing m m') (h' : Killing m' m'') : Killing m m'' := by
  intro key
  cases h' key with
  | inl heq' => rw [heq']; exact h key
  | inr hkill' =>
    obtain ⟨conn, conn', hl, hl', hdead⟩ := hkill'
    cases h key with
    | inl heq => exact .inr ⟨conn, conn', heq ▸ hl, hl', hdead⟩
    | inr hkill =>
      obtain ⟨conn0, _, hl0, _, _⟩ := hkill
      exact .inr ⟨conn0, conn', hl0, hl', hdead⟩

theorem Killing.unkilled (h : Killing m m') (hl : m'.connMap.lookup key = some conn)
    (hlive : conn.state ≠ .killed) : m.connMap.lookup key = some conn := by
  cases h key with
  | inl heq => exact heq ▸ hl
  | inr hkill =>
    obtain ⟨_, conn', _, hl', hdead⟩ := hkill
    rw [hl] at hl'
    cases hl'
    exact absurd hdead hlive

theorem Killing.present (h : Killing m m') (hl : m.connMap.lookup key = some conn) :
    ∃ conn', m'.connMap.lookup key = some conn' ∧ (conn' = conn ∨ conn'.state = .killed) := by
  cases h key with
  | inl heq => exact ⟨conn, heq.trans hl, .inl rfl⟩
  | inr hkill =>
    obtain ⟨_, conn', _, hl', hdead⟩ := hkill
    exact ⟨conn', hl', .inr hdead⟩

theorem Killing.reaped (h : Killing m m') (hr : Reaped now m key) : Reaped now m' key := by
  intro conn hl hexp
  by_cases hlive : conn.state = .killed
  · exact hlive
  · exact hr conn (h.unkilled hl hlive) hexp

theorem killConnection_killq (m : VsockMuxer) (key : ConnMapKey) : (m.killConnection key).killq = m.killq := by
  unfold killConnection
  split
  · rfl
  · split <;> rfl

theorem killConnection_connMap (hl : m.connMap.lookup key = some conn) :
    (m.killConnection key).connMap = m.connMap.insert key conn.kill := by
  unfold killConnection
  rw [hl]
  dsimp only
  split <;> rfl

theorem killConnection_killing (m : VsockMuxer) (key : ConnMapKey) : Killing m (m.killConnection key) := by
  intro k
  cases hl : m.connMap.lookup key with
  | none =>
    left
    simp [killConnection, hl, pushRx]
  | some conn =>
    rw [killConnection_connMap hl]
    by_cases hk : k = key
    · subst hk
      exact .inr ⟨conn, conn.kill, hl, AList.lookup_insert _, rfl⟩
    · exact .inl (AList.lookup_insert_ne hk)

theorem killExpired_killing (m : VsockMuxer) (key : ConnMapKey) (now : Nat) : Killing m (m.killExpired key now) := by
  unfold killExpired
  split
  · exact .refl m
  · split
    · exact m.killConnection_killing key
    · exact .refl m

theorem killExpired_killq (m : VsockMuxer) (key : ConnMapKey) (now : Nat) :
    (m.killExpired key now).killq = m.killq := by
  unfold killExpired
  split
  · rfl
  · split
    · exact m.killConnection_killq key
    · rfl

theorem killExpired_lookup_ne (m : VsockMuxer) (now : Nat) {k : ConnMapKey} (hk : k ≠ key) :
    (m.killExpired key now).connMap.lookup k = m.connMap.lookup k := by
  unfold killExpired
  split
  · rfl
  · rename_i conn hl
    split
    · rw [killConnection_connMap hl, AList.lookup_insert_ne hk]
    · rfl

theorem killExpired_reaped (m : VsockMuxer) (key : ConnMapKey) (now : Nat) :
    Reaped now (m.killExpired key now) key := by
  intro c hl hexp
  cases hold : m.connMap.lookup key with
  | none =>
    simp [killExpired, hold] at hl
  | some conn =>
    by_cases hdue : conn.hasExpired now = true
    · simp only [killExpired, hold, if_pos hdue, killConnection_connMap hold, AList.lookup_insert] at hl
      cases hl
      rfl
    · simp only [killExpired, hold, if_neg hdue] at hl
      cases hl
      exact absurd hexp hdue

/-! ## The loop -/

theorem sweepLoop_killing : Killing m (sweepLoop now fuel m) := by
  refine sweepLoop_invariant ?_ (Killing.refl m)
  intro m' key killq hm' _
  exact hm'.trans (killExpired_killing { m' with killq := killq } key now)

theorem sweepLoop_synced : (sweepLoop now fuel m).killq.synced = m.killq.synced := by
  refine sweepLoop_invariant (I := fun m' => m'.killq.synced = m.killq.synced) ?_ rfl
  intro m' key killq hm' hpop
  obtain ⟨_, _, _, _, hs⟩ := MuxerKillQ.pop_some hpop
  rw [killExpired_killq]
  exact hs.trans hm'

theorem sweepLoop_done (hfuel : m.killq.q.length ≤ fuel) : (sweepLoop now fuel m).killq.pop now = none := by
  induction fuel generalizing m with
  | zero =>
    have hnil : m.killq.q = [] := List.eq_nil_of_length_eq_zero (Nat.le_zero.mp hfuel)
    exact MuxerKillQ.pop_none_iff.mpr (by simp [sweepLoop, hnil])
  | succ fuel ih =>
    unfold sweepLoop
    split
    · assumption
    · rename_i key killq hpop
      obtain ⟨_, hq, _⟩ := MuxerKillQ.pop_some hpop
      refine ih ?_
      rw [killExpired_killq]
      rw [hq, List.length_cons] at hfuel
      exact Nat.le_of_succ_le_succ hfuel

theorem sweepLoop_sorted (h : m.killq.q.Pairwise (·.killTime ≤ ·.killTime)) :
    (sweepLoop now fuel m).killq.q.Pairwise (·.killTime ≤ ·.killTime) := by
  refine sweepLoop_invariant (I := fun m' => m'.killq.q.Pairwise (·.killTime ≤ ·.killTime)) ?_ h
  intro m' key killq hm' hpop
  obtain ⟨_, hq, _⟩ := MuxerKillQ.pop_some hpop
  rw [killExpired_killq]
  rw [hq] at hm'
  exact hm'.of_cons

theorem sweepLoop_subset : (sweepLoop now fuel m).killq.q ⊆ m.killq.q := by
  refine sweepLoop_invariant (I := fun m' => m'.killq.q ⊆ m.killq.q) ?_ (List.Subset.refl _)
  intro m' key killq hm' hpop it hit
  obtain ⟨_, hq, _⟩ := MuxerKillQ.pop_some hpop
  rw [killExpired_killq] at hit
  exact hm' (hq ▸ List.mem_cons_of_mem _ hit)

theorem sweepLoop_reaps {it : MuxerKillQItem} (hit : it ∈ m.killq.q) :
    it ∈ (sweepLoop now fuel m).killq.q ∨
      it.killTime < now ∧ Reaped now (sweepLoop now fuel m) it.key := by
  refine sweepLoop_invariant
    (I := fun m' => it ∈ m'.killq.q ∨ it.killTime < now ∧ Reaped now m' it.key) ?_ (.inl hit)
  intro m' key killq hm' hpop
  obtain ⟨front, hq, hkey, hdue, _⟩ := MuxerKillQ.pop_some hpop
  rw [killExpired_killq]
  cases hm' with
  | inl hmem =>
    rw [hq, List.mem_cons] at hmem
    cases hmem with
    | inl hfront =>
      subst hfront
      right
      rw [hkey]
      exact ⟨hdue, killExpired_reaped _ key now⟩
    | inr hrest => exact .inl hrest
  | inr hreaped =>
    have hpopped : Reaped now { m' with killq := killq } it.key := hreaped.2
    exact .inr ⟨hreaped.1, (killExpired_killing _ key now).reaped hpopped⟩

/-! ## A sweep -/

theorem sweep_done (m : VsockMuxer) (now : Nat) : (m.sweep now).killq.pop now = none :=
  sweepLoop_done (Nat.le_refl _)

theorem sweep_killing (m : VsockMuxer) (now : Nat) : Killing m (m.sweep now) := sweepLoop_killing

theorem sweep_reaps (now : Nat) {it : MuxerKillQItem} (hit : it ∈ m.killq.q) :
    it ∈ (m.sweep now).killq.q ∨ it.killTime < now ∧ Reaped now (m.sweep now) it.key :=
  sweepLoop_reaps hit

theorem sweep_of_pop_none (h : m.killq.pop now = none) : m.sweep now = m := by
  unfold sweep
  cases m.killq.q.length with
  | zero => rfl
  | succ n =>
    unfold sweepLoop
    rw [h]

/-- The recursion of the source ends: right after the queue was built anew nothing is due, and the
queue is not empty and out of sync again. -/
theorem sweep_rebuilt (m : VsockMuxer) (now : Nat) :
    { m with killq := MuxerKillQ.fromConnMap m.connMap now }.sweep now =
        { m with killq := MuxerKillQ.fromConnMap m.connMap now } ∧
      ((MuxerKillQ.fromConnMap m.connMap now).isEmpty &&
        !(MuxerKillQ.fromConnMap m.connMap now).synced) = false := by
  constructor
  · refine sweep_of_pop_none (MuxerKillQ.pop_none_iff.mpr ?_)
    intro it hit
    obtain ⟨_, _, _, hlt⟩ := MuxerKillQ.of_mem_fromConnMap (List.mem_of_mem_head? hit)
    exact Nat.le_of_lt hlt
  · cases hs : (MuxerKillQ.fromConnMap m.connMap now).synced with
    | true => simp
    | false => simp [MuxerKillQ.isEmpty, MuxerKillQ.fromConnMap_full hs, muxerKillqSize]

theorem sweepKillq_cases (m : VsockMuxer) (now : Nat) :
    m.sweepKillq now = m.sweep now ∨ (m.sweep now).killq.q = [] ∧ m.killq.synced = false ∧
      m.sweepKillq now =
        { m.sweep now with killq := MuxerKillQ.fromConnMap (m.sweep now).connMap now } := by
  unfold sweepKillq
  dsimp only
  split
  · rename_i hcond
    simp only [Bool.and_eq_true, Bool.not_eq_true', MuxerKillQ.isEmpty, beq_iff_eq] at hcond
    refine .inr ⟨List.eq_nil_of_length_eq_zero hcond.1, ?_, (sweep_rebuilt _ now).1⟩
    exact sweepLoop_synced.symm.trans hcond.2
  · exact .inl rfl

theorem sweepKillq_of_past (hunsync : m.killq.synced = false) (hpast : ∀ it ∈ m.killq.q, it.killTime < now) :
    (m.sweepKillq now).killq = MuxerKillQ.fromConnMap (m.sweep now).connMap now := by
  have hempty : (m.sweep now).killq.q = [] := by
    refine List.head?_eq_none_iff.mp (Option.eq_none_iff_forall_ne_some.mpr fun it hit => ?_)
    have hle := MuxerKillQ.pop_none_iff.mp (m.sweep_done now) it hit
    have hlt := hpast it (sweepLoop_subset (List.mem_of_mem_head? hit))
    omega
  have hsync : (m.sweep now).killq.synced = false := sweepLoop_synced.trans hunsync
  unfold sweepKillq
  dsimp only
  rw [if_pos (by simp [MuxerKillQ.isEmpty, hempty, hsync]), (sweep_rebuilt _ now).1]

theorem sweep_unnamed (now : Nat) (hl : m.connMap.lookup key = some conn)
    (hmiss : ∀ it ∈ m.killq.q, it.key ≠ key) : (m.sweep now).connMap.lookup key = some conn := by
  refine (sweepLoop_invariant
    (I := fun m' => (∀ it ∈ m'.killq.q, it.key ≠ key) ∧ m'.connMap.lookup key = some conn) ?_ ⟨hmiss, hl⟩).2
  intro m' key' killq hm' hpop
  obtain ⟨front, hq, hkey, _⟩ := MuxerKillQ.pop_some hpop
  obtain ⟨hnames, hl'⟩ := hm'
  rw [hq, List.forall_mem_cons, hkey] at hnames
  rw [killExpired_killq, killExpired_lookup_ne _ now hnames.1.symm]
  exact ⟨hnames.2, hl'⟩

theorem sweepKillq_connMap (m : VsockMuxer) (now : Nat) : (m.sweepKillq now).connMap = (m.sweep now).connMap := by
  cases m.sweepKillq_cases now with
  | inl hout => rw [hout]
  | inr hout => rw [hout.2.2]

/-- A connection that has expired and is in a sorted queue, with a time that has passed, is killed
by a sweep. -/
theorem sweepKillq_kills {it : MuxerKillQItem}
    (hsorted : m.killq.q.Pairwise (·.killTime ≤ ·.killTime)) (hit : it ∈ m.killq.q)
    (hdue : it.killTime < now) (hl : m.connMap.lookup it.key = some conn) (hexp : conn.hasExpired now = true) :
    ∃ conn', (m.sweepKillq now).connMap.lookup it.key = some conn' ∧ conn'.state = .killed := by
  rw [sweepKillq_connMap]
  have hgone : it ∉ (m.sweep now).killq.q := by
    intro hstill
    have hdone := MuxerKillQ.pop_none_iff.mp (m.sweep_done now)
    have hsorted' : (m.sweep now).killq.q.Pairwise (·.killTime ≤ ·.killTime) :=
      sweepLoop_sorted hsorted
    cases hq : (m.sweep now).killq.q with
    | nil =>
      rw [hq] at hstill
      cases hstill
    | cons front rest =>
      rw [hq] at hstill hdone hsorted'
      have hfront : now ≤ front.killTime := hdone front rfl
      cases List.mem_cons.mp hstill with
      | inl heq =>
        rw [heq] at hdue
        omega
      | inr hrest =>
        have hle := List.rel_of_pairwise_cons hsorted' hrest
        omega
  obtain hstill | ⟨_, hreaped⟩ := sweep_reaps now hit
  · exact absurd hstill hgone
  · obtain ⟨conn', hl', heq | hdead⟩ := (m.sweep_killing now).present hl
    · subst heq
      exact ⟨conn', hl', hreaped conn' hl' hexp⟩
    · exact ⟨conn', hl', hdead⟩

end Kata.Vsock.VsockMuxer
