import Kata.Vsock.RstDelivery

/-!
# Kata.Vsock.RstQueue

What becomes of an RST for which the RX queue of the muxer has no room.

`push_rstPkt_cases` lists the outcomes: the RST is appended, it takes the place of a connection, or
it is dropped. It is dropped when the queue is full of RSTs, as documented, but also when the queue
is out of sync and holds RSTs only, however few (`push_keeps_rst_iff`). A queue comes into that
state when it is full, a connection finds no room in it and some of its RSTs are then taken off
(`rst_dropped_with_room`).
-/

namespace Kata.Vsock

def MuxerRx.isRst : MuxerRx → Bool
  | .rstPkt _ _ => true
  | .connRx _ => false

namespace MuxerRxQ

theorem evict_some {rx : MuxerRx} {q q' : List MuxerRx} (h : evict rx q = some q') :
    ∃ a key b, q = a ++ .connRx key :: b ∧ q' = a ++ rx :: b := by
  induction q generalizing q' with
  | nil => cases h
  | cons it q ih =>
    cases it with
    | connRx key =>
      cases h
      exact ⟨[], key, q, rfl, rfl⟩
    | rstPkt l p =>
      obtain ⟨q1, hq1, rfl⟩ := Option.map_eq_some_iff.mp h
      obtain ⟨a, key, b, rfl, rfl⟩ := ih hq1
      exact ⟨.rstPkt l p :: a, key, b, rfl, rfl⟩

theorem evict_none {rx : MuxerRx} {q : List MuxerRx} : evict rx q = none ↔ ∀ it ∈ q, it.isRst = true := by
  induction q with
  | nil => simp [evict]
  | cons it q ih =>
    cases it with
    | connRx key => simp [evict, MuxerRx.isRst]
    | rstPkt l p => simp [evict, MuxerRx.isRst, ih]

/-- The queue after an RST has taken the place of a connection. -/
structure Evicted (r : MuxerRxQ) (l p : UInt32) (r' : MuxerRxQ) (a b : List MuxerRx) (key : ConnMapKey) : Prop where
  before : r.q = a ++ .connRx key :: b
  after : r'.q = a ++ .rstPkt l p :: b
  synced : r'.synced = false

/-- The outcomes of pushing an RST. -/
inductive PushedRst (r : MuxerRxQ) (l p : UInt32) : Bool × MuxerRxQ → Prop where
  | appended {r' : MuxerRxQ} : r.synced = true → r.isFull = false → r'.q = r.q ++ [.rstPkt l p] →
      r'.synced = true → PushedRst r l p (true, r')
  | evicted {r' : MuxerRxQ} {a b : List MuxerRx} {key : ConnMapKey} : Evicted r l p r' a b key →
      PushedRst r l p (true, r')
  | dropped : ¬ (r.synced = true ∧ r.isFull = false) → (∀ it ∈ r.q, it.isRst = true) → PushedRst r l p (false, r)

theorem push_rstPkt_cases (r : MuxerRxQ) (l p : UInt32) : PushedRst r l p (r.push (.rstPkt l p)) := by
  unfold push
  split
  · rename_i h
    exact .appended h.1 (Bool.eq_false_of_not_eq_true h.2) rfl h.1
  · rename_i h
    dsimp only
    split
    · rename_i q' he
      obtain ⟨a, key, b, hq, rfl⟩ := evict_some he
      refine .evicted (?_ : Evicted r l p _ b.reverse a.reverse key)
      refine ⟨?_, ?_, rfl⟩
      · rw [← List.reverse_reverse r.q, hq]
        simp
      · simp
    · rename_i he
      refine .dropped ?_ ?_
      · rintro ⟨hs, hf⟩
        exact h ⟨hs, by rw [hf]; exact Bool.false_ne_true⟩
      · intro it hit
        exact evict_none.mp he it (List.mem_reverse.mpr hit)

/-- An RST is dropped only by a queue that is full of RSTs. If it is taken, the RSTs that were
queued before stay in their order, and at most one connection is lost, which the queue then no
longer accounts for. -/
structure KeepsRst (r : MuxerRxQ) (l p : UInt32) : Prop where
  refused : (r.push (.rstPkt l p)).1 = false → r.q.length = muxerRxqSize ∧ ∀ it ∈ r.q, it.isRst = true
  kept : (r.push (.rstPkt l p)).1 = true →
    (r.q.filter MuxerRx.isRst).Sublist ((r.push (.rstPkt l p)).2.q.filter MuxerRx.isRst)
  lost : (r.push (.rstPkt l p)).1 = true →
    (r.push (.rstPkt l p)).2.q.filter (!·.isRst) = r.q.filter (!·.isRst) ∨
      (r.push (.rstPkt l p)).2.synced = false ∧ ∃ a key b, r.q.filter (!·.isRst) = a ++ .connRx key :: b ∧
        (r.push (.rstPkt l p)).2.q.filter (!·.isRst) = a ++ b

theorem Evicted.kept {r r' : MuxerRxQ} {l p : UInt32} {a b : List MuxerRx} {key : ConnMapKey}
    (h : Evicted r l p r' a b key) : (r.q.filter MuxerRx.isRst).Sublist (r'.q.filter MuxerRx.isRst) := by
  rw [h.before, h.after]
  simp only [List.filter_append, List.filter_cons, MuxerRx.isRst, if_true, Bool.false_eq_true, if_false]
  exact (List.Sublist.refl _).append (List.sublist_cons_self _ _)

theorem Evicted.lost {r r' : MuxerRxQ} {l p : UInt32} {a b : List MuxerRx} {key : ConnMapKey}
    (h : Evicted r l p r' a b key) : ∃ a' b', r.q.filter (!·.isRst) = a' ++ .connRx key :: b' ∧
      r'.q.filter (!·.isRst) = a' ++ b' := by
  refine ⟨a.filter (!·.isRst), b.filter (!·.isRst), ?_, ?_⟩
  · rw [h.before]
    simp [MuxerRx.isRst]
  · rw [h.after]
    simp [MuxerRx.isRst]

/-- Whatever has happened to the queue before. -/
theorem push_keeps_rst_iff (r : MuxerRxQ) (l p : UInt32) :
    KeepsRst r l p ↔ r.synced = true ∨ r.isFull = true ∨ ∃ key, .connRx key ∈ r.q := by
  have hcases := r.push_rstPkt_cases l p
  constructor
  · intro h
    by_contra hnot
    simp only [not_or, not_exists] at hnot
    obtain ⟨hsynced, hfull, hconn⟩ := hnot
    generalize hout : r.push (.rstPkt l p) = out at hcases
    cases hcases with
    | appended hs => exact hsynced hs
    | @evicted _ a b key he =>
      refine hconn key ?_
      rw [he.before]
      exact List.mem_append_right _ List.mem_cons_self
    | dropped _ hall =>
      have hlen := (h.refused (by rw [hout])).1
      exact hfull (beq_iff_eq.mpr hlen)
  · intro hcond
    refine ⟨?_, ?_, ?_⟩
    · intro hrefused
      generalize r.push (.rstPkt l p) = out at hcases hrefused
      cases hcases with
      | appended | evicted => cases hrefused
      | dropped hroom hall =>
        refine ⟨?_, hall⟩
        have hfull : r.isFull = true := by
          rcases hcond with hs | hf | ⟨key, hkey⟩
          · by_contra hne
            exact hroom ⟨hs, Bool.eq_false_of_not_eq_true hne⟩
          · exact hf
          · cases hall _ hkey
        exact beq_iff_eq.mp hfull
    · intro htaken
      generalize r.push (.rstPkt l p) = out at hcases htaken
      cases hcases with
      | appended _ _ hq _ =>
        rw [hq, List.filter_append]
        exact List.sublist_append_left _ _
      | evicted he => exact he.kept
      | dropped => cases htaken
    · intro htaken
      generalize r.push (.rstPkt l p) = out at hcases htaken
      cases hcases with
      | appended _ _ hq _ =>
        left
        rw [hq, List.filter_append]
        simp [MuxerRx.isRst]
      | evicted he =>
        obtain ⟨a', b', hbefore, hafter⟩ := he.lost
        exact .inr ⟨he.synced, a', _, b', hbefore, hafter⟩
      | dropped => cases htaken

end MuxerRxQ

/-! ## A queue with room that drops an RST -/

namespace VsockMuxer

/-- A queue of `n` RSTs for the packet `guestSeqPkt`. -/
def rsts (n : Nat) (h : n ≤ muxerRxqSize) (synced : Bool) : MuxerRxQ :=
  ⟨List.replicate n (.rstPkt 1024 5000), synced, by rwa [List.length_replicate]⟩

theorem push_rsts {n : Nat} (h : n + 1 ≤ muxerRxqSize) :
    ((rsts n (by omega) true).push (.rstPkt 1024 5000)).2 = rsts (n + 1) h true := by
  have hroom : ¬ (rsts n (by omega) true).isFull = true := by
    rw [MuxerRxQ.isFull, beq_iff_eq, rsts, List.length_replicate]
    omega
  unfold MuxerRxQ.push
  rw [dif_pos ⟨rfl, hroom⟩]
  simp only [rsts, MuxerRxQ.mk.injEq, and_true]
  exact List.replicate_succ'.symm

theorem push_rsts_connRx (key : ConnMapKey) :
    ((rsts muxerRxqSize (Nat.le_refl _) true).push (.connRx key)).2 = rsts muxerRxqSize (Nat.le_refl _) false := by
  have hfull : (rsts muxerRxqSize (Nat.le_refl _) true).isFull = true := by
    rw [MuxerRxQ.isFull, beq_iff_eq, rsts, List.length_replicate]
  unfold MuxerRxQ.push
  rw [dif_neg (fun h => h.2 hfull)]
  rfl

theorem push_rsts_dropped {n : Nat} {h : n ≤ muxerRxqSize} (l p : UInt32) :
    ((rsts n h false).push (.rstPkt l p)).1 = false := by
  have hcases := (rsts n h false).push_rstPkt_cases l p
  generalize (rsts n h false).push (.rstPkt l p) = out at hcases
  cases hcases with
  | appended hs => cases hs
  | @evicted _ a b key he =>
    have hmem : MuxerRx.connRx key ∈ (rsts n h false).q := by
      rw [he.before]
      exact List.mem_append_right _ List.mem_cons_self
    cases List.eq_of_mem_replicate hmem
  | dropped => rfl

/-- The muxer with a backend and a given RX queue. -/
def withRxq (rxq : MuxerRxQ) : VsockMuxer :=
  { (new 3 []).addBackend .unixStream 7 true with rxq := rxq }

theorem strays_run (n : Nat) (h : n ≤ muxerRxqSize) :
    Lib.Run Step (withRxq (rsts 0 (Nat.zero_le _) true)) (List.replicate n (0, some (.sendPkt guestSeqPkt none)))
      (withRxq (rsts n h true)) := by
  induction n with
  | zero => exact .nil
  | succ n ih =>
    rw [List.replicate_succ']
    refine (ih (by omega)).append (.cons (.call ?_) .nil)
    have hsend : (withRxq (rsts n (by omega) true)).sendPkt guestSeqPkt none 0 =
        (withRxq (rsts n (by omega) true)).enqRst 1024 5000 := rfl
    rw [apply, hsend, enqRst, pushRx]
    exact congrArg (fun r => some (withRxq r)) (push_rsts h)

/-- The queue is filled with RSTs, a connection finds no room in it and one RST is taken off. -/
def filledAndRead : List (Nat × Option Op) :=
  (0, some (.addBackend .unixStream 7 true)) ::
    (List.replicate muxerRxqSize (0, some (.sendPkt guestSeqPkt none)) ++
      [(0, some (.sendPkt (guestPkt 1024 opRequest) (some ⟨8, [], [], []⟩))), (0, some (.recvPkt ⟨{}, none⟩))])

/-- The muxer with the connection that was asked for. -/
def connected (rxq : MuxerRxQ) : VsockMuxer :=
  { (withRxq MuxerRxQ.default).sendPkt (guestPkt 1024 opRequest) (some ⟨8, [], [], []⟩) 0 with rxq := rxq }

theorem connected_rxq (rxq : MuxerRxQ) : (connected rxq).rxq = rxq := rfl

theorem sendPkt_request (rxq : MuxerRxQ) :
    (withRxq rxq).sendPkt (guestPkt 1024 opRequest) (some ⟨8, [], [], []⟩) 0 =
      connected (rxq.push (.connRx ⟨1024, 5000⟩)).2 := rfl

theorem recvPkt_rst {rxq : MuxerRxQ} {l p : UInt32} (h : rxq.peek = some (.rstPkt l p)) :
    (connected rxq).apply 0 (.recvPkt ⟨{}, none⟩) = some (connected rxq.pop) := by
  have hne : rxq.isEmpty = false := by
    rw [MuxerRxQ.peek] at h
    rw [MuxerRxQ.isEmpty, beq_eq_false_iff_ne, ne_eq, List.length_eq_zero_iff]
    intro hnil
    rw [hnil] at h
    cases h
  have hsync : (connected rxq).resyncRxq = connected rxq := by
    rw [resyncRxq, connected_rxq, hne]
    rfl
  have hpeek : (connected rxq).rxq.peek = some (.rstPkt l p) := h
  rw [apply, recvPkt, hsync, recvFuel, recvLoop, hpeek]
  rfl

theorem rst_dropped_with_room :
    ∃ m, Lib.Run Step (new 3 []) filledAndRead m ∧ m.rxq.q.length = 255 ∧ muxerRxqSize = 256 ∧
      ∀ l p, (m.rxq.push (.rstPkt l p)).1 = false := by
  have hlt : 255 + 1 ≤ muxerRxqSize := by decide
  have hconnect : (withRxq (rsts (255 + 1) hlt true)).sendPkt (guestPkt 1024 opRequest) (some ⟨8, [], [], []⟩) 0 =
      connected (rsts (255 + 1) hlt false) := by
    rw [sendPkt_request]
    exact congrArg connected (push_rsts_connRx ⟨1024, 5000⟩)
  have hread : (connected (rsts (255 + 1) hlt false)).apply 0 (.recvPkt ⟨{}, none⟩) =
      some (connected (rsts 255 (Nat.le_of_succ_le hlt) false)) := recvPkt_rst rfl
  have hrun : Lib.Run Step (new 3 []) filledAndRead (connected (rsts 255 (Nat.le_of_succ_le hlt) false)) :=
    .cons (.call rfl) ((strays_run (255 + 1) hlt).append
      (.cons (.call (congrArg some hconnect)) (.cons (.call hread) .nil)))
  refine ⟨_, hrun, List.length_replicate, rfl, ?_⟩
  intro l p
  rw [connected_rxq]
  exact push_rsts_dropped l p

end VsockMuxer
end Kata.Vsock
