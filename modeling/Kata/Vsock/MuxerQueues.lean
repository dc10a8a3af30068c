import Mathlib.Data.List.AList
import Mathlib.Data.List.Sort
import Kata.Lib.Collect
import Kata.Vsock.Connection

/-!
# Kata.Vsock.MuxerQueues

The two queues of the muxer: packets for the guest (`muxer/muxer_rxq.rs`) and connections whose kill
timer is running (`muxer/muxer_killq.rs`).

Both hold fewer items than there may be connections. A queue that could not take an item is no
longer synchronised; it is drained and then built anew from the connections.

The connections are kept in an association list, whose order stands for the order in which the hash
map of the source is iterated.
-/

namespace Kata.Vsock

open Lib

structure ConnMapKey where
  localPort : UInt32
  peerPort : UInt32
deriving DecidableEq, Repr

abbrev ConnMap := AList fun _ : ConnMapKey => VsockConnection

/-- `MAX_CONNECTIONS` -/
def maxConnections : Nat := 1023

/-- `MUXER_RXQ_SIZE` -/
def muxerRxqSize : Nat := 256

/-- `MUXER_KILLQ_SIZE` -/
def muxerKillqSize : Nat := 128

inductive MuxerRx where
  | connRx (key : ConnMapKey)
  | rstPkt (localPort peerPort : UInt32)
deriving DecidableEq, Repr

structure MuxerRxQ where
  q : List MuxerRx
  synced : Bool
  len_le : q.length ≤ muxerRxqSize

namespace MuxerRxQ

def default : MuxerRxQ where
  q := []
  synced := true
  len_le := Nat.zero_le _

/-- The item of a connection with something to send. -/
def item (entry : Sigma fun _ : ConnMapKey => VsockConnection) : Option MuxerRx :=
  if entry.2.hasPendingRx then some (.connRx entry.1) else none

def fromConnMap (connMap : ConnMap) : MuxerRxQ where
  q := (collect muxerRxqSize item connMap.entries []).1
  synced := (collect muxerRxqSize item connMap.entries []).2
  len_le := collect_length

section Queue

variable (r : MuxerRxQ)

def isEmpty : Bool := r.q.length == 0

def isFull : Bool := r.q.length == muxerRxqSize

/-- Put `rx` in the place of the first item that names a connection. -/
def evict (rx : MuxerRx) : List MuxerRx → Option (List MuxerRx)
  | [] => none
  | .connRx _ :: q => some (rx :: q)
  | .rstPkt l p :: q => (evict rx q).map (.rstPkt l p :: ·)

theorem evict_length {rx : MuxerRx} {q q' : List MuxerRx} (h : evict rx q = some q') : q'.length = q.length := by
  induction q generalizing q' with
  | nil => cases h
  | cons it q ih =>
    cases it with
    | connRx key =>
      cases h
      rfl
    | rstPkt l p =>
      obtain ⟨q1, hq1, rfl⟩ := Option.map_eq_some_iff.mp h
      simp [ih hq1]

theorem room {r : MuxerRxQ} (h : ¬ r.isFull = true) (rx : MuxerRx) : (r.q ++ [rx]).length ≤ muxerRxqSize := by
  have hle := r.len_le
  have hne : r.q.length ≠ muxerRxqSize := by simpa [isFull] using h
  simp only [List.length_append, List.length_cons, List.length_nil]
  omega

/-- An RST that does not fit takes the place of the last item that names a connection. -/
def push (rx : MuxerRx) : Bool × MuxerRxQ :=
  if h : r.synced = true ∧ ¬ r.isFull = true then (true, ⟨r.q ++ [rx], r.synced, room h.2 rx⟩)
  else
    match rx with
    | .rstPkt _ _ =>
      match he : evict rx r.q.reverse with
      | some q' => (true, ⟨q'.reverse, false, by
          rw [List.length_reverse, evict_length he, List.length_reverse]
          exact r.len_le⟩)
      | none => (false, r)
    | .connRx _ => (false, { r with synced := false })

def peek : Option MuxerRx := r.q.head?

/-- The queue after `pop`, whose result is `peek`. -/
def pop : MuxerRxQ where
  q := r.q.tail
  synced := r.synced
  len_le := by
    have hle := r.len_le
    rw [List.length_tail]
    omega

/-- A connection is queued, or the queue is out of sync. -/
theorem push_connRx (key : ConnMapKey) :
    ((r.push (.connRx key)).2.synced = true → (r.push (.connRx key)).2.q = r.q ++ [.connRx key]) ∧
      ((r.push (.connRx key)).2.synced = true → r.synced = true) := by
  unfold push
  split
  · rename_i h
    exact ⟨fun _ => rfl, fun _ => h.1⟩
  · exact ⟨nofun, nofun⟩

/-- An RST only takes the place of another item if the queue loses its synchronisation. -/
theorem push_rstPkt (localPort peerPort : UInt32) :
    (r.push (.rstPkt localPort peerPort)).2.synced = true →
      r.synced = true ∧ ∀ it ∈ r.q, it ∈ (r.push (.rstPkt localPort peerPort)).2.q := by
  unfold push
  split
  · rename_i h
    intro _
    exact ⟨h.1, fun it hit => List.mem_append_left _ hit⟩
  · dsimp only
    split
    · nofun
    · intro h
      exact ⟨h, fun it hit => hit⟩

end Queue

variable {it : MuxerRx}

theorem mem_of_push_connRx (r : MuxerRxQ) {key : ConnMapKey}
    (h : it ∈ (r.push (.connRx key)).2.q) (hne : it ≠ .connRx key) : it ∈ r.q := by
  unfold push at h
  split at h
  · cases List.mem_append.mp h with
    | inl hold => exact hold
    | inr hnew => exact absurd (List.mem_singleton.mp hnew) hne
  · exact h

theorem mem_of_evict {rx it : MuxerRx} {q q' : List MuxerRx} (h : evict rx q = some q') (hit : it ∈ q') :
    it = rx ∨ it ∈ q := by
  induction q generalizing q' with
  | nil => cases h
  | cons first q ih =>
    cases first with
    | connRx key =>
      cases h
      cases List.mem_cons.mp hit with
      | inl heq => exact .inl heq
      | inr hq => exact .inr (List.mem_cons_of_mem _ hq)
    | rstPkt l p =>
      obtain ⟨q1, hq1, rfl⟩ := Option.map_eq_some_iff.mp h
      cases List.mem_cons.mp hit with
      | inl heq => exact .inr (heq ▸ List.mem_cons_self)
      | inr hrest => exact (ih hq1 hrest).imp_right (List.mem_cons_of_mem _)

theorem mem_of_push_rstPkt (r : MuxerRxQ) {l p : UInt32}
    (h : it ∈ (r.push (.rstPkt l p)).2.q) : it = .rstPkt l p ∨ it ∈ r.q := by
  unfold push at h
  split at h
  · cases List.mem_append.mp h with
    | inl hold => exact .inr hold
    | inr hnew => exact .inl (List.mem_singleton.mp hnew)
  · dsimp only at h
    split at h
    · rename_i q' he
      exact (mem_of_evict he (List.mem_reverse.mp h)).imp_right List.mem_reverse.mp
    · exact .inr h

section FromConnMap

variable {connMap : ConnMap}

theorem item_some {entry : Sigma fun _ : ConnMapKey => VsockConnection} :
    item entry = some it ↔ entry.2.hasPendingRx = true ∧ .connRx entry.1 = it := by
  unfold item
  split <;> simp [*]

theorem of_mem_fromConnMap (h : it ∈ (fromConnMap connMap).q) :
    ∃ key conn, it = .connRx key ∧ connMap.lookup key = some conn ∧ conn.hasPendingRx = true := by
  obtain ⟨⟨key, conn⟩, hentry, hitem⟩ := mem_collect h
  obtain ⟨hp, rfl⟩ := item_some.mp hitem
  exact ⟨key, conn, rfl, AList.mem_lookup_iff.mpr hentry, hp⟩

theorem nodup_fromConnMap (connMap : ConnMap) : (fromConnMap connMap).q.Nodup := by
  have hkeys : connMap.entries.Pairwise fun a b => a.1 ≠ b.1 := List.nodupKeys_iff_pairwise.mp connMap.nodupKeys
  have hitems : (connMap.entries.filterMap item).Nodup := by
    refine List.pairwise_filterMap.mpr (hkeys.imp fun hne it hit it' hit' heq => hne ?_)
    obtain ⟨-, rfl⟩ := item_some.mp hit
    obtain ⟨-, rfl⟩ := item_some.mp hit'
    exact MuxerRx.connRx.inj heq
  rw [show (fromConnMap connMap).q = _ from collect_fst]
  exact hitems.sublist (List.take_sublist _ _)

theorem mem_fromConnMap {key : ConnMapKey} {conn : VsockConnection} (hs : (fromConnMap connMap).synced = true)
    (hl : connMap.lookup key = some conn) (hp : conn.hasPendingRx = true) :
    MuxerRx.connRx key ∈ (fromConnMap connMap).q := by
  have hq : (fromConnMap connMap).q = connMap.entries.filterMap item := collect_complete hs
  rw [hq, List.mem_filterMap]
  exact ⟨⟨key, conn⟩, AList.mem_lookup_iff.mp hl, item_some.mpr ⟨hp, rfl⟩⟩

theorem fromConnMap_full (h : (fromConnMap connMap).synced = false) :
    (fromConnMap connMap).q.length = muxerRxqSize :=
  collect_full h

end FromConnMap

end MuxerRxQ

structure MuxerKillQItem where
  key : ConnMapKey
  killTime : Nat
deriving DecidableEq, Repr

structure MuxerKillQ where
  q : List MuxerKillQItem
  synced : Bool
  len_le : q.length ≤ muxerKillqSize

namespace MuxerKillQ

def default : MuxerKillQ where
  q := []
  synced := true
  len_le := Nat.zero_le _

/-- The item of a connection whose kill timer is still running. -/
def item (now : Nat) (entry : Sigma fun _ : ConnMapKey => VsockConnection) : Option MuxerKillQItem :=
  if entry.2.willExpire now then entry.2.expiry.map (⟨entry.1, ·⟩) else none

def fromConnMap (connMap : ConnMap) (now : Nat) : MuxerKillQ where
  q := (collect muxerKillqSize (item now) connMap.entries []).1.insertionSort
    (·.killTime ≤ ·.killTime)
  synced := (collect muxerKillqSize (item now) connMap.entries []).2
  len_le := by
    rw [List.length_insertionSort]
    exact collect_length

def isEmpty (k : MuxerKillQ) : Bool := k.q.length == 0

def isFull (k : MuxerKillQ) : Bool := k.q.length == muxerKillqSize

variable {k : MuxerKillQ}

theorem room (h : ¬ (!k.synced || k.isFull) = true) (it : MuxerKillQItem) :
    (k.q ++ [it]).length ≤ muxerKillqSize := by
  have hle := k.len_le
  have hne : k.q.length ≠ muxerKillqSize := by
    simp only [Bool.or_eq_true, not_or] at h
    simpa [isFull] using h.2
  simp only [List.length_append, List.length_cons, List.length_nil]
  omega

def push (k : MuxerKillQ) (key : ConnMapKey) (killTime : Nat) : MuxerKillQ :=
  if h : (!k.synced || k.isFull) = true then { k with synced := false }
  else { k with q := k.q ++ [⟨key, killTime⟩], len_le := room h _ }

/-- The front item, if its time has passed, is taken off the queue. -/
def pop (k : MuxerKillQ) (now : Nat) : Option (ConnMapKey × MuxerKillQ) :=
  match hq : k.q with
  | [] => none
  | it :: q =>
    if now > it.killTime then
      some (it.key, ⟨q, k.synced, by
        have hle := k.len_le
        rw [hq, List.length_cons] at hle
        omega⟩)
    else none

variable {key : ConnMapKey}

theorem push_synced {killTime : Nat} (hs : (k.push key killTime).synced = true) :
    k.synced = true ∧ (k.push key killTime).q = k.q ++ [⟨key, killTime⟩] := by
  unfold push at hs ⊢
  split at hs
  · cases hs
  · rename_i hroom
    rw [dif_neg hroom]
    exact ⟨hs, rfl⟩

theorem push_q (k : MuxerKillQ) (key : ConnMapKey) (killTime : Nat) :
    (k.push key killTime).q = k.q ∨ (k.push key killTime).q = k.q ++ [⟨key, killTime⟩] := by
  unfold push
  split
  · exact .inl rfl
  · exact .inr rfl

variable {now : Nat}

theorem pop_some {k k' : MuxerKillQ} (h : k.pop now = some (key, k')) :
    ∃ it, k.q = it :: k'.q ∧ it.key = key ∧ it.killTime < now ∧ k'.synced = k.synced := by
  unfold pop at h
  split at h
  · cases h
  · rename_i it q hq
    split at h
    · cases h
      exact ⟨it, hq, rfl, ‹_›, rfl⟩
    · cases h

theorem pop_none_iff : k.pop now = none ↔ ∀ it ∈ k.q.head?, now ≤ it.killTime := by
  unfold pop
  split
  · rename_i hq
    simp [hq]
  · rename_i it q hq
    simp only [hq, List.head?_cons, Option.mem_some_iff, forall_eq']
    split
    · rename_i hlt
      exact ⟨nofun, fun hle => absurd hlt (Nat.not_lt.mpr hle)⟩
    · rename_i hge
      exact ⟨fun _ => Nat.not_lt.mp hge, fun _ => rfl⟩

theorem item_some {entry : Sigma fun _ : ConnMapKey => VsockConnection} {it : MuxerKillQItem} :
    item now entry = some it ↔ entry.1 = it.key ∧ entry.2.expiry = some it.killTime ∧ now < it.killTime := by
  obtain ⟨key, conn⟩ := entry
  obtain ⟨key', t⟩ := it
  cases hexp : conn.expiry with
  | none => simp [item, VsockConnection.willExpire, hexp]
  | some t' =>
    simp only [item, VsockConnection.willExpire, hexp, gt_iff_lt, decide_eq_true_eq, Option.map_some,
      Option.some.injEq, Option.ite_none_right_eq_some, MuxerKillQItem.mk.injEq]
    grind

variable {connMap : ConnMap}

theorem of_mem_fromConnMap {it : MuxerKillQItem} (h : it ∈ (fromConnMap connMap now).q) :
    ∃ conn, connMap.lookup it.key = some conn ∧ conn.expiry = some it.killTime ∧ now < it.killTime := by
  obtain ⟨⟨key, conn⟩, hentry, hitem⟩ := mem_collect ((List.mem_insertionSort _).mp h)
  obtain ⟨rfl, hexp, hlt⟩ := item_some.mp hitem
  exact ⟨conn, AList.mem_lookup_iff.mpr hentry, hexp, hlt⟩

theorem mem_fromConnMap {now t : Nat} {conn : VsockConnection}
    (hs : (fromConnMap connMap now).synced = true) (hl : connMap.lookup key = some conn)
    (hexp : conn.expiry = some t) (hlt : now < t) : ⟨key, t⟩ ∈ (fromConnMap connMap now).q := by
  have hq : (collect muxerKillqSize (item now) connMap.entries []).1 =
      connMap.entries.filterMap (item now) := collect_complete hs
  refine (List.mem_insertionSort _).mpr ?_
  rw [hq, List.mem_filterMap]
  exact ⟨⟨key, conn⟩, AList.mem_lookup_iff.mp hl, item_some.mpr ⟨rfl, hexp, hlt⟩⟩

theorem sorted_fromConnMap (connMap : ConnMap) (now : Nat) :
    (fromConnMap connMap now).q.Pairwise (·.killTime ≤ ·.killTime) :=
  List.pairwise_insertionSort _ _

theorem fromConnMap_full (h : (fromConnMap connMap now).synced = false) :
    (fromConnMap connMap now).q.length = muxerKillqSize := by
  unfold fromConnMap
  rw [List.length_insertionSort]
  exact collect_full h

end MuxerKillQ
end Kata.Vsock
