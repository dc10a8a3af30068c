import Kata.Vsock.MuxerSteps

/-!
# Kata.Vsock.RxSync

While the RX queue of the muxer is synchronised, it names every connection that has something to
send (`rxq_names_pending`). When it has been drained without being synchronised, `recv_pkt` builds
it anew: then it names all of them, or it is full of them. So no such connection is forgotten.

The delicate place is `recv_pkt`, which decides to take an item off the queue before
`apply_conn_mutation` is done with the connection. That is safe because a connection can only be
given something to send in between by being killed, which queues it again. For this no locally
initiated connection may become established by yielding a packet (`Awaiting`).
-/

namespace Kata.Vsock

open VsockConnection

namespace VsockConnection

variable {c c' : VsockConnection}

variable {now : Nat}

theorem SendStep.grown {p : TxPacket} (h : SendStep c p now c') : c.pendingRx.Grown c'.pendingRx := by
  have hg := PendingRxSet.Grown.refl c.pendingRx
  cases h with
  | data _ _ hr =>
    cases hr with
    | inl hr => exact hr ▸ hg
    | inr hr => exact hr ▸ hg.insert nofun nofun
  | failed | creditRequest => exact hg.insert nofun nofun
  | response => exact hg
  | shutdown | moreShutdown =>
    dsimp only
    split
    · exact hg.insert nofun nofun
    · exact hg
  | dropped => exact hg

theorem NotifyStep.grown (h : NotifyStep c c') : c.pendingRx.Grown c'.pendingRx := by
  cases h with
  | noFlush hg | flushed _ _ hg | failed _ _ hg => exact hg

variable {result : Except VsockError Unit} {pkt : VsockPacket}

theorem RecvStep.shrunk (h : RecvStep c now result pkt c') (it : PendingRx) (hit : c'.pendingRx.contains it = true) :
    c.pendingRx.contains it = true := by
  cases h with
  | creditUpdate _ hd | noData _ hd => cases hd <;> simp_all
  | _ => simp_all

theorem RecvStep.established (h : RecvStep c now result pkt c') (hest : c'.state = .established) :
    c.pendingRx.contains .response = true ∨ c.state = .established := by
  cases h with
  | response _ hres => exact .inl hres
  | closed => cases hest
  | creditUpdate _ hd | noData _ hd => cases hd <;> exact .inr hest
  | _ => exact .inr hest

/-- A response is only pending for a connection from the guest with which nothing has happened yet,
except that it may have been killed. -/
def Awaiting (c : VsockConnection) : Prop :=
  c.pendingRx.contains .response = true →
    c.pendingRx.contains .request = false ∧ c.expiry = none ∧ (c.state = .peerInit ∨ c.state = .killed)

theorem SendStep.awaiting {p : TxPacket} (hs : SendStep c p now c') (h : c.Awaiting) : c'.Awaiting := by
  intro hres
  have hg := hs.grown
  rw [hg.response] at hres
  obtain ⟨hreq, hexp, hstate⟩ := h hres
  rw [hg.request]
  refine ⟨hreq, ?_⟩
  have hfrom : c.state.fromPeer = false := by
    cases hstate with
    | inl h | inr h => rw [h]; rfl
  cases hs with
  | data hc | failed hc => simp [consumes, hfrom] at hc
  | response _ hl => simp [hl] at hstate
  | shutdown _ he => simp [he] at hstate
  | moreShutdown _ hp => simp [hp] at hstate
  | creditRequest | dropped => exact ⟨hexp, hstate⟩

theorem RecvStep.awaiting (hs : RecvStep c now result pkt c') (h : c.Awaiting) : c'.Awaiting := by
  intro hres
  obtain ⟨hreq, hexp, hstate⟩ := h (hs.shrunk .response hres)
  have hreq' : c'.pendingRx.contains .request = false := by
    refine Bool.eq_false_of_not_eq_true fun hr => ?_
    rw [hs.shrunk .request hr] at hreq
    cases hreq
  refine ⟨hreq', ?_⟩
  have hto : c.state.toPeer = false := by
    cases hstate with
    | inl h | inr h => rw [h]; rfl
  cases hs with
  | rst | invalid => exact ⟨hexp, hstate⟩
  | response => simp at hres
  | request _ hr => rw [hreq] at hr; cases hr
  | creditRequest _ ht | bufMissing _ ht | closed _ ht | data _ ht | readError _ ht => rw [hto] at ht; cases ht
  | creditUpdate _ hd | noData _ hd => cases hd <;> exact ⟨hexp, hstate⟩

theorem NotifyStep.awaiting (hs : NotifyStep c c') (h : c.Awaiting) : c'.Awaiting := by
  intro hres
  have hg := hs.grown
  rw [hg.response] at hres
  obtain ⟨hreq, hexp, hstate⟩ := h hres
  rw [hg.request]
  cases hs with
  | noFlush | flushed => exact ⟨hreq, hexp, hstate⟩
  | failed => exact ⟨hreq, hexp, .inr rfl⟩

theorem Awaiting.kill (h : c.Awaiting) : c.kill.Awaiting := by
  intro hres
  obtain ⟨hreq, hexp, _⟩ := h (by simpa [VsockConnection.kill] using hres)
  exact ⟨by simpa [VsockConnection.kill] using hreq, hexp, .inr rfl⟩

end VsockConnection

namespace VsockMuxer

theorem awaiting_connInv (now : Nat) : ConnInv Awaiting (fun _ _ => True) now where
  isNew h := by
    cases h with
    | peerInit => exact fun _ => ⟨by simp [newPeerInit], rfl, .inl rfl⟩
    | localInit => exact fun hres => by simp [newLocalInit] at hres
  kill h := h.kill
  ackLocal := by
    intro c port h
    obtain ⟨s, hs | hs⟩ := ackLocal_cases c port
    · exact hs ▸ h
    · rw [hs]
      exact Awaiting.kill h
  sendPkt _ h := (sendPkt_step _ _ now).awaiting h
  recvPkt pkt h := (recvPkt_step _ pkt now).awaiting h
  notify evset h := (notify_step _ evset).awaiting h

/-! ## The queue -/

/-- A synchronised queue names every connection that has something to send. -/
def Named (connMap : ConnMap) (r : MuxerRxQ) : Prop :=
  r.synced = true → ∀ key conn, connMap.lookup key = some conn → conn.hasPendingRx = true →
    MuxerRx.connRx key ∈ r.q

variable {connMap : ConnMap} {r : MuxerRxQ} {key : ConnMapKey} {conn : VsockConnection} {m : VsockMuxer}

theorem Named.push (h : Named connMap r) (rx : MuxerRx) : Named connMap (r.push rx).2 := by
  intro hs k c hl hp
  cases rx with
  | connRx key =>
    obtain ⟨hq, hsync⟩ := r.push_connRx key
    rw [hq hs]
    exact List.mem_append_left _ (h (hsync hs) k c hl hp)
  | rstPkt l p =>
    obtain ⟨hsync, hmem⟩ := r.push_rstPkt l p hs
    exact hmem _ (h hsync k c hl hp)

theorem Named.insert (h : Named connMap r)
    (hconn : r.synced = true → conn.hasPendingRx = true → MuxerRx.connRx key ∈ r.q) :
    Named (connMap.insert key conn) r := by
  intro hs k c hl hp
  by_cases hk : k = key
  · subst hk
    rw [AList.lookup_insert] at hl
    cases hl
    exact hconn hs hp
  · rw [AList.lookup_insert_ne hk] at hl
    exact h hs k c hl hp

theorem mem_push_connRx (hs : (r.push (.connRx key)).2.synced = true) :
    MuxerRx.connRx key ∈ (r.push (.connRx key)).2.q := by
  rw [(r.push_connRx key).1 hs]
  exact List.mem_append_right _ List.mem_cons_self

theorem Named.erase (h : Named connMap r) : Named (connMap.erase key) r := by
  intro hs k c hl hp
  by_cases hk : k = key
  · subst hk
    simp at hl
  · rw [AList.lookup_erase_ne hk] at hl
    exact h hs k c hl hp

theorem Named.killConnection (h : Named m.connMap m.rxq) :
    Named (m.killConnection key).connMap (m.killConnection key).rxq := by
  unfold VsockMuxer.killConnection
  split
  · exact h.push _
  · rename_i conn hl
    split
    · rename_i hp
      exact h.insert fun hs _ => h hs key conn hl hp
    · exact (h.push _).insert fun hs _ => mem_push_connRx hs

theorem Named.requeue (h : Named m.connMap m.rxq) {old : VsockConnection} (conn : VsockConnection)
    (now : Nat) (hl : m.connMap.lookup key = some old) :
    Named ((m.setConn key conn).requeue key old conn now).connMap
      ((m.setConn key conn).requeue key old conn now).rxq := by
  rw [requeue_connMap, requeue_rxq]
  split
  · exact (h.push _).insert fun hs _ => mem_push_connRx hs
  · rename_i hold
    refine h.insert fun hs hp => h hs key old hl ?_
    simpa [hp] using hold

theorem Named.applyConnMutation (h : Named m.connMap m.rxq) (now : Nat) (f : VsockConnection → VsockConnection) :
    Named (m.applyConnMutation key now f).connMap (m.applyConnMutation key now f).rxq := by
  obtain ⟨_, hout⟩ | ⟨old, m', hl, hsame, hout⟩ := m.applyConnMutation_cases key now f
  · rw [hout]
    exact h
  · have hreq := h.requeue (mutated key old f) now hl
    rw [← hsame.connMap, ← hsame.rxq] at hreq
    cases hout with
    | inl hout => exact hout ▸ hreq
    | inr hout => exact hout ▸ hreq.killConnection

theorem Named.pop (h : Named connMap r) (hkey : r.synced = true → ∃ rest, r.q = .connRx key :: rest ∧
      ∀ conn, connMap.lookup key = some conn → conn.hasPendingRx = true → .connRx key ∈ rest) :
    Named connMap r.pop := by
  intro hs k c hl hp
  obtain ⟨rest, hq, hrest⟩ := hkey hs
  have hmem := h hs k c hl hp
  have hpop : r.pop.q = rest := by simp [MuxerRxQ.pop, hq]
  rw [hpop]
  rw [hq, List.mem_cons] at hmem
  cases hmem with
  | inl heq =>
    cases heq
    exact hrest c hl hp
  | inr hrest => exact hrest

/-- A connection that yields a packet is left as `recv_pkt` leaves it. -/
theorem mutated_recvPkt {c : VsockConnection} (key : ConnMapKey) (pkt : VsockPacket) (now : Nat) (h : c.Awaiting) :
    mutated key c (fun c => (c.recvPkt pkt now).2.2) = (c.recvPkt pkt now).2.2 := by
  unfold mutated
  split
  · rename_i hest
    simp only [Bool.and_eq_true, decide_eq_true_eq] at hest
    cases (recvPkt_step c pkt now).established hest.2 with
    | inl hres =>
      obtain ⟨_, _, hstate⟩ := h hres
      simp [hest.1] at hstate
    | inr hstate =>
      rw [hest.1] at hstate
      cases hstate
  · rfl

/-- After a connection has yielded all that it had to send, its item is at the front of the queue,
and once more behind if the connection has been killed. -/
theorem front_recvPkt {rest : List MuxerRx} (haw : EachConn Awaiting m)
    (hq : m.rxq.q = .connRx key :: rest) (hl : m.connMap.lookup key = some conn) (pkt : VsockPacket)
    (now : Nat) (hidle : (conn.recvPkt pkt now).2.2.hasPendingRx = false)
    (hs : (m.applyConnMutation key now fun c => (c.recvPkt pkt now).2.2).rxq.synced = true) :
    ∃ rest', (m.applyConnMutation key now fun c => (c.recvPkt pkt now).2.2).rxq.q =
        .connRx key :: rest' ∧
      ∀ conn, (m.applyConnMutation key now fun c => (c.recvPkt pkt now).2.2).connMap.lookup key =
        some conn → conn.hasPendingRx = true → .connRx key ∈ rest' := by
  obtain ⟨hnone, _⟩ | ⟨old, m', hl', hsame, hout⟩ :=
    m.applyConnMutation_cases key now fun c => (c.recvPkt pkt now).2.2
  · rw [hl] at hnone
    cases hnone
  · rw [hl] at hl'
    cases hl'
    rw [mutated_recvPkt key pkt now (haw key conn hl)] at hsame
    have hrxq : m'.rxq = m.rxq := by
      rw [hsame.rxq, requeue_rxq, hidle, Bool.and_false]
      rfl
    have hconn : m'.connMap.lookup key = some (conn.recvPkt pkt now).2.2 := by
      rw [hsame.connMap, requeue_connMap]
      exact AList.lookup_insert _
    cases hout with
    | inl hout =>
      rw [hout, hrxq]
      refine ⟨rest, hq, ?_⟩
      intro c hc hp
      rw [hconn] at hc
      cases hc
      rw [hidle] at hp
      cases hp
    | inr hout =>
      have hkill : (m'.killConnection key).rxq = (m'.rxq.push (.connRx key)).2 := by
        simp only [killConnection, hconn, hidle]
        rfl
      rw [hout, hkill] at hs
      rw [hout, hkill, (m'.rxq.push_connRx key).1 hs, hrxq, hq]
      exact ⟨rest ++ [.connRx key], rfl, fun _ _ _ => List.mem_append_right _ List.mem_cons_self⟩

theorem Named.recvConn (h : Named m.connMap m.rxq) (haw : EachConn Awaiting m) (pkt : VsockPacket)
    (now : Nat) (hpeek : m.rxq.peek = some (.connRx key)) :
    Named (m.recvConn key pkt now).2.2.connMap (m.recvConn key pkt now).2.2.rxq := by
  obtain ⟨rest, hq⟩ : ∃ rest, m.rxq.q = .connRx key :: rest := List.head?_eq_some_iff.mp hpeek
  unfold VsockMuxer.recvConn
  cases hl : m.connMap.lookup key with
  | none =>
    refine h.pop fun _ => ⟨rest, hq, ?_⟩
    intro c hc
    rw [hl] at hc
    cases hc
  | some conn =>
    have happ : Named (m.applyConnMutation key now fun c => (c.recvPkt pkt now).2.2).connMap
        (m.applyConnMutation key now fun c => (c.recvPkt pkt now).2.2).rxq :=
      h.applyConnMutation now _
    dsimp only
    split
    · exact happ
    · rename_i hidle
      exact happ.pop (front_recvPkt haw hq hl pkt now (Bool.eq_false_of_not_eq_true hidle))

theorem Named.sweepLoop {now fuel : Nat} (h : Named m.connMap m.rxq) :
    Named (VsockMuxer.sweepLoop now fuel m).connMap (VsockMuxer.sweepLoop now fuel m).rxq := by
  refine sweepLoop_invariant (I := fun m => Named m.connMap m.rxq) ?_ h
  intro m key killq hm _
  have hpop : Named { m with killq := killq }.connMap { m with killq := killq }.rxq := hm
  unfold killExpired
  split
  · exact hpop
  · split
    · exact hpop.killConnection
    · exact hpop

/-- The invariant of the RX queue. -/
structure RxInv (m : VsockMuxer) : Prop where
  awaiting : EachConn Awaiting m
  named : Named m.connMap m.rxq

theorem rxInv_keeps (m : VsockMuxer) (now : Nat) (op : Op) : Keeps RxInv m now op := by
  have hc : Keeps (EachConn Awaiting) m now op := (awaiting_connInv now).keeps fun _ _ _ _ => trivial
  exact {
    frame := fun hs h => ⟨hc.frame hs h.awaiting, by rw [hs.connMap, hs.rxq]; exact h.named⟩
    allocate := fun hp h => ⟨hc.allocate hp h.awaiting, by
      obtain ⟨_, _, hout⟩ := Option.map_eq_some_iff.mp hp
      cases hout
      exact h.named⟩
    enqRst := fun l p h => ⟨hc.enqRst l p h.awaiting, h.named.push _⟩
    removeConnection := fun key h => ⟨hc.removeConnection key h.awaiting, by
      unfold removeConnection
      split
      · exact h.named
      · exact h.named.erase⟩
    deliver := fun hop ht hcid h =>
      ⟨hc.deliver hop ht hcid h.awaiting, h.named.applyConnMutation now _⟩
    notify := fun key evset h => ⟨hc.notify key evset h.awaiting, h.named.applyConnMutation now _⟩
    sweepKillq := fun hs _ hcm hk h => ⟨hc.sweepKillq hs hcm hk h.awaiting, by
      unfold sweepKillq
      dsimp only
      split
      · exact Named.sweepLoop h.named.sweepLoop
      · exact h.named.sweepLoop⟩
    add := fun key _ hn h => ⟨hc.add key hn h.awaiting,
      (h.named.push _).insert fun hs _ => mem_push_connRx hs⟩
    resyncRxq := fun h => ⟨hc.resyncRxq h.awaiting, by
      unfold resyncRxq
      split
      · exact fun hs _ _ hl hp => MuxerRxQ.mem_fromConnMap hs hl hp
      · exact h.named⟩
    popRst := fun hpeek h => ⟨hc.popRst hpeek h.awaiting, by
      intro hs k c hl hp
      obtain ⟨rest, hq⟩ := List.head?_eq_some_iff.mp hpeek
      have hmem := h.named hs k c hl hp
      rw [hq, List.mem_cons] at hmem
      simpa [MuxerRxQ.pop, hq] using hmem⟩
    recvConn := fun pkt hpeek h =>
      ⟨hc.recvConn pkt hpeek h.awaiting, h.named.recvConn h.awaiting pkt now hpeek⟩ }

theorem rxInv_step {m m' : VsockMuxer} {a : Nat × Option Op} (h : RxInv m) (hs : Step m a m') : RxInv m' := by
  cases hs with
  | call happ => exact (rxInv_keeps m _ _).apply h happ
  | rehash hp =>
    refine ⟨h.awaiting.rehash hp, ?_⟩
    intro hs k c hl hpend
    refine h.named hs k c ?_ hpend
    rw [← AList.perm_lookup hp]
    exact hl

theorem rxInv_new (cid : UInt64) (epollCtl : List Bool) : RxInv (new cid epollCtl) := by
  refine ⟨?_, ?_⟩
  · intro key conn hl
    simp [new] at hl
  · intro _ key conn hl
    simp [new] at hl

theorem rxq_names_pending {cid : UInt64} {epollCtl : List Bool} {ops : List (Nat × Option Op)}
    {m : VsockMuxer} (hrun : Lib.Run Step (new cid epollCtl) ops m) :
    (m.rxq.synced = true → ∀ key conn, m.connMap.lookup key = some conn → conn.hasPendingRx = true →
      MuxerRx.connRx key ∈ m.rxq.q) ∧
    (∀ key conn, m.connMap.lookup key = some conn → conn.hasPendingRx = true →
      m.hasPendingRx = true) ∧
    (m.rxq.synced = false → m.rxq.q = [] →
      (∀ key conn, m.connMap.lookup key = some conn → conn.hasPendingRx = true →
        MuxerRx.connRx key ∈ m.resyncRxq.rxq.q) ∨
      m.resyncRxq.rxq.q.length = muxerRxqSize ∧ m.resyncRxq.rxq.q.Nodup ∧
        ∀ rx ∈ m.resyncRxq.rxq.q, ∃ key conn, rx = .connRx key ∧ m.connMap.lookup key = some conn ∧
          conn.hasPendingRx = true) := by
  have hinv : RxInv m := hrun.invariant (fun _ _ _ => rxInv_step) (rxInv_new cid epollCtl)
  refine ⟨hinv.named, ?_, ?_⟩
  · intro key conn hl hp
    cases hs : m.rxq.synced with
    | false => simp [hasPendingRx, hs]
    | true =>
      have hmem := hinv.named hs key conn hl hp
      have hne : m.rxq.q ≠ [] := List.ne_nil_of_mem hmem
      simp [hasPendingRx, MuxerRxQ.isEmpty, hne]
  · intro hsync hempty
    have hrebuilt : m.resyncRxq.rxq = MuxerRxQ.fromConnMap m.connMap := by
      simp [resyncRxq, MuxerRxQ.isEmpty, hempty, hsync]
    rw [hrebuilt]
    cases hs : (MuxerRxQ.fromConnMap m.connMap).synced with
    | true => exact .inl fun key conn hl hp => MuxerRxQ.mem_fromConnMap hs hl hp
    | false =>
      exact .inr ⟨MuxerRxQ.fromConnMap_full hs, MuxerRxQ.nodup_fromConnMap m.connMap, fun _ hrx =>
        MuxerRxQ.of_mem_fromConnMap hrx⟩

/-- A packet from port 5000 of the guest to port `dstPort` of the host. -/
def guestPkt (dstPort : UInt32) (op : UInt16) : TxPacket :=
  .control ⟨3, hostCid, 5000, dstPort, 0, typeStream, op, 0, 65536, 0⟩ rfl

/-- A connection request of the guest, answered by a backend. -/
theorem rxq_names_pending_request :
    ∃ m, Lib.Run Step (new 3 [])
        [(0, some (.addBackend .unixStream 7 true)),
          (0, some (.sendPkt (guestPkt 1024 opRequest) (some ⟨8, [], [], []⟩)))] m ∧
      MuxerRx.connRx ⟨1024, 5000⟩ ∈ m.rxq.q := by
  have hrun : Lib.Run Step (new 3 [])
      [(0, some (.addBackend .unixStream 7 true)),
        (0, some (.sendPkt (guestPkt 1024 opRequest) (some ⟨8, [], [], []⟩)))] _ :=
    .cons (.call rfl) (.cons (.call rfl) .nil)
  exact ⟨_, hrun, (rxq_names_pending hrun).1 rfl ⟨1024, 5000⟩ _ rfl rfl⟩

end VsockMuxer
end Kata.Vsock
