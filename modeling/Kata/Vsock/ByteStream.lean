import Kata.Lib.Runs
import Kata.Vsock.Connection

/-!
# Kata.Vsock.ByteStream

Guest data reaches the host stream unchanged. `Traced` runs a connection together with the bytes of
all RW packets that `send_bytes` has been given; `byte_stream_integrity` is that these are the bytes
accepted by the stream followed by the contents of the transmit buffer, until the connection is
killed, and that `fwd_cnt` always counts the accepted bytes.
-/

namespace Kata.Vsock

open VsockConnection

structure Traced where
  conn : VsockConnection
  consumed : List UInt8
  wasKilled : Bool

namespace Traced

def init (c : VsockConnection) : Traced := ⟨c, [], c.state == .killed⟩

def next (t : Traced) (a : Call) : Traced where
  conn := t.conn.call a
  consumed := t.consumed ++ t.conn.given a
  wasKilled := t.wasKilled || (t.conn.call a).state == .killed

def Step (t : Traced) (a : Call) (t' : Traced) : Prop := t' = t.next a

/-- No byte is lost, duplicated or reordered. -/
structure Intact (t : Traced) : Prop where
  bytes : t.wasKilled = false → t.consumed = t.conn.stream.accepted ++ t.conn.txBuf.contents
  fwdCnt : t.conn.fwdCnt = UInt32.ofNat t.conn.stream.accepted.length

theorem intact_init {c : VsockConnection} (h : c.Fresh) : (init c).Intact := by
  obtain ⟨hnew, hs⟩ := h
  have hnone : TxBuf.default.contents = [] := rfl
  refine ⟨fun _ => ?_, ?_⟩
  · cases hnew <;> simpa [init, newPeerInit, newLocalInit, hnone] using hs
  · have hlen : UInt32.ofNat ([] : List UInt8).length = 0 := rfl
    rw [show (init c).conn = c from rfl, hs, hlen]
    cases hnew <;> rfl

theorem intact_next {t : Traced} (h : t.Intact) (a : Call) : (t.next a).Intact := by
  obtain ⟨w, hm⟩ := call_moved t.conn a
  refine ⟨?_, ?_⟩
  · intro hnot
    have hkilled : t.wasKilled = false ∧ (t.conn.call a).state ≠ .killed := by
      simpa [next] using hnot
    simp only [next, hm.accepted, h.bytes hkilled.1, List.append_assoc, hm.all hkilled.2]
  · simp only [next, hm.accepted, hm.fwdCnt, h.fwdCnt, List.length_append, UInt32.ofNat_add]

theorem byte_stream_integrity {c : VsockConnection} {calls : List Call} {t : Traced} (hc : c.Fresh)
    (hrun : Lib.Run Step (init c) calls t) :
    (t.wasKilled = false → t.consumed = t.conn.stream.accepted ++ t.conn.txBuf.contents) ∧
      t.conn.fwdCnt = UInt32.ofNat t.conn.stream.accepted.length := by
  have hinv : t.Intact := by
    refine hrun.invariant ?_ (intact_init hc)
    intro t a t' h hstep
    rw [hstep]
    exact intact_next h a
  exact ⟨hinv.bytes, hinv.fwdCnt⟩

def threeBytes : List Call :=
  [.recvPkt ⟨{}, none⟩ 0, .sendPkt (.data [1, 2, 3] (by decide) { bufAlloc := 65536 }) 0]

def shortWrites : VsockConnection := newPeerInit ⟨0, [], [.ok 1, .ok 1], []⟩ hostCid 3 1024 5000 65536

/-- The first write has taken one byte; two are in the buffer. -/
def buffered : Traced := threeBytes.foldl next (init shortWrites)

theorem flushTo_buffered : ∃ k b sink, buffered.conn.txBuf.flushTo buffered.conn.stream = (.ok k, b, sink) ∧
    sink.accepted = [1, 2] := by
  have hne : ¬ buffered.conn.txBuf.isEmpty = true := by decide
  have hlen : min 1 (buffered.conn.txBuf.firstSlice hne).length < buffered.conn.txBuf.lenToWrite :=
    Nat.lt_of_le_of_lt (Nat.min_le_left _ _) (by decide)
  refine ⟨_, _, _, TxBuf.flushTo_short (h := hne) rfl hlen, ?_⟩
  show [1] ++ (buffered.conn.txBuf.firstSlice hne).take 1 = [1, 2]
  rw [TxBuf.take_firstSlice hne (by decide)]
  decide

/-- The stream takes one byte of three, and one of the two in the buffer when it is writable again. -/
theorem byte_stream_integrity_short_writes :
    ∃ t, Lib.Run Step (init shortWrites) (threeBytes ++ [.notify ⟨false, true⟩]) t ∧
      t.wasKilled = false ∧ t.conn.stream.accepted = [1, 2] ∧ t.conn.txBuf.contents = [3] := by
  have hrun : Lib.Run Step (init shortWrites) (threeBytes ++ [.notify ⟨false, true⟩])
      (buffered.next (.notify ⟨false, true⟩)) := .cons rfl (.cons rfl (.cons rfl .nil))
  obtain ⟨k, b, sink, hflush, haccepted⟩ := flushTo_buffered
  have hout : buffered.conn.call (.notify ⟨false, true⟩) =
      ({ buffered.conn with txBuf := b, stream := sink }.flushed (.ok k)).afterFlush := by
    show buffered.conn.notifyOut = _
    rw [notifyOut, hflush]
  obtain ⟨r, hafter, -⟩ := afterFlush_spec ({ buffered.conn with txBuf := b, stream := sink }.flushed (.ok k))
  rw [hafter] at hout
  have hlive : (buffered.next (.notify ⟨false, true⟩)).wasKilled = false := by
    rw [next, hout]
    rfl
  have hstream : (buffered.next (.notify ⟨false, true⟩)).conn.stream.accepted = [1, 2] := by
    rw [next, hout]
    exact haccepted
  have hall := (byte_stream_integrity ⟨.peerInit _ _ _ _ _ _, rfl⟩ hrun).1 hlive
  rw [hstream] at hall
  exact ⟨_, hrun, hlive, hstream, List.append_cancel_left hall.symm⟩

end Traced
end Kata.Vsock
