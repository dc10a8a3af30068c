import Kata.Lib.Ring
import Kata.Lib.Counter

/-!
# Kata.Vsock.TxBuf

The transmit buffer of a vsock connection (`vsock/csm/txbuf.rs`), and the host stream that it is
flushed to.

The host stream is the environment. It carries the outcomes of its next writes and reads as scripts
and keeps a record of the bytes it has accepted; a write fails or accepts some initial part of what
it is given, which is the contract of `Write::write`.

`push_spec` and `flushTo_spec` describe the buffer by its contents in ring order: `push` appends,
and `flush_to` moves a first part of the contents to the stream, also when it takes two writes and
when the second of them fails.
-/

namespace Kata.Vsock

open Lib

inductive ErrorKind where
  | wouldBlock
  | other
deriving DecidableEq, Repr

/-- `csm::Error` -/
inductive CsmError where
  | txBufFull
  | txBufFlush (inner : ErrorKind)
  | streamWrite (inner : ErrorKind)
deriving DecidableEq, Repr

structure HostStream where
  fd : Nat
  accepted : List UInt8
  writes : List (Except ErrorKind Nat)
  reads : List (Except ErrorKind (List UInt8))

namespace HostStream

/-- `Write::write`; a stream whose script has run out blocks. -/
def write (s : HostStream) (buf : List UInt8) :
    Except ErrorKind (Fin (buf.length + 1)) × HostStream :=
  match s.writes with
  | [] => (.error .wouldBlock, s)
  | .error e :: ws => (.error e, { s with writes := ws })
  | .ok n :: ws =>
    (.ok ⟨min n buf.length, Nat.lt_succ_of_le (Nat.min_le_right n buf.length)⟩,
      { s with writes := ws, accepted := s.accepted ++ buf.take n })

/-- `Read::read` into a buffer of `len` bytes; no bytes at all mean that the stream is closed. -/
def read (s : HostStream) (len : Nat) : Except ErrorKind (List UInt8) × HostStream :=
  match s.reads with
  | [] => (.error .wouldBlock, s)
  | .error e :: rs => (.error e, { s with reads := rs })
  | .ok bytes :: rs => (.ok (bytes.take len), { s with reads := rs })

variable {s s' : HostStream} {buf : List UInt8} {len : Nat}

theorem write_error {e : ErrorKind} (h : s.write buf = (.error e, s')) : s'.accepted = s.accepted ∧ s'.fd = s.fd := by
  unfold write at h
  split at h
  · cases h; exact ⟨rfl, rfl⟩
  · cases h; exact ⟨rfl, rfl⟩
  · cases h

theorem write_ok {k : Fin (buf.length + 1)} (h : s.write buf = (.ok k, s')) :
    s'.accepted = s.accepted ++ buf.take k ∧ s'.fd = s.fd := by
  unfold write at h
  split at h
  · cases h
  · cases h
  · cases h
    exact ⟨by rw [← List.take_eq_take_min], rfl⟩

theorem read_frame {r : Except ErrorKind (List UInt8)} (h : s.read len = (r, s')) :
    s'.accepted = s.accepted ∧ s'.fd = s.fd := by
  unfold read at h
  split at h
  · cases h; exact ⟨rfl, rfl⟩
  · cases h; exact ⟨rfl, rfl⟩
  · cases h; exact ⟨rfl, rfl⟩

theorem read_length {bytes : List UInt8} (h : s.read len = (.ok bytes, s')) : bytes.length ≤ len := by
  unfold read at h
  split at h
  · cases h
  · cases h
  · cases h
    exact List.length_take_le len _

end HostStream

/-- `CONN_TX_BUF_SIZE` -/
def txBufSize : Nat := 64 * 1024

instance : NeZero txBufSize := ⟨by decide⟩

/-- The buffer with what its operations keep: memory is there as soon as it holds data, and it holds
no more than fits. -/
structure TxBuf where
  data : Option (Fin txBufSize → UInt8)
  head : UInt32
  tail : UInt32
  allocated : data = none → head = tail
  len_le : (head - tail).toNat ≤ txBufSize

namespace TxBuf

def default : TxBuf where
  data := none
  head := 0
  tail := 0
  allocated := fun _ => rfl
  len_le := by decide

def len (b : TxBuf) : Nat := (b.head - b.tail).toNat

def isEmpty (b : TxBuf) : Bool := b.len == 0

/-- The bytes that have been pushed and not yet flushed, in ring order. -/
def contents (b : TxBuf) : List UInt8 :=
  match b.data with
  | none => []
  | some d => ring d b.tail.toNat b.len

variable {b : TxBuf}

@[simp] theorem isEmpty_iff : b.isEmpty = true ↔ b.len = 0 := by simp [isEmpty]

theorem len_eq_zero_of_none (h : b.data = none) : b.len = 0 := by
  rw [len, b.allocated h]
  simp

@[simp] theorem contents_length (b : TxBuf) : b.contents.length = b.len := by
  unfold contents
  split
  · rename_i h
    rw [len_eq_zero_of_none h]
    rfl
  · simp

/-! ## Pushing -/

variable {k : Nat}

theorem push_len_le (h : ¬ b.len + k > txBufSize) : (b.head + UInt32.ofNat k - b.tail).toNat = b.len + k := by
  refine toNat_add_sub ?_
  have hlt : b.len + k < 2 ^ 32 := by simp only [txBufSize] at h; omega
  exact hlt

def push (b : TxBuf) (src : List UInt8) : Except CsmError TxBuf :=
  if h : b.len + src.length > txBufSize then .error .txBufFull
  else
    let data := b.data.getD fun _ => 0
    let headOfs := b.head.toNat % txBufSize
    let len := min (txBufSize - headOfs) src.length
    let data := copyAt data headOfs (src.take len)
    let data := if len < src.length then copyAt data 0 (src.drop len) else data
    .ok {
      data := some data
      head := b.head + UInt32.ofNat src.length
      tail := b.tail
      allocated := by intro h; cases h
      len_le := by rw [push_len_le h]; omega }

theorem push_spec (b : TxBuf) (src : List UInt8) :
    (txBufSize < b.len + src.length ∧ b.push src = .error .txBufFull) ∨ (b.len + src.length ≤ txBufSize ∧
      ∃ b', b.push src = .ok b' ∧ b'.contents = b.contents ++ src ∧
        b'.len = b.len + src.length) := by
  by_cases h : b.len + src.length > txBufSize
  · exact .inl ⟨h, by rw [push, dif_pos h]⟩
  · have hlen := push_len_le h
    have hfit : b.len + src.length ≤ txBufSize := by omega
    refine .inr ⟨hfit, ?_⟩
    rw [push, dif_neg h]
    refine ⟨_, rfl, ?_, hlen⟩
    -- the head is at the end of the contents, up to full turns of the ring and of the counters
    have hhead : b.head.toNat % txBufSize = (b.tail.toNat + b.len) % txBufSize := by
      rw [toNat_eq_add_sub b.head b.tail, Nat.mod_mod_of_dvd _ (by decide)]
      rfl
    have hwrite := ring_ringWrite (b.data.getD fun _ => 0) b.tail.toNat hfit
    rw [← ringWrite_congr hhead] at hwrite
    have hcont : ring (b.data.getD fun _ => 0) b.tail.toNat b.len = b.contents := by
      unfold contents
      split
      · rename_i hnone
        rw [len_eq_zero_of_none hnone]
        rfl
      · rename_i d hsome
        rw [hsome]
        rfl
    rw [hcont] at hwrite
    rw [← hwrite]
    simp only [contents, len, hlen]
    rfl

/-! ## Flushing -/

theorem advance_len (h : k ≤ b.len) : (b.head - (b.tail + UInt32.ofNat k)).toNat = b.len - k := toNat_sub_add h

/-- Move the tail ahead by `k` bytes. -/
def advance (b : TxBuf) (k : Nat) (h : k ≤ b.len) : TxBuf where
  data := b.data
  head := b.head
  tail := b.tail + UInt32.ofNat k
  allocated := by
    intro hnone
    have hlen := len_eq_zero_of_none hnone
    have hk : k = 0 := by omega
    rw [hk, b.allocated hnone]
    simp
  len_le := by
    rw [advance_len h]
    have : b.len ≤ txBufSize := b.len_le
    omega

theorem data_isSome (h : ¬ b.isEmpty = true) : b.data.isSome = true := by
  cases hd : b.data with
  | none => exact absurd (isEmpty_iff.mpr (len_eq_zero_of_none hd)) h
  | some d => rfl

/-- The length of the first write: up to the end of the slice, or up to the head. -/
def lenToWrite (b : TxBuf) : Nat := min (txBufSize - b.tail.toNat % txBufSize) b.len

theorem lenToWrite_le (b : TxBuf) : b.lenToWrite ≤ b.len := Nat.min_le_right _ _

theorem lenToWrite_pos (h : ¬ b.isEmpty = true) : 0 < b.lenToWrite := by
  have hlen : b.len ≠ 0 := fun h0 => h (isEmpty_iff.mpr h0)
  have hofs := Nat.mod_lt b.tail.toNat (show 0 < txBufSize by decide)
  unfold lenToWrite
  omega

/-- The slice that the first write is given. -/
def firstSlice (b : TxBuf) (h : ¬ b.isEmpty = true) : List UInt8 :=
  slice (b.data.get (data_isSome h)) (b.tail.toNat % txBufSize) b.lenToWrite

theorem firstSlice_length (h : ¬ b.isEmpty = true) : (b.firstSlice h).length = b.lenToWrite := by
  have hofs := Nat.mod_lt b.tail.toNat (show 0 < txBufSize by decide)
  simp only [firstSlice, slice, List.length_take, List.length_drop, List.length_ofFn, lenToWrite]
  omega

theorem written_le {h : ¬ b.isEmpty = true} (k : Fin ((b.firstSlice h).length + 1)) : k.val ≤ b.len := by
  have hk := k.isLt
  have hlen := firstSlice_length h
  have hle := b.lenToWrite_le
  omega

theorem advance_len_lt {h : ¬ b.isEmpty = true} (hk : k ≤ b.len)
    (hfull : ¬ k < b.lenToWrite) : (b.advance k hk).len < b.len := by
  have hpos := lenToWrite_pos h
  have hlen : (b.advance k hk).len = b.len - k := advance_len hk
  omega

/-- The result of the second write is not passed on: an error of it counts as nothing written. -/
def flushTo (b : TxBuf) (sink : HostStream) : Except CsmError Nat × TxBuf × HostStream :=
  if h : b.isEmpty = true then (.ok 0, b, sink)
  else
    match sink.write (b.firstSlice h) with
    | (.error e, sink) => (.error (.txBufFlush e), b, sink)
    | (.ok written, sink) =>
      let b' := b.advance written (written_le written)
      if written < b.lenToWrite then (.ok written, b', sink)
      else
        let (second, b', sink) := flushTo b' sink
        match second with
        | .ok n => (.ok (written + n), b', sink)
        | .error _ => (.ok written, b', sink)
termination_by b.len
decreasing_by
  rename_i hfull
  exact advance_len_lt (h := h) (written_le written) hfull

theorem advance_contents (h : k ≤ b.len) : b.contents = b.contents.take k ++ (b.advance k h).contents := by
  cases hd : b.data with
  | none =>
    have hadv : (b.advance k h).data = none := hd
    simp [contents, hd, hadv]
  | some d =>
    have hadv : (b.advance k h).data = some d := hd
    have hlen : (b.advance k h).len = b.len - k := advance_len h
    have htail : (b.advance k h).tail.toNat % txBufSize = (b.tail.toNat + k) % txBufSize := by
      have hk : k < 2 ^ 32 := Nat.lt_of_le_of_lt h (b.head - b.tail).toNat_lt
      have hsum : (b.advance k h).tail.toNat = (b.tail.toNat + k) % 2 ^ 32 := by
        simp [advance, UInt32.toNat_add]
      rw [hsum, Nat.mod_mod_of_dvd _ (by decide)]
    have hsplit : b.contents = ring d b.tail.toNat k ++ (b.advance k h).contents := by
      simp only [contents, hd, hadv, hlen]
      rw [ring_congr htail, ← ring_add, Nat.add_sub_cancel' h]
    rw [hsplit]
    simp

theorem firstSlice_eq (h : ¬ b.isEmpty = true) : b.firstSlice h = b.contents.take b.lenToWrite := by
  have hle := b.lenToWrite_le
  have hofs := Nat.mod_lt b.tail.toNat (show 0 < txBufSize by decide)
  obtain ⟨d, hd⟩ := Option.isSome_iff_exists.mp (data_isSome h)
  have hslice : b.firstSlice h = ring d b.tail.toNat b.lenToWrite := by
    simp only [firstSlice, hd, Option.get_some]
    refine slice_eq_ring ?_
    unfold lenToWrite
    omega
  rw [hslice]
  simp only [contents, hd]
  rw [← Nat.add_sub_cancel' hle, ring_add]
  simp

theorem take_firstSlice (h : ¬ b.isEmpty = true) (hk : k ≤ b.lenToWrite) :
    (b.firstSlice h).take k = b.contents.take k := by
  rw [firstSlice_eq h, List.take_take, Nat.min_eq_left hk]

/-- What a flush does: a first part `w` of the contents goes to the stream. Its length is the
result; an error is only reported when nothing has been written. -/
structure Flushed (b : TxBuf) (sink : HostStream) (r : Except CsmError Nat) (b' : TxBuf)
    (sink' : HostStream) (w : List UInt8) : Prop where
  accepted : sink'.accepted = sink.accepted ++ w
  contents : b.contents = w ++ b'.contents
  result : r = .ok w.length ∨ ∃ e, r = .error (.txBufFlush e) ∧ w = [] ∧ b' = b
  fd : sink'.fd = sink.fd

theorem flushed_first {sink sink' : HostStream} {h : ¬ b.isEmpty = true}
    {k : Fin ((b.firstSlice h).length + 1)} (hw : sink.write (b.firstSlice h) = (.ok k, sink')) :
    Flushed b sink (.ok k) (b.advance k (written_le k)) sink' (b.contents.take k) := by
  obtain ⟨ha, hf⟩ := HostStream.write_ok hw
  have hk := k.isLt
  have hle := b.lenToWrite_le
  have hlen := firstSlice_length h
  refine ⟨by rw [ha, take_firstSlice h (by omega)], advance_contents (written_le k), .inl ?_, hf⟩
  rw [List.length_take, contents_length, Nat.min_eq_left (by omega)]

theorem flushTo_short {sink sink' : HostStream} {h : ¬ b.isEmpty = true}
    {k : Fin ((b.firstSlice h).length + 1)} (hw : sink.write (b.firstSlice h) = (.ok k, sink'))
    (hk : k < b.lenToWrite) : b.flushTo sink = (.ok k.val, b.advance k (written_le k), sink') := by
  rw [flushTo, dif_neg h]
  simp only [hw, if_pos hk]

theorem Flushed.trans {b b1 b2 : TxBuf} {sink s1 s2 : HostStream} {n : Nat} {r : Except CsmError Nat}
    {w w' : List UInt8} (h1 : Flushed b sink (.ok n) b1 s1 w) (h2 : Flushed b1 s1 r b2 s2 w') :
    Flushed b sink (.ok (w ++ w').length) b2 s2 (w ++ w') := by
  refine ⟨?_, ?_, .inl rfl, h2.fd.trans h1.fd⟩
  · rw [h2.accepted, h1.accepted, List.append_assoc]
  · rw [h1.contents, h2.contents, List.append_assoc]

theorem flushTo_spec (b : TxBuf) (sink : HostStream) :
    ∃ w, Flushed b sink (b.flushTo sink).1 (b.flushTo sink).2.1 (b.flushTo sink).2.2 w := by
  fun_induction flushTo b sink with
  | case1 b sink h => exact ⟨[], by simp, by simp, .inl rfl, rfl⟩
  | case2 b sink h e sink' hw =>
    obtain ⟨ha, hf⟩ := HostStream.write_error hw
    exact ⟨[], by simp [ha], by simp, .inr ⟨e, rfl, rfl, rfl⟩, hf⟩
  | case3 b sink h k sink' hw b' hlt => exact ⟨_, flushed_first hw⟩
  | case4 b sink h k sink' hw b' hlt b2 s2 n heq ih =>
    obtain ⟨w, ih⟩ := ih
    rw [heq] at ih
    have hfirst := flushed_first hw
    have hlen : k.val = (b.contents.take k).length := by simpa using hfirst.result
    have hn : n = w.length := by simpa using ih.result
    have hsum : k.val + n = (b.contents.take k ++ w).length := by
      rw [List.length_append, ← hlen, ← hn]
    refine ⟨b.contents.take k ++ w, ?_⟩
    have hall := hfirst.trans ih
    rw [← hsum] at hall
    exact hall
  | case5 b sink h k sink' hw b' hlt b2 s2 e heq ih =>
    -- the second write has failed, so it has written nothing
    obtain ⟨w, ih⟩ := ih
    rw [heq] at ih
    have hfirst := flushed_first hw
    have hlen : k.val = (b.contents.take k).length := by simpa using hfirst.result
    obtain rfl : w = [] := by
      cases ih.result with
      | inl h => cases h
      | inr h =>
        obtain ⟨_, _, hw, _⟩ := h
        exact hw
    have hsum : k.val = (b.contents.take k ++ []).length := by
      rw [List.append_nil, ← hlen]
    refine ⟨b.contents.take k ++ [], ?_⟩
    have hall := hfirst.trans ih
    rw [← hsum] at hall
    exact hall

end TxBuf
end Kata.Vsock
