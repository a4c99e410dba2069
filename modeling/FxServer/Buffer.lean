import FxServer.Basic
import FxServer.Cyclic

/-!
# FxServer.Buffer — a byte queue in a growing array

The model of `src/src/fx_buffer.cc`. The bytes between `read_index_` and
`write_index_` are to be read; what is appended goes behind them. The indices are
kept in order by the fields `read_le` and `write_le`.

Of each operation there are two facts. When it succeeds, one lemma says what it does
to the readable bytes, whatever becomes of the array; another says exactly when it
succeeds.
-/

namespace FxServer

/-- The array `internal_buf_` with its two indices. The bytes behind `write_index_` are kept
as well, since `AddBytes` counts bytes in that were stored there before. -/
structure Buffer where
  /-- `internal_buf_` -/
  internalBuf : ℕ → UInt8
  /-- `internal_buf_.size()` -/
  byteSize : ℕ
  readIndex : ℕ
  writeIndex : ℕ
  read_le : readIndex ≤ writeIndex
  write_le : writeIndex ≤ byteSize

namespace Buffer

/-- 64 KiB -/
def kDefaultReservedSize : ℕ := 65536

/-- The largest size of a `std::vector<char>`. -/
def maxSize : ℕ := 2 ^ 63 - 1

def new (reservedSize : ℕ) : Buffer where
  internalBuf := fun _ => 0
  byteSize := reservedSize
  readIndex := 0
  writeIndex := 0
  read_le := Nat.le_refl _
  write_le := Nat.zero_le _

/-- `BytesCanWrite`: the bytes behind the write index. -/
def bytesCanWrite (b : Buffer) : ℕ := b.byteSize - b.writeIndex

/-- `BytesToRead`: the bytes between the indices. -/
def bytesToRead (b : Buffer) : ℕ := b.writeIndex - b.readIndex

/-- The bytes at `ReadBegin()`. -/
def readable (b : Buffer) : List UInt8 := Cyclic.get b.internalBuf b.readIndex b.bytesToRead

/-- `Clear`: the indices go back to the start, and the array keeps its size. -/
def clear (b : Buffer) : Buffer :=
  { b with readIndex := 0, writeIndex := 0, read_le := Nat.le_refl _, write_le := Nat.zero_le _ }

/-- Bytes stored at `WriteBegin()` without a call of the buffer. -/
def fill (b : Buffer) (bytes : List UInt8) : Buffer :=
  { b with internalBuf := Cyclic.put b.internalBuf b.writeIndex bytes }

/-- `AddBytes`, behind a write of `len` bytes at `WriteBegin()`; its assertion is about the
bytes that are free. -/
def addBytes (b : Buffer) (len : ℕ) : Except Fault Buffer :=
  if h : b.writeIndex + len ≤ b.byteSize then
    .ok { b with
      writeIndex := b.writeIndex + len
      read_le := b.read_le.trans (Nat.le_add_right _ _)
      write_le := h }
  else .error .assertion

/-- `ConsumeBytes`; a buffer of which everything has been consumed clears itself. -/
def consumeBytes (b : Buffer) (len : ℕ) : Except Fault Buffer :=
  if h : b.readIndex + len ≤ b.writeIndex then
    if b.readIndex + len = b.writeIndex then .ok b.clear
    else .ok { b with readIndex := b.readIndex + len, read_le := h }
  else .error .assertion

/-- The size to which `EnsureSpace(len)` resizes, a `size_t`. -/
def ensuredSize (b : Buffer) (len : ℕ) : ℕ :=
  if b.bytesCanWrite < len then (b.byteSize + (len - b.bytesCanWrite) * 2) % 2 ^ 64
  else b.byteSize

/-- `Append(buf, len)`, where `buf` has the bytes `buf`. The array may be given fewer
bytes than it had when the new size wraps around; the assertion behind fails then. -/
def append (b : Buffer) (buf : List UInt8) (len : ℕ) : Except Fault Buffer :=
  if maxSize < b.ensuredSize len then .error .exception
  else if h : b.writeIndex + len ≤ b.ensuredSize len then
    if len ≤ buf.length then
      .ok {
        internalBuf := Cyclic.put b.internalBuf b.writeIndex (buf.take len)
        byteSize := b.ensuredSize len
        readIndex := b.readIndex
        writeIndex := b.writeIndex + len
        read_le := b.read_le.trans (Nat.le_add_right _ _)
        write_le := h }
    else .error .outOfBounds
  else .error .assertion

/-! ## What the operations do to the bytes -/

@[simp] theorem length_readable (b : Buffer) : b.readable.length = b.bytesToRead :=
  Cyclic.length_get _ _ _

@[simp] theorem readable_new (reservedSize : ℕ) : (new reservedSize).readable = [] := rfl

@[simp] theorem readable_clear (b : Buffer) : b.clear.readable = [] := rfl

/-- No bytes are counted exactly when none are unread. -/
theorem bytesToRead_eq_zero {b : Buffer} : b.bytesToRead = 0 ↔ b.readable = [] := by
  rw [← length_readable, List.length_eq_zero_iff]

/-- `ConsumeBytes` passes its assertion on what is there, and takes it from the front. -/
theorem consumeBytes_ok {b b' : Buffer} {len : ℕ} (h : b.consumeBytes len = .ok b') :
    len ≤ b.bytesToRead ∧ b'.readable = b.readable.drop len := by
  unfold consumeBytes at h
  split at h
  · rename_i hle
    have hlen : len ≤ b.bytesToRead := by
      unfold bytesToRead
      omega
    refine ⟨hlen, ?_⟩
    have hget : b.readable.drop len =
        Cyclic.get b.internalBuf (b.readIndex + len) (b.bytesToRead - len) := by
      rw [readable, Cyclic.get_drop]
    split at h
    · rename_i hall
      cases h
      rw [hget, show b.bytesToRead - len = 0 by unfold bytesToRead; omega]
      rfl
    · cases h
      rw [hget]
      unfold readable bytesToRead
      rw [Nat.sub_sub]
  · cases h

/-- It succeeds on everything up to the unread bytes. -/
theorem consumeBytes_of_le {b : Buffer} {len : ℕ} (h : len ≤ b.bytesToRead) :
    ∃ b', b.consumeBytes len = .ok b' ∧ b'.readable = b.readable.drop len := by
  have hle : b.readIndex + len ≤ b.writeIndex := by
    have hread := b.read_le
    unfold bytesToRead at h
    omega
  have hok : ∃ b', b.consumeBytes len = .ok b' := by
    unfold consumeBytes
    rw [dif_pos hle]
    split <;> exact ⟨_, rfl⟩
  rcases hok with ⟨b', hok⟩
  exact ⟨b', hok, (consumeBytes_ok hok).2⟩

/-- `Append` puts the bytes behind the unread ones, whatever it moves or allocates to do so.
-/
theorem append_ok {b b' : Buffer} {buf : List UInt8} {len : ℕ} (h : b.append buf len = .ok b') :
    len ≤ buf.length ∧ b'.readable = b.readable ++ buf.take len := by
  unfold append at h
  split at h
  · cases h
  split at h
  · split at h
    · rename_i hlen
      cases h
      refine ⟨hlen, ?_⟩
      have hread := b.read_le
      have htake : (buf.take len).length = len := List.length_take_of_le hlen
      have hsame : Cyclic.get (Cyclic.put b.internalBuf b.writeIndex (buf.take len))
          b.writeIndex len = buf.take len :=
        (congrArg _ htake.symm).trans Cyclic.get_put_same
      -- the unread bytes lie in front of the write index, the new ones behind it
      show Cyclic.get (Cyclic.put b.internalBuf b.writeIndex (buf.take len)) b.readIndex
        (b.writeIndex + len - b.readIndex) = _
      rw [show b.writeIndex + len - b.readIndex = b.writeIndex - b.readIndex + len by omega,
        Cyclic.get_add, Cyclic.get_put_before (by omega),
        show b.readIndex + (b.writeIndex - b.readIndex) = b.writeIndex by omega, hsame]
      rfl
    · cases h
  · cases h

/-- Bytes that were stored at `WriteBegin()`; the first `len` of them are added. -/
theorem addBytes_fill {b b' : Buffer} {bytes : List UInt8} {len : ℕ} (hlen : len ≤ bytes.length)
    (h : (b.fill bytes).addBytes len = .ok b') : b'.readable = b.readable ++ bytes.take len := by
  unfold addBytes at h
  split at h
  · cases h
    have hread := b.read_le
    have hnew : Cyclic.get (Cyclic.put b.internalBuf b.writeIndex bytes) b.writeIndex len =
        bytes.take len := by
      rw [← Cyclic.get_take hlen, Cyclic.get_put_same]
    -- as in `append_ok`, with bytes that were put there before the call
    show Cyclic.get (Cyclic.put b.internalBuf b.writeIndex bytes) b.readIndex
      (b.writeIndex + len - b.readIndex) = _
    rw [show b.writeIndex + len - b.readIndex = b.writeIndex - b.readIndex + len by omega,
      Cyclic.get_add, Cyclic.get_put_before (by omega),
      show b.readIndex + (b.writeIndex - b.readIndex) = b.writeIndex by omega, hnew]
    rfl
  · cases h

/-- Bytes written behind the write index become readable through `AddBytes`. -/
theorem addBytes_fill_ok {b b' : Buffer} {bytes : List UInt8}
    (h : (b.fill bytes).addBytes bytes.length = .ok b') : b'.readable = b.readable ++ bytes := by
  rw [addBytes_fill (Nat.le_refl _) h, List.take_length]

/-! ## When the operations succeed -/

/-- After `Append` the buffer is large enough and within the limit. -/
theorem append_size {b b' : Buffer} {buf : List UInt8} {len : ℕ}
    (h : b.append buf len = .ok b') :
    b.writeIndex + len ≤ b.ensuredSize len ∧ b.ensuredSize len ≤ maxSize := by
  unfold append at h
  split at h
  · cases h
  · rename_i hsize
    split at h
    · rename_i hfits
      exact ⟨hfits, Nat.not_lt.1 hsize⟩
    · cases h

/-- The array grows by twice what is appended, at most. -/
theorem append_byteSize_le {b b' : Buffer} {buf : List UInt8} {len : ℕ}
    (h : b.append buf len = .ok b') : b'.byteSize ≤ b.byteSize + 2 * len := by
  have hgrows : b.ensuredSize len ≤ b.byteSize + 2 * len := by
    unfold ensuredSize
    split
    · exact (Nat.mod_le _ _).trans (by omega)
    · omega
  unfold append at h
  split at h
  · cases h
  · split at h
    · split at h
      · cases h
        exact hgrows
      · cases h
    · cases h

/-- `Append` fails only on the limit of the buffer's size. -/
theorem append_isOk {b : Buffer} {buf : List UInt8} :
    (∃ b', b.append buf buf.length = .ok b') ↔
      b.byteSize + (buf.length - b.bytesCanWrite) * 2 ≤ maxSize := by
  have hwrite := b.write_le
  have hcan : b.bytesCanWrite = b.byteSize - b.writeIndex := rfl
  have hmax : maxSize = 2 ^ 63 - 1 := rfl
  constructor
  · rintro ⟨b', h⟩
    rcases append_size h with ⟨hfits, hsize⟩
    unfold ensuredSize at hfits hsize
    -- a size that has wrapped around is too small for what is there
    split at hsize
    · rename_i hgrows
      rw [if_pos hgrows] at hfits
      omega
    · omega
  · intro hroom
    have hsize : b.ensuredSize buf.length = b.byteSize + (buf.length - b.bytesCanWrite) * 2 := by
      unfold ensuredSize
      split
      · exact Nat.mod_eq_of_lt (by omega)
      · omega
    unfold append
    rw [if_neg (by omega), dif_pos (by omega), if_pos (Nat.le_refl _)]
    exact ⟨_, rfl⟩

/-- `AddBytes` fails only on bytes for which there is no space. -/
theorem addBytes_isOk {b : Buffer} {len : ℕ} :
    (∃ b', b.addBytes len = .ok b') ↔ len ≤ b.bytesCanWrite := by
  have hwrite := b.write_le
  have hcan : b.bytesCanWrite = b.byteSize - b.writeIndex := rfl
  unfold addBytes
  split
  · exact ⟨fun _ => by omega, fun _ => ⟨_, rfl⟩⟩
  · constructor
    · rintro ⟨_, h⟩
      cases h
    · omega

theorem addBytes_fields {b b' : Buffer} {len : ℕ} (h : b.addBytes len = .ok b') :
    b'.byteSize = b.byteSize ∧ b'.writeIndex = b.writeIndex + len ∧
      b'.bytesToRead = b.bytesToRead + len := by
  have hread := b.read_le
  unfold addBytes at h
  split at h
  · cases h
    refine ⟨rfl, rfl, ?_⟩
    show b.writeIndex + len - b.readIndex = b.writeIndex - b.readIndex + len
    omega
  · cases h

/-- A buffer that has just the bytes. -/
def ofList (bytes : List UInt8) : Buffer where
  internalBuf := Cyclic.put (fun _ => 0) 0 bytes
  byteSize := bytes.length
  readIndex := 0
  writeIndex := bytes.length
  read_le := Nat.zero_le _
  write_le := Nat.le_refl _

@[simp] theorem readable_ofList (bytes : List UInt8) : (ofList bytes).readable = bytes := by
  show Cyclic.get (Cyclic.put _ 0 bytes) 0 (bytes.length - 0) = bytes
  rw [Nat.sub_zero, Cyclic.get_put_same]

end Buffer

end FxServer
