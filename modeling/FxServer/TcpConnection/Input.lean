import FxServer.TcpConnection

/-!
# FxServer.TcpConnection.Input — what `ReadFromPeer` puts behind the unread bytes

`readv` scatters what it delivers over the free bytes of the read buffer and a buffer on the
stack; `ReadFromPeer` counts the first part in and appends the second. A result of `-1` comes
through the same branch unless it closes the connection.

The condition is about two additions, of what `readv` has put into the array and of what it has
put on the stack. The first never fails, as `readv` is given no more room than there is.

* `appendsReceived_iff` — just the bytes that were delivered are added, unless the result is
  `EAGAIN` or the buffer would outgrow a `std::vector`.
* `again_counts_as_data` — with `EAGAIN`, `-1` is taken for `2^64 - 1` bytes.
-/

namespace FxServer

/-- The bytes that have come from the peer. -/
def ReadResult.delivered : ReadResult → List UInt8
  | .data bytes => bytes
  | .again | .error => []

/-- `EnsureSpace` finds `len` bytes free, or the bigger size is one that a vector can have. -/
def Buffer.HasRoom (b : Buffer) (len : ℕ) : Prop :=
  len ≤ b.bytesCanWrite ∨ b.byteSize + (len - b.bytesCanWrite) * 2 ≤ maxSize

instance (b : Buffer) (len : ℕ) : Decidable (b.HasRoom len) := by
  unfold Buffer.HasRoom
  infer_instance

theorem Buffer.hasRoom_zero (b : Buffer) : b.HasRoom 0 := .inl (Nat.zero_le _)

namespace TcpConnection

/-- `ReadFromPeer` up to the callbacks. `PassiveClose` returns at once when the connection is
closed already. -/
def receive (k : TcpConnection) (result : ReadResult) : Except Fault TcpConnection :=
  if result.closes then .ok (if k.closed then k else k.passiveClose)
  else k.readFromPeer result

/-- The unread bytes are followed by what was delivered and nothing else. -/
def AppendsReceived (k : TcpConnection) (result : ReadResult) : Prop :=
  ∃ k', k.receive result = .ok k' ∧
    k'.readBuf.readable = k.readBuf.readable ++ result.delivered

variable {k k' : TcpConnection} {bytes : List UInt8}

/-- On a result that closes, nothing is read. -/
theorem receive_closes {result : ReadResult} (hcloses : result.closes = true) :
    ∃ k', k.receive result = .ok k' ∧ k'.readBuf = k.readBuf := by
  refine ⟨_, if_pos hcloses, ?_⟩
  split <;> rfl

/-- The two parts of what was delivered are put together again. -/
theorem readFromPeer_data (h : k.readFromPeer (.data bytes) = .ok k') :
    k'.readBuf.readable = k.readBuf.readable ++ bytes := by
  simp only [readFromPeer] at h
  split at h
  · rename_i hlen
    rcases bind_ok.1 h with ⟨filled, hfill, h⟩
    rcases bind_ok.1 h with ⟨readBuf, happend, h⟩
    cases h
    have htake : (bytes.take k.readBuf.bytesCanWrite).length = k.readBuf.bytesCanWrite :=
      List.length_take_of_le hlen.le
    have hfilled : filled.readable = k.readBuf.readable ++ bytes.take k.readBuf.bytesCanWrite :=
      Buffer.addBytes_fill_ok (by rw [htake]; exact hfill)
    have hread := (Buffer.append_ok happend).2
    rw [List.take_of_length_le (by rw [List.length_drop]), hfilled, List.append_assoc,
      List.take_append_drop] at hread
    exact hread
  · rename_i hlen
    rcases bind_ok.1 h with ⟨readBuf, hfill, h⟩
    cases h
    rw [List.take_of_length_le (Nat.not_lt.1 hlen)] at hfill
    exact Buffer.addBytes_fill_ok hfill

/-- Bytes are received exactly when the buffer can hold them. -/
theorem readFromPeer_data_isOk :
    (∃ k', k.readFromPeer (.data bytes) = .ok k') ↔ k.readBuf.HasRoom bytes.length := by
  have hwrite := k.readBuf.write_le
  have hcan : k.readBuf.bytesCanWrite = k.readBuf.byteSize - k.readBuf.writeIndex := rfl
  simp only [readFromPeer]
  split
  · rename_i hlen
    -- the free bytes are filled, and the rest makes the buffer grow
    obtain ⟨filled, hfill⟩ :=
      (Buffer.addBytes_isOk (b := k.readBuf.fill (bytes.take k.readBuf.bytesCanWrite))).2
        (Nat.le_refl k.readBuf.bytesCanWrite)
    rcases Buffer.addBytes_fields hfill with ⟨hsize, hindex, -⟩
    have hsize : filled.byteSize = k.readBuf.byteSize := hsize
    have hindex : filled.writeIndex = k.readBuf.writeIndex + k.readBuf.bytesCanWrite := hindex
    have hfull : filled.bytesCanWrite = 0 := by
      unfold Buffer.bytesCanWrite
      omega
    have hrest : (bytes.drop k.readBuf.bytesCanWrite).length =
        bytes.length - k.readBuf.bytesCanWrite := List.length_drop
    have hroom : (∃ readBuf, filled.append (bytes.drop k.readBuf.bytesCanWrite)
          (bytes.length - k.readBuf.bytesCanWrite) = .ok readBuf) ↔
        k.readBuf.HasRoom bytes.length := by
      rw [← hrest, Buffer.append_isOk, hrest, hfull, hsize, Nat.sub_zero, Buffer.HasRoom,
        or_iff_right (Nat.not_le.2 hlen)]
    rw [← hroom, hfill]
    constructor
    · rintro ⟨k', h⟩
      rw [ok_bind] at h
      rcases bind_ok.1 h with ⟨readBuf, happend, -⟩
      exact ⟨readBuf, happend⟩
    · rintro ⟨readBuf, happend⟩
      refine ⟨{ k with readBuf }, ?_⟩
      rw [ok_bind, happend]
      rfl
  · rename_i hlen
    obtain ⟨readBuf, hfill⟩ :=
      (Buffer.addBytes_isOk (b := k.readBuf.fill (bytes.take k.readBuf.bytesCanWrite))).2
        (Nat.not_lt.1 hlen)
    exact ⟨fun _ => .inl (Nat.not_lt.1 hlen), fun _ => ⟨{ k with readBuf }, by rw [hfill]; rfl⟩⟩

/-- `EAGAIN` leads to more bytes, unless the code stops on the way. -/
theorem readFromPeer_again (h : k.readFromPeer .again = .ok k') :
    k.readBuf.bytesToRead < k'.readBuf.bytesToRead := by
  have hcan : k.readBuf.bytesCanWrite = k.readBuf.byteSize - k.readBuf.writeIndex := rfl
  have hmax : Buffer.maxSize = 2 ^ 63 - 1 := rfl
  simp only [readFromPeer] at h
  split at h
  · -- what is to be appended is bigger than any vector
    rcases bind_ok.1 h with ⟨filled, hfill, h⟩
    rcases bind_ok.1 h with ⟨readBuf, happend, h⟩
    rcases Buffer.addBytes_fields hfill with ⟨-, hindex, -⟩
    rcases Buffer.append_size happend with ⟨hfits, hsize⟩
    omega
  · rcases bind_ok.1 h with ⟨readBuf, hfill, h⟩
    cases h
    rcases Buffer.addBytes_fields hfill with ⟨-, -, hbytes⟩
    rw [hbytes]
    exact Nat.lt_add_of_pos_right (by norm_num)

/-- Any other result is read. -/
theorem receive_stays {result : ReadResult} (hcloses : result.closes = false) :
    k.receive result = k.readFromPeer result :=
  if_neg (by simp [hcloses])

theorem appendsReceived_of_closes {result : ReadResult} (hcloses : result.closes = true)
    (hnone : result.delivered = []) : AppendsReceived k result := by
  rcases receive_closes (k := k) hcloses with ⟨k', hok, hbuf⟩
  exact ⟨k', hok, by rw [hbuf, hnone, List.append_nil]⟩

/-- Just what `readv` delivered is behind the unread bytes if and only if it did not say
`EAGAIN`, and the bytes that it put on the stack fit into a vector. -/
theorem appendsReceived_iff (k : TcpConnection) (result : ReadResult) :
    AppendsReceived k result ↔
      result ≠ .again ∧ k.readBuf.HasRoom result.delivered.length := by
  cases result with
  | data bytes =>
    by_cases hempty : bytes = []
    · subst hempty
      -- a `read` of 0 bytes closes, and appends nothing
      have hreceived : AppendsReceived k (.data []) := appendsReceived_of_closes rfl rfl
      have hroom : k.readBuf.HasRoom (ReadResult.data []).delivered.length :=
        k.readBuf.hasRoom_zero
      exact iff_of_true hreceived ⟨by simp, hroom⟩
    · have hstays : (ReadResult.data bytes).closes = false := by
        simpa [ReadResult.closes] using hempty
      unfold AppendsReceived
      rw [receive_stays hstays]
      constructor
      · rintro ⟨k', hok, -⟩
        exact ⟨by simp, readFromPeer_data_isOk.1 ⟨k', hok⟩⟩
      · rintro ⟨-, hroom⟩
        rcases readFromPeer_data_isOk.2 hroom with ⟨k', hok⟩
        exact ⟨k', hok, readFromPeer_data hok⟩
  | again =>
    -- the -1 of `read` is cast to `size_t`, and the buffer takes it for bytes that arrived
    have hnot : ¬ AppendsReceived k .again := by
      rintro ⟨k', hok, hread⟩
      rw [receive_stays rfl] at hok
      have hmore := readFromPeer_again hok
      rw [← Buffer.length_readable, ← Buffer.length_readable, hread, ReadResult.delivered,
        List.append_nil] at hmore
      exact absurd hmore (Nat.lt_irrefl _)
    exact iff_of_false hnot fun h => h.1 rfl
  | error =>
    have hreceived : AppendsReceived k .error := appendsReceived_of_closes rfl rfl
    have hroom : k.readBuf.HasRoom ReadResult.error.delivered.length := k.readBuf.hasRoom_zero
    exact iff_of_true hreceived ⟨by simp, hroom⟩

/-- The buffer of a new connection would have to grow to `2^64 - 65538` bytes. -/
theorem again_counts_as_data :
    (new 0 4 .kConnected).receive .again = .error .exception ∧
      ¬ AppendsReceived (new 0 4 .kConnected) .again := by
  have hfault : (new 0 4 .kConnected).receive .again = .error .exception := rfl
  refine ⟨hfault, ?_⟩
  rintro ⟨k', hok, -⟩
  rw [hfault] at hok
  cases hok

end TcpConnection

end FxServer
