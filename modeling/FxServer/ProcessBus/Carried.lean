import FxServer.ProcessBus.Attach
import FxServer.ProcessBus.Reopen

/-!
# FxServer.ProcessBus.Carried — what the file of a bus carries from one process to the next

The pointers of a ring are the process's own, and what they point to is in the mapping, where every
process sees it. `Carries` says which messages the file has, with what a mapping shows behind its
end.

A pointer of one process means nothing to another, but offsets do. Whatever a process has seen
before, what it does next depends on its pointers only up to `reload`, which reads the offsets
and the cells from the mapping.

* `reload_eq` — a process that looks finds the ring that has been stored.
* `opening_leaves` — whatever the operating system answers, a call that opens a bus keeps the
  messages, unless it is a `Listen` that succeeds.
* `carries_pageOut` — the byte behind the end of the file matters while it is in use.
-/

namespace FxServer

open Machine Cyclic

/-! ## The ring in the mapping -/

namespace RingBuffer

/-- The ring with what the mapping shows: its pointers are the process's own, and what they point
to is everyone's. -/
def reload (r : RingBuffer) (mapping : ℕ → UInt8) : RingBuffer :=
  { r with
    mem := fun i => mapping (kRegionStart + i)
    frontOffset := leValue (get mapping 1 8)
    backOffset := leValue (get mapping 9 8)
    elementSize := leValue (get mapping 17 8) }

variable {r r₀ : RingBuffer} {mapping : ℕ → UInt8}

/-- The mapping shows the ring, from behind the header on. -/
def ShownIn (r : RingBuffer) (mapping : ℕ → UInt8) : Prop := ∀ i, 1 ≤ i → mapping i = r.image i

theorem ShownIn.data (h : r.ShownIn mapping) : get mapping 1 24 = r.offsetData := by
  rw [← ProcessBus.length_offsetData r]
  refine Eq.trans (List.map_congr_left fun i _ => h (1 + i) (Nat.le_add_right 1 i)) ?_
  exact get_put_same

/-- The three words in front of the region. -/
theorem ShownIn.words (h : r.ShownIn mapping) :
    leValue (get mapping 1 8) = r.frontOffset % 2 ^ 64 ∧
      leValue (get mapping 9 8) = r.backOffset % 2 ^ 64 ∧
      leValue (get mapping 17 8) = r.elementSize % 2 ^ 64 := by
  have hwords := h.data
  have hsplit : get mapping 1 24 = get mapping 1 8 ++ get mapping 9 8 ++ get mapping 17 8 := by
    rw [show 24 = 8 + 8 + 8 from rfl, get_add, get_add]
  rw [hsplit, offsetData] at hwords
  rcases List.append_inj hwords (by simp) with ⟨hfirst, hthird⟩
  rcases List.append_inj hfirst (by simp) with ⟨hfirst, hsecond⟩
  rw [hfirst, hsecond, hthird]
  exact ⟨leValue_leBytes 8 _, leValue_leBytes 8 _, leValue_leBytes 8 _⟩

theorem ShownIn.mem (h : r.ShownIn mapping) (i : ℕ) : mapping (kRegionStart + i) = r.mem i := by
  rw [h _ (by unfold kRegionStart; omega), ProcessBus.image_region]

/-- That is all it takes to show it. -/
theorem shownIn_of (hwords : get mapping 1 24 = r.offsetData)
    (hmem : ∀ i, mapping (kRegionStart + i) = r.mem i) : r.ShownIn mapping := by
  intro i hi
  have hstart : kRegionStart = 25 := rfl
  by_cases hword : i < kRegionStart
  · have hget : (get mapping 1 24)[i - 1]? = some (mapping i) := by
      unfold Cyclic.get
      rw [List.getElem?_map, List.getElem?_range (by omega), Option.map_some,
        Nat.add_sub_cancel' hi]
    rw [image, put, if_pos hi, ← hwords, hget, Option.getD_some]
  · have hregion := hmem (i - kRegionStart)
    rw [Nat.add_sub_cancel' (by omega)] at hregion
    rw [hregion, ← ProcessBus.image_region, Nat.add_sub_cancel' (by omega)]

/-- A process finds the ring that is shown, whatever it has seen before. -/
theorem reload_eq {ms : List (List UInt8)} (h : r.ShownIn mapping) (hholds : Holds r ms)
    (hsize : r₀.size = r.size) : r₀.reload mapping = r := by
  rcases h.words with ⟨hfront, hback, hcount⟩
  have hlt := r.size_lt
  have hlt₁ := hholds.stores.length_lt
  have hfront_le := hholds.front_le
  have hback_le := hholds.stores.back_le
  have hcount_eq := hholds.count
  rw [Nat.mod_eq_of_lt (by omega)] at hfront hback hcount
  cases r
  simp only [reload, RingBuffer.mk.injEq]
  exact ⟨hsize, funext h.mem, hfront, hback, hcount⟩

/-- A ring built on old data is the old ring as the mapping shows it. -/
theorem onMapping_reload {mmapLen : UInt32} (hsize : r.size + kOffsetDataLength = mmapLen.toNat) :
    onMapping mapping mmapLen true = .ok (r.reload mapping) := by
  have hpos := r.size_pos
  unfold onMapping
  rw [dif_pos (by omega)]
  cases r
  simp only [reload, Except.ok.injEq, RingBuffer.mk.injEq, if_true, and_true]
  exact (Nat.eq_sub_of_add_eq hsize).symm

end RingBuffer

/-! ## The file of a bus -/

namespace ProcessBus

open RingBuffer

/-- The messages in the file of a bus of `len` bytes are those of `q`. A `TryRecover` that finds no
file leaves one behind that is empty. -/
def Carries (len : ℕ) (behind : ℕ → UInt8) (q : List (List UInt8)) : Option BusFile → Prop
  | none => q = []
  | some f => f.size = 0 ∧ q = [] ∨
      f.size = len ∧ ∃ r : RingBuffer, r.size + kOffsetDataLength = len ∧
        r.ShownIn (f.view behind) ∧ Holds r q

/-- A bus of a process: when it is not open it has no ring, and its ring spans the file. -/
structure Attached (len : ℕ) (b : ProcessBus) (file : Option BusFile) : Prop where
  mmapLen : b.mmapLen.toNat = len
  /-- a bus that is not open has no ring -/
  closed : b.inited = false → b.buf = none
  /-- the ring of an open bus fills the file behind the header -/
  ring : ∀ r, b.buf = some r → r.size + kOffsetDataLength = len ∧ ∃ f, file = some f ∧ f.size = len

/-- A file of the size of the bus stays one. -/
def KeepsSize (len : ℕ) (file file' : Option BusFile) : Prop :=
  (∃ f, file = some f ∧ f.size = len) → ∃ f, file' = some f ∧ f.size = len

theorem Attached.mono {len : ℕ} {b : ProcessBus} {file file' : Option BusFile}
    (h : Attached len b file) (hsize : KeepsSize len file file') : Attached len b file' :=
  ⟨h.mmapLen, h.closed, fun r hr => ⟨(h.ring r hr).1, hsize (h.ring r hr).2⟩⟩

variable {b : ProcessBus} {f : BusFile} {file : Option BusFile} {os : Outcome} {len : ℕ}
  {q : List (List UInt8)} {behind : ℕ → UInt8}

theorem attached_inited (hlen : b.mmapLen.toNat = len) (hinited : b.inited = true)
    (hring : ∀ r, b.buf = some r →
      r.size + kOffsetDataLength = len ∧ ∃ f, file = some f ∧ f.size = len) :
    Attached len b file :=
  ⟨hlen, fun hno => absurd (hinited.symm.trans hno) Bool.noConfusion, hring⟩

/-- A ring that has been stored is the one that is shown. -/
theorem shownIn_store {r : RingBuffer} (hbehind : ∀ i, f.size ≤ i → behind i = r.image i) :
    r.ShownIn ((f.store r).view behind) := by
  intro i hi
  show (if i < f.size then if 1 ≤ i ∧ i < f.size then r.image i else f.content i else behind i) = _
  split
  · rename_i hlt
    rw [if_pos ⟨hi, hlt⟩]
  · exact hbehind i (by omega)

/-- The ring of zeros that a file shows when it has been extended. -/
theorem carries_zero (hlen : kOffsetDataLength + kExtraSpace ≤ len) (hlt : len < 2 ^ 63)
    (hsize : f.size = 0) : Carries len behind [] (some (f.ftruncate len)) := by
  have hdata : kOffsetDataLength = 24 := rfl
  have hextra : kExtraSpace = 1 := rfl
  have hzero : ∀ i < len, (f.ftruncate len).view behind i = 0 := by
    intro i hi
    show (if i < len then if i < f.size then f.content i else 0 else behind i) = 0
    rw [if_pos hi, if_neg (by omega)]
  refine .inr ⟨rfl, .new (len - kOffsetDataLength)
    (fun i => (f.ftruncate len).view behind (kRegionStart + i)) (Nat.le_sub_of_add_le' hlen)
    (by omega), Nat.sub_add_cancel (by omega), ?_, holds_new _ _ _ _⟩
  -- zero bytes are the three words of an empty ring
  have hwords : (List.range 24).map (fun _ => (0 : UInt8)) =
      leBytes 8 0 ++ leBytes 8 0 ++ leBytes 8 0 := by decide
  refine shownIn_of (Eq.trans (List.map_congr_left fun i hi => ?_) hwords) fun i => rfl
  rw [List.mem_range] at hi
  exact hzero (1 + i) (by omega)

/-- `ftruncate` to the size of the bus keeps the messages. -/
theorem carries_truncate (hlen : kOffsetDataLength + kExtraSpace ≤ len) (hlt : len < 2 ^ 63)
    (h : Carries len behind q file) :
    Carries len behind q (some ((file.getD .created).ftruncate len)) := by
  cases file with
  | none =>
    obtain rfl : q = [] := h
    exact carries_zero hlen hlt rfl
  | some f =>
    rcases h with ⟨hsize, rfl⟩ | ⟨hsize, r, hr, hshown, hholds⟩
    · -- an empty file is filled with zeros
      exact carries_zero hlen hlt hsize
    · refine .inr ⟨rfl, r, hr, ?_, hholds⟩
      intro i hi
      -- a file of this size keeps its bytes
      rw [← hshown i hi]
      show (if i < len then if i < f.size then f.content i else 0 else behind i) =
        if i < f.size then f.content i else behind i
      rw [hsize]
      split <;> rfl

/-- What a call that opens a bus leaves: the bus, the file, and the messages in it, which only a
`Listen` that succeeds discards. -/
structure Leaves (len : ℕ) (behind : ℕ → UInt8) (q : List (List UInt8)) (file : Option BusFile)
    (discards : Bool) (res : ProcessBus × Option BusFile × ℤ) : Prop where
  attached : Attached len res.1 res.2.1
  /-- the file has the size of the bus if it had it before -/
  keepsSize : KeepsSize len file res.2.1
  /-- the messages are those from before, unless they were discarded -/
  carries : Carries len behind (if discards = true ∧ res.2.2 = 0 then [] else q) res.2.1

theorem keepsSize_rfl : KeepsSize len file file := fun h => h

/-- A call that fails before it maps the file. -/
theorem leaves_failed {b' : ProcessBus} {code : ℤ} {discards : Bool} (hcode : code ≠ 0)
    (hring : b'.buf = none) (hlen : b'.mmapLen.toNat = len) (h : Carries len behind q file) :
    Leaves len behind q file discards (b', file, code) := by
  refine ⟨⟨hlen, fun _ => hring, fun r hr => ?_⟩, keepsSize_rfl, ?_⟩
  · rw [hring] at hr
    cases hr
  · rw [if_neg fun h => hcode h.2]
    exact h

/-- The last lines of a call that opens a bus, with a file of its size. -/
theorem map_leaves (b : ProcessBus) (reuse discards : Bool) {failed : ℤ}
    (hlen : kOffsetDataLength + kExtraSpace ≤ b.mmapLen.toNat) (hclosed : b.buf = none)
    (hinited : b.inited = true) (hfailed : failed ≠ 0) (hsize : f.size = b.mmapLen.toNat)
    (h : Carries b.mmapLen.toNat os.behind q (some f))
    (hnew : reuse = false → discards = true ∨ q = []) (hold : reuse = true → discards = false) :
    ∃ res, b.map f os reuse failed = .ok res ∧
      Leaves b.mmapLen.toNat os.behind q (some f) discards res := by
  unfold map
  split
  · have hdata : kOffsetDataLength = 24 := rfl
    have hextra : kExtraSpace = 1 := rfl
    rcases h with ⟨hzero, -⟩ | ⟨-, r, hr, hshown, hholds⟩
    · omega
    · cases reuse with
      | true =>
        have hring : RingBuffer.onMapping (f.view os.behind) b.mmapLen true = .ok r := by
          -- the old ring is built on the mapping again
          rw [onMapping_reload hr, reload_eq hshown hholds rfl]
        refine ⟨_, by rw [hring, ok_bind], ⟨attached_inited rfl hinited fun r' hr' => ?_,
          keepsSize_rfl, ?_⟩⟩
        · cases hr'
          exact ⟨hr, f, rfl, hsize⟩
        · rw [hold rfl, if_neg fun h => Bool.false_ne_true h.1]
          exact .inr ⟨hsize, r, hr, hshown, hholds⟩
      | false =>
        obtain ⟨r₁, hring⟩ : ∃ r₁, RingBuffer.onMapping (f.view os.behind) b.mmapLen false =
            .ok r₁ := ⟨_, dif_pos hlen⟩
        have hmem : ∀ i, r₁.mem i = f.view os.behind (kRegionStart + i) := by
          unfold onMapping at hring
          rw [dif_pos hlen] at hring
          cases hring
          exact fun i => rfl
        -- a new ring writes its three words and keeps the region's bytes
        have hshown₁ : r₁.ShownIn ((f.store r₁).view os.behind) := by
          refine shownIn_store fun i hi => ?_
          have hstart : kRegionStart = 25 := rfl
          have hregion := image_region r₁ (i - kRegionStart)
          rw [hmem, Nat.add_sub_cancel' (by omega)] at hregion
          rw [hregion]
          exact (if_neg (by omega)).symm
        refine ⟨_, by rw [hring, ok_bind], ⟨attached_inited rfl hinited fun r' hr' => ?_,
          fun _ => ⟨f.store r₁, rfl, hsize⟩, ?_⟩⟩
        · cases hr'
          exact ⟨onMapping_size hring, f.store r₁, rfl, hsize⟩
        · have hq : (if discards = true ∧ (0 : ℤ) = 0 then [] else q) = [] := by
            rcases hnew rfl with hdiscards | hq
            · exact if_pos ⟨hdiscards, rfl⟩
            · rw [hq, ite_self]
          show Carries _ _ (if discards = true ∧ (0 : ℤ) = 0 then [] else q) _
          rw [hq]
          exact .inr ⟨hsize, r₁, onMapping_size hring, hshown₁, onMapping_new hring⟩
  · refine ⟨_, rfl, ⟨attached_inited rfl hinited fun r' hr' => ?_, keepsSize_rfl, ?_⟩⟩
    · -- `mmap` failed: no ring, and the file is as it was
      cases hclosed.symm.trans hr'
    · rw [if_neg fun h => hfailed h.2]
      exact h

theorem Leaves.of_file {file₁ : Option BusFile} {discards : Bool}
    {res : ProcessBus × Option BusFile × ℤ} (h : Leaves len behind q file₁ discards res)
    (hsize : KeepsSize len file file₁) : Leaves len behind q file discards res :=
  ⟨h.attached, fun hfile => h.keepsSize (hsize hfile), h.carries⟩

/-- `O_CREAT` -/
theorem carries_getD (h : Carries len behind q file) :
    Carries len behind q (some (file.getD .created)) := by
  cases file with
  | none => exact .inl ⟨rfl, h⟩
  | some f => exact h

/-- Creating a file that is missing changes the size of none that is there. -/
theorem keepsSize_getD : KeepsSize len file (some (file.getD .created)) := by
  rintro ⟨f, rfl, hsize⟩
  exact ⟨f, rfl, hsize⟩

theorem inited_setFd (b : ProcessBus) (fd : ℕ) : (b.setFd fd).inited = true :=
  inited_of_fd (show (b.setFd fd).mmapFd = (fd : ℤ) from rfl)

/-- Each call that opens a bus, with whatever the operating system answers. -/
theorem opening_leaves (op : Opening) (os : Outcome)
    (hlen : kOffsetDataLength + kExtraSpace ≤ b.mmapLen.toNat) (hclosed : b.inited = false)
    (hring : b.buf = none) (htruncates : op ≠ .tryRecover → os.truncates = true)
    (hconnect : op = .connect → ∀ f, file = some f → f.size = b.mmapLen.toNat)
    (h : Carries b.mmapLen.toNat os.behind q file) :
    ∃ res, b.opening op file os = .ok res ∧
      Leaves b.mmapLen.toNat os.behind q file (decide (op = .listen)) res := by
  have hlt : b.mmapLen.toNat < 2 ^ 63 := by
    have hlt := b.mmapLen.toNat_lt
    omega
  have htruncate : ∀ f : BusFile, op ≠ .tryRecover →
      b.truncate f os = f.ftruncate b.mmapLen.toNat := fun f hop => if_pos (htruncates hop)
  cases op with
  | tryRecover =>
    show ∃ res, b.tryRecover file os = .ok res ∧ _
    unfold tryRecover
    rw [check_true hclosed, ok_bind]
    cases os.opens with
    | none => exact ⟨_, rfl, leaves_failed (by decide) hring rfl h⟩
    | some fd =>
      have hfile := carries_getD h
      have hset : (b.setFd fd).buf = none := hring
      dsimp only
      split
      · -- the size cannot be read
        exact ⟨_, rfl, (leaves_failed (by decide) hset rfl hfile).of_file keepsSize_getD⟩
      · split
        · -- or is another one: both times the descriptor is kept
          exact ⟨_, rfl, (leaves_failed (by decide) hset rfl hfile).of_file keepsSize_getD⟩
        · rename_i hsize
          obtain ⟨res, hmap, hleaves⟩ := map_leaves (b.setFd fd) true false hlen hring
            (inited_setFd b fd) (show (-4 : ℤ) ≠ 0 by decide) (not_not.1 hsize) hfile
            Bool.noConfusion (fun _ => rfl)
          exact ⟨res, hmap, hleaves.of_file keepsSize_getD⟩
  | connect =>
    show ∃ res, b.connect file os = .ok res ∧ _
    unfold connect
    rw [check_true hclosed, ok_bind]
    cases os.opens with
    | none => exact ⟨_, rfl, leaves_failed (by decide) hring rfl h⟩
    | some fd =>
      cases file with
      | some f =>
        -- a file that is there is mapped as it is
        exact map_leaves (b.setFd fd) true false hlen hring (inited_setFd b fd) (by decide)
          (hconnect rfl f rfl) h Bool.noConfusion (fun _ => rfl)
      | none =>
        cases os.creates with
        | none => exact ⟨_, rfl, leaves_failed (by decide) hring rfl h⟩
        | some fd' =>
          -- one that is not is created, with no messages
          have hfile := carries_truncate hlen hlt h
          dsimp only
          rw [htruncate _ (by decide)]
          obtain ⟨res, hmap, hleaves⟩ := map_leaves (b.setFd fd') false false hlen hring
            (inited_setFd b fd') (show (-3 : ℤ) ≠ 0 by decide) rfl hfile (fun _ => .inr h)
            Bool.noConfusion
          exact ⟨res, hmap, hleaves.of_file fun hsome => by simp at hsome⟩
  | listen =>
    show ∃ res, b.listen file os = .ok res ∧ _
    unfold listen
    rw [check_true hclosed, ok_bind]
    cases os.opens with
    | none => exact ⟨_, rfl, leaves_failed (by decide) hring rfl h⟩
    | some fd =>
      -- and `Listen` discards what was there
      have hfile := carries_truncate hlen hlt h
      dsimp only
      rw [htruncate _ (by decide)]
      obtain ⟨res, hmap, hleaves⟩ := map_leaves (b.setFd fd) false true hlen hring
        (inited_setFd b fd) (show (-2 : ℤ) ≠ 0 by decide) rfl hfile (fun _ => .inl rfl)
        Bool.noConfusion
      exact ⟨res, hmap, hleaves.of_file fun _ => ⟨_, rfl, rfl⟩⟩

/-! ## Behind the end of the file -/

/-- The last byte of the region lies between the front and the back. -/
def TailInUse (front back size : ℕ) : Prop :=
  if front ≤ back then front < back ∧ back = size else front < size

instance (front back size : ℕ) : Decidable (TailInUse front back size) :=
  inferInstanceAs (Decidable (if front ≤ back then _ else _))

/-- What is behind the end of a file matters as far as the last byte of the region is in use. -/
theorem carries_pageOut {len : ℕ} {f : BusFile} {behind behind' : ℕ → UInt8}
    {ms : List (List UInt8)} (hlen : kOffsetDataLength + kExtraSpace ≤ len)
    (hcarries : Carries len behind ms (some f))
    (htail : behind' f.size = behind f.size ∨
      ¬ TailInUse (leValue (get (f.view behind) 1 8)) (leValue (get (f.view behind) 9 8))
        (f.size - kOffsetDataLength)) : Carries len behind' ms (some f) := by
  rcases hcarries with hzero | ⟨hfsize, r, hsize, hshown, hholds⟩
  · exact .inl hzero
  · have hdata : kOffsetDataLength = 24 := rfl
    have hextra : kExtraSpace = 1 := rfl
    have hstart : kRegionStart = 25 := rfl
    have hinside : ∀ i < f.size, f.view behind' i = f.view behind i := by
      intro i hi
      unfold BusFile.view
      rw [if_pos hi, if_pos hi]
    rcases hshown.words with ⟨hfront, hback, -⟩
    have hlt := r.size_lt
    have hfront_le := hholds.front_le
    have hback_le := hholds.stores.back_le
    have hroom := hholds.room
    rw [Nat.mod_eq_of_lt (by omega)] at hfront hback
    rw [hfront, hback, hfsize, ← hsize, Nat.add_sub_cancel] at htail
    refine .inr ⟨hfsize, { r with mem := fun i => f.view behind' (kRegionStart + i) }, hsize,
      shownIn_of ?_ fun i => rfl, ⟨hfront_le, hholds.back, hroom, ?_, hholds.body, hholds.count⟩⟩
    · -- the words in front of the region are in the file
      show _ = r.offsetData
      rw [← hshown.data]
      refine List.map_congr_left fun i hi => ?_
      rw [List.mem_range] at hi
      exact hinside _ (by omega)
    · refine Eq.trans (List.map_congr_left fun i hi => ?_) hholds.bytes
      rw [List.mem_range] at hi
      have hcell : cell r.size r.frontOffset i < r.size := cell_lt hfront_le (by omega)
      show f.view behind' (kRegionStart + cell r.size r.frontOffset i) = _
      rw [← hshown.mem]
      by_cases hlast : kRegionStart + cell r.size r.frontOffset i < f.size
      · exact hinside _ hlast
      · have hend : kRegionStart + cell r.size r.frontOffset i = f.size := by omega
        have huse : TailInUse r.frontOffset r.backOffset r.size := by
          have hadv := hholds.back
          unfold adv at hadv
          unfold cell at hend
          unfold TailInUse
          split_ifs at hadv hend ⊢ <;> omega
        have hbyte := htail.resolve_right (not_not.2 huse)
        unfold BusFile.view
        rw [if_neg hlast, if_neg hlast, hend, hfsize, ← hsize]
        exact hbyte

end ProcessBus

end FxServer
