import FxServer.ProcessBus
import FxServer.RingBuffer.Pending

/-!
# FxServer.ProcessBus.Attach — another process attaches to the file

The region is as long as the process says that attaches. `TryRecover` compares this with the
size of the file, `Connect` with nothing.

The ring of a bus lies in the file, word by word behind the header. So the ring that another
process builds is determined by the file and by the size it has been given, and the question is
only when this is the ring that was stored.

* `attached_ring` — the ring that is built has the offsets that were stored, and the cells as
  far as they are in the file.
* `attach_sound` — it gives the messages back in a region of the same size just when
  the two processes agree on the size, no length wraps, and what was stored behind the end of
  the file is found there.
* `connect_other_size` — a `Connect` with another size reads another message.
-/

namespace FxServer.ProcessBus

open Machine Cyclic

/-! ## What an open bus is -/

/-- A mapping that returned 0 has built its ring on the file. -/
theorem map_inv {b b' : ProcessBus} {f : BusFile} {file : Option BusFile} {os : Outcome}
    {reuse : Bool} {failed : ℤ} (hfailed : failed ≠ 0)
    (h : b.map f os reuse failed = .ok (b', file, 0)) :
    ∃ r, RingBuffer.onMapping (f.view os.behind) b.mmapLen reuse = .ok r ∧ b'.buf = some r ∧
      b'.mmapLen = b.mmapLen := by
  unfold map at h
  split at h
  · rcases bind_ok.1 h with ⟨r, hring, hret⟩
    rcases Prod.mk.inj (Except.ok.inj hret) with ⟨rfl, -⟩
    exact ⟨r, hring, rfl, rfl⟩
  · rcases Prod.mk.inj (Except.ok.inj h) with ⟨-, hret⟩
    exact absurd (Prod.mk.inj hret).2 hfailed

/-- `TryRecover` succeeds on a file of the size of the mapping. -/
theorem tryRecover_inv {b b' : ProcessBus} {f : BusFile} {file : Option BusFile} {os : Outcome}
    (h : b.tryRecover (some f) os = .ok (b', file, 0)) :
    f.size = b.mmapLen.toNat ∧
      ∃ r, RingBuffer.onMapping (f.view os.behind) b.mmapLen true = .ok r ∧ b'.buf = some r := by
  rcases bind_ok.1 h with ⟨_, -, h⟩
  split at h
  · cases h
  · split at h
    · cases h
    · dsimp only at h
      split at h
      · cases h
      · rename_i hsize
        rcases map_inv (by decide) h with ⟨r, hring, hbuf, -⟩
        exact ⟨not_not.1 hsize, r, hring, hbuf⟩

/-- `Connect` succeeds on a file of any size. -/
theorem connect_inv {b b' : ProcessBus} {f : BusFile} {file : Option BusFile} {os : Outcome}
    (h : b.connect (some f) os = .ok (b', file, 0)) :
    ∃ r, RingBuffer.onMapping (f.view os.behind) b.mmapLen true = .ok r ∧ b'.buf = some r := by
  rcases bind_ok.1 h with ⟨_, -, h⟩
  split at h
  · cases h
  · rename_i hfile
    cases hfile
    rcases map_inv (by decide) h with ⟨r, hring, hbuf, -⟩
    exact ⟨r, hring, hbuf⟩
  · rename_i hfile
    cases hfile

/-- The region spans what the process has configured. -/
theorem onMapping_size {mapping : ℕ → UInt8} {mmapLen : UInt32} {reuse : Bool} {r : RingBuffer}
    (h : RingBuffer.onMapping mapping mmapLen reuse = .ok r) :
    r.size + RingBuffer.kOffsetDataLength = mmapLen.toNat := by
  unfold RingBuffer.onMapping at h
  split at h
  · rename_i hlen
    rw [← Except.ok.inj h]
    exact Nat.sub_add_cancel (Nat.le_of_add_right_le hlen)
  · cases h

/-- A ring that does not take over what is in the mapping is empty. -/
theorem onMapping_new {mapping : ℕ → UInt8} {mmapLen : UInt32} {r : RingBuffer}
    (h : RingBuffer.onMapping mapping mmapLen false = .ok r) : RingBuffer.Holds r [] := by
  unfold RingBuffer.onMapping at h
  split at h
  · rename_i hlen
    rw [← Except.ok.inj h]
    exact RingBuffer.holds_new _ _ (Nat.le_sub_of_add_le' hlen) _
  · cases h

/-- `Listen`, and a `Connect` that creates the file, discard what is in it. -/
theorem opened_new {b b' : ProcessBus} {file file' : Option BusFile} {os : Outcome}
    (h : b.listen file os = .ok (b', file', 0) ∨ b.connect none os = .ok (b', file', 0)) :
    ∃ r mapping, b'.buf = some r ∧ RingBuffer.onMapping mapping b.mmapLen false = .ok r := by
  rcases h with h | h
  · rcases bind_ok.1 h with ⟨_, -, h⟩
    split at h
    · cases h
    · rcases map_inv (by decide) h with ⟨r, hring, hbuf, -⟩
      exact ⟨r, _, hbuf, hring⟩
  · -- `Connect` without a file creates one
    rcases bind_ok.1 h with ⟨_, -, h⟩
    split at h
    · cases h
    · rename_i hfile
      cases hfile
    · split at h
      · cases h
      · rcases map_inv (by decide) h with ⟨r, hring, hbuf, -⟩
        exact ⟨r, _, hbuf, hring⟩

/-- The ring of a bus that `Listen` or `Connect` has opened. -/
theorem opened_size {b b' : ProcessBus} {file file' : Option BusFile} {os : Outcome}
    (h : b.listen file os = .ok (b', file', 0) ∨ b.connect file os = .ok (b', file', 0)) :
    ∃ r, b'.buf = some r ∧ r.size + RingBuffer.kOffsetDataLength = b.mmapLen.toNat := by
  cases file with
  | none =>
    rcases opened_new h with ⟨r, mapping, hbuf, hring⟩
    exact ⟨r, hbuf, onMapping_size hring⟩
  | some f =>
    rcases h with h | h
    · rcases opened_new (.inl h) with ⟨r, mapping, hbuf, hring⟩
      exact ⟨r, hbuf, onMapping_size hring⟩
    · rcases connect_inv h with ⟨r, hring, hbuf⟩
      exact ⟨r, hbuf, onMapping_size hring⟩

/-! ## The ring in the file -/

open RingBuffer

theorem length_offsetData (r : RingBuffer) : r.offsetData.length = 24 := by simp [offsetData]

theorem image_region (r : RingBuffer) (i : ℕ) : r.image (kRegionStart + i) = r.mem i := by
  have hstart : kRegionStart = 25 := rfl
  rw [image, put, if_pos (by omega), List.getElem?_eq_none (by rw [length_offsetData]; omega),
    Option.getD_none, Nat.add_sub_cancel_left]

/-- The bytes of `OffsetData` in a file that has room for them. -/
theorem get_view_store {f : BusFile} (r : RingBuffer) (behind : ℕ → UInt8)
    (hfile : kRegionStart ≤ f.size) : get ((f.store r).view behind) 1 24 = r.offsetData := by
  have himage : get ((f.store r).view behind) 1 24 = get r.image 1 24 := by
    refine List.map_congr_left fun i hi => ?_
    rw [List.mem_range] at hi
    have hstart : kRegionStart = 25 := rfl
    show (if 1 + i < f.size then if 1 ≤ 1 + i ∧ 1 + i < f.size then _ else _ else _) = _
    rw [if_pos (by omega), if_pos (by omega)]
  rw [himage, ← length_offsetData r, image, get_put_same]

/-- What a process finds that attaches to a file in which a ring has been kept. -/
theorem attached_ring {f : BusFile} {r r' : RingBuffer} {behind : ℕ → UInt8} {mmapLen : UInt32}
    (hfile : kRegionStart ≤ f.size)
    (h : onMapping ((f.store r).view behind) mmapLen true = .ok r') :
    r'.frontOffset = r.frontOffset % 2 ^ 64 ∧ r'.backOffset = r.backOffset % 2 ^ 64 ∧
      r'.elementSize = r.elementSize % 2 ^ 64 ∧ ∀ i, r'.mem i =
        if kRegionStart + i < f.size then r.mem i else behind (kRegionStart + i) := by
  have hwords := get_view_store r behind hfile
  -- the three words in front of the region
  have hsplit : get ((f.store r).view behind) 1 24 = get ((f.store r).view behind) 1 8 ++
      get ((f.store r).view behind) 9 8 ++ get ((f.store r).view behind) 17 8 := by
    rw [show 24 = 8 + 8 + 8 from rfl, get_add, get_add]
  rw [hsplit, offsetData] at hwords
  rcases List.append_inj hwords (by simp) with ⟨hfirst, hthird⟩
  rcases List.append_inj hfirst (by simp) with ⟨hfirst, hsecond⟩
  unfold onMapping at h
  split at h
  · rw [← Except.ok.inj h]
    refine ⟨?_, ?_, ?_, fun i => ?_⟩
    · show leValue (get _ 1 8) = _
      rw [hfirst, leValue_leBytes]
    · show leValue (get _ 9 8) = _
      rw [hsecond, leValue_leBytes]
    · show leValue (get _ 17 8) = _
      rw [hthird, leValue_leBytes]
    · show (if kRegionStart + i < f.size then
        if 1 ≤ kRegionStart + i ∧ kRegionStart + i < f.size then r.image (kRegionStart + i) else _
        else _) = _
      have hstart : kRegionStart = 25 := rfl
      split
      · rw [if_pos ⟨by omega, by assumption⟩, image_region]
      · rfl
  · cases h

/-- The bytes of the messages that were stored behind the end of the file are found there. -/
def Kept (f : BusFile) (r : RingBuffer) (ms : List (List UInt8)) (behind : ℕ → UInt8) : Prop :=
  ∀ i < (records ms).length, f.size ≤ kRegionStart + cell r.size r.frontOffset i →
    behind (kRegionStart + cell r.size r.frontOffset i) = r.mem (cell r.size r.frontOffset i)

/-- With the size it was made with, the ring gives the messages back. -/
theorem attached_reads_iff {f : BusFile} {r r' : RingBuffer} {ms : List (List UInt8)}
    {behind : ℕ → UInt8} {mmapLen : UInt32} (hpending : Stores r ms)
    (hfile : kRegionStart ≤ f.size) (hsize : r'.size = r.size)
    (h : onMapping ((f.store r).view behind) mmapLen true = .ok r') :
    reads r' ms = true ↔ LengthsFit r.size r.frontOffset ms ∧ Kept f r ms behind := by
  rcases attached_ring hfile h with ⟨hfront, hback, -, hmem⟩
  have hlt := r.size_lt
  have hfront_le := hpending.front_le
  have hback_le := hpending.back_le
  rw [Nat.mod_eq_of_lt (by omega)] at hfront hback
  have hbytes : getCyc r'.size r'.mem r'.frontOffset (records ms).length = records ms ↔
      Kept f r ms behind := by
    have hold := hpending.bytes
    rw [hsize, hfront]
    constructor
    · -- a byte behind the end of the file is the one of the record
      intro hnew i hi hend
      have hcell := congrArg (fun bytes => bytes[i]?) (hnew.trans hold.symm)
      simp only [getCyc, List.getElem?_map, List.getElem?_range hi, Option.map_some,
        Option.some.injEq, hmem] at hcell
      rw [if_neg (by omega)] at hcell
      exact hcell
    · -- a byte in the file has been kept, and the others are found
      intro hkept
      refine Eq.trans (List.map_congr_left fun i hi => ?_) hold
      rw [List.mem_range] at hi
      rw [hmem]
      split
      · rfl
      · exact hkept i hi (by omega)
  constructor
  · intro hreads
    obtain ⟨hstores, hlengths⟩ := stores_of_reads hreads (by omega)
      (by rw [hback, hsize, hfront, hpending.back]) (by rw [hsize]; exact hpending.room)
    rw [hsize, hfront] at hlengths
    exact ⟨hlengths, hbytes.1 hstores.bytes⟩
  · rintro ⟨hlengths, hkept⟩
    have hstores : Stores r' ms := by
      refine ⟨by omega, ?_, ?_, hbytes.2 hkept, hpending.body⟩
      · rw [hback, hsize, hfront, hpending.back]
      · rw [hsize]
        exact hpending.room
    rw [reads_iff hstores, hsize, hfront]
    exact hlengths

/-- A process that attaches to the file of a bus, in which `ms` are pending, gets the ring that
wrote them, just when it has been given the same size, no length of `ms` wraps, and what was
stored of them behind the end of the file is still found there. -/
theorem attach_sound {w w' p p' : ProcessBus} {file disk : Option BusFile} {f : BusFile}
    {os os' : Outcome} {ops : List (Fifo.Op (List UInt8))} {r r' : RingBuffer}
    {ms : List (List UInt8)}
    (hopen : w.listen file os = .ok (w', some f, 0) ∨ w.connect file os = .ok (w', some f, 0))
    (hrun : (run apply w' ops).map (fun res => res.1.buf) = .ok (some r))
    (hpending : Stores r ms) (hfile : kRegionStart ≤ f.size)
    (hattach : p.connect (some (f.store r)) os' = .ok (p', disk, 0) ∨
      p.tryRecover (some (f.store r)) os' = .ok (p', disk, 0))
    (hring : p'.buf = some r') :
    (r'.size = r.size ∧ reads r' ms = true) ↔
      p.mmapLen = w.mmapLen ∧ LengthsFit r.size r.frontOffset ms ∧ Kept f r ms os'.behind := by
  -- the run has kept the size with which the bus was opened
  have hsize : r.size + kOffsetDataLength = w.mmapLen.toNat := by
    rcases opened_size hopen with ⟨r₀, hr₀, hsize₀⟩
    rcases map_ok.1 hrun with ⟨⟨w₁, outs⟩, hrun, hr⟩
    rw [run_apply hr₀] at hrun
    rcases map_ok.1 hrun with ⟨⟨r₁, outs'⟩, hcalls, hret⟩
    rw [← (Prod.mk.inj hret).1] at hr
    obtain rfl : r₁ = r := Option.some.inj hr
    rw [run_size hcalls, hsize₀]
  obtain ⟨r₁, hmapping, hr₁⟩ : ∃ r₁,
      onMapping ((f.store r).view os'.behind) p.mmapLen true = .ok r₁ ∧ p'.buf = some r₁ := by
    rcases hattach with hattach | hattach
    · exact connect_inv hattach
    · exact (tryRecover_inv hattach).2
  obtain rfl : r₁ = r' := Option.some.inj (hr₁.symm.trans hring)
  have hlen : r₁.size = r.size ↔ p.mmapLen = w.mmapLen := by
    have hsize₁ := onMapping_size hmapping
    rw [← UInt32.toNat_inj]
    omega
  rw [← hlen]
  constructor
  · rintro ⟨hsame, hreads⟩
    exact ⟨hsame, (attached_reads_iff hpending hfile hsame hmapping).1 hreads⟩
  · rintro ⟨hsame, hkept⟩
    exact ⟨hsame, (attached_reads_iff hpending hfile hsame hmapping).2 hkept⟩

/-- A reader that connects while two messages are waiting. -/
theorem attach_sound_run :
    ∃ w' f r p' disk r', (new 64).listen none succeeds = .ok (w', some f, 0) ∧
      (run apply w' [.push [1, 2, 3], .push [4]]).map (fun res => res.1.buf) = .ok (some r) ∧
      (new 64).connect (some (f.store r)) succeeds = .ok (p', disk, 0) ∧ p'.buf = some r' ∧
      r'.size = r.size ∧ reads r' [[1, 2, 3], [4]] = true := by
  obtain ⟨r, outs, hrun, hholds, -⟩ := run_refines apply_refines
    (holds_new 40 (fun _ => 0) (by decide) (by decide))
    (show Guarded RingBuffer.apply _ _ [.push [1, 2, 3], .push [4]] by decide)
  have hfront : (run RingBuffer.apply (firstRing 64 (by decide)) [.push [1, 2, 3], .push [4]]).map
      (fun res => (res.1.size, res.1.frontOffset)) = .ok (40, 0) := by decide
  have hrun : run RingBuffer.apply (firstRing 64 (by decide)) [.push [1, 2, 3], .push [4]] =
      .ok (r, outs) := hrun
  rw [hrun] at hfront
  rcases Prod.mk.inj (Except.ok.inj hfront) with ⟨hsize, hfront⟩
  have hopen := listen_first 64 (by decide)
  have hbus : (run apply ⟨64, 3, .mapped, some (firstRing 64 (by decide))⟩
      [.push [1, 2, 3], .push [4]]).map (fun res => res.1.buf) = .ok (some r) := by
    rw [run_apply rfl, hrun]
    rfl
  -- the twelve bytes of the records end well before the region does
  have hkept : Kept (BusFile.store ⟨64, fun _ => 0⟩ (firstRing 64 (by decide))) r [[1, 2, 3], [4]]
      succeeds.behind := by
    intro i hi hend
    have hi : i < 12 := hi
    have hend : 64 ≤ 25 + cell r.size r.frontOffset i := hend
    rw [hsize, hfront, cell, if_pos (by omega)] at hend
    omega
  obtain ⟨p', disk, r', hattach, hring⟩ : ∃ p' disk r',
      (new 64).connect (some (BusFile.store (.store ⟨64, fun _ => 0⟩ (firstRing 64 (by decide))) r))
        succeeds = .ok (p', disk, 0) ∧ p'.buf = some r' := ⟨_, _, _, rfl, rfl⟩
  obtain ⟨hsame, hreads⟩ := (attach_sound (.inl hopen) hbus hholds.stores
    (show 25 ≤ 64 by decide) (.inl hattach) hring).2
    ⟨rfl, by rw [hsize, hfront]; decide, hkept⟩
  exact ⟨_, _, r, p', disk, r', hopen, hbus, hattach, hring, hsame, hreads⟩

/-- Twenty bytes of a message lie across the end of a region of `40` bytes. A `Connect` with a
region of `56` does not return them. -/
theorem connect_other_size :
    ∃ w' f r p' disk r', (new 64).listen none succeeds = .ok (w', some f, 0) ∧
      (run apply w' [.push (List.replicate 20 1), .pop, .push (List.replicate 20 2)]).map
        (fun res => res.1.buf) = .ok (some r) ∧ Stores r [List.replicate 20 2] ∧
      (new 80).connect (some (f.store r)) succeeds = .ok (p', disk, 0) ∧ p'.buf = some r' ∧
      r'.size ≠ r.size ∧ reads r' [List.replicate 20 2] = false := by
  obtain ⟨r, outs, hrun, hholds, -⟩ := run_refines apply_refines
    (holds_new 40 (fun _ => 0) (by decide) (by decide))
    (show Guarded RingBuffer.apply _ _
      [.push (List.replicate 20 1), .pop, .push (List.replicate 20 2)] by decide +kernel)
  have hrun : run RingBuffer.apply (firstRing 64 (by decide))
      [.push (List.replicate 20 1), .pop, .push (List.replicate 20 2)] = .ok (r, outs) := hrun
  -- one evaluation of both sides, up to the reads that differ
  have hwrong : ((run RingBuffer.apply (firstRing 64 (by decide))
      [.push (List.replicate 20 1), .pop, .push (List.replicate 20 2)]) >>= fun res =>
        (onMapping (BusFile.view (.store (.store ⟨64, fun _ => 0⟩ (firstRing 64 (by decide))) res.1)
          succeeds.behind) 80 true).map fun r' =>
            (res.1.size, r'.size, reads r' [List.replicate 20 2])) = .ok (40, 56, false) := by
    decide +kernel
  rw [hrun, ok_bind] at hwrong
  rcases map_ok.1 hwrong with ⟨r', hmapping, hwrong⟩
  rcases Prod.mk.inj hwrong with ⟨hsize, hwrong⟩
  rcases Prod.mk.inj hwrong with ⟨hsize', hwrong⟩
  have hbus : (run apply ⟨64, 3, .mapped, some (firstRing 64 (by decide))⟩
      [.push (List.replicate 20 1), .pop, .push (List.replicate 20 2)]).map
      (fun res => res.1.buf) = .ok (some r) := by
    rw [run_apply rfl, hrun]
    rfl
  -- the length of the file is not looked at, only the one that was asked for
  have hattach : (new 80).connect
      (some (BusFile.store (.store ⟨64, fun _ => 0⟩ (firstRing 64 (by decide))) r)) succeeds =
      .ok (⟨80, 3, .mapped, some r'⟩,
        some (BusFile.store (.store ⟨64, fun _ => 0⟩ (firstRing 64 (by decide))) r), 0) := by
    show ((new 80).setFd (3 : ℕ)).map _ succeeds true (-3) = _
    exact map_of_maps rfl hmapping
  refine ⟨_, _, r, _, _, r', listen_first 64 (by decide), hbus, hholds.stores, hattach, rfl, ?_,
    hwrong⟩
  rw [hsize', hsize]
  decide

end FxServer.ProcessBus
