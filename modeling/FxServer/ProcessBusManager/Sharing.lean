import FxServer.ProcessBus.Carried
import FxServer.ProcessBusManager

/-!
# FxServer.ProcessBusManager.Sharing — processes that share the buses of a configuration

Each process has a manager, and the managers have been given one configuration file. A process
opens a bus, writes messages and reads them, may die, and is started again with all its buses
closed. What is in a ring is in the file and in the page behind its end, where all processes see
it. Calls are taken one at a time.

`Serves` relates the processes, the files and the page behind each file to one queue for each
bus. A call of one process is a call on the ring that the file shows, whatever that process has
mapped before; the other processes keep their mappings, and will see what the file shows when
they look.

* `buses_are_queues` — in every interleaving of the calls of all processes, each bus is one queue:
  a `Read` returns the oldest message that any process has written there, whoever has died since,
  and no bus sees the calls on another.
-/

namespace FxServer

open Machine Cyclic

/-! ## The manager's calls -/

/-- `mmap_filename` -/
def ConfiguredBus.mmapFilename (b : ConfiguredBus) : String :=
  b.filepath ++ "/" ++ b.busId.toNat.repr ++ ".mmap"

namespace ProcessBusManager

/-- The bus that the map holds under an id, behind a call on it. -/
def setBus (m : ProcessBusManager) (busId : UInt32) (cb : ConfiguredBus) (b : ProcessBus) :
    ProcessBusManager :=
  ⟨Function.update m.busMap busId (some { cb with bus := b })⟩

abbrev Files := String → Option BusFile

/-- `Connect`, `Listen` and `TryRecover`, with what a mapping shows behind the end of each file. -/
def openBus (m : ProcessBusManager) (op : ProcessBus.Opening) (busId : UInt32) (files : Files)
    (behind : String → ℕ → UInt8) (os : Outcome) :
    Except Fault (ProcessBusManager × Files × ℤ) :=
  match m.findBus busId with
  | none => .ok (m, files, -1)
  | some cb => do
    let name := cb.mmapFilename
    let (b, file, code) ← cb.bus.opening op (files name) { os with behind := behind name }
    .ok (m.setBus busId cb b, Function.update files name file, code)

/-- `Write` of a message on the bus with the id. -/
def write (m : ProcessBusManager) (busId : UInt32) (buf : List UInt8) :
    Except Fault (ProcessBusManager × ℤ) :=
  match m.findBus busId with
  | none => .ok (m, -1)
  | some cb => do
    let (b, out) ← cb.bus.apply (.push buf)
    .ok (m.setBus busId cb b, if out = .pushed true then 0 else -2)

/-- The code, and the buffer that `*pbuf` is set to. -/
def read (m : ProcessBusManager) (busId : UInt32) :
    Except Fault (ProcessBusManager × ℤ × Option (List UInt8)) :=
  match m.findBus busId with
  | none => .ok (m, -1, none)
  | some cb => do
    let (b, out) ← cb.bus.apply .pop
    .ok (m.setBus busId cb b, 0, match out with | .popped buf => buf | .pushed _ => none)

end ProcessBusManager

/-! ## The processes -/

namespace ProcessBusManager

/-- The processes, and what they share. -/
structure Host where
  files : Files
  /-- what a mapping of the file shows behind its end -/
  behind : String → ℕ → UInt8
  processes : ℕ → ProcessBusManager

namespace Host

/-- All processes have read the configuration, and no bus has been opened. -/
def new (m : ProcessBusManager) (behind : String → ℕ → UInt8) : Host :=
  ⟨fun _ => none, behind, fun _ => m⟩

/-- What a mapping of the file shows. -/
def view (h : Host) (name : String) : ℕ → UInt8 :=
  match h.files name with
  | none => h.behind name
  | some f => f.view (h.behind name)

/-- The manager of a process, with what is in the mappings of its buses now. -/
def sees (h : Host) (p : ℕ) : ProcessBusManager where
  busMap busId := ((h.processes p).busMap busId).map fun cb =>
    { cb with bus := { cb.bus with buf := cb.bus.buf.map (·.reload (h.view cb.mmapFilename)) } }

/-- What the process has stored in the mapping of a bus is in the file, and behind its end. -/
def keep (h : Host) (cb : ConfiguredBus) : Host :=
  match cb.bus.buf, h.files cb.mmapFilename with
  | some r, some f =>
    { h with
      files := Function.update h.files cb.mmapFilename (some (f.store r))
      behind := Function.update h.behind cb.mmapFilename fun i =>
        if f.size ≤ i then r.image i else h.behind cb.mmapFilename i }
  | _, _ => h

/-- Process `p` returns from a call on a bus with the manager `m`. -/
def returns (h : Host) (p : ℕ) (m : ProcessBusManager) (busId : UInt32) : Host :=
  let h := { h with processes := Function.update h.processes p m }
  match m.findBus busId with
  | none => h
  | some cb => h.keep cb

/-- What happens on the host: a process is started again or calls its manager, or a page
behind the end of a file changes. -/
inductive Act where
  /-- the process has died, and is started again -/
  | restart (p : ℕ)
  | openBus (p : ℕ) (op : ProcessBus.Opening) (busId : UInt32) (os : Outcome)
  | write (p : ℕ) (busId : UInt32) (buf : List UInt8)
  | read (p : ℕ) (busId : UInt32)
  /-- the system changes what is behind the end of a file -/
  | pageOut (name : String) (behind : ℕ → UInt8)

/-- The code a call returns, and the buffer. -/
abbrev Result := ℤ × Option (List UInt8)

/-- The buses of the configuration are those of `m`. -/
def step (m : ProcessBusManager) (h : Host) : Act → Except Fault (Host × Result)
  | .restart p => .ok ({ h with processes := Function.update h.processes p m }, 0, none)
  | .openBus p op busId os => do
    let (m', files, code) ← (h.processes p).openBus op busId h.files h.behind os
    .ok ({ h with files := files, processes := Function.update h.processes p m' }, code, none)
  | .write p busId buf => do
    let (m', code) ← (h.sees p).write busId buf
    .ok (h.returns p m' busId, code, none)
  | .read p busId => do
    let (m', code, buf) ← (h.sees p).read busId
    .ok (h.returns p m' busId, code, buf)
  | .pageOut name behind =>
    .ok ({ h with behind := Function.update h.behind name behind }, 0, none)

end Host

end ProcessBusManager

/-! ## Names -/

/-- What is behind the last `a`. -/
theorem append_cons_inj {α : Type} {a : α} {l l' d d' : List α} (hd : a ∉ d) (hd' : a ∉ d')
    (h : l ++ a :: d = l' ++ a :: d') : d = d' := by
  rcases List.append_eq_append_iff.1 h with ⟨c, -, hc⟩ | ⟨c, -, hc⟩
  · cases c with
    | nil => exact (List.cons.inj hc).2
    | cons x c =>
      rw [(List.cons.inj hc).2] at hd
      exact absurd (by simp) hd
  · cases c with
    | nil => exact (List.cons.inj hc).2.symm
    | cons x c =>
      rw [(List.cons.inj hc).2] at hd'
      exact absurd (by simp) hd'

/-- Digits are no slashes. -/
theorem slash_not_mem_toDigits (n : ℕ) : '/' ∉ Nat.toDigits 10 n := by
  intro hmem
  have hdigit := Nat.isDigit_of_mem_toDigits (by decide) (by decide) hmem
  exact absurd hdigit (by decide)

/-- Two buses have two files. -/
theorem ConfiguredBus.mmapFilename_inj {b b' : ConfiguredBus}
    (h : b.mmapFilename = b'.mmapFilename) : b.busId = b'.busId := by
  have hlist := congrArg String.toList h
  simp only [mmapFilename, String.toList_append, Nat.toList_repr] at hlist
  have hpath := List.append_cancel_right hlist
  rw [List.append_assoc, List.append_assoc] at hpath
  have hdigits := append_cons_inj (slash_not_mem_toDigits _) (slash_not_mem_toDigits _) hpath
  have hnat := congrArg (Nat.ofDigitChars 10 · 0) hdigits
  simp only [Nat.ofDigitChars_toDigits (show 1 < 10 by decide) (show 10 ≤ 10 by decide)] at hnat
  exact UInt32.toNat_inj.1 hnat

namespace ProcessBusManager

open RingBuffer ProcessBus

/-! ## What the processes and the files hold -/

/-- The buses are closed, each under its id, and each has room for a ring. -/
def Configured (m : ProcessBusManager) : Prop := ∀ busId cb, m.findBus busId = some cb →
  cb.busId = busId ∧ cb.bus = .new cb.bus.mmapLen ∧
    kOffsetDataLength + kExtraSpace ≤ cb.bus.mmapLen.toNat

/-- The manager of a process whose configuration is that of `m`. -/
structure Manages (m : ProcessBusManager) (files : Files) (m' : ProcessBusManager) : Prop where
  /-- the process has no bus but those of the configuration -/
  unknown : ∀ busId, m.findBus busId = none → m'.findBus busId = none
  /-- and each of them under its id, with its size, attached to its file or closed -/
  known : ∀ busId cb, m.findBus busId = some cb →
    ∃ b, m'.findBus busId = some { cb with bus := b } ∧
      Attached cb.bus.mmapLen.toNat b (files cb.mmapFilename)

/-- The messages of each bus are those of its queue. -/
structure Serves (m : ProcessBusManager) (h : Host) (q : UInt32 → List (List UInt8)) : Prop where
  /-- every process manages the buses of the configuration -/
  manages : ∀ p, Manages m h.files (h.processes p)
  /-- the file of each bus carries the messages of its queue -/
  carries : ∀ busId cb, m.findBus busId = some cb →
    Carries cb.bus.mmapLen.toNat (h.behind cb.mmapFilename) (q busId) (h.files cb.mmapFilename)

variable {m m' : ProcessBusManager} {h : Host} {q : UInt32 → List (List UInt8)} {files : Files}
  {busId : UInt32} {cb cb' : ConfiguredBus} {p : ℕ}

/-- Two buses of one map have different files. -/
theorem mmapFilename_ne (hm : Configured m) {busId' : UInt32} (hcb : m.findBus busId = some cb)
    (hcb' : m.findBus busId' = some cb') (hne : busId' ≠ busId) :
    cb'.mmapFilename ≠ cb.mmapFilename := by
  intro hname
  have hid := ConfiguredBus.mmapFilename_inj hname
  rw [(hm _ _ hcb).1, (hm _ _ hcb').1] at hid
  exact hne hid

/-- A process that has just been started. -/
theorem manages_start (hm : Configured m) (files : Files) : Manages m files m := by
  refine ⟨fun busId hnone => hnone, fun busId cb hcb => ⟨cb.bus, hcb, rfl, fun _ => ?_, ?_⟩⟩
  · rw [(hm busId cb hcb).2.1]
    rfl
  · intro r hr
    rw [(hm busId cb hcb).2.1] at hr
    cases hr

/-- What happens to one bus is seen under no other id. -/
theorem findBus_setBus (m : ProcessBusManager) (busId : UInt32) (cb : ConfiguredBus)
    (b : ProcessBus) (busId' : UInt32) : (m.setBus busId cb b).findBus busId' =
      if busId' = busId then some { cb with bus := b } else m.findBus busId' :=
  Function.update_apply _ _ _ _

/-- A process finds its bus with what the file holds now. -/
theorem findBus_sees (h : Host) (p : ℕ) (busId : UInt32) : (h.sees p).findBus busId =
    ((h.processes p).findBus busId).map fun cb => { cb with bus := { cb.bus with
      buf := cb.bus.buf.map (·.reload (h.view cb.mmapFilename)) } } := rfl

/-- What a process sees in its mappings changes no size. -/
theorem Manages.sees (hmanages : Manages m h.files (h.processes p)) :
    Manages m h.files (h.sees p) := by
  constructor
  · intro busId hnone
    rw [findBus_sees, hmanages.unknown busId hnone]
    rfl
  · intro busId cb hcb
    rcases hmanages.known busId cb hcb with ⟨b, hb, hattached⟩
    refine ⟨{ b with buf := b.buf.map (·.reload (h.view cb.mmapFilename)) }, ?_,
      ⟨hattached.mmapLen, fun hclosed => ?_, fun r hr => ?_⟩⟩
    · rw [findBus_sees, hb]
      rfl
    · show b.buf.map _ = none
      -- a bus that is not open has no ring to see
      rw [hattached.closed hclosed]
      rfl
    · rcases Option.map_eq_some_iff.1 hr with ⟨r₀, hr₀, rfl⟩
      exact hattached.ring r₀ hr₀

/-- A process comes back from a call on one bus, which may have changed the file of it. -/
theorem Manages.setBus {b : ProcessBus} {file : Option BusFile} (hm : Configured m)
    (hmanages : Manages m files m') (hcb : m.findBus busId = some cb)
    (hattached : Attached cb.bus.mmapLen.toNat b file) (b₀ : ProcessBus) :
    Manages m (Function.update files cb.mmapFilename file)
      (m'.setBus busId { cb with bus := b₀ } b) := by
  constructor
  · intro busId' hnone
    rw [findBus_setBus, if_neg fun heq => by rw [heq, hcb] at hnone; cases hnone]
    exact hmanages.unknown busId' hnone
  · intro busId' cb' hcb'
    rw [findBus_setBus]
    by_cases heq : busId' = busId
    · obtain rfl : cb' = cb := by
        rw [heq, hcb] at hcb'
        exact (Option.some.inj hcb').symm
      rw [if_pos heq, Function.update_self]
      exact ⟨b, rfl, hattached⟩
    · -- another bus has another file
      rw [if_neg heq, Function.update_of_ne (mmapFilename_ne hm hcb hcb' heq)]
      exact hmanages.known busId' cb' hcb'

/-- The other processes keep what they have mapped. -/
theorem Manages.of_file {file : Option BusFile} (hm : Configured m)
    (hmanages : Manages m files m') (hcb : m.findBus busId = some cb)
    (hsize : KeepsSize cb.bus.mmapLen.toNat (files cb.mmapFilename) file) :
    Manages m (Function.update files cb.mmapFilename file) m' := by
  refine ⟨hmanages.unknown, fun busId' cb' hcb' => ?_⟩
  rcases hmanages.known busId' cb' hcb' with ⟨b, hb, hattached⟩
  refine ⟨b, hb, ?_⟩
  by_cases heq : busId' = busId
  · obtain rfl : cb' = cb := by
      rw [heq, hcb] at hcb'
      exact (Option.some.inj hcb').symm
    rw [Function.update_self]
    exact hattached.mono hsize
  · rw [Function.update_of_ne (mmapFilename_ne hm hcb hcb' heq)]
    exact hattached

/-! ## Calls -/

/-- The queues behind a call that has returned `res`. -/
def after (q : UInt32 → List (List UInt8)) : Host.Act → Host.Result → UInt32 → List (List UInt8)
  | .openBus _ .listen busId _, res => if res.1 = 0 then Function.update q busId [] else q
  | .write _ busId buf, res =>
    if res.1 = 0 then Function.update q busId (q busId ++ [buf]) else q
  | .read _ busId, (_, some _) => Function.update q busId (q busId).tail
  | _, _ => q

/-- What a call on a bus is to return when its queue is `q`. -/
def answer (m : ProcessBusManager) (q : UInt32 → List (List UInt8)) :
    Host.Act → Host.Result → Prop
  | .openBus _ _ busId _, res => m.findBus busId = none → res = (-1, none)
  | .write _ busId buf, res => match m.findBus busId with
    | none => res = (-1, none)
    | some cb =>
      -- the test is that of `Push`, which leaves out the length of the message
      let free := cb.bus.mmapLen.toNat - kOffsetDataLength - 1 - (records (q busId)).length
      res = (if toInt free < buf.length then -2 else 0, none)
  | .read _ busId, res => match m.findBus busId with
    | none => res = (-1, none)
    | some _ => res = (0, (q busId).head?)
  | .restart _, _ => True
  | .pageOut _ _, _ => True

/-- The results of the calls are those that the queues give. -/
def obeys (m : ProcessBusManager) :
    (UInt32 → List (List UInt8)) → List Host.Act → List Host.Result → Prop
  | _, [], [] => True
  | q, act :: acts, res :: ress => answer m q act res ∧ obeys m (after q act res) acts ress
  | _, _, _ => False

/-- What a call has put into a bus. -/
def accepts (busId : UInt32) : Host.Act → Host.Result → List (List UInt8)
  | .write _ id buf, res => if id = busId ∧ res.1 = 0 then [buf] else []
  | _, _ => []

/-- What a call has taken out of a bus. -/
def receives (busId : UInt32) : Host.Act → Host.Result → List (List UInt8)
  | .read _ id, res => if id = busId then res.2.toList else []
  | _, _ => []

/-- What all processes together have put into a bus. -/
def accepted (busId : UInt32) (acts : List Host.Act) (ress : List Host.Result) :
    List (List UInt8) := (List.zipWith (accepts busId) acts ress).flatten

/-- What all processes together have taken out of a bus. -/
def received (busId : UInt32) (acts : List Host.Act) (ress : List Host.Result) :
    List (List UInt8) := (List.zipWith (receives busId) acts ress).flatten

/-- What is promised of a call. A bus is opened once, `ftruncate` succeeds, and `Connect` does not
find the empty file that a `TryRecover` has left. A message fits with its length or is refused, and
no length wraps. The system keeps the byte behind the end of a file while it is in use. -/
def Fits (h : Host) : Host.Act → Prop
  | .restart _ => True
  | .openBus p op busId os => ∀ cb ∈ (h.processes p).findBus busId,
      cb.bus.inited = false ∧ (op ≠ .tryRecover → os.truncates = true) ∧
        (op = .connect → ∀ f ∈ h.files cb.mmapFilename, f.size = cb.bus.mmapLen.toNat)
  | .write p busId buf => ∀ cb ∈ (h.sees p).findBus busId, ∃ r ∈ cb.bus.buf,
      0 < buf.length ∧ (Admissible r (.push buf) ∨ r.spaceLeft < buf.length)
  | .read p busId => ∀ cb ∈ (h.sees p).findBus busId, ∃ r ∈ cb.bus.buf, HeaderFits r .pop
  | .pageOut name behind => ∀ f ∈ h.files name, behind f.size = h.behind name f.size ∨
      ¬ TailInUse (leValue (get (h.view name) 1 8)) (leValue (get (h.view name) 9 8))
        (f.size - kOffsetDataLength)

instance (h : Host) : DecidablePred (Fits h)
  | .restart _ => .isTrue trivial
  | .openBus p op busId os => inferInstanceAs (Decidable (∀ cb ∈ (h.processes p).findBus busId,
      cb.bus.inited = false ∧ (op ≠ .tryRecover → os.truncates = true) ∧
        (op = .connect → ∀ f ∈ h.files cb.mmapFilename, f.size = cb.bus.mmapLen.toNat)))
  | .write p busId buf => inferInstanceAs (Decidable (∀ cb ∈ (h.sees p).findBus busId,
      ∃ r ∈ cb.bus.buf, 0 < buf.length ∧ (Admissible r (.push buf) ∨ r.spaceLeft < buf.length)))
  | .read p busId => inferInstanceAs (Decidable (∀ cb ∈ (h.sees p).findBus busId,
      ∃ r ∈ cb.bus.buf, HeaderFits r .pop))
  | .pageOut name behind => inferInstanceAs (Decidable (∀ f ∈ h.files name,
      behind f.size = h.behind name f.size ∨
        ¬ TailInUse (leValue (get (h.view name) 1 8)) (leValue (get (h.view name) 9 8))
          (f.size - kOffsetDataLength)))

/-- The ring that an open bus of a process shows. -/
theorem Serves.ring (hm : Configured m) (hserves : Serves m h q)
    (hcb : m.findBus busId = some cb) {b : ProcessBus}
    (hb : (h.sees p).findBus busId = some { cb with bus := b }) {r : RingBuffer}
    (hr : b.buf = some r) :
    Holds r (q busId) ∧ r.size + kOffsetDataLength = cb.bus.mmapLen.toNat ∧
      ∃ f, h.files cb.mmapFilename = some f ∧ f.size = cb.bus.mmapLen.toNat := by
  rcases (hserves.manages p).known busId cb hcb with ⟨b₀, hb₀, hattached⟩
  -- the ring that the process sees is the one it has, with the bytes of the mapping
  have hsees : some { cb with bus := { b₀ with
      buf := b₀.buf.map (·.reload (h.view cb.mmapFilename)) } } = some { cb with bus := b } := by
    rw [← hb, findBus_sees, hb₀]
    rfl
  have hbuf : b₀.buf.map (·.reload (h.view cb.mmapFilename)) = b.buf :=
    congrArg (fun cb : ConfiguredBus => cb.bus.buf) (Option.some.inj hsees)
  rw [hr] at hbuf
  rcases Option.map_eq_some_iff.1 hbuf with ⟨r₀, hr₀, rfl⟩
  rcases hattached.ring r₀ hr₀ with ⟨hsize, f, hf, hfsize⟩
  have hlen := (hm busId cb hcb).2.2
  have hcarries := hserves.carries busId cb hcb
  rw [hf] at hcarries
  -- an empty file has no ring
  rcases hcarries with ⟨hzero, -⟩ | ⟨-, r, hrsize, hshown, hholds⟩
  · have hdata : kOffsetDataLength = 24 := rfl
    omega
  · have hview : h.view cb.mmapFilename = f.view (h.behind cb.mmapFilename) := by
      unfold Host.view
      rw [hf]
    rw [hview, reload_eq hshown hholds (by omega)]
    exact ⟨hholds, hrsize, f, hf, hfsize⟩

theorem keep_eq {h : Host} {r : RingBuffer} {f : BusFile} (hr : cb.bus.buf = some r)
    (hf : h.files cb.mmapFilename = some f) : h.keep cb = { h with
      files := Function.update h.files cb.mmapFilename (some (f.store r))
      behind := Function.update h.behind cb.mmapFilename fun i =>
        if f.size ≤ i then r.image i else h.behind cb.mmapFilename i } := by
  simp only [Host.keep, hr, hf]

/-- A process comes back from a `Write` or a `Read`. -/
theorem Serves.returns (hm : Configured m) (hserves : Serves m h q)
    (hcb : m.findBus busId = some cb) {b : ProcessBus}
    (hb : (h.sees p).findBus busId = some { cb with bus := b }) {r r' : RingBuffer}
    (hr : b.buf = some r) (hsize : r'.size = r.size) {q' : List (List UInt8)}
    (hholds : Holds r' q') :
    Serves m (h.returns p ((h.sees p).setBus busId { cb with bus := b }
      { b with buf := some r' }) busId) (Function.update q busId q') := by
  rcases hserves.ring hm hcb hb hr with ⟨-, hlen, f, hf, hfsize⟩
  have hsees := (hserves.manages p).sees
  have hkept : KeepsSize cb.bus.mmapLen.toNat (h.files cb.mmapFilename) (some (f.store r')) :=
    fun _ => ⟨f.store r', rfl, hfsize⟩
  have hattached : Attached cb.bus.mmapLen.toNat { b with buf := some r' } (some (f.store r')) := by
    rcases hsees.known busId cb hcb with ⟨b₁, hb₁, hattached⟩
    rw [hb] at hb₁
    obtain rfl : b = b₁ := congrArg ConfiguredBus.bus (Option.some.inj hb₁)
    refine ⟨hattached.mmapLen, fun hclosed => ?_, fun r₁ hr₁ => ?_⟩
    · cases hr.symm.trans (hattached.closed hclosed)
    · cases hr₁
      exact ⟨by omega, f.store r', rfl, hfsize⟩
  -- the host behind the call
  have hhost : h.returns p ((h.sees p).setBus busId { cb with bus := b }
      { b with buf := some r' }) busId =
      { files := Function.update h.files cb.mmapFilename (some (f.store r'))
        behind := Function.update h.behind cb.mmapFilename fun i =>
          if f.size ≤ i then r'.image i else h.behind cb.mmapFilename i
        processes := Function.update h.processes p ((h.sees p).setBus busId { cb with bus := b }
          { b with buf := some r' }) } := by
    unfold Host.returns
    rw [findBus_setBus, if_pos rfl]
    exact keep_eq rfl hf
  rw [hhost]
  constructor
  · intro p'
    by_cases heq : p' = p
    · rw [heq]
      show Manages m _ (Function.update h.processes p _ p)
      rw [Function.update_self]
      exact hsees.setBus hm hcb hattached b
    · show Manages m _ (Function.update h.processes p _ p')
      rw [Function.update_of_ne heq]
      exact (hserves.manages p').of_file hm hcb hkept
  · intro busId' cb' hcb'
    by_cases heq : busId' = busId
    · obtain rfl : cb' = cb := by
        rw [heq, hcb] at hcb'
        exact (Option.some.inj hcb').symm
      rw [heq, Function.update_self]
      show Carries _ (Function.update h.behind _ _ _) _ (Function.update h.files _ _ _)
      rw [Function.update_self, Function.update_self]
      refine .inr ⟨hfsize, r', by omega, shownIn_store fun i hi => if_pos hi, hholds⟩
    · rw [Function.update_of_ne heq]
      have hname := mmapFilename_ne hm hcb hcb' heq
      show Carries _ (Function.update h.behind _ _ _) _ (Function.update h.files _ _ _)
      rw [Function.update_of_ne hname, Function.update_of_ne hname]
      exact hserves.carries busId' cb' hcb'

/-- Opening a bus keeps the queues, unless it discards what was in the file. -/
theorem Serves.openBus (hm : Configured m) (hserves : Serves m h q) {op : Opening} {os : Outcome}
    (hfits : Fits h (.openBus p op busId os)) :
    ∃ h' res, Host.step m h (.openBus p op busId os) = .ok (h', res) ∧
      Serves m h' (after q (.openBus p op busId os) res) ∧
      answer m q (.openBus p op busId os) res := by
  cases hcb : m.findBus busId with
  | none =>
    -- the id is not configured: nothing is opened
    have hnone := (hserves.manages p).unknown busId hcb
    have hsame : after q (.openBus p op busId os) (-1, none) = q := by cases op <;> rfl
    refine ⟨h, (-1, none), ?_, by rwa [hsame], fun _ => rfl⟩
    simp only [Host.step, ProcessBusManager.openBus, hnone, ok_bind, Function.update_eq_self]
  | some cb =>
    rcases (hserves.manages p).known busId cb hcb with ⟨b, hb, hattached⟩
    rcases hfits _ hb with ⟨hclosed, htruncates, hconnect⟩
    have hlen := (hm busId cb hcb).2.2
    have hcarries := hserves.carries busId cb hcb
    rw [← hattached.mmapLen] at hlen hcarries
    obtain ⟨⟨b', file, code⟩, hopen, hleaves⟩ := opening_leaves op
      { os with behind := h.behind cb.mmapFilename } hlen hclosed (hattached.closed hclosed)
      htruncates hconnect hcarries
    rw [hattached.mmapLen] at hleaves
    refine ⟨{ h with
      files := Function.update h.files cb.mmapFilename file
      processes := Function.update h.processes p
        ((h.processes p).setBus busId { cb with bus := b } b') }, (code, none), ?_, ?_,
      fun hnone => ?_⟩
    · have hcall : (h.processes p).openBus op busId h.files h.behind os = .ok
          ((h.processes p).setBus busId { cb with bus := b } b',
            Function.update h.files cb.mmapFilename file, code) := by
        unfold ProcessBusManager.openBus
        rw [hb]
        exact bind_ok.2 ⟨_, hopen, rfl⟩
      show ((h.processes p).openBus op busId h.files h.behind os >>= _) = _
      rw [hcall]
      rfl
    · -- only a `Listen` that succeeds empties the queue
      have hafter : after q (.openBus p op busId os) (code, none) = Function.update q busId
          (if decide (op = .listen) = true ∧ code = 0 then [] else q busId) := by
        cases op with
        | tryRecover | connect => exact (Function.update_eq_self busId q).symm
        | listen =>
          show (if code = 0 then _ else _) = _
          split
          · rename_i hcode
            rw [if_pos ⟨rfl, hcode⟩]
          · rename_i hcode
            rw [if_neg fun h => hcode h.2, Function.update_eq_self]
      rw [hafter]
      constructor
      · -- the processes: this one has the bus open, the others see the file change
        intro p'
        by_cases heq : p' = p
        · rw [heq]
          show Manages m _ (Function.update h.processes p _ p)
          rw [Function.update_self]
          exact (hserves.manages p).setBus hm hcb hleaves.attached b
        · show Manages m _ (Function.update h.processes p _ p')
          rw [Function.update_of_ne heq]
          exact (hserves.manages p').of_file hm hcb hleaves.keepsSize
      · -- the files: this bus's, and those of the other buses
        intro busId' cb' hcb'
        by_cases heq : busId' = busId
        · obtain rfl : cb' = cb := by
            rw [heq, hcb] at hcb'
            exact (Option.some.inj hcb').symm
          rw [heq, Function.update_self]
          show Carries _ _ _ (Function.update h.files _ _ _)
          rw [Function.update_self]
          exact hleaves.carries
        · rw [Function.update_of_ne heq]
          show Carries _ _ _ (Function.update h.files _ _ _)
          rw [Function.update_of_ne (mmapFilename_ne hm hcb hcb' heq)]
          exact hserves.carries busId' cb' hcb'
    · rw [hcb] at hnone
      cases hnone

/-- `Write` and `Read` are calls on the ring. -/
theorem apply_ring {b : ProcessBus} {r r' : RingBuffer} {op : Fifo.Op (List UInt8)}
    {out : Fifo.Out (List UInt8)} (hr : b.buf = some r)
    (hcall : RingBuffer.apply r op = .ok (r', out)) :
    b.apply op = .ok ({ b with buf := some r' }, out) := by
  unfold ProcessBus.apply
  rw [hr]
  exact bind_ok.2 ⟨_, hcall, rfl⟩

/-- The bus that a process sees under an id of the configuration. -/
theorem Serves.findBus_sees (hserves : Serves m h q) (hcb : m.findBus busId = some cb) (p : ℕ) :
    ∃ b, (h.sees p).findBus busId = some { cb with bus := b } := by
  rcases (hserves.manages p).sees.known busId cb hcb with ⟨b, hb, -⟩
  exact ⟨b, hb⟩

/-- An id that is not configured changes nothing. -/
theorem Serves.unknown (hserves : Serves m h q) (hcb : m.findBus busId = none) (p : ℕ) :
    (h.sees p).findBus busId = none ∧ h.returns p (h.sees p) busId =
      { h with processes := Function.update h.processes p (h.sees p) } := by
  have hnone := (hserves.manages p).sees.unknown busId hcb
  refine ⟨hnone, ?_⟩
  unfold Host.returns
  rw [hnone]

/-- A call on a bus that is not configured leaves everything as it was. -/
theorem Serves.returns_unknown (hserves : Serves m h q) (hcb : m.findBus busId = none) (p : ℕ) :
    Serves m (h.returns p (h.sees p) busId) q := by
  rw [(hserves.unknown hcb p).2]
  refine ⟨fun p' => ?_, hserves.carries⟩
  by_cases heq : p' = p
  · rw [heq]
    show Manages m _ (Function.update h.processes p _ p)
    rw [Function.update_self]
    exact (hserves.manages p).sees
  · show Manages m _ (Function.update h.processes p _ p')
    rw [Function.update_of_ne heq]
    exact hserves.manages p'

/-- A write that is accepted is the last of its queue. -/
theorem Serves.write (hm : Configured m) (hserves : Serves m h q) {buf : List UInt8}
    (hfits : Fits h (.write p busId buf)) :
    ∃ h' res, Host.step m h (.write p busId buf) = .ok (h', res) ∧
      Serves m h' (after q (.write p busId buf) res) ∧ answer m q (.write p busId buf) res := by
  cases hcb : m.findBus busId with
  | none =>
    have hnone := (hserves.unknown hcb p).1
    have hwrite : (h.sees p).write busId buf = .ok (h.sees p, -1) := by
      unfold ProcessBusManager.write
      rw [hnone]
    refine ⟨_, (-1, none), bind_ok.2 ⟨_, hwrite, rfl⟩, hserves.returns_unknown hcb p, ?_⟩
    show (match m.findBus busId with | none => _ | some cb => _)
    rw [hcb]
  | some cb =>
    rcases hserves.findBus_sees hcb p with ⟨b, hb⟩
    rcases hfits _ hb with ⟨r, hr, hpos, hspace⟩
    rcases hserves.ring hm hcb hb hr with ⟨hholds, hsize, -⟩
    have hdata : kOffsetDataLength = 24 := rfl
    -- the call on the ring
    obtain ⟨r', accepted, hpush, hsize', hholds', haccepted⟩ : ∃ r' accepted,
        r.push buf = .ok (r', accepted) ∧ r'.size = r.size ∧
        Holds r' (if accepted = true then q busId ++ [buf] else q busId) ∧
        (accepted = true ↔ ¬ r.spaceLeft < buf.length) := by
      by_cases hfull : r.spaceLeft < buf.length
      · refine ⟨r, false, ?_, rfl, hholds, iff_of_false Bool.false_ne_true (not_not.2 hfull)⟩
        unfold push
        rw [check_true hpos, ok_bind, if_pos hfull]
      · rcases hholds.push (hspace.resolve_right hfull) with ⟨r', hpush, hholds'⟩
        exact ⟨r', true, hpush, push_size hpush, hholds', iff_of_true rfl hfull⟩
    have happly : RingBuffer.apply r (.push buf) = .ok (r', .pushed accepted) :=
      bind_ok.2 ⟨_, hpush, rfl⟩
    have hwrite : (h.sees p).write busId buf = .ok ((h.sees p).setBus busId { cb with bus := b }
        { b with buf := some r' }, if accepted = true then 0 else -2) := by
      unfold ProcessBusManager.write
      rw [hb]
      refine bind_ok.2 ⟨_, apply_ring hr happly, ?_⟩
      cases accepted <;> rfl
    refine ⟨_, (if accepted = true then 0 else -2, none), bind_ok.2 ⟨_, hwrite, rfl⟩, ?_, ?_⟩
    · have hafter : after q (.write p busId buf) (if accepted = true then 0 else -2, none) =
          Function.update q busId (if accepted = true then q busId ++ [buf] else q busId) := by
        cases accepted with
        | true => rfl
        | false => exact (Function.update_eq_self busId q).symm
      rw [hafter]
      exact hserves.returns hm hcb hb hr hsize' hholds'
    · show (match m.findBus busId with | none => _ | some cb => _)
      rw [hcb]
      show _ = _
      have hfree : r.spaceLeft = toInt
          (cb.bus.mmapLen.toNat - kOffsetDataLength - 1 - (records (q busId)).length : ℕ) := by
        rw [hholds.stores.spaceLeft_eq, ← hsize, Nat.add_sub_cancel]
      rw [← hfree]
      cases accepted with
      | true => rw [if_neg (haccepted.1 rfl), if_pos rfl]
      | false =>
        have hfull : r.spaceLeft < buf.length := by
          by_contra hno
          cases haccepted.2 hno
        rw [if_pos hfull, if_neg Bool.false_ne_true]

/-- A read takes the head of its queue. -/
theorem Serves.read (hm : Configured m) (hserves : Serves m h q)
    (hfits : Fits h (.read p busId)) :
    ∃ h' res, Host.step m h (.read p busId) = .ok (h', res) ∧
      Serves m h' (after q (.read p busId) res) ∧ answer m q (.read p busId) res := by
  cases hcb : m.findBus busId with
  | none =>
    -- the id is not configured: -1 and nothing else
    have hnone := (hserves.unknown hcb p).1
    have hread : (h.sees p).read busId = .ok (h.sees p, -1, none) := by
      unfold ProcessBusManager.read
      rw [hnone]
    refine ⟨_, (-1, none), bind_ok.2 ⟨_, hread, rfl⟩, hserves.returns_unknown hcb p, ?_⟩
    show (match m.findBus busId with | none => _ | some cb => _)
    rw [hcb]
  | some cb =>
    rcases hserves.findBus_sees hcb p with ⟨b, hb⟩
    rcases hfits _ hb with ⟨r, hr, hheader⟩
    rcases hserves.ring hm hcb hb hr with ⟨hholds, -, -⟩
    -- the ring is the queue of its bus, so `Pop` takes the head
    obtain ⟨r', out, happly, hholds', hout⟩ := apply_refines r (q busId) .pop hholds
      ⟨trivial, hheader⟩
    have hread : (h.sees p).read busId = .ok ((h.sees p).setBus busId { cb with bus := b }
        { b with buf := some r' }, 0, (q busId).head?) := by
      unfold ProcessBusManager.read
      rw [hb]
      refine bind_ok.2 ⟨_, apply_ring hr happly, ?_⟩
      rw [hout]
      rfl
    have hrun : run RingBuffer.apply r [.pop] = .ok (r', [out]) := run_cons_ok happly rfl
    refine ⟨_, (0, (q busId).head?), bind_ok.2 ⟨_, hread, rfl⟩, ?_, ?_⟩
    · have hafter : after q (.read p busId) (0, (q busId).head?) =
          Function.update q busId (q busId).tail := by
        cases hq : q busId with
        | nil =>
          show q = _
          rw [List.tail_nil, ← hq, Function.update_eq_self]
        | cons buf rest =>
          show Function.update q busId (q busId).tail = _
          rw [hq]
      rw [hafter]
      exact hserves.returns hm hcb hb hr (run_size hrun) hholds'
    · show (match m.findBus busId with | none => _ | some cb => _)
      rw [hcb]

/-- What lies behind the file is in no queue. -/
theorem Serves.pageOut (hm : Configured m) (hserves : Serves m h q) {name : String}
    {behind : ℕ → UInt8} (hfits : Fits h (.pageOut name behind)) :
    Serves m { h with behind := Function.update h.behind name behind } q := by
  refine ⟨hserves.manages, fun busId cb hcb => ?_⟩
  have hcarries := hserves.carries busId cb hcb
  show Carries _ (Function.update h.behind name behind _) _ (h.files _)
  by_cases hname : cb.mmapFilename = name
  · rw [hname] at hcarries ⊢
    rw [Function.update_self]
    cases hf : h.files name with
    | none =>
      rw [hf] at hcarries
      exact hcarries
    | some f =>
      rw [hf] at hcarries
      -- the bytes behind the file belong to no message
      have htail := hfits f hf
      have hview : h.view name = f.view (h.behind name) := by
        unfold Host.view
        rw [hf]
      rw [hview] at htail
      exact carries_pageOut (hm busId cb hcb).2.2 hcarries htail
  · rw [Function.update_of_ne hname]
    exact hcarries

/-- A step of any process, or of the system. -/
theorem Serves.step (hm : Configured m) (hserves : Serves m h q) {act : Host.Act}
    (hfits : Fits h act) :
    ∃ h' res, Host.step m h act = .ok (h', res) ∧ Serves m h' (after q act res) ∧
      answer m q act res := by
  cases act with
  | restart p =>
    refine ⟨_, _, rfl, ⟨fun p' => ?_, hserves.carries⟩, trivial⟩
    by_cases heq : p' = p
    · rw [heq]
      show Manages m _ (Function.update h.processes p _ p)
      rw [Function.update_self]
      exact manages_start hm h.files
    · show Manages m _ (Function.update h.processes p _ p')
      rw [Function.update_of_ne heq]
      exact hserves.manages p'
  | openBus p op busId os => exact hserves.openBus hm hfits
  | write p busId buf => exact hserves.write hm hfits
  | read p busId => exact hserves.read hm hfits
  | pageOut name behind => exact ⟨_, _, rfl, hserves.pageOut hm hfits, trivial⟩

/-! ## Runs -/

/-- Every run of every process obeys the queues. -/
theorem Serves.run (hm : Configured m) {acts : List Host.Act} (hserves : Serves m h q)
    (hg : Guarded (Host.step m) Fits h acts) :
    ∃ h' ress, Machine.run (Host.step m) h acts = .ok (h', ress) ∧ obeys m q acts ress := by
  induction acts generalizing h q with
  | nil => exact ⟨h, [], rfl, trivial⟩
  | cons act acts ih =>
    rcases hserves.step hm hg.1 with ⟨h₁, res, hstep, hserves₁, hres⟩
    rcases ih hserves₁ (hg.2 h₁ res hstep) with ⟨h', ress, hrun, hobeys⟩
    exact ⟨h', res :: ress, run_cons_ok hstep hrun, hres, hobeys⟩

/-- What a call takes out of a bus and what it leaves there is what was there and what it puts in,
unless it is a `Listen`. -/
theorem account (busId : UInt32) {act : Host.Act} {res : Host.Result} (hres : answer m q act res) :
    receives busId act res ++ after q act res busId = q busId ++ accepts busId act res ∨
      (∃ p os, act = .openBus p .listen busId os) ∧ receives busId act res = [] ∧
        after q act res busId = [] ∧ accepts busId act res = [] := by
  cases act with
  | restart p => exact .inl (List.append_nil _).symm
  | pageOut name behind => exact .inl (List.append_nil _).symm
  | openBus p op id os =>
    cases op with
    | tryRecover | connect => exact .inl (List.append_nil _).symm
    | listen =>
      show ([] ++ (if res.1 = 0 then Function.update q id [] else q) busId = q busId ++ []) ∨ _
      -- a `Listen` that succeeds empties the queue of its own bus
      split
      · rename_i hcode
        by_cases hid : busId = id
        · rw [hid]
          refine .inr ⟨⟨p, os, rfl⟩, rfl, ?_, rfl⟩
          show (if res.1 = 0 then Function.update q id [] else q) id = []
          rw [if_pos hcode, Function.update_self]
        · rw [Function.update_of_ne hid]
          exact .inl (List.append_nil _).symm
      · exact .inl (List.append_nil _).symm
  | write p id buf =>
    left
    show [] ++ (if res.1 = 0 then Function.update q id (q id ++ [buf]) else q) busId =
      q busId ++ if id = busId ∧ res.1 = 0 then [buf] else []
    -- a write that is accepted is in the queue, another one is not
    by_cases hcode : res.1 = 0
    · by_cases hid : busId = id
      · rw [if_pos hcode, if_pos ⟨hid.symm, hcode⟩, hid, Function.update_self]
        rfl
      · rw [if_pos hcode, if_neg fun h => hid h.1.symm, Function.update_of_ne hid, List.append_nil]
        rfl
    · rw [if_neg hcode, if_neg fun h => hcode h.2, List.append_nil]
      rfl
  | read p id =>
    left
    have hres : match m.findBus id with
      | none => res = (-1, none)
      | some _ => res = (0, (q id).head?) := hres
    -- a read of a bus that is not configured, and one that takes the head
    split at hres
    · rw [hres]
      show (if id = busId then [] else []) ++ q busId = q busId ++ []
      rw [ite_self, List.append_nil]
      rfl
    · rw [hres]
      by_cases hid : id = busId
      · cases hq : q id with
        | nil =>
          show (if id = busId then [] else []) ++ q busId = q busId ++ []
          rw [ite_self, List.append_nil]
          rfl
        | cons buf rest =>
          show (if id = busId then [buf] else []) ++ Function.update q id (q id).tail busId =
            q busId ++ []
          rw [if_pos hid, ← hid, Function.update_self, hq, List.append_nil]
          rfl
      · cases hq : q id with
        | nil =>
          show (if id = busId then [] else []) ++ q busId = q busId ++ []
          rw [ite_self, List.append_nil]
          rfl
        | cons buf rest =>
          show (if id = busId then [buf] else []) ++ Function.update q id (q id).tail busId =
            q busId ++ []
          rw [if_neg hid, Function.update_of_ne (Ne.symm hid), List.append_nil]
          rfl

theorem received_cons (busId : UInt32) (act : Host.Act) (acts : List Host.Act) (res : Host.Result)
    (ress : List Host.Result) : received busId (act :: acts) (res :: ress) =
      receives busId act res ++ received busId acts ress := rfl

theorem accepted_cons (busId : UInt32) (act : Host.Act) (acts : List Host.Act) (res : Host.Result)
    (ress : List Host.Result) : accepted busId (act :: acts) (res :: ress) =
      accepts busId act res ++ accepted busId acts ress := rfl

/-- No message is returned twice, or before an older one, or was never written. -/
theorem obeys_sublist (busId : UInt32) {acts : List Host.Act} {ress : List Host.Result}
    (h : obeys m q acts ress) :
    (received busId acts ress).Sublist (q busId ++ accepted busId acts ress) := by
  induction acts generalizing q ress with
  | nil => exact List.nil_sublist _
  | cons act acts ih =>
    cases ress with
    | nil => exact h.elim
    | cons res ress =>
      have hrest := ih h.2
      rw [received_cons, accepted_cons, ← List.append_assoc]
      rcases account busId h.1 with hcount | ⟨-, hnothing, hcleared, -⟩
      · -- what is read was queued or accepted, in this order
        rw [← hcount, List.append_assoc]
        exact (List.Sublist.refl _).append hrest
      · -- after a `Listen` only what is accepted later can be read
        rw [hcleared, List.nil_append] at hrest
        rw [hnothing, List.nil_append]
        exact hrest.trans (List.sublist_append_right _ _)

/-- Without a `Listen`, no message is left out. -/
theorem obeys_prefix (busId : UInt32) {acts : List Host.Act} {ress : List Host.Result}
    (h : obeys m q acts ress) (hkept : ∀ p os, .openBus p .listen busId os ∉ acts) :
    received busId acts ress <+: q busId ++ accepted busId acts ress := by
  induction acts generalizing q ress with
  | nil => exact List.nil_prefix
  | cons act acts ih =>
    cases ress with
    | nil => exact h.elim
    | cons res ress =>
      have hrest := ih h.2 fun p os hmem => hkept p os (List.mem_cons_of_mem _ hmem)
      rw [received_cons, accepted_cons, ← List.append_assoc]
      rcases account busId h.1 with hcount | ⟨⟨p, os, rfl⟩, -⟩
      · rw [← hcount, List.append_assoc]
        exact (List.prefix_append_right_inj _).2 hrest
      · exact absurd List.mem_cons_self (hkept p os)

/-! ## The configuration -/

/-- `Init` makes buses that are closed. -/
theorem initLoop_closed {T : Type} {tree : PropertyTree T} {entries : List (String × T)} {code : ℤ}
    (hclosed : ∀ busId cb, m.findBus busId = some cb →
      cb.busId = busId ∧ cb.bus = .new cb.bus.mmapLen)
    (hok : initLoop tree m entries = .ok (m', code)) :
    ∀ busId cb, m'.findBus busId = some cb → cb.busId = busId ∧ cb.bus = .new cb.bus.mmapLen := by
  induction entries generalizing m with
  | nil =>
    cases hok
    exact hclosed
  | cons child entries ih =>
    rcases child with ⟨name, entry⟩
    rw [initLoop] at hok
    split at hok
    · exact ih hclosed hok
    · split at hok
      · cases hok
        exact hclosed
      · rename_i bus hread
        rcases bind_ok.1 hok with ⟨_, -, hok⟩
        refine ih (fun busId cb hcb => ?_) hok
        rw [findBus_insert] at hcb
        split at hcb
        · rename_i hid
          cases hcb
          rcases Option.bind_eq_some_iff.1 hread with ⟨id, -, hread⟩
          rcases Option.bind_eq_some_iff.1 hread with ⟨size, -, hread⟩
          rcases Option.bind_eq_some_iff.1 hread with ⟨path, -, hread⟩
          cases hread
          -- the bus that was read has its id, and is not open
          exact ⟨hid.symm, rfl⟩
        · exact hclosed busId cb hcb

theorem serves_new (hm : Configured m) (behind : String → ℕ → UInt8) :
    Serves m (.new m behind) fun _ => [] :=
  ⟨fun _ => manages_start hm _, fun _ _ _ => rfl⟩

/-- The buses of a configuration with two entries. -/
def twoBuses : ProcessBusManager :=
  (new.insert ⟨1, "/tmp", .new 64⟩).insert ⟨2, "/tmp", .new 64⟩

/-- One process writes a message and dies, and another one, which opens the bus later, reads it. -/
def handOver : List Host.Act :=
  [.openBus 0 .connect 1 succeeds, .write 0 1 [1, 2], .restart 0, .openBus 1 .tryRecover 1 succeeds,
    .read 1 1]

end ProcessBusManager

end FxServer
