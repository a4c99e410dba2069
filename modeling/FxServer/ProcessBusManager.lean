import FxServer.ProcessBus

/-!
# FxServer.ProcessBusManager — the buses of a configuration file

The model of `src/base/bus/process_bus_manager.cc`. What the file holds is an input, and what
boost does with a property tree is left open: `PropertyTree.std` is what it does with the trees
that matter.

`Init` walks over the entries and inserts each bus as soon as it has been read, before it looks
at the next one. That is why it cannot be undone: the entry that is malformed is found when the
ones before it are in the map.

* `init_all_or_nothing_iff` — an `Init` that fails leaves the buses as they were just when the
  first entry is the malformed one. Otherwise no corrected file can be loaded behind it.
* `init_keeps_first` — an entry that lacks its size behind one that is right.
-/

namespace FxServer

/-- What the code calls of `boost::property_tree`, for trees of type `T`; `none` is a
`ptree_error`, and a path names keys with dots between them. -/
structure PropertyTree (T : Type) where
  /-- the children in their order, with their keys -/
  children : T → List (String × T)
  getChild : T → String → Option T
  /-- `get<unsigned>` -/
  getUnsigned : T → String → Option UInt32
  /-- `get<std::string>` -/
  getString : T → String → Option String

/-- `boost::property_tree::ptree` -/
inductive Ptree where
  | node (data : String) (children : List (String × Ptree))

namespace Ptree

def data : Ptree → String
  | node data _ => data

def children : Ptree → List (String × Ptree)
  | node _ children => children

/-- `find`: the first child with the key -/
def find (pt : Ptree) (key : List Char) : Option Ptree :=
  (pt.children.find? fun child => child.1.toList = key).map Prod.snd

/-- `walk_path`, along the keys of a path -/
def walkPath (pt : Ptree) : List (List Char) → Option Ptree
  | [] => some pt
  | key :: path => (pt.find key).bind fun child => child.walkPath path

def getChild (pt : Ptree) (path : String) : Option Ptree := pt.walkPath (path.toList.splitOn '.')

/-- The number that decimal digits write. -/
def decimal (s : String) : Option UInt32 :=
  if s.toList ≠ [] ∧ s.toList.all Char.isDigit = true then
    some (UInt32.ofNat (s.toList.foldl (fun n ch => 10 * n + (ch.toNat - 48)) 0))
  else none

end Ptree

/-- The functions of boost, for numbers that are no bigger than an `unsigned`. -/
def PropertyTree.std : PropertyTree Ptree where
  children := Ptree.children
  getChild := Ptree.getChild
  getUnsigned pt path := (pt.getChild path).bind fun attr => Ptree.decimal attr.data
  getString pt path := (pt.getChild path).map Ptree.data

/-- A bus that has been configured. -/
structure ConfiguredBus where
  busId : UInt32
  filepath : String
  bus : ProcessBus

/-- `bus_map_` -/
structure ProcessBusManager where
  busMap : UInt32 → Option ConfiguredBus

namespace ProcessBusManager

def new : ProcessBusManager := ⟨fun _ => none⟩

/-- The bus under an id, if there is one. -/
def findBus (m : ProcessBusManager) (busId : UInt32) : Option ConfiguredBus := m.busMap busId

/-- `bus_map_[id] = pb` -/
def insert (m : ProcessBusManager) (bus : ConfiguredBus) : ProcessBusManager :=
  ⟨Function.update m.busMap bus.busId (some bus)⟩

section Init

variable {T : Type} (tree : PropertyTree T)

/-- The three attributes of an entry, and the bus that is made of them. -/
def readBus (entry : T) : Option ConfiguredBus := do
  let busId ← tree.getUnsigned entry "<xmlattr>.id"
  let size ← tree.getUnsigned entry "<xmlattr>.size"
  let path ← tree.getString entry "<xmlattr>.path"
  some ⟨busId, path, .new size⟩

/-- The loop of `Init`, and the code that `Init` returns. -/
def initLoop (m : ProcessBusManager) :
    List (String × T) → Except Fault (ProcessBusManager × ℤ)
  | [] => .ok (m, 0)
  | (name, entry) :: entries =>
    if name ≠ "Bus" then initLoop m entries
    else
      match readBus tree entry with
      -- the buses before the entry stay
      | none => .ok (m, -1)
      | some bus => do
        check (m.findBus bus.busId = none)
        initLoop (m.insert bus) entries

/-- `Init`, with what `read_xml` makes of the file; `none` is a `ptree_error`. -/
def init (m : ProcessBusManager) (conf : Option T) : Except Fault (ProcessBusManager × ℤ) :=
  match conf.bind fun pt => tree.getChild pt "ProcessBus" with
  | none => .ok (m, -1)
  | some buses => initLoop tree m (tree.children buses)

/-! ## Entries -/

/-- The entries that `Init` looks at. -/
def busEntries (conf : Option T) : List T :=
  ((conf.bind fun pt => tree.getChild pt "ProcessBus").map tree.children).getD [] |>.filterMap
    fun child => if child.1 = "Bus" then some child.2 else none

/-- The configuration has every entry of the other that is right, and no malformed one. -/
def Corrects (conf' conf : Option T) : Prop :=
  (∀ entry ∈ busEntries tree conf', readBus tree entry ≠ none) ∧
    ∀ entry ∈ busEntries tree conf, readBus tree entry ≠ none → entry ∈ busEntries tree conf'

variable {tree} {m m' : ProcessBusManager} {bus : ConfiguredBus}

/-- An inserted bus is found under its own id, and changes what is found under no other. -/
theorem findBus_insert (busId : UInt32) :
    (m.insert bus).findBus busId = if busId = bus.busId then some bus else m.findBus busId :=
  Function.update_apply _ _ _ _

/-- Children of another name are passed over. -/
theorem initLoop_entries (m : ProcessBusManager) (children : List (String × T)) :
    initLoop tree m children = initLoop tree m
      ((children.filterMap fun child => if child.1 = "Bus" then some child.2 else none).map
        fun entry => ("Bus", entry)) := by
  induction children generalizing m with
  | nil => rfl
  | cons child children ih =>
    rcases child with ⟨name, entry⟩
    by_cases hname : name = "Bus"
    · have hif : (if name = "Bus" then some entry else none) = some entry := if_pos hname
      simp only [List.filterMap_cons, hif, List.map_cons, initLoop]
      rw [if_neg (not_not.2 hname), if_neg (not_not.2 rfl)]
      cases readBus tree entry with
      | none => rfl
      | some bus => exact bind_congr fun _ => ih (m.insert bus)
    · have hif : (if name = "Bus" then some entry else none) = none := if_neg hname
      simp only [List.filterMap_cons, hif, initLoop]
      -- a child under another name is passed over
      rw [if_pos hname]
      exact ih m

/-- The loop reads one entry, inserts it and goes on, or returns -1. -/
theorem initLoop_cons (m : ProcessBusManager) (entry : T) (entries : List (String × T)) :
    initLoop tree m (("Bus", entry) :: entries) =
      match readBus tree entry with
      | none => .ok (m, -1)
      | some bus => (do
        check (m.findBus bus.busId = none)
        initLoop tree (m.insert bus) entries) := by
  rw [initLoop, if_neg (not_not.2 rfl)]

/-- A bus that is there stays there. -/
theorem initLoop_keeps {entries : List (String × T)} {code : ℤ} {busId : UInt32}
    (hok : initLoop tree m entries = .ok (m', code)) (hbus : m.findBus busId ≠ none) :
    m'.findBus busId ≠ none := by
  induction entries generalizing m with
  | nil =>
    cases hok
    exact hbus
  | cons child entries ih =>
    rcases child with ⟨name, entry⟩
    rw [initLoop] at hok
    split at hok
    · exact ih hok hbus
    · split at hok
      · cases hok
        -- an entry that cannot be read ends the loop with what is there
        exact hbus
      · rename_i bus hread
        rcases bind_ok.1 hok with ⟨_, -, hok⟩
        refine ih hok ?_
        rw [findBus_insert]
        split
        · -- the same id again, which the assertion excludes
          exact Option.some_ne_none bus
        · exact hbus

/-- The assertion fails at an entry whose id is taken, if the entries before it are right. -/
theorem initLoop_duplicate {entries : List T} {entry : T}
    (hright : ∀ entry ∈ entries, readBus tree entry ≠ none) (hentry : entry ∈ entries)
    (hread : readBus tree entry = some bus) (hbus : m.findBus bus.busId ≠ none) :
    initLoop tree m (entries.map fun entry => ("Bus", entry)) = .error .assertion := by
  induction entries generalizing m with
  | nil => cases hentry
  | cons first entries ih =>
    rw [List.forall_mem_cons] at hright
    rcases Option.ne_none_iff_exists'.1 hright.1 with ⟨bus₁, hfirst⟩
    rw [List.map_cons, initLoop_cons, hfirst]
    by_cases hfree : m.findBus bus₁.busId = none
    · simp only [check_true hfree, ok_bind]
      rcases List.mem_cons.1 hentry with rfl | hentry
      · -- the first entry is the one, and its id is not free
        rw [hfirst, Option.some_inj] at hread
        exact absurd (hread ▸ hfree) hbus
      · refine ih hright.2 hentry ?_
        rw [findBus_insert]
        split
        · exact Option.some_ne_none bus₁
        · exact hbus
    · simp only [check_false hfree]
      rfl

/-! ## Init -/

/-- Where there are entries, `Init` is the loop over them. -/
theorem init_eq (m : ProcessBusManager) (conf : Option T)
    (hentries : busEntries tree conf ≠ []) : init tree m conf =
      initLoop tree m ((busEntries tree conf).map fun entry => ("Bus", entry)) := by
  unfold init busEntries at *
  cases hbuses : conf.bind fun pt => tree.getChild pt "ProcessBus" with
  | none =>
    rw [hbuses] at hentries
    exact absurd rfl hentries
  | some buses => exact initLoop_entries m (tree.children buses)

/-- An `Init` without entries changes nothing. -/
theorem init_nil {conf : Option T} {code : ℤ} (hentries : busEntries tree conf = [])
    (hok : init tree m conf = .ok (m', code)) : m' = m := by
  unfold init at hok
  unfold busEntries at hentries
  split at hok
  · cases hok
    rfl
  · rename_i buses hbuses
    rw [hbuses, Option.map_some, Option.getD_some] at hentries
    rw [initLoop_entries, hentries] at hok
    cases hok
    rfl

/-- `Init` has returned `-1`. It has left the buses as they were if and only if the first entry is
malformed, or there is none. Otherwise the bus of the first entry is in the map, and for each
corrected file the next `Init` fails its assertion. -/
theorem init_all_or_nothing_iff (tree : PropertyTree T) (m m' : ProcessBusManager)
    (conf : Option T) (hok : init tree m conf = .ok (m', -1)) :
    (m' = m ↔ ∀ entry ∈ (busEntries tree conf).head?, readBus tree entry = none) ∧
      (m' ≠ m → ∀ conf', Corrects tree conf' conf →
        init tree m' conf' = .error .assertion) := by
  cases hentries : busEntries tree conf with
  | nil =>
    have hsame := init_nil hentries hok
    exact ⟨iff_of_true hsame (by simp), fun hne => absurd hsame hne⟩
  | cons first entries =>
    rw [init_eq m conf (by simp [hentries]), hentries, List.map_cons, initLoop_cons] at hok
    cases hread : readBus tree first with
    | none =>
      rw [hread] at hok
      cases hok
      exact ⟨iff_of_true rfl (by simp [hread]), fun hne => absurd rfl hne⟩
    | some bus =>
      rw [hread] at hok
      rcases bind_ok.1 hok with ⟨_, hfree, hok⟩
      rw [check_ok] at hfree
      -- the first bus is inserted, and stays whatever comes of the others
      have hbus : m'.findBus bus.busId ≠ none := by
        refine initLoop_keeps hok ?_
        rw [findBus_insert, if_pos rfl]
        exact Option.some_ne_none bus
      constructor
      · -- so the map is not the old one
        refine iff_of_false (fun hsame => hbus (hsame ▸ hfree)) fun hnone => ?_
        have hfirst := hnone first rfl
        rw [hread] at hfirst
        cases hfirst
      · rintro - conf' ⟨hright, hkept⟩
        -- and a second `Init` inserts its id again
        have hmem : first ∈ busEntries tree conf' :=
          hkept first (by simp [hentries]) (by simp [hread])
        rw [init_eq m' conf' (List.ne_nil_of_mem hmem)]
        exact initLoop_duplicate hright hmem hread hbus

end Init

/-- The tree of a file with these entries. -/
def confTree (entries : List (List (String × String))) : Ptree :=
  .node "" [("ProcessBus", .node "" (entries.map fun attrs =>
    ("Bus", .node "" [("<xmlattr>", .node "" (attrs.map fun attr =>
      (attr.1, .node attr.2 [])))])))]

/-- A configuration without a size for its only bus. -/
theorem init_all_or_nothing_run : ∃ m', init .std new
      (some (confTree [[("id", "10001"), ("path", "/tmp")]])) = .ok (m', -1) ∧ m' = new := by
  refine ⟨new, rfl, ?_⟩
  exact (init_all_or_nothing_iff .std new new
    (some (confTree [[("id", "10001"), ("path", "/tmp")]])) rfl).1.2 (by decide +kernel)

/-- The second entry lacks its size. The first stays in the map, and the next `Init` aborts, when
the size has been added. -/
theorem init_keeps_first : ∃ m', init .std new (some (confTree
        [[("id", "1"), ("size", "64"), ("path", "/tmp")], [("id", "2"), ("path", "/tmp")]])) =
      .ok (m', -1) ∧ m' ≠ new ∧
    init .std m' (some (confTree [[("id", "1"), ("size", "64"), ("path", "/tmp")],
      [("id", "2"), ("size", "64"), ("path", "/tmp")]])) = .error .assertion := by
  refine ⟨new.insert ⟨1, "/tmp", .new 64⟩, rfl, fun hsame => ?_, rfl⟩
  have hbus : (new.insert ⟨1, "/tmp", .new 64⟩).findBus 1 = none := by
    rw [hsame]
    rfl
  rw [findBus_insert, if_pos rfl] at hbus
  cases hbus

end ProcessBusManager

end FxServer
