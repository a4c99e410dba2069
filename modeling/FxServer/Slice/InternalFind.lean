import FxServer.Border
import FxServer.Slice

/-!
# FxServer.Slice.InternalFind — looking for a pattern with an automaton

The model of `Slice::InternalFind` in `src/src/fx_slice.cc`. The automaton has a row for each
character of the slice and of the pattern, and a column for each number of characters that have
matched. An entry is an `unsigned`.

A column of the automaton is a copy of that of the longest border, with the next state written
into one row. So the automaton is right as long as no state is narrowed. The state behind the
last column is the length of the pattern, and when this is no `unsigned` no row has it.

* `internalFind_correct_iff` — the result is the first occurrence, just when the pattern has less
  than `2^32` characters or does not occur.
* `internalFind_misses` — a pattern of `2^32` characters is not found in itself.
-/

namespace FxServer.Slice

open Border

/-- The rows of the automaton, vectors of the length of the pattern. -/
structure DFA where
  /-- the keys of the map -/
  chars : List UInt8
  /-- the size of each vector -/
  size : ℕ
  entry : UInt8 → ℕ → ℕ

namespace DFA

/-- The two loops that make the rows. -/
def new (buf p : List UInt8) : DFA := ⟨buf ++ p, p.length, fun _ _ => 0⟩

/-- `dfa[c][i]` -/
def read (d : DFA) (c : UInt8) (i : ℕ) : Except Fault ℕ :=
  if c ∈ d.chars ∧ i < d.size then .ok (d.entry c i) else .error .outOfBounds

/-- `dfa[c][i] = v` -/
def write (d : DFA) (c : UInt8) (i v : ℕ) : Except Fault DFA :=
  if c ∈ d.chars ∧ i < d.size then
    .ok { d with entry := fun c' i' => if c' = c ∧ i' = i then v % 2 ^ 32 else d.entry c' i' }
  else .error .outOfBounds

/-- The loop over the rows that copies column `x` to column `idx`. -/
def copyColumn (d : DFA) (idx x : ℕ) : Except Fault DFA :=
  if idx < d.size ∧ x < d.size then
    .ok { d with entry := fun c i => if i = idx then d.entry c x else d.entry c i }
  else .error .outOfBounds

end DFA

/-- The loop over the columns: `n` are left. -/
def buildDFA (p : List UInt8) : ℕ → ℕ → ℕ → DFA → Except Fault DFA
  | 0, _, _, dfa => .ok dfa
  | n + 1, idx, x, dfa => do
    let dfa ← dfa.copyColumn idx x
    let c ← charAt p idx
    let dfa ← dfa.write c idx (idx + 1)
    let x ← dfa.read c x
    buildDFA p n (idx + 1) x dfa

/-- The loop over the rest of the slice: the indices `idx` and `m` at which it ends. -/
def runDFA (dfa : DFA) (pLen : ℕ) : List UInt8 → ℕ → ℕ → Except Fault (ℕ × ℕ)
  | [], idx, m => .ok (idx, m)
  | c :: rest, idx, m =>
    if m < pLen then do
      let m ← dfa.read c m
      runDFA dfa pLen rest (idx + 1) m
    else .ok (idx, m)

/-- `InternalFind(p)`; `none` is `npos`. -/
def internalFind (buf p : List UInt8) : Except Fault (Option ℕ) := do
  let c ← charAt p 0
  let dfa ← (DFA.new buf p).write c 0 1
  let dfa ← buildDFA p (p.length - 1) 1 0 dfa
  let (idx, m) ← runDFA dfa p.length buf 0 0
  .ok (if m = p.length then some (idx - p.length) else none)

variable {p buf : List UInt8} {dfa dfa' : DFA} {n idx i x v m : ℕ} {c : UInt8}

theorem DFA.read_ok (hc : c ∈ dfa.chars) (hi : i < dfa.size) :
    dfa.read c i = .ok (dfa.entry c i) := if_pos ⟨hc, hi⟩

/-- The rows are there, for the characters of the pattern and with a column for each. -/
structure Rows (p : List UInt8) (dfa : DFA) : Prop where
  /-- a row has an entry for each number of characters that have matched -/
  size : dfa.size = p.length
  /-- every character of the pattern has its row -/
  chars : ∀ c ∈ p, c ∈ dfa.chars

theorem rows_new (buf p : List UInt8) : Rows p (DFA.new buf p) :=
  ⟨rfl, fun _ hc => List.mem_append_right buf hc⟩

/-- One turn of the loop over the columns. -/
theorem buildDFA_succ (h : Rows p dfa) (hidx : idx < p.length) (hx : x < p.length) :
    ∃ dfa', (∀ c i, dfa'.entry c i = if c = p[idx] ∧ i = idx then (idx + 1) % 2 ^ 32
        else if i = idx then dfa.entry c x else dfa.entry c i) ∧
      dfa'.chars = dfa.chars ∧ Rows p dfa' ∧
      buildDFA p (n + 1) idx x dfa = buildDFA p n (idx + 1) (dfa'.entry p[idx] x) dfa' := by
  have hchar := charAt_eq hidx
  have hc := h.chars p[idx] (List.getElem_mem hidx)
  refine ⟨{ dfa with entry := fun c i => if c = p[idx] ∧ i = idx then (idx + 1) % 2 ^ 32
    else if i = idx then dfa.entry c x else dfa.entry c i }, fun _ _ => rfl, rfl,
    ⟨h.size, h.chars⟩, ?_⟩
  rw [← h.size] at hidx hx
  rw [buildDFA, DFA.copyColumn, if_pos ⟨hidx, hx⟩, ok_bind, hchar, ok_bind, DFA.write,
    if_pos ⟨hc, hidx⟩, ok_bind, DFA.read, if_pos ⟨hc, hx⟩, ok_bind]

/-! ## Patterns whose states are `unsigned`s -/

/-- The columns before `n` are those of the automaton of the pattern. -/
def Built (p : List UInt8) (dfa : DFA) (n : ℕ) : Prop := ∀ i < n, ∀ c, dfa.entry c i = next p i c

/-- Building goes on from a correct column to all columns. -/
theorem buildDFA_spec (hp : p.length < 2 ^ 32) (hrows : Rows p dfa) (hpos : 0 < idx)
    (hbuilt : Built p dfa idx) (hn : n + idx = p.length) :
    ∃ dfa', buildDFA p n idx (border p idx) dfa = .ok dfa' ∧ Rows p dfa' ∧
      Built p dfa' p.length ∧ dfa'.chars = dfa.chars := by
  induction n generalizing idx dfa with
  | zero =>
    rw [Nat.zero_add] at hn
    exact ⟨dfa, rfl, hrows, hn ▸ hbuilt, rfl⟩
  | succ n ih =>
    have hidx : idx < p.length := by omega
    have hlt := border_lt (p := p) hpos
    rcases buildDFA_succ (n := n) hrows hidx (hlt.trans hidx) with
      ⟨dfa₁, hentry, hchars, hrows₁, hstep⟩
    have hsome : p[idx]? = some p[idx] := List.getElem?_eq_getElem hidx
    have hbuilt₁ : Built p dfa₁ (idx + 1) := fun i hi c => by
      rw [hentry]
      rcases (Nat.le_of_lt_succ hi).eq_or_lt with rfl | hlt'
      · by_cases hc : c = p[i]
        · rw [if_pos ⟨hc, rfl⟩, next_of_match (hc ▸ hsome), Nat.mod_eq_of_lt (by omega)]
        · have hne : p[i]? ≠ some c := fun h => hc (Option.some.inj (h.symm.trans hsome))
          rw [if_neg fun h => hc h.1, if_pos rfl, next_of_ne hpos hne, hbuilt _ hlt]
      · rw [if_neg fun h => hlt'.ne h.2, if_neg hlt'.ne, hbuilt i hlt']
    -- the restart column is the one of the longest border
    have hx : dfa₁.entry p[idx] (border p idx) = border p (idx + 1) := by
      rw [hbuilt₁ _ (by omega), next_border hpos hsome]
    rw [hstep, hx]
    rcases ih hrows₁ (Nat.succ_pos idx) hbuilt₁ (by omega) with
        ⟨dfa', hok, hrows', hbuilt', hchars'⟩
    exact ⟨dfa', hok, hrows', hbuilt', hchars'.trans hchars⟩

/-- At the last state the automaton stops. -/
theorem runDFA_done {rest : List UInt8} (hm : n ≤ m) : runDFA dfa n rest idx m = .ok (idx, m) := by
  cases rest with
  | nil => rfl
  | cons c rest => exact if_neg (Nat.not_lt.2 hm)

/-- The automaton finds the first occurrence, from any state that it can be in. -/
theorem runDFA_spec {rest : List UInt8} (hrows : Rows p dfa) (hbuilt : Built p dfa p.length)
    (hchars : ∀ c ∈ buf, c ∈ dfa.chars) (hrest : buf.drop idx = rest) (hle : m ≤ idx)
    (hm : m < p.length) (hmatch : Matches p buf (idx - m) m)
    (hbefore : ∀ k < idx - m, ¬ p <+: buf.drop k) :
    ∃ idx' m', runDFA dfa p.length rest idx m = .ok (idx', m') ∧
      (if m' = p.length then some (idx' - p.length) else none) = Search.first p buf := by
  induction rest generalizing idx m with
  | nil =>
    have hend : buf.length ≤ idx := List.drop_eq_nil_iff.1 hrest
    refine ⟨idx, m, rfl, ?_⟩
    rw [if_neg hm.ne]
    cases hfirst : Search.first p buf with
    | none => rfl
    | some n =>
      have hlen := Search.first_add_le hfirst
      exact absurd (Search.first_eq_some.1 hfirst).2.1 (hbefore n (by omega))
  | cons c rest ih =>
    have hidx : idx < buf.length := by
      by_contra hlen
      rw [List.drop_eq_nil_of_le (Nat.not_lt.1 hlen)] at hrest
      cases hrest
    rw [List.drop_eq_getElem_cons hidx, List.cons_eq_cons] at hrest
    rcases hrest with ⟨rfl, hrest⟩
    have hsome : buf[idx - m + m]? = some buf[idx] := by
      rw [Nat.sub_add_cancel hle, List.getElem?_eq_getElem hidx]
    rcases next_matches hmatch hm hbefore hsome with ⟨hnext, hmatch', hbefore'⟩
    rw [Nat.sub_add_cancel hle] at hmatch' hbefore'
    rw [runDFA, if_pos hm,
      DFA.read_ok (hchars _ (List.getElem_mem hidx)) (by rw [hrows.size]; exact hm), ok_bind,
      hbuilt m hm]
    rcases (Nat.le_trans hnext hm).eq_or_lt with hfull | hpart
    · -- the whole pattern has matched, and the loop stops
      rw [hfull] at hmatch' hbefore' hnext ⊢
      refine ⟨idx + 1, p.length, runDFA_done (Nat.le_refl _), ?_⟩
      rw [if_pos rfl, eq_comm, Search.first_eq_some]
      exact ⟨by omega, matches_length.1 hmatch', hbefore'⟩
    · exact ih hrest (by omega) hpart hmatch' hbefore'

/-- The automaton before the loop over the columns. -/
theorem firstColumn (buf : List UInt8) (hp : p ≠ []) :
    ∃ dfa c, charAt p 0 = .ok c ∧ (DFA.new buf p).write c 0 1 = .ok dfa ∧ Rows p dfa ∧
      dfa.chars = buf ++ p ∧ Built p dfa 1 ∧ ∀ c i, dfa.entry c i < 2 ^ 32 := by
  rcases List.exists_cons_of_ne_nil hp with ⟨c, rest, rfl⟩
  have hc : c ∈ (DFA.new buf (c :: rest)).chars ∧ 0 < (DFA.new buf (c :: rest)).size :=
    ⟨List.mem_append_right buf List.mem_cons_self, Nat.succ_pos _⟩
  refine ⟨_, c, rfl, if_pos hc, ⟨rfl, (rows_new buf (c :: rest)).chars⟩, rfl, fun i hi c' => ?_,
    fun c' i => ?_⟩
  · obtain rfl : i = 0 := by omega
    by_cases hsame : c' = c
    · subst hsame
      -- the first letter leads to state 1, any other one back to 0
      rw [next_of_match rfl]
      exact if_pos ⟨rfl, rfl⟩
    · rw [next_zero_of_ne fun h => hsame (Option.some.inj h).symm]
      exact if_neg fun h => hsame h.1
  · show (if c' = c ∧ i = 0 then 1 % 2 ^ 32 else 0) < 2 ^ 32
    split <;> omega

/-- Below `2 ^ 32` letters `InternalFind` is right. -/
theorem internalFind_short (hp : p ≠ []) (hlen : p.length < 2 ^ 32) (buf : List UInt8) :
    internalFind buf p = .ok (Search.first p buf) := by
  have hpos := List.length_pos_of_ne_nil hp
  rcases firstColumn buf hp with ⟨dfa, c, hc, hwrite, hrows, hchars, hbuilt, -⟩
  have hstart : border p 1 = 0 := Nat.lt_one_iff.1 (border_lt Nat.one_pos)
  rcases buildDFA_spec hlen hrows Nat.one_pos hbuilt (n := p.length - 1) (by omega) with
    ⟨dfa', hbuild, hrows', hbuilt', hchars'⟩
  obtain ⟨idx, m, hrun, hresult⟩ := runDFA_spec hrows' hbuilt'
    (fun c hc => by rw [hchars', hchars]; exact List.mem_append_left p hc)
    (List.drop_zero (l := buf)) (Nat.le_refl 0) hpos matches_zero
    fun k hk => absurd hk (Nat.not_lt_zero k)
  rw [hstart] at hbuild
  unfold internalFind
  rw [hc, ok_bind, hwrite, ok_bind, hbuild, ok_bind, hrun, ok_bind]
  exact congrArg Except.ok hresult

/-! ## Longer patterns -/

/-- From there on it can still be built, with every state narrowed. -/
theorem buildDFA_long (hp : 2 ^ 32 ≤ p.length) (hrows : Rows p dfa)
    (hlt : ∀ c i, dfa.entry c i < 2 ^ 32) (hx : x < 2 ^ 32) (hn : n + idx = p.length) :
    ∃ dfa', buildDFA p n idx x dfa = .ok dfa' ∧ Rows p dfa' ∧
      (∀ c i, dfa'.entry c i < 2 ^ 32) ∧ dfa'.chars = dfa.chars := by
  induction n generalizing idx x dfa with
  | zero => exact ⟨dfa, rfl, hrows, hlt, rfl⟩
  | succ n ih =>
    obtain ⟨dfa₁, hentry, hchars, hrows₁, hstep⟩ :=
      buildDFA_succ (n := n) hrows (show idx < p.length by omega) (Nat.lt_of_lt_of_le hx hp)
    have hlt₁ : ∀ c i, dfa₁.entry c i < 2 ^ 32 := fun c i => by
      rw [hentry]
      split_ifs
      · -- the new state is narrowed as it is written, and the copied ones already were
        exact Nat.mod_lt _ (Nat.two_pow_pos 32)
      · exact hlt c x
      · exact hlt c i
    rw [hstep]
    rcases ih hrows₁ hlt₁ (hlt₁ _ _) (show n + (idx + 1) = p.length by omega) with
      ⟨dfa', hok, hrows', hlt', hchars'⟩
    exact ⟨dfa', hok, hrows', hlt', hchars'.trans hchars⟩

/-- No `unsigned` is the length of the pattern. -/
theorem runDFA_long {rest : List UInt8} (idx : ℕ) (hp : 2 ^ 32 ≤ p.length) (hrows : Rows p dfa)
    (hlt : ∀ c i, dfa.entry c i < 2 ^ 32) (hchars : ∀ c ∈ rest, c ∈ dfa.chars)
    (hm : m < 2 ^ 32) :
    ∃ idx' m', runDFA dfa p.length rest idx m = .ok (idx', m') ∧ m' ≠ p.length := by
  induction rest generalizing idx m with
  | nil => exact ⟨idx, m, rfl, by omega⟩
  | cons c rest ih =>
    rw [List.forall_mem_cons] at hchars
    rw [runDFA, if_pos (by omega), DFA.read_ok hchars.1 (by rw [hrows.size]; omega), ok_bind]
    exact ih (idx + 1) hchars.2 (hlt c m)

/-- No narrowed state is the last, so nothing is found. -/
theorem internalFind_long (hlen : 2 ^ 32 ≤ p.length) (buf : List UInt8) :
    internalFind buf p = .ok none := by
  have hp : p ≠ [] := List.ne_nil_of_length_pos (by omega)
  rcases firstColumn buf hp with ⟨dfa, c, hc, hwrite, hrows, hchars, -, hlt⟩
  obtain ⟨dfa', hbuild, hrows', hlt', hchars'⟩ := buildDFA_long hlen hrows hlt
    (Nat.two_pow_pos 32) (show p.length - 1 + 1 = p.length by omega)
  have hbuf : ∀ c ∈ buf, c ∈ dfa'.chars := fun c hc => by
    rw [hchars', hchars]
    exact List.mem_append_left p hc
  rcases runDFA_long 0 hlen hrows' hlt' hbuf (Nat.two_pow_pos 32) with ⟨idx, m, hrun, hne⟩
  unfold internalFind
  rw [hc, ok_bind, hwrite, ok_bind, hbuild, ok_bind, hrun, ok_bind]
  exact congrArg Except.ok (if_neg hne)

/-! ## The result -/

/-- For every slice and every pattern: `InternalFind` gives the first occurrence, if and only if the
pattern has less than `2^32` characters or does not occur. -/
theorem internalFind_correct_iff (buf p : List UInt8) (hp : p ≠ []) :
    internalFind buf p = .ok (Search.first p buf) ↔ p.length < 2 ^ 32 ∨ ¬ p <:+: buf := by
  rcases Nat.lt_or_ge p.length (2 ^ 32) with hshort | hlong
  · exact iff_of_true (internalFind_short hp hshort buf) (.inl hshort)
  · rw [internalFind_long hlong, Except.ok.injEq, eq_comm, Search.first_eq_none]
    exact ⟨.inr, fun h => h.resolve_left (Nat.not_lt.2 hlong)⟩

/-- `ABCDABD` in a text in which it begins three times. -/
theorem internalFind_correct_run :
    internalFind [65, 66, 67, 68, 65, 66, 67, 68, 65, 66, 68] [65, 66, 67, 68, 65, 66, 68] =
      .ok (some 4) :=
  (internalFind_correct_iff [65, 66, 67, 68, 65, 66, 67, 68, 65, 66, 68]
    [65, 66, 67, 68, 65, 66, 68] (by decide)).2 (by decide)

/-- The last state of a pattern of `2^32` characters is stored as `0`. The pattern is not found in
itself. -/
theorem internalFind_misses :
    Search.first (List.replicate (2 ^ 32) 97) (List.replicate (2 ^ 32) 97) = some 0 ∧
      internalFind (List.replicate (2 ^ 32) 97) (List.replicate (2 ^ 32) 97) = .ok none := by
  refine ⟨?_, internalFind_long (by rw [List.length_replicate]) _⟩
  rw [Search.first_eq_some]
  exact ⟨Nat.zero_le _, List.prefix_refl _, fun m hm => absurd hm (Nat.not_lt_zero m)⟩

end FxServer.Slice
