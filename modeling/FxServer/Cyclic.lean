import Mathlib.Data.List.Basic
import Mathlib.Algebra.Order.Sub.Basic

/-!
# Cyclic — cells of a memory, used cyclically

A memory is a function `ℕ → α`, of which the cells `0, …, N - 1` are used. A
position is a number up to `N`; the positions `0` and `N` are both before cell `0`.
`getCyc` and `putCyc` read and write lists that go on at cell `0` after cell `N - 1`;
`get` and `put` are the copies that a program makes of them, each within the cells.

The arithmetic of going around is done here once. A position is moved by `adv` and a distance is
measured by `dist`, and whether a write meets what is stored is a comparison of distances. The
modules on rings of messages do not look at remainders.

* `put_put_eq_putCyc`, `get_append_get_eq_getCyc` — a cyclic copy in two pieces.
* `getCyc_putCyc_same`, `getCyc_putCyc_before` — what is written is read back, and
  what is stored before it stays.
-/

namespace Cyclic

variable {α : Type*} {N : ℕ}

/-- `n` cells further from position `p`. -/
def adv (N p n : ℕ) : ℕ := if p + n ≤ N then p + n else p + n - N

/-- The cell `i` cells further from position `p`. -/
def cell (N p i : ℕ) : ℕ := if p + i < N then p + i else p + i - N

/-- How far cell `i` is from position `p`. -/
def dist (N p i : ℕ) : ℕ := if p ≤ i then i - p else i + N - p

/-- The `n` cells from `p` on, within the memory. -/
def get (mem : ℕ → α) (p n : ℕ) : List α := (List.range n).map fun i => mem (p + i)

/-- The `n` cells from `p` on, going around behind cell `N - 1`. -/
def getCyc (N : ℕ) (mem : ℕ → α) (p n : ℕ) : List α :=
  (List.range n).map fun i => mem (cell N p i)

/-- The memory with the list `bs` in the cells from `p` on. -/
def put (mem : ℕ → α) (p : ℕ) (bs : List α) : ℕ → α := fun i =>
  if p ≤ i then bs[i - p]?.getD (mem i) else mem i

/-- The same, going around behind cell `N - 1`. -/
def putCyc (N : ℕ) (mem : ℕ → α) (p : ℕ) (bs : List α) : ℕ → α := fun i =>
  if i < N then bs[dist N p i]?.getD (mem i) else mem i

@[simp] theorem length_get (mem : ℕ → α) (p n : ℕ) : (get mem p n).length = n := by simp [get]

@[simp] theorem length_getCyc (mem : ℕ → α) (p n : ℕ) : (getCyc N mem p n).length = n := by
  simp [getCyc]

/-! ## Plain reading and writing -/

/-- A longer read is two reads, the second where the first ends. -/
theorem get_add {mem : ℕ → α} {p m n : ℕ} :
    get mem p (m + n) = get mem p m ++ get mem (p + m) n := by
  unfold get
  rw [List.range_add, List.map_append, List.map_map]
  congr 1
  refine List.map_congr_left fun i _ => ?_
  rw [Function.comp_apply, Nat.add_assoc]

theorem get_take {mem : ℕ → α} {p m n : ℕ} (h : m ≤ n) : (get mem p n).take m = get mem p m := by
  rw [← Nat.add_sub_cancel' h, get_add, List.take_left' (by simp)]

theorem get_drop {mem : ℕ → α} {p m n : ℕ} :
    (get mem p n).drop m = get mem (p + m) (n - m) := by
  rcases Nat.le_total m n with h | h
  · rw [← Nat.add_sub_cancel' h, get_add, List.drop_left' (by simp), Nat.add_sub_cancel_left]
  · rw [List.drop_eq_nil_of_le (by simpa using h), Nat.sub_eq_zero_of_le h]
    rfl

theorem get_put_same {mem : ℕ → α} {p : ℕ} {bs : List α} :
    get (put mem p bs) p bs.length = bs := by
  refine List.ext_getElem (by simp) fun i h₁ h₂ => ?_
  simp [get, put, h₂]

/-- A put leaves the cells before it alone. -/
theorem get_put_before {mem : ℕ → α} {p q n : ℕ} {bs : List α} (h : q + n ≤ p) :
    get (put mem p bs) q n = get mem q n := by
  refine List.map_congr_left fun i hi => ?_
  rw [List.mem_range] at hi
  rw [put, if_neg (by omega)]

/-! ## Positions -/

theorem adv_le {p n : ℕ} (hp : p ≤ N) (hn : n ≤ N) : adv N p n ≤ N := by
  unfold adv
  split <;> omega

theorem adv_zero {p : ℕ} (hp : p ≤ N) : adv N p 0 = p := by
  rw [adv, if_pos (by omega), Nat.add_zero]

/-- Advances add up as long as they do not go around. -/
theorem adv_adv {p m n : ℕ} (hp : p ≤ N) (hmn : m + n < N) :
    adv N (adv N p m) n = adv N p (m + n) := by
  unfold adv
  split_ifs <;> omega

/-- Less than a full turn away from `p` is not at `p`. -/
theorem adv_eq_self {p n : ℕ} (hp : p ≤ N) (hn : n < N) : adv N p n = p ↔ n = 0 := by
  unfold adv
  split_ifs <;> omega

theorem cell_adv {p m i : ℕ} (hp : p ≤ N) (hi : m + i < N) :
    cell N (adv N p m) i = cell N p (m + i) := by
  unfold cell adv
  split_ifs <;> omega

theorem cell_lt {p i : ℕ} (hp : p ≤ N) (hi : i < N) : cell N p i < N := by
  unfold cell
  split_ifs <;> omega

/-- The distance from an offset to its `i`-th cell is `i`. -/
theorem dist_cell {p i : ℕ} (hp : p ≤ N) (hi : i < N) : dist N p (cell N p i) = i := by
  unfold dist cell
  split_ifs <;> omega

/-- The cell at a distance is the one the distance was taken to. -/
theorem cell_dist {p i : ℕ} (hp : p ≤ N) (hi : i < N) : cell N p (dist N p i) = i := by
  unfold cell dist
  split_ifs <;> omega

/-- A cell before the position `m` further is almost a turn behind it. -/
theorem dist_adv_cell {p m i : ℕ} (hp : p ≤ N) (hm : m ≤ N) (hi : i < m) :
    dist N (adv N p m) (cell N p i) = N - m + i := by
  unfold dist adv cell
  split_ifs <;> omega

/-! ## Reading -/

/-- A longer cyclic read is two reads, the second behind the first. -/
theorem getCyc_append {mem : ℕ → α} {p m n : ℕ} (hp : p ≤ N) (hmn : m + n ≤ N) :
    getCyc N mem p (m + n) = getCyc N mem p m ++ getCyc N mem (adv N p m) n := by
  unfold getCyc
  rw [List.range_add, List.map_append, List.map_map]
  congr 1
  refine List.map_congr_left fun i hi => ?_
  rw [List.mem_range] at hi
  rw [Function.comp_apply, cell_adv hp (by omega)]

/-- A cyclic read that does not reach the end is a plain one. -/
theorem getCyc_eq_get {mem : ℕ → α} {p n : ℕ} (h : p + n ≤ N) :
    getCyc N mem p n = get mem p n := by
  refine List.map_congr_left fun i hi => ?_
  rw [List.mem_range] at hi
  rw [cell, if_pos (by omega)]

/-- A cyclic read from the end of the region starts again at its front. -/
theorem getCyc_end {mem : ℕ → α} {n : ℕ} : getCyc N mem N n = get mem 0 n := by
  refine List.map_congr_left fun i _ => ?_
  rw [cell, if_neg (by omega), Nat.add_sub_cancel_left, Nat.zero_add]

/-- Reading up to the end, and the rest from the start. -/
theorem get_append_get_eq_getCyc {mem : ℕ → α} {p n : ℕ} (hp : p ≤ N) (hend : N - p ≤ n)
    (hn : n ≤ N) :
    get mem p (N - p) ++ get mem 0 (n - (N - p)) = getCyc N mem p n := by
  have hadv : adv N p (N - p) = N := by
    rw [adv, if_pos (by omega)]
    omega
  calc get mem p (N - p) ++ get mem 0 (n - (N - p))
      = getCyc N mem p (N - p) ++ getCyc N mem (adv N p (N - p)) (n - (N - p)) := by
        rw [hadv, getCyc_end, getCyc_eq_get (by omega)]
    _ = getCyc N mem p (N - p + (n - (N - p))) := (getCyc_append hp (by omega)).symm
    _ = getCyc N mem p n := by rw [Nat.add_sub_cancel' hend]

/-! ## Writing -/

/-- A cyclic write that does not reach the end is a plain one. -/
theorem putCyc_eq_put {mem : ℕ → α} {p : ℕ} {bs : List α} (h : p + bs.length ≤ N) :
    putCyc N mem p bs = put mem p bs := by
  funext i
  unfold putCyc put dist
  split_ifs with hi hp hp
  · rfl
  · rw [List.getElem?_eq_none (by omega), Option.getD_none]
  · rw [List.getElem?_eq_none (by omega), Option.getD_none]
  · rfl

/-- Writing up to the end, and the rest from the start. -/
theorem put_put_eq_putCyc {mem : ℕ → α} {p : ℕ} {as bs : List α} (hp : p ≤ N)
    (has : as.length = N - p) (hbs : as.length + bs.length ≤ N) :
    put (put mem p as) 0 bs = putCyc N mem p (as ++ bs) := by
  funext i
  unfold putCyc put dist
  simp only [Nat.zero_le, if_true, Nat.sub_zero]
  by_cases hi : i < bs.length
  · -- the second part went around the end
    have hip : ¬ p ≤ i := by omega
    have hiN : i < N := by omega
    simp only [hip, hiN, if_true, if_false]
    rw [List.getElem?_append_right (by omega), show i + N - p - as.length = i by omega]
  · rw [List.getElem?_eq_none (by omega), Option.getD_none]
    -- a cell of the first part, a cell of neither, or none of the region's
    split_ifs with hpi hiN hiN
    · rw [List.getElem?_append_left (by omega)]
    · rw [List.getElem?_eq_none (by omega), Option.getD_none]
    · rw [List.getElem?_eq_none (by simp; omega), Option.getD_none]
    · rfl

/-- Two cyclic writes, the second behind the first, are one write of both. -/
theorem putCyc_append {mem : ℕ → α} {p : ℕ} (as bs : List α) (hp : p ≤ N)
    (h : as.length + bs.length < N) :
    putCyc N (putCyc N mem p as) (adv N p as.length) bs = putCyc N mem p (as ++ bs) := by
  funext i
  unfold putCyc
  by_cases hi : i < N
  · simp only [hi, if_true]
    by_cases has : dist N p i < as.length
    · -- a cell of `as` is too far from the position behind `as`
      have hdist : bs.length ≤ dist N (adv N p as.length) i := by
        unfold dist adv at *
        split_ifs at * <;> omega
      rw [List.getElem?_eq_none hdist, Option.getD_none, List.getElem?_append_left has]
    · have hdist : dist N (adv N p as.length) i = dist N p i - as.length := by
        unfold dist adv at *
        split_ifs at * <;> omega
      rw [hdist, List.getElem?_append_right (by omega), List.getElem?_eq_none (l := as) (by omega),
        Option.getD_none]
  · simp only [hi, if_false]

/-- A cyclic write puts its `i`-th value into the `i`-th cell. -/
theorem putCyc_cell {mem : ℕ → α} {p i : ℕ} {bs : List α} (hp : p ≤ N) (hbs : bs.length ≤ N)
    (hi : i < bs.length) : putCyc N mem p bs (cell N p i) = bs[i] := by
  have hiN : i < N := Nat.lt_of_lt_of_le hi hbs
  rw [putCyc, if_pos (cell_lt hp hiN), dist_cell hp hiN, List.getElem?_eq_getElem hi,
    Option.getD_some]

/-- A write leaves every cell that is not among its own. -/
theorem putCyc_of_ne {mem : ℕ → α} {p j : ℕ} {bs : List α} (hp : p ≤ N)
    (hj : ∀ i < bs.length, j ≠ cell N p i) : putCyc N mem p bs j = mem j := by
  unfold putCyc
  split
  · rename_i hjN
    have hfar : bs.length ≤ dist N p j := by
      by_contra hnear
      exact hj (dist N p j) (Nat.not_le.1 hnear) (cell_dist hp hjN).symm
    rw [List.getElem?_eq_none hfar, Option.getD_none]
  · rfl

/-- What is written is read back. -/
theorem getCyc_putCyc_same {mem : ℕ → α} {p : ℕ} {bs : List α} (hp : p ≤ N)
    (hbs : bs.length ≤ N) : getCyc N (putCyc N mem p bs) p bs.length = bs := by
  refine List.ext_getElem (by simp) fun i h₁ h₂ => ?_
  have hi : i < N := by omega
  simp [getCyc, putCyc, cell_lt hp hi, dist_cell hp hi, h₂]

/-- A write leaves the cells just before it, up to where it would bite its tail. -/
theorem getCyc_putCyc_before {mem : ℕ → α} {p m : ℕ} {bs : List α} (hp : p ≤ N)
    (h : m + bs.length ≤ N) :
    getCyc N (putCyc N mem (adv N p m) bs) p m = getCyc N mem p m := by
  refine List.map_congr_left fun i hi => ?_
  rw [List.mem_range] at hi
  rw [putCyc, if_pos (cell_lt hp (by omega)), dist_adv_cell hp (by omega) hi,
    List.getElem?_eq_none (by omega), Option.getD_none]

/-- The cells of a plain copy are among the `n` cells behind position `p`. -/
def Within (N p n dst len : ℕ) : Prop :=
  dst + len ≤ N ∧ ∀ i, dst ≤ i → i < dst + len → dist N p i < n

/-- A plain copy behind a position leaves the cells just before it, up to where it would
bite its tail. -/
theorem getCyc_put_before (mem : ℕ → α) {p m n dst : ℕ} {bs : List α} (hp : p ≤ N)
    (h : m + n ≤ N) (hwithin : Within N (adv N p m) n dst bs.length) :
    getCyc N (put mem dst bs) p m = getCyc N mem p m := by
  refine List.map_congr_left fun i hi => ?_
  rw [List.mem_range] at hi
  have hdist := dist_adv_cell hp (by omega) hi
  unfold put
  split
  · rename_i hle
    have hout : dst + bs.length ≤ cell N p i := by
      by_contra hin
      have hnear := hwithin.2 (cell N p i) hle (by omega)
      omega
    rw [List.getElem?_eq_none (by omega), Option.getD_none]
  · rfl

end Cyclic
