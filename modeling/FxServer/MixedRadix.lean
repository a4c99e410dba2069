import Mathlib.Data.List.Forall2
import Mathlib.Algebra.BigOperators.Group.List.Basic
import Mathlib.Tactic.Linarith
import Mathlib.Tactic.Ring

/-!
# MixedRadix — numbers written in mixed radix, least significant digit first

`value rs ds` is the number that the digits `ds` write in the radices `rs`, and
`digit rs n w` is digit `w` of `n`. For `a ≤ b`, `Lead rs a b w` says that `w` is
the highest digit at which `a` and `b` differ (`0` when they agree): what is left
of `a` and `b` above digit `w` is equal.

The radices are any list of positive numbers. What makes a wheel of wheels work has
nothing to do with its sizes: the order of two numbers is the order of the highest
digit at which they differ.

* `add_spec` — schoolbook addition with carry, which stops at the first digit
  that hands no carry on, stops at the leading digit of the sum.
* `Lead.trichotomy` — moving from `a` up to `c` with leading digit `w'`, how a
  number `b` with leading digit `w` compares with `c` is decided by `w` and `w'`
  and, if these agree, by one digit. A number that `c` has not passed keeps its
  leading digit. This is what makes a hierarchy of buckets work.
-/

namespace MixedRadix

/-- The number written by `ds` in the radices `rs`. -/
def value : List ℕ → List ℕ → ℕ
  | r :: rs, d :: ds => d + r * value rs ds
  | _, _ => 0

/-- Digit `w` of `n`. -/
def digit : List ℕ → ℕ → ℕ → ℕ
  | [], _, _ => 0
  | r :: _, n, 0 => n % r
  | r :: rs, n, w + 1 => digit rs (n / r) w

/-- `ds` has one digit for each radix, each below its radix. -/
def IsDigits (rs ds : List ℕ) : Prop := List.Forall₂ (fun r d => d < r) rs ds

/-- `w` is the highest digit at which `a` and a larger `b` differ. -/
def Lead : List ℕ → ℕ → ℕ → ℕ → Prop
  | [], _, _, _ => False
  | r :: _, a, b, 0 => a / r = b / r
  | r :: rs, a, b, w + 1 => a / r < b / r ∧ Lead rs (a / r) (b / r) w

/-- `w` is the highest digit at which `a` and `b` differ, and `0` when none does. -/
def HighestDiffering (rs : List ℕ) (a b w : ℕ) : Prop :=
  w < rs.length ∧ (∀ v, w < v → v < rs.length → digit rs a v = digit rs b v) ∧
    (digit rs a w ≠ digit rs b w ∨ a = b ∧ w = 0)

/-- Add `n` to the digits `ds`, digit by digit; stop, with the level and the new
digit, where nothing is carried on. `none`: the carry leaves the last digit. -/
def add : List ℕ → List ℕ → ℕ → List ℕ × Option (ℕ × ℕ)
  | r :: rs, d :: ds, n =>
    let s := n % r + d
    let s' := if r ≤ s then s - r else s
    let q := if r ≤ s then n / r + 1 else n / r
    if q = 0 then (s' :: ds, some (0, s'))
    else ((s' :: (add rs ds q).1), (add rs ds q).2.map fun p => (p.1 + 1, p.2))
  | _, ds, _ => (ds, none)

/-- The first number past those that agree with `a` above digit `w` and have the
digit `d` there. -/
def blockEnd : List ℕ → ℕ → ℕ → ℕ → ℕ
  | [], _, _, _ => 0
  | r :: _, a, 0, d => a / r * r + d + 1
  | r :: rs, a, w + 1, d => r * blockEnd rs (a / r) w d

/-! ## Digits -/

/-- There is one digit for each radix. -/
theorem IsDigits.length_eq {rs ds : List ℕ} (h : IsDigits rs ds) : ds.length = rs.length :=
  (List.Forall₂.length_eq h).symm

/-- A number with these digits is below the product of the radices. -/
theorem value_lt {rs ds : List ℕ} (h : IsDigits rs ds) : value rs ds < rs.prod := by
  induction h with
  | nil => simp [value]
  | @cons r d rs ds hd _ ih =>
    have hstep : r * (value rs ds + 1) ≤ r * rs.prod := Nat.mul_le_mul_left r ih
    rw [value, List.prod_cons]
    linarith [Nat.mul_add r (value rs ds) 1]

/-- Every digit is below its radix. -/
theorem digit_lt {rs : List ℕ} (hrs : ∀ r ∈ rs, 0 < r) (n : ℕ) {w : ℕ} (hw : w < rs.length) :
    digit rs n w < rs.getD w 0 := by
  induction rs generalizing n w with
  | nil => simp at hw
  | cons r rs ih =>
    cases w with
    | zero => exact Nat.mod_lt n (hrs r (by simp))
    | succ w => exact ih (fun x hx => hrs x (by simp [hx])) (n / r) (by simpa using hw)

/-- The digits of `value rs ds` are `ds`. -/
theorem getD_eq_digit {rs ds : List ℕ} (h : IsDigits rs ds) (w : ℕ) :
    ds.getD w 0 = digit rs (value rs ds) w := by
  induction h generalizing w with
  | nil => simp [digit]
  | @cons r d rs ds hd _ ih =>
    have hr : 0 < r := Nat.lt_of_le_of_lt (Nat.zero_le d) hd
    cases w with
    | zero => simp [value, digit, Nat.mod_eq_of_lt hd]
    | succ w =>
      have hdiv : (d + r * value rs ds) / r = value rs ds := by
        rw [Nat.add_mul_div_left _ _ hr, Nat.div_eq_of_lt hd, Nat.zero_add]
      simpa [value, digit, hdiv] using ih w

/-! ## The leading digit -/

/-- The highest digit at which two numbers differ is one of the digits. -/
theorem Lead.lt_length {rs : List ℕ} {a b w : ℕ} (h : Lead rs a b w) : w < rs.length := by
  induction rs generalizing a b w with
  | nil => exact h.elim
  | cons r rs ih =>
    cases w with
    | zero => simp
    | succ w => simpa using ih h.2

/-- Above the leading digit nothing changes. -/
theorem Lead.highestDiffering {rs : List ℕ} {a b w : ℕ} (h : Lead rs a b w) :
    HighestDiffering rs a b w := by
  induction rs generalizing a b w with
  | nil => cases h
  | cons r rs ih =>
    cases w with
    | zero =>
      -- the higher digits agree, so this one tells the numbers apart, or they are equal
      have hdiv : a / r = b / r := h
      refine ⟨Nat.succ_pos _, fun v hv _ => ?_, ?_⟩
      · obtain ⟨v, rfl⟩ := Nat.exists_eq_add_of_lt hv
        simp only [Nat.zero_add, digit, hdiv]
      · by_cases hmod : a % r = b % r
        · right
          refine ⟨?_, rfl⟩
          calc
            a = r * (a / r) + a % r := (Nat.div_add_mod a r).symm
            _ = r * (b / r) + b % r := by rw [hdiv, hmod]
            _ = b := Nat.div_add_mod b r
        · exact .inl hmod
    | succ w =>
      rcases h with ⟨hlt, hlead⟩
      rcases ih hlead with ⟨hw, habove, hdiffer⟩
      refine ⟨Nat.succ_lt_succ hw, fun v hv hlen => ?_, .inl ?_⟩
      · cases v with
        | zero => cases hv
        | succ v => exact habove v (Nat.lt_of_succ_lt_succ hv) (Nat.lt_of_succ_lt_succ hlen)
      · -- above this digit the numbers are not equal
        exact hdiffer.resolve_right fun heq => hlt.ne heq.1

/-- The leading digit is unique. -/
theorem Lead.unique {rs : List ℕ} {a b w w' : ℕ} (h : Lead rs a b w) (h' : Lead rs a b w') :
    w = w' := by
  induction rs generalizing a b w w' with
  | nil => exact h.elim
  | cons r rs ih =>
    cases w with
    | zero =>
      cases w' with
      | zero => rfl
      | succ w' => exact absurd h (Nat.ne_of_lt h'.1)
    | succ w =>
      cases w' with
      | zero => exact absurd h' (Nat.ne_of_lt h.1)
      | succ w' => rw [ih h.2 h'.2]

/-- The leading digit of a larger number is not the smaller one. -/
theorem Lead.digit_le {rs : List ℕ} {a b w : ℕ} (h : Lead rs a b w) (hab : a ≤ b) :
    digit rs a w ≤ digit rs b w := by
  induction rs generalizing a b w with
  | nil => exact h.elim
  | cons r rs ih =>
    cases w with
    | zero =>
      have hq : a / r = b / r := h
      have ha := Nat.div_add_mod a r
      have hb := Nat.div_add_mod b r
      rw [hq] at ha
      show a % r ≤ b % r
      omega
    | succ w => exact ih h.2 (Nat.div_le_div_right hab)

/-- Where `b` stands after a move from `a` up to `c`. The move has leading digit
`w'`; `b` has leading digit `w` before it. -/
theorem Lead.trichotomy {rs : List ℕ} {a b c w w' : ℕ} (hb : Lead rs a b w)
    (hc : Lead rs a c w') :
    (w < w' ∨ (w = w' ∧ digit rs b w < digit rs c w) → b < c) ∧
    (w' < w ∨ (w = w' ∧ digit rs c w < digit rs b w) → c < b ∧ Lead rs c b w) := by
  induction rs generalizing a b c w w' with
  | nil => exact hb.elim
  | cons r rs ih =>
    have hlt : ∀ {m n : ℕ}, m / r < n / r → m < n := fun {m n} h =>
      lt_of_not_ge fun hnm => absurd (Nat.div_le_div_right hnm) (Nat.not_le.2 h)
    cases w with
    | zero =>
      have hbq : a / r = b / r := hb
      cases w' with
      | zero =>
        -- same top, so the last digits decide
        have hcq : a / r = c / r := hc
        have hbr := Nat.div_add_mod b r
        have hcr := Nat.div_add_mod c r
        rw [← hbq] at hbr
        rw [← hcq] at hcr
        refine ⟨?_, ?_⟩
        · rintro (h | ⟨-, h⟩)
          · omega
          · change b % r < c % r at h
            omega
        · rintro (h | ⟨-, h⟩)
          · omega
          · change c % r < b % r at h
            exact ⟨by omega, hcq.symm.trans hbq⟩
      | succ w' =>
        refine ⟨fun _ => hlt (hbq ▸ hc.1), ?_⟩
        rintro (h | ⟨h, -⟩) <;> omega
    | succ w =>
      cases w' with
      | zero =>
        have hcq : a / r = c / r := hc
        refine ⟨?_, fun _ => ⟨hlt (hcq ▸ hb.1), hcq ▸ hb.1, hcq ▸ hb.2⟩⟩
        rintro (h | ⟨h, -⟩) <;> omega
      | succ w' =>
        rcases ih hb.2 hc.2 with ⟨hpass, hkeep⟩
        refine ⟨fun h => hlt (hpass ?_), fun h => ?_⟩
        · rcases h with h | ⟨h, hd⟩
          · exact .inl (by omega)
          · exact .inr ⟨by omega, hd⟩
        · obtain ⟨hcb, hlead⟩ := hkeep (by
            rcases h with h | ⟨h, hd⟩
            · exact .inl (by omega)
            · exact .inr ⟨by omega, hd⟩)
          exact ⟨hlt hcb, hcb, hlead⟩

/-- The block of `b` seen from `a` goes on to a last number, which has the leading
digit of `b` too. -/
theorem Lead.blockEnd {rs : List ℕ} (hrs : ∀ r ∈ rs, 0 < r) {a b w : ℕ} (h : Lead rs a b w)
    (hb : b < rs.prod) :
    ∃ c, blockEnd rs a w (digit rs b w) = c + 1 ∧ b ≤ c ∧ c < rs.prod ∧ Lead rs a c w ∧
      digit rs c w = digit rs b w := by
  induction rs generalizing a b w with
  | nil => exact h.elim
  | cons r rs ih =>
    have hr : 0 < r := hrs r (by simp)
    cases w with
    | zero =>
      -- the block is `b` alone
      have hq : a / r = b / r := h
      have hsplit : b / r * r + b % r = b := Nat.div_add_mod' b r
      refine ⟨b, ?_, le_refl b, hb, h, rfl⟩
      show a / r * r + b % r + 1 = b + 1
      rw [hq, hsplit]
    | succ w =>
      have hbq : b / r < rs.prod := by
        rw [List.prod_cons, Nat.mul_comm] at hb
        exact (Nat.div_lt_iff_lt_mul hr).2 hb
      rcases ih (fun x hx => hrs x (by simp [hx])) h.2 hbq with ⟨c, hend, hbc, hlt, hlead, hdigit⟩
      -- the block of the quotients, `r` numbers for each
      have hquot : (r * (c + 1) - 1) / r = c := by
        have hsplit : r * (c + 1) - 1 = r - 1 + r * c := by
          rw [Nat.mul_add, Nat.mul_one]
          omega
        rw [hsplit, Nat.add_mul_div_left _ _ hr, Nat.div_eq_of_lt (by omega), Nat.zero_add]
      have hpos : 0 < r * (c + 1) := Nat.mul_pos hr (Nat.succ_pos c)
      have hprod : r * (c + 1) ≤ r * rs.prod := Nat.mul_le_mul_left r hlt
      refine ⟨r * (c + 1) - 1, ?_, ?_, ?_, ⟨?_, ?_⟩, ?_⟩
      · show r * MixedRadix.blockEnd rs (a / r) w (digit rs (b / r) w) = _
        rw [hend]
        omega
      · have hlast : b < (c + 1) * r := (Nat.div_lt_iff_lt_mul hr).1 (by omega)
        rw [Nat.mul_comm] at hlast
        omega
      · rw [List.prod_cons]
        omega
      · rw [hquot]
        exact Nat.lt_of_lt_of_le h.1 hbc
      · rw [hquot]
        exact hlead
      · show digit rs ((r * (c + 1) - 1) / r) w = digit rs (b / r) w
        rw [hquot, hdigit]

/-! ## Addition -/

/-- One digit of the addition: what is written and what is carried on. -/
theorem add_digit {r d V n : ℕ} (hd : d < r) :
    (d + r * V + n) % r = (if r ≤ n % r + d then n % r + d - r else n % r + d) ∧
    (d + r * V + n) / r = V + (if r ≤ n % r + d then n / r + 1 else n / r) := by
  have hr : 0 < r := Nat.lt_of_le_of_lt (Nat.zero_le d) hd
  have hn := Nat.div_add_mod n r
  have hnr := Nat.mod_lt n hr
  split
  · rename_i hcarry
    -- carry: the digit comes around, and the next one is one higher
    have hsum : d + r * V + n = (n % r + d - r) + r * (V + (n / r + 1)) := by
      have : r * (V + (n / r + 1)) = r * V + r * (n / r) + r := by ring
      omega
    have hlt : n % r + d - r < r := by omega
    rw [hsum, Nat.add_mul_mod_self_left, Nat.add_mul_div_left _ _ hr, Nat.mod_eq_of_lt hlt,
      Nat.div_eq_of_lt hlt, Nat.zero_add]
    exact ⟨rfl, rfl⟩
  · rename_i hcarry
    -- no carry
    have hsum : d + r * V + n = (n % r + d) + r * (V + n / r) := by
      have : r * (V + n / r) = r * V + r * (n / r) := by ring
      omega
    have hlt : n % r + d < r := by omega
    rw [hsum, Nat.add_mul_mod_self_left, Nat.add_mul_div_left _ _ hr, Nat.mod_eq_of_lt hlt,
      Nat.div_eq_of_lt hlt, Nat.zero_add]
    exact ⟨rfl, rfl⟩

/-- The digits of the sum, up to a carry out of the last one. -/
theorem add_value {rs ds : List ℕ} (h : IsDigits rs ds) (n : ℕ) :
    IsDigits rs (add rs ds n).1 ∧
      value rs (add rs ds n).1 = (value rs ds + n) % rs.prod := by
  induction h generalizing n with
  | nil => exact ⟨.nil, by simp [value, Nat.mod_one]⟩
  | @cons r d rs ds hd htail ih =>
    have hr : 0 < r := Nat.lt_of_le_of_lt (Nat.zero_le d) hd
    rcases add_digit (V := value rs ds) (n := n) hd with ⟨hmod, hdiv⟩
    have hs' : (if r ≤ n % r + d then n % r + d - r else n % r + d) < r := by
      rw [← hmod]
      exact Nat.mod_lt _ hr
    have hsplit : (d + r * value rs ds + n) % (r * rs.prod) =
        (d + r * value rs ds + n) % r + r * ((d + r * value rs ds + n) / r % rs.prod) :=
      Nat.mod_mul
    simp only [add, value, List.prod_cons]
    rw [hsplit, hmod, hdiv]
    by_cases hq : (if r ≤ n % r + d then n / r + 1 else n / r) = 0
    · -- nothing is left to add: the loop of the source stops here as well
      rw [if_pos hq, hq, Nat.add_zero, Nat.mod_eq_of_lt (value_lt htail)]
      exact ⟨List.Forall₂.cons hs' htail, rfl⟩
    · rw [if_neg hq]
      rcases ih (if r ≤ n % r + d then n / r + 1 else n / r) with ⟨hdig, hval⟩
      exact ⟨List.Forall₂.cons hs' hdig, by rw [value, hval]⟩

/-- Where the addition stops: at the leading digit of the sum, and only a sum
past the largest number runs over the last digit. -/
theorem add_spec {rs ds : List ℕ} (h : IsDigits rs ds) (n : ℕ) :
    (∀ p, (add rs ds n).2 = some p →
      value rs ds + n < rs.prod ∧ Lead rs (value rs ds) (value rs ds + n) p.1 ∧
      p.2 = digit rs (value rs ds + n) p.1) ∧
    ((add rs ds n).2 = none → 0 < n → rs.prod ≤ value rs ds + n) := by
  induction h generalizing n with
  | nil =>
    exact ⟨fun p hp => by simp [add] at hp,
      fun _ hn => by simpa [value] using Nat.succ_le_of_lt hn⟩
  | @cons r d rs ds hd htail ih =>
    have hr : 0 < r := Nat.lt_of_le_of_lt (Nat.zero_le d) hd
    rcases add_digit (V := value rs ds) (n := n) hd with ⟨hmod, hdiv⟩
    have hdiv₀ : (d + r * value rs ds) / r = value rs ds := by
      rw [Nat.add_mul_div_left _ _ hr, Nat.div_eq_of_lt hd, Nat.zero_add]
    have hpos : 0 < rs.prod := Nat.lt_of_le_of_lt (Nat.zero_le _) (value_lt htail)
    simp only [add, value, List.prod_cons]
    by_cases hq : (if r ≤ n % r + d then n / r + 1 else n / r) = 0
    · -- nothing is carried on: the sum leads at this digit
      rw [if_pos hq]
      rw [hq, Nat.add_zero] at hdiv
      refine ⟨fun p hp => ?_, fun hnone => by simp at hnone⟩
      obtain rfl : (0, _) = p := Option.some.inj hp
      refine ⟨?_, hdiv₀.trans hdiv.symm, hmod.symm⟩
      have := value_lt htail
      rw [← hdiv, Nat.div_lt_iff_lt_mul hr, Nat.mul_comm rs.prod] at this
      exact this
    · -- the rest is added to the digits above
      rw [if_neg hq]
      rcases ih (if r ≤ n % r + d then n / r + 1 else n / r) with ⟨hsome, hnone⟩
      rw [← hdiv] at hsome hnone
      refine ⟨fun p hp => ?_, fun hn hn₀ => ?_⟩
      · rcases Option.map_eq_some_iff.1 hp with ⟨p', hp', rfl⟩
        rcases hsome p' hp' with ⟨hlt, hlead, hdig⟩
        refine ⟨?_, ⟨?_, ?_⟩, hdig⟩
        · rw [Nat.div_lt_iff_lt_mul hr, Nat.mul_comm rs.prod] at hlt
          exact hlt
        · rw [hdiv₀, hdiv]
          omega
        · rw [hdiv₀]
          exact hlead
      · have hle := hnone (Option.map_eq_none_iff.1 hn) (by omega)
        rw [Nat.le_div_iff_mul_le hr, Nat.mul_comm rs.prod] at hle
        exact hle

end MixedRadix
