import LanguageHub.Proofs.Json.RoundTrip
import Mathlib.Algebra.Order.Field.Basic
import Mathlib.Data.Rat.Cast.Order
import Mathlib.Tactic.FieldSimp
import Mathlib.Tactic.Linarith
import Mathlib.Tactic.Positivity
import Mathlib.Tactic.Ring

/-!
# Doubles are known from their texts

What is written for a double is a decimal that rounds to it: seventeen digits always suffice for
one. Between two doubles no decimal rounds to both. So the text, which says which number the decimal
is, also says which double was written.
-/

namespace LanguageHub

/-! ## Decimals in the interval of a double -/

namespace Binary64

/-- The number that a decimal stands for. -/
def Decimal.number (d : Decimal) : ℚ := d.digits * 10 ^ d.exponent

/-- The number rounds to the double of the interval. -/
def Interval.Holds (i : Interval) (x : ℚ) : Prop :=
  if i.closed then i.low ≤ x * i.den ∧ x * i.den ≤ i.high
  else i.low < x * i.den ∧ x * i.den < i.high

variable {i : Interval} {e lead : Int} {d : Decimal} {m m' : Magnitude} {n : Nat} {x : ℚ}

/-- On the grid everything is multiplied by one number. -/
theorem exists_onGrid (i : Interval) (e : Int) :
    ∃ (j : Interval) (step c : Nat), i.onGrid e = (j, step) ∧ 0 < c ∧ j.low = i.low * c ∧
      j.value = i.value * c ∧ j.high = i.high * c ∧ j.closed = i.closed ∧
      (step : ℚ) = i.den * 10 ^ e * c := by
  by_cases he : 0 ≤ e
  · obtain ⟨k, rfl⟩ := Int.eq_ofNat_of_zero_le he
    refine ⟨_, _, 1, if_pos he, Nat.one_pos, by simp, by simp, by simp, rfl, ?_⟩
    simp
  · obtain ⟨k, hk⟩ := Int.eq_ofNat_of_zero_le (show 0 ≤ -e by omega)
    obtain rfl : e = -k := by omega
    refine ⟨_, _, Nat.pow 10 k, if_neg he, Nat.pow_pos (by decide), ?_, ?_, ?_, rfl, ?_⟩
    · simp
    · simp
    · simp
    · simp

/-- A grid point is in the interval as the number is. -/
theorem contains_onGrid (i : Interval) (e : Int) (n : Nat) :
    (i.onGrid e).1.contains (n * (i.onGrid e).2) = true ↔ i.Holds (n * 10 ^ e) := by
  obtain ⟨j, step, c, hgrid, hc, hlow, -, hhigh, hclosed, hstep⟩ := exists_onGrid i e
  have hpoint : ((n * step : Nat) : ℚ) = n * 10 ^ e * i.den * c := by
    push_cast [hstep]
    ring
  have hpos : (0 : ℚ) < c := by exact_mod_cast hc
  have hle : ∀ k : Nat, k * c ≤ n * step ↔ (k : ℚ) ≤ n * 10 ^ e * i.den := fun k => by
    rw [← Nat.cast_le (α := ℚ), hpoint, Nat.cast_mul, mul_le_mul_iff_of_pos_right hpos]
  have hge : ∀ k : Nat, n * step ≤ k * c ↔ (n : ℚ) * 10 ^ e * i.den ≤ k := fun k => by
    rw [← Nat.cast_le (α := ℚ), hpoint, Nat.cast_mul, mul_le_mul_iff_of_pos_right hpos]
  rw [hgrid]
  dsimp only
  rw [Interval.contains, Interval.Holds, hclosed, hlow, hhigh]
  cases i.closed with
  | true =>
    rw [if_pos rfl, if_pos rfl, decide_eq_true_eq, hle, hge]
  | false =>
    rw [if_neg (by decide), if_neg (by decide), decide_eq_true_eq, ← not_le, ← not_le, hge, hle,
      not_le, not_le]

/-- What is found on a grid is in the interval. -/
theorem holds_of_gridPoint? (h : i.gridPoint? e = some d) : d.digits ≠ 0 ∧ i.Holds d.number := by
  simp only [Interval.gridPoint?] at h
  split at h
  · rename_i hlow
    obtain rfl := Option.some.inj h
    simp only [Bool.and_eq_true, decide_eq_true_eq] at hlow
    exact ⟨hlow.1.1, (contains_onGrid i e _).mp hlow.1.2⟩
  split at h
  · rename_i hhigh
    obtain rfl := Option.some.inj h
    exact ⟨Nat.succ_ne_zero _, (contains_onGrid i e _).mp hhigh⟩
  · cases h

/-- The grid point above the value is found, unless the one below it is. -/
theorem isSome_gridPoint?
    (h : i.Holds (((i.onGrid e).1.value / (i.onGrid e).2 + 1 : Nat) * 10 ^ e)) :
    (i.gridPoint? e).isSome := by
  have hhigh := (contains_onGrid i e _).mpr h
  simp only [Interval.gridPoint?]
  split
  · rfl
  · rfl

/-! ### As many digits as tell doubles apart -/

theorem reached_iff (num den : Nat) (e : Int) :
    (if 0 ≤ e then den * Nat.pow 10 e.toNat ≤ num else den ≤ num * Nat.pow 10 (-e).toNat) ↔
      (10 : ℚ) ^ e * den ≤ num := by
  by_cases he : 0 ≤ e
  · obtain ⟨k, rfl⟩ := Int.eq_ofNat_of_zero_le he
    rw [if_pos he, ← Nat.cast_le (α := ℚ)]
    simp [mul_comm]
  · obtain ⟨k, hk⟩ := Int.eq_ofNat_of_zero_le (show 0 ≤ -e by omega)
    obtain rfl : e = -k := by omega
    rw [if_neg he, ← Nat.cast_le (α := ℚ), zpow_neg, zpow_natCast, inv_mul_le_iff₀ (by positivity)]
    simp [mul_comm]

/-- The search for the leading digit ends at one that the number reaches, if it reaches the last
one that is tried. -/
theorem le_of_leadingExponent {num den fuel : Nat} (h : (10 : ℚ) ^ (e - fuel) * den ≤ num) :
    (10 : ℚ) ^ leadingExponent num den fuel e * den ≤ num := by
  induction fuel generalizing e with
  | zero => rwa [Nat.cast_zero, sub_zero] at h
  | succ fuel ih =>
    rw [leadingExponent]
    by_cases hreached : (10 : ℚ) ^ e * den ≤ num
    · rwa [if_pos ((reached_iff num den e).mpr hreached)]
    · rw [if_neg (mt (reached_iff num den e).mp hreached)]
      refine ih ?_
      rwa [show e - 1 - (fuel : Int) = e - (fuel + 1 : Nat) by push_cast; ring]

/-- When one of the grids meets the interval, what is found is in it. -/
theorem holds_firstGrid {fuel n' : Nat} (hle : n ≤ n') (hlt : n' < n + fuel)
    (h : (i.gridPoint? (lead - n')).isSome) :
    (firstGrid i lead fuel n).digits ≠ 0 ∧ i.Holds (firstGrid i lead fuel n).number := by
  induction fuel generalizing n with
  | zero => omega
  | succ fuel ih =>
    rw [firstGrid]
    split
    · rename_i d hd
      exact holds_of_gridPoint? hd
    · rename_i hnone
      refine ih ?_ (by omega)
      by_contra hgt
      obtain rfl : n = n' := by omega
      rw [hnone] at h
      cases h

/-! ### The interval of a double -/

theorem pow_fractionBits : Nat.pow 2 fractionBits = 4503599627370496 := rfl

/-- A magnitude as doubles have them: with 53 bits, of which only the least scale leaves the first
one out. -/
structure Magnitude.IsNormal (m : Magnitude) : Prop where
  lt : m.mantissa < 9007199254740992
  ge : 0 < m.scale → 4503599627370496 ≤ m.mantissa

theorem isNormal_magnitude (bits : UInt64) : (magnitude bits).IsNormal := by
  have hfraction : fractionField bits < 4503599627370496 := Nat.mod_lt _ (by decide)
  unfold magnitude
  split
  · exact ⟨Nat.lt_trans hfraction (by decide), nofun⟩
  · exact ⟨Nat.add_lt_add_left hfraction 4503599627370496, fun _ => Nat.le_add_right _ _⟩

theorem low_le_value (m : Magnitude) : (interval m).low ≤ (interval m).value :=
  Nat.mul_le_mul_right _ (Nat.sub_le _ _)

theorem high_interval (m : Magnitude) :
    (interval m).high = (interval m).value + 2 * Nat.pow 2 m.scale :=
  Nat.add_mul _ _ _

theorem Interval.holds_of_lt (hlow : (i.low : ℚ) < x * i.den) (hhigh : x * i.den < i.high) :
    i.Holds x := by
  unfold Interval.Holds
  split
  · exact ⟨hlow.le, hhigh.le⟩
  · exact ⟨hlow, hhigh⟩

theorem den_pos (m : Magnitude) : 0 < (interval m).den := by
  rw [interval]
  generalize 1076 = n
  exact Nat.pow_pos (by decide)

theorem den_le (m : Magnitude) : (interval m).den ≤ 4 * 10 ^ 331 := by
  have hle : Nat.pow 2 1076 ≤ 4 * 10 ^ 331 := by decide +kernel
  rw [interval]
  generalize Nat.pow 2 1076 = den at hle ⊢
  exact hle

/-- Just above the value there is a number of seventeen digits, nearer than the end of the
interval. -/
theorem isSome_gridPoint?_seventeen (hm : m.IsNormal)
    (hlead : (10 : ℚ) ^ lead * (interval m).den ≤ (interval m).value) :
    ((interval m).gridPoint? (lead - (17 : Nat))).isSome := by
  obtain ⟨j, step, c, hgrid, hc, -, hvalue, -, -, hstep⟩ :=
    exists_onGrid (interval m) (lead - (17 : Nat))
  have hcPos : (0 : ℚ) < c := by exact_mod_cast hc
  have hden : (0 : ℚ) < (interval m).den := by exact_mod_cast den_pos m
  have hstepPos : 0 < step := by
    have hcast : (0 : ℚ) < step := by
      rw [hstep]
      exact mul_pos (mul_pos hden (zpow_pos (by norm_num) _)) hcPos
    exact_mod_cast hcast
  have hsplit := Nat.div_add_mod j.value step
  have hmod := Nat.mod_lt j.value hstepPos
  have habove : j.value < (j.value / step + 1) * step := by
    rw [Nat.add_mul, Nat.mul_comm (j.value / step)]
    omega
  have hnear : (j.value / step + 1) * step ≤ j.value + step := by
    rw [Nat.add_mul, Nat.mul_comm (j.value / step)]
    omega
  apply isSome_gridPoint?
  rw [hgrid]
  dsimp only
  generalize j.value / step + 1 = n at habove hnear
  rw [hvalue] at habove hnear
  have hover : ((interval m).value : ℚ) < n * 10 ^ (lead - (17 : Nat)) * (interval m).den := by
    rw [← mul_lt_mul_iff_of_pos_right hcPos]
    calc ((interval m).value : ℚ) * c = ((interval m).value * c : Nat) := by push_cast; rfl
      _ < (n * step : Nat) := by exact_mod_cast habove
      _ = _ := by push_cast [hstep]; ring
  have hunder : (n : ℚ) * 10 ^ (lead - (17 : Nat)) * (interval m).den ≤
      (interval m).value + 10 ^ (lead - (17 : Nat)) * (interval m).den := by
    rw [← mul_le_mul_iff_of_pos_right hcPos]
    calc _ = ((n * step : Nat) : ℚ) := by push_cast [hstep]; ring
      _ ≤ ((interval m).value * c + step : Nat) := by exact_mod_cast hnear
      _ = _ := by push_cast [hstep]; ring
  have hgap : (10 : ℚ) ^ (lead - (17 : Nat)) * (interval m).den ≤ (interval m).value / 10 ^ 17 := by
    rw [zpow_sub₀ (by norm_num), zpow_natCast, le_div_iff₀ (by positivity)]
    calc _ = (10 : ℚ) ^ lead * (interval m).den := by field_simp
      _ ≤ (interval m).value := hlead
  have hroom : ((interval m).value : ℚ) / 10 ^ 17 < 2 * Nat.pow 2 m.scale := by
    have hscale : (0 : ℚ) < Nat.pow 2 m.scale := by
      exact_mod_cast Nat.pow_pos (n := m.scale) (show 0 < 2 by decide)
    have hmantissa : (m.mantissa : ℚ) < 9007199254740992 := by exact_mod_cast hm.lt
    have hcast : ((interval m).value : ℚ) = 4 * m.mantissa * Nat.pow 2 m.scale := by
      exact_mod_cast rfl
    rw [div_lt_iff₀ (by positivity), hcast]
    nlinarith
  refine Interval.holds_of_lt (lt_of_le_of_lt (by exact_mod_cast low_le_value m) hover) ?_
  calc _ ≤ _ := hunder
    _ ≤ ((interval m).value : ℚ) + (interval m).value / 10 ^ 17 := by gcongr
    _ < (interval m).value + 2 * Nat.pow 2 m.scale := by gcongr
    _ = (interval m).high := by rw [high_interval]; push_cast; rfl

theorem zpow_neg_mul_le {num den k : Nat} (hden : den ≤ 4 * 10 ^ k) (hnum : 4 ≤ num) :
    (10 : ℚ) ^ (-(k : Int)) * den ≤ num := by
  rw [zpow_neg, zpow_natCast, inv_mul_le_iff₀ (by positivity), mul_comm]
  calc (den : ℚ) ≤ 4 * 10 ^ k := by exact_mod_cast hden
    _ ≤ num * 10 ^ k := by gcongr; exact_mod_cast hnum

theorem holds_shortest (hm : m.IsNormal) (hpos : 0 < m.mantissa) :
    (shortest m).digits ≠ 0 ∧ (interval m).Holds (shortest m).number := by
  have hvalue : 4 ≤ (interval m).value :=
    Nat.mul_le_mul (Nat.mul_le_mul_left 4 hpos) (Nat.pow_pos (n := m.scale) (by decide))
  have hlead : (10 : ℚ) ^ leadingExponent (interval m).value (interval m).den 640 309 *
      (interval m).den ≤ (interval m).value :=
    le_of_leadingExponent (zpow_neg_mul_le (den_le m) hvalue)
  obtain ⟨hdigits, hholds⟩ := holds_firstGrid (Nat.zero_le 17) (show 17 < 0 + 18 by decide)
    (isSome_gridPoint?_seventeen hm hlead)
  rw [shortest, if_neg (Nat.ne_of_gt hpos)]
  dsimp only
  split
  · rename_i hten
    refine ⟨Nat.one_ne_zero, ?_⟩
    rw [Decimal.number, hten] at hholds
    rw [Decimal.number, zpow_add_one₀ (by norm_num)]
    convert hholds using 1
    push_cast
    ring
  · exact ⟨hdigits, hholds⟩

/-! ### Between doubles -/

/-- The gap below the value is half as wide only at the least mantissa. -/
theorem exists_gap (m : Magnitude) :
    ∃ gap, (interval m).low = (4 * m.mantissa - gap) * Nat.pow 2 m.scale ∧
      (gap = 1 ∧ m.mantissa = 4503599627370496 ∨
        gap = 2 ∧ (0 < m.scale → m.mantissa ≠ 4503599627370496)) := by
  refine ⟨_, rfl, ?_⟩
  split
  · rename_i hleast
    exact .inl ⟨rfl, hleast.1⟩
  · rename_i hmore
    exact .inr ⟨rfl, fun hscale hleast => hmore ⟨hleast, hscale⟩⟩

/-- The intervals of doubles follow each other. Where they meet one of them is open. -/
theorem high_le_low (hm : m.IsNormal) (hm' : m'.IsNormal)
    (hlt : m.scale < m'.scale ∨ m.scale = m'.scale ∧ m.mantissa < m'.mantissa) :
    (interval m).high ≤ (interval m').low ∧
      (m.mantissa % 2 = 0 → m'.mantissa % 2 = 0 → (interval m).high < (interval m').low) := by
  have hmantissa := hm.lt
  have hpow : 0 < Nat.pow 2 m.scale := Nat.pow_pos (by decide)
  have hhigh : (interval m).high = (4 * m.mantissa + 2) * Nat.pow 2 m.scale := rfl
  obtain ⟨gap, hlow, hgap⟩ := exists_gap m'
  rw [hhigh, hlow]
  rcases hlt with hscale | ⟨hscale, hless⟩
  · -- All mantissas of a scale come to less than the least one of the next.
    have hdouble : 2 * Nat.pow 2 m.scale ≤ Nat.pow 2 m'.scale := by
      have hle := Nat.pow_le_pow_right (show 0 < 2 by decide) hscale
      rwa [Nat.pow_succ, Nat.mul_comm] at hle
    have hge := hm'.ge (Nat.zero_lt_of_lt hscale)
    have hmore : 18014398509481983 * (2 * Nat.pow 2 m.scale) ≤
        (4 * m'.mantissa - gap) * Nat.pow 2 m'.scale := Nat.mul_le_mul (by omega) hdouble
    constructor
    · have hupTo : (4 * m.mantissa + 2) * Nat.pow 2 m.scale ≤
          36028797018963966 * Nat.pow 2 m.scale := Nat.mul_le_mul_right _ (by omega)
      omega
    · intro heven _
      have hupTo : (4 * m.mantissa + 2) * Nat.pow 2 m.scale <
          36028797018963966 * Nat.pow 2 m.scale := Nat.mul_lt_mul_of_pos_right (by omega) hpow
      omega
  · rw [← hscale]
    constructor
    · exact Nat.mul_le_mul_right _ (by omega)
    · intro heven heven'
      exact Nat.mul_lt_mul_of_pos_right (by omega) hpow

theorem Interval.Holds.le (h : i.Holds x) : i.low ≤ x * i.den ∧ x * i.den ≤ i.high := by
  unfold Interval.Holds at h
  split at h
  · exact h
  · exact ⟨h.1.le, h.2.le⟩

theorem Interval.Holds.lt (h : i.Holds x) (hopen : i.closed = false) :
    i.low < x * i.den ∧ x * i.den < i.high := by
  rwa [Interval.Holds, hopen, if_neg (by decide)] at h

theorem not_holds_of_lt (hm : m.IsNormal) (hm' : m'.IsNormal)
    (hlt : m.scale < m'.scale ∨ m.scale = m'.scale ∧ m.mantissa < m'.mantissa)
    (h : (interval m).Holds x) : ¬ (interval m').Holds x := by
  intro h'
  obtain ⟨hmeet, happart⟩ := high_le_low hm hm' hlt
  have hden : (interval m').den = (interval m).den := rfl
  have hmeet' : ((interval m).high : ℚ) ≤ (interval m').low := by exact_mod_cast hmeet
  have hhigh := h.le.2
  have hlow' := h'.le.1
  rw [hden] at hlow'
  cases hclosed : (interval m).closed with
  | false => linarith [(h.lt hclosed).2]
  | true =>
    cases hclosed' : (interval m').closed with
    | false =>
      have hlow := (h'.lt hclosed').1
      rw [hden] at hlow
      linarith
    | true =>
      have happart' : ((interval m).high : ℚ) < (interval m').low := by
        exact_mod_cast happart (of_decide_eq_true hclosed) (of_decide_eq_true hclosed')
      linarith

/-- No number rounds to two doubles. -/
theorem eq_of_holds (hm : m.IsNormal) (hm' : m'.IsNormal) (h : (interval m).Holds x)
    (h' : (interval m').Holds x) : m = m' := by
  have hnot : ¬ (m.scale < m'.scale ∨ m.scale = m'.scale ∧ m.mantissa < m'.mantissa) :=
    fun hlt => not_holds_of_lt hm hm' hlt h h'
  have hnot' : ¬ (m'.scale < m.scale ∨ m'.scale = m.scale ∧ m'.mantissa < m.mantissa) :=
    fun hlt => not_holds_of_lt hm' hm hlt h' h
  rw [Magnitude.mk.injEq]
  omega

/-- What is found for two doubles is the same number only if they are of one magnitude. -/
theorem eq_of_number (hm : m.IsNormal) (hm' : m'.IsNormal)
    (h : (shortest m).number = (shortest m').number) : m = m' := by
  have hzero : ∀ m : Magnitude, m.IsNormal → m.mantissa = 0 → m = ⟨0, 0⟩ := by
    intro m hm hmantissa
    have hscale := hm.ge
    rw [Magnitude.mk.injEq]
    omega
  have hnumber : ∀ m : Magnitude, m.IsNormal → m ≠ ⟨0, 0⟩ →
      (shortest m).number ≠ 0 ∧ (interval m).Holds (shortest m).number := by
    intro m hm hne
    obtain ⟨hdigits, hholds⟩ := holds_shortest hm (Nat.pos_of_ne_zero (mt (hzero m hm) hne))
    exact ⟨mul_ne_zero (Nat.cast_ne_zero.mpr hdigits) (zpow_ne_zero _ (by norm_num)), hholds⟩
  have hnone : (shortest ⟨0, 0⟩).number = 0 := zero_mul _
  by_cases hm0 : m = ⟨0, 0⟩ <;> by_cases hm0' : m' = ⟨0, 0⟩
  · rw [hm0, hm0']
  · rw [hm0, hnone] at h
    exact absurd h.symm (hnumber m' hm' hm0').1
  · rw [hm0', hnone] at h
    exact absurd h (hnumber m hm hm0).1
  · exact eq_of_holds hm hm' (hnumber m hm hm0).2 (h ▸ (hnumber m' hm' hm0').2)

/-! ### Bits -/

theorem fields_of_magnitude {a b : UInt64} (h : magnitude a = magnitude b) :
    exponentField a = exponentField b ∧ fractionField a = fractionField b := by
  have hfraction : fractionField a < 4503599627370496 := Nat.mod_lt _ (by decide)
  have hfraction' : fractionField b < 4503599627370496 := Nat.mod_lt _ (by decide)
  unfold magnitude at h
  rw [pow_fractionBits] at h
  split at h <;> split at h <;> rw [Magnitude.mk.injEq] at h <;> omega

theorem eq_of_magnitude {a b : UInt64} (hsign : isNegative a = isNegative b)
    (h : magnitude a = magnitude b) : a = b := by
  obtain ⟨hexponent, hfraction⟩ := fields_of_magnitude h
  have ha := a.toNat_lt
  have hb := b.toNat_lt
  have hpow : Nat.pow 2 11 = 2048 := rfl
  have hsignPow : Nat.pow 2 63 = 9223372036854775808 := rfl
  rw [isNegative, isNegative, hsignPow, decide_eq_decide] at hsign
  rw [exponentField, exponentField, pow_fractionBits, hpow] at hexponent
  rw [fractionField, fractionField, pow_fractionBits] at hfraction
  apply UInt64.toNat_inj.mp
  omega

end Binary64

/-! ## Decimals as they are written -/

namespace Numeral

variable {a b digits fraction rest : List Char} {c : Char}

theorem foldl_digits (digits : List Char) (n : Nat) :
    digits.foldl (fun n c => n * 10 + digitValue c) n =
      n * 10 ^ digits.length + ofDigits digits := by
  induction digits generalizing n with
  | nil => simp [ofDigits]
  | cons c digits ih =>
    rw [ofDigits, List.foldl_cons, List.foldl_cons, ih, ih (0 * 10 + digitValue c),
      List.length_cons]
    ring

theorem ofDigits_append (a b : List Char) :
    ofDigits (a ++ b) = ofDigits a * 10 ^ b.length + ofDigits b := by
  rw [ofDigits, List.foldl_append, foldl_digits]
  rfl

theorem ofDigits_zeros (n : Nat) : ofDigits (List.replicate n '0') = 0 := by
  induction n with
  | zero => rfl
  | succ n ih =>
    rw [List.replicate_succ', ofDigits_append, ih]
    rfl

/-- The power of ten that is written behind a decimal. -/
def writtenPower : List Char → Int
  | 'e' :: '-' :: digits => -ofDigits digits
  | 'e' :: '+' :: digits => ofDigits digits
  | _ => 0

/-- The number that a decimal stands for as it is written. -/
def writtenNumber (s : List Char) : ℚ :=
  let whole := s.takeWhile isDigit
  match s.dropWhile isDigit with
  | '.' :: t =>
    let fraction := t.takeWhile isDigit
    ofDigits (whole ++ fraction) * 10 ^ (writtenPower (t.dropWhile isDigit) - fraction.length)
  | rest => ofDigits whole * 10 ^ writtenPower rest

/-- Digits and nothing else. -/
def AllDigits (s : List Char) : Prop := ∀ c ∈ s, isDigit c = true

theorem allDigits_append : AllDigits (a ++ b) ↔ AllDigits a ∧ AllDigits b :=
  List.forall_mem_append

theorem allDigits_zeros (n : Nat) : AllDigits (List.replicate n '0') := by
  intro c hc
  rw [List.eq_of_mem_replicate hc]
  rfl

theorem allDigits_toDigits (n : Nat) : AllDigits (Nat.toDigits 10 n) :=
  fun _ hc => isDigit_of_mem_toDigits hc

theorem writtenNumber_of_point (h : AllDigits digits) (hfraction : AllDigits fraction)
    (hrest : ∀ c ∈ rest.head?, isDigit c = false) :
    writtenNumber (digits ++ '.' :: (fraction ++ rest)) =
      ofDigits (digits ++ fraction) * 10 ^ (writtenPower rest - fraction.length) := by
  have hpoint : ∀ c ∈ ('.' :: (fraction ++ rest)).head?, isDigit c = false := by
    rintro c ⟨⟩
    rfl
  obtain ⟨htake, hdrop⟩ := span_append h hpoint
  obtain ⟨htake', hdrop'⟩ := span_append hfraction hrest
  rw [writtenNumber, htake, hdrop]
  simp only [htake', hdrop']

theorem writtenNumber_of_fraction (h : AllDigits digits) (hfraction : AllDigits fraction) :
    writtenNumber (digits ++ '.' :: fraction) =
      ofDigits (digits ++ fraction) * 10 ^ (-(fraction.length : Int)) := by
  have hend : ∀ c ∈ ([] : List Char).head?, isDigit c = false := nofun
  have hform := writtenNumber_of_point h hfraction hend
  rwa [List.append_nil, show writtenPower [] = 0 from rfl, zero_sub] at hform

theorem writtenNumber_of_power (h : AllDigits digits) (rest : List Char) :
    writtenNumber (digits ++ 'e' :: rest) = ofDigits digits * 10 ^ writtenPower ('e' :: rest) := by
  have hletter : ∀ c ∈ ('e' :: rest).head?, isDigit c = false := by
    rintro c ⟨⟩
    rfl
  obtain ⟨htake, hdrop⟩ := span_append h hletter
  rw [writtenNumber, htake, hdrop]
  rfl

end Numeral

namespace Json

open Numeral

theorem writtenPower_text (e : Int) :
    writtenPower ('e' :: (if e < 0 then '-' else '+') :: naturalText e.natAbs) = e := by
  split
  · rw [writtenPower, naturalText, ofDigits_toDigits]
    omega
  · rw [writtenPower, naturalText, ofDigits_toDigits]
    omega

/-! ### The four forms -/

variable {digits : List Char}

theorem writtenNumber_whole (h : AllDigits digits) (k : Nat) :
    writtenNumber (digits ++ List.replicate k '0' ++ ['.', '0']) =
      ofDigits digits * 10 ^ (k : Int) := by
  have hzeros := allDigits_append.mpr ⟨h, allDigits_zeros k⟩
  have hform := writtenNumber_of_fraction hzeros (allDigits_zeros 1)
  rw [List.append_assoc _ _ (List.replicate 1 _), List.replicate_append_replicate,
    ofDigits_append, ofDigits_zeros, List.length_replicate, List.length_replicate, zpow_neg,
    zpow_natCast, pow_succ] at hform
  rw [zpow_natCast]
  refine hform.trans ?_
  push_cast
  field_simp
  ring

theorem writtenNumber_inside (h : AllDigits digits) (k : Nat) :
    writtenNumber (digits.take k ++ '.' :: digits.drop k) =
      ofDigits digits * 10 ^ (-((digits.length - k : Nat) : Int)) := by
  have hparts := h
  rw [← List.take_append_drop k digits, allDigits_append] at hparts
  rw [writtenNumber_of_fraction hparts.1 hparts.2, List.take_append_drop, List.length_drop]

theorem writtenNumber_before (h : AllDigits digits) (k : Nat) :
    writtenNumber ('0' :: '.' :: List.replicate k '0' ++ digits) =
      ofDigits digits * 10 ^ (-((k + digits.length : Nat) : Int)) := by
  have hform := writtenNumber_of_fraction (allDigits_zeros 1)
    (allDigits_append.mpr ⟨allDigits_zeros k, h⟩)
  rwa [← List.append_assoc, List.replicate_append_replicate, ofDigits_append, ofDigits_zeros,
    Nat.zero_mul, Nat.zero_add, List.length_append, List.length_replicate] at hform

theorem writtenNumber_scientific {d : Char} (h : AllDigits (d :: digits)) (e : Int) :
    writtenNumber (d :: '.' :: digits ++
        'e' :: (if e < 0 then '-' else '+') :: naturalText e.natAbs) =
      ofDigits (d :: digits) * 10 ^ (e - digits.length) := by
  have hparts : AllDigits [d] ∧ AllDigits digits := allDigits_append.mp h
  have hletter : ∀ c ∈ ('e' :: (if e < 0 then '-' else '+') :: naturalText e.natAbs).head?,
      isDigit c = false := by
    rintro c ⟨⟩
    rfl
  have hform := writtenNumber_of_point hparts.1 hparts.2 hletter
  rwa [writtenPower_text] at hform

/-- What is written is the number that was to be written. -/
theorem writtenNumber_decimalText (n : Nat) (e : Int) :
    writtenNumber (decimalText (naturalText n) e) = n * 10 ^ e := by
  have hdigits := allDigits_toDigits n
  have hvalue := ofDigits_toDigits n
  have hne : Nat.toDigits 10 n ≠ [] := Nat.toDigits_ne_nil
  rw [naturalText]
  generalize Nat.toDigits 10 n = digits at hdigits hvalue hne
  unfold decimalText
  dsimp only
  split
  · rename_i hwhole
    rw [writtenNumber_whole hdigits, hvalue, Int.toNat_of_nonneg hwhole.1]
  split
  · rename_i hinside
    rw [writtenNumber_inside hdigits, hvalue]
    congr 2
    omega
  split
  · rename_i hbefore
    rw [writtenNumber_before hdigits, hvalue]
    congr 2
    omega
  · match digits, hne with
    | [d], _ =>
      rw [writtenNumber_of_power hdigits, writtenPower_text, hvalue]
      congr 2
      rw [List.length_singleton]
      omega
    | d :: d' :: digits, _ =>
      rw [writtenNumber_scientific hdigits, hvalue]
      congr 2
      rw [List.length_cons (a := d)]
      omega

/-! ## Numbers -/

/-- The characters of numbers. -/
def isNumeral (c : Char) : Bool := isDigit c || c = '-' || c = '+' || c = '.' || c = 'e'

theorem isNumeral_of_isDigit {c : Char} (h : isDigit c = true) : isNumeral c = true := by
  simp [isNumeral, h]

/-- Digits, and behind them a point or a power of ten. -/
structure IsDecimal (s : List Char) : Prop where
  begins : ∃ c rest, s = c :: rest ∧ isDigit c = true
  all : ∀ c ∈ s, isNumeral c = true
  mark : '.' ∈ s ∨ 'e' ∈ s

theorem isDecimal_append {whole rest : List Char} {mark : Char} (hwhole : AllDigits whole)
    (hne : whole ≠ []) (hmark : mark = '.' ∨ mark = 'e') (hrest : ∀ c ∈ rest, isNumeral c = true) :
    IsDecimal (whole ++ mark :: rest) := by
  obtain ⟨c, others, rfl⟩ := List.exists_cons_of_ne_nil hne
  refine ⟨⟨c, _, rfl, hwhole c List.mem_cons_self⟩, ?_, ?_⟩
  · refine List.forall_mem_append.mpr ⟨fun c hc => isNumeral_of_isDigit (hwhole c hc), ?_⟩
    refine List.forall_mem_cons.mpr ⟨?_, hrest⟩
    rcases hmark with rfl | rfl <;> decide
  · rcases hmark with rfl | rfl
    · exact .inl (List.mem_append_right _ List.mem_cons_self)
    · exact .inr (List.mem_append_right _ List.mem_cons_self)

theorem isNumeral_power (e : Int) :
    ∀ c ∈ (if e < 0 then '-' else '+') :: naturalText e.natAbs, isNumeral c = true := by
  refine List.forall_mem_cons.mpr ⟨by split <;> decide, fun c hc => ?_⟩
  exact isNumeral_of_isDigit (isDigit_of_mem_toDigits hc)

theorem isDecimal_decimalText (n : Nat) (e : Int) : IsDecimal (decimalText (naturalText n) e) := by
  have hdigits := allDigits_toDigits n
  have hne : Nat.toDigits 10 n ≠ [] := Nat.toDigits_ne_nil
  rw [naturalText]
  generalize Nat.toDigits 10 n = digits at hdigits hne
  have hnumeral : ∀ s, AllDigits s → ∀ c ∈ s, isNumeral c = true :=
    fun s hs c hc => isNumeral_of_isDigit (hs c hc)
  unfold decimalText
  dsimp only
  split
  · exact isDecimal_append (allDigits_append.mpr ⟨hdigits, allDigits_zeros _⟩) (by simp [hne])
      (.inl rfl) (List.forall_mem_singleton.mpr rfl)
  split
  · rename_i hinside
    rw [← List.take_append_drop (digits.length + e).toNat digits, allDigits_append] at hdigits
    refine isDecimal_append hdigits.1 ?_ (.inl rfl) (hnumeral _ hdigits.2)
    rw [ne_eq, List.take_eq_nil_iff, not_or]
    exact ⟨by omega, hne⟩
  split
  · exact isDecimal_append (allDigits_zeros 1) (by decide) (.inl rfl)
      (hnumeral _ (allDigits_append.mpr ⟨allDigits_zeros _, hdigits⟩))
  · match digits, hne with
    | [d], _ => exact isDecimal_append hdigits (by simp) (.inr rfl) (isNumeral_power _)
    | d :: d' :: digits, _ =>
      have hparts : AllDigits [d] ∧ AllDigits (d' :: digits) := allDigits_append.mp hdigits
      have hform (e : Int) : IsDecimal ([d] ++ '.' :: (d' :: digits ++
          'e' :: (if e < 0 then '-' else '+') :: naturalText e.natAbs)) :=
        isDecimal_append hparts.1 (by simp) (.inl rfl) (List.forall_mem_append.mpr
          ⟨hnumeral _ hparts.2, List.forall_mem_cons.mpr ⟨rfl, isNumeral_power e⟩⟩)
      exact hform _

/-- The text of a decimal, zero included. -/
def decimal (d : Binary64.Decimal) : List Char :=
  if d.digits = 0 then "0.0".toList else decimalText (naturalText d.digits) d.exponent

theorem isDecimal_decimal (d : Binary64.Decimal) : IsDecimal (decimal d) := by
  unfold decimal
  split
  · exact isDecimal_append (allDigits_zeros 1) (by simp) (.inl rfl)
      (List.forall_mem_singleton.mpr rfl)
  · exact isDecimal_decimalText d.digits d.exponent

theorem writtenNumber_decimal (d : Binary64.Decimal) : writtenNumber (decimal d) = d.number := by
  unfold decimal
  split
  · rename_i hzero
    have hform := writtenNumber_of_fraction (allDigits_zeros 1) (allDigits_zeros 1)
    rw [List.replicate_append_replicate, ofDigits_zeros, Nat.cast_zero, zero_mul] at hform
    rw [Binary64.Decimal.number, hzero, Nat.cast_zero, zero_mul]
    exact hform
  · exact writtenNumber_decimalText d.digits d.exponent

theorem doubleText_eq (bits : UInt64) :
    doubleText bits = (if Binary64.isNegative bits then ['-'] else []) ++
      decimal (Binary64.shortest (Binary64.magnitude bits)) := rfl

theorem doubleText_injective {a b : UInt64} (h : doubleText a = doubleText b) : a = b := by
  have hminus : ∀ d (s : List Char), decimal d ≠ '-' :: s := by
    intro d s heq
    obtain ⟨c, rest, hdecimal, hc⟩ := (isDecimal_decimal d).begins
    rw [hdecimal] at heq
    rw [(List.cons.inj heq).1] at hc
    exact absurd hc (by decide)
  rw [doubleText_eq, doubleText_eq] at h
  have hboth : Binary64.isNegative a = Binary64.isNegative b ∧
      decimal (Binary64.shortest (Binary64.magnitude a)) =
        decimal (Binary64.shortest (Binary64.magnitude b)) := by
    cases ha : Binary64.isNegative a <;> cases hb : Binary64.isNegative b <;> rw [ha, hb] at h
    · exact ⟨rfl, h⟩
    · exact absurd h (hminus _ _)
    · exact absurd h.symm (hminus _ _)
    · exact ⟨rfl, (List.cons.inj h).2⟩
  obtain ⟨hsign, hdecimal⟩ := hboth
  have hnumber := congrArg writtenNumber hdecimal
  rw [writtenNumber_decimal, writtenNumber_decimal] at hnumber
  exact Binary64.eq_of_magnitude hsign (Binary64.eq_of_number (Binary64.isNormal_magnitude a)
    (Binary64.isNormal_magnitude b) hnumber)

end Json

end LanguageHub
