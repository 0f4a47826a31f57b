import BlockSketch.Number.Binary64
import Mathlib.Algebra.Order.Field.Power
import Mathlib.Algebra.Order.Field.Rat
import Mathlib.Tactic.FieldSimp
import Mathlib.Tactic.Linarith
import Mathlib.Tactic.NormNum
import Mathlib.Tactic.Positivity
import Mathlib.Tactic.Ring

/-!
# Rounding to binary64

A quotient is rounded to the number in whose interval it lies. The interval reaches half a unit of
the last place to either side, but only a quarter below a power of two, where the next number is nearer;
its ends belong to it if the mantissa is even. `ofQuotient_of_rounds` says that this is what the rounding
computes, and `ofQuotient_canonical` that it gives nothing but canonical numbers.
-/

namespace BlockSketch.Binary64

-- ---------------------------------------------------------------------------
-- Canonical numbers and their intervals
-- ---------------------------------------------------------------------------

/-- A mantissa and an exponent of a binary64 number: the exponent is the least one with at most 53
binary digits. -/
structure Canonical (m : Nat) (e : Int) : Prop where
  mantissa : m < 2 ^ 53
  low : minExponent ≤ e
  high : e ≤ maxExponent
  full : 2 ^ 52 ≤ m ∨ e = minExponent

/-- A binary64 number. Infinities and what is not a number are always one. -/
def IsCanonical : Binary64 → Prop
  | .finite _ m e => Canonical m e
  | _ => True

/-- How far the interval reaches below a number, in units of its last place. -/
def gap (m : Nat) (e : Int) : ℚ :=
  if m = 2 ^ 52 ∧ minExponent < e then 1 / 4 else 1 / 2

/-- The interval of what rounds to `m · 2^e`. -/
structure RoundsTo (x : ℚ) (m : Nat) (e : Int) : Prop where
  below : (m - gap m e) * 2 ^ e ≤ x
  above : x ≤ (m + 1 / 2) * 2 ^ e
  tie : m % 2 = 1 → (m - gap m e) * 2 ^ e ≠ x ∧ x ≠ (m + 1 / 2) * 2 ^ e

theorem gap_le (m : Nat) (e : Int) : gap m e ≤ 1 / 2 := by
  unfold gap
  split <;> norm_num

-- ---------------------------------------------------------------------------
-- Rounded quotients
-- ---------------------------------------------------------------------------

/-- A quotient within half of `m` rounds to `m`; from a distance of one half only to an even `m`. -/
theorem roundDiv_eq {a b m : Nat} (hb : 0 < b) (hlow : (m : ℚ) - 1 / 2 ≤ (a : ℚ) / b)
    (hhigh : (a : ℚ) / b ≤ m + 1 / 2)
    (htie : m % 2 = 1 → (m : ℚ) - 1 / 2 ≠ (a : ℚ) / b ∧ (a : ℚ) / b ≠ m + 1 / 2) :
    roundDiv a b = m := by
  have hbq : (0 : ℚ) < b := by exact_mod_cast hb
  have htie : m % 2 = 1 → 2 * m * b ≠ 2 * a + b ∧ 2 * a ≠ (2 * m + 1) * b := by
    intro hodd
    obtain ⟨hbelow, habove⟩ := htie hodd
    refine ⟨fun heq => hbelow ?_, fun heq => habove ?_⟩
    · have heq : (2 * m * b : ℚ) = 2 * a + b := by exact_mod_cast heq
      rw [eq_div_iff hbq.ne']
      linarith
    · have heq : (2 * a : ℚ) = (2 * m + 1) * b := by exact_mod_cast heq
      rw [div_eq_iff hbq.ne']
      linarith
  rw [le_div_iff₀ hbq] at hlow
  rw [div_le_iff₀ hbq] at hhigh
  have hlow : (2 * m * b : ℚ) ≤ 2 * a + b := by linarith
  have hhigh : (2 * a : ℚ) ≤ (2 * m + 1) * b := by linarith
  have hlow : 2 * m * b ≤ 2 * a + b := by exact_mod_cast hlow
  have hhigh : 2 * a ≤ (2 * m + 1) * b := by exact_mod_cast hhigh
  have hdiv := Nat.div_add_mod a b
  have hmod := Nat.mod_lt a hb
  simp only [roundDiv, Bool.or_eq_true, decide_eq_true_eq, Bool.and_eq_true, beq_iff_eq]
  generalize a / b = q at *
  generalize a % b = r at *
  subst hdiv
  have hle : q ≤ m := by
    by_contra hgt
    have hmul := Nat.mul_le_mul_left b (Nat.lt_of_not_le hgt)
    linarith
  have hge : m ≤ q + 1 := by
    by_contra hlt
    have hmul := Nat.mul_le_mul_left b (Nat.lt_of_not_le hlt)
    linarith
  obtain rfl | rfl : q = m ∨ m = q + 1 := by omega
  · rw [if_neg]
    rintro (hr | ⟨hr, hodd⟩)
    · linarith
    · exact (htie hodd).2 (by linarith)
  · rw [if_pos]
    by_cases hr : b < 2 * r
    · exact .inl hr
    · have heq : 2 * r = b := by linarith
      refine .inr ⟨heq, ?_⟩
      by_contra heven
      exact (htie (by omega)).1 (by linarith)

theorem roundDiv_le {a b k : Nat} (h : a < b * k) : roundDiv a b ≤ k := by
  have hlt := Nat.div_lt_of_lt_mul h
  simp only [roundDiv]
  split <;> omega

theorem le_roundDiv {a b k : Nat} (hb : 0 < b) (h : b * k ≤ a) : k ≤ roundDiv a b := by
  have hle : k ≤ a / b := by rwa [Nat.le_div_iff_mul_le hb, Nat.mul_comm]
  simp only [roundDiv]
  split <;> omega

-- ---------------------------------------------------------------------------
-- The exponent of a quotient
-- ---------------------------------------------------------------------------

theorem inUnits_pos {n d : Nat} (hd : 0 < d) (e : Int) : 0 < (inUnits n d e).2 := by
  unfold inUnits
  split
  · exact Nat.mul_pos hd (Nat.pow_pos (by decide))
  · exact hd

theorem inUnits_value (n d : Nat) (e : Int) :
    ((inUnits n d e).1 : ℚ) / (inUnits n d e).2 = (n : ℚ) / d / 2 ^ e := by
  unfold inUnits
  split
  · rename_i he
    obtain ⟨k, rfl⟩ := Int.eq_ofNat_of_zero_le he
    simp [div_div]
  · rename_i he
    obtain ⟨k, hk⟩ := Int.eq_ofNat_of_zero_le (a := -e) (by omega)
    obtain rfl : e = -k := by omega
    simp [div_mul_eq_mul_div]

theorem inUnits_lt {n d : Nat} (hd : 0 < d) {e : Int} {k : Nat} :
    (inUnits n d e).1 < (inUnits n d e).2 * k ↔ (n : ℚ) / d < k * 2 ^ e := by
  have hpos : (0 : ℚ) < (inUnits n d e).2 := by exact_mod_cast inUnits_pos hd e
  rw [← div_lt_iff₀ (by positivity), ← inUnits_value, div_lt_iff₀ hpos, mul_comm (k : ℚ)]
  norm_cast

/-- The exponent for which a positive `x` has as many binary digits as can be, at most 53. -/
structure FitsAt (x : ℚ) (e : Int) : Prop where
  low : minExponent ≤ e
  above : x < 2 ^ 53 * 2 ^ e
  below : e = minExponent ∨ 2 ^ 52 * 2 ^ e ≤ x

theorem two_zpow_succ (e : Int) : (2 : ℚ) ^ (e + 1) = 2 * 2 ^ e := by
  rw [zpow_add_one₀ two_ne_zero, mul_comm]

theorem FitsAt.le {x : ℚ} {e e' : Int} (h : FitsAt x e) (h' : FitsAt x e') : e' ≤ e := by
  by_contra hlt
  have hlow := h.low
  have hbelow := h'.below.resolve_left (by omega)
  have hmono : (2 : ℚ) ^ (e + 1) ≤ 2 ^ e' := zpow_le_zpow_right₀ (by norm_num) (by omega)
  rw [two_zpow_succ] at hmono
  have habove := h.above
  linarith

theorem FitsAt.unique {x : ℚ} {e e' : Int} (h : FitsAt x e) (h' : FitsAt x e') : e = e' :=
  le_antisymm (h'.le h) (h.le h')

/-- The binary digits of numerator and denominator tell the size of a quotient up to one digit. -/
theorem quotient_log2 {n d : Nat} (hn : n ≠ 0) (hd : d ≠ 0) :
    2 ^ 51 * (2 : ℚ) ^ ((n.log2 : Int) - d.log2 - 52) ≤ (n : ℚ) / d ∧
      (n : ℚ) / d < 2 ^ 53 * (2 : ℚ) ^ ((n.log2 : Int) - d.log2 - 52) := by
  have hnlow : (2 : ℚ) ^ n.log2 ≤ n := by exact_mod_cast Nat.log2_self_le hn
  have hnhigh : (n : ℚ) < 2 ^ (n.log2 + 1) := by exact_mod_cast Nat.lt_log2_self
  have hdlow : (2 : ℚ) ^ d.log2 ≤ d := by exact_mod_cast Nat.log2_self_le hd
  have hdhigh : (d : ℚ) < 2 ^ (d.log2 + 1) := by exact_mod_cast Nat.lt_log2_self
  have hdpos : (0 : ℚ) < d := by exact_mod_cast Nat.pos_of_ne_zero hd
  have hscale : (2 : ℚ) ^ ((n.log2 : Int) - d.log2 - 52) = 2 ^ n.log2 / 2 ^ d.log2 / 2 ^ 52 := by
    rw [zpow_sub₀ two_ne_zero, zpow_sub₀ two_ne_zero]
    norm_cast
  rw [hscale]
  rw [pow_succ] at hnhigh hdhigh
  generalize (2 : ℚ) ^ n.log2 = x at *
  have hy : (0 : ℚ) < 2 ^ d.log2 := by positivity
  generalize (2 : ℚ) ^ d.log2 = y at *
  constructor
  · rw [le_div_iff₀ hdpos]
    have hxy : 0 ≤ x / y := by
      have : 0 ≤ x := by linarith
      positivity
    have hx : x / y * y = x := div_mul_cancel₀ x hy.ne'
    nlinarith
  · rw [div_lt_iff₀ hdpos]
    have hx : x / y * y = x := div_mul_cancel₀ x hy.ne'
    have hxy : 0 ≤ x / y := by
      have : 0 ≤ x := by linarith
      positivity
    nlinarith

theorem quotientExponent_fits {n d : Nat} (hn : n ≠ 0) (hd : d ≠ 0) :
    FitsAt ((n : ℚ) / d) (quotientExponent n d) := by
  obtain ⟨hlow, hhigh⟩ := quotient_log2 hn hd
  unfold quotientExponent
  dsimp only
  generalize (n.log2 : Int) - d.log2 - 52 = e at *
  -- The estimate is the exponent itself or one too great.
  have hfits : ∃ e', (if (inUnits n d e).1 < (inUnits n d e).2 * Nat.pow 2 52 then e - 1 else e) =
      e' ∧ (n : ℚ) / d < 2 ^ 53 * 2 ^ e' ∧ 2 ^ 52 * 2 ^ e' ≤ (n : ℚ) / d := by
    refine ⟨_, rfl, ?_⟩
    split <;> rename_i hx <;> rw [inUnits_lt (Nat.pos_of_ne_zero hd)] at hx <;> norm_num at hx
    · have hsucc := two_zpow_succ (e - 1)
      rw [sub_add_cancel] at hsucc
      rw [hsucc] at hlow hx
      exact ⟨by linarith, by linarith⟩
    · exact ⟨hhigh, by linarith⟩
  obtain ⟨e', heq, habove, hbelow⟩ := hfits
  rw [heq]
  rcases le_total minExponent e' with hle | hle
  · rw [max_eq_left hle]
    exact ⟨hle, habove, .inr hbelow⟩
  · rw [max_eq_right hle]
    refine ⟨le_refl _, habove.trans_le ?_, .inl rfl⟩
    exact mul_le_mul_of_nonneg_left (zpow_le_zpow_right₀ (by norm_num) hle) (by norm_num)

-- ---------------------------------------------------------------------------
-- Rounding
-- ---------------------------------------------------------------------------

theorem ofQuotient_eq (negative : Bool) {n d : Nat} (hn : n ≠ 0) (hd : d ≠ 0)
    (he : FitsAt ((n : ℚ) / d) e) : ∃ a b : Nat, 0 < b ∧ (a : ℚ) / b = (n : ℚ) / d / 2 ^ e ∧
      ofQuotient negative n d = carry negative (roundDiv a b) e := by
  obtain rfl := he.unique (quotientExponent_fits hn hd)
  refine ⟨_, _, inUnits_pos (Nat.pos_of_ne_zero hd) _, inUnits_value n d _, ?_⟩
  rw [ofQuotient, if_neg hn, roundAt]

theorem carry_of_lt (negative : Bool) {m : Nat} (hm : m < 2 ^ 53) (he : e ≤ maxExponent) :
    carry negative m e = .finite negative m e := by
  rw [carry, Nat.pow_eq, if_neg hm.ne, bounded, if_neg he.not_gt]

theorem carry_power (negative : Bool) (he : e + 1 ≤ maxExponent) :
    carry negative (2 ^ 53) e = .finite negative (2 ^ 52) (e + 1) := by
  rw [carry, Nat.pow_eq, Nat.pow_eq, if_pos rfl, bounded, if_neg he.not_gt]

/-- What lies in the interval of a number is rounded to it. -/
theorem ofQuotient_of_rounds (negative : Bool) {n d : Nat} (hn : n ≠ 0) (hd : d ≠ 0)
    (hm : Canonical m e) (h : RoundsTo ((n : ℚ) / d) m e) :
    ofQuotient negative n d = .finite negative m e := by
  obtain ⟨hbelow, habove, htie⟩ := h
  have hscale : (0 : ℚ) < 2 ^ e := by positivity
  have hmq : (m : ℚ) + 1 ≤ 2 ^ 53 := by exact_mod_cast hm.mantissa
  have hgap := gap_le m e
  have hlt : (n : ℚ) / d < 2 ^ 53 * 2 ^ e := by
    refine habove.trans_lt (mul_lt_mul_of_pos_right ?_ hscale)
    linarith
  by_cases hfull : e = minExponent ∨ 2 ^ 52 * 2 ^ e ≤ (n : ℚ) / d
  · obtain ⟨a, b, hb, hvalue, heq⟩ := ofQuotient_eq negative hn hd ⟨hm.low, hlt, hfull⟩
    have hround : roundDiv a b = m := by
      rw [← le_div_iff₀ hscale, ← hvalue] at hbelow
      rw [← div_le_iff₀ hscale, ← hvalue] at habove
      refine roundDiv_eq hb (by linarith) habove fun hodd => ?_
      obtain ⟨hlow, hhigh⟩ := htie hodd
      rw [Ne, ← eq_div_iff hscale.ne', ← hvalue] at hlow
      rw [Ne, ← div_eq_iff hscale.ne', ← hvalue] at hhigh
      exact ⟨fun heq => hlow (le_antisymm hbelow (by linarith)), hhigh⟩
    rw [heq, hround, carry_of_lt negative hm.mantissa hm.high]
  · -- Just below a power of two the digits are finer, and rounding carries over to the power.
    rw [not_or, not_le] at hfull
    obtain ⟨hne, hunder⟩ := hfull
    have hmin : minExponent < e := lt_of_le_of_ne hm.low (Ne.symm hne)
    have hfloor : (2 : ℚ) ^ 52 ≤ m := by exact_mod_cast hm.full.resolve_right hne
    have hpower : m = 2 ^ 52 := by
      have hlt : ((m : ℚ) - 1 / 2) < 2 ^ 52 := by
        refine lt_of_mul_lt_mul_right (lt_of_le_of_lt ?_ (hbelow.trans_lt hunder)) hscale.le
        exact mul_le_mul_of_nonneg_right (by linarith) hscale.le
      have hle : (m : ℚ) < 2 ^ 52 + 1 := by linarith
      have hle : m < 2 ^ 52 + 1 := by exact_mod_cast hle
      have hge : 2 ^ 52 ≤ m := by exact_mod_cast hfloor
      omega
    obtain ⟨e, rfl⟩ : ∃ e', e = e' + 1 := ⟨e - 1, by omega⟩
    rw [two_zpow_succ] at hunder hbelow
    have hquarter : gap m (e + 1) = 1 / 4 := if_pos ⟨hpower, hmin⟩
    rw [hquarter, hpower] at hbelow
    push_cast at hbelow
    have hfits : FitsAt ((n : ℚ) / d) e := ⟨by omega, by linarith, .inr (by linarith)⟩
    obtain ⟨a, b, hb, hvalue, heq⟩ := ofQuotient_eq negative hn hd hfits
    have hround : roundDiv a b = 2 ^ 53 := by
      have hscale : (0 : ℚ) < 2 ^ e := by positivity
      refine roundDiv_eq hb ?_ ?_ (by omega)
      · rw [hvalue, le_div_iff₀ hscale]
        push_cast
        linarith
      · rw [hvalue, div_le_iff₀ hscale]
        push_cast
        linarith
    rw [heq, hround, carry_power negative hm.high, hpower]

theorem zero_canonical (negative : Bool) : (zero negative).IsCanonical :=
  ⟨by norm_num, le_refl _, by decide, .inr rfl⟩

theorem ofQuotient_canonical (negative : Bool) (n : Nat) {d : Nat} (hd : d ≠ 0) :
    (ofQuotient negative n d).IsCanonical := by
  by_cases hn : n = 0
  · rw [ofQuotient, if_pos hn]
    exact zero_canonical negative
  obtain ⟨hlow, habove, hbelow⟩ := quotientExponent_fits hn hd
  obtain ⟨a, b, hb, hvalue, heq⟩ := ofQuotient_eq negative hn hd ⟨hlow, habove, hbelow⟩
  rw [heq]
  generalize quotientExponent n d = e at *
  have hscale : (0 : ℚ) < 2 ^ e := by positivity
  have hbq : (0 : ℚ) < b := by exact_mod_cast hb
  rw [← div_lt_iff₀ hscale, ← hvalue, div_lt_iff₀ hbq] at habove
  rw [← le_div_iff₀ hscale, ← hvalue, le_div_iff₀ hbq] at hbelow
  have hle : roundDiv a b ≤ 2 ^ 53 := roundDiv_le (by rw [mul_comm]; exact_mod_cast habove)
  rw [carry, Nat.pow_eq, Nat.pow_eq]
  split <;> unfold bounded
  · split
    · trivial
    · exact ⟨by norm_num, by omega, by omega, .inl (le_refl _)⟩
  · split
    · trivial
    · refine ⟨by omega, hlow, by omega, hbelow.symm.imp_left fun hbelow => ?_⟩
      exact le_roundDiv hb (by rw [mul_comm]; exact_mod_cast hbelow)

end BlockSketch.Binary64
