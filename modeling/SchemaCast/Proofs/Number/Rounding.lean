import SchemaCast.Number.Reading
import Mathlib.Tactic.Ring
import Mathlib.Tactic.Linarith

/-!
# Integers as doubles

Doubles that are integers compare as these integers do. The double nearest to an integer is the
integer itself up to `2^53`. Beyond that it is an integer at least as far from zero as `2^53`, and
`2^53 + 1` is the only one that is rounded down to `2^53`, a tie that goes to the even mantissa.
So a comparison with a bound up to `2^53` is exact but for this one integer and its negative.
-/
namespace SchemaCast.Number

theorem twoPow_eq (n : Nat) : twoPow n = 2 ^ n := by
  rw [twoPow, Nat.pow_eq]

namespace Exact

variable {x y : Exact} {v w : Int}

/-- A double that is an integer, as an integer over a common denominator. -/
theorem scaled_eq {negative : Bool} {mantissa : Nat} {exponent : Int} {shift : Nat}
    (h : (finite negative mantissa exponent).toInt? = some v) (hshift : -exponent ≤ shift) :
    scaled negative mantissa exponent shift = v * 2 ^ shift := by
  by_cases he : 0 ≤ exponent
  · have hexp : (exponent + shift).toNat = exponent.toNat + shift := by omega
    simp only [toInt?, he, if_true, Option.some.injEq] at h
    subst h
    cases negative
    · simp [scaled, twoPow_eq, hexp, pow_add, mul_assoc]
    · simp [scaled, twoPow_eq, hexp, pow_add, mul_assoc]
  · have hexp : shift = (-exponent).toNat + (exponent + shift).toNat := by omega
    simp only [toInt?, he, if_false, Option.ite_none_right_eq_some, Option.some.injEq] at h
    obtain ⟨hdvd, rfl⟩ := h
    obtain ⟨k, rfl⟩ := Nat.dvd_of_mod_eq_zero hdvd
    have hpos : 0 < twoPow (-exponent).toNat := Nat.two_pow_pos _
    rw [Nat.mul_div_cancel_left k hpos]
    have hpow : (2 : Int) ^ shift = 2 ^ (-exponent).toNat * 2 ^ (exponent + shift).toNat := by
      rw [← pow_add, ← hexp]
    rw [hpow]
    cases negative
    · simp only [scaled, twoPow_eq, Bool.false_eq_true, if_false]
      push_cast
      ring
    · simp only [scaled, twoPow_eq, if_true]
      push_cast
      ring

theorem exists_finite (h : x.toInt? = some v) :
    ∃ negative mantissa exponent, x = finite negative mantissa exponent := by
  cases x with
  | nan => simp [toInt?] at h
  | infinite negative => simp [toInt?] at h
  | finite negative mantissa exponent => exact ⟨negative, mantissa, exponent, rfl⟩

/-- Doubles that are integers compare as the integers do. -/
theorem lt_of_toInt? (hx : x.toInt? = some v) (hy : y.toInt? = some w) :
    x.lt y = decide (v < w) := by
  obtain ⟨s, m, e, rfl⟩ := exists_finite hx
  obtain ⟨t, n, f, rfl⟩ := exists_finite hy
  simp only [lt]
  rw [scaled_eq hx (by omega), scaled_eq hy (by omega)]
  have hpos : (0 : Int) < 2 ^ (max (-e) (-f)).toNat := by positivity
  exact decide_eq_decide.2 (Int.mul_lt_mul_right hpos)

theorem eq_of_toInt? (hx : x.toInt? = some v) (hy : y.toInt? = some w) :
    x.eq y = decide (v = w) := by
  obtain ⟨s, m, e, rfl⟩ := exists_finite hx
  obtain ⟨t, n, f, rfl⟩ := exists_finite hy
  simp only [Exact.eq]
  rw [scaled_eq hx (by omega), scaled_eq hy (by omega)]
  have hpos : (0 : Int) < 2 ^ (max (-e) (-f)).toNat := by positivity
  exact decide_eq_decide.2 (Int.mul_eq_mul_right_iff hpos.ne')

theorem le_of_toInt? (hx : x.toInt? = some v) (hy : y.toInt? = some w) :
    x.le y = decide (v ≤ w) := by
  rw [le, lt_of_toInt? hx hy, eq_of_toInt? hx hy, ← Bool.decide_or]
  exact decide_eq_decide.2 Int.le_iff_lt_or_eq.symm

end Exact

theorem roundHalfEven_one (n : Nat) : roundHalfEven n 1 = n := by
  simp [roundHalfEven, Nat.mod_one]

theorem div_le_roundHalfEven (num den : Nat) : num / den ≤ roundHalfEven num den := by
  unfold roundHalfEven
  simp only
  split
  · exact Nat.le_refl _
  · split <;> omega

/-- Halves go to the even neighbour: of the integers from `2^53` on, two are rounded to `2^53`. -/
theorem roundHalfEven_two_eq_iff {k : Nat} (h : 2 ^ 53 ≤ k) :
    roundHalfEven k 2 = 2 ^ 52 ↔ k ≤ 2 ^ 53 + 1 := by
  unfold roundHalfEven
  simp only
  split
  · omega
  · split <;> omega

/-- The exponent of an integer puts its leading bit on the last but one of 53 places. -/
theorem mantissaExponent_one {k : Nat} (hk : k ≠ 0) :
    mantissaExponent k 1 = (k.log2 : Int) - 52 := by
  have hle : 2 ^ k.log2 ≤ k := Nat.log2_self_le hk
  have hexact : ¬k * twoPow (-((k.log2 : Int) - 52)).toNat <
      1 * twoPow ((k.log2 : Int) - 52).toNat * twoPow 52 := by
    have hexp : ((k.log2 : Int) - 52).toNat + 52 = k.log2 + (-((k.log2 : Int) - 52)).toNat := by
      omega
    rw [Nat.one_mul, twoPow_eq, twoPow_eq, twoPow_eq, ← pow_add, hexp, pow_add, Nat.not_lt]
    exact Nat.mul_le_mul_right _ hle
  have hone : (Nat.log2 1 : Int) = 0 := by decide
  simp only [mantissaExponent, hone, Int.sub_zero, if_neg hexact]
  omega

namespace Exact

/-- The integer of a sign and a size. -/
def signed (negative : Bool) (size : Nat) : Int := if negative then -size else size

theorem toInt?_finite_of_nonneg (negative : Bool) (mantissa : Nat) {exponent : Nat} :
    (finite negative mantissa exponent).toInt? =
      some (signed negative (mantissa * 2 ^ exponent)) := by
  simp [toInt?, signed, twoPow_eq]

/-- The double nearest to an integer, from the exponent and the rounded mantissa; a mantissa that
grows to 54 bits moves into the next exponent. -/
theorem nearest_eq (negative : Bool) {k m : Nat} {q : Int} (hk : k ≠ 0)
    (hq : mantissaExponent k 1 = q)
    (hm : roundHalfEven (k * twoPow (-q).toNat) (1 * twoPow q.toNat) = m) (hlt : q < 64) :
    nearest negative k 1 =
      if m = twoPow 53 then finite negative (twoPow 52) (q + 1) else finite negative m q := by
  unfold nearest
  rw [if_neg hk, hq]
  simp only [hm]
  by_cases hcarry : m = twoPow 53
  · simp only [if_pos hcarry]
    rw [if_pos (by omega)]
  · simp only [if_neg hcarry]
    rw [if_pos (by omega)]

theorem toInt?_nearest_of_lt (negative : Bool) {k : Nat} (h : k < 2 ^ 53) :
    (nearest negative k 1).toInt? = some (signed negative k) := by
  by_cases hk : k = 0
  · subst hk
    cases negative <;> simp [nearest, toInt?, signed]
  · have hlog : k.log2 < 53 := (Nat.log2_lt hk).2 h
    obtain ⟨places, hplaces⟩ : ∃ places, places + k.log2 = 52 := ⟨52 - k.log2, by omega⟩
    have hq : mantissaExponent k 1 = -(places : Int) := by
      rw [mantissaExponent_one hk]
      omega
    -- the mantissa is the integer moved up, with nothing to round
    have hm : roundHalfEven (k * twoPow (- -(places : Int)).toNat)
        (1 * twoPow (-(places : Int)).toNat) = k * 2 ^ places := by
      have hzero : (-(places : Int)).toNat = 0 := by omega
      rw [Int.neg_neg, Int.toNat_natCast, hzero, twoPow_eq, twoPow_eq, pow_zero, Nat.one_mul,
        roundHalfEven_one]
    have hlt : k * 2 ^ places < twoPow 53 := by
      have hself : k < 2 ^ (k.log2 + 1) := Nat.lt_log2_self
      calc k * 2 ^ places < 2 ^ (k.log2 + 1) * 2 ^ places :=
            Nat.mul_lt_mul_of_pos_right hself (Nat.two_pow_pos _)
        _ = 2 ^ (places + k.log2 + 1) := by ring
        _ = twoPow 53 := by rw [hplaces, twoPow_eq]
    rw [nearest_eq negative hk hq hm (by omega), if_neg hlt.ne]
    by_cases hfull : places = 0
    · subst hfull
      simp [toInt?, twoPow_eq, signed]
    · have hneg : ¬(0 : Int) ≤ -(places : Int) := by omega
      simp only [toInt?, if_neg hneg, Int.neg_neg, Int.toNat_natCast, twoPow_eq,
        Nat.mul_mod_left, if_true, Nat.mul_div_cancel _ (Nat.two_pow_pos places)]
      rfl

/-- From `2^53` on integers are rounded to integers from `2^53` on. -/
theorem toInt?_nearest_of_le (negative : Bool) {k : Nat} (h : 2 ^ 53 ≤ k) (hk : k < 2 ^ 64) :
    ∃ size : Nat, (nearest negative k 1).toInt? = some (signed negative size) ∧ 2 ^ 53 ≤ size ∧
      (size = 2 ^ 53 ↔ k ≤ 2 ^ 53 + 1) := by
  have hne : k ≠ 0 := by omega
  have hlow : 53 ≤ k.log2 := (Nat.le_log2 hne).2 h
  have hhigh : k.log2 < 64 := (Nat.log2_lt hne).2 hk
  obtain ⟨places, hplaces⟩ : ∃ places, k.log2 = 52 + places := ⟨k.log2 - 52, by omega⟩
  have hq : mantissaExponent k 1 = (places : Int) := by
    rw [mantissaExponent_one hne]
    omega
  have hm : roundHalfEven (k * twoPow (-(places : Int)).toNat)
      (1 * twoPow (places : Int).toNat) = roundHalfEven k (2 ^ places) := by
    have hzero : (-(places : Int)).toNat = 0 := by omega
    rw [Int.toNat_natCast, hzero, twoPow_eq, twoPow_eq, pow_zero, Nat.mul_one, Nat.one_mul]
  refine ⟨roundHalfEven k (2 ^ places) * 2 ^ places, ?_, ?_⟩
  · rw [nearest_eq negative hne hq hm (by omega)]
    by_cases hcarry : roundHalfEven k (2 ^ places) = twoPow 53
    · have hsize : twoPow 53 * 2 ^ places = twoPow 52 * 2 ^ (places + 1) := by
        rw [twoPow_eq, twoPow_eq]
        ring
      rw [if_pos hcarry, hcarry, hsize]
      exact toInt?_finite_of_nonneg ..
    · rw [if_neg hcarry]
      exact toInt?_finite_of_nonneg ..
  · have hmantissa : 2 ^ 52 ≤ k / 2 ^ places := by
      rw [Nat.le_div_iff_mul_le (Nat.two_pow_pos _), ← pow_add, ← hplaces]
      exact Nat.log2_self_le hne
    have hround := hmantissa.trans (div_le_roundHalfEven k (2 ^ places))
    by_cases hone : places = 1
    · subst hone
      have htwo := roundHalfEven_two_eq_iff h
      rw [pow_one] at hround ⊢
      omega
    · have hfour : 2 ^ 2 ≤ 2 ^ places := Nat.pow_le_pow_right (by decide) (by omega)
      have hsize := Nat.mul_le_mul hround hfour
      have hlarge := Nat.mul_le_mul hmantissa hfour
      have hle := Nat.div_mul_le_self k (2 ^ places)
      omega

end Exact

/-- The integer is rounded onto the bound although it is another one: a tie between doubles. -/
def RoundsOnto (n b : Int) : Prop :=
  (n = 2 ^ 53 + 1 ∧ b = 2 ^ 53) ∨ (n = -(2 ^ 53 + 1) ∧ b = -2 ^ 53)

/-- The double of an integer tells how the integer compares with bounds up to `2^53`, except where
it is rounded onto the bound. -/
theorem exists_toInt?_ofInt {n : Int} (hn : n.natAbs ≤ word64Max) :
    ∃ r, (Exact.ofInt n).toInt? = some r ∧ ∀ b : Int, b.natAbs ≤ 2 ^ 53 →
      (r < b ↔ n < b ∧ ¬RoundsOnto n b) ∧ (b < r ↔ b < n ∧ ¬RoundsOnto n b) := by
  have hrange : n.natAbs < 2 ^ 64 := by
    have hmax : word64Max = 2 ^ 64 - 1 := by decide
    omega
  by_cases hsmall : n.natAbs < 2 ^ 53
  · refine ⟨n, ?_, ?_⟩
    · have hsigned : Exact.signed (decide (n < 0)) n.natAbs = n := by
        by_cases hsign : n < 0
        · simp only [Exact.signed, hsign, decide_true, if_true]
          omega
        · simp only [Exact.signed, hsign, decide_false, Bool.false_eq_true, if_false]
          omega
      rw [Exact.ofInt, Exact.toInt?_nearest_of_lt _ hsmall, hsigned]
    · intro b hb
      unfold RoundsOnto
      omega
  · obtain ⟨size, hsize, hlow, hiff⟩ :=
      Exact.toInt?_nearest_of_le (decide (n < 0)) (Nat.not_lt.1 hsmall) hrange
    refine ⟨_, hsize, ?_⟩
    intro b hb
    unfold RoundsOnto
    by_cases hsign : n < 0
    · simp only [Exact.signed, hsign, decide_true, if_true]
      omega
    · simp only [Exact.signed, hsign, decide_false, Bool.false_eq_true, if_false]
      omega

end SchemaCast.Number
