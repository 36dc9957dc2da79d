/-
Rounding keeps order.

A quotient is rounded on a grid: the multiples of a power of two that has 53 bits below the
quotient, unless that is smaller than the least one.  On one grid the rounded quotients are ordered
as the quotients are.  Of two grids the coarser one starts where the finer one ends, at a power of
two, and rounding on neither goes past it.  So a quotient overflows if a smaller one does, and a
product if one of smaller factors does.

* `two_pow_floorLog2_le`, `lt_two_pow_floorLog2`: the logarithm rounded down;
* `rounded`, `rounded_mono`: rounded quotients;
* `ofRatio?_eq_none_iff`: the quotients that overflow;
* `mul?_eq_none_of_le`: products that overflow.
-/
import Mathlib.Tactic.GCongr
import Roster.Proofs.ShortestText

namespace Roster.Binary64

open Shortest (magnitude pow_toNat_div cast_shiftUp)

variable {n d n' d' k : Nat}

/-! ### Quotients rounded to integers -/

theorem roundDiv_one (k : Nat) : roundDiv k 1 = k := by simp [roundDiv, Nat.mod_one]

theorem roundDiv_mono (hd : 0 < d) (hd' : 0 < d') (h : (n / d : ℚ) ≤ n' / d') :
    roundDiv n d ≤ roundDiv n' d' := by
  have hcross : n * d' ≤ n' * d := by
    have hdq : (0 : ℚ) < d := by exact_mod_cast hd
    have hdq' : (0 : ℚ) < d' := by exact_mod_cast hd'
    rw [div_le_div_iff₀ hdq hdq'] at h
    exact_mod_cast h
  have hq : n / d ≤ n' / d' := by
    rw [Nat.le_div_iff_mul_le hd']
    refine Nat.le_of_mul_le_mul_right (le_trans ?_ hcross) hd
    rw [Nat.mul_right_comm]
    exact Nat.mul_le_mul_right d' (Nat.div_mul_le_self n d)
  rcases Nat.lt_or_eq_of_le hq with hlt | heq
  · -- rounding goes to the next integer at most
    have hup : roundDiv n d ≤ n / d + 1 := by unfold roundDiv; dsimp only; split_ifs <;> omega
    have hdown : n' / d' ≤ roundDiv n' d' := by unfold roundDiv; dsimp only; split_ifs <;> omega
    omega
  · -- between the same integers the remainders decide
    have hr : n % d * d' ≤ n' % d' * d := by
      have hn := Nat.div_add_mod n d
      have hn' := Nat.div_add_mod n' d'
      have hwhole : d * (n / d) * d' = d' * (n' / d') * d := by rw [heq]; ring
      rw [← hn, ← hn', Nat.add_mul, Nat.add_mul, hwhole] at hcross
      exact Nat.le_of_add_le_add_left hcross
    have hdouble : 2 * (n % d) * d' ≤ 2 * (n' % d') * d := by
      rw [Nat.mul_assoc, Nat.mul_assoc]
      exact Nat.mul_le_mul_left 2 hr
    have hhalf : d ≤ 2 * (n % d) → d' ≤ 2 * (n' % d') := by
      intro hle
      refine Nat.le_of_mul_le_mul_right (le_trans ?_ hdouble) hd
      rw [Nat.mul_comm]
      exact Nat.mul_le_mul_right d' hle
    have hmore : d < 2 * (n % d) → d' < 2 * (n' % d') := by
      intro hlt
      refine Nat.lt_of_mul_lt_mul_right (a := d) (lt_of_lt_of_le ?_ hdouble)
      rw [Nat.mul_comm]
      exact Nat.mul_lt_mul_of_pos_right hlt hd'
    unfold roundDiv
    dsimp only
    rw [heq]
    split_ifs <;> omega

/-- Rounding goes past no integer. -/
theorem roundDiv_le (hd : 0 < d) (h : (n / d : ℚ) ≤ k) : roundDiv n d ≤ k := by
  have hmono : roundDiv n d ≤ roundDiv k 1 := roundDiv_mono hd one_pos (by simpa using h)
  rwa [roundDiv_one] at hmono

theorem le_roundDiv (hd : 0 < d) (h : (k : ℚ) ≤ n / d) : k ≤ roundDiv n d := by
  have hmono : roundDiv k 1 ≤ roundDiv n d := roundDiv_mono one_pos hd (by simpa using h)
  rwa [roundDiv_one] at hmono

/-! ### The logarithm -/

theorem shiftUp_le_shiftUp_iff (hd : 0 < d) (e : Int) :
    shiftUp d e ≤ shiftUp n (-e) ↔ (2 : ℚ) ^ e ≤ n / d := by
  have hd' : (0 : ℚ) < d := by exact_mod_cast hd
  have hdown : (0 : ℚ) < 2 ^ (-e).toNat := by positivity
  rw [← Nat.cast_le (α := ℚ), cast_shiftUp, cast_shiftUp, ← pow_toNat_div two_ne_zero e,
    div_le_div_iff₀ hdown hd', mul_comm (d : ℚ)]

section

variable (hn : 0 < n) (hd : 0 < d)

include hn hd

/-- The quotient of the leading powers is the quotient, up to a factor of two. -/
theorem leading_bounds :
    (2 : ℚ) ^ ((Nat.log2 n : Int) - Nat.log2 d - 1) < n / d ∧
      (n / d : ℚ) < 2 ^ ((Nat.log2 n : Int) - Nat.log2 d + 1) := by
  have hd' : (0 : ℚ) < d := by exact_mod_cast hd
  have hnlow : (2 : ℚ) ^ n.log2 ≤ n := by exact_mod_cast Nat.log2_self_le hn.ne'
  have hdlow : (2 : ℚ) ^ d.log2 ≤ d := by exact_mod_cast Nat.log2_self_le hd.ne'
  have hnhigh : (n : ℚ) < 2 ^ (n.log2 + 1) := by exact_mod_cast Nat.lt_log2_self
  have hdhigh : (d : ℚ) < 2 ^ (d.log2 + 1) := by exact_mod_cast Nat.lt_log2_self
  -- the quotient of the powers of two below and above each of the numbers
  constructor
  · rw [lt_div_iff₀ hd']
    calc (2 : ℚ) ^ ((Nat.log2 n : Int) - Nat.log2 d - 1) * d
        < 2 ^ ((Nat.log2 n : Int) - Nat.log2 d - 1) * 2 ^ (d.log2 + 1) := by gcongr
      _ = 2 ^ n.log2 := by
        rw [← zpow_natCast, ← zpow_natCast, ← zpow_add₀ two_ne_zero]
        congr 1
        push_cast
        ring
      _ ≤ n := hnlow
  · rw [div_lt_iff₀ hd']
    calc (n : ℚ) < 2 ^ (n.log2 + 1) := hnhigh
      _ = 2 ^ ((Nat.log2 n : Int) - Nat.log2 d + 1) * 2 ^ d.log2 := by
        rw [← zpow_natCast, ← zpow_natCast, ← zpow_add₀ two_ne_zero]
        congr 1
        push_cast
        ring
      _ ≤ 2 ^ ((Nat.log2 n : Int) - Nat.log2 d + 1) * d := by gcongr

/-- The power of two is not above the quotient, for the logarithm rounded down. -/
theorem two_pow_floorLog2_le : (2 : ℚ) ^ floorLog2 n d ≤ n / d := by
  unfold floorLog2
  dsimp only
  split
  · rename_i h
    exact (shiftUp_le_shiftUp_iff hd _).1 h
  · exact (leading_bounds hn hd).1.le

theorem lt_two_pow_floorLog2 : (n / d : ℚ) < 2 ^ (floorLog2 n d + 1) := by
  unfold floorLog2
  dsimp only
  split
  · exact (leading_bounds hn hd).2
  · rename_i h
    rw [sub_add_cancel]
    exact not_le.1 ((shiftUp_le_shiftUp_iff hd _).not.1 h)

end

/-! ### Grids -/

/-- The exponent of the grid on which a quotient is rounded. -/
def grid (n d : Nat) : Int := max (floorLog2 n d - 52) (-1074)

/-- The place on a grid to which a quotient is rounded. -/
def place (n d : Nat) (e : Int) : Nat := roundDiv (shiftUp n (-e)) (shiftUp d e)

/-- What a quotient is rounded to, in whatever range that is. -/
def rounded (n d : Nat) : ℚ := (roundRatio n d).1 * 2 ^ (roundRatio n d).2

theorem roundRatio_eq (hn : 0 < n) :
    roundRatio n d =
      if place n d (grid n d) = 0x20000000000000 then (0x10000000000000, grid n d + 1)
      else (place n d (grid n d), grid n d) := by
  rw [roundRatio, if_neg hn.ne']
  rfl

/-- A place past the last one is the first one on the next grid. -/
theorem rounded_eq (hn : 0 < n) : rounded n d = place n d (grid n d) * 2 ^ grid n d := by
  unfold rounded
  rw [roundRatio_eq hn]
  split
  · rename_i h
    rw [h, zpow_add_one₀ two_ne_zero]
    push_cast
    ring
  · rfl

theorem shiftUp_pos (hd : 0 < d) (e : Int) : 0 < shiftUp d e := by
  rw [shiftUp, Nat.shiftLeft_eq]
  exact Nat.mul_pos hd (Nat.pow_pos (by decide))

theorem shiftUp_div_shiftUp (n d : Nat) (e : Int) :
    (shiftUp n (-e) / shiftUp d e : ℚ) = n / d / 2 ^ e := by
  have hpow := pow_toNat_div (two_ne_zero' ℚ) (-e)
  rw [neg_neg] at hpow
  rw [cast_shiftUp, cast_shiftUp, mul_div_mul_comm, hpow, zpow_neg, ← div_eq_mul_inv]

theorem place_mono (hd : 0 < d) (hd' : 0 < d') (h : (n / d : ℚ) ≤ n' / d') (e : Int) :
    place n d e ≤ place n' d' e := by
  refine roundDiv_mono (shiftUp_pos hd e) (shiftUp_pos hd' e) ?_
  rw [shiftUp_div_shiftUp, shiftUp_div_shiftUp]
  gcongr

/-- A quotient goes past no place of the grid. -/
theorem place_le (hd : 0 < d) {e : Int} (h : (n / d : ℚ) ≤ k * 2 ^ e) : place n d e ≤ k := by
  refine roundDiv_le (shiftUp_pos hd e) ?_
  rwa [shiftUp_div_shiftUp, div_le_iff₀ (by positivity)]

theorem le_place (hd : 0 < d) {e : Int} (h : (k * 2 ^ e : ℚ) ≤ n / d) : k ≤ place n d e := by
  refine le_roundDiv (shiftUp_pos hd e) ?_
  rwa [shiftUp_div_shiftUp, le_div_iff₀ (by positivity)]

section

variable (hn : 0 < n) (hd : 0 < d)

include hn hd

/-- On its grid a quotient has 53 bits at most. -/
theorem lt_grid : (n / d : ℚ) < (0x20000000000000 : Nat) * 2 ^ grid n d := by
  have hpow : ((0x20000000000000 : Nat) : ℚ) = 2 ^ (53 : Int) := by norm_num
  rw [hpow, ← zpow_add₀ two_ne_zero]
  refine (lt_two_pow_floorLog2 hn hd).trans_le (zpow_le_zpow_right₀ one_le_two ?_)
  unfold grid
  omega

/-- And it has 53 bits unless the grid is the finest one. -/
theorem grid_le (h : grid n d ≠ -1074) : ((0x10000000000000 : Nat) * 2 ^ grid n d : ℚ) ≤ n / d := by
  have hpow : ((0x10000000000000 : Nat) : ℚ) = 2 ^ (52 : Int) := by norm_num
  rw [hpow, ← zpow_add₀ two_ne_zero]
  refine le_trans (zpow_le_zpow_right₀ one_le_two ?_) (two_pow_floorLog2_le hn hd)
  unfold grid at h ⊢
  omega

theorem place_grid_le : place n d (grid n d) ≤ 0x20000000000000 := place_le hd (lt_grid hn hd).le

theorem le_place_grid (h : grid n d ≠ -1074) : 0x10000000000000 ≤ place n d (grid n d) :=
  le_place hd (grid_le hn hd h)

/-- What is rounded has the form of a number, in whatever range it is. -/
theorem roundRatio_form :
    (roundRatio n d).1 < 0x20000000000000 ∧ -1074 ≤ (roundRatio n d).2 ∧
      (0x10000000000000 ≤ (roundRatio n d).1 ∨ (roundRatio n d).2 = -1074) := by
  have hgrid : -1074 ≤ grid n d := le_max_right ..
  have hplace := place_grid_le hn hd
  rw [roundRatio_eq hn]
  split
  · refine ⟨?_, ?_, .inl le_rfl⟩
    · dsimp only
      omega
    · dsimp only
      omega
  · rename_i hne
    refine ⟨lt_of_le_of_ne hplace hne, hgrid, ?_⟩
    by_cases h : grid n d = -1074
    · exact .inr h
    · exact .inl (le_place_grid hn hd h)

end

theorem grid_mono (hn : 0 < n) (hd : 0 < d) (hn' : 0 < n') (hd' : 0 < d')
    (h : (n / d : ℚ) ≤ n' / d') :
    grid n d ≤ grid n' d' := by
  have hpow := (two_pow_floorLog2_le hn hd).trans_lt (h.trans_lt (lt_two_pow_floorLog2 hn' hd'))
  have hlog := (zpow_lt_zpow_iff_right₀ (one_lt_two (α := ℚ))).1 hpow
  unfold grid
  omega

theorem rounded_zero (d : Nat) : rounded 0 d = 0 := by
  rw [rounded, roundRatio_zero]
  norm_num

theorem rounded_nonneg (n d : Nat) : 0 ≤ rounded n d := by
  unfold rounded
  positivity

/-- **Rounding keeps order.** -/
theorem rounded_mono (hd : 0 < d) (hd' : 0 < d') (h : (n / d : ℚ) ≤ n' / d') :
    rounded n d ≤ rounded n' d' := by
  have hdq : (0 : ℚ) < d := by exact_mod_cast hd
  have hdq' : (0 : ℚ) < d' := by exact_mod_cast hd'
  rcases Nat.eq_zero_or_pos n with rfl | hn
  · rw [rounded_zero]
    exact rounded_nonneg n' d'
  have hn' : 0 < n' := by
    have hpos : (0 : ℚ) < n' / d' := lt_of_lt_of_le (by positivity) h
    exact_mod_cast (div_pos_iff_of_pos_right hdq').1 hpos
  rw [rounded_eq hn, rounded_eq hn']
  rcases (grid_mono hn hd hn' hd' h).eq_or_lt with he | hlt
  · have hplace := place_mono hd hd' h (grid n d)
    rw [← he]
    gcongr
  · -- the end of the finer grid lies between
    have hcoarse : grid n' d' ≠ -1074 := by
      have : -1074 ≤ grid n d := le_max_right ..
      omega
    have hlow : (place n d (grid n d) : ℚ) ≤ 2 ^ (53 : Int) := by
      have := place_grid_le hn hd
      norm_num
      exact_mod_cast this
    have hhigh : (2 : ℚ) ^ (52 : Int) ≤ place n' d' (grid n' d') := by
      have := le_place_grid hn' hd' hcoarse
      norm_num
      exact_mod_cast this
    calc (place n d (grid n d) : ℚ) * 2 ^ grid n d ≤ 2 ^ (53 : Int) * 2 ^ grid n d := by gcongr
      _ = 2 ^ (53 + grid n d) := (zpow_add₀ two_ne_zero ..).symm
      _ ≤ 2 ^ (52 + grid n' d') := zpow_le_zpow_right₀ one_le_two (by omega)
      _ = 2 ^ (52 : Int) * 2 ^ grid n' d' := zpow_add₀ two_ne_zero ..
      _ ≤ place n' d' (grid n' d') * 2 ^ grid n' d' := by gcongr

/-! ### Overflow -/

variable {s s' : Bool} {x x' y y' : Binary64}

theorem magnitude_of_ofRatio (h : ofRatio? s n d = some x) : magnitude x = rounded n d := by
  obtain ⟨-, hm, he⟩ := ofParts?_eq_some_iff.1 h
  rw [magnitude, rounded, hm, he]

/-- A quotient overflows if it is rounded to a power of two past the last finite one. -/
theorem ofRatio?_eq_none_iff (hd : 0 < d) :
    ofRatio? s n d = none ↔ (2 : ℚ) ^ (1024 : Int) ≤ rounded n d := by
  rcases Nat.eq_zero_or_pos n with rfl | hn
  · rw [rounded_zero]
    refine iff_of_false ?_ (not_le.2 (by positivity))
    rw [ofRatio?, roundRatio_zero]
    exact fun h => by cases h
  obtain ⟨hm, hlow, hform⟩ := roundRatio_form hn hd
  -- a rounded ratio has the form of a double but for the size of its exponent
  have hcanonical : Canonical (roundRatio n d).1 (roundRatio n d).2 ↔ (roundRatio n d).2 ≤ 971 :=
    ⟨fun h => h.2.2.1, fun h => ⟨hm, hlow, h, hform⟩⟩
  have hnone : ofRatio? s n d = none ↔ ¬(roundRatio n d).2 ≤ 971 := by
    rw [← hcanonical, ofRatio?, ofParts?]
    split <;> simp_all
  rw [hnone, rounded]
  constructor
  · intro h
    have hnormal : ((0x10000000000000 : Nat) : ℚ) ≤ (roundRatio n d).1 := by
      exact_mod_cast hform.resolve_right (by omega)
    have hpow : ((0x10000000000000 : Nat) : ℚ) = 2 ^ (52 : Int) := by norm_num
    calc (2 : ℚ) ^ (1024 : Int) = (0x10000000000000 : Nat) * 2 ^ (972 : Int) := by
          rw [hpow, ← zpow_add₀ two_ne_zero]
          norm_num
      _ ≤ (roundRatio n d).1 * 2 ^ (roundRatio n d).2 := by
        gcongr
        · exact one_le_two
        · omega
  · intro h hle
    refine absurd h (not_le.2 ?_)
    have hsmall : ((roundRatio n d).1 : ℚ) < (0x20000000000000 : Nat) := by exact_mod_cast hm
    have hpow : ((0x20000000000000 : Nat) : ℚ) = 2 ^ (53 : Int) := by norm_num
    calc ((roundRatio n d).1 * 2 ^ (roundRatio n d).2 : ℚ)
        < (0x20000000000000 : Nat) * 2 ^ (roundRatio n d).2 := by gcongr
      _ ≤ (0x20000000000000 : Nat) * 2 ^ (971 : Int) := by
        gcongr
        exact one_le_two
      _ = (2 : ℚ) ^ (1024 : Int) := by
          rw [hpow, ← zpow_add₀ two_ne_zero]
          norm_num

/-- A quotient overflows if a smaller one does. -/
theorem ofRatio?_eq_none_of_le (hd : 0 < d) (hd' : 0 < d') (h : (n / d : ℚ) ≤ n' / d')
    (hnone : ofRatio? s n d = none) :
    ofRatio? s' n' d' = none :=
  (ofRatio?_eq_none_iff hd').2 (((ofRatio?_eq_none_iff hd).1 hnone).trans (rounded_mono hd hd' h))

theorem ofNat?_eq_none_of_le (h : n ≤ n') (hnone : ofNat? s n = none) : ofNat? s' n' = none := by
  refine ofRatio?_eq_none_of_le one_pos one_pos ?_ hnone
  have : (n : ℚ) ≤ n' := by exact_mod_cast h
  gcongr

theorem magnitude_mono (h : n ≤ n') (hx : ofNat? s n = some x) (hx' : ofNat? s' n' = some x') :
    magnitude x ≤ magnitude x' := by
  rw [magnitude_of_ofRatio hx, magnitude_of_ofRatio hx']
  refine rounded_mono one_pos one_pos ?_
  have : (n : ℚ) ≤ n' := by exact_mod_cast h
  gcongr

theorem denominator_pos (x : Binary64) : 0 < x.denominator := shiftUp_pos one_pos _

theorem numerator_div_denominator (x : Binary64) :
    (x.numerator / x.denominator : ℚ) = magnitude x := by
  rw [numerator, denominator, cast_shiftUp, cast_shiftUp, Nat.cast_one, one_mul, mul_div_assoc,
    pow_toNat_div two_ne_zero, magnitude]

theorem magnitude_nonneg (x : Binary64) : 0 ≤ magnitude x := by
  unfold magnitude
  positivity

theorem isZero_of_magnitude_le (h : magnitude x ≤ magnitude x') (hx' : x'.isZero = true) :
    x.isZero = true := by
  have hzero' : magnitude x' = 0 := by
    rw [magnitude, beq_iff_eq.1 hx', Nat.cast_zero, zero_mul]
  have hzero : magnitude x = 0 := le_antisymm (hzero' ▸ h) (magnitude_nonneg x)
  have hpow : (2 : ℚ) ^ x.exponent ≠ 0 := zpow_ne_zero _ two_ne_zero
  rw [isZero, beq_iff_eq]
  exact_mod_cast (mul_eq_zero.1 hzero).resolve_right hpow

/-- A product overflows if one of smaller factors does. -/
theorem mul?_eq_none_of_le (hx : magnitude x ≤ magnitude x') (hy : magnitude y ≤ magnitude y')
    (hnone : x.mul? y = none) : x'.mul? y' = none := by
  refine ofRatio?_eq_none_of_le (Nat.mul_pos (denominator_pos x) (denominator_pos y))
    (Nat.mul_pos (denominator_pos x') (denominator_pos y')) ?_ hnone
  push_cast
  rw [mul_div_mul_comm, mul_div_mul_comm]
  simp only [numerator_div_denominator]
  exact mul_le_mul hx hy (magnitude_nonneg y) (magnitude_nonneg x')

end Roster.Binary64
