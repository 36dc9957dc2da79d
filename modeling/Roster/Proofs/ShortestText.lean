/-
The shortest text of a double settles the double.

With seventeen digits one of the two neighbours of a number always rounds to it, so the shortest
decimal is one that rounds to its number.  The reals that round to different numbers have no real in
common: where two intervals touch, one of the two significands is odd, and its interval is open.  A
text stands for one decimal, whichever of the layouts it is written in, and so two doubles with the
same text are the same double.

* `Rounds`, `contains_iff`: the reals that round to a number;
* `shortest_rounds`: the shortest decimal rounds to its number;
* `Rounds.unique`: a real rounds to one number only;
* `valueOf_renderDigits`: every layout keeps the decimal;
* `render_injective`: the text of a double settles it.
-/
import Mathlib.Algebra.Order.Field.Power
import Mathlib.Algebra.Order.Ring.Rat
import Mathlib.Data.List.TakeWhile
import Mathlib.Tactic.FieldSimp
import Mathlib.Tactic.Linarith
import Mathlib.Tactic.Positivity
import Mathlib.Tactic.Ring
import Roster.Proofs.Json.Numerals

namespace Roster.Shortest

open Text

/-- What digits and a power of ten stand for. -/
def decimal (d : Nat × Int) : ℚ := d.1 * 10 ^ d.2

/-- The magnitude of a number. -/
def magnitude (x : Binary64) : ℚ := x.significand * 2 ^ x.exponent

/-- The least real that rounds to a number, or the bound of those. -/
def lowEnd (x : Binary64) : ℚ := (Interval.ofBinary64 x).low * 2 ^ (x.exponent - 2)

/-- The greatest real that rounds to a number, or the bound of those. -/
def highEnd (x : Binary64) : ℚ := (Interval.ofBinary64 x).high * 2 ^ (x.exponent - 2)

/-- The real rounds to the magnitude of the number; a half goes to the even significand. -/
def Rounds (x : Binary64) (v : ℚ) : Prop :=
  lowEnd x < v ∧ v < highEnd x ∨ x.significand % 2 = 0 ∧ lowEnd x ≤ v ∧ v ≤ highEnd x

variable {x y : Binary64} {v : ℚ}

/-! ### Intervals -/

/-- A power with a sign, as a quotient of two natural powers. -/
theorem pow_toNat_div {b : ℚ} (hb : b ≠ 0) (e : Int) : b ^ e.toNat / b ^ (-e).toNat = b ^ e := by
  rw [div_eq_iff (pow_ne_zero _ hb), ← zpow_natCast, ← zpow_natCast, ← zpow_add₀ hb]
  congr 1
  omega

theorem cast_shiftUp (n : Nat) (e : Int) : (Binary64.shiftUp n e : ℚ) = n * 2 ^ e.toNat := by
  rw [Binary64.shiftUp, Nat.shiftLeft_eq]
  push_cast
  rfl

theorem unit_div_parts (x : Binary64) :
    ((Interval.ofBinary64 x).unit : ℚ) / (Interval.ofBinary64 x).parts = 2 ^ (x.exponent - 2) := by
  have h := pow_toNat_div (two_ne_zero' ℚ) (x.exponent - 2)
  simpa only [Interval.ofBinary64, cast_shiftUp, Nat.cast_one, one_mul] using h

theorem unit_pos (x : Binary64) : 0 < (Interval.ofBinary64 x).unit := by
  simp [Interval.ofBinary64, Binary64.shiftUp, Nat.shiftLeft_eq]

theorem parts_pos (x : Binary64) : 0 < (Interval.ofBinary64 x).parts := by
  simp [Interval.ofBinary64, Binary64.shiftUp, Nat.shiftLeft_eq]

/-- A quotient lies in the interval of a number exactly if it rounds to it. -/
theorem contains_iff {n d : Nat} (hd : 0 < d) :
    (Interval.ofBinary64 x).contains n d = true ↔ Rounds x (n / d) := by
  have hd' : (0 : ℚ) < d := by exact_mod_cast hd
  have hparts : (0 : ℚ) < (Interval.ofBinary64 x).parts := by exact_mod_cast parts_pos x
  have hclosed : (Interval.ofBinary64 x).closed = (x.significand % 2 == 0) := rfl
  -- the ends of the interval in the units that `contains` counts in
  have hend : ∀ k : Nat, (k : ℚ) * 2 ^ (x.exponent - 2) =
      k * (Interval.ofBinary64 x).unit / (Interval.ofBinary64 x).parts := fun k => by
    rw [← unit_div_parts, mul_div_assoc]
  have hle : ∀ k : Nat, k * (Interval.ofBinary64 x).unit * d ≤ n * (Interval.ofBinary64 x).parts ↔
      (k : ℚ) * 2 ^ (x.exponent - 2) ≤ n / d := fun k => by
    rw [hend, div_le_div_iff₀ hparts hd']
    exact_mod_cast Iff.rfl
  have hge : ∀ k : Nat, n * (Interval.ofBinary64 x).parts ≤ k * (Interval.ofBinary64 x).unit * d ↔
      (n / d : ℚ) ≤ k * 2 ^ (x.exponent - 2) := fun k => by
    rw [hend, div_le_div_iff₀ hd' hparts]
    exact_mod_cast Iff.rfl
  rw [Interval.contains, hclosed, Rounds, lowEnd, highEnd]
  simp only [← not_le, ← hle, ← hge]
  by_cases heven : x.significand % 2 = 0
  · simp only [heven, beq_self_eq_true, if_true, Bool.and_eq_true, decide_eq_true_eq, true_and]
    omega
  · simp only [heven, beq_iff_eq, if_false, Bool.and_eq_true, decide_eq_true_eq,
      false_and, or_false]

/-! ### Seventeen digits are enough -/

/-- The number below the step of its first digit, for the tenth logarithm rounded down. -/
theorem pow_floorLog10_le {n d : Nat} (hn : 0 < n) (hd : 0 < d) :
    (10 : ℚ) ^ floorLog10 n d ≤ n / d := by
  have hn' : (0 : ℚ) < n := by exact_mod_cast hn
  have hd' : (0 : ℚ) < d := by exact_mod_cast hd
  rw [le_div_iff₀ hd', floorLog10]
  split
  · rename_i hle
    -- as many digits as the whole part of the quotient has, less one
    have hpos : 0 < (Decimal.digits (n / d)).length :=
      List.length_pos_iff.2 (Decimal.digits_ne_nil _)
    obtain ⟨k, hk⟩ : ∃ k, (Decimal.digits (n / d)).length = k + 1 :=
      ⟨_, (Nat.sub_add_cancel hpos).symm⟩
    have hpow : 10 ^ k ≤ n / d := by
      rcases Nat.eq_zero_or_pos k with rfl | hk'
      · exact (Nat.one_le_div_iff hd).2 hle
      · refine Nat.le_of_not_lt fun hlt => ?_
        have := (Nat.length_toDigits_le_iff (by decide : 1 < 10) hk').2 hlt
        rw [← Decimal.digits, hk] at this
        omega
    rw [hk, Nat.cast_succ, add_sub_cancel_right, zpow_natCast]
    exact_mod_cast (Nat.le_div_iff_mul_le hd).1 hpow
  · rename_i hlt
    dsimp only
    split
    · rename_i hle
      rw [zpow_neg, zpow_natCast, inv_mul_le_iff₀ (by positivity), mul_comm]
      exact_mod_cast hle
    · -- as many digits as the whole part of the inverse has
      have hpos : 0 < (Decimal.digits (d / n)).length :=
        List.length_pos_iff.2 (Decimal.digits_ne_nil _)
      have hpow := (Nat.length_toDigits_le_iff (by decide : 1 < 10) hpos).1 le_rfl
      rw [zpow_neg, zpow_natCast, inv_mul_le_iff₀ (by positivity)]
      exact_mod_cast ((Nat.div_lt_iff_lt_mul hn).1 hpow).le

/-- A decimal as a quotient. -/
theorem decimal_eq_div (c : Nat) (p : Int) :
    decimal (c, p) = (c * Nat.pow 10 p.toNat : Nat) / (Nat.pow 10 (-p).toNat : Nat) := by
  rw [decimal, ← pow_toNat_div (by norm_num : (10 : ℚ) ≠ 0) p, ← mul_div_assoc]
  simp only [Nat.pow_eq]
  push_cast
  rfl

theorem contains_decimal_iff (c : Nat) (p : Int) :
    (Interval.ofBinary64 x).contains (c * Nat.pow 10 p.toNat) (Nat.pow 10 (-p).toNat) = true ↔
      Rounds x (decimal (c, p)) := by
  have hpos : 0 < Nat.pow 10 (-p).toNat := Nat.pow_pos (by decide)
  rw [contains_iff hpos, decimal_eq_div]

/-- The last decimal of a grid that is not above a quotient, and the next one. -/
theorem decimal_le_and_lt {n d c : Nat} (hd : 0 < d) {p : Int}
    (hc : n * Nat.pow 10 (-p).toNat / (d * Nat.pow 10 p.toNat) = c) :
    decimal (c, p) ≤ n / d ∧ (n / d : ℚ) < decimal (c + 1, p) := by
  have hd' : (0 : ℚ) < d := by exact_mod_cast hd
  have hup : 0 < Nat.pow 10 p.toNat := Nat.pow_pos (by decide)
  have hdown : 0 < Nat.pow 10 (-p).toNat := Nat.pow_pos (by decide)
  have hdown' : (0 : ℚ) < (Nat.pow 10 (-p).toNat : Nat) := by exact_mod_cast hdown
  have hle : c * Nat.pow 10 p.toNat * d ≤ n * Nat.pow 10 (-p).toNat := by
    have h := Nat.div_mul_le_self (n * Nat.pow 10 (-p).toNat) (d * Nat.pow 10 p.toNat)
    rwa [hc, Nat.mul_comm d, ← Nat.mul_assoc] at h
  have hlt : n * Nat.pow 10 (-p).toNat < (c + 1) * Nat.pow 10 p.toNat * d := by
    have h := (Nat.div_lt_iff_lt_mul (Nat.mul_pos hd hup)).1 (Nat.lt_succ_of_le hc.le)
    rwa [Nat.mul_comm d, ← Nat.mul_assoc] at h
  rw [decimal_eq_div, decimal_eq_div, div_le_div_iff₀ hdown' hd', div_lt_div_iff₀ hd' hdown']
  exact ⟨by exact_mod_cast hle, by exact_mod_cast hlt⟩

theorem onGrid?_rounds {count : Nat} {d : Nat × Int}
    (h : onGrid? (Interval.ofBinary64 x) count = some d) :
    Rounds x (decimal d) := by
  unfold onGrid? at h
  dsimp only at h
  split at h
  · cases h
  · rename_i hbelow _
    cases h
    exact (contains_decimal_iff _ _).1 hbelow
  · rename_i _ habove
    cases h
    exact (contains_decimal_iff _ _).1 habove
  · -- both neighbours are in the interval, so the nearer one is too
    rename_i hbelow habove
    split at h
    · cases h
      exact (contains_decimal_iff _ _).1 hbelow
    · split at h
      · cases h
        exact (contains_decimal_iff _ _).1 habove
      · cases h
        rw [← contains_decimal_iff]
        split
        · exact hbelow
        · exact habove

theorem onGrid?_eq_none {count : Nat} {p : Int} {below : Nat}
    (hp : p = floorLog10 ((Interval.ofBinary64 x).middle * (Interval.ofBinary64 x).unit)
      (Interval.ofBinary64 x).parts + 1 - count)
    (hbelow : below =
      (Interval.ofBinary64 x).middle * (Interval.ofBinary64 x).unit * Nat.pow 10 (-p).toNat /
        ((Interval.ofBinary64 x).parts * Nat.pow 10 p.toNat))
    (h : onGrid? (Interval.ofBinary64 x) count = none) :
    ¬Rounds x (decimal (below, p)) ∧ ¬Rounds x (decimal (below + 1, p)) := by
  rw [← contains_decimal_iff, ← contains_decimal_iff]
  unfold onGrid? at h
  dsimp only at h
  rw [← hp, ← hbelow] at h
  split at h
  · rename_i hbelow habove
    rw [hbelow, habove]
    exact ⟨Bool.false_ne_true, Bool.false_ne_true⟩
  · cases h
  · cases h
  · split at h
    · cases h
    · split at h <;> cases h

theorem magnitude_eq (x : Binary64) :
    magnitude x = (Interval.ofBinary64 x).middle * 2 ^ (x.exponent - 2) := by
  have hmiddle : (Interval.ofBinary64 x).middle = 4 * x.significand := rfl
  rw [magnitude, hmiddle, zpow_sub₀ two_ne_zero]
  push_cast
  ring

theorem magnitude_eq_div (x : Binary64) : magnitude x =
    ((Interval.ofBinary64 x).middle * (Interval.ofBinary64 x).unit : Nat) /
      (Interval.ofBinary64 x).parts := by
  rw [magnitude_eq, ← unit_div_parts, Nat.cast_mul, mul_div_assoc]

theorem lowEnd_lt (h : x.isZero = false) : lowEnd x < magnitude x := by
  rw [Binary64.isZero, beq_eq_false_iff_ne] at h
  have hlow : (Interval.ofBinary64 x).low < (Interval.ofBinary64 x).middle := by
    simp only [Interval.ofBinary64]
    split <;> omega
  rw [magnitude_eq, lowEnd]
  exact mul_lt_mul_of_pos_right (by exact_mod_cast hlow) (by positivity)

theorem lt_highEnd (x : Binary64) : magnitude x < highEnd x := by
  have hhigh : (Interval.ofBinary64 x).middle < (Interval.ofBinary64 x).high := by
    simp only [Interval.ofBinary64]
    omega
  rw [magnitude_eq, highEnd]
  exact mul_lt_mul_of_pos_right (by exact_mod_cast hhigh) (by positivity)

/-- An interval is wider than a unit in the seventeenth digit of its number. -/
theorem magnitude_lt_width (x : Binary64) : magnitude x < 10 ^ 16 * (highEnd x - lowEnd x) := by
  have hwidth : (Interval.ofBinary64 x).middle + 10 ^ 16 * (Interval.ofBinary64 x).low <
      10 ^ 16 * (Interval.ofBinary64 x).high := by
    have hlt := x.canonical.1
    simp only [Interval.ofBinary64]
    split <;> omega
  have hcast : ((Interval.ofBinary64 x).middle + 10 ^ 16 * (Interval.ofBinary64 x).low : ℚ) <
      10 ^ 16 * (Interval.ofBinary64 x).high := by
    exact_mod_cast hwidth
  have hunit : (0 : ℚ) < 2 ^ (x.exponent - 2) := by positivity
  have hscaled := mul_lt_mul_of_pos_right hcast hunit
  rw [magnitude_eq, highEnd, lowEnd]
  linarith

/-- One of the two neighbours with seventeen digits rounds to the number. -/
theorem exists_onGrid? (h : x.isZero = false) :
    ∃ d, onGrid? (Interval.ofBinary64 x) 17 = some d := by
  refine Option.ne_none_iff_exists'.1 fun hnone => ?_
  obtain ⟨hbelow, habove⟩ := onGrid?_eq_none rfl rfl hnone
  have hn : 0 < (Interval.ofBinary64 x).middle * (Interval.ofBinary64 x).unit := by
    rw [Binary64.isZero, beq_eq_false_iff_ne] at h
    exact Nat.mul_pos (Nat.mul_pos (by decide) (Nat.pos_of_ne_zero h)) (unit_pos x)
  have hlog := pow_floorLog10_le hn (parts_pos x)
  rw [← magnitude_eq_div] at hlog
  generalize hp : floorLog10 ((Interval.ofBinary64 x).middle * (Interval.ofBinary64 x).unit)
    (Interval.ofBinary64 x).parts + 1 - (17 : Nat) = p at hbelow habove
  generalize hb :
    (Interval.ofBinary64 x).middle * (Interval.ofBinary64 x).unit * Nat.pow 10 (-p).toNat /
      ((Interval.ofBinary64 x).parts * Nat.pow 10 p.toNat) = below at hbelow habove
  have hstep : (10 : ℚ) ^ p * 10 ^ 16 ≤ magnitude x := by
    rw [← zpow_natCast, ← zpow_add₀ (by norm_num), ← hp]
    convert hlog using 2
    push_cast
    ring
  obtain ⟨hle, hlt⟩ := decimal_le_and_lt (parts_pos x) hb
  rw [← magnitude_eq_div] at hle hlt
  -- were both neighbours outside, the interval would fit between them, but it is wider
  have hlow : decimal (below, p) ≤ lowEnd x := by
    refine not_lt.1 fun hlt => hbelow (.inl ⟨hlt, hle.trans_lt (lt_highEnd x)⟩)
  have hhigh : highEnd x ≤ decimal (below + 1, p) :=
    not_lt.1 fun hgt => habove (.inl ⟨(lowEnd_lt h).trans hlt, hgt⟩)
  have hwidth := magnitude_lt_width x
  have hnext : decimal (below + 1, p) = decimal (below, p) + 10 ^ p := by
    rw [decimal, decimal]
    push_cast
    ring
  linarith

theorem shortest_rounds (h : x.isZero = false) : Rounds x (decimal (shortest x)) := by
  obtain ⟨d, hd⟩ := exists_onGrid? h
  rw [shortest]
  cases hfind : (List.range 17).findSome? fun k => onGrid? (Interval.ofBinary64 x) (k + 1) with
  | none =>
    have hnone := List.findSome?_eq_none_iff.1 hfind 16 (List.mem_range.2 (by decide))
    rw [hd] at hnone
    cases hnone
  | some found =>
    obtain ⟨k, -, hk⟩ := List.exists_of_findSome?_eq_some hfind
    exact onGrid?_rounds hk

/-! ### A real rounds to one number only -/

/-- The number comes before the other one of another magnitude: it has the smaller exponent, or of
equal ones the smaller significand. -/
def Before (x y : Binary64) : Prop :=
  x.exponent < y.exponent ∨ x.exponent = y.exponent ∧ x.significand < y.significand

/-- The interval of the smaller number ends before that of the greater one begins, or where it does;
there one of them is open. -/
theorem Before.ends (h : Before x y) : highEnd x ≤ lowEnd y ∧
    (highEnd x = lowEnd y → x.significand % 2 = 1 ∨ y.significand % 2 = 1) := by
  obtain ⟨k, hk⟩ : ∃ k : Nat, y.exponent = x.exponent + k := by
    refine ⟨(y.exponent - x.exponent).toNat, ?_⟩
    rcases h with h | ⟨h, -⟩ <;> omega
  obtain ⟨hx, hx', -, hx''⟩ := x.canonical
  obtain ⟨hy, -, -, hy'⟩ := y.canonical
  have hlow : lowEnd y = ((Interval.ofBinary64 y).low * 2 ^ k : Nat) * 2 ^ (x.exponent - 2) := by
    have he : y.exponent - 2 = k + (x.exponent - 2) := by omega
    rw [lowEnd, he, zpow_add₀ two_ne_zero, zpow_natCast]
    push_cast
    ring
  have hnat : (Interval.ofBinary64 x).high ≤ (Interval.ofBinary64 y).low * 2 ^ k ∧
      ((Interval.ofBinary64 x).high = (Interval.ofBinary64 y).low * 2 ^ k →
        x.significand % 2 = 1 ∨ y.significand % 2 = 1) := by
    rcases Nat.eq_zero_or_pos k with rfl | hk'
    · -- neighbours with one exponent have significands of which one is odd
      have hlt : x.significand < y.significand := by
        rcases h with h | ⟨-, h⟩
        · omega
        · exact h
      simp only [Interval.ofBinary64, Nat.pow_zero, Nat.mul_one]
      split <;> omega
    · -- of the numbers with smaller exponents, the last one has an odd significand
      have hpow : 2 ≤ 2 ^ k := Nat.le_self_pow (by omega) 2
      have hmul := Nat.mul_le_mul_left (Interval.ofBinary64 y).low hpow
      have hge : 0x3FFFFFFFFFFFFF ≤ (Interval.ofBinary64 y).low := by
        simp only [Interval.ofBinary64]
        split <;> omega
      have hhigh : (Interval.ofBinary64 x).high = 4 * x.significand + 2 := rfl
      omega
  have hunit : (0 : ℚ) < 2 ^ (x.exponent - 2) := by positivity
  rw [hlow, highEnd]
  refine ⟨mul_le_mul_of_nonneg_right (by exact_mod_cast hnat.1) hunit.le, fun heq => hnat.2 ?_⟩
  exact_mod_cast mul_right_cancel₀ hunit.ne' heq

theorem Before.not_rounds (h : Before x y) (hx : Rounds x v) (hy : Rounds y v) : False := by
  obtain ⟨hle, hodd⟩ := h.ends
  have hends : lowEnd y ≤ v ∧ v ≤ highEnd x :=
    ⟨hy.elim (fun h => h.1.le) fun h => h.2.1, hx.elim (fun h => h.2.le) fun h => h.2.2⟩
  have heq : highEnd x = lowEnd y := le_antisymm hle (hends.1.trans hends.2)
  rcases hx with hx | hx
  · exact absurd (hx.2.trans_le (heq.le.trans hends.1)) (lt_irrefl v)
  rcases hy with hy | hy
  · exact absurd (hends.2.trans_lt (heq.le.trans_lt hy.1)) (lt_irrefl v)
  have := hodd heq
  omega

/-- A real rounds to one number only. -/
theorem Rounds.unique (hx : Rounds x v) (hy : Rounds y v) :
    x.significand = y.significand ∧ x.exponent = y.exponent := by
  by_contra hne
  have hbefore : Before x y ∨ Before y x := by
    unfold Before
    omega
  rcases hbefore with h | h
  · exact h.not_rounds hx hy
  · exact h.not_rounds hy hx

/-! ### What a text stands for -/

open Text.Decimal (isDigit ofDigits digits)
open Json (readDigits readDigits_of_all IsExponent numberStyle render_eq unsignedText
  isNumeral_unsignedText)

/-- The exponent behind the digits of a numeral, if there is one. -/
def exponentOf : List Char → Int
  | 'e' :: cs => (Decimal.readInt? cs).getD 0
  | _ => 0

/-- What the digits of a numeral stand for, with the ones behind the point and the exponent. -/
def valueOf (cs : List Char) : ℚ :=
  match readDigits cs with
  | (whole, '.' :: rest) =>
    decimal (ofDigits (whole ++ (readDigits rest).1),
      exponentOf (readDigits rest).2 - (readDigits rest).1.length)
  | (whole, rest) => decimal (ofDigits whole, exponentOf rest)

theorem valueOf_point {whole part power : List Char} (hw : ∀ c ∈ whole, isDigit c = true)
    (hp : ∀ c ∈ part, isDigit c = true) (he : IsExponent power) :
    valueOf (whole ++ '.' :: (part ++ power)) =
      decimal (ofDigits (whole ++ part), exponentOf power - part.length) := by
  have hpoint : ∀ c ∈ ('.' :: (part ++ power)).head?, isDigit c = false := by
    rintro c hc
    obtain rfl : '.' = c := by simpa using hc
    decide
  rw [valueOf, readDigits_of_all hw hpoint]
  simp only [readDigits_of_all hp he.not_isDigit]

theorem valueOf_exponent {whole power : List Char} (hw : ∀ c ∈ whole, isDigit c = true)
    (he : IsExponent power) :
    valueOf (whole ++ power) = decimal (ofDigits whole, exponentOf power) := by
  rw [valueOf, readDigits_of_all hw he.not_isDigit]
  rcases he with rfl | ⟨sign, ds, rfl, -⟩ <;> rfl

theorem valueOf_fraction {whole part : List Char} (hw : ∀ c ∈ whole, isDigit c = true)
    (hp : ∀ c ∈ part, isDigit c = true) :
    valueOf (whole ++ '.' :: part) = decimal (ofDigits (whole ++ part), -part.length) := by
  have h := valueOf_point hw hp (.inl rfl)
  have hnone : exponentOf [] = 0 := rfl
  rwa [List.append_nil, hnone, zero_sub] at h

theorem exponentOf_ofInt {sign : List Char} {n : Int} (hs : sign = [] ∨ sign = ['+'])
    (hn : sign = ['+'] → 0 ≤ n) :
    exponentOf ('e' :: (sign ++ Decimal.ofInt n)) = n := by
  rw [exponentOf]
  rcases hs with rfl | rfl
  · rw [List.nil_append, Decimal.readInt?_ofInt, Option.getD_some]
  · obtain ⟨n, rfl⟩ := Int.eq_ofNat_of_zero_le (hn rfl)
    show ((Decimal.readNat? (Decimal.digits n)).map Int.ofNat).getD 0 = n
    rw [Decimal.readNat?_digits]
    rfl

/-- Zeros behind the digits are powers of ten. -/
theorem decimal_append_zeros (ds : List Char) (k : Nat) (p : Int) :
    decimal (ofDigits (ds ++ List.replicate k '0'), p) = decimal (ofDigits ds, p + k) := by
  rw [ofDigits, Nat.ofDigitChars_append, Nat.ofDigitChars_replicate_zero, decimal,
    decimal, ofDigits, zpow_add₀ (by norm_num), zpow_natCast]
  push_cast
  ring

/-- Zeros before the digits are nothing. -/
theorem ofDigits_zeros_append (ds : List Char) (k : Nat) :
    ofDigits (List.replicate k '0' ++ ds) = ofDigits ds := by
  rw [ofDigits, Nat.ofDigitChars_append, Nat.ofDigitChars_replicate_zero, Nat.mul_zero, ofDigits]

/-- Every layout keeps what the digits stand for. -/
theorem valueOf_renderDigits {ds : List Char} (hd : ∀ c ∈ ds, isDigit c = true) (hne : ds ≠ [])
    (power : Int) :
    valueOf (renderDigits numberStyle ds power) = decimal (ofDigits ds, power) := by
  have hzeros : ∀ {n : Nat}, ∀ c ∈ List.replicate n '0', isDigit c = true := fun c hc =>
    Json.isDigit_of_mem_replicate hc
  have htake : ∀ {n : Nat}, ∀ c ∈ ds.take n, isDigit c = true :=
    fun c hc => hd c (List.mem_of_mem_take hc)
  have hdrop : ∀ {n : Nat}, ∀ c ∈ ds.drop n, isDigit c = true :=
    fun c hc => hd c (List.mem_of_mem_drop hc)
  have hlength : 0 < ds.length := List.length_pos_iff.2 hne
  unfold renderDigits
  dsimp only
  split
  · rename_i hpoint
    split
    · -- zeros between the digits and the point, and one behind it
      rename_i hpower
      have hwhole : ∀ c ∈ ds ++ List.replicate power.toNat '0', isDigit c = true := fun c hc =>
        (List.mem_append.1 hc).elim (hd c) (hzeros c)
      have hzero : ds ++ List.replicate power.toNat '0' ++ ['0'] = ds ++
          List.replicate (power.toNat + 1) '0' := by
        rw [List.append_assoc, List.replicate_succ']
      rw [valueOf_fraction hwhole Json.isDigit_of_mem_zero, hzero, decimal_append_zeros]
      congr 2
      rw [List.length_singleton]
      omega
    · -- the point among the digits
      rw [valueOf_fraction htake hdrop, List.take_append_drop]
      congr 2
      rw [List.length_drop]
      omega
  · split
    · -- zeros behind the point
      have hpart : ∀ c ∈ List.replicate (-(ds.length + power)).toNat '0' ++ ds,
          isDigit c = true := fun c hc =>
        (List.mem_append.1 hc).elim (hzeros c) (hd c)
      have hzero : ∀ k, ofDigits (['0'] ++ (List.replicate k '0' ++ ds)) = ofDigits ds := fun k =>
        (ofDigits_zeros_append _ 1).trans (ofDigits_zeros_append ds k)
      refine (valueOf_fraction Json.isDigit_of_mem_zero hpart).trans ?_
      rw [hzero]
      congr 2
      rw [List.length_append, List.length_replicate]
      omega
    · -- one digit before the point, and an exponent
      generalize hn : (ds.length : Int) + power - 1 = n
      generalize hsign : (if 0 ≤ n ∧ numberStyle.plusSign = true then ['+'] else []) = sign
      have hs : sign = [] ∨ sign = ['+'] := by
        rw [← hsign]
        split <;> simp
      have hplus : sign = ['+'] → 0 ≤ n := by
        rw [← hsign]
        split
        · rename_i h
          exact fun _ => h.1
        · exact nofun
      have hexponent := Json.isExponent_ofInt hs hplus
      split
      · rename_i htail
        have hsplit := List.take_append_drop 1 ds
        rw [htail, List.append_nil] at hsplit
        rw [List.append_nil, valueOf_exponent htake hexponent, exponentOf_ofInt hs hplus, hsplit]
        have hone := List.drop_eq_nil_iff.1 htail
        congr 2
        omega
      · rw [List.append_assoc, List.cons_append, valueOf_point htake hdrop hexponent,
          exponentOf_ofInt hs hplus, List.take_append_drop]
        congr 2
        rw [List.length_drop]
        omega

/-- What is left off at the end is zeros. -/
theorem exists_withoutZeros (ds : List Char) (p : Int) :
    ∃ front k, ds = front ++ List.replicate k '0' ∧ withoutZeros ds p = (front, p + (k : Nat)) := by
  -- the zeros at the end are those at the front of the reversed digits
  have hzeros : ds.reverse.takeWhile (· == '0') =
      List.replicate (ds.reverse.takeWhile (· == '0')).length '0' := by
    refine List.eq_replicate_of_mem fun c hc => ?_
    exact beq_iff_eq.1 (List.mem_takeWhile_imp (p := (· == '0')) hc)
  have hsplit := List.takeWhile_append_dropWhile (p := (· == '0')) (l := ds.reverse)
  rw [withoutZeros]
  generalize ds.reverse.takeWhile (· == '0') = zeros at hzeros hsplit ⊢
  generalize ds.reverse.dropWhile (· == '0') = rest at hsplit
  have hds : ds = rest.reverse ++ List.replicate zeros.length '0' := by
    rw [← List.reverse_reverse ds, ← hsplit, hzeros]
    simp
  have htake : ds.take (ds.length - zeros.length) = rest.reverse := by
    rw [hds, List.length_append, List.length_replicate, Nat.add_sub_cancel, List.take_left]
  exact ⟨rest.reverse, zeros.length, hds, by rw [htake]⟩

/-- The zeros at the end are powers of ten. -/
theorem decimal_withoutZeros (ds : List Char) (p : Int) :
    decimal (ofDigits (withoutZeros ds p).1, (withoutZeros ds p).2) = decimal (ofDigits ds, p) := by
  obtain ⟨front, k, hds, hzeros⟩ := exists_withoutZeros ds p
  rw [hzeros, hds, decimal_append_zeros]

/-- What rounds to a number other than zero is positive. -/
theorem rounds_pos (h : x.isZero = false) (hx : Rounds x v) : 0 < v := by
  rw [Binary64.isZero, beq_eq_false_iff_ne] at h
  have hunit : (0 : ℚ) < 2 ^ (x.exponent - 2) := by positivity
  have hlow : 0 < (Interval.ofBinary64 x).low := by
    simp only [Interval.ofBinary64]
    split <;> omega
  have hpos : 0 < lowEnd x := mul_pos (by exact_mod_cast hlow) hunit
  exact hx.elim (fun h => hpos.trans h.1) fun h => hpos.trans_le h.2.1

theorem valueOf_unsignedText (x : Binary64) :
    valueOf (unsignedText x) = if x.isZero then 0 else decimal (shortest x) := by
  rw [unsignedText]
  split
  · have hzero : valueOf (['0'] ++ '.' :: ['0']) = decimal (0, -1) :=
      valueOf_fraction Json.isDigit_of_mem_zero Json.isDigit_of_mem_zero
    refine hzero.trans ?_
    rw [decimal, Nat.cast_zero, zero_mul]
  · rename_i h
    have hdecimal := decimal_withoutZeros (digits (shortest x).1) (shortest x).2
    rw [Decimal.ofDigits_digits] at hdecimal
    rw [valueOf_renderDigits, hdecimal]
    · exact fun c hc => Decimal.isDigit_of_mem_digits (List.mem_of_mem_take hc)
    · -- without digits the decimal would be zero
      intro hnil
      have hpos := rounds_pos (by simpa using h) (shortest_rounds (by simpa using h))
      rw [hnil] at hdecimal
      rw [← hdecimal, decimal] at hpos
      simp [ofDigits] at hpos

theorem significand_exponent_of_valueOf (h : valueOf (unsignedText x) = valueOf (unsignedText y)) :
    x.significand = y.significand ∧ x.exponent = y.exponent := by
  rw [valueOf_unsignedText, valueOf_unsignedText] at h
  cases hx : x.isZero <;> cases hy : y.isZero <;>
      simp only [hx, hy, if_true, if_false, Bool.false_eq_true] at h
  · exact (shortest_rounds hx).unique (h ▸ shortest_rounds hy)
  · exact absurd h (rounds_pos hx (shortest_rounds hx)).ne'
  · exact absurd h (rounds_pos hy (shortest_rounds hy)).ne
  · rw [Binary64.isZero, beq_iff_eq] at hx hy
    have hx' := x.canonical.2.2.2
    have hy' := y.canonical.2.2.2
    omega

/-- The text of a number settles it. -/
theorem render_injective (h : render numberStyle x = render numberStyle y) : x = y := by
  rw [render_eq, render_eq] at h
  have hminus : ∀ {z : Binary64} {cs : List Char}, unsignedText z ≠ '-' :: cs := fun {z} {cs} hz =>
    (hz ▸ isNumeral_unsignedText z).ne_minus rfl
  -- a minus is the sign, since no number starts with one behind it
  have hsame : x.negative = y.negative ∧ unsignedText x = unsignedText y := by
    cases hx : x.negative <;> cases hy : y.negative <;> rw [hx, hy] at h
    · exact ⟨rfl, h⟩
    · exact absurd h hminus
    · exact absurd h.symm hminus
    · exact ⟨rfl, (List.cons.inj h).2⟩
  obtain ⟨hsignificand, hexponent⟩ := significand_exponent_of_valueOf (congrArg valueOf hsame.2)
  obtain ⟨s, m, e, hx⟩ := x
  obtain ⟨t, n, k, hy⟩ := y
  obtain rfl : s = t := hsame.1
  obtain rfl : m = n := hsignificand
  obtain rfl : e = k := hexponent
  rfl

end Roster.Shortest
