/-
Integer literals of any size.

Of the digits of a literal as many are taken as fit 64 bits, and a power of ten stands for those
that are left out.  The literal is refused if the product of the two is past the last double.  The
product is rounded three times, each time up or down, but always in the order of the exact numbers,
so there is one magnitude from which on all literals are refused: it lies a little below the largest
double.

* `accumulate_eq`: what is taken and what is left out;
* `scale?_eq_none_of_le`: a product overflows if a smaller one does;
* `literalBound`, `rereadNumber_large`, `rereadNumber_eq_none`: where the literals end.
-/
import Roster.Proofs.Json.Made
import Roster.Proofs.Rounding

namespace Roster.Json

open Text.Decimal (isDigit digits)
open Shortest (magnitude)

variable {N k p q a b : Nat} {s s' : Bool} {ds : List Char}

/-! ### The digits that are taken -/

theorem ofDigitChars_lt (hd : ∀ c ∈ ds, isDigit c = true) (n : Nat) :
    Nat.ofDigitChars 10 ds n < 10 ^ ds.length * (n + 1) := by
  induction ds generalizing n with
  | nil => simp
  | cons c ds ih =>
    have hc : c.toNat - '0'.toNat < 10 := by
      have hdigit := hd c List.mem_cons_self
      rw [Text.Decimal.isDigit_eq, Char.isDigit, Bool.and_eq_true, decide_eq_true_eq,
        decide_eq_true_eq] at hdigit
      have hle : c.toNat ≤ 57 := hdigit.2
      show c.toNat - 48 < 10
      omega
    rw [Nat.ofDigitChars_cons, List.length_cons, Nat.pow_succ, Nat.mul_assoc]
    exact (ih (fun d h => hd d (List.mem_cons_of_mem _ h)) _).trans_le
      (Nat.mul_le_mul_left _ (by omega))

/-- Digits behind a number are those that a power of ten cuts off. -/
theorem ofDigitChars_div (hd : ∀ c ∈ ds, isDigit c = true) (n : Nat) :
    Nat.ofDigitChars 10 ds n / 10 ^ ds.length = n := by
  have hlow : 10 ^ ds.length * n ≤ Nat.ofDigitChars 10 ds n := by
    rw [Nat.ofDigitChars_eq_ofDigitChars_zero]
    exact Nat.le_add_right ..
  refine Nat.div_eq_of_lt_le ?_ ?_
  · rwa [Nat.mul_comm]
  · rw [Nat.mul_comm]
    exact ofDigitChars_lt hd n

/-- As few digits are left out as there have to be. -/
theorem accumulate_eq (hd : ∀ c ∈ ds, isDigit c = true) (n : Nat) :
    ∃ k, accumulate n ds = (Nat.ofDigitChars 10 ds n / 10 ^ k, k) ∧
      ∀ j < k, 0x10000000000000000 ≤ Nat.ofDigitChars 10 ds n / 10 ^ j := by
  induction ds generalizing n with
  | nil => exact ⟨0, by simp [accumulate], nofun⟩
  | cons c ds ih =>
    have hds : ∀ d ∈ ds, isDigit d = true := fun d h => hd d (List.mem_cons_of_mem _ h)
    rw [accumulate_cons]
    split
    · rw [Nat.ofDigitChars_cons]
      exact ih hds _
    · rename_i hlarge
      refine ⟨ds.length + 1, ?_, fun j hj => ?_⟩
      · exact congrArg (·, ds.length + 1) (ofDigitChars_div hd n).symm
      · -- with one digit more it was too large already
        have hnext : Nat.ofDigitChars 10 (c :: ds) n / 10 ^ ds.length = 10 * n +
            (c.toNat - '0'.toNat) := by
          rw [Nat.ofDigitChars_cons, ofDigitChars_div hds]
        refine (Nat.le_of_not_lt hlarge).trans
          (hnext ▸ Nat.div_le_div_left ?_ (Nat.pow_pos (by decide)))
        exact Nat.pow_le_pow_right (by decide) (Nat.le_of_lt_succ hj)

/-! ### Products with powers of ten -/

theorem pow_ten_mono (h : p ≤ q) : Nat.pow 10 p ≤ Nat.pow 10 q := Nat.pow_le_pow_right (by decide) h

theorem magnitude_powerOfTen_mono (hpq : p ≤ q) (hq : q ≤ 308) :
    magnitude (powerOfTen p) ≤ magnitude (powerOfTen q) := by
  have hfinite : (Binary64.ofNat? false (Nat.pow 10 308)).isSome = true := by decide +kernel
  have hsome : ∀ r ≤ 308, ∃ x, Binary64.ofNat? false (Nat.pow 10 r) = some x := by
    intro r hr
    refine Option.ne_none_iff_exists'.1 fun hnone => ?_
    rw [Binary64.ofNat?_eq_none_of_le (pow_ten_mono hr) hnone] at hfinite
    cases hfinite
  obtain ⟨x, hx⟩ := hsome p (hpq.trans hq)
  obtain ⟨y, hy⟩ := hsome q hq
  rw [powerOfTen, powerOfTen, hx, hy]
  exact Binary64.magnitude_mono (pow_ten_mono hpq) hx hy

theorem scale?_eq_none_iff :
    scale? s a (p : Int) = none ↔
      ∀ x, Binary64.ofNat? false a = some x → x.isZero = false ∧
      (308 < p ∨ x.mul? (powerOfTen p) = none) := by
  have hp : ¬(p : Int) < 0 := Int.not_lt.2 (Int.natCast_nonneg p)
  unfold scale?
  cases hx : Binary64.ofNat? false a with
  | none => simp
  | some x =>
    simp only [Option.bind_eq_bind, Option.bind_some, if_neg hp, Option.some.injEq, forall_eq']
    cases hz : x.isZero with
    | true => simp
    | false =>
      by_cases hlarge : 308 < p
      · have hcast : (308 : Int) < p := by omega
        simp [hcast, hlarge]
      · have hcast : ¬(308 : Int) < p := by omega
        simpa [hcast, hlarge] using Option.eq_none_iff_forall_ne_some.symm

/-- A product overflows if a smaller one does. -/
theorem scale?_eq_none_of_le (hab : a ≤ b) (hpq : p ≤ q) (h : scale? s a (p : Int) = none) :
    scale? s' b (q : Int) = none := by
  rw [scale?_eq_none_iff] at h ⊢
  intro y hy
  -- the smaller one is out of range already, or its product is
  cases hx : Binary64.ofNat? false a with
  | none =>
    rw [Binary64.ofNat?_eq_none_of_le hab hx] at hy
    cases hy
  | some x =>
    obtain ⟨hzero, hover⟩ := h x hx
    have hle := Binary64.magnitude_mono hab hx hy
    constructor
    · rw [← Bool.not_eq_true] at hzero ⊢
      exact fun h => hzero (Binary64.isZero_of_magnitude_le hle h)
    · refine (Nat.lt_or_ge 308 q).imp_right fun hq => ?_
      exact Binary64.mul?_eq_none_of_le hle (magnitude_powerOfTen_mono hpq hq)
        (hover.resolve_left (Nat.not_lt.2 (hpq.trans hq)))

/-! ### Where the literals end -/

/-- The least magnitude of an integer without a literal. -/
def literalBound : Nat := 17976931348623156225 * 10 ^ 289

/-- The greatest product with 288 digits left out is finite. -/
theorem isSome_scale_lower : (scale? false 0xFFFFFFFFFFFFFFFF 288).isSome = true := by
  decide +kernel

theorem isSome_scale_below : (scale? false 17976931348623156224 289).isSome = true := by
  decide +kernel

theorem scale?_bound : scale? false 17976931348623156225 289 = none := by decide +kernel

/-- The least product with 290 digits left out overflows. -/
theorem scale?_higher : scale? false 1844674407370955161 290 = none := by decide +kernel

theorem scale?_ne_none (hab : a ≤ b) (hpq : p ≤ q) (h : (scale? s' b (q : Int)).isSome = true) :
    scale? s a (p : Int) ≠ none := by
  intro hnone
  rw [scale?_eq_none_of_le hab hpq hnone] at h
  cases h

/-- The product overflows exactly from the bound on. -/
theorem scale?_eq_none_iff_bound_le (hlt : N / 10 ^ k < 0x10000000000000000)
    (hle : ∀ j < k, 0x10000000000000000 ≤ N / 10 ^ j) :
    scale? s (N / 10 ^ k) (k : Int) = none ↔ literalBound ≤ N := by
  have hpow : ∀ j, 0 < 10 ^ j := fun j => Nat.pow_pos (by decide)
  rcases lt_trichotomy k 289 with hk | rfl | hk
  · -- fewer digits are left out, and no product overflows
    refine iff_of_false
      (scale?_ne_none (Nat.le_of_lt_succ hlt) (Nat.le_of_lt_succ hk) isSome_scale_lower) ?_
    rw [Nat.not_le]
    have hN := (Nat.div_lt_iff_lt_mul (hpow k)).1 hlt
    calc N < 0x10000000000000000 * 10 ^ k := hN
      _ ≤ 17976931348623156225 * 10 * 10 ^ k := Nat.mul_le_mul_right _ (by decide)
      _ = 17976931348623156225 * 10 ^ (k + 1) := by rw [Nat.mul_assoc, ← Nat.pow_succ']
      _ ≤ literalBound := Nat.mul_le_mul_left _ (pow_le_pow_right₀ (by decide) hk)
  · rw [literalBound, ← Nat.le_div_iff_mul_le (hpow 289)]
    constructor
    · intro h
      by_contra hlow
      exact scale?_ne_none (by omega) le_rfl isSome_scale_below h
    · exact fun h => scale?_eq_none_of_le h le_rfl scale?_bound
  · -- more digits are left out, and every product overflows
    have hprevious := hle (k - 1) (by omega)
    refine iff_of_true (scale?_eq_none_of_le ?_ hk scale?_higher) ?_
    · obtain ⟨j, rfl⟩ : ∃ j, k = j + 1 := ⟨k - 1, by omega⟩
      rw [Nat.add_sub_cancel] at hprevious
      rw [Nat.pow_succ, ← Nat.div_div_eq_div_mul]
      omega
    · have h289 : 10 ^ 289 ≤ 10 ^ (k - 1) := pow_le_pow_right₀ (by decide) (Nat.le_pred_of_lt hk)
      calc literalBound ≤ 0x10000000000000000 * 10 ^ 289 := Nat.mul_le_mul_right _ (by decide)
        _ ≤ 0x10000000000000000 * 10 ^ (k - 1) := Nat.mul_le_mul_left _ h289
        _ ≤ N := (Nat.le_div_iff_mul_le (hpow _)).1 hprevious

/-! ### Literals -/

theorem accumulate_digits (N : Nat) :
    ∃ k, accumulate 0 (digits N) = (N / 10 ^ k, k) ∧ N / 10 ^ k < 0x10000000000000000 ∧
      ∀ j < k, 0x10000000000000000 ≤ N / 10 ^ j := by
  obtain ⟨k, hk, hle⟩ := accumulate_eq (fun _ => Text.Decimal.isDigit_of_mem_digits (n := N)) 0
  rw [show Nat.ofDigitChars 10 (digits N) 0 = N from Text.Decimal.ofDigits_digits N] at hk hle
  have hlt := accumulate_lt (by decide : 0 < 0x10000000000000000) (digits N)
  rw [hk] at hlt
  exact ⟨k, hk, hlt, hle⟩

/-- A number that does not fit 64 bits is read as a double below the bound, and refused from there
on. -/
theorem readUnsigned_large (negative : Bool) (h : 0x10000000000000000 ≤ N) :
    (N < literalBound → ∃ x, readUnsigned negative (digits N) = .ok (.float x, [])) ∧
      (literalBound ≤ N → readUnsigned negative (digits N) = .error .malformed) := by
  obtain ⟨k, hk, hlt, hle⟩ := accumulate_digits N
  have hpos : k ≠ 0 := by
    rintro rfl
    rw [Nat.pow_zero, Nat.div_one] at hlt
    exact absurd h (Nat.not_le.2 hlt)
  have hover := scale?_eq_none_iff_bound_le (s := negative) hlt hle
  have hread : readUnsigned negative (digits N) = readFloat negative (N / 10 ^ k) k [] := by
    rw [readUnsigned_digits_eq, hk]
    exact if_neg hpos
  rw [hread, readFloat]
  cases hx : scale? negative (N / 10 ^ k) (k : Int) with
  | none => exact ⟨fun hsmall => absurd (hover.1 hx) (Nat.not_le.2 hsmall), fun _ => rfl⟩
  | some x =>
    refine ⟨fun _ => ⟨x, rfl⟩, fun hge => ?_⟩
    rw [hover.2 hge] at hx
    cases hx

theorem word_le_literalBound : 0x10000000000000000 ≤ literalBound := by decide +kernel

/-- An integer that does not fit 64 bits is read as a double below the bound, and refused from there
on. -/
theorem rereadNumber_large {n : Int} (h : ¬IsWord n) :
    (n.natAbs < literalBound → ∃ x, rereadNumber (.int n) = some (.float x)) ∧
      (literalBound ≤ n.natAbs → rereadNumber (.int n) = none) := by
  rw [rereadNumber, numberText, readNumber_ofInt_eq]
  rcases Nat.lt_or_ge n.natAbs 0x10000000000000000 with hlt | hge
  · -- the digits fit 64 bits, but not with the sign
    have hneg : n < 0 ∧ 0x8000000000000000 < n.natAbs := by
      unfold IsWord at h
      omega
    refine ⟨fun _ => ⟨(Binary64.ofNat? true n.natAbs).getD (.zero true), ?_⟩, fun hbound => ?_⟩
    · rw [readUnsigned_digits _ hlt, decide_eq_true hneg.1, integerNumber, if_pos rfl,
        if_pos (.inr hneg.2)]
      rfl
    · exact absurd (word_le_literalBound.trans hbound) (Nat.not_le.2 hlt)
  · obtain ⟨hfloat, hrefused⟩ := readUnsigned_large (decide (n < 0)) hge
    refine ⟨fun hlt => ?_, fun hbound => ?_⟩
    · obtain ⟨x, hx⟩ := hfloat hlt
      exact ⟨x, by rw [hx]; rfl⟩
    · rw [hrefused hbound]
      rfl

/-- From the bound on integers are refused. -/
theorem rereadNumber_eq_none {n : Int} (h : literalBound ≤ n.natAbs) :
    rereadNumber (.int n) = none := by
  refine (rereadNumber_large fun hword => ?_).2 h
  have hwords := word_le_literalBound
  unfold IsWord at hword
  omega

/-- Integers that are too large for a double have no literal. -/
theorem bound_le_of_ofNat (h : Binary64.ofNat? s N = none) : literalBound ≤ N := by
  by_contra hlt
  have hfinite : (Binary64.ofNat? false literalBound).isSome = true := by decide +kernel
  rw [Binary64.ofNat?_eq_none_of_le (Nat.le_of_not_le hlt) h] at hfinite
  cases hfinite

end Roster.Json
