/-
Reading numbers that were written.

What stands behind a number in a written text cannot be mistaken for a part of it (`Ends`), so a
number is read from the whole text as from its own (`readNumber_append`).  Written numbers are read
to their end, if at all, and integers that fit 64 bits are read back.

* `readNumber_append`: what stands behind a number does not matter;
* `exists_numberText`: what a written number looks like;
* `finishes_numberText`: a written number is read to its end;
* `readNumber_ofInt`: integers are read back.
-/
import Mathlib.Tactic.Common
import Roster.Json.Numeral
import Roster.Json.Writer

namespace Roster.Json

open Text.Decimal (isDigit digits ofDigits)

/-- Whether a text stands behind a number as in written values: it is empty, or starts with a comma,
a closing bracket or a line break.  A number could go on with none of these. -/
def Ends (rest : List Char) : Prop := ∀ c ∈ rest.head?, c = ',' ∨ c = ']' ∨ c = '}' ∨ c = '\n'

theorem ends_nil : Ends [] := nofun

theorem ends_cons {c : Char} (h : c = ',' ∨ c = ']' ∨ c = '}' ∨ c = '\n') (cs : List Char) :
    Ends (c :: cs) := by
  intro d hd
  obtain rfl : c = d := by simpa using hd
  exact h

theorem Ends.not_isDigit {c : Char} {cs : List Char} (h : Ends (c :: cs)) : isDigit c = false := by
  rcases h c rfl with rfl | rfl | rfl | rfl <;> decide

theorem Ends.ne {c d : Char} {cs : List Char} (h : Ends (c :: cs))
    (hd : d ∉ [',', ']', '}', '\n']) : c ≠ d := by
  rintro rfl
  rcases h c rfl with rfl | rfl | rfl | rfl <;> exact hd (by decide)

/-- A reading with more text behind it. -/
def Reading.behind {α : Type} (rest : List Char) (reading : Reading α) : Option (α × List Char) :=
  reading.toOption.map fun p => (p.1, p.2 ++ rest)

variable {rest : List Char}

theorem readDigits_of_ends (h : Ends rest) : readDigits rest = ([], rest) := by
  cases rest with
  | nil => rfl
  | cons c cs => simp [readDigits, h.not_isDigit]

theorem readDigits_cons_of_isDigit {c : Char} (h : isDigit c = true) (cs : List Char) :
    readDigits (c :: cs) = (c :: (readDigits cs).1, (readDigits cs).2) := by
  simp [readDigits, h]

theorem readDigits_cons_of_not_isDigit {c : Char} (h : isDigit c = false) (cs : List Char) :
    readDigits (c :: cs) = ([], c :: cs) := by
  simp [readDigits, h]

theorem readDigits_append_of_ends (cs : List Char) (h : Ends rest) :
    readDigits (cs ++ rest) = ((readDigits cs).1, (readDigits cs).2 ++ rest) := by
  induction cs with
  | nil => exact readDigits_of_ends h
  | cons c cs ih =>
    cases hc : isDigit c with
    | true =>
      rw [List.cons_append, readDigits_cons_of_isDigit hc, readDigits_cons_of_isDigit hc, ih]
    | false =>
      rw [List.cons_append, readDigits_cons_of_not_isDigit hc,
        readDigits_cons_of_not_isDigit hc]; rfl

/-- Digits up to the end of a text. -/
theorem readDigits_of_all {ds : List Char} (hd : ∀ c ∈ ds, isDigit c = true) {tail : List Char}
    (ht : ∀ c ∈ tail.head?, isDigit c = false) : readDigits (ds ++ tail) = (ds, tail) := by
  induction ds with
  | nil =>
    cases tail with
    | nil => rfl
    | cons c cs => exact readDigits_cons_of_not_isDigit (ht c rfl) cs
  | cons c ds ih =>
    rw [List.cons_append, readDigits_cons_of_isDigit (hd c List.mem_cons_self),
      ih fun d hd' => hd d (List.mem_cons_of_mem _ hd')]

theorem readDigits_digits {ds : List Char} (h : ∀ c ∈ ds, isDigit c = true) :
    readDigits ds = (ds, []) := by
  have ha : readDigits (ds ++ []) = (ds, []) := readDigits_of_all h nofun
  rwa [List.append_nil] at ha

/-! ### What stands behind a number -/

theorem readFloat_append (negative : Bool) (n : Nat) (power : Int) (cs : List Char) :
    (readFloat negative n power (cs ++ rest)).toOption =
      Reading.behind rest (readFloat negative n power cs) := by
  unfold readFloat
  split <;> rfl

theorem readExponentDigits_append (negative : Bool) (n : Nat) (power : Int) (down : Bool)
    (cs : List Char) (h : Ends rest) :
    (readExponentDigits negative n power down (cs ++ rest)).toOption =
      Reading.behind rest (readExponentDigits negative n power down cs) := by
  unfold readExponentDigits
  rw [readDigits_append_of_ends cs h]
  rcases readDigits cs with ⟨_ | ⟨d, ds⟩, left⟩
  · rcases left with _ | ⟨c, left⟩
    · cases rest <;> rfl
    · rfl
  · dsimp only
    split
    · exact readFloat_append ..
    · split <;> rfl

theorem readExponent_cons (negative : Bool) (n : Nat) (power : Int) (c : Char) (cs : List Char) :
    readExponent negative n power (c :: cs) =
      if c = '+' then readExponentDigits negative n power false cs
      else if c = '-' then readExponentDigits negative n power true cs
      else readExponentDigits negative n power false (c :: cs) := by
  by_cases hp : c = '+'
  · subst hp
    rfl
  · by_cases hm : c = '-'
    · subst hm
      rfl
    · rw [if_neg hp, if_neg hm]
      unfold readExponent
      split
      · rename_i he; exact absurd (List.cons.inj he).1 hp
      · rename_i he; exact absurd (List.cons.inj he).1 hm
      · rfl

theorem readExponent_of_ends (negative : Bool) (n : Nat) (power : Int) (h : Ends rest) :
    (readExponent negative n power rest).toOption = none := by
  have hd := readExponentDigits_append negative n power false [] h
  cases rest with
  | nil => rfl
  | cons c cs =>
    rw [readExponent_cons, if_neg (h.ne (by decide)), if_neg (h.ne (by decide))]
    exact hd

theorem readExponent_append (negative : Bool) (n : Nat) (power : Int) (cs : List Char)
    (h : Ends rest) :
    (readExponent negative n power (cs ++ rest)).toOption =
      Reading.behind rest (readExponent negative n power cs) := by
  cases cs with
  | nil => exact readExponent_of_ends negative n power h
  | cons c cs =>
    rw [List.cons_append, readExponent_cons, readExponent_cons]
    split
    · exact readExponentDigits_append negative n power false cs h
    · split
      · exact readExponentDigits_append negative n power true cs h
      · exact readExponentDigits_append negative n power false (c :: cs) h

/-- What follows the digits of a double: an exponent, or nothing. -/
def readPower (negative : Bool) (n : Nat) (power : Int) : Reader Number
  | [] => readFloat negative n power []
  | c :: cs =>
    if c = 'e' ∨ c = 'E' then readExponent negative n power cs
    else readFloat negative n power (c :: cs)

theorem readPower_of_ends (negative : Bool) (n : Nat) (power : Int) (h : Ends rest) :
    readPower negative n power rest = readFloat negative n power rest := by
  cases rest with
  | nil => rfl
  | cons c cs =>
    exact if_neg fun hc => hc.elim (h.ne (by decide)) (h.ne (by decide))

theorem readPower_append (negative : Bool) (n : Nat) (power : Int) (cs : List Char)
    (h : Ends rest) :
    (readPower negative n power (cs ++ rest)).toOption =
      Reading.behind rest (readPower negative n power cs) := by
  cases cs with
  | nil =>
    rw [List.nil_append, readPower_of_ends negative n power h]
    exact readFloat_append negative n power []
  | cons c cs =>
    rw [List.cons_append, readPower, readPower]
    split
    · exact readExponent_append negative n power cs h
    · exact readFloat_append negative n power (c :: cs)

/-- The digits after the point and what follows them. -/
def readPart (negative : Bool) (n dropped : Nat) (cs : List Char) : Reading Number :=
  match readDigits cs with
  | ([], []) => .error .truncated
  | ([], _ :: _) => .error .malformed
  | (ds, left) =>
    readPower negative (accumulate n ds).1
      ((dropped : Int) - (ds.length - (accumulate n ds).2 : Nat)) left

/-- How what follows the digits before the point is read. -/
theorem readFraction_cons (negative : Bool) (n dropped : Nat) (c : Char) (cs : List Char) :
    readFraction negative n dropped (c :: cs) =
      if c = '.' then readPart negative n dropped cs
      else if c = 'e' ∨ c = 'E' then readExponent negative n dropped cs
      else if dropped = 0 then .ok (integerNumber negative n, c :: cs)
      else readFloat negative n dropped (c :: cs) := by
  unfold readFraction
  -- a point, an exponent with either letter, and anything else
  split
  · rename_i he
    obtain ⟨rfl, rfl⟩ := List.cons.inj he
    rw [if_pos rfl]
    unfold readPart
    rcases readDigits cs with ⟨_ | ⟨d, ds⟩, left⟩
    · rcases left with _ | ⟨c, left⟩ <;> rfl
    · dsimp only
      split
      · simp [readPower]
      · simp [readPower]
      · rename_i he hE
        cases left with
        | nil => rfl
        | cons c left =>
          have h1 : c ≠ 'e' := by rintro rfl; exact he left rfl
          have h2 : c ≠ 'E' := by rintro rfl; exact hE left rfl
          simp [readPower, h1, h2]
  · rename_i he
    obtain ⟨rfl, rfl⟩ := List.cons.inj he
    rfl
  · rename_i he
    obtain ⟨rfl, rfl⟩ := List.cons.inj he
    rfl
  · rename_i hd he hE
    have h0 : c ≠ '.' := by rintro rfl; exact hd cs rfl
    have h1 : c ≠ 'e' := by rintro rfl; exact he cs rfl
    have h2 : c ≠ 'E' := by rintro rfl; exact hE cs rfl
    simp [h0, h1, h2]

theorem readPart_append (negative : Bool) (n dropped : Nat) (cs : List Char) (h : Ends rest) :
    (readPart negative n dropped (cs ++ rest)).toOption =
      Reading.behind rest (readPart negative n dropped cs) := by
  unfold readPart
  rw [readDigits_append_of_ends cs h]
  rcases readDigits cs with ⟨_ | ⟨d, ds⟩, left⟩
  · rcases left with _ | ⟨c, left⟩
    · cases rest <;> rfl
    · rfl
  · exact readPower_append _ _ _ left h

theorem readFraction_of_ends (negative : Bool) (n dropped : Nat) (h : Ends rest) :
    readFraction negative n dropped rest =
      if dropped = 0 then .ok (integerNumber negative n, rest)
      else readFloat negative n dropped rest := by
  cases rest with
  | nil => rfl
  | cons c cs =>
    rw [readFraction_cons, if_neg (h.ne (by decide)), if_neg]
    exact fun hc => hc.elim (h.ne (by decide)) (h.ne (by decide))

theorem readFraction_append (negative : Bool) (n dropped : Nat) (cs : List Char) (h : Ends rest) :
    (readFraction negative n dropped (cs ++ rest)).toOption =
      Reading.behind rest (readFraction negative n dropped cs) := by
  cases cs with
  | nil =>
    rw [List.nil_append, readFraction_of_ends negative n dropped h,
      readFraction_of_ends negative n dropped ends_nil]
    split
    · rfl
    · exact readFloat_append negative n dropped []
  | cons c cs =>
    rw [List.cons_append, readFraction_cons, readFraction_cons]
    split
    · exact readPart_append negative n dropped cs h
    · split
      · exact readExponent_append negative n dropped cs h
      · split
        · rfl
        · exact readFloat_append negative n dropped (c :: cs)

/-- How a number is read after its sign. -/
theorem readUnsigned_eq (negative : Bool) (cs : List Char) :
    readUnsigned negative cs =
      match readDigits cs with
      | ([], []) => .error .truncated
      | ([], _ :: _) => .error .malformed
      | (d :: ds, left) =>
        if d = '0' ∧ ds ≠ [] then .error .malformed
        else readFraction negative (accumulate 0 (d :: ds)).1 (accumulate 0 (d :: ds)).2 left := by
  unfold readUnsigned
  rcases readDigits cs with ⟨_ | ⟨d, ds⟩, left⟩
  · rcases left with _ | ⟨c, left⟩ <;> rfl
  · dsimp only
    split
    · rename_i he
      cases he
    · rename_i he
      cases he
    · rename_i he
      cases he
      simp
    · -- a zero is followed by no further digit, which the last alternative leaves unsaid
      rename_i hz he
      cases he
      rw [if_neg]
      rintro ⟨rfl, hds⟩
      cases ds with
      | nil => exact hds rfl
      | cons e ds => exact hz e ds rfl

theorem readUnsigned_append (negative : Bool) (cs : List Char) (h : Ends rest) :
    (readUnsigned negative (cs ++ rest)).toOption =
      Reading.behind rest (readUnsigned negative cs) := by
  rw [readUnsigned_eq, readUnsigned_eq, readDigits_append_of_ends cs h]
  rcases readDigits cs with ⟨_ | ⟨d, ds⟩, left⟩
  · rcases left with _ | ⟨c, left⟩
    · cases rest <;> rfl
    · rfl
  · dsimp only
    split
    · rfl
    · exact readFraction_append _ _ _ left h

theorem readNumber_cons (c : Char) (cs : List Char) :
    readNumber (c :: cs) = if c = '-' then readUnsigned true cs
      else readUnsigned false (c :: cs) := by
  unfold readNumber
  split
  · rename_i he
    obtain ⟨rfl, rfl⟩ := List.cons.inj he
    rfl
  · rename_i hm
    rw [if_neg]
    rintro rfl
    exact hm cs rfl

/-- What stands behind a number does not matter. -/
theorem readNumber_append (cs : List Char) (h : Ends rest) :
    (readNumber (cs ++ rest)).toOption = Reading.behind rest (readNumber cs) := by
  cases cs with
  | nil =>
    cases rest with
    | nil => rfl
    | cons c cs =>
      rw [List.nil_append, readNumber_cons, if_neg (h.ne (by decide))]
      exact readUnsigned_append false [] h
  | cons c cs =>
    rw [List.cons_append, readNumber_cons, readNumber_cons]
    split
    · exact readUnsigned_append true cs h
    · exact readUnsigned_append false (c :: cs) h

/-! ### Integers -/

/-- The integers that fit 64 bits, with a sign or without one. -/
def IsWord (n : Int) : Prop := -0x8000000000000000 ≤ n ∧ n < 0x10000000000000000

instance (n : Int) : Decidable (IsWord n) := by unfold IsWord; infer_instance

theorem isWord_of_isInt64 {n : Int} (h : Number.IsInt64 n) : IsWord n := by
  unfold Number.IsInt64 at h
  unfold IsWord
  omega

theorem le_ofDigitChars (ds : List Char) (n : Nat) : n ≤ Nat.ofDigitChars 10 ds n := by
  rw [Nat.ofDigitChars_eq_ofDigitChars_zero]
  have hp : 0 < 10 ^ ds.length := Nat.pow_pos (by decide)
  exact Nat.le_add_right_of_le (Nat.le_mul_of_pos_left n hp)

/-- A digit is taken if the number with it fits 64 bits. -/
theorem accumulate_cons (n : Nat) (c : Char) (ds : List Char) :
    accumulate n (c :: ds) =
      if 10 * n + (c.toNat - '0'.toNat) < 0x10000000000000000 then
        accumulate (10 * n + (c.toNat - '0'.toNat)) ds
      else (n, ds.length + 1) := by
  rw [accumulate, Nat.mul_comm n]
  rfl

/-- Digits that fit 64 bits are all taken. -/
theorem accumulate_of_lt {ds : List Char} {n : Nat}
    (h : Nat.ofDigitChars 10 ds n < 0x10000000000000000) :
    accumulate n ds = (Nat.ofDigitChars 10 ds n, 0) := by
  induction ds generalizing n with
  | nil => rfl
  | cons c ds ih =>
    rw [Nat.ofDigitChars_cons] at h ⊢
    -- what is taken only grows, so the bound on all of it bounds what was taken so far
    have hlt := Nat.lt_of_le_of_lt (le_ofDigitChars ds _) h
    rw [accumulate_cons, if_pos hlt, ih h]

theorem digitChar_ne_zero : ∀ n < 10, n ≠ 0 → Nat.digitChar n ≠ '0' := by decide

theorem digits_zero : digits 0 = ['0'] := rfl

/-- The digits of a number other than zero start with another digit than zero. -/
theorem head_digits {n : Nat} (hn : n ≠ 0) {d : Char} {ds : List Char} (h : digits n = d :: ds) :
    d ≠ '0' := by
  -- the first digit of a number is that of its tenth
  induction n using Nat.strongRecOn generalizing d ds with
  | ind n ih =>
    unfold digits at h
    rw [Nat.toDigits_eq_if (by decide)] at h
    split at h
    · rename_i hlt
      obtain ⟨rfl, -⟩ := List.cons.inj h
      exact digitChar_ne_zero n hlt hn
    · rename_i hle
      cases hq : digits (n / 10) with
      | nil => exact absurd hq (Text.Decimal.digits_ne_nil _)
      | cons e es =>
        rw [show Nat.toDigits 10 (n / 10) = e :: es from hq] at h
        obtain ⟨rfl, -⟩ := List.cons.inj h
        exact ih (n / 10) (by omega) (by omega) hq

/-- The digits of a number are all that is read of it before its point. -/
theorem readUnsigned_digits_eq (negative : Bool) (n : Nat) :
    readUnsigned negative (digits n) =
      readFraction negative (accumulate 0 (digits n)).1 (accumulate 0 (digits n)).2 [] := by
  have hd : readDigits (digits n) = (digits n, []) :=
    readDigits_digits fun c hc => Text.Decimal.isDigit_of_mem_digits hc
  rw [readUnsigned_eq, hd]
  cases hs : digits n with
  | nil => exact absurd hs (Text.Decimal.digits_ne_nil n)
  | cons d ds =>
    -- a zero in front would be refused
    have hz : ¬(d = '0' ∧ ds ≠ []) := by
      rintro ⟨rfl, hds⟩
      by_cases hn : n = 0
      · rw [hn, digits_zero] at hs
        exact hds (List.cons.inj hs).2.symm
      · exact head_digits hn hs rfl
    dsimp only
    rw [if_neg hz]

/-- A natural number that fits 64 bits is read from its digits. -/
theorem readUnsigned_digits (negative : Bool) {n : Nat} (h : n < 0x10000000000000000) :
    readUnsigned negative (digits n) = .ok (integerNumber negative n, []) := by
  have hof : Nat.ofDigitChars 10 (digits n) 0 = n := Text.Decimal.ofDigits_digits n
  have ha : accumulate 0 (digits n) = (n, 0) := by
    rw [accumulate_of_lt (by rwa [hof]), hof]
  rw [readUnsigned_digits_eq, ha]
  rfl

/-- An integer is its sign and the digits of its magnitude. -/
theorem readNumber_ofInt_eq (n : Int) :
    readNumber (Text.Decimal.ofInt n) = readUnsigned (decide (n < 0)) (digits n.natAbs) := by
  cases n with
  | ofNat n =>
    have hn : ¬Int.ofNat n < 0 := Int.not_lt.2 (Int.natCast_nonneg n)
    rw [Text.Decimal.ofInt, decide_eq_false hn]
    show readNumber (digits n) = readUnsigned false (digits n)
    cases hs : digits n with
    | nil => exact absurd hs (Text.Decimal.digits_ne_nil n)
    | cons d ds =>
      have hd : isDigit d = true :=
        Text.Decimal.isDigit_of_mem_digits (by rw [hs]; exact List.mem_cons_self)
      -- a digit is no sign, so the reader takes no sign off
      have hm : d ≠ '-' := by
        rintro rfl
        exact absurd hd (by decide)
      rw [readNumber_cons, if_neg hm]
  | negSucc n =>
    rw [Text.Decimal.ofInt, readNumber_cons, if_pos rfl, decide_eq_true (Int.negSucc_lt_zero n),
      Int.natAbs_negSucc]

/-- Integers that fit 64 bits are read back. -/
theorem readNumber_ofInt {n : Int} (h : IsWord n) :
    readNumber (Text.Decimal.ofInt n) = .ok (.int n, []) := by
  unfold IsWord at h
  rw [readNumber_ofInt_eq, readUnsigned_digits _ (by omega)]
  cases n with
  | ofNat n => rfl
  | negSucc n =>
    unfold integerNumber
    rw [decide_eq_true (Int.negSucc_lt_zero n), if_pos rfl, Int.natAbs_negSucc, if_neg (by omega)]
    rfl

/-! ### Written numbers are read to their end -/

/-- A reading that leaves nothing, if it ends well. -/
def Reading.Finishes {α : Type} (reading : Reading α) : Prop :=
  ∀ a left, reading = .ok (a, left) → left = []

theorem finishes_ok {α : Type} (a : α) : Reading.Finishes (.ok (a, [])) := by
  rintro b left h
  cases h
  rfl

theorem finishes_error {α : Type} (fault : Fault) : Reading.Finishes (.error fault : Reading α) :=
  nofun

theorem finishes_readFloat (negative : Bool) (n : Nat) (power : Int) :
    (readFloat negative n power []).Finishes := by
  unfold readFloat
  split
  · exact finishes_ok _
  · exact finishes_error _

/-- Whether a text is the exponent of a written number, or empty. -/
def IsExponent (cs : List Char) : Prop :=
  cs = [] ∨ ∃ sign ds, cs = 'e' :: (sign ++ ds) ∧ (sign = [] ∨ sign = ['+'] ∨ sign = ['-']) ∧
    ∀ c ∈ ds, isDigit c = true

theorem finishes_readExponentDigits (negative : Bool) (n : Nat) (power : Int) (down : Bool)
    {ds : List Char} (h : ∀ c ∈ ds, isDigit c = true) :
    (readExponentDigits negative n power down ds).Finishes := by
  unfold readExponentDigits
  rw [readDigits_digits h]
  cases ds with
  | nil => exact finishes_error _
  | cons d ds =>
    dsimp only
    split
    · exact finishes_readFloat _ _ _
    · split
      · exact finishes_ok _
      · exact finishes_error _

theorem finishes_readPower (negative : Bool) (n : Nat) (power : Int) {cs : List Char}
    (h : IsExponent cs) : (readPower negative n power cs).Finishes := by
  rcases h with rfl | ⟨sign, ds, rfl, hs, hd⟩
  · exact finishes_readFloat negative n power
  · rw [readPower, if_pos (.inl rfl)]
    rcases hs with rfl | rfl | rfl
    · cases ds with
      | nil => exact finishes_error _
      | cons d ds =>
        have hdd := hd d List.mem_cons_self
        have hp : d ≠ '+' := by rintro rfl; exact absurd hdd (by decide)
        have hm : d ≠ '-' := by rintro rfl; exact absurd hdd (by decide)
        rw [List.nil_append, readExponent_cons, if_neg hp, if_neg hm]
        exact finishes_readExponentDigits negative n power false hd
    · exact finishes_readExponentDigits negative n power false hd
    · exact finishes_readExponentDigits negative n power true hd

theorem IsExponent.not_isDigit {cs : List Char} (h : IsExponent cs) :
    ∀ c ∈ cs.head?, isDigit c = false := by
  rcases h with rfl | ⟨sign, ds, rfl, -⟩
  · exact nofun
  · rintro c hc
    obtain rfl : 'e' = c := by simpa using hc
    decide

/-- Whether a text is a written number without its sign: digits, perhaps a point and digits, and
perhaps an exponent. -/
def IsNumeral (cs : List Char) : Prop :=
  ∃ whole tail, cs = whole ++ tail ∧ (∀ c ∈ whole, isDigit c = true) ∧
    (IsExponent tail ∨ ∃ part power, tail = '.' :: (part ++ power) ∧
      (∀ c ∈ part, isDigit c = true) ∧ IsExponent power)

theorem finishes_readUnsigned (negative : Bool) {cs : List Char} (h : IsNumeral cs) :
    (readUnsigned negative cs).Finishes := by
  obtain ⟨whole, tail, rfl, hw, ht⟩ := h
  -- behind the whole part stands a point, an exponent or nothing
  have hn : ∀ c ∈ tail.head?, isDigit c = false := by
    rcases ht with he | ⟨part, power, rfl, -⟩
    · exact he.not_isDigit
    · rintro c hc
      obtain rfl : '.' = c := by simpa using hc
      decide
  rw [readUnsigned_eq, readDigits_of_all hw hn]
  cases whole with
  | nil => cases tail <;> exact finishes_error _
  | cons d ds =>
    dsimp only
    split
    · exact finishes_error _
    · rcases ht with he | ⟨part, power, rfl, hp, he⟩
      · rcases he with rfl | ⟨sign, es, rfl, hs, hd⟩
        · rw [readFraction_of_ends _ _ _ ends_nil]
          split
          · exact finishes_ok _
          · exact finishes_readFloat _ _ _
        · rw [readFraction_cons, if_neg (by decide), if_pos (.inl rfl)]
          have he : IsExponent ('e' :: (sign ++ es)) := .inr ⟨sign, es, rfl, hs, hd⟩
          exact finishes_readPower _ _ _ he
      · rw [readFraction_cons, if_pos rfl, readPart, readDigits_of_all hp he.not_isDigit]
        cases part with
        | nil => cases power <;> exact finishes_error _
        | cons e es => exact finishes_readPower _ _ _ he

theorem isExponent_ofInt {sign : List Char} (hs : sign = [] ∨ sign = ['+']) {n : Int}
    (hn : sign = ['+'] → 0 ≤ n) : IsExponent ('e' :: (sign ++ Text.Decimal.ofInt n)) := by
  have hd : ∀ m, ∀ c ∈ digits m, isDigit c = true := fun m c hc =>
    Text.Decimal.isDigit_of_mem_digits hc
  cases n with
  | ofNat n => exact .inr ⟨sign, digits n, rfl, hs.imp_right .inl, hd n⟩
  | negSucc n =>
    rcases hs with rfl | rfl
    · exact .inr ⟨['-'], digits (n + 1), rfl, .inr (.inr rfl), hd (n + 1)⟩
    · have := hn rfl
      omega

theorem isDigit_of_mem_replicate {n : Nat} {c : Char} (h : c ∈ List.replicate n '0') :
    isDigit c = true := by
  rw [List.eq_of_mem_replicate h]
  decide

theorem isDigit_of_mem_zero (c : Char) (h : c ∈ ['0']) : isDigit c = true := by
  obtain rfl := List.mem_singleton.1 h
  rfl

theorem isNumeral_power {whole part power : List Char} (hw : ∀ c ∈ whole, isDigit c = true)
    (hp : ∀ c ∈ part, isDigit c = true) (he : IsExponent power) :
    IsNumeral (whole ++ '.' :: (part ++ power)) :=
  ⟨whole, _, rfl, hw, .inr ⟨part, power, rfl, hp, he⟩⟩

theorem isNumeral_point {whole part : List Char} (hw : ∀ c ∈ whole, isDigit c = true)
    (hp : ∀ c ∈ part, isDigit c = true) : IsNumeral (whole ++ '.' :: part) := by
  have h := isNumeral_power hw hp (.inl rfl)
  rwa [List.append_nil] at h

/-- The text of a double without its sign is a numeral. -/
theorem isNumeral_renderDigits {ds : List Char} (hd : ∀ c ∈ ds, isDigit c = true) (power : Int) :
    IsNumeral (Shortest.renderDigits numberStyle ds power) := by
  have htake : ∀ n, ∀ c ∈ ds.take n, isDigit c = true :=
    fun n c hc => hd c (List.mem_of_mem_take hc)
  have hdrop : ∀ n, ∀ c ∈ ds.drop n, isDigit c = true :=
    fun n c hc => hd c (List.mem_of_mem_drop hc)
  unfold Shortest.renderDigits
  dsimp only
  split
  · -- digits and zeros up to the point, or digits on both sides of it
    split
    · have h0 := isDigit_of_mem_zero
      refine isNumeral_point (fun c hc => ?_) h0
      rcases List.mem_append.1 hc with hc | hc
      · exact hd c hc
      · exact isDigit_of_mem_replicate hc
    · exact isNumeral_point (htake _) (hdrop _)
  · -- zeros behind the point, or an exponent
    split
    · have hp : ∀ c ∈ List.replicate (-(ds.length + power)).toNat '0' ++ ds, isDigit c = true := by
        intro c hc
        rcases List.mem_append.1 hc with hc | hc
        · exact isDigit_of_mem_replicate hc
        · exact hd c hc
      have h0 := isDigit_of_mem_zero
      exact isNumeral_point h0 hp
    · generalize he : (ds.length : Int) + power - 1 = exponent
      have hs : IsExponent
          ('e' :: ((if 0 ≤ exponent ∧ numberStyle.plusSign = true then ['+'] else []) ++
          Text.Decimal.ofInt exponent)) := by
        split
        · rename_i h
          exact isExponent_ofInt (.inr rfl) fun _ => h.1
        · exact isExponent_ofInt (.inl rfl) nofun
      split
      · rw [List.append_nil]
        exact ⟨ds.take 1, _, rfl, htake 1, .inl hs⟩
      · rw [List.append_assoc]
        exact isNumeral_power (htake 1) (hdrop 1) hs

/-- No numeral starts with a sign. -/
theorem IsNumeral.ne_minus {c : Char} {cs : List Char} (h : IsNumeral (c :: cs)) : c ≠ '-' := by
  obtain ⟨whole, tail, he, hw, ht⟩ := h
  cases whole with
  | cons d ds =>
    obtain ⟨rfl, -⟩ := List.cons.inj he
    rintro rfl
    exact absurd (hw _ List.mem_cons_self) (by decide)
  | nil =>
    rcases ht with (rfl | ⟨sign, ds, rfl, -⟩) | ⟨part, power, rfl, -⟩
    · cases he
    · obtain ⟨rfl, -⟩ := List.cons.inj he
      decide
    · obtain ⟨rfl, -⟩ := List.cons.inj he
      decide

theorem finishes_readNumber (negative : Bool) {cs : List Char} (h : IsNumeral cs) :
    (readNumber ((if negative then ['-'] else []) ++ cs)).Finishes := by
  cases negative with
  | true => exact finishes_readUnsigned true h
  | false =>
    cases cs with
    | nil => exact finishes_error _
    | cons c cs =>
      show (readNumber (c :: cs)).Finishes
      rw [readNumber_cons, if_neg h.ne_minus]
      exact finishes_readUnsigned false h

theorem isNumeral_digits (n : Nat) : IsNumeral (digits n) :=
  ⟨digits n, [], (List.append_nil _).symm, fun _ hc => Text.Decimal.isDigit_of_mem_digits hc,
    .inl (.inl rfl)⟩

theorem renderDigits_ne_nil (ds : List Char) (power : Int) :
    Shortest.renderDigits numberStyle ds power ≠ [] := by
  unfold Shortest.renderDigits
  dsimp only
  split
  · split <;> simp
  · split <;> simp

/-- The text of a double without its sign. -/
def unsignedText (x : Binary64) : List Char :=
  if x.isZero then ['0', '.', '0']
  else Shortest.renderDigits numberStyle
    (Shortest.withoutZeros (digits (Shortest.shortest x).1) (Shortest.shortest x).2).1
    (Shortest.withoutZeros (digits (Shortest.shortest x).1) (Shortest.shortest x).2).2

theorem render_eq (x : Binary64) :
    Shortest.render numberStyle x = (if x.negative then ['-'] else []) ++ unsignedText x := by
  rw [Shortest.render, unsignedText]
  split <;> rfl

theorem isNumeral_unsignedText (x : Binary64) : IsNumeral (unsignedText x) := by
  rw [unsignedText]
  split
  · exact isNumeral_point isDigit_of_mem_zero isDigit_of_mem_zero
  · refine isNumeral_renderDigits (fun c hc => ?_) _
    exact Text.Decimal.isDigit_of_mem_digits (List.mem_of_mem_take hc)

theorem unsignedText_ne_nil (x : Binary64) : unsignedText x ≠ [] := by
  rw [unsignedText]
  split
  · exact List.cons_ne_nil _ _
  · exact renderDigits_ne_nil _ _

/-- A written number is a numeral, perhaps with a minus sign before it. -/
theorem exists_numberText (n : Number) : ∃ (negative : Bool) (cs : List Char),
    numberText n = (if negative then ['-'] else []) ++ cs ∧ IsNumeral cs ∧ cs ≠ [] := by
  cases n with
  | int n =>
    cases n with
    | ofNat n => exact ⟨false, _, rfl, isNumeral_digits n, Text.Decimal.digits_ne_nil n⟩
    | negSucc n => exact ⟨true, _, rfl, isNumeral_digits (n + 1), Text.Decimal.digits_ne_nil _⟩
  | float x => exact ⟨x.negative, _, render_eq x, isNumeral_unsignedText x, unsignedText_ne_nil x⟩

/-- A written number is read to its end. -/
theorem finishes_numberText (n : Number) : (readNumber (numberText n)).Finishes := by
  obtain ⟨negative, cs, hn, hcs, -⟩ := exists_numberText n
  rw [hn]
  exact finishes_readNumber negative hcs

/-- What a written number is read as. -/
def rereadNumber (n : Number) : Option Number := (readNumber (numberText n)).toOption.map (·.1)

theorem readNumber_numberText (n : Number) (h : Ends rest) :
    (readNumber (numberText n ++ rest)).toOption = (rereadNumber n).map (·, rest) := by
  rw [readNumber_append _ h, rereadNumber]
  cases hr : readNumber (numberText n) with
  | error => rfl
  | ok p =>
    obtain ⟨m, left⟩ := p
    obtain rfl := finishes_numberText n m left hr
    rfl

theorem rereadNumber_int {n : Int} (h : IsWord n) : rereadNumber (.int n) = some (.int n) := by
  unfold rereadNumber numberText
  rw [readNumber_ofInt h]
  rfl

/-- What the text of a number may start with. -/
def StartsNumber (c : Char) : Prop := isDigit c = true ∨ c = '-' ∨ c = '.' ∨ c = 'e'

theorem StartsNumber.ne {c d : Char} (h : StartsNumber c) (hd : isDigit d = false)
    (hs : d ∉ ['-', '.', 'e']) : c ≠ d := by
  rintro rfl
  rcases h with h | rfl | rfl | rfl
  · rw [h] at hd
    cases hd
  all_goals exact hs (by decide)

theorem IsNumeral.starts {c : Char} {cs : List Char} (h : IsNumeral (c :: cs)) :
    StartsNumber c := by
  obtain ⟨whole, tail, he, hw, ht⟩ := h
  cases whole with
  | cons d ds =>
    obtain ⟨rfl, -⟩ := List.cons.inj he
    exact .inl (hw _ List.mem_cons_self)
  | nil =>
    rcases ht with (rfl | ⟨sign, ds, rfl, -⟩) | ⟨part, power, rfl, -⟩
    · cases he
    · exact .inr (.inr (.inr (List.cons.inj he).1))
    · exact .inr (.inr (.inl (List.cons.inj he).1))

theorem IsNumeral.exists_cons {cs : List Char} (h : IsNumeral cs) (hne : cs ≠ [])
    (negative : Bool) :
    ∃ d ds, (if negative then ['-'] else []) ++ cs = d :: ds ∧ StartsNumber d := by
  cases negative with
  | true => exact ⟨'-', cs, rfl, .inr (.inl rfl)⟩
  | false =>
    cases cs with
    | nil => exact absurd rfl hne
    | cons c cs => exact ⟨c, cs, rfl, h.starts⟩

/-- The text of a number is not empty. -/
theorem numberText_cons (n : Number) : ∃ c cs, numberText n = c :: cs ∧ StartsNumber c := by
  obtain ⟨negative, cs, hn, hcs, hne⟩ := exists_numberText n
  rw [hn]
  exact hcs.exists_cons hne negative

end Roster.Json
