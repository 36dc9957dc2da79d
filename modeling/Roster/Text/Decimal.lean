/-
Decimal numerals.

`digits` writes a natural number and `ofDigits` reads one back (`ofDigits_digits`).  `ofInt` writes
an integer with its sign; `readInt?` reads an optional sign followed by at least one ASCII digit,
and `readInt?_ofInt` says that it reads every written integer back.
-/

namespace Roster.Text.Decimal

def isDigit (c : Char) : Bool := '0' ≤ c && c ≤ '9'

/-- The decimal digits of a number, most significant first. -/
def digits (n : Nat) : List Char := Nat.toDigits 10 n

/-- A number in decimal, as a string. -/
def text (n : Nat) : String := String.ofList (digits n)

/-- The number that a list of digits denotes. -/
def ofDigits (cs : List Char) : Nat := Nat.ofDigitChars 10 cs 0

theorem ofDigits_digits (n : Nat) : ofDigits (digits n) = n := Nat.ofDigitChars_ten_toDigits

theorem isDigit_eq (c : Char) : isDigit c = c.isDigit := by
  simp only [isDigit, Char.isDigit, Char.le_def]

theorem isDigit_of_mem_digits {n : Nat} {c : Char} (h : c ∈ digits n) : isDigit c = true := by
  rw [isDigit_eq]
  exact Nat.isDigit_of_mem_toDigits (by decide) (by decide) h

theorem digits_ne_nil (n : Nat) : digits n ≠ [] := Nat.toDigits_ne_nil

/-- An integer in decimal, with a minus sign when negative. -/
def ofInt : Int → List Char
  | .ofNat n => digits n
  | .negSucc n => '-' :: digits (n + 1)

/-- An integer in decimal, as a string. -/
def intText (n : Int) : String := String.ofList (ofInt n)

def readNat? (cs : List Char) : Option Nat :=
  if cs ≠ [] ∧ cs.all isDigit then some (ofDigits cs) else none

/-- An optional sign followed by one or more digits, as an integer. -/
def readInt? : List Char → Option Int
  | '+' :: cs => (readNat? cs).map Int.ofNat
  | '-' :: cs => (readNat? cs).map fun n => -(n : Int)
  | cs => (readNat? cs).map Int.ofNat

theorem readNat?_digits (n : Nat) : readNat? (digits n) = some n := by
  have h : (digits n).all isDigit = true :=
    List.all_eq_true.2 fun c hc => isDigit_of_mem_digits hc
  simp [readNat?, h, digits_ne_nil, ofDigits_digits]

theorem readInt?_ofInt (i : Int) : readInt? (ofInt i) = some i := by
  cases i with
  | negSucc n => simp [ofInt, readInt?, readNat?_digits, Int.negSucc_eq]
  | ofNat n =>
    have hd : ∀ c ∈ digits n, isDigit c = true := fun c hc => isDigit_of_mem_digits hc
    have hr := readNat?_digits n
    cases h : digits n with
    | nil => exact absurd h (digits_ne_nil n)
    | cons c cs =>
      have hc : isDigit c = true := hd c (by rw [h]; exact List.mem_cons_self)
      have hp : c ≠ '+' := by rintro rfl; exact absurd hc (by decide)
      have hm : c ≠ '-' := by rintro rfl; exact absurd hc (by decide)
      rw [h] at hr
      simp only [ofInt, h]
      unfold readInt?
      split
      · rename_i heq; exact absurd (List.cons.inj heq).1 hp
      · rename_i heq; exact absurd (List.cons.inj heq).1 hm
      · simp [hr]

def hexDigitLower (n : Nat) : Char := if n < 10 then Char.ofNat (48 + n) else Char.ofNat (87 + n)

def hexDigitUpper (n : Nat) : Char := if n < 10 then Char.ofNat (48 + n) else Char.ofNat (55 + n)

/-- The value of a hexadecimal digit of either case. -/
def hexValue? (c : Char) : Option Nat :=
  let n := c.toNat
  if 48 ≤ n ∧ n ≤ 57 then some (n - 48)
  else if 97 ≤ n ∧ n ≤ 102 then some (n - 87)
  else if 65 ≤ n ∧ n ≤ 70 then some (n - 55)
  else none

theorem hexValue?_hexDigitUpper : ∀ n < 16, hexValue? (hexDigitUpper n) = some n := by decide

theorem hexValue?_hexDigitLower : ∀ n < 16, hexValue? (hexDigitLower n) = some n := by decide

end Roster.Text.Decimal
