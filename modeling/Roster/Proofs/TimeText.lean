/-
Reading times that were written.

A time whose year dates may have is read back from its text, leap seconds included.

* `readField?_padded`, `readYear?_yearText`, `readFraction?_fractionText`: the fields of the text;
* `read?_fields`: a text of such fields;
* `ofClock?_toDate`: the time that the fields of a time denote;
* `read?_text`: times are read back.
-/
import Mathlib.Algebra.Group.Nat.Defs
import Roster.Proofs.Calendar

namespace Roster.Timestamp

open Text (isBlank trimLeft)
open Text.Decimal (isDigit digits ofDigits)

variable {width n : Nat} {ds rest : List Char}

theorem trimLeft_cons {c : Char} (h : isBlank c = false) (cs : List Char) :
    trimLeft (c :: cs) = c :: cs := by
  simp [trimLeft, h]

theorem isBlank_of_isDigit {c : Char} (h : isDigit c = true) : isBlank c = false := by
  have h1 : '0'.toNat ≤ c.toNat ∧ c.toNat ≤ '9'.toNat := by
    simpa [isDigit, Char.le_def, UInt32.le_iff_toNat_le] using h
  have h0 : '0'.toNat = 48 := rfl
  have h9 : '9'.toNat = 57 := rfl
  unfold isBlank
  simp only [Bool.or_eq_false_iff, Bool.and_eq_false_iff, decide_eq_false_iff_not,
    beq_eq_false_iff_ne]
  omega

/-- Digits are read as far as the width allows. -/
theorem readNumber?_append (hne : ds ≠ []) (hd : ∀ c ∈ ds, isDigit c = true)
    (hw : ds.length ≤ width) (hr : ds.length = width ∨ ∀ c ∈ rest.head?, isDigit c = false) :
    readNumber? width (ds ++ rest) = some (ofDigits ds, rest) := by
  -- either the digits fill the width, or what follows them is no digit
  have htake : ((ds ++ rest).take width).takeWhile isDigit = ds := by
    rw [List.take_append, List.take_of_length_le hw, List.takeWhile_append_of_pos hd]
    have : (rest.take (width - ds.length)).takeWhile isDigit = [] := by
      rcases hr with hr | hr
      · simp [hr]
      · cases rest with
        | nil => simp
        | cons c cs =>
          have hc := hr c rfl
          cases width - ds.length <;> simp [hc]
    rw [this, List.append_nil]
  unfold readNumber?
  dsimp only
  rw [htake, if_neg hne, List.drop_left]

theorem isDigit_padded {c : Char} (h : c ∈ padded width n) : isDigit c = true := by
  rcases List.mem_append.1 h with h | h
  · rw [List.eq_of_mem_replicate h]
    rfl
  · exact Text.Decimal.isDigit_of_mem_digits h

theorem padded_ne_nil : padded width n ≠ [] :=
  List.append_ne_nil_of_right_ne_nil _ (Text.Decimal.digits_ne_nil n)

theorem ofDigits_padded : ofDigits (padded width n) = n := by
  unfold ofDigits padded
  dsimp only
  rw [Nat.ofDigitChars_append, Nat.ofDigitChars_replicate_zero, Nat.mul_zero]
  exact Text.Decimal.ofDigits_digits n

theorem length_padded (hw : 0 < width) (h : n < 10 ^ width) : (padded width n).length = width := by
  have := (Nat.length_toDigits_le_iff (by decide) hw).2 h
  have hl : (digits n).length ≤ width := this
  simp only [padded, List.length_append, List.length_replicate]
  omega

/-- A field of a fixed width is read back. -/
theorem readField?_padded (hw : 0 < width) (h : n < 10 ^ width) (rest : List Char) :
    readField? width (padded width n ++ rest) = some (n, rest) := by
  have hl := length_padded hw h
  have ht : trimLeft (padded width n ++ rest) = padded width n ++ rest := by
    cases hp : padded width n with
    | nil => exact absurd hp padded_ne_nil
    | cons c cs =>
      exact trimLeft_cons
        (isBlank_of_isDigit (isDigit_padded (by rw [hp]; exact List.mem_cons_self))) _
  rw [readField?, ht, readNumber?_append padded_ne_nil (fun c => isDigit_padded)
    (Nat.le_of_eq hl) (.inl hl), ofDigits_padded]

theorem expect?_cons {c : Char} (h : isBlank c = false) (cs : List Char) :
    expect? c (c :: cs) = some cs := by
  rw [expect?, trimLeft_cons h]
  exact if_pos rfl

theorem readYear?_minus (cs : List Char) :
    readYear? ('-' :: cs) = (readNumber? cs.length cs).map fun p => (-(p.1 : Int), p.2) := rfl

theorem readYear?_plus (cs : List Char) :
    readYear? ('+' :: cs) = (readNumber? cs.length cs).map fun p => ((p.1 : Int), p.2) := rfl

theorem readYear?_digit {c : Char} (hc : isDigit c = true) (cs : List Char) :
    readYear? (c :: cs) = (readField? 4 (c :: cs)).map fun p => ((p.1 : Int), p.2) := by
  unfold readYear? readField?
  rw [trimLeft_cons (isBlank_of_isDigit hc)]
  split
  · rename_i heq
    obtain ⟨rfl, -⟩ := List.cons.inj heq
    exact absurd hc (by decide)
  · rename_i heq
    obtain ⟨rfl, -⟩ := List.cons.inj heq
    exact absurd hc (by decide)
  · rfl

theorem readYear?_yearText (year : Int) (rest : List Char) :
    readYear? (yearText year ++ '-' :: rest) = some (year, '-' :: rest) := by
  unfold yearText
  split
  · -- four digits
    rename_i h
    have hlt : year.toNat < 10 ^ 4 := by omega
    have hf := readField?_padded (by decide) hlt ('-' :: rest)
    have hy : ((year.toNat : Nat) : Int) = year := Int.toNat_of_nonneg h.1
    cases hp : padded 4 year.toNat with
    | nil => exact absurd hp padded_ne_nil
    | cons c cs =>
      rw [hp, List.cons_append] at hf
      rw [List.cons_append,
        readYear?_digit (isDigit_padded (by rw [hp]; exact List.mem_cons_self)), hf,
        Option.map_some, hy]
  · -- a sign and as many digits as there are
    have hn : readNumber? (padded 4 year.natAbs ++ '-' :: rest).length
        (padded 4 year.natAbs ++ '-' :: rest) =
        some (year.natAbs, '-' :: rest) := by
      rw [readNumber?_append padded_ne_nil (fun c => isDigit_padded) (by simp)
        (.inr (by rintro c ⟨⟩; rfl)), ofDigits_padded]
    by_cases hneg : year < 0
    · have hy : -(year.natAbs : Int) = year := by omega
      rw [if_pos hneg, List.cons_append, readYear?_minus, hn, Option.map_some, hy]
    · have hy : (year.natAbs : Int) = year := by omega
      rw [if_neg hneg, List.cons_append, readYear?_plus, hn, Option.map_some, hy]

/-- Digits after a point, up to the zone, are read as a fraction. -/
theorem readFraction?_point (hw : 0 < width) (hw9 : width ≤ 9) (h : n < 10 ^ width)
    (rest : List Char) :
    readFraction? ('.' :: (padded width n ++ 'Z' :: rest)) =
      some (n * 10 ^ (9 - width), 'Z' :: rest) := by
  have hl := length_padded hw h
  have hd : ∀ c ∈ padded width n, isDigit c = true := fun c => isDigit_padded
  have htake : ((padded width n ++ 'Z' :: rest).take 9).takeWhile isDigit = padded width n := by
    rw [List.take_append, List.take_of_length_le (by omega), List.takeWhile_append_of_pos hd]
    have : (('Z' :: rest).take (9 - (padded width n).length)).takeWhile isDigit = [] := by
      cases 9 - (padded width n).length <;> rfl
    rw [this, List.append_nil]
  have hdrop : (padded width n ++ 'Z' :: rest).dropWhile isDigit = 'Z' :: rest :=
    List.dropWhile_append_of_pos hd
  simp only [readFraction?, htake, hdrop, if_neg padded_ne_nil, ofDigits_padded, hl]
  rfl

theorem readFraction?_fractionText (h : n < 1000000000) (rest : List Char) :
    readFraction? (fractionText n ++ 'Z' :: rest) = some (n, 'Z' :: rest) := by
  unfold fractionText
  -- the fraction is written with three, six or nine digits, or not at all
  split
  · rename_i h0
    subst h0
    rfl
  · split
    · rename_i h6
      rw [List.cons_append, readFraction?_point (by decide) (by decide) (by omega)]
      have : n / 1000000 * 10 ^ (9 - 3) = n := by omega
      rw [this]
    · split
      · rename_i h3
        rw [List.cons_append, readFraction?_point (by decide) (by decide) (by omega)]
        have : n / 1000 * 10 ^ (9 - 6) = n := by omega
        rw [this]
      · rw [List.cons_append, readFraction?_point (by decide) (by decide) (by omega), Nat.sub_self,
          Nat.pow_zero, Nat.mul_one]

/-- Whether a time is one that there is: its year is one that dates may have, and its nanoseconds
are less than a second, or less than two in the last second of a minute. -/
structure Valid (t : Timestamp) : Prop where
  year : IsYear (toDate (t.seconds / 86400)).year
  nanos : t.nanos < 2000000000
  leap : 1000000000 ≤ t.nanos → t.seconds % 60 = 59

theorem daysInMonth_lt (year : Int) (month : Nat) : daysInMonth year month < 100 := by
  unfold daysInMonth
  split
  · split <;> decide
  · split <;> decide

/-- The time on the clock of a time in UTC. -/
theorem ofClock?_toDate {seconds : Int} {nanos : Nat} (h : Valid ⟨seconds, nanos⟩) :
    ofClock? (toDate (seconds / 86400)) ((seconds % 86400).toNat / 3600)
      ((seconds % 86400).toNat / 60 % 60) ((seconds % 86400).toNat % 60 + nanos / 1000000000)
      (nanos % 1000000000) 0 = some ⟨seconds, nanos⟩ := by
  obtain ⟨hyear, hnanos, hleap⟩ := h
  dsimp only at hyear hnanos hleap
  have hs : (((seconds % 86400).toNat : Nat) : Int) = seconds % 86400 :=
    Int.toNat_of_nonneg (by omega)
  have hlt : (seconds % 86400).toNat < 86400 := by omega
  -- a leap second is written as second 60, and read back as the last second and more nanoseconds
  have hlast : 1000000000 ≤ nanos → (seconds % 86400).toNat % 60 = 59 := fun h => by
    have := hleap h
    omega
  generalize (seconds % 86400).toNat = s at hs hlt hlast ⊢
  have ht : ofDate (toDate (seconds / 86400)) * 86400 + ((s / 3600 : Nat) : Int) * 3600 +
      ((s / 60 % 60 : Nat) : Int) * 60 + ((min (s % 60 + nanos / 1000000000) 59 : Nat) : Int) - 0 =
        seconds := by
    rw [ofDate_toDate]
    omega
  unfold ofClock?
  dsimp only
  rw [if_pos ⟨valid_toDate hyear, by omega, by omega, by omega, by decide⟩]
  rw [ht, if_pos hyear]
  congr 2
  split <;> omega

theorem bind_of_eq {α β : Type} {x : Option α} {a : α} (h : x = some a) (f : α → Option β) :
    (x >>= f) = f a := by
  rw [h]
  rfl

/-- A date and a time of day, each field with its width, are read field by field. -/
theorem read?_fields {year : Int} {month day hour minute second nanos : Nat}
    (hmonth : month < 10 ^ 2) (hday : day < 10 ^ 2) (hhour : hour < 10 ^ 2)
    (hminute : minute < 10 ^ 2) (hsecond : second < 10 ^ 2) (hnanos : nanos < 1000000000) :
    read? (String.ofList
      (yearText year ++ '-' :: padded 2 month ++ '-' :: padded 2 day ++ 'T' :: padded 2 hour ++
        ':' :: padded 2 minute ++ ':' :: padded 2 second ++ fractionText nanos ++ ['Z'])) =
      ofClock? ⟨year, month, day⟩ hour minute second nanos 0 := by
  have h2 : 0 < 2 := by decide
  have hminus : isBlank '-' = false := rfl
  have hcolon : isBlank ':' = false := rfl
  unfold read?
  rw [String.toList_ofList, List.append_assoc, List.append_assoc, List.append_assoc,
    List.append_assoc, List.append_assoc, List.append_assoc]
  -- every field is read up to the mark behind it
  refine (bind_of_eq (readYear?_yearText _ _) _).trans ?_
  refine (bind_of_eq (expect?_cons hminus _) _).trans ?_
  refine (bind_of_eq (readField?_padded h2 hmonth _) _).trans ?_
  refine (bind_of_eq (expect?_cons hminus _) _).trans ?_
  refine (bind_of_eq (readField?_padded h2 hday _) _).trans ?_
  refine (bind_of_eq (readField?_padded h2 hhour _) _).trans ?_
  refine (bind_of_eq (expect?_cons hcolon _) _).trans ?_
  refine (bind_of_eq (readField?_padded h2 hminute _) _).trans ?_
  refine (bind_of_eq (expect?_cons hcolon _) _).trans ?_
  refine (bind_of_eq (readField?_padded h2 hsecond _) _).trans ?_
  refine (bind_of_eq (readFraction?_fractionText hnanos _) _).trans ?_
  rfl

/-- **Times are read back.** -/
theorem read?_text {t : Timestamp} (h : t.Valid) : read? t.text = some t := by
  have hvalid := valid_toDate h.year
  simp only [Date.valid, Bool.and_eq_true, decide_eq_true_eq] at hvalid
  obtain ⟨⟨⟨-, hmonth⟩, -⟩, hday⟩ := hvalid
  have hdays := daysInMonth_lt (toDate (t.seconds / 86400)).year (toDate (t.seconds / 86400)).month
  have hlt : (t.seconds % 86400).toNat < 86400 := by omega
  have hnanos := h.nanos
  have hfields : read? t.text = _ :=
    read?_fields (by omega) (by omega) (by omega) (by omega) (by omega) (by omega)
  exact hfields.trans (ofClock?_toDate h)

end Roster.Timestamp
