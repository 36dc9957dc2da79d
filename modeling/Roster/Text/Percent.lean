/-
Percent-encoding of UTF-8 bytes.

A byte of a chosen class stands for itself, every other byte is written `%XX` with upper-case
hexadecimal digits.  `decode` undoes the writing for every class of ASCII bytes without the percent
sign (`decode_encodeBytes`), so that two texts with the same encoding have the same bytes
(`encodeBytes_injective`) and are the same text (`utf8_injective`).
-/
import Roster.Text.Decimal

namespace Roster.Text.Percent

open Decimal (hexDigitUpper hexValue? hexValue?_hexDigitUpper)

def utf8 (s : String) : List UInt8 := s.toList.flatMap String.utf8EncodeChar

def isAlphanumeric (b : UInt8) : Bool :=
  (48 ≤ b && b ≤ 57) || (65 ≤ b && b ≤ 90) || (97 ≤ b && b ≤ 122)

/-- The unreserved bytes of a URI: letters, digits and `-._~`. -/
def isUnreserved (b : UInt8) : Bool :=
  isAlphanumeric b || b == 45 || b == 46 || b == 95 || b == 126

/-- The bytes that stand for themselves in a file name: letters, digits and `._-`. -/
def isFileNameByte (b : UInt8) : Bool := isAlphanumeric b || b == 46 || b == 95 || b == 45

/-- A byte as itself if `keep` says so, else as a percent sign and two digits. -/
def encodeByte (keep : UInt8 → Bool) (b : UInt8) : List Char :=
  if keep b then [Char.ofNat b.toNat]
  else ['%', hexDigitUpper (b.toNat / 16), hexDigitUpper (b.toNat % 16)]

def encodeBytes (keep : UInt8 → Bool) (bs : List UInt8) : List Char := bs.flatMap (encodeByte keep)

def encode (keep : UInt8 → Bool) (s : String) : String :=
  String.ofList (encodeBytes keep (utf8 s))

/-- Reads an encoding back; refuses a percent sign without two hexadecimal digits and characters
outside ASCII. -/
def decode : List Char → Option (List UInt8)
  | [] => some []
  | '%' :: a :: b :: cs => do
    let high ← hexValue? a
    let low ← hexValue? b
    let bs ← decode cs
    pure (UInt8.ofNat (16 * high + low) :: bs)
  | c :: cs =>
    if c = '%' ∨ 128 ≤ c.toNat then none
    else (decode cs).map (UInt8.ofNat c.toNat :: ·)

theorem toNat_ofNat_of_lt {n : Nat} (h : n < 128) : (Char.ofNat n).toNat = n := by
  have hv : n.isValidChar := Or.inl (by omega)
  rw [Char.ofNat, dif_pos hv]
  rfl

def Plain (keep : UInt8 → Bool) : Prop := ∀ b, keep b = true → b < 128 ∧ b ≠ 37

set_option maxRecDepth 8000 in
theorem plain_isUnreserved : Plain isUnreserved := by
  intro b
  have h : ∀ n : Fin 256, isUnreserved (UInt8.ofNat n.val) = true →
      UInt8.ofNat n.val < 128 ∧ UInt8.ofNat n.val ≠ 37 := by decide
  have := h ⟨b.toNat, b.toNat_lt⟩
  simpa using this

set_option maxRecDepth 8000 in
theorem plain_isFileNameByte : Plain isFileNameByte := by
  intro b
  have h : ∀ n : Fin 256, isFileNameByte (UInt8.ofNat n.val) = true →
      UInt8.ofNat n.val < 128 ∧ UInt8.ofNat n.val ≠ 37 := by decide
  have := h ⟨b.toNat, b.toNat_lt⟩
  simpa using this

theorem decode_encodeByte {keep : UInt8 → Bool} (hk : Plain keep) (b : UInt8) (cs : List Char) :
    decode (encodeByte keep b ++ cs) = (decode cs).map (b :: ·) := by
  have hb : b.toNat < 256 := b.toNat_lt
  unfold encodeByte
  split
  · rename_i h
    obtain ⟨hlt, hne⟩ := hk b h
    have hn : b.toNat < 128 := hlt
    have hv : (Char.ofNat b.toNat).toNat = b.toNat := toNat_ofNat_of_lt hn
    have hc : Char.ofNat b.toNat ≠ '%' := by
      intro he
      have := congrArg Char.toNat he
      rw [hv] at this
      exact hne (UInt8.toNat_inj.1 this)
    have hs : UInt8.ofNat (Char.ofNat b.toNat).toNat = b := by rw [hv]; simp
    rw [List.singleton_append, decode]
    · simp only [hc, hv, false_or]
      rw [if_neg (by omega)]
      simp
    · intro a' b' c' he
      exact absurd he (by simp [hc])
  · have h1 := hexValue?_hexDigitUpper (b.toNat / 16) (by omega)
    have h2 := hexValue?_hexDigitUpper (b.toNat % 16) (by omega)
    have h3 : 16 * (b.toNat / 16) + b.toNat % 16 = b.toNat := Nat.div_add_mod ..
    have h4 : UInt8.ofNat (16 * (b.toNat / 16) + b.toNat % 16) = b := by rw [h3]; simp
    simp only [List.cons_append, List.nil_append, decode, h1, h2, Option.bind_eq_bind,
      Option.bind_some, h4]
    cases decode cs <;> rfl

theorem decode_encodeBytes {keep : UInt8 → Bool} (hk : Plain keep) (bs : List UInt8) :
    decode (encodeBytes keep bs) = some bs := by
  induction bs with
  | nil => rfl
  | cons b bs ih =>
    rw [encodeBytes, List.flatMap_cons, decode_encodeByte hk]
    rw [encodeBytes] at ih
    simp [ih]

theorem encodeBytes_injective {keep : UInt8 → Bool} (hk : Plain keep) {as bs : List UInt8}
    (h : encodeBytes keep as = encodeBytes keep bs) : as = bs := by
  have := congrArg decode h
  simpa [decode_encodeBytes hk] using this

theorem utf8_injective {s t : String} (h : utf8 s = utf8 t) : s = t := by
  have bytes (u : String) : (utf8 u).toByteArray = u.toByteArray := String.utf8Encode_toList
  rw [← String.toByteArray_inj, ← bytes s, ← bytes t, h]

end Roster.Text.Percent
