/-
Reading strings that were written.

* `readString_quoted`, `readName_quoted`: a quoted string is read back, whatever stands behind it.
-/
import Mathlib.Tactic.Common
import Roster.Json.Quoted
import Roster.Json.Writer

namespace Roster.Json

open Text.Decimal (hexValue? hexDigitLower)

theorem readStringFrom_plain {c : Char} (hq : c ≠ '"') (hb : c ≠ '\\')
    (hc : ¬c.toNat < 32) (fuel : Nat) (done cs : List Char) :
    readStringFrom (fuel + 1) done (c :: cs) = readStringFrom fuel (c :: done) cs := by
  rw [readStringFrom, if_neg hc]
  · exact hq
  · exact hb

theorem readStringFrom_escape {cs left : List Char} {c : Char} (h : readEscape cs = .ok (c, left))
    (fuel : Nat) (done : List Char) :
    readStringFrom (fuel + 1) done ('\\' :: cs) = readStringFrom fuel (c :: done) left := by
  rw [readStringFrom, h]
  rfl

theorem readEscape_control {c : Char} (h : c.toNat < 32) (cs : List Char) :
    readEscape ('u' :: '0' :: '0' :: hexDigitLower (c.toNat / 16) ::
      hexDigitLower (c.toNat % 16) :: cs) =
      .ok (c, cs) := by
  have h1 := Text.Decimal.hexValue?_hexDigitLower (c.toNat / 16) (by omega)
  have h2 := Text.Decimal.hexValue?_hexDigitLower (c.toNat % 16) (by omega)
  have hn : ((0 * 16 + 0) * 16 + c.toNat / 16) * 16 + c.toNat % 16 = c.toNat := by omega
  have h0 : hexValue? '0' = some 0 := by decide
  simp only [readEscape, readHex4, h0, h1, h2, hn, Reading.andThen]
  rw [if_neg (by omega), if_neg (by omega), Char.ofNat_toNat]

/-- Every character is read back from how it is written. -/
theorem readStringFrom_escapeChar (c : Char) (fuel : Nat) (done cs : List Char) :
    readStringFrom (fuel + 1) done (escapeChar c ++ cs) = readStringFrom fuel (c :: done) cs := by
  unfold escapeChar
  -- seven characters have an escape of their own, and the other control characters a code
  split
  · subst_vars; exact readStringFrom_escape rfl fuel done
  split
  · subst_vars; exact readStringFrom_escape rfl fuel done
  split
  · subst_vars; exact readStringFrom_escape rfl fuel done
  split
  · subst_vars; exact readStringFrom_escape rfl fuel done
  split
  · subst_vars; exact readStringFrom_escape rfl fuel done
  split
  · subst_vars; exact readStringFrom_escape rfl fuel done
  split
  · subst_vars; exact readStringFrom_escape rfl fuel done
  split
  · rename_i h
    exact readStringFrom_escape (readEscape_control h cs) fuel done
  · rename_i hq hb _ _ _ _ _ hc
    exact readStringFrom_plain hq hb hc fuel done cs

theorem readStringFrom_flatMap (s : List Char) {fuel : Nat} (hf : s.length ≤ fuel)
    (done rest : List Char) :
    readStringFrom fuel done (s.flatMap escapeChar ++ '"' :: rest) =
      .ok (done.reverse ++ s, rest) := by
  induction s generalizing fuel done with
  | nil =>
    rw [List.flatMap_nil, List.nil_append, readStringFrom, List.append_nil]
  | cons c s ih =>
    obtain ⟨fuel, rfl⟩ : ∃ k, fuel = k + 1 := ⟨fuel - 1, by simp at hf; omega⟩
    rw [List.flatMap_cons, List.append_assoc, readStringFrom_escapeChar,
      ih (by simpa using hf), List.reverse_cons, List.append_assoc]
    rfl

theorem length_le_flatMap {α β : Type} {f : α → List β} (h : ∀ a, 0 < (f a).length) (as : List α) :
    as.length ≤ (as.flatMap f).length := by
  induction as with
  | nil => exact Nat.le_refl 0
  | cons a as ih =>
    have := h a
    rw [List.flatMap_cons, List.length_append, List.length_cons]
    omega

theorem length_le_flatMap_escapeChar (s : List Char) :
    s.length ≤ (s.flatMap escapeChar).length := by
  refine length_le_flatMap (fun c => ?_) s
  unfold escapeChar
  repeat' split
  all_goals simp

/-- A quoted string is read back. -/
theorem readString_quoted (s : String) (rest : List Char) :
    readString (s.toList.flatMap escapeChar ++ '"' :: rest) = .ok (s, rest) := by
  have hl := length_le_flatMap_escapeChar s.toList
  unfold readString
  rw [readStringFrom_flatMap s.toList (by rw [List.length_append]; omega)]
  simp [Reading.bindValue, Except.map]

theorem quoted_append (s : String) (rest : List Char) :
    quoted s ++ rest = '"' :: (s.toList.flatMap escapeChar ++ '"' :: rest) := by
  simp [quoted]

theorem readName_quoted (s : String) (rest : List Char) :
    readName (quoted s ++ rest) = .ok (s, rest) := by
  rw [quoted_append]
  exact readString_quoted s rest

end Roster.Json
