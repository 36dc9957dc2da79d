/-
What a written priority asks for.

A text spells an integer if it is, blanks at its ends apart, digits with at most one sign in front.
A priority that is absent or null asks for nothing; an integer and a text that spells one ask for
it, if it has 64 bits; everything else asks for nothing that there is.

* `Spells`, `readInt?_eq_some_iff`: the texts of integers;
* `Asks`, `readPriority?_eq_some_iff`: the priorities that are read;
* `decode_eq_ok_iff_denotes`, `decode_eq_error_iff`: what a written relation is decoded to, and when
  it is refused.
-/
import Roster.Relation.Wire

namespace Roster

namespace Text.Decimal

/-- The text is an optional sign and digits, which stand for the integer. -/
def IsNumeralOf (cs : List Char) (n : Int) : Prop :=
  ∃ sign ds, cs = sign ++ ds ∧ ds ≠ [] ∧ (∀ c ∈ ds, isDigit c = true) ∧
    ((sign = [] ∨ sign = ['+']) ∧ n = ofDigits ds ∨ sign = ['-'] ∧ n = -(ofDigits ds : Int))

theorem readNat?_eq_some_iff {cs : List Char} {n : Nat} :
    readNat? cs = some n ↔ cs ≠ [] ∧ (∀ c ∈ cs, isDigit c = true) ∧ ofDigits cs = n := by
  unfold readNat?
  split
  · rename_i h
    simpa [h.1] using fun _ => List.all_eq_true.1 h.2
  · rename_i h
    simp only [List.all_eq_true, not_and] at h
    simpa using fun hne hall => absurd hall (h hne)

theorem readInt?_eq_some_iff {cs : List Char} {n : Int} :
    readInt? cs = some n ↔ IsNumeralOf cs n := by
  constructor
  · intro h
    unfold readInt? at h
    split at h
    · obtain ⟨k, hk, rfl⟩ := Option.map_eq_some_iff.1 h
      obtain ⟨hne, hall, rfl⟩ := readNat?_eq_some_iff.1 hk
      exact ⟨['+'], _, rfl, hne, hall, .inl ⟨.inr rfl, rfl⟩⟩
    · rename_i ds
      cases hk : readNat? ds with
      | none =>
        rw [hk] at h
        cases h
      | some k =>
        rw [hk] at h
        obtain rfl := Option.some.inj h
        obtain ⟨hne, hall, rfl⟩ := readNat?_eq_some_iff.1 hk
        exact ⟨['-'], ds, rfl, hne, hall, .inr ⟨rfl, rfl⟩⟩
    · obtain ⟨k, hk, rfl⟩ := Option.map_eq_some_iff.1 h
      obtain ⟨hne, hall, rfl⟩ := readNat?_eq_some_iff.1 hk
      exact ⟨[], _, rfl, hne, hall, .inl ⟨.inl rfl, rfl⟩⟩
  · rintro ⟨sign, ds, rfl, hne, hall, ⟨rfl | rfl, rfl⟩ | ⟨rfl, rfl⟩⟩
    · -- a digit is no sign
      have hread : readNat? ds = some (ofDigits ds) := readNat?_eq_some_iff.2 ⟨hne, hall, rfl⟩
      cases ds with
      | nil => exact absurd rfl hne
      | cons d ds =>
        have hd := hall d List.mem_cons_self
        have hplus : d ≠ '+' := by rintro rfl; exact absurd hd (by decide)
        have hminus : d ≠ '-' := by rintro rfl; exact absurd hd (by decide)
        rw [List.nil_append]
        unfold readInt?
        split
        · rename_i he; exact absurd (List.cons.inj he).1 hplus
        · rename_i he; exact absurd (List.cons.inj he).1 hminus
        · rw [hread]; rfl
    · show (readNat? ds).map Int.ofNat = _
      rw [readNat?_eq_some_iff.2 ⟨hne, hall, rfl⟩]
      rfl
    · show (readNat? ds).map (fun n => -(n : Int)) = _
      rw [readNat?_eq_some_iff.2 ⟨hne, hall, rfl⟩]
      rfl

end Text.Decimal

namespace WireRelation

/-- The text spells the integer, with blanks at its ends as it may. -/
def Spells (s : String) (n : Int) : Prop := Text.Decimal.IsNumeralOf (Text.trim s.toList) n

/-- What a written priority asks for. -/
inductive Asks : Option Json → Priority → Prop
  | absent : Asks none .unset
  | null : Asks (some .null) .unset
  | integer {n : Int} (fits : Number.IsInt64 n) : Asks (some (.ofInt n)) (.explicit n)
  | text {s : String} {n : Int} (spells : Spells s n) (fits : Number.IsInt64 n) :
    Asks (some (.string s)) (.explicit n)

/-- Every integer that is asked for has 64 bits. -/
theorem Asks.isInt64 {value : Option Json} {n : Int} (h : Asks value (.explicit n)) :
    Number.IsInt64 n := by
  cases h with
  | integer fits => exact fits
  | text spells fits => exact fits

theorem textPriority?_eq_some_iff {s : String} {n : Int} :
    textPriority? s = some n ↔ Spells s n ∧ Number.IsInt64 n := by
  rw [textPriority?, Option.filter_eq_some_iff, Text.Decimal.readInt?_eq_some_iff,
    decide_eq_true_iff]
  rfl

theorem readPriority?_eq_some_iff {value : Option Json} {p : Priority} :
    readPriority? value = some p ↔ Asks value p := by
  constructor
  · intro h
    unfold readPriority? at h
    split at h
    · obtain rfl := Option.some.inj h
      exact .absent
    · obtain rfl := Option.some.inj h
      exact .null
    · rename_i m
      obtain ⟨n, hn, rfl⟩ := Option.map_eq_some_iff.1 h
      -- a double asks for nothing, and an integer only if it has 64 bits
      cases m with
      | float x => cases hn
      | int m =>
        simp only [Number.int64?] at hn
        split at hn
        · rename_i hfits
          obtain rfl := Option.some.inj hn
          exact .integer hfits
        · cases hn
    · obtain ⟨n, hn, rfl⟩ := Option.map_eq_some_iff.1 h
      obtain ⟨hspells, hfits⟩ := textPriority?_eq_some_iff.1 hn
      exact .text hspells hfits
    · cases h
  · rintro (_ | _ | hfits | ⟨hspells, hfits⟩)
    · rfl
    · rfl
    · simp [Json.ofInt, readPriority?, Number.int64?, hfits]
    · rw [readPriority?, textPriority?_eq_some_iff.2 ⟨hspells, hfits⟩]
      rfl

/-- The relation is the one that is written. -/
structure Denotes (w : WireRelation) (r : Relation) : Prop where
  target : r.target = ⟨w.id⟩
  priority : Asks w.priority r.priority
  payload : r.payload = readProfile w.profile

/-- The priority asks for something that there is. -/
def HasPriority (w : WireRelation) : Prop := ∃ p, Asks w.priority p

variable {w : WireRelation}

theorem decode_eq_ok_iff_denotes {r : Relation} : w.decode = .ok r ↔ w.Denotes r := by
  unfold decode
  constructor
  · intro h
    split at h
    · rename_i priority hp
      obtain rfl := Except.ok.inj h
      exact ⟨rfl, readPriority?_eq_some_iff.1 hp, rfl⟩
    · cases h
  · rintro ⟨htarget, hpriority, hpayload⟩
    obtain ⟨target, priority, payload⟩ := r
    obtain rfl : target = ⟨w.id⟩ := htarget
    obtain rfl : payload = readProfile w.profile := hpayload
    rw [readPriority?_eq_some_iff.2 hpriority]

theorem hasPriority_iff : w.HasPriority ↔ ∃ r, w.decode = .ok r := by
  constructor
  · rintro ⟨p, hp⟩
    exact ⟨⟨⟨w.id⟩, p, readProfile w.profile⟩, decode_eq_ok_iff_denotes.2 ⟨rfl, hp, rfl⟩⟩
  · rintro ⟨r, hr⟩
    exact ⟨r.priority, (decode_eq_ok_iff_denotes.1 hr).priority⟩

/-- A relation is refused exactly for a priority that is written and asks for nothing that there
is. -/
theorem decode_eq_error_iff {e : RelationError} :
    w.decode = .error e ↔
      ∃ value, w.priority = some value ∧ ¬w.HasPriority ∧ e = .invalidPriority ⟨w.id⟩ value := by
  cases hd : w.decode with
  | ok r => simpa using fun _ _ hn => absurd (hasPriority_iff.2 ⟨r, hd⟩) hn
  | error e' =>
    -- what asks for a priority is decoded, so a refusal means that it asks for none
    have hnone : ¬w.HasPriority := fun h => by
      obtain ⟨r, hr⟩ := hasPriority_iff.1 h
      rw [hd] at hr
      cases hr
    cases hp : w.priority with
    | none => exact absurd ⟨.unset, hp ▸ .absent⟩ hnone
    | some value =>
      have he : e' = .invalidPriority ⟨w.id⟩ value := by
        unfold decode at hd
        split at hd
        · cases hd
        · rw [hp] at hd
          exact (Except.error.inj hd).symm
      subst he
      simp [hnone, eq_comm]

end WireRelation

end Roster
