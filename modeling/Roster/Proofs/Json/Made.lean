/-
What readers of JSON text make.

A property that the parts of a text are read with is one that the whole is read with, and what is
read of a record has every property that the readers of its parts keep.  The values that are read
are formed.

* `Reading.Gives`: whatever a reading answers has a property;
* `gives_items`, `gives_members`: arrays and objects;
* `gives_list`, `gives_optional`, `gives_checked`, `gives_record`: typed readers;
* `gives_value`, `formed_of_parse`: the values that are read are formed.
-/
import Roster.Json.Typed
import Roster.Proofs.Json.Values

namespace Roster.Json

variable {α β σ : Type}

/-- Whether what a reading answers, if it answers anything, has a property. -/
def Reading.Gives (reading : Reading α) (p : α → Prop) : Prop :=
  ∀ a rest, reading = .ok (a, rest) → p a

section Gives

variable {p : α → Prop} {q : β → Prop}

theorem gives_error (fault : Fault) : Reading.Gives (.error fault) p := nofun

theorem gives_ok {a : α} (h : p a) (rest : List Char) : Reading.Gives (.ok (a, rest)) p := by
  intro b rest' he
  cases he
  exact h

theorem gives_true (reading : Reading α) : reading.Gives fun _ => True := fun _ _ _ => trivial

theorem gives_bindValue {reading : Reading α} {f : α → Except Fault β} (h : reading.Gives p)
    (hf : ∀ a b, p a → f a = .ok b → q b) : (Reading.bindValue reading f).Gives q := by
  intro b rest he
  cases reading with
  | error fault => cases he
  | ok r =>
    obtain ⟨a, left⟩ := r
    have he' : (f a).map (·, left) = .ok (b, rest) := he
    cases hb : f a with
    | error fault =>
      rw [hb] at he'
      cases he'
    | ok c =>
      rw [hb] at he'
      cases he'
      exact hf a b (h a rest rfl) hb

theorem gives_map {reading : Reading α} {f : α → β} (h : reading.Gives p)
    (hf : ∀ a, p a → q (f a)) :
    (Reading.bindValue reading fun a => .ok (f a)).Gives q := by
  refine gives_bindValue h fun a b ha hb => ?_
  obtain rfl := Except.ok.inj hb
  exact hf a ha

theorem gives_andThen {reading : Reading α} {next : α → Reader β} (h : reading.Gives p)
    (hn : ∀ a rest, p a → (next a rest).Gives q) : (Reading.andThen reading next).Gives q := by
  cases reading with
  | error fault => exact gives_error _
  | ok r => exact hn r.1 r.2 (h r.1 r.2 rfl)

end Gives

/-! ### Arrays and objects -/

variable {p : α → Prop} {item : Reader α}

theorem gives_itemsFrom (h : ∀ cs, (item cs).Gives p) (fuel : Nat) (cs : List Char) :
    (readItemsFrom item fuel cs).Gives fun as => ∀ a ∈ as, p a := by
  induction fuel generalizing cs with
  | zero => exact gives_error _
  | succ fuel ih =>
    unfold readItemsFrom
    split
    · exact gives_error _
    · rename_i a rest hi
      have ha : p a := h cs a rest hi
      split
      · exact gives_error _
      · exact gives_ok (by simpa using ha) _
      · split
        · exact gives_error _
        · exact gives_error _
        · refine gives_map (ih _) fun as has => ?_
          simpa using ⟨ha, has⟩
      · exact gives_error _

theorem gives_items (h : ∀ cs, (item cs).Gives p) (cs : List Char) :
    (readItems item cs).Gives fun as => ∀ a ∈ as, p a := by
  unfold readItems
  split
  · exact gives_error _
  · exact gives_ok (by simp) _
  · exact gives_itemsFrom h _ _

variable {P : σ → Prop} {name : Reader String} {member : String → σ → Except Fault (Reader σ)}

theorem gives_membersFrom
    (h : ∀ key s reader, P s → member key s = .ok reader → ∀ cs, (reader cs).Gives P) (fuel : Nat)
    {s : σ} (hs : P s) (cs : List Char) : (readMembersFrom name member fuel s cs).Gives P := by
  -- what was collected before a member satisfies `P`, and so does what the member makes of it
  induction fuel generalizing s cs with
  | zero => exact gives_error _
  | succ fuel ih =>
    unfold readMembersFrom
    split
    · exact gives_error _
    · split
      · exact gives_error _
      · rename_i reader hm
        split
        · exact gives_error _
        · split
          · exact gives_error _
          · rename_i t rest ht
            have hp : P t := h _ s reader hs hm _ t rest ht
            split
            · exact gives_error _
            · exact gives_ok hp _
            · split
              · exact gives_error _
              · exact ih hp _
            · exact gives_error _
        · exact gives_error _

theorem gives_members
    (h : ∀ key s reader, P s → member key s = .ok reader → ∀ cs, (reader cs).Gives P)
    {s : σ} (hs : P s) (cs : List Char) : (readMembers name member s cs).Gives P := by
  unfold readMembers
  split
  · exact gives_error _
  · exact gives_ok hs _
  · exact gives_membersFrom h _ hs _

/-! ### Values -/

theorem accumulate_lt {n : Nat} (h : n < 0x10000000000000000) (ds : List Char) :
    (accumulate n ds).1 < 0x10000000000000000 := by
  induction ds generalizing n with
  | nil => exact h
  | cons c ds ih =>
    rw [accumulate]
    split
    · rename_i hm
      exact ih hm
    · exact h

/-- Whether a number is such as readers make them. -/
def FormedNumber (n : Number) : Prop := Formed (.number n)

theorem formed_integerNumber {n : Nat} (h : n < 0x10000000000000000) (negative : Bool) :
    FormedNumber (integerNumber negative n) := by
  unfold integerNumber
  split
  · -- a negative number is a double if it is below 64 bits
    split
    · exact trivial
    · rename_i hn
      have hle : n ≤ 0x8000000000000000 := Nat.le_of_not_lt fun hlt => hn (.inr hlt)
      show IsWord (-(n : Int))
      unfold IsWord
      omega
  · show IsWord (n : Int)
    unfold IsWord
    omega

theorem gives_float (negative : Bool) (n : Nat) (power : Int) (cs : List Char) :
    (readFloat negative n power cs).Gives FormedNumber := by
  unfold readFloat
  split
  · exact gives_ok trivial _
  · exact gives_error _

theorem gives_exponentDigits (negative : Bool) (n : Nat) (power : Int) (down : Bool)
    (cs : List Char) :
    (readExponentDigits negative n power down cs).Gives FormedNumber := by
  unfold readExponentDigits
  split
  · exact gives_error _
  · exact gives_error _
  · dsimp only
    split
    · exact gives_float _ _ _ _
    · split
      · exact gives_ok trivial _
      · exact gives_error _

theorem gives_exponent (negative : Bool) (n : Nat) (power : Int) (cs : List Char) :
    (readExponent negative n power cs).Gives FormedNumber := by
  unfold readExponent
  split <;> exact gives_exponentDigits _ _ _ _ _

theorem gives_fraction {n : Nat} (h : n < 0x10000000000000000) (negative : Bool) (dropped : Nat)
    (cs : List Char) : (readFraction negative n dropped cs).Gives FormedNumber := by
  unfold readFraction
  split
  · split
    · exact gives_error _
    · exact gives_error _
    · dsimp only
      split
      · exact gives_exponent _ _ _ _
      · exact gives_exponent _ _ _ _
      · exact gives_float _ _ _ _
  · exact gives_exponent _ _ _ _
  · exact gives_exponent _ _ _ _
  · split
    · exact gives_ok (formed_integerNumber h negative) _
    · exact gives_float _ _ _ _

theorem gives_number (cs : List Char) : (readNumber cs).Gives FormedNumber := by
  have hu : ∀ negative cs, (readUnsigned negative cs).Gives FormedNumber := by
    intro negative cs
    unfold readUnsigned
    split
    · exact gives_error _
    · exact gives_error _
    · exact gives_error _
    · exact gives_fraction (accumulate_lt (by decide) _) negative _ _
  unfold readNumber
  split
  · exact hu true _
  · exact hu false _

theorem gives_scalar (c : Char) (cs : List Char) : (readScalar c cs).Gives (All Formed) := by
  unfold readScalar
  split
  · exact gives_map (gives_true _) fun _ _ => trivial
  · exact gives_map (gives_true _) fun _ _ => trivial
  · exact gives_map (gives_true _) fun _ _ => trivial
  · exact gives_map (gives_true _) fun _ _ => trivial
  · split
    · exact gives_map (gives_number _) fun n hn => hn
    · exact gives_error _

/-- Fields in name order with formed values. -/
def FormedFields (fields : List (String × Json)) : Prop :=
  Fields.Sorted fields ∧ ∀ e ∈ fields, All Formed e.2

theorem FormedFields.insert {fields : List (String × Json)} (h : FormedFields fields) (key : String)
    {j : Json} (hj : All Formed j) : FormedFields (Fields.insert key j fields) := by
  refine ⟨Fields.sorted_insert key j h.1, fun e he => ?_⟩
  rcases Fields.mem_insert he with rfl | he
  · exact hj
  · exact h.2 e he

theorem FormedFields.object {fields : List (String × Json)} (h : FormedFields fields) :
    All Formed (.object fields) := ⟨h.1, allFields_iff.2 h.2⟩

theorem FormedFields.nil : FormedFields [] := ⟨List.Pairwise.nil, nofun⟩

theorem FormedFields.foldl_insert {fields entries : List (String × Json)} (h : FormedFields fields)
    (he : ∀ e ∈ entries, All Formed e.2) :
    FormedFields (entries.foldl (fun fields e => Fields.insert e.1 e.2 fields) fields) := by
  induction entries generalizing fields with
  | nil => exact h
  | cons e entries ih =>
    exact ih (h.insert e.1 (he e List.mem_cons_self)) fun f hf => he f (List.mem_cons_of_mem _ hf)

theorem formed_ofFields {entries : List (String × Json)} (h : ∀ e ∈ entries, All Formed e.2) :
    All Formed (.ofFields entries) := (FormedFields.nil.foldl_insert h).object

theorem gives_addField {value : Reader Json} (h : ∀ cs, (value cs).Gives (All Formed))
    {key : String} {fields : List (String × Json)} {reader : Reader (List (String × Json))}
    (hf : FormedFields fields) (hr : addField value key fields = .ok reader) (cs : List Char) :
    (reader cs).Gives FormedFields := by
  obtain rfl := Except.ok.inj hr
  exact gives_map (h cs) fun j hj => hf.insert key hj

/-- The values that are read are formed. -/
theorem gives_value (levels : Nat) (cs : List Char) : (readValue levels cs).Gives (All Formed) := by
  -- arrays and objects take a level, and their parts are made with one less
  induction levels generalizing cs with
  | zero =>
    unfold readValue
    split
    · exact gives_error _
    · exact gives_error _
    · exact gives_error _
    · rename_i h
      cases h
    · rename_i h
      cases h
    · exact gives_scalar _ _
  | succ levels ih =>
    unfold readValue
    split
    · exact gives_error _
    · rename_i h
      cases h
    · rename_i h
      cases h
    · rename_i h
      cases h
      exact gives_map (gives_items ih _) fun items hi => ⟨trivial, allItems_iff.2 hi⟩
    · rename_i h
      cases h
      exact gives_map (gives_members (fun _ _ _ hf hr => gives_addField ih hf hr) .nil _)
        fun fields hf => hf.object
    · exact gives_scalar _ _

theorem gives_whole {decoder : Decoder α} (h : ∀ cs, (decoder maxLevels cs).Gives p)
    {text : String} {a : α} (hr : readWhole decoder text = .ok a) : p a := by
  unfold readWhole at hr
  split at hr
  · cases hr
  · rename_i b rest hb
    split at hr
    · obtain rfl := Except.ok.inj hr
      exact h _ b rest hb
    · cases hr

theorem formed_of_parse {text : String} {j : Json} (h : parse text = .ok j) : All Formed j :=
  gives_whole (gives_value maxLevels) h

/-! ### Typed readers -/

theorem gives_mismatch (c : Char) (cs : List Char) : (mismatch c cs : Reading α).Gives p := by
  unfold mismatch
  split
  · exact gives_error _
  · split <;> exact gives_error _

theorem gives_list {decoder : Decoder α} (h : ∀ levels cs, (decoder levels cs).Gives p)
    (levels : Nat) (cs : List Char) : (list decoder levels cs).Gives fun as => ∀ a ∈ as, p a := by
  unfold list
  split
  · exact gives_error _
  · exact gives_error _
  · exact gives_items (h _) _
  · exact gives_mismatch _ _

theorem gives_optional {decoder : Decoder α} {levels : Nat} (h : ∀ cs, (decoder levels cs).Gives p)
    (cs : List Char) : (optional decoder levels cs).Gives fun o => ∀ a ∈ o, p a := by
  unfold optional
  split
  · exact gives_map (gives_true _) fun _ _ => nofun
  · refine gives_map (h _) fun a ha => ?_
    rintro _ ⟨⟩
    exact ha

theorem gives_checked {decoder : Decoder α} {check : α → Option β} {q : β → Prop} {levels : Nat}
    (h : ∀ cs, (decoder levels cs).Gives p) (hc : ∀ a b, p a → check a = some b → q b)
    (cs : List Char) :
    (checked decoder check levels cs).Gives q := by
  refine gives_bindValue (h cs) fun a b ha hb => ?_
  cases hca : check a with
  | none =>
    rw [hca] at hb
    cases hb
  | some c =>
    rw [hca] at hb
    obtain rfl := Except.ok.inj hb
    exact hc a c ha hca

/-- A part that has a property of its own keeps what its place in the record needs. -/
theorem gives_part {name : String} {get : σ → Option α} {put : α → σ → σ} {decoder : Decoder α}
    (h : ∀ levels cs, (decoder levels cs).Gives p) (hp : ∀ a s, p a → P s → P (put a s)) {s : σ}
    (hs : P s) (levels : Nat) (cs : List Char) :
    ((Part.of name get put decoder).decoder s levels cs).Gives P :=
  gives_map (h levels cs) fun a ha => hp a s ha hs

section Records

variable {parts : List (Part σ)}

theorem gives_recordItems (h : ∀ part ∈ parts, ∀ s levels cs, P s →
      (part.decoder s levels cs).Gives P)
    (levels : Nat) {s : σ} (hs : P s) (cs : List Char) :
    (recordItems levels parts s cs).Gives P := by
  induction parts generalizing s cs with
  | nil => exact gives_ok hs cs
  | cons part parts ih =>
    unfold recordItems
    split
    · exact gives_error _
    · exact gives_ok hs _
    · split
      · exact gives_error _
      · exact gives_error _
      · split
        · exact gives_error _
        · rename_i t rest ht
          have hp : P t := h part List.mem_cons_self s levels _ hs t rest ht
          exact ih (fun other ho => h other (List.mem_cons_of_mem _ ho)) hp rest
    · exact gives_error _

theorem gives_recordArray (h : ∀ part ∈ parts, ∀ s levels cs, P s →
      (part.decoder s levels cs).Gives P)
    (levels : Nat) {s : σ} (hs : P s) (cs : List Char) :
    (recordArray levels parts s cs).Gives P := by
  cases parts with
  | nil => exact gives_ok hs cs
  | cons part parts =>
    rw [recordArray]
    split
    · exact gives_error _
    · exact gives_ok hs _
    · split
      · exact gives_error _
      · rename_i t rest ht
        have hp : P t := h part List.mem_cons_self s levels _ hs t rest ht
        exact gives_recordItems (fun other ho => h other (List.mem_cons_of_mem _ ho)) levels hp rest

theorem gives_recordMember (h : ∀ part ∈ parts, ∀ s levels cs, P s →
      (part.decoder s levels cs).Gives P)
    {levels : Nat} {key : String} {s : σ} {reader : Reader σ} (hs : P s)
    (hr : recordMember parts levels key s = .ok reader) (cs : List Char) : (reader cs).Gives P := by
  unfold recordMember at hr
  split at hr
  · rename_i part hf
    split at hr
    · cases hr
    · obtain rfl := Except.ok.inj hr
      exact h part (List.mem_of_find?_eq_some hf) s levels cs hs
  · obtain rfl := Except.ok.inj hr
    exact gives_map (gives_true _) fun _ _ => hs

/-- What the parts of a record keep holds of what was collected when the record is finished. -/
theorem gives_record {start : σ} {finish : σ → Option α}
    (h : ∀ part ∈ parts, ∀ s levels cs, P s → (part.decoder s levels cs).Gives P) (hs : P start)
    (hf : ∀ s a, P s → finish s = some a → p a) (levels : Nat) (cs : List Char) :
    (record parts start finish levels cs).Gives p := by
  unfold record
  split
  · exact gives_error _
  · exact gives_error _
  · exact gives_error _
  · refine gives_bindValue
      (gives_members (fun key s reader ht hr => gives_recordMember h ht hr) hs _) ?_
    intro s a ha hfin
    split at hfin
    · rename_i b hb
      obtain rfl := Except.ok.inj hfin
      exact hf s b ha hb
    · cases hfin
  · refine gives_andThen (gives_recordArray h _ hs _) fun s left hp => ?_
    split
    · exact gives_error _
    · rename_i a hfin
      exact gives_map (gives_true _) fun _ _ => hf s a hp hfin
  · exact gives_mismatch _ _

end Records

end Roster.Json
