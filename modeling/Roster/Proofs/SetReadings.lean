/-
The two ways of reading a desired set.

A set is read directly, where each item is checked before the next one is read, or in three passes:
the whole list first, then every relation in it, then the set of them.  What is met first differs: a
malformed priority stands before a fault in the text behind it in the one and after it in the other.
A check leaves alone where a reader is in the text, so what all passes accept, the direct way
accepts, and the other way round.

* `MoreItems`, `readItemsFrom_succ_eq_ok_iff`: what stands behind an item that was read;
* `list_checked_eq_ok_iff`: a list of items that are checked one by one, and all of them behind the
  list;
* `DesiredSet.readDirectly?`, `readInPasses?`, `readDirectly?_eq`: the two ways;
* `readings_agree`: sets that are read, written and read again.
-/
import Roster.Proofs.Formed

namespace Roster

namespace Json

variable {α β : Type} {decoder : Decoder α} {check : α → Option β} {item : Reader α}
  {checkedItem : Reader β} {levels fuel : Nat} {cs rest : List Char}

/-! ### Checks -/

theorem bindValue_eq_ok_iff {reading : Reading α} {f : α → Except Fault β} {b : β} :
    Reading.bindValue reading f = .ok (b, rest) ↔ ∃ a, reading = .ok (a, rest) ∧ f a = .ok b := by
  rcases reading with fault | ⟨a, left⟩
  · exact iff_of_false nofun (by rintro ⟨a, ha, -⟩; cases ha)
  · show (f a).map (·, left) = .ok (b, rest) ↔ _
    cases hf : f a with
    | error fault =>
      refine iff_of_false nofun ?_
      rintro ⟨a', ha, hb⟩
      cases ha
      rw [hf] at hb
      cases hb
    | ok c =>
      constructor
      · intro h
        cases h
        exact ⟨a, rfl, hf⟩
      · rintro ⟨a', ha, hb⟩
        cases ha
        rw [hf] at hb
        cases hb
        rfl

theorem checked_eq_ok_iff {b : β} :
    checked decoder check levels cs = .ok (b, rest) ↔ ∃ a, decoder levels cs = .ok (a, rest) ∧
    check a = some b := by
  rw [checked, bindValue_eq_ok_iff]
  refine exists_congr fun a => and_congr_right fun _ => ?_
  cases check a <;> simp

/-! ### Items -/

/-- What stands behind an item is the closing bracket, or a comma and more items. -/
inductive MoreItems (item : Reader α) (fuel : Nat) : List Char → List α → List Char → Prop
  | close {cs rest : List Char} (bracket : skipSpace cs = ']' :: rest) :
      MoreItems item fuel cs [] rest
  | comma {cs next more rest : List Char} {c : Char} {as : List α}
      (comma : skipSpace cs = ',' :: next)
    (start : skipSpace next = c :: more) (noBracket : c ≠ ']')
    (items : readItemsFrom item fuel (c :: more) = .ok (as, rest)) : MoreItems item fuel cs as rest

/-- The first item is read, and then what stands behind it. -/
theorem readItemsFrom_succ_eq_ok_iff {as : List α} :
    readItemsFrom item (fuel + 1) cs = .ok (as, rest) ↔
      ∃ a left bs, item cs = .ok (a, left) ∧ MoreItems item fuel left bs rest ∧ as = a :: bs := by
  constructor
  · intro h
    rw [readItemsFrom] at h
    split at h
    · cases h
    · rename_i a left ha
      split at h
      · cases h
      · rename_i hclose
        cases h
        exact ⟨a, left, [], ha, .close hclose, rfl⟩
      · rename_i next hcomma
        split at h
        · cases h
        · cases h
        · rename_i c more hno hstart
          obtain ⟨bs, hbs, hcons⟩ := bindValue_eq_ok_iff.1 h
          exact ⟨a, left, bs, ha, .comma hcomma hstart hno hbs, (Except.ok.inj hcons).symm⟩
      · cases h
  · rintro ⟨a, left, bs, ha, hmore, rfl⟩
    rw [readItemsFrom, ha]
    cases hmore with
    | close hclose => simp only [hclose]
    | comma hcomma hstart hc hbs =>
      simp only [hcomma, hstart]
      exact bindValue_eq_ok_iff.2 ⟨bs, hbs, rfl⟩

/-- Whether a reader reads what another one reads and a check lets pass. -/
def Checks (checkedItem : Reader β) (item : Reader α) (check : α → Option β) : Prop :=
  ∀ cs b rest, checkedItem cs = .ok (b, rest) ↔ ∃ a, item cs = .ok (a, rest) ∧ check a = some b

theorem readItemsFrom_of_checks (h : Checks checkedItem item check) {bs : List β} :
    readItemsFrom checkedItem fuel cs = .ok (bs, rest) ↔
      ∃ as, readItemsFrom item fuel cs = .ok (as, rest) ∧
        List.Forall₂ (fun a b => check a = some b) as bs := by
  -- both readers take the same steps, and the one that checks stops where the check does not pass
  induction fuel generalizing cs bs with
  | zero => exact iff_of_false nofun (by rintro ⟨as, has, -⟩; cases has)
  | succ fuel ih =>
    simp only [readItemsFrom_succ_eq_ok_iff]
    constructor
    · rintro ⟨b, left, bs, hb, hmore, rfl⟩
      obtain ⟨a, ha, hab⟩ := (h _ _ _).1 hb
      cases hmore with
      | close hclose => exact ⟨[a], ⟨a, left, [], ha, .close hclose, rfl⟩, .cons hab .nil⟩
      | comma hcomma hstart hc hbs =>
        obtain ⟨as, has, hall⟩ := ih.1 hbs
        exact ⟨a :: as, ⟨a, left, as, ha, .comma hcomma hstart hc has, rfl⟩, .cons hab hall⟩
    · rintro ⟨_, ⟨a, left, as, ha, hmore, rfl⟩, hall⟩
      obtain ⟨b, bs, hab, htail, rfl⟩ := List.forall₂_cons_left_iff.1 hall
      refine ⟨b, left, bs, (h _ _ _).2 ⟨a, ha, hab⟩, ?_, rfl⟩
      cases hmore with
      | close hclose =>
        obtain rfl := List.forall₂_nil_left_iff.1 htail
        exact .close hclose
      | comma hcomma hstart hc has => exact .comma hcomma hstart hc (ih.2 ⟨as, has, htail⟩)

theorem readItems_of_checks (h : Checks checkedItem item check) {bs : List β} :
    readItems checkedItem cs = .ok (bs, rest) ↔
      ∃ as, readItems item cs = .ok (as, rest) ∧
      List.Forall₂ (fun a b => check a = some b) as bs := by
  unfold readItems
  split
  · exact iff_of_false nofun (by rintro ⟨as, has, -⟩; cases has)
  · constructor
    · rintro ⟨⟩
      exact ⟨[], rfl, .nil⟩
    · rintro ⟨as, has, hall⟩
      cases has
      rw [List.forall₂_nil_left_iff.1 hall]
  · exact readItemsFrom_of_checks h

theorem mismatch_ne_ok (c : Char) (cs : List Char) (p : α × List Char) : mismatch c cs ≠ .ok p := by
  unfold mismatch
  split
  · exact nofun
  · split <;> exact nofun

/-- Items that are checked one by one are read as those of a list that pass the check. -/
theorem list_checked_eq_ok_iff {bs : List β} :
    list (checked decoder check) levels cs = .ok (bs, rest) ↔
      ∃ as, list decoder levels cs = .ok (as, rest) ∧
      List.Forall₂ (fun a b => check a = some b) as bs := by
  unfold list
  split
  · exact iff_of_false nofun (by rintro ⟨as, has, -⟩; cases has)
  · exact iff_of_false nofun (by rintro ⟨as, has, -⟩; cases has)
  · exact readItems_of_checks fun _ _ _ => checked_eq_ok_iff
  · exact iff_of_false (mismatch_ne_ok _ _ _)
      (by rintro ⟨as, has, -⟩; exact mismatch_ne_ok _ _ _ has)

theorem readWhole_eq_ok_iff {text : String} {a : α} :
    readWhole decoder text = .ok a ↔
      ∃ rest, decoder maxLevels text.toList = .ok (a, rest) ∧ skipSpace rest = [] := by
  unfold readWhole
  rcases decoder maxLevels text.toList with fault | ⟨b, rest⟩
  · exact iff_of_false nofun (by rintro ⟨rest, ha, -⟩; cases ha)
  · dsimp only
    split
    · rename_i hblank
      constructor
      · rintro ⟨⟩
        exact ⟨rest, rfl, hblank⟩
      · rintro ⟨_, ha, -⟩
        cases ha
        rfl
    · rename_i hleft
      refine iff_of_false nofun ?_
      rintro ⟨_, ha, hblank⟩
      cases ha
      exact hleft hblank

end Json

/-! ### Sets -/

theorem toOption_eq_some_iff {ε α : Type} {r : Except ε α} {a : α} :
    r.toOption = some a ↔ r = .ok a := by
  cases r <;> simp [Except.toOption]

theorem WireRelation.forall₂_decode_iff {ws : List WireRelation} {rs : List Relation} :
    List.Forall₂ (fun w r => w.decode = .ok r) ws rs ↔ decodeAll ws = .ok rs := mapM_eq_ok_iff.symm

namespace DesiredSet

variable {text : String} {set : DesiredSet}

/-- The set in a text, where every part is checked as soon as it is read. -/
def readDirectly? (text : String) : Option DesiredSet := (Json.readWhole decoder text).toOption

/-- The set in a text, where the list is read first, then the relations are decoded, and then the
set is made. -/
def readInPasses? (text : String) : Option DesiredSet := do
  let ws ← (Json.readWhole (Json.list WireRelation.decoder) text).toOption
  let rs ← (WireRelation.decodeAll ws).toOption
  (ofRelations rs).toOption

theorem readInPasses?_eq_some_iff :
    readInPasses? text = some set ↔
      ∃ ws rs, Json.readWhole (Json.list WireRelation.decoder) text = .ok ws ∧
      WireRelation.decodeAll ws = .ok rs ∧
        ofRelations rs = .ok set := by
  simp only [readInPasses?, Option.bind_eq_bind, Option.bind_eq_some_iff, toOption_eq_some_iff]
  constructor
  · rintro ⟨ws, hws, rs, hrs, hset⟩
    exact ⟨ws, rs, hws, hrs, hset⟩
  · rintro ⟨ws, rs, hws, hrs, hset⟩
    exact ⟨ws, hws, rs, hrs, hset⟩

theorem readDirectly?_eq_some_iff :
    readDirectly? text = some set ↔
      ∃ ws rs, Json.readWhole (Json.list WireRelation.decoder) text = .ok ws ∧
      WireRelation.decodeAll ws = .ok rs ∧
        ofRelations rs = .ok set := by
  rw [readDirectly?, toOption_eq_some_iff]
  simp only [Json.readWhole_eq_ok_iff, decoder, Json.checked_eq_ok_iff,
    WireRelation.relationDecoder, Json.list_checked_eq_ok_iff, WireRelation.forall₂_decode_iff,
    toOption_eq_some_iff]
  -- both ways stop at the same place in the text
  constructor
  · rintro ⟨rest, ⟨rs, ⟨ws, hws, hrs⟩, hset⟩, hblank⟩
    exact ⟨ws, rs, ⟨rest, hws, hblank⟩, hrs, hset⟩
  · rintro ⟨ws, rs, ⟨rest, hws, hblank⟩, hrs, hset⟩
    exact ⟨rest, ⟨rs, ⟨ws, hws, hrs⟩, hset⟩, hblank⟩

theorem readDirectly?_eq (text : String) : readDirectly? text = readInPasses? text :=
  Option.ext fun _ => readDirectly?_eq_some_iff.trans readInPasses?_eq_some_iff.symm

/-- A set that was read is read from the wire form of its relations. -/
theorem readInPasses?_of_encode {other : String} (h : readInPasses? text = some set)
    (hback : Json.readWhole (Json.list WireRelation.decoder) other =
      .ok (set.relations.map WireRelation.encode)) :
    readInPasses? other = some set := by
  obtain ⟨ws, rs, -, hrs, hset⟩ := readInPasses?_eq_some_iff.1 h
  obtain rfl := relations_of_ofRelations hset
  have hfits := WireRelation.fits_of_decodeAll hrs
  exact readInPasses?_eq_some_iff.2 ⟨_, set.relations, hback,
    WireRelation.decodeAll_encode hfits, hset⟩

/-- Relations of a set that was read are such as readers make them. -/
theorem formed_of_readDirectly (h : readDirectly? text = some set) :
    ∀ r ∈ set.relations, WireRelation.Formed r := by
  obtain ⟨ws, rs, hws, hrs, hset⟩ := readDirectly?_eq_some_iff.1 h
  obtain rfl := relations_of_ofRelations hset
  exact WireRelation.formed_of_decodeAll
    (Json.gives_whole (Json.gives_list WireRelation.gives_decoder Json.maxLevels) hws) hrs

/-- A set whose payloads have at most 125 levels is read from its indented text. -/
theorem readDirectly?_pretty (h : readDirectly? text = some set)
    (hexact : ∀ r ∈ set.relations, Json.All Json.Exact r.payload.toJson)
    (hdepth : ∀ r ∈ set.relations, r.payload.toJson.depth ≤ 125) :
    readDirectly? set.toJson.pretty = some set := by
  have hback : reread 126 set = some set :=
    reread_eq_some fun r hr =>
      WireRelation.reread_eq_some (formed_of_readDirectly h r hr) (hexact r hr) (hdepth r hr)
  rw [readDirectly?, ← hback]
  refine Json.toOption_readWhole ?_
  rw [Json.pretty, String.toList_ofList]
  exact readsBack_desired 126 0 set

/-- **The two ways of reading a set agree.**  Whatever a text is, it holds a set by the one way if
it does by the other, and then the same one.  A set that was read is read back, by either way, from
any text of it that is read as the list of its relations; and so are the sets whose payloads have at
most 125 levels from their indented texts, if the doubles in them are read back. -/
theorem readings_agree (text : String) :
    readDirectly? text = readInPasses? text ∧
      ∀ set, readDirectly? text = some set →
        (∀ write : Json → String,
          Json.readWhole (Json.list WireRelation.decoder) (write set.toJson) =
            .ok (set.relations.map WireRelation.encode) →
          readDirectly? (write set.toJson) = some set ∧
          readInPasses? (write set.toJson) = some set) ∧
        ((∀ r ∈ set.relations, Json.All Json.Exact r.payload.toJson ∧
          r.payload.toJson.depth ≤ 125) →
          readDirectly? set.toJson.pretty = some set ∧
          readInPasses? set.toJson.pretty = some set) := by
  -- what one reader accepts the other one does, so both may be taken for either
  refine ⟨readDirectly?_eq text, fun set h => ⟨fun write hback => ?_, fun hread => ?_⟩⟩
  · rw [readDirectly?_eq] at h ⊢
    exact and_self_iff.2 (readInPasses?_of_encode h hback)
  · rw [← readDirectly?_eq]
    exact and_self_iff.2
      (readDirectly?_pretty h (fun r hr => (hread r hr).1) fun r hr => (hread r hr).2)

/-- A text of two relations, one of them a record and one an array of its parts. -/
def writtenPair : String := "[\x7b\"id\":\"b\",\"priority\":\" +7\"\x7d, [\"a\"]]"

def pair : DesiredSet where
  relations := [⟨⟨"b"⟩, .explicit 7, .empty⟩, .bare ⟨"a"⟩]
  named := by decide
  distinct := by decide

theorem readings_agree_sample :
    readDirectly? writtenPair = some pair ∧ readInPasses? writtenPair = some pair ∧
      readInPasses? pair.toJson.compact = some pair ∧
      readDirectly? pair.toJson.pretty = some pair := by
  obtain ⟨hagree, hagain⟩ := readings_agree writtenPair
  have hread : readDirectly? writtenPair = some pair := rfl
  obtain ⟨hback, hpretty⟩ := hagain pair hread
  refine ⟨hread, hagree ▸ hread, (hback Json.compact rfl).2, (hpretty ?_).1⟩
  have hempty : Json.All Json.Exact Payload.empty.toJson ∧ Payload.empty.toJson.depth ≤ 125 :=
    ⟨⟨trivial, trivial⟩, by decide⟩
  exact List.forall_mem_cons.2 ⟨hempty, List.forall_mem_singleton.2 hempty⟩

end DesiredSet

end Roster
