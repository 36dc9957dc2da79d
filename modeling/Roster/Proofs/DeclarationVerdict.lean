/-
The verdict on a declaration that was read.

A declaration is refused for its owner first, then for the first priority in it that is malformed,
and only then for its targets: for the entry at the least index that names no target or one that an
earlier entry names.  The targets seen so far are exactly those of the entries before, so the fault
that is found is the one at that index.  Profiles have no say in this.

* `mapM_eq_error_iff`, `decodeAll_eq_error_iff`: where a list of items is refused;
* `TargetId.ClashesAt`, `firstFault_eq_some_iff`: the fault of a list of relations;
* `decode_withoutProfiles`: the declaration without its profiles;
* `WireDeclaration.Verdict`, `decode_exact`: the whole account of a verdict.
-/
import Roster.Declaration
import Roster.Proofs.Priorities
import Roster.Proofs.WireRelations

namespace Roster

/-! ### Items that are refused -/

/-- A list of items is refused for the first item that is. -/
theorem mapM_eq_error_iff {α β ε : Type} {f : α → Except ε β} {as : List α} {e : ε} :
    as.mapM f = .error e ↔
      ∃ before a after, as = before ++ a :: after ∧ (∀ b ∈ before, ∃ c, f b = .ok c) ∧
      f a = .error e := by
  induction as with
  | nil => simp [pure, Except.pure]
  | cons a as ih =>
    rw [List.mapM_cons]
    cases ha : f a with
    | error e' =>
      constructor
      · intro h
        obtain rfl := Except.error.inj h
        exact ⟨[], a, as, rfl, nofun, ha⟩
      · rintro ⟨_ | ⟨b, before⟩, x, after, hsplit, hbefore, hx⟩
        · obtain ⟨rfl, -⟩ := List.cons.inj hsplit
          obtain rfl := Except.error.inj (ha.symm.trans hx)
          rfl
        · obtain ⟨rfl, -⟩ := List.cons.inj hsplit
          obtain ⟨c, hc⟩ := hbefore a List.mem_cons_self
          rw [ha] at hc
          cases hc
    | ok b =>
      -- a first element that is fine moves the fault into the rest
      have hrest : (do let r ← as.mapM f; pure (b :: r)) = .error e ↔ as.mapM f = .error e := by
        cases as.mapM f with
        | error e' => exact Iff.rfl
        | ok bs => exact iff_of_false nofun nofun
      refine hrest.trans (ih.trans ?_)
      constructor
      · rintro ⟨before, x, after, rfl, hbefore, hx⟩
        exact ⟨a :: before, x, after, rfl, List.forall_mem_cons.2 ⟨⟨b, ha⟩, hbefore⟩, hx⟩
      · rintro ⟨_ | ⟨y, before⟩, x, after, hsplit, hbefore, hx⟩
        · obtain ⟨rfl, -⟩ := List.cons.inj hsplit
          rw [ha] at hx
          cases hx
        · obtain ⟨rfl, rfl⟩ := List.cons.inj hsplit
          exact ⟨before, x, after, rfl, fun c hc => hbefore c (List.mem_cons_of_mem _ hc), hx⟩

/-! ### The fault of a list of relations -/

/-- The target at a place names nothing, or was seen or named before. -/
def TargetId.ClashesAt (seen ids : List TargetId) (i : Nat) : Prop :=
  ∃ id, ids[i]? = some id ∧ (id.text = "" ∨ id ∈ seen ∨ id ∈ ids.take i)

namespace DesiredSet

open TargetId (ClashesAt)

variable {index : Nat} {seen ids : List TargetId} {id : TargetId} {relations : List Relation}
  {error : RelationError}

theorem clashesAt_zero : ClashesAt seen (id :: ids) 0 ↔ id.text = "" ∨ id ∈ seen := by
  simp [ClashesAt]

/-- What is met on the way was seen when the rest is looked at. -/
theorem clashesAt_succ (i : Nat) :
    ClashesAt seen (id :: ids) (i + 1) ↔ ClashesAt (id :: seen) ids i := by
  simp only [ClashesAt, List.getElem?_cons_succ, List.take_succ_cons, List.mem_cons]
  refine exists_congr fun other => and_congr_right fun _ => or_congr_right ?_
  constructor
  · rintro (h | h | h)
    · exact .inl (.inr h)
    · exact .inl (.inl h)
    · exact .inr h
  · rintro ((h | h) | h)
    · exact .inr (.inl h)
    · exact .inl h
    · exact .inr (.inr h)

/-- What is wrong with a target at an index that clashes. -/
def clashError (index : Nat) (id : TargetId) : RelationError :=
  if id.text = "" then .missingTarget index else .duplicateTarget id

theorem firstFault_cons_of_clash {r : Relation} (h : r.target.text = "" ∨ r.target ∈ seen)
    (rest : List Relation) :
    firstFault index seen (r :: rest) = some (clashError index r.target) := by
  rw [firstFault, clashError]
  split
  · rfl
  · rename_i hnamed
    rw [if_pos (h.resolve_left hnamed)]

theorem firstFault_cons_of_not_clash {r : Relation} (h : ¬(r.target.text = "" ∨ r.target ∈ seen))
    (rest : List Relation) :
    firstFault index seen (r :: rest) = firstFault (index + 1) (r.target :: seen) rest := by
  rw [firstFault, if_neg fun hempty => h (.inl hempty), if_neg fun hold => h (.inr hold)]

/-- The fault that is found is that of the least place at which a target clashes. -/
theorem firstFault_eq_some_iff :
    firstFault index seen relations = some error ↔
      ∃ i id, (Relation.targets relations)[i]? = some id ∧
      ClashesAt seen (Relation.targets relations) i ∧
        (∀ j < i, ¬ClashesAt seen (Relation.targets relations) j) ∧
        error = clashError (index + i) id := by
  induction relations generalizing index seen with
  | nil => simp [firstFault, Relation.targets]
  | cons r rest ih =>
    rw [Relation.targets_cons]
    by_cases hr : r.target.text = "" ∨ r.target ∈ seen
    · rw [firstFault_cons_of_clash hr]
      constructor
      · rintro ⟨⟩
        exact ⟨0, r.target, rfl, clashesAt_zero.2 hr,
          fun j hj => absurd hj (Nat.not_lt_zero j), rfl⟩
      · rintro ⟨_ | i, id, hid, -, hfirst, rfl⟩
        · obtain rfl := Option.some.inj hid
          rfl
        · exact absurd (clashesAt_zero.2 hr) (hfirst 0 (Nat.succ_pos i))
    · rw [firstFault_cons_of_not_clash hr, ih]
      -- the place in the rest is one less than the place in the whole
      constructor
      · rintro ⟨i, id, hid, hclash, hfirst, rfl⟩
        refine ⟨i + 1, id, hid, (clashesAt_succ i).2 hclash, fun j hj => ?_, ?_⟩
        · rcases j with _ | j
          · exact fun h => hr (clashesAt_zero.1 h)
          · exact fun h => hfirst j (Nat.lt_of_succ_lt_succ hj) ((clashesAt_succ j).1 h)
        · rw [Nat.add_assoc, Nat.add_comm 1]
      · rintro ⟨_ | i, id, hid, hclash, hfirst, rfl⟩
        · exact absurd (clashesAt_zero.1 hclash) hr
        · refine ⟨i, id, hid, (clashesAt_succ i).1 hclash, fun j hj => ?_, ?_⟩
          · exact fun h => hfirst (j + 1) (Nat.succ_lt_succ hj) ((clashesAt_succ j).2 h)
          · rw [Nat.add_assoc, Nat.add_comm 1]

theorem ofRelations_eq_error_iff :
    ofRelations relations = .error error ↔ firstFault 0 [] relations = some error := by
  unfold ofRelations
  split
  · rename_i e h
    exact ⟨fun he => h.trans (congrArg some (Except.error.inj he)),
      fun he => congrArg Except.error (Option.some.inj (h.symm.trans he))⟩
  · rename_i h
    exact iff_of_false nofun (by simp [h])

theorem ofRelations_eq_ok_iff {set : DesiredSet} :
    ofRelations relations = .ok set ↔ set.relations = relations :=
  ⟨relations_of_ofRelations, fun h => h ▸ ofRelations_relations set⟩

end DesiredSet

/-! ### Profiles have no say -/

/-- The relation as it would be written without a profile. -/
def WireRelation.withoutProfile (w : WireRelation) : WireRelation := { w with profile := none }

/-- The relation without what it says. -/
def Relation.withoutPayload (r : Relation) : Relation := { r with payload := .empty }

theorem Relation.targets_withoutPayload (relations : List Relation) :
    targets (relations.map withoutPayload) = targets relations := by
  rw [targets, List.map_map]
  rfl

theorem WireRelation.decode_withoutProfile (w : WireRelation) :
    w.withoutProfile.decode = w.decode.map Relation.withoutPayload := by
  unfold decode withoutProfile
  cases readPriority? w.priority <;> rfl

theorem mapM_map_eq_map {α β ε : Type} {f : α → Except ε β} {g : α → α} {k : β → β}
    (h : ∀ a, f (g a) = (f a).map k) (as : List α) :
    (as.map g).mapM f = (as.mapM f).map (List.map k) := by
  induction as with
  | nil => rfl
  | cons a as ih =>
    rw [List.map_cons, List.mapM_cons, List.mapM_cons, h, ih]
    cases f a with
    | error e => rfl
    | ok b => cases as.mapM f <;> rfl

namespace DesiredSet

/-- The set without what its relations say. -/
def withoutPayloads (set : DesiredSet) : DesiredSet where
  relations := set.relations.map Relation.withoutPayload
  named := List.forall_mem_map.2 set.named
  distinct := (Relation.targets_withoutPayload set.relations).symm ▸ set.distinct

theorem firstFault_congr {index : Nat} {seen : List TargetId} {rs ss : List Relation}
    (h : Relation.targets rs = Relation.targets ss) :
    firstFault index seen rs = firstFault index seen ss := by
  refine Option.ext fun error => ?_
  rw [firstFault_eq_some_iff, firstFault_eq_some_iff, h]

theorem ofRelations_withoutPayload (relations : List Relation) :
    ofRelations (relations.map Relation.withoutPayload) =
      (ofRelations relations).map withoutPayloads := by
  cases h : ofRelations relations with
  | error e =>
    have htargets := Relation.targets_withoutPayload relations
    exact ofRelations_eq_error_iff.2
      ((firstFault_congr htargets).trans (ofRelations_eq_error_iff.1 h))
  | ok set =>
    obtain rfl := ofRelations_eq_ok_iff.1 h
    exact ofRelations_eq_ok_iff.2 rfl

theorem ofWire_withoutProfile (ws : List WireRelation) :
    ofWire (ws.map WireRelation.withoutProfile) = (ofWire ws).map withoutPayloads := by
  unfold ofWire WireRelation.decodeAll
  rw [mapM_map_eq_map WireRelation.decode_withoutProfile]
  cases ws.mapM WireRelation.decode with
  | error e => rfl
  | ok rs => exact ofRelations_withoutPayload rs

end DesiredSet

/-- The declaration without what its relations say. -/
def Declaration.withoutPayloads (d : Declaration) : Declaration :=
  ⟨d.owner, d.desired.withoutPayloads⟩

namespace WireDeclaration

/-- The declaration as it would be written without profiles. -/
def withoutProfiles (w : WireDeclaration) : WireDeclaration :=
  ⟨w.owner, w.relations.map WireRelation.withoutProfile⟩

theorem decode_withoutProfiles (w : WireDeclaration) :
    w.withoutProfiles.decode = w.decode.map Declaration.withoutPayloads := by
  unfold decode withoutProfiles
  dsimp only
  split
  · rfl
  · rw [DesiredSet.ofWire_withoutProfile]
    cases DesiredSet.ofWire w.relations <;> rfl

end WireDeclaration

/-! ### The entries -/

namespace WireRelation

variable {ws : List WireRelation} {rs : List Relation}

theorem decodeAll_eq_ok_iff : decodeAll ws = .ok rs ↔ List.Forall₂ Denotes ws rs := by
  simp only [decodeAll, mapM_eq_ok_iff, decode_eq_ok_iff_denotes]

/-- A list of relations is refused for the first priority in it that is. -/
theorem decodeAll_eq_error_iff {e : RelationError} :
    decodeAll ws = .error e ↔
      ∃ before entry after value, ws = before ++ entry :: after ∧ (∀ b ∈ before, b.HasPriority) ∧
        entry.priority = some value ∧ ¬entry.HasPriority ∧
        e = .invalidPriority ⟨entry.id⟩ value := by
  simp only [decodeAll, mapM_eq_error_iff, decode_eq_error_iff, ← hasPriority_iff]
  constructor
  · rintro ⟨before, entry, after, hsplit, hbefore, value, hentry⟩
    exact ⟨before, entry, after, value, hsplit, hbefore, hentry⟩
  · rintro ⟨before, entry, after, value, hsplit, hbefore, hentry⟩
    exact ⟨before, entry, after, hsplit, hbefore, value, hentry⟩

theorem exists_denotes (h : ∀ w ∈ ws, w.HasPriority) : ∃ rs, List.Forall₂ Denotes ws rs := by
  induction ws with
  | nil => exact ⟨[], .nil⟩
  | cons w ws ih =>
    obtain ⟨p, hp⟩ := h w List.mem_cons_self
    obtain ⟨rs, hrs⟩ := ih fun v hv => h v (List.mem_cons_of_mem _ hv)
    exact ⟨_, .cons (b := ⟨⟨w.id⟩, p, readProfile w.profile⟩) ⟨rfl, hp, rfl⟩ hrs⟩

theorem hasPriority_of_denotes (h : List.Forall₂ Denotes ws rs) : ∀ w ∈ ws, w.HasPriority := by
  induction h with
  | nil => exact nofun
  | cons hw _ ih => exact List.forall_mem_cons.2 ⟨⟨_, hw.priority⟩, ih⟩

theorem targets_of_denotes (h : List.Forall₂ Denotes ws rs) :
    Relation.targets rs = ws.map fun w => ⟨w.id⟩ := by
  induction h with
  | nil => rfl
  | cons hw _ ih => rw [Relation.targets_cons, List.map_cons, ih, hw.target]

end WireRelation

/-! ### The verdict -/

namespace WireDeclaration

open WireRelation (Denotes decodeAll)

/-- The targets that the entries name, in the order of the file. -/
def targets (w : WireDeclaration) : List TargetId := w.relations.map fun e => ⟨e.id⟩

/-- The entry at an index names no target, or one that an earlier entry names. -/
def Clashes (w : WireDeclaration) (i : Nat) : Prop :=
  ∃ id, w.targets[i]? = some id ∧ (id.text = "" ∨ id ∈ w.targets.take i)

/-- What is said of a declaration that was read. -/
inductive Verdict (w : WireDeclaration) : Except DeclarationError Declaration → Prop
  | missingOwner (blank : Text.trim w.owner.toList = []) : w.Verdict (.error .missingOwner)
  | invalidPriority {before after : List WireRelation} {entry : WireRelation} {value : Json}
    (owned : Text.trim w.owner.toList ≠ [])
    (here : w.relations = before ++ entry :: after) (written : entry.priority = some value)
    (malformed : ¬entry.HasPriority) (first : ∀ e ∈ before, e.HasPriority) :
    w.Verdict (.error (.relation (.invalidPriority ⟨entry.id⟩ value)))
  | missingTarget {i : Nat} {id : TargetId}
    (owned : Text.trim w.owner.toList ≠ []) (priorities : ∀ e ∈ w.relations, e.HasPriority)
    (clashes : w.Clashes i) (first : ∀ j < i, ¬w.Clashes j)
    (here : w.targets[i]? = some id) (empty : id.text = "") :
    w.Verdict (.error (.relation (.missingTarget i)))
  | duplicateTarget {i : Nat} {id : TargetId}
    (owned : Text.trim w.owner.toList ≠ []) (priorities : ∀ e ∈ w.relations, e.HasPriority)
    (clashes : w.Clashes i) (first : ∀ j < i, ¬w.Clashes j)
    (here : w.targets[i]? = some id) (named : id.text ≠ "") :
    w.Verdict (.error (.relation (.duplicateTarget id)))
  | accepted {d : Declaration}
    (owned : Text.trim w.owner.toList ≠ [])
    (named : ∀ id ∈ w.targets, id.text ≠ "") (distinct : w.targets.Nodup)
    (owner : d.owner = ⟨w.owner⟩)
    (relations : List.Forall₂ Denotes w.relations d.desired.relations) :
    w.Verdict (.ok d)

variable {w : WireDeclaration} {rs : List Relation}

theorem isBlankText_owner_iff :
    Text.isBlankText w.owner = true ↔ Text.trim w.owner.toList = [] := by
  rw [Text.isBlankText, List.all_eq_true, Text.trim_eq_nil_iff]

theorem decode_of_owned (h : Text.trim w.owner.toList ≠ []) :
    w.decode =
      ((DesiredSet.ofWire w.relations).map fun set => ⟨⟨w.owner⟩, set⟩).mapError .relation := by
  rw [decode, if_neg (isBlankText_owner_iff.not.2 h)]
  cases DesiredSet.ofWire w.relations <;> rfl

theorem ofWire_of_denotes (h : List.Forall₂ Denotes w.relations rs) :
    DesiredSet.ofWire w.relations = DesiredSet.ofRelations rs := by
  rw [DesiredSet.ofWire, WireRelation.decodeAll_eq_ok_iff.2 h]
  rfl

/-- The relations clash where the entries do. -/
theorem clashesAt_iff (h : List.Forall₂ Denotes w.relations rs) (i : Nat) :
    TargetId.ClashesAt [] (Relation.targets rs) i ↔ w.Clashes i := by
  have htargets : Relation.targets rs = w.targets := WireRelation.targets_of_denotes h
  simp only [htargets, TargetId.ClashesAt, Clashes, List.not_mem_nil, false_or]

/-- Entries with priorities are refused for the least index that clashes. -/
theorem decode_of_clash (howned : Text.trim w.owner.toList ≠ [])
    (hpriorities : ∀ e ∈ w.relations, e.HasPriority) {i : Nat} {id : TargetId}
    (hclashes : w.Clashes i) (hfirst : ∀ j < i, ¬w.Clashes j) (hid : w.targets[i]? = some id) :
    w.decode = .error (.relation (DesiredSet.clashError i id)) := by
  obtain ⟨rs, hrs⟩ := WireRelation.exists_denotes hpriorities
  have hfault : DesiredSet.firstFault 0 [] rs = some (DesiredSet.clashError i id) := by
    refine DesiredSet.firstFault_eq_some_iff.2
      ⟨i, id, ?_, (clashesAt_iff hrs i).2 hclashes, fun j hj => ?_, ?_⟩
    · rw [WireRelation.targets_of_denotes hrs]
      exact hid
    · exact (clashesAt_iff hrs j).not.2 (hfirst j hj)
    · rw [Nat.zero_add]
  rw [decode_of_owned howned, ofWire_of_denotes hrs, DesiredSet.ofRelations_eq_error_iff.2 hfault]
  rfl

theorem decode_of_verdict {result : Except DeclarationError Declaration} (h : w.Verdict result) :
    w.decode = result := by
  -- the checks are made in the order of the constructors, and each verdict says what passed
  cases h with
  | missingOwner blank => exact if_pos (isBlankText_owner_iff.2 blank)
  | invalidPriority owned here written malformed first =>
    have hrefused : decodeAll w.relations = _ :=
      WireRelation.decodeAll_eq_error_iff.2 ⟨_, _, _, _, here, first, written, malformed, rfl⟩
    rw [decode_of_owned owned, DesiredSet.ofWire, hrefused]
    rfl
  | missingTarget owned priorities clashes first here empty =>
    rw [decode_of_clash owned priorities clashes first here, DesiredSet.clashError, if_pos empty]
  | duplicateTarget owned priorities clashes first here named =>
    rw [decode_of_clash owned priorities clashes first here, DesiredSet.clashError, if_neg named]
  | accepted owned named distinct owner relations =>
    rename_i d
    obtain ⟨o, set⟩ := d
    obtain rfl : o = ⟨w.owner⟩ := owner
    rw [decode_of_owned owned, ofWire_of_denotes relations, DesiredSet.ofRelations_relations]
    rfl

theorem verdict_decode (w : WireDeclaration) : w.Verdict w.decode := by
  by_cases howned : Text.trim w.owner.toList = []
  · have hdecode : w.decode = .error .missingOwner := if_pos (isBlankText_owner_iff.2 howned)
    rw [hdecode]
    exact .missingOwner howned
  rw [decode_of_owned howned]
  -- priorities are read before targets are looked at
  cases hall : decodeAll w.relations with
  | error e =>
    obtain ⟨before, entry, after, value, hsplit, hbefore, hvalue, hentry, rfl⟩ :=
      WireRelation.decodeAll_eq_error_iff.1 hall
    rw [DesiredSet.ofWire, hall]
    exact .invalidPriority howned hsplit hvalue hentry hbefore
  | ok rs =>
    have hrs : List.Forall₂ Denotes w.relations rs := WireRelation.decodeAll_eq_ok_iff.1 hall
    have htargets : Relation.targets rs = w.targets := WireRelation.targets_of_denotes hrs
    have hpriorities := WireRelation.hasPriority_of_denotes hrs
    rw [ofWire_of_denotes hrs]
    cases hset : DesiredSet.ofRelations rs with
    | error e =>
      obtain ⟨i, id, hid, hclash, hfirst, rfl⟩ :=
        DesiredSet.firstFault_eq_some_iff.1 (DesiredSet.ofRelations_eq_error_iff.1 hset)
      rw [htargets] at hid
      have hclashes := (clashesAt_iff hrs i).1 hclash
      have hleast : ∀ j < i, ¬w.Clashes j := fun j hj => (clashesAt_iff hrs j).not.1 (hfirst j hj)
      rw [Nat.zero_add, DesiredSet.clashError]
      -- an empty target is refused before a repeated one
      split
      · rename_i hempty
        exact .missingTarget howned hpriorities hclashes hleast hid hempty
      · rename_i hnamed
        exact .duplicateTarget howned hpriorities hclashes hleast hid hnamed
    | ok set =>
      obtain rfl := DesiredSet.ofRelations_eq_ok_iff.1 hset
      refine .accepted howned ?_ (htargets ▸ set.distinct) rfl hrs
      rw [← htargets]
      exact List.forall_mem_map.2 set.named

/-- **What is said of a declaration.**  A blank owner is refused first, then the first priority that
is malformed, and then the first entry that names no target or one that was named before.  Every
other declaration is accepted, with its owner and with one relation for each entry in order.
Profiles have no part in the verdict. -/
theorem decode_exact (w : WireDeclaration) :
    (∀ result, w.decode = result ↔ w.Verdict result) ∧
      w.withoutProfiles.decode = w.decode.map Declaration.withoutPayloads := by
  refine ⟨fun result => ⟨fun h => ?_, decode_of_verdict⟩, decode_withoutProfiles w⟩
  rw [← h]
  exact verdict_decode w

/-- A malformed priority is refused before an empty id in front of it. -/
example : decode ⟨"app", [⟨"", none, none⟩, ⟨"a", some (.bool true), none⟩]⟩ =
    .error (.relation (.invalidPriority ⟨"a"⟩ (.bool true))) := rfl

end WireDeclaration

end Roster
