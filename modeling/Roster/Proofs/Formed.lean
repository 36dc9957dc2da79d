/-
Relations are formed.

The relations that are read, from a declaration or from the file of a state, are formed: their
priorities fit 64 bits, and their payloads are such as readers make them.  A remote in memory keeps
formed what it is sent, and what is shown of formed relations is formed.

* `formed_of_decode`: a relation that is read from its written form;
* `Declaration.formed_of_parse`, `StoredState.formed_of_load`: declarations and states;
* `Observation.formed_of`: what is shown of a listing;
* `MemoryRemote.Formed.reconcile`: what a cycle leaves on the remote and shows.
-/
import Roster.Proofs.Convergence
import Roster.Proofs.Priorities
import Roster.Proofs.StateText
import Roster.Proofs.Yaml.Made
import Roster.Run

namespace Roster

open Json (All)

/-! ### Relations that are read -/

theorem Payload.formed_of_ofJson {j : Json} {p : Payload} (h : All Json.Formed j)
    (hp : ofJson? j = some p) : All Json.Formed p.toJson := by
  cases j with
  | object fields =>
    obtain rfl := Option.some.inj hp
    exact Json.formed_ofFields (Json.allFields_iff.1 h.2)
  | null | bool | number | string | array => cases hp

theorem Payload.formed_empty : All Json.Formed Payload.empty.toJson := ⟨List.Pairwise.nil, trivial⟩

namespace WireRelation

/-- Whether a profile, if there is one, is such as readers make it. -/
def FormedProfile (w : WireRelation) : Prop := ∀ j ∈ w.profile, All Json.Formed j

theorem formed_of_ofJsonD {j : Json} (h : All Json.Formed j) :
    All Json.Formed ((Payload.ofJson? j).getD .empty).toJson := by
  cases hp : Payload.ofJson? j with
  | none => exact Payload.formed_empty
  | some p => exact Payload.formed_of_ofJson h hp

theorem formed_readProfile {profile : Option Json} (h : ∀ j ∈ profile, All Json.Formed j) :
    All Json.Formed (readProfile profile).toJson := by
  unfold readProfile
  split
  · split
    · rename_i j hj
      exact formed_of_ofJsonD (Json.formed_of_parse hj)
    · exact Payload.formed_empty
  · exact formed_of_ofJsonD (h _ rfl)
  · exact Payload.formed_empty

theorem fits_of_decode {w : WireRelation} {r : Relation} (h : w.decode = .ok r) : Fits r := by
  intro n hn
  exact (hn ▸ (decode_eq_ok_iff_denotes.1 h).priority).isInt64

theorem fits_of_decodeAll {ws : List WireRelation} {rs : List Relation}
    (h : decodeAll ws = .ok rs) :
    ∀ r ∈ rs, Fits r := by
  intro r hr
  obtain ⟨w, -, hw⟩ := exists_of_mapM_eq_ok h hr
  exact fits_of_decode hw

theorem formed_of_decode {w : WireRelation} {r : Relation} (hw : w.FormedProfile)
    (h : w.decode = .ok r) :
    Formed r := by
  refine ⟨fits_of_decode h, ?_⟩
  rw [(decode_eq_ok_iff_denotes.1 h).payload]
  exact formed_readProfile hw

theorem gives_decoder (levels : Nat) (cs : List Char) :
    (decoder levels cs).Gives FormedProfile := by
  have hv : ∀ levels cs, (Json.optional Json.readValue levels cs).Gives fun o => ∀ j ∈ o,
      All Json.Formed j :=
    fun levels cs => Json.gives_optional (Json.gives_value levels) cs
  have ht : ∀ levels cs, (Json.text levels cs).Gives fun _ => True := fun _ _ => Json.gives_true _
  let P : Draft → Prop := fun s => ∀ o ∈ s.profile, ∀ j ∈ o, All Json.Formed j
  have hparts : ∀ part ∈ parts, ∀ s levels cs, P s → (part.decoder s levels cs).Gives P := by
    intro part hpart s levels cs hs
    simp only [parts, List.mem_cons, List.not_mem_nil, or_false] at hpart
    -- only the profile has to be formed, and the other parts leave it alone
    rcases hpart with rfl | rfl | rfl
    · refine Json.gives_part ht ?_ hs levels cs
      exact fun _ _ _ h => h
    · refine Json.gives_part hv ?_ hs levels cs
      exact fun _ _ _ h => h
    · refine Json.gives_part hv (fun a s ha _ => ?_) hs levels cs
      rintro _ ⟨⟩
      exact ha
  have hstart : P ⟨none, none, none⟩ := fun o ho => by cases ho
  refine Json.gives_record hparts hstart (fun s w hs hw => ?_) levels cs
  obtain ⟨id, -, rfl⟩ := Option.map_eq_some_iff.1 hw
  intro j hj
  obtain ⟨o, ho, hj⟩ : ∃ o, s.profile = some o ∧ o = some j := by
    cases hp : s.profile with
    | none => simp [hp] at hj
    | some o => exact ⟨o, rfl, by simpa [hp] using hj⟩
  exact hs o ho j hj

theorem gives_relationDecoder (levels : Nat) (cs : List Char) :
    (relationDecoder levels cs).Gives Formed := by
  refine Json.gives_checked (gives_decoder levels) (fun w r hw hr => ?_) cs
  cases hd : w.decode with
  | error e =>
    rw [hd] at hr
    cases hr
  | ok s =>
    rw [hd] at hr
    obtain rfl := Option.some.inj hr
    exact formed_of_decode hw hd

theorem formed_of_decodeAll {ws : List WireRelation} {rs : List Relation}
    (hw : ∀ w ∈ ws, w.FormedProfile) (h : decodeAll ws = .ok rs) : ∀ r ∈ rs, Formed r := by
  intro r hr
  obtain ⟨w, hmem, hd⟩ := exists_of_mapM_eq_ok h hr
  exact formed_of_decode (hw w hmem) hd

end WireRelation

/-! ### Declarations and states -/

namespace WireDeclaration

theorem gives_relationDecoder (d : Yaml.Document) (levels : Nat) (n : Yaml.Node) :
    Yaml.Gives (relationDecoder d levels n) WireRelation.FormedProfile := by
  have hv : ∀ levels n, Yaml.Gives (Yaml.optional Yaml.value d levels n) fun o => ∀ j ∈ o,
      All Json.Formed j :=
    Yaml.gives_optional (Yaml.gives_value d)
  refine Yaml.gives_members (fun ms levels => ?_) levels n
  refine Yaml.gives_then fun id => Yaml.gives_then fun priority => ?_
  refine Yaml.gives_bind (Yaml.gives_defaulted hv (by simp) "profile" ms levels)
    fun profile hp => ?_
  exact Yaml.gives_pure hp

theorem gives_decoder (d : Yaml.Document) (levels : Nat) (n : Yaml.Node) :
    Yaml.Gives (decoder d levels n) fun w => ∀ r ∈ w.relations, r.FormedProfile := by
  refine Yaml.gives_members (fun ms levels => Yaml.gives_then fun owner => ?_) levels n
  have hr := Yaml.gives_list (gives_relationDecoder d)
  refine Yaml.gives_bind (Yaml.gives_defaulted hr (by simp) "relations" ms levels)
    fun relations h => ?_
  exact Yaml.gives_pure h

end WireDeclaration

/-- The relations of a declaration that is read are formed. -/
theorem Declaration.formed_of_parse {text : String} {d : Declaration} (h : parse text = .ok d) :
    ∀ r ∈ d.desired.relations, WireRelation.Formed r := by
  unfold parse parseAt at h
  split at h
  · rename_i w hw
    have hf : ∀ r ∈ w.relations, r.FormedProfile := Yaml.of_read? WireDeclaration.gives_decoder hw
    -- what was read is decoded if the owner is named and the set is valid
    unfold WireDeclaration.decode at h
    split at h
    · cases h
    · split at h
      · rename_i desired hd
        obtain rfl := Except.ok.inj h
        unfold DesiredSet.ofWire at hd
        cases hr : WireRelation.decodeAll w.relations with
        | error e =>
          rw [hr] at hd
          cases hd
        | ok rs =>
          rw [hr] at hd
          rw [DesiredSet.relations_of_ofRelations hd]
          exact WireRelation.formed_of_decodeAll hf hr
      · cases h
  · cases h

namespace StoredState

theorem gives_decoder (levels : Nat) (cs : List Char) :
    (decoder levels cs).Gives fun s => ∀ r ∈ s.view, WireRelation.Formed r := by
  let P : Draft → Prop := fun s => ∀ rs ∈ s.view, ∀ r ∈ rs, WireRelation.Formed r
  have hparts : ∀ part ∈ parts, ∀ s levels cs, P s → (part.decoder s levels cs).Gives P := by
    intro part hpart s levels cs hs
    simp only [parts, List.mem_cons, List.not_mem_nil, or_false] at hpart
    -- the view is the last part, and the other parts leave it alone
    rcases hpart with rfl | rfl | rfl | rfl
    · refine Json.gives_part (fun _ _ => Json.gives_true _) ?_ hs levels cs
      exact fun _ _ _ h => h
    · refine Json.gives_part (fun _ _ => Json.gives_true _) ?_ hs levels cs
      exact fun _ _ _ h => h
    · refine Json.gives_part (fun _ _ => Json.gives_true _) ?_ hs levels cs
      exact fun _ _ _ h => h
    · refine Json.gives_part (Json.gives_list WireRelation.gives_relationDecoder)
        (fun rs s hrs _ => ?_) hs
        levels cs
      rintro _ ⟨⟩
      exact hrs
  have hstart : P ⟨none, none, none, none⟩ := fun o ho => by cases ho
  refine Json.gives_record hparts hstart (fun s t hs ht => ?_) levels cs
  obtain rfl := Option.some.inj ht
  show ∀ r ∈ s.view.getD [], WireRelation.Formed r
  cases hv : s.view with
  | none => simp
  | some rs => exact hs rs hv

/-- The view that is loaded holds formed relations only. -/
theorem formed_of_load {home : Home} {owner : OwnerId} {d : Disk} {s : StoredState}
    (h : load home owner d = .ok s) : ∀ r ∈ s.view, WireRelation.Formed r := by
  unfold load at h
  split at h
  · split at h
    · cases h
    · rename_i text ht
      cases hr : read text with
      | error fault =>
        rw [hr] at h
        cases h
      | ok t =>
        have hf : ∀ r ∈ t.view, WireRelation.Formed r := Json.gives_whole (gives_decoder _) hr
        rw [hr] at h
        dsimp only at h
        split at h
        · split at h
          · obtain rfl := Except.ok.inj h
            exact hf
          · cases h
        · obtain rfl := Except.ok.inj h
          exact hf
  · obtain rfl := Except.ok.inj h
    simp [empty]

end StoredState

/-! ### What is shown -/

theorem Payload.formed_refreshedFrom {p confirmed : Payload} (hp : All Json.Formed p.toJson)
    (hc : All Json.Formed confirmed.toJson) :
    All Json.Formed (p.refreshedFrom confirmed).toJson := by
  refine ⟨(p.refreshedFrom confirmed).sorted, Json.allFields_iff.2 fun e he => ?_⟩
  obtain ⟨f, hf, rfl⟩ := List.mem_map.1 he
  have hold : All Json.Formed f.2 := Json.allFields_iff.1 hp.2 f hf
  show All Json.Formed (refreshedValue confirmed f.1 f.2)
  unfold refreshedValue
  split
  · rename_i new hn
    split
    · exact hold
    · exact Json.allFields_iff.1 hc.2 (f.1, new) (Fields.mem_of_get? hn)
  · exact hold

namespace Observation

variable {desired : DesiredSet} {prior actual : List Relation}

theorem formed_shown {declared confirmed : Relation} (hp : ∀ r ∈ prior, WireRelation.Formed r)
    (hd : WireRelation.Formed declared) (hc : WireRelation.Formed confirmed) :
    WireRelation.Formed (shown prior declared confirmed) := by
  refine ⟨fun n hn => ?_, Payload.formed_refreshedFrom ?_ hc.payload⟩
  · -- a priority that is shown is the confirmed one
    unfold shown at hn
    dsimp only at hn
    split at hn
    · exact hc.priority n hn
    · cases hn
  · unfold tracked
    split
    · rename_i seen hs
      exact (hp seen (Relation.find?_eq_some hs).2).payload
    · exact hd.payload

theorem mem_of_mem_firsts {seen : List TargetId} {relations : List Relation} {r : Relation}
    (h : r ∈ Relation.firsts seen relations) : r ∈ relations := by
  induction relations generalizing seen with
  | nil => cases h
  | cons s rest ih =>
    rw [Relation.firsts] at h
    split at h
    · exact List.mem_cons_of_mem _ (ih h)
    · rcases List.mem_cons.1 h with rfl | h
      · exact List.mem_cons_self
      · exact List.mem_cons_of_mem _ (ih h)

theorem formed_of (hd : ∀ r ∈ desired.relations, WireRelation.Formed r)
    (hp : ∀ r ∈ prior, WireRelation.Formed r) (ha : ∀ r ∈ actual, WireRelation.Formed r) :
    ∀ r ∈ (Observation.of desired prior actual).view, WireRelation.Formed r := by
  intro r hr
  rw [of_eq] at hr
  rcases List.mem_append.1 hr with hr | hr
  · obtain ⟨declared, hm, hr⟩ := List.mem_filterMap.1 hr
    obtain ⟨confirmed, hf, rfl⟩ := Option.map_eq_some_iff.1 hr
    exact formed_shown hp (hd declared hm) (ha confirmed (Relation.find?_eq_some hf).2)
  · exact ha r (mem_of_mem_firsts hr)

end Observation

/-! ### What a remote keeps -/

namespace MemoryRemote

variable {m n : MemoryRemote} {owner : OwnerId} {relations before after : List Relation}

/-- Whether every pin fits 64 bits. -/
def FormedPins (m : MemoryRemote) : Prop :=
  ∀ id value, m.pinned id = some value → Number.IsInt64 value

theorem formed_stored (hm : m.FormedPins) {r : Relation} (hr : WireRelation.Formed r) :
    WireRelation.Formed (m.stored r) := by
  unfold stored
  split
  · rename_i value hv
    refine ⟨fun n hn => ?_, hr.payload⟩
    obtain rfl := Priority.explicit.inj hn
    exact hm _ _ hv
  · exact hr

theorem length_putFirst (r : Relation) (relations : List Relation) :
    relations.length ≤ (putFirst r relations).length := by
  induction relations with
  | nil => exact Nat.zero_le _
  | cons s rest ih =>
    rw [putFirst]
    split
    · exact Nat.le_refl _
    · exact Nat.succ_le_succ ih

theorem length_ranking (m : MemoryRemote) (owner : OwnerId) (relations : List Relation) :
    (m.ranking owner relations).length ≤ relations.length := by
  rw [ranking, List.length_map, List.length_mergeSort, slots]
  refine Nat.le_trans (List.length_filterMap_le _ _) ?_
  rw [List.length_zipIdx]

/-- Renumbered priorities fit 64 bits as long as the list has room. -/
theorem formed_compacted (hr : ∀ r ∈ relations, WireRelation.Formed r)
    (room : relations.length < 0x8000000000000000) :
    ∀ r ∈ m.compacted owner relations, WireRelation.Formed r := by
  intro r hm
  obtain ⟨i, hi, rfl⟩ := List.mem_mapIdx.1 hm
  have hf := hr _ (List.getElem_mem hi)
  unfold renumber
  split
  · rename_i rank hrank
    refine ⟨fun n hn => ?_, hf.payload⟩
    obtain rfl := Priority.explicit.inj hn
    -- a rank is less than the length of the list
    obtain ⟨hlt, -⟩ := List.idxOf?_eq_some_iff.1 hrank
    have := length_ranking m owner relations
    unfold Number.IsInt64
    omega
  · exact hf

theorem length_relationsAfter (m : MemoryRemote) (owner : OwnerId) (r : Relation)
    (relations : List Relation) :
    (m.relationsAfter owner r relations).length = (putFirst (m.stored r) relations).length := by
  unfold relationsAfter
  split
  · rw [compacted, List.length_mapIdx]
  · rfl

theorem formed_relationsAfter (hm : m.FormedPins) {r : Relation} (hr : WireRelation.Formed r)
    (hrs : ∀ s ∈ relations, WireRelation.Formed s)
    (room : (m.relationsAfter owner r relations).length < 0x8000000000000000) :
    ∀ s ∈ m.relationsAfter owner r relations, WireRelation.Formed s := by
  have hput : ∀ s ∈ putFirst (m.stored r) relations, WireRelation.Formed s := by
    intro s hs
    rcases mem_putFirst hs with rfl | hs
    · exact formed_stored hm hr
    · exact hrs s hs
  rw [length_relationsAfter] at room
  unfold relationsAfter
  split
  · exact formed_compacted hput room
  · exact hput

/-- Sending formed relations leaves a list formed, if the list that it comes to has room. -/
theorem formed_upsertAll {ds : List Relation} {as : List Applied} (hm : m.FormedPins)
    (hd : ∀ d ∈ ds, WireRelation.Formed d) (hr : m.relations? owner = some before)
    (h : (Batch.upsertAll remote owner false ds).Yields m as n) :
    ∃ after, n.relations? owner = some after ∧ before.length ≤ after.length ∧
      (after.length < 0x8000000000000000 → (∀ r ∈ before, WireRelation.Formed r) →
        ∀ r ∈ after, WireRelation.Formed r) := by
  simp only [Batch.upsertAll, Bool.false_eq_true, if_false] at h
  induction ds generalizing m before as with
  | nil =>
    obtain ⟨-, rfl⟩ := Action.yields_mapM_nil.1 h
    exact ⟨before, hr, Nat.le_refl _, fun _ hb => hb⟩
  | cons d ds ih =>
    obtain ⟨a, k, as', ha, hk, -⟩ := Action.yields_mapM_cons.1 h
    obtain ⟨hs, hkr⟩ := relations?_upsertOne hr ha
    have hpins : k.FormedPins := by
      unfold FormedPins
      rw [hs.pinned]
      exact hm
    obtain ⟨after, hafter, hle, hformed⟩ :=
      ih hpins (fun e he => hd e (List.mem_cons_of_mem _ he)) hkr hk
    have hgrown := length_putFirst ((m.noted owner d).stored d) before
    rw [← length_relationsAfter (m.noted owner d) owner] at hgrown
    have hnoted : (m.noted owner d).FormedPins := hm
    refine ⟨after, hafter, Nat.le_trans hgrown hle, fun room hb => hformed room ?_⟩
    -- the list only grows, so there was room in it when it was renumbered
    exact formed_relationsAfter hnoted (hd d List.mem_cons_self) hb (Nat.lt_of_le_of_lt hle room)

/-- Whether all that the remote holds of an owner is formed, and so are the pins. -/
structure Formed (owner : OwnerId) (m : MemoryRemote) : Prop where
  pins : m.FormedPins
  relations : ∀ rs, m.relations? owner = some rs → ∀ r ∈ rs, WireRelation.Formed r

theorem Formed.delete (h : m.Formed owner) (target : TargetId) :
    (delete owner target m).2.Formed owner := by
  have hpins : (MemoryRemote.delete owner target m).2.FormedPins := by
    unfold FormedPins
    rw [(same_delete owner target m).pinned]
    exact h.pins
  refine ⟨hpins, fun rs hrs => ?_⟩
  unfold MemoryRemote.delete at hrs
  dsimp only at hrs
  split at hrs
  · exact h.relations rs hrs
  · exact h.relations rs hrs
  · rename_i relations _ hr
    split at hrs
    · exact h.relations rs hrs
    · rw [relations?_setRelations_self] at hrs
      obtain rfl := Option.some.inj hrs
      exact fun r hm => h.relations relations hr r (List.mem_of_mem_filter hm)

theorem Formed.deleteAll {ids : List TargetId} {as : List Applied} (h : m.Formed owner)
    (hy : (Batch.deleteAll remote owner false ids).Yields m as n) : n.Formed owner := by
  rw [← hy.state]
  refine Action.invariant_mapM (P := Formed owner) (fun id _ k hk => ?_) h
  simp only [Bool.false_eq_true, if_false, Batch.state_deleteOne]
  exact hk.delete id

/-- What a cycle leaves on the remote and shows is formed, if the list that it comes to has room. -/
theorem Formed.reconcile {previous desired : DesiredSet} {prior : List Relation}
    {r : Reconciliation} (h : m.Formed owner) (hd : ∀ d ∈ desired.relations, WireRelation.Formed d)
    (hp : ∀ s ∈ prior, WireRelation.Formed s)
    (room : ∀ rs, n.relations? owner = some rs → rs.length < 0x8000000000000000)
    (hy : (Cycle.reconcile remote owner false previous desired prior).Yields m r n) :
    ∀ s ∈ r.observation.view, WireRelation.Formed s := by
  obtain ⟨as, k, actual, ha, hl, rfl⟩ := Cycle.yields_reconcile.1 hy
  obtain ⟨hk, hn⟩ := relations?_of_list hl
  obtain ⟨ds, l, us, hdel, hup, -⟩ := Batch.yields_apply.1 ha
  have hformed := h.deleteAll hdel
  -- the upserts need the owner, so a list at the end means that it was there
  cases hr : l.relations? owner with
  | none =>
    rw [noOwner_upsertAll hr hup] at hk
    cases hk
  | some before =>
    obtain ⟨after, hafter, -, hall⟩ := formed_upsertAll hformed.pins hd hr hup
    obtain rfl : after = actual := Option.some.inj (hafter.symm.trans hk)
    exact Observation.formed_of hd hp (hall (room after hn) (hformed.relations before hr))

end MemoryRemote

end Roster
