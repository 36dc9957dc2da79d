/-
Which fields an owner is shown, cycle after cycle.

A view is built from the view before it, so the fields of a declared target are settled when it is
first observed: by its entry in the view that was there already, or by its declaration if there is
none.  From then on every confirmed value that is not null takes the place of the one before it, and
what is declared later counts for nothing.

* `find?_view_of`: how a declared target stands in a view, and `nodup_targets_view`: that it stands
  there once;
* `get?_foldl_refreshedFrom`: refreshing again and again keeps the last value that is not null;
* `payload_viewAfter`: the payload of a declared target after any cycles;
* `viewAfter_tracks`: its fields and their values.
-/
import Roster.Proofs.RelationLists

namespace Roster

open Roster.Relation

namespace Payload

/-- The value that a payload confirms for a field: none if it lacks the field or has a null
there. -/
def confirmedValue? (name : String) (c : Payload) : Option Json :=
  (c.get? name).filter fun value => !value.isNull

/-- The values that some payloads confirm for a field, in order. -/
def confirmedValues (name : String) (confirmed : List Payload) : List Json :=
  confirmed.filterMap (confirmedValue? name)

theorem refreshedValue_eq (c : Payload) (name : String) (value : Json) :
    refreshedValue c name value = (c.confirmedValue? name).getD value := by
  rw [refreshedValue, confirmedValue?]
  cases c.get? name with
  | none => rfl
  | some new => cases hn : new.isNull <;> simp [Option.filter, hn]

theorem names_foldl_refreshedFrom (p : Payload) (confirmed : List Payload) :
    (confirmed.foldl refreshedFrom p).names = p.names := by
  induction confirmed generalizing p with
  | nil => rfl
  | cons c cs ih => rw [List.foldl_cons, ih, names_refreshedFrom]

/-- Of the values that were confirmed for a field the last one counts, and the first value if there
is none. -/
theorem get?_foldl_refreshedFrom (p : Payload) (confirmed : List Payload) (name : String) :
    (confirmed.foldl refreshedFrom p).get? name =
      (p.get? name).map fun value => (confirmedValues name confirmed).getLast?.getD value := by
  induction confirmed generalizing p with
  | nil => simp [confirmedValues]
  | cons c cs ih =>
    rw [List.foldl_cons, ih, get?_refreshedFrom, Option.map_map]
    congr 1
    funext value
    rw [Function.comp_apply, refreshedValue_eq]
    cases h : c.confirmedValue? name with
    | none => rw [confirmedValues, confirmedValues, List.filterMap_cons_none h, Option.getD_none]
    | some new =>
      -- a later value, if there is one, is the last one all the same
      rw [confirmedValues, confirmedValues, List.filterMap_cons_some h, List.getLast?_cons,
        Option.getD_some, Option.getD_some]

end Payload

namespace Observation

variable {desired : DesiredSet} {actual : List Relation} {id : TargetId} {d c : Relation}

/-- The first relation to a target in the declared part is the first declared one, if the remote has
it. -/
theorem find?_declaredPart (desired : DesiredSet) (prior actual : List Relation) (id : TargetId) :
    Relation.find? id (declaredPart desired prior actual) =
      (Relation.find? id desired.relations).bind fun d =>
        (Relation.find? d.target actual).map (shown prior d) := by
  unfold declaredPart
  induction desired.relations with
  | nil => rfl
  | cons d ds ih =>
    rw [List.filterMap_cons, find?_cons]
    cases hc : Relation.find? d.target actual with
    | none =>
      rw [Option.map_none, ih]
      split
      · -- what the remote does not have is not found further down either
        rename_i hd
        rw [Option.bind_some, hc, Option.map_none]
        cases hf : Relation.find? id ds with
        | none => rfl
        | some e =>
          obtain ⟨he, -⟩ := Relation.find?_eq_some hf
          rw [Option.bind_some, he, ← hd, hc, Option.map_none]
      · rfl
    | some c =>
      have ht : (shown prior d c).target = d.target := (Relation.find?_eq_some hc).1
      rw [Option.map_some, find?_cons, ht, ih]
      split
      · rw [Option.bind_some, hc, Option.map_some]
      · rfl

/-- A declared target that the remote has stands in the view as it is shown. -/
theorem find?_view_of (prior : List Relation) (hd : Relation.find? id desired.relations = some d)
    (hc : Relation.find? id actual = some c) :
    Relation.find? id (of desired prior actual).view = some (shown prior d c) := by
  have hp : Relation.find? id (declaredPart desired prior actual) = some (shown prior d c) := by
    rw [find?_declaredPart, hd, Option.bind_some, (Relation.find?_eq_some hd).1, hc,
      Option.map_some]
  rw [Relation.find?] at hp
  rw [of_eq, Relation.find?, List.find?_append, hp, Option.some_or]

/-- No target stands in a view twice, however often the remote lists it. -/
theorem nodup_targets_view (desired : DesiredSet) (prior actual : List Relation) :
    (targets (of desired prior actual).view).Nodup := by
  rw [of_eq, targets_append, targets_declaredPart]
  refine List.nodup_append.2 ⟨desired.distinct.filter _, nodup_targets_firsts _ _, ?_⟩
  rintro id hd _ hu rfl
  exact (mem_targets_firsts_iff.1 hu).2 (List.mem_filter.1 hd).1

end Observation

/-- Cycles of an owner: what was declared in each and what the remote held then. -/
abbrev Cycles := List (DesiredSet × List Relation)

namespace Cycles

/-- The view after some cycles, each of which is shown the view before it. -/
def viewAfter (first : List Relation) (cycles : Cycles) : List Relation :=
  cycles.foldl (fun prior c => (Observation.of c.1 prior c.2).view) first

/-- The payloads that the remote held for a target, cycle after cycle. -/
def confirmed (id : TargetId) (cycles : Cycles) : List Payload :=
  cycles.filterMap fun c => (find? id c.2).map (·.payload)

/-- The payload that settles which fields of a target are shown: that of its first entry in the view
at the start, or else the one that is declared first. -/
def initial? (first : List Relation) (desired : DesiredSet) (id : TargetId) : Option Payload :=
  ((find? id first).or (desired.find? id)).map (·.payload)

variable {first : List Relation} {cycle : DesiredSet × List Relation} {cycles : Cycles}
  {id : TargetId}

theorem confirmed_cons {a : Relation} (h : find? id cycle.2 = some a) :
    confirmed id (cycle :: cycles) = a.payload :: confirmed id cycles := by
  rw [confirmed, List.filterMap_cons_some (by rw [h, Option.map_some]), confirmed]

theorem exists_find? {relations : List Relation} (h : id ∈ targets relations) :
    ∃ r, find? id relations = some r :=
  Option.ne_none_iff_exists'.1 fun hn => find?_eq_none_iff.1 hn h

/-- A target with an entry keeps it through every cycle that declares it and finds it on the remote,
and the entry is refreshed each time. -/
theorem payload_of_entry {seen : Relation} (entry : find? id first = some seen)
    (declared : ∀ c ∈ cycles, id ∈ c.1.targets) (present : ∀ c ∈ cycles, id ∈ targets c.2) :
    ∃ r, find? id (viewAfter first cycles) = some r ∧
      r.payload = (confirmed id cycles).foldl Payload.refreshedFrom seen.payload := by
  induction cycles generalizing first seen with
  | nil => exact ⟨seen, entry, rfl⟩
  | cons c cs ih =>
    obtain ⟨d, hd⟩ := exists_find? (declared c List.mem_cons_self)
    obtain ⟨a, ha⟩ := exists_find? (present c List.mem_cons_self)
    obtain ⟨r, hr, hp⟩ := ih (Observation.find?_view_of first hd ha)
      (fun c hc => declared c (List.mem_cons_of_mem _ hc))
      (fun c hc => present c (List.mem_cons_of_mem _ hc))
    refine ⟨r, hr, hp.trans ?_⟩
    -- the entry is what is tracked, whatever is declared now
    have htracked : Observation.tracked first d = seen.payload := by
      rw [Observation.tracked, (find?_eq_some hd).1, entry]
    rw [confirmed_cons ha, List.foldl_cons, Observation.shown, htracked]

/-- The payload of a target after cycles that declare it and find it on the remote. -/
theorem payload_viewAfter (first : List Relation)
    (declared : ∀ c ∈ cycle :: cycles, id ∈ c.1.targets)
    (present : ∀ c ∈ cycle :: cycles, id ∈ targets c.2) :
    ∃ r p, find? id (viewAfter first (cycle :: cycles)) = some r ∧
    initial? first cycle.1 id = some p ∧
      r.payload = (confirmed id (cycle :: cycles)).foldl Payload.refreshedFrom p := by
  obtain ⟨d, hd⟩ := exists_find? (declared cycle List.mem_cons_self)
  obtain ⟨a, ha⟩ := exists_find? (present cycle List.mem_cons_self)
  obtain ⟨r, hr, hp⟩ := payload_of_entry (Observation.find?_view_of first hd ha)
    (fun c hc => declared c (List.mem_cons_of_mem _ hc))
    (fun c hc => present c (List.mem_cons_of_mem _ hc))
  refine ⟨r, Observation.tracked first d, hr, ?_, hp.trans ?_⟩
  · rw [initial?, Observation.tracked, (find?_eq_some hd).1, DesiredSet.find?, hd]
    cases find? id first <;> rfl
  · rw [confirmed_cons ha, List.foldl_cons, Observation.shown]

theorem nodup_targets_viewAfter (first : List Relation) (cycle : DesiredSet × List Relation)
    (cycles : Cycles) : (targets (viewAfter first (cycle :: cycles))).Nodup := by
  -- the last cycle built the view
  rcases List.eq_nil_or_concat (cycle :: cycles) with h | ⟨before, last, h⟩
  · cases h
  · rw [viewAfter, h, List.concat_eq_append, List.foldl_append]
    exact Observation.nodup_targets_view _ _ _

end Cycles

open Cycles (viewAfter confirmed initial?)

/-- **Fields are tracked over any number of cycles.**  A target that every cycle declares and finds
on the remote stands in the view once, with the fields of its first entry in the view at the start,
or else of its first declaration.  Each of them has the last value, nulls excepted, that the remote
held for it in any of the cycles, or else its value at the start. -/
theorem viewAfter_tracks (first : List Relation) {cycle : DesiredSet × List Relation}
    {cycles : Cycles} {id : TargetId} (declared : ∀ c ∈ cycle :: cycles, id ∈ c.1.targets)
    (present : ∀ c ∈ cycle :: cycles, id ∈ targets c.2) :
    ∃ r p, find? id (viewAfter first (cycle :: cycles)) = some r ∧
      (∀ e ∈ viewAfter first (cycle :: cycles), e.target = id → e = r) ∧
      initial? first cycle.1 id = some p ∧ r.payload.names = p.names ∧
      ∀ name, r.payload.get? name = (p.get? name).map fun value =>
        (Payload.confirmedValues name (confirmed id (cycle :: cycles))).getLast?.getD value := by
  obtain ⟨r, p, hr, hp, hpayload⟩ := Cycles.payload_viewAfter first declared present
  refine ⟨r, p, hr, fun e he ht => ?_, hp, ?_, fun name => ?_⟩
  · obtain ⟨htr, hmr⟩ := find?_eq_some hr
    exact List.inj_on_of_nodup_map (Cycles.nodup_targets_viewAfter first cycle cycles) he hmr
      (ht.trans htr.symm)
  · rw [hpayload, Payload.names_foldl_refreshedFrom]
  · rw [hpayload, Payload.get?_foldl_refreshedFrom]

/-- Two cycles of a target that was shown before it was declared.  Both cycles declare other fields
for it. -/
def trackedCycles : Cycles :=
  [(⟨[⟨⟨"a"⟩, .unset, .ofList [("extra", .null)]⟩], by decide, by decide⟩,
      [.bare ⟨"b"⟩,
        ⟨⟨"a"⟩, .unset, .ofList [("role", .null), ("note", .string "n"), ("extra", .bool true)]⟩]),
    (⟨[.bare ⟨"a"⟩], by decide, by decide⟩,
      [⟨⟨"a"⟩, .explicit 1, .ofList [("role", .string "admin")]⟩])]

/-- The view before them. -/
def trackedFirst : List Relation :=
  [⟨⟨"a"⟩, .unset, .ofList [("role", .string "owner"), ("note", .null)]⟩]

theorem viewAfter_tracks_sample :
    ∃ r, find? ⟨"a"⟩ (viewAfter trackedFirst trackedCycles) = some r ∧
    r.payload.names = ["note", "role"] ∧
      r.payload.get? "note" = some (.string "n") ∧
      r.payload.get? "role" = some (.string "admin") := by
  have declared : ∀ c ∈ trackedCycles, ⟨"a"⟩ ∈ c.1.targets := by decide
  have present : ∀ c ∈ trackedCycles, ⟨"a"⟩ ∈ targets c.2 := by decide
  obtain ⟨r, p, hr, -, hp, hnames, hvalues⟩ := viewAfter_tracks trackedFirst declared present
  obtain rfl : .ofList [("role", .string "owner"), ("note", .null)] = p := Option.some.inj hp
  exact ⟨r, hr, hnames.trans rfl, (hvalues "note").trans rfl, (hvalues "role").trans rfl⟩

end Roster
