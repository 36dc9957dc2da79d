/-
What a view holds, entry by entry.

An observation is accounted for by where things stand in the lists that it was made of: a declared
target by the first entry that the remote has for it and by the first one in the view before,
anything else by its first place in the listing.  Nothing is left open, so there is one observation
that meets the account, and it is the one that the two rounds through the declaration and through
the listing come to.

* `find?_eq_some_iff_isFirst`: a lookup finds the first entry to its target;
* `firsts_eq_newcomers`: the first relation to each target, by its place in the list;
* `Payload.Refreshes`: the fields of a payload that is shown, and `refreshes_iff`;
* `Observation.Entry`: what a view says of a declared target, and `entry_iff`;
* `observation_exact`: the whole account.
-/
import Roster.Proofs.Tracking

namespace Roster

open Roster.Relation

/-! ### First places -/

namespace Relation

variable {id : TargetId} {relations rest : List Relation} {r : Relation}

/-- The relation is the first one to the target in a list. -/
def IsFirst (id : TargetId) (relations : List Relation) (r : Relation) : Prop :=
  ∃ before after, relations = before ++ r :: after ∧ r.target = id ∧ id ∉ targets before

theorem find?_eq_some_iff_isFirst : find? id relations = some r ↔ IsFirst id relations r := by
  rw [find?, List.find?_eq_some_iff_append]
  constructor
  · rintro ⟨htarget, before, after, hsplit, hbefore⟩
    refine ⟨before, after, hsplit, by simpa using htarget, fun hid => ?_⟩
    obtain ⟨s, hs, rfl⟩ := mem_targets.1 hid
    simpa using hbefore s hs
  · rintro ⟨before, after, hsplit, rfl, hbefore⟩
    refine ⟨by simp, before, after, hsplit, fun s hs => ?_⟩
    simpa using fun he : s.target = r.target => hbefore (mem_targets.2 ⟨s, hs, he⟩)

/-- The relations of a list to targets that are neither among those given nor named earlier in the
list. -/
def newcomers (known : List TargetId) (relations : List Relation) : List Relation :=
  (relations.zipIdx.filter fun e => e.1.target ∉ known ∧
    e.1.target ∉ targets (relations.take e.2)).map Prod.fst

/-- From a place in a list on, the first relations are those to targets that are not known and do
not stand before them. -/
theorem firsts_append_eq {known seen : List TargetId} (before : List Relation)
    (hseen : ∀ id, id ∈ seen ↔ id ∈ known ∨ id ∈ targets before) :
    firsts seen rest =
      ((rest.zipIdx before.length).filter fun e =>
        e.1.target ∉ known ∧ e.1.target ∉ targets ((before ++ rest).take e.2)).map Prod.fst := by
  induction rest generalizing seen before with
  | nil => rfl
  | cons r rest ih =>
    -- what is ahead of the rest is `before` and then `r`, taken up or not
    have hsplit : before ++ r :: rest = (before ++ [r]) ++ rest := by simp
    have hhere : (before ++ r :: rest).take before.length = before := List.take_left
    rw [List.zipIdx_cons, List.filter_cons, firsts]
    simp only [hhere]
    by_cases hr : r.target ∈ seen
    · have hcond : ¬(r.target ∉ known ∧ r.target ∉ targets before) :=
        fun h => ((hseen _).1 hr).elim h.1 h.2
      have hnext : ∀ id, id ∈ seen ↔ id ∈ known ∨ id ∈ targets (before ++ [r]) := by
        intro id
        rw [targets_append, List.mem_append, ← or_assoc, ← hseen, targets_cons, targets_nil,
          List.mem_singleton]
        exact ⟨.inl, fun h => h.elim (fun hs => hs) fun he => he ▸ hr⟩
      rw [if_pos hr, if_neg (by simpa using hcond), ih (before ++ [r]) hnext, hsplit,
        List.length_append]
      rfl
    · have hcond : r.target ∉ known ∧ r.target ∉ targets before :=
        not_or.1 fun h => hr ((hseen _).2 h)
      have hnext : ∀ id, id ∈ r.target :: seen ↔ id ∈ known ∨ id ∈ targets (before ++ [r]) := by
        intro id
        rw [targets_append, List.mem_append, ← or_assoc, ← hseen, targets_cons, targets_nil,
          List.mem_singleton, List.mem_cons, or_comm]
      rw [if_neg hr, if_pos (by simpa using hcond), ih (before ++ [r]) hnext, hsplit,
        List.length_append]
      rfl

/-- Taking the first relation to each target takes those that no earlier place has taken up. -/
theorem firsts_eq_newcomers (known : List TargetId) (relations : List Relation) :
    firsts known relations = newcomers known relations :=
  firsts_append_eq [] fun id => by simp

end Relation

/-! ### Refreshed payloads -/

namespace Payload

/-- The payload has the fields of a tracked one, each with the confirmed value if there is one that
is not null, and with the tracked value otherwise. -/
structure Refreshes (tracked confirmed p : Payload) : Prop where
  names : p.names = tracked.names
  takes : ∀ name ∈ tracked.names, ∀ value, confirmed.get? name = some value → value ≠ .null →
    p.get? name = some value
  keeps : ∀ name ∈ tracked.names, confirmed.get? name = none ∨ confirmed.get? name = some .null →
    p.get? name = tracked.get? name

theorem get?_refreshedFrom_of_confirmed {tracked confirmed : Payload} {name : String} {value : Json}
    (hname : name ∈ tracked.names) (hvalue : confirmed.get? name = some value)
    (hnull : value ≠ .null) :
    (tracked.refreshedFrom confirmed).get? name = some value := by
  obtain ⟨old, hold⟩ := exists_get? hname
  have hn : value.isNull = false := by cases value <;> simp_all [Json.isNull]
  rw [get?_refreshedFrom, hold, Option.map_some, refreshedValue, hvalue]
  simp [hn]

theorem get?_refreshedFrom_of_unconfirmed {tracked confirmed : Payload} {name : String}
    (h : confirmed.get? name = none ∨ confirmed.get? name = some .null) :
    (tracked.refreshedFrom confirmed).get? name = tracked.get? name := by
  have hid : refreshedValue confirmed name = id := by
    funext value
    rcases h with h | h <;> simp [refreshedValue, h, Json.isNull]
  rw [get?_refreshedFrom, hid, Option.map_id, id]

theorem refreshes_iff {tracked confirmed p : Payload} :
    Refreshes tracked confirmed p ↔ p = tracked.refreshedFrom confirmed := by
  constructor
  · intro h
    refine eq_of_get? (h.names.trans (names_refreshedFrom tracked confirmed).symm)
      fun name hname => ?_
    rw [h.names] at hname
    -- a name has its value from the confirmed fields exactly if these have one that is not null
    cases hvalue : confirmed.get? name with
    | none =>
      rw [h.keeps name hname (.inl hvalue), get?_refreshedFrom_of_unconfirmed (.inl hvalue)]
    | some value =>
      by_cases hnull : value = .null
      · rw [hnull] at hvalue
        rw [h.keeps name hname (.inr hvalue), get?_refreshedFrom_of_unconfirmed (.inr hvalue)]
      · rw [h.takes name hname value hvalue hnull,
          get?_refreshedFrom_of_confirmed hname hvalue hnull]
  · rintro rfl
    exact ⟨names_refreshedFrom tracked confirmed,
      fun _ hname _ => get?_refreshedFrom_of_confirmed hname,
      fun _ _ => get?_refreshedFrom_of_unconfirmed⟩

end Payload

/-! ### The account of an observation -/

namespace Observation

/-- The payload that says which fields of a declared target are shown: that of its first entry in
the view before, or the declared one if it has none there. -/
inductive Tracks (prior : List Relation) (declared : Relation) : Payload → Prop
  | seen {entry : Relation} (first : IsFirst declared.target prior entry) :
      Tracks prior declared entry.payload
  | fresh (unseen : declared.target ∉ targets prior) : Tracks prior declared declared.payload

/-- The entry of a declared target that the remote confirms. -/
structure Shows (declared confirmed : Relation) (tracked : Payload) (entry : Relation) : Prop where
  target : entry.target = declared.target
  unset : declared.priority = .unset → entry.priority = .unset
  explicit : ∀ n, declared.priority = .explicit n → entry.priority = confirmed.priority
  payload : Payload.Refreshes tracked confirmed.payload entry.payload

/-- What a view says of a declared target, by the first entry that the remote has for it. -/
def Entry (prior actual : List Relation) (declared entry : Relation) : Prop :=
  ∃ confirmed tracked, IsFirst declared.target actual confirmed ∧ Tracks prior declared tracked ∧
    Shows declared confirmed tracked entry

/-- The whole account of an observation. -/
structure Exact (desired : DesiredSet) (prior actual : List Relation) (o : Observation) : Prop where
  once : (targets o.view).Nodup
  same : ∀ id, id ∈ targets o.view ↔ id ∈ targets actual
  /-- The declared targets that are listed come first, in declared order, and then the others. -/
  parts : ∃ declared, o.view = declared ++ newcomers desired.targets actual ∧
    List.Forall₂ (Entry prior actual)
      (desired.relations.filter fun d => d.target ∈ targets actual) declared
  drift : o.drift = targets (newcomers desired.targets actual)
  dropped : o.dropped = desired.targets.filter fun id => id ∉ targets actual

variable {desired : DesiredSet} {prior actual : List Relation} {declared entry : Relation}

theorem tracks_iff {p : Payload} : Tracks prior declared p ↔ p = tracked prior declared := by
  rw [tracked]
  -- the view has an entry for the target, or else the declaration is what is tracked
  cases h : Relation.find? declared.target prior with
  | none =>
    constructor
    · intro ht
      cases ht with
      | seen first => rw [← find?_eq_some_iff_isFirst, h] at first; cases first
      | fresh => rfl
    · rintro rfl
      exact .fresh (find?_eq_none_iff.1 h)
  | some seen =>
    constructor
    · intro ht
      cases ht with
      | seen first =>
        rw [← find?_eq_some_iff_isFirst, h] at first
        rw [Option.some.inj first]
      | fresh unseen => rw [find?_eq_none_iff.2 unseen] at h; cases h
    · rintro rfl
      exact .seen (find?_eq_some_iff_isFirst.1 h)

theorem shows_iff {confirmed : Relation} (h : confirmed.target = declared.target) :
    Shows declared confirmed (tracked prior declared) entry ↔
      entry = shown prior declared confirmed := by
  constructor
  · intro hs
    have hpriority : entry.priority = (shown prior declared confirmed).priority := by
      rw [shown]
      cases hd : declared.priority with
      | unset => exact hs.unset hd
      | explicit n => exact hs.explicit n hd
    have hpayload := Payload.refreshes_iff.1 hs.payload
    obtain ⟨target, priority, payload⟩ := entry
    obtain rfl : target = confirmed.target := hs.target.trans h.symm
    obtain rfl : priority = _ := hpriority
    obtain rfl : payload = _ := hpayload
    rfl
  · rintro rfl
    refine ⟨h, fun hd => ?_, fun n hd => ?_, Payload.refreshes_iff.2 rfl⟩
    · rw [shown, hd]
      rfl
    · rw [shown, hd]
      rfl

/-- The entry of a declared target is the one that is shown for it, if the remote has the target. -/
theorem entry_iff : Entry prior actual declared entry ↔
    (Relation.find? declared.target actual).map (shown prior declared) = some entry := by
  rw [Option.map_eq_some_iff]
  constructor
  · rintro ⟨confirmed, tracked, first, tracks, hshows⟩
    rw [tracks_iff.1 tracks] at hshows
    have hfind := find?_eq_some_iff_isFirst.2 first
    exact ⟨confirmed, hfind, ((shows_iff (Relation.find?_eq_some hfind).1).1 hshows).symm⟩
  · rintro ⟨confirmed, hfind, rfl⟩
    exact ⟨confirmed, _, find?_eq_some_iff_isFirst.1 hfind, tracks_iff.2 rfl,
      (shows_iff (Relation.find?_eq_some hfind).1).2 rfl⟩

/-- The entries of the declared targets that the remote has are those of the declared part. -/
theorem forall₂_entry_iff {entries : List Relation} :
    List.Forall₂ (Entry prior actual)
        (desired.relations.filter fun d => d.target ∈ targets actual) entries ↔
      entries = declaredPart desired prior actual := by
  rw [declaredPart]
  induction desired.relations generalizing entries with
  | nil => exact List.forall₂_nil_left_iff
  | cons d ds ih =>
    rw [List.filter_cons, List.filterMap_cons]
    cases hd : Relation.find? d.target actual with
    | none =>
      have hm : d.target ∉ targets actual := find?_eq_none_iff.1 hd
      rw [if_neg (by simpa using hm), ih]
      rfl
    | some confirmed =>
      have hm : d.target ∈ targets actual := mem_targets_of_find? hd
      rw [if_pos (by simpa using hm), List.forall₂_cons_left_iff]
      simp only [entry_iff, hd, Option.map_some, Option.some.injEq]
      constructor
      · rintro ⟨_, rest, rfl, hrest, rfl⟩
        rw [ih.1 hrest]
      · rintro rfl
        exact ⟨_, _, rfl, ih.2 rfl, rfl⟩

theorem mem_targets_view_of (desired : DesiredSet) (prior actual : List Relation) (id : TargetId) :
    id ∈ targets (of desired prior actual).view ↔ id ∈ targets actual := by
  rw [of_eq, targets_append, List.mem_append, targets_declaredPart, List.mem_filter, undeclaredPart,
    mem_targets_firsts_iff, decide_eq_true_eq]
  by_cases hid : id ∈ desired.targets <;> simp [hid]

end Observation

open Observation

/-- **What an observation is.**  The observation of a declaration, a view before and a listing is
the only one that meets this account: its view has each listed target once, the declared ones first
and in declared order, and then the others as they are listed first, which are the drift.  What is
dropped are the declared targets that the listing lacks. -/
theorem observation_exact (desired : DesiredSet) (prior actual : List Relation) (o : Observation) :
    o = Observation.of desired prior actual ↔ o.Exact desired prior actual := by
  constructor
  · rintro rfl
    refine ⟨nodup_targets_view desired prior actual,
      mem_targets_view_of desired prior actual, ?_, ?_, ?_⟩
    · refine ⟨declaredPart desired prior actual, ?_, forall₂_entry_iff.2 rfl⟩
      rw [of_eq, undeclaredPart, firsts_eq_newcomers]
    · rw [of_eq, undeclaredPart, firsts_eq_newcomers]
    · rw [of_eq]
  · rintro ⟨-, -, ⟨entries, hview, hentries⟩, hdrift, hdropped⟩
    obtain ⟨view, drift, dropped⟩ := o
    rw [of_eq, undeclaredPart, firsts_eq_newcomers, ← forall₂_entry_iff.1 hentries]
    exact congr (congr (congrArg Observation.mk hview) hdrift) hdropped

end Roster
