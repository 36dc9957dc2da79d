/-
A cycle that is carried out again changes nothing.

Once a cycle has brought a remote in memory to a declaration, the same declaration finds everything
in its place: what it sends is on record and on the list already, renumbering such a list leaves it
alone, and the view with its drift, taken as the one that was shown before, is shown again.

* `Payload.refreshedFrom_self`, `Observation.of_view`: observing the same list again shows the same
  view;
* `Placed`, `Steady`: relations that are in their place on the list and on record;
* `Steady.relationsAfter_eq`, `Steady.upsertAll`: the remote takes no notice when they are sent
  again;
* `steady_of_apply`: what a batch leaves in its place;
* `reconcile_steady`: a cycle after a cycle.
-/
import Roster.Proofs.Resending
import Roster.Proofs.Tracking

namespace Roster

open Roster.Relation

/-! ### Observing again -/

/-- Refreshing with the same confirmed values again changes nothing. -/
theorem Payload.refreshedFrom_self (p confirmed : Payload) :
    (p.refreshedFrom confirmed).refreshedFrom confirmed = p.refreshedFrom confirmed := by
  have hvalue : ∀ name value, refreshedValue confirmed name (refreshedValue confirmed name value) =
      refreshedValue confirmed name value := by
    intro name value
    rw [refreshedValue_eq, refreshedValue_eq]
    cases confirmed.confirmedValue? name <;> rfl
  refine Payload.ext ?_
  simp only [refreshedFrom, List.map_map]
  exact List.map_congr_left fun e _ => by rw [Function.comp_apply, hvalue]

namespace Observation

variable {desired : DesiredSet} {prior actual : List Relation} {d c : Relation}

/-- A declared relation is shown as it was shown before. -/
theorem shown_view (hd : d ∈ desired.relations) (hc : Relation.find? d.target actual = some c) :
    shown (of desired prior actual).view d c = shown prior d c := by
  have hview := find?_view_of prior (find?_of_mem desired.distinct hd) hc
  have htracked : tracked (of desired prior actual).view d = (shown prior d c).payload := by
    rw [tracked, hview]
  have hpayload : (shown (of desired prior actual).view d c).payload =
      (shown prior d c).payload := by
    rw [shown, htracked]
    exact Payload.refreshedFrom_self _ _
  rw [shown, shown, Relation.mk.injEq]
  exact ⟨rfl, rfl, hpayload⟩

/-- The view that a list comes to is shown again when the list is observed again. -/
theorem of_view (desired : DesiredSet) (prior actual : List Relation) :
    of desired (of desired prior actual).view actual = of desired prior actual := by
  have hdeclared : declaredPart desired (of desired prior actual).view actual =
      declaredPart desired prior actual := by
    refine List.filterMap_congr fun d hd => ?_
    cases hc : Relation.find? d.target actual with
    | none => rfl
    | some c => exact congrArg some (shown_view hd hc)
  rw [of_eq desired (of desired prior actual).view actual, hdeclared, ← of_eq]

end Observation

namespace MemoryRemote

variable {m n k : MemoryRemote} {owner : OwnerId} {d : Relation} {ds relations : List Relation}

/-! ### Sending again -/

/-- A relation that the remote accepts and takes no notice of: it was asked for last, and kept in
its place. -/
structure Placed (m : MemoryRemote) (owner : OwnerId) (relations : List Relation)
    (d : Relation) : Prop where
  accepted : m.failures .upsert d.target = none
  requested : m.requested owner d.target = d.priority.explicit?
  kept : find? d.target (m.outlines relations) = some (m.keeps d)

/-- A list that stays as it is when some relations are sent again. -/
structure Steady (m : MemoryRemote) (owner : OwnerId) (relations ds : List Relation) : Prop where
  list : m.relations? owner = some relations
  ranked : Ranked m owner relations
  settled : ds ≠ [] → Settled m owner relations
  placed : ∀ d ∈ ds, Placed m owner relations d

theorem Settled.congr (h : Settled m owner relations) (hrules : SameRules m n)
    (hrequests : n.requested owner = m.requested owner) : Settled n owner relations := by
  intro hc
  have hcompacted : n.compacted owner relations = m.compacted owner relations := by
    simp only [compacted, ranking, slots, hrules.pinned, hrequests]
  rw [hcompacted]
  exact h (hrules.compacting.symm.trans hc)

theorem Steady.congr (h : Steady m owner relations ds) (hs : SameSettings m n)
    (hrequests : n.requested owner = m.requested owner)
    (hlist : n.relations? owner = some relations) :
    Steady n owner relations ds where
  list := hlist
  ranked := h.ranked.congr hs.rules hrequests
  settled hds := (h.settled hds).congr hs.rules hrequests
  placed d hd := by
    obtain ⟨haccepted, hrequested, hkept⟩ := h.placed d hd
    refine ⟨by rwa [hs.failures], by rwa [hrequests], ?_⟩
    rwa [hs.rules.outlines_eq, hs.rules.keeps_eq]

/-- The request for a relation in its place is on record already. -/
theorem Placed.noted (hd : Placed m owner relations d) :
    (m.noted owner d).requested owner = m.requested owner := by
  funext id
  by_cases hid : id = d.target
  · subst hid
    exact (requested_request_self _ owner d.target _).trans hd.requested.symm
  · exact requested_request_of_ne hid _ owner _

/-- A list takes no notice of a relation in its place. -/
theorem Steady.relationsAfter_eq (h : Steady m owner relations ds) (hd : d ∈ ds) :
    (m.noted owner d).relationsAfter owner d relations = relations := by
  have hs := same_noted m owner d
  have hsame : Ranked (m.noted owner d) owner relations :=
    h.ranked.congr hs.rules (h.placed d hd).noted
  have hsettled : Settled (m.noted owner d) owner relations :=
    (h.settled (List.ne_nil_of_mem hd)).congr hs.rules (h.placed d hd).noted
  have houtlines : (m.noted owner d).outlines (putFirst ((m.noted owner d).stored d) relations) =
      (m.noted owner d).outlines relations := by
    rw [outlines_putFirst, ← keeps, hs.rules.keeps_eq, hs.rules.outlines_eq]
    refine putFirst_of_find? ?_
    rw [target_keeps]
    exact (h.placed d hd).kept
  have hafter : (m.noted owner d).outlines ((m.noted owner d).relationsAfter owner d relations) =
      (m.noted owner d).outlines relations := by
    rw [outlines_relationsAfter, ← outlines_putFirst, houtlines]
  -- both lists are settled by their outline, and it is the same
  refine eq_of_settled (.refl _) (settled_relationsAfter ?_) hsettled hafter ?_ fun _ _ _ => rfl
  · exact ranked_congr houtlines.symm hsame
  · exact ranked_congr hafter.symm hsame

/-- A relation in its place is accepted and changes nothing but the record of calls. -/
theorem Steady.upsert (h : Steady m owner relations ds) (hd : d ∈ ds) :
    ∃ n, upsert owner d m = (.ok (), n) ∧ Steady n owner relations ds ∧
      n.calls = m.calls ++ [.upsert owner d.target] := by
  refine ⟨_, upsert_of_owner (h.placed d hd).accepted h.list, ?_, rfl⟩
  rw [h.relationsAfter_eq hd]
  exact h.congr ⟨rfl, rfl, rfl⟩ (h.placed d hd).noted (relations?_setRelations_self ..)

/-- So are all of them, one after another. -/
theorem Steady.upsertAll {es : List Relation} (h : Steady m owner relations ds)
    (hes : ∀ d ∈ es, d ∈ ds) :
    ∃ n, (Batch.upsertAll remote owner false es).Yields m (es.map fun d => .upserted d.target) n ∧
      Steady n owner relations ds ∧ n.calls = m.calls ++ es.map fun d =>
        .upsert owner d.target := by
  simp only [Batch.upsertAll, Bool.false_eq_true, if_false]
  induction es generalizing m with
  | nil => exact ⟨m, Action.yields_mapM_nil.2 ⟨rfl, rfl⟩, h, (List.append_nil _).symm⟩
  | cons d es ih =>
    obtain ⟨k, hk, hsteady, hcalls⟩ := h.upsert (hes d List.mem_cons_self)
    obtain ⟨n, hn, hsteady', hcalls'⟩ := ih hsteady fun e he => hes e (List.mem_cons_of_mem _ he)
    refine ⟨n, ?_, hsteady', ?_⟩
    · exact Action.yields_mapM_cons.2 ⟨_, k, _, Batch.yields_upsertOne.2 ⟨hk, rfl⟩, hn, rfl⟩
    · rw [hcalls', hcalls, List.append_assoc]
      rfl

/-! ### What a batch leaves in its place -/

theorem accepted_of_upsertAll {as : List Applied}
    (h : (Batch.upsertAll remote owner false ds).Yields m as n) :
    ∀ d ∈ ds, m.failures .upsert d.target = none := by
  simp only [Batch.upsertAll, Bool.false_eq_true, if_false] at h
  -- the settings stay while the others are sent
  induction ds generalizing m as with
  | nil => exact fun d hd => absurd hd List.not_mem_nil
  | cons d ds ih =>
    obtain ⟨a, k, as', ha, hrest, -⟩ := Action.yields_mapM_cons.1 h
    obtain ⟨hu, -⟩ := Batch.yields_upsertOne.1 ha
    have hs : SameSettings m k := by
      rw [← ha.state, Batch.state_upsertOne]
      exact same_upsert owner d m
    intro e he
    rcases List.mem_cons.1 he with rfl | he
    · cases hf : m.failures .upsert e.target with
      | none => rfl
      | some error => cases (upsert_of_failure hf).symm.trans hu
    · rw [← hs.failures]
      exact ih hrest e he

/-- After a batch that ends well all that it sent is in its place. -/
theorem steady_of_apply {plan : Plan} {as : List Applied} (h : Orderly m owner)
    (hd : (targets plan.toUpsert).Nodup) (hp : ∀ d ∈ plan.toUpsert, d.target ∉ plan.toDelete)
    (hy : (Batch.apply remote owner false plan).Yields m as n)
    (hr : n.relations? owner = some relations) :
    Steady n owner relations plan.toUpsert := by
  have hs := same_apply m owner plan
  rw [hy.state] at hs
  obtain ⟨deleted, k, us, hdel, hups, -⟩ := Batch.yields_apply.1 hy
  have hsk := same_deleteAll m owner plan.toDelete
  rw [hdel.state] at hsk
  obtain ⟨kept, hkept, hcarried⟩ := carried_deleteAll h plan.toDelete
  rw [hdel.state] at hcarried
  obtain ⟨more, -, hsent, hall⟩ := carried_upsertAll hcarried hd (kept_of_plan hp hkept)
  rw [hall us n hups, hups.state] at hsent
  -- a list at the end means that there was one at the start
  cases hb : m.relations? owner with
  | none =>
    rw [hsent.missing hb] at hr
    cases hr
  | some before =>
    obtain ⟨after, hafter, hlist⟩ := hsent.list before hb
    obtain rfl : relations = after := Option.some.inj (hr.symm.trans hafter)
    refine ⟨hr, fun r hmem hn => ?_, hlist.settled, fun d hmem => ⟨?_, ?_, ?_⟩⟩
    · exact (hsent.orderly (renumbers_iff.1 hn).1 relations hr).2 r hmem hn
    · rw [hs.failures, ← hsk.failures]
      exact accepted_of_upsertAll hups d hmem
    · rw [hsent.requested d.target (hsent.spared d hmem), List.nil_append, find?_of_mem hd hmem]
      rfl
    · have hnodup : (targets (plan.toUpsert.map m.keeps)).Nodup := by rwa [targets_map_keeps]
      have hfind := find?_putAll hnodup (part kept (m.outlines before)) (m.keeps d)
        (List.mem_map.2 ⟨d, hmem, rfl⟩)
      rw [target_keeps] at hfind
      rw [hsent.rules.outlines_eq, hsent.rules.keeps_eq, hlist.outlines]
      exact hfind

end MemoryRemote

/-- **A cycle that is carried out again changes nothing.**  On a remote that does not renumber, or
that grew from an empty one, a declaration that went well goes well again, with the view that it
left: it deletes nothing, sends every declared relation once, leaves the list as it is, and shows
and reports the same.  Observing any list again, with its own view, shows the same. -/
theorem reconcile_steady {m n : MemoryRemote} {owner : OwnerId} {previous desired : DesiredSet}
    {prior : List Relation} {r : Reconciliation}
    (grown : m.compacting = false ∨ MemoryRemote.Raised m)
    (h : (Cycle.reconcile MemoryRemote.remote owner false previous desired prior).Yields m r n) :
    (∃ k,
      (Cycle.reconcile MemoryRemote.remote owner false desired desired r.observation.view).Yields n
        { r with applied := desired.relations.map fun d => .upserted d.target } k ∧
      k.relations? owner = n.relations? owner ∧
      k.calls = n.calls ++ (desired.relations.map fun d => .upsert owner d.target) ++
        [.list owner]) ∧
    ∀ (set : DesiredSet) (first actual : List Relation),
      Observation.of set (Observation.of set first actual).view actual =
        Observation.of set first actual := by
  refine ⟨?_, Observation.of_view⟩
  have horderly : MemoryRemote.Orderly m owner :=
    grown.elim (fun hc => MemoryRemote.orderly_of_not_compacting hc owner)
      fun hr => MemoryRemote.orderly_of_raised hr owner
  obtain ⟨as, t, actual, ha, hl, rfl⟩ := Cycle.yields_reconcile.1 h
  obtain ⟨ht, hn⟩ := MemoryRemote.relations?_of_list hl
  have hsteady : MemoryRemote.Steady t owner actual desired.relations :=
    MemoryRemote.steady_of_apply horderly desired.distinct
      (Plan.notMem_toDelete_between previous desired) ha ht
  rw [MemoryRemote.list_of_owner ht] at hl
  obtain rfl : t.record (.list owner) = n := congrArg Prod.snd hl
  have hlisted : MemoryRemote.Steady (t.record (.list owner)) owner actual desired.relations :=
    hsteady.congr ⟨rfl, rfl, rfl⟩ rfl ht
  obtain ⟨k, hk, hagain, hcalls⟩ := hlisted.upsertAll fun d (hd : d ∈ desired.relations) => hd
  -- the declaration is the last set as well, so nothing is deleted
  have hnone : (Plan.between desired desired).toDelete = [] :=
    List.filter_eq_nil_iff.2 fun id hid => by simpa using hid
  have hbatch : (Batch.apply MemoryRemote.remote owner false (Plan.between desired desired)).Yields
      (t.record (.list owner)) (desired.relations.map fun d => .upserted d.target) k := by
    refine Batch.yields_apply.2 ⟨[], _, _, ?_, hk, (List.nil_append _).symm⟩
    rw [hnone]
    exact Action.yields_mapM_nil.2 ⟨rfl, rfl⟩
  refine ⟨k.record (.list owner), Cycle.yields_reconcile.2 ⟨_, k, actual, hbatch,
    MemoryRemote.list_of_owner hagain.list, ?_⟩, ?_, ?_⟩
  · simp only [Cycle.observe, Observation.of_view]
  · rw [MemoryRemote.relations?_record, hagain.list, hn]
  · show k.calls ++ [.list owner] = _
    rw [hcalls]

/-- An owner with a relation that nobody declares and one that is pinned, on a remote that
renumbers. -/
def grownRemote : MemoryRemote :=
  (({ MemoryRemote.empty with compacting := true }.seed ⟨"app"⟩
    ⟨⟨"x"⟩, .explicit 1, .empty⟩).seed ⟨"app"⟩
    ⟨⟨"c"⟩, .explicit 4, .empty⟩).pin ⟨"c"⟩ 9

theorem reconcile_steady_sample :
    ∃ r n k,
      (Cycle.reconcile MemoryRemote.remote ⟨"app"⟩ false samplePrevious sampleDesired []).Yields
        grownRemote r n ∧
      (Cycle.reconcile MemoryRemote.remote ⟨"app"⟩ false sampleDesired sampleDesired
        r.observation.view).Yields n { r with applied := [.upserted ⟨"d"⟩, .upserted ⟨"c"⟩] } k ∧
      k.relations? ⟨"app"⟩ = n.relations? ⟨"app"⟩ := by
  obtain ⟨r, hr⟩ : ∃ r, ((Cycle.reconcile MemoryRemote.remote ⟨"app"⟩ false samplePrevious
      sampleDesired []).run grownRemote).result = .ok r := ⟨_, rfl⟩
  have grown : MemoryRemote.Raised grownRemote :=
    ((MemoryRemote.Raised.empty.seed _ _).seed _ _).pin _ _
  obtain ⟨⟨k, hk, hlist, -⟩, -⟩ := reconcile_steady (.inr grown) (Action.yields_of_result hr)
  exact ⟨r, _, k, Action.yields_of_result hr, hk, hlist⟩

end Roster
