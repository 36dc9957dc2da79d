/-
Batches that are carried out again.

A batch that fails on a remote in memory has deleted some of its targets and sent some of its first
relations.  Carrying it out again deletes the others, and sends the same relations again before the
rest, each of which is then already in its place.  So the second batch comes to the list that one
batch alone would have come to.

* `putAll_putAll`: a list takes no notice of relations that it holds already;
* `Carried`: how a remote compares with the one before a batch that ended anywhere;
* `carried_apply`, `carried_of_apply`: what a batch carries out that ends somewhere, and one that
  ends well;
* `Carried.again`: a batch after a part of itself is that batch;
* `Carried.list_eq`: what was carried out settles the list of the owner;
* `applied_deleteAll`: what becomes of the deletes.
-/
import Roster.Proofs.Convergence
import Roster.Proofs.Renumbering

namespace Roster.MemoryRemote

open Roster.Relation

variable {m n k : MemoryRemote} {owner : OwnerId} {id : TargetId} {r : Relation}
  {ds es relations : List Relation}

/-! ### Putting relations into a list one after another -/

def putAll (ds relations : List Relation) : List Relation :=
  ds.foldl (fun relations d => putFirst d relations) relations

theorem putAll_append (ds es relations : List Relation) :
    putAll (ds ++ es) relations = putAll es (putAll ds relations) := List.foldl_append

/-- A relation that is the first to its target already is in its place. -/
theorem putFirst_of_find? (h : find? r.target relations = some r) :
    putFirst r relations = relations := by
  induction relations with
  | nil => cases h
  | cons s rest ih =>
    rw [find?_cons] at h
    rw [putFirst]
    by_cases hs : s.target = r.target
    · rw [if_pos hs] at h ⊢
      rw [Option.some.inj h]
    · rw [if_neg hs] at h ⊢
      rw [ih h]

theorem putAll_of_find? (h : ∀ d ∈ ds, find? d.target relations = some d) :
    putAll ds relations = relations := by
  induction ds with
  | nil => rfl
  | cons d ds ih =>
    show putAll ds (putFirst d relations) = relations
    rw [putFirst_of_find? (h d List.mem_cons_self)]
    exact ih fun e he => h e (List.mem_cons_of_mem _ he)

theorem find?_putAll_of_notMem (h : id ∉ targets ds) (relations : List Relation) :
    find? id (putAll ds relations) = find? id relations := by
  induction ds generalizing relations with
  | nil => rfl
  | cons d ds ih =>
    rw [targets_cons, List.mem_cons, not_or] at h
    show find? id (putAll ds (putFirst d relations)) = _
    rw [ih h.2, find?_putFirst, if_neg (Ne.symm h.1)]

/-- Of distinct targets each is found as it was put. -/
theorem find?_putAll (hd : (targets ds).Nodup) (relations : List Relation) :
    ∀ d ∈ ds, find? d.target (putAll ds relations) = some d := by
  induction ds generalizing relations with
  | nil => nofun
  | cons d ds ih =>
    rw [targets_cons, List.nodup_cons] at hd
    intro e he
    show find? e.target (putAll ds (putFirst d relations)) = some e
    rcases List.mem_cons.1 he with rfl | he
    · rw [find?_putAll_of_notMem hd.1, find?_putFirst, if_pos rfl]
    · exact ih hd.2 _ e he

/-- A list takes no notice of relations that it holds already. -/
theorem putAll_putAll (hd : (targets (ds ++ es)).Nodup) (relations : List Relation) :
    putAll (ds ++ es) (putAll ds relations) = putAll (ds ++ es) relations := by
  rw [targets_append] at hd
  have hds : (targets ds).Nodup := hd.of_append_left
  rw [putAll_append, putAll_of_find? (find?_putAll hds relations), putAll_append]

theorem part_putAll {p : TargetId → Bool} (h : ∀ d ∈ ds, p d.target = true)
    (relations : List Relation) :
    part p (putAll ds relations) = putAll ds (part p relations) := by
  induction ds generalizing relations with
  | nil => rfl
  | cons d ds ih =>
    show part p (putAll ds (putFirst d relations)) = putAll ds (putFirst d (part p relations))
    rw [ih (fun e he => h e (List.mem_cons_of_mem _ he)),
      part_putFirst_of_mem (h d List.mem_cons_self)]

theorem mem_targets_putAll (h : id ∈ targets (putAll ds relations)) :
    id ∈ targets ds ∨ id ∈ targets relations := by
  by_contra hn
  rw [not_or] at hn
  have hnone := find?_eq_none_iff.2 hn.2
  rw [← find?_putAll_of_notMem hn.1] at hnone
  exact find?_eq_none_iff.1 hnone h

/-! ### What was carried out -/

/-- What the remote keeps of a relation, but for a number of its own. -/
def keeps (m : MemoryRemote) (d : Relation) : Relation := m.outline (m.stored d)

theorem SameRules.keeps_eq (h : SameRules m n) : n.keeps = m.keeps := by
  funext d
  rw [keeps, keeps, h.outline_eq, h.stored_eq]

theorem target_keeps (m : MemoryRemote) (d : Relation) : (m.keeps d).target = d.target := by
  rw [keeps, target_outline, target_stored]

theorem targets_map_keeps (m : MemoryRemote) (ds : List Relation) :
    targets (ds.map m.keeps) = targets ds := by
  simp only [targets, List.map_map, Function.comp_def, target_keeps]

theorem spared_map_keeps {p : TargetId → Bool} (h : ∀ d ∈ ds, p d.target = true) :
    ∀ d ∈ ds.map m.keeps, p d.target = true := by
  intro d hd
  obtain ⟨e, he, rfl⟩ := List.mem_map.1 hd
  rw [target_keeps]
  exact h e he

/-- How the list `after` compares with the list `before`, once of its targets only those were kept
that satisfy a condition, and some relations were sent. -/
structure CarriedList (m n : MemoryRemote) (owner : OwnerId) (kept : TargetId → Bool)
    (sent before after : List Relation) : Prop where
  outlines : m.outlines after = putAll (sent.map m.keeps) (part kept (m.outlines before))
  /-- Nothing is renumbered unless something is sent, and then everything is. -/
  unsent : sent = [] → after = part kept before
  settled : sent ≠ [] → Settled n owner after

/-- How the remote `n` compares with the remote `m`, once of an owner's targets only those were kept
that satisfy a condition, and some relations were sent. -/
structure Carried (m n : MemoryRemote) (owner : OwnerId) (kept : TargetId → Bool)
    (sent : List Relation) :
    Prop where
  rules : SameRules m n
  orderly : Orderly n owner
  spared : ∀ d ∈ sent, kept d.target = true
  requested : ∀ id, kept id = true →
    n.requested owner id = (find? id sent).elim (m.requested owner id) (·.priority.explicit?)
  missing : m.relations? owner = none → n.relations? owner = none
  list : ∀ before, m.relations? owner = some before →
    ∃ after, n.relations? owner = some after ∧ CarriedList m n owner kept sent before after

variable {kept p : TargetId → Bool} {sent : List Relation}

theorem Carried.refl (h : Orderly m owner) : Carried m m owner (fun _ => true) [] where
  rules := .refl m
  orderly := h
  spared := nofun
  requested _ _ := rfl
  missing h := h
  list before hb := by
    have hpart : part (fun _ => true) before = before := part_eq_self fun _ _ => rfl
    have houtlines : part (fun _ => true) (m.outlines before) = m.outlines before :=
      part_eq_self fun _ _ => rfl
    exact ⟨before, hb, ⟨houtlines.symm, fun _ => hpart.symm, fun h => absurd rfl h⟩⟩

/-- Of the remote after it, only its rules, what it was asked for and the list of the owner
matter. -/
theorem Carried.congr (h : Carried m n owner kept sent) (hrules : SameRules n k)
    (hrequests : k.requested = n.requested) (hlist : k.relations? owner = n.relations? owner) :
    Carried m k owner kept sent where
  rules := h.rules.trans hrules
  orderly := h.orderly.congr hrules (congrFun hrequests owner) hlist
  spared := h.spared
  requested id hid := by rw [hrequests, h.requested id hid]
  missing hm := hlist.trans (h.missing hm)
  list before hb := by
    obtain ⟨after, hafter, hcarried⟩ := h.list before hb
    refine ⟨after, hlist.trans hafter, ⟨hcarried.outlines, hcarried.unsent, fun hs hc => ?_⟩⟩
    have hcompacted : k.compacted owner after = n.compacted owner after := by
      simp only [compacted, ranking, slots, hrules.pinned, hrequests]
    rw [hcompacted]
    exact hcarried.settled hs (hrules.compacting.symm.trans hc)

/-- The same holds of the remote before it. -/
theorem Carried.congr_left (h : Carried m n owner kept sent) (hrules : SameRules m k)
    (hrequests : k.requested = m.requested) (hlist : k.relations? owner = m.relations? owner) :
    Carried k n owner kept sent where
  rules := hrules.symm.trans h.rules
  orderly := h.orderly
  spared := h.spared
  requested id hid := by rw [hrequests, h.requested id hid]
  missing hk := h.missing (hlist.symm.trans hk)
  list before hb := by
    obtain ⟨after, hafter, hcarried⟩ := h.list before (hlist.symm.trans hb)
    refine ⟨after, hafter, ⟨?_, hcarried.unsent, hcarried.settled⟩⟩
    rw [hrules.outlines_eq, hrules.keeps_eq]
    exact hcarried.outlines

theorem Carried.record (h : Carried m n owner kept sent) (call : Call) :
    Carried m (n.record call) owner kept sent := h.congr ⟨rfl, rfl⟩ rfl rfl

/-- A delete of what is there takes it away. -/
theorem Carried.without {target : TargetId} {after : List Relation} (h : Carried m n owner kept [])
    (hf : n.failures .delete target = none) (hr : n.relations? owner = some after)
    (ht : target ∈ targets after) :
    Carried m (delete owner target n).2 owner (fun id => decide (id ≠ target) && kept id) [] := by
  have horderly := orderly_delete h.orderly owner target
  rw [delete_of_mem hf hr ht] at horderly ⊢
  refine ⟨h.rules.trans ⟨rfl, rfl⟩, horderly, nofun, fun id hid => ?_, fun hm => ?_,
    fun before hb => ?_⟩
  · obtain ⟨hne, hk⟩ := Bool.and_eq_true_iff.1 hid
    refine Eq.trans ?_ (h.requested id hk)
    exact requested_request_of_ne (of_decide_eq_true hne) _ owner none
  · rw [h.missing hm] at hr
    cases hr
  · obtain ⟨after', hafter', hcarried⟩ := h.list before hb
    obtain rfl : after = after' := Option.some.inj (hr.symm.trans hafter')
    -- what was carried leaves out the target now, and is part of the old list still
    have hpart : part (fun id => decide (id ≠ target)) after =
        part (fun id => decide (id ≠ target) && kept id) before := by
      rw [hcarried.unsent rfl, part_part]
    refine ⟨_, relations?_setRelations_self .., ⟨?_, fun _ => hpart, fun h => absurd rfl h⟩⟩
    rw [hpart, part_outlines]
    rfl

/-- A delete takes at most its own target away. -/
theorem Carried.delete (h : Carried m n owner kept []) (target : TargetId) :
    ∃ kept', (∀ id, id ≠ target → kept id = true → kept' id = true) ∧
      Carried m (delete owner target n).2 owner kept' [] := by
  cases hf : n.failures .delete target with
  | some error =>
    rw [delete_of_failure hf]
    exact ⟨kept, fun _ _ hk => hk, h.record _⟩
  | none =>
    cases hr : n.relations? owner with
    | none =>
      rw [delete_of_noOwner hf hr]
      exact ⟨kept, fun _ _ hk => hk, h.record _⟩
    | some after =>
      by_cases ht : target ∈ targets after
      · exact ⟨_, fun id hne hk => by simp [hne, hk], h.without hf hr ht⟩
      · rw [delete_of_notMem hf hr ht]
        exact ⟨kept, fun _ _ hk => hk, h.record _⟩

/-- One more relation is sent. -/
theorem Carried.upsert {d : Relation} (h : Carried m n owner kept sent)
    (hd : d.target ∉ targets sent) (hk : kept d.target = true)
    (hu : upsert owner d n = (.ok (), k)) :
    Carried m k owner kept (sent ++ [d]) := by
  have horderly : Orderly k owner := by
    have := orderly_upsert h.orderly owner d
    rwa [hu] at this
  obtain ⟨relations, hr, rfl⟩ := of_upsert_ok hu
  have hnoted : SameRules n (n.noted owner d) := (same_noted n owner d).rules
  refine ⟨h.rules.trans ⟨rfl, rfl⟩, horderly, fun e he => ?_, fun id hid => ?_, fun hm => ?_,
    fun before hb => ?_⟩
  · rcases List.mem_append.1 he with he | he
    · exact h.spared e he
    · rwa [List.mem_singleton.1 he]
  · rw [find?_concat]
    by_cases ht : d.target = id
    · -- nothing was sent to this target before
      subst ht
      rw [find?_eq_none_iff.2 hd, Option.none_or, if_pos rfl]
      exact requested_request_self _ owner d.target _
    · rw [if_neg ht, Option.or_none, ← h.requested id hid]
      exact requested_request_of_ne (Ne.symm ht) _ owner _
  · rw [h.missing hm] at hr
    cases hr
  · obtain ⟨after, hafter, hcarried⟩ := h.list before hb
    obtain rfl : relations = after := Option.some.inj (hr.symm.trans hafter)
    refine ⟨_, relations?_setRelations_self .., ⟨?_, fun he => ?_, fun _ hc => ?_⟩⟩
    · have hrules := h.rules.trans hnoted
      rw [← hrules.outlines_eq, outlines_relationsAfter, hrules.outlines_eq, hcarried.outlines,
        ← keeps, hrules.keeps_eq, List.map_append, putAll_append]
      rfl
    · exact absurd he (by simp)
    · obtain ⟨hnodup, hranked⟩ := h.orderly hc relations hr
      exact settled_relationsAfter (ranked_noted hnodup hranked d) hc

/-! ### Batches -/

/-- Wherever some deletes end, all but their targets are kept. -/
theorem carried_deleteAll (h : Orderly m owner) (ids : List TargetId) :
    ∃ kept, (∀ id, id ∉ ids → kept id = true) ∧
      Carried m ((Batch.deleteAll remote owner false ids).run m).state owner kept [] := by
  let P : MemoryRemote → Prop := fun n =>
    ∃ kept, (∀ id, id ∉ ids → kept id = true) ∧ Carried m n owner kept []
  have start : P m := ⟨fun _ => true, fun _ _ => rfl, .refl h⟩
  refine Action.invariant_mapM (P := P) (fun target ht n hn => ?_) start
  obtain ⟨kept, hkept, hcarried⟩ := hn
  obtain ⟨kept', hkept', hcarried'⟩ := hcarried.delete target
  rw [if_neg Bool.false_ne_true, Batch.state_deleteOne]
  refine ⟨kept', fun id hid => hkept' id ?_ (hkept id hid), hcarried'⟩
  rintro rfl
  exact hid ht

/-- Wherever the sending of some relations ends, the first of them were sent, and all of them if it
ends well. -/
theorem carried_upsertAll (h : Carried m n owner kept sent) (hd : (targets (sent ++ ds)).Nodup)
    (hk : ∀ d ∈ ds, kept d.target = true) :
    ∃ more, more <+: ds ∧
      Carried m ((Batch.upsertAll remote owner false ds).run n).state owner kept (sent ++ more) ∧
      ∀ as k, (Batch.upsertAll remote owner false ds).Yields n as k → more = ds := by
  simp only [Batch.upsertAll, Bool.false_eq_true, if_false]
  induction ds generalizing n sent with
  | nil => exact ⟨[], List.nil_prefix, by rwa [List.append_nil], fun _ _ _ => rfl⟩
  | cons d ds ih =>
    rcases Action.yields_or_fails (Batch.upsertOne remote owner d) n with ⟨a, t, ha⟩ | ⟨e, t, he⟩
    · -- the first one was sent, and the others go on from there
      obtain ⟨hu, -⟩ := Batch.yields_upsertOne.1 ha
      have hnew : d.target ∉ targets sent := by
        rw [targets_append, List.nodup_append] at hd
        exact fun hm => hd.2.2 _ hm d.target List.mem_cons_self rfl
      have hcarried := h.upsert hnew (hk d List.mem_cons_self) hu
      have hd' : (targets (sent ++ [d] ++ ds)).Nodup := by rwa [List.append_assoc]
      obtain ⟨more, hmore, hrest, hall⟩ :=
        ih hcarried hd' fun e he => hk e (List.mem_cons_of_mem _ he)
      refine ⟨d :: more, (List.prefix_cons_inj d).2 hmore, ?_, fun as k hy => ?_⟩
      · rw [Action.state_mapM_of_yields ha]
        rwa [List.append_assoc] at hrest
      · obtain ⟨b, u, bs, hb, hbs, -⟩ := Action.yields_mapM_cons.1 hy
        obtain rfl : t = u := ha.state.symm.trans hb.state
        rw [hall bs k hbs]
    · obtain ⟨cause, hu, -⟩ := Batch.fails_upsertOne.1 he
      obtain rfl := of_upsert_error hu
      refine ⟨[], List.nil_prefix, ?_, fun as k hy => ?_⟩
      · rw [Action.state_mapM_of_fails he, List.append_nil]
        exact h.record _
      · obtain ⟨b, u, bs, hb, -, -⟩ := Action.yields_mapM_cons.1 hy
        cases he.1.symm.trans hb.result

/-- What a plan sends it does not delete. -/
theorem kept_of_plan {plan : Plan} (hp : ∀ d ∈ plan.toUpsert, d.target ∉ plan.toDelete)
    (hk : ∀ id, id ∉ plan.toDelete → kept id = true) : ∀ d ∈ plan.toUpsert, kept d.target = true :=
  fun d hd => hk d.target (hp d hd)

variable {plan : Plan}

/-- Wherever a batch ends, all but the targets that it deletes were kept, and the first of the
relations that it sends were sent. -/
theorem carried_apply (h : Orderly m owner) (hd : (targets plan.toUpsert).Nodup)
    (hp : ∀ d ∈ plan.toUpsert, d.target ∉ plan.toDelete) :
    ∃ kept sent, (∀ id, id ∉ plan.toDelete → kept id = true) ∧ sent <+: plan.toUpsert ∧
      Carried m ((Batch.apply remote owner false plan).run m).state owner kept sent := by
  obtain ⟨kept, hkept, hcarried⟩ := carried_deleteAll h plan.toDelete
  -- the deletes come first, and then the upserts as far as they get
  let P : MemoryRemote → Prop := fun n => ∃ kept sent,
    (∀ id, id ∉ plan.toDelete → kept id = true) ∧ sent <+: plan.toUpsert ∧
      Carried m n owner kept sent
  have start : P ((Batch.deleteAll remote owner false plan.toDelete).run m).state :=
    ⟨kept, [], hkept, List.nil_prefix, hcarried⟩
  refine Action.invariant_bind (P := P) start fun as t hy _ => ?_
  rw [hy.state] at hcarried
  obtain ⟨more, hmore, hafter, -⟩ := carried_upsertAll hcarried hd (kept_of_plan hp hkept)
  have hsent : P ((Batch.upsertAll remote owner false plan.toUpsert).run t).state :=
    ⟨kept, more, hkept, hmore, hafter⟩
  exact Action.invariant_bind (P := P) hsent fun _ _ _ hv => hv

/-- Deletes that end well keep nothing of their targets. -/
theorem Carried.tighten (h : Carried m n owner kept []) (hp : ∀ id, p id = true → kept id = true)
    (hlist : n.relations? owner = (m.relations? owner).map (part p)) : Carried m n owner p [] where
  rules := h.rules
  orderly := h.orderly
  spared := nofun
  requested id hid := h.requested id (hp id hid)
  missing := h.missing
  list before hb := by
    rw [hb, Option.map_some] at hlist
    exact ⟨_, hlist, ⟨part_outlines p m before, fun _ => rfl, fun h => absurd rfl h⟩⟩

/-- Whether deleting some targets keeps a target. -/
def spares (ids : List TargetId) (id : TargetId) : Bool := decide (id ∉ ids)

theorem spares_iff {ids : List TargetId} : spares ids id = true ↔ id ∉ ids := decide_eq_true_iff

/-- Deletes that end well keep all but their targets. -/
theorem carried_of_deleteAll {ids : List TargetId} {as : List Applied} (h : Orderly m owner)
    (hf : ∀ id, m.failures .delete id ≠ some .notFound)
    (hy : (Batch.deleteAll remote owner false ids).Yields m as n) :
    Carried m n owner (spares ids) [] := by
  obtain ⟨kept, hkept, hcarried⟩ := carried_deleteAll h ids
  rw [hy.state] at hcarried
  exact hcarried.tighten (fun id hid => hkept id (spares_iff.1 hid)) (relations?_deleteAll hf hy).2

/-- A batch that ends well keeps all but what it deletes, and sends all that it sends. -/
theorem carried_of_apply {as : List Applied} (h : Orderly m owner)
    (hf : ∀ id, m.failures .delete id ≠ some .notFound) (hd : (targets plan.toUpsert).Nodup)
    (hp : ∀ d ∈ plan.toUpsert, d.target ∉ plan.toDelete)
    (hy : (Batch.apply remote owner false plan).Yields m as n) :
    Carried m n owner (spares plan.toDelete) plan.toUpsert := by
  obtain ⟨ds, t, us, hdel, hups, -⟩ := Batch.yields_apply.1 hy
  have htight := carried_of_deleteAll h hf hdel
  obtain ⟨more, -, hafter, hall⟩ :=
    carried_upsertAll htight hd (kept_of_plan hp fun _ => spares_iff.2)
  rwa [hall us n hups, hups.state] at hafter

/-- A batch that sends some relations, after a part of it was carried out, leaves what it leaves
alone. -/
theorem Carried.again (h : Carried m n owner kept sent) (h' : Carried n k owner p ds)
    (hs : sent <+: ds) (hp : ∀ id, p id = true → kept id = true) (hd : (targets ds).Nodup) :
    Carried m k owner p ds where
  rules := h.rules.trans h'.rules
  orderly := h'.orderly
  spared := h'.spared
  requested id hid := by
    rw [h'.requested id hid, h.requested id (hp id hid)]
    cases hf : find? id ds with
    | some d => rfl
    | none =>
      -- what the part was not told either
      have hnone : find? id sent = none := by
        refine find?_eq_none_iff.2 fun hm => find?_eq_none_iff.1 hf ?_
        obtain ⟨d, hmem, ht⟩ := mem_targets.1 hm
        exact mem_targets.2 ⟨d, hs.subset hmem, ht⟩
      rw [hnone]
      rfl
  missing hm := h'.missing (h.missing hm)
  list before hb := by
    obtain ⟨middle, hmiddle, hone⟩ := h.list before hb
    obtain ⟨after, hafter, htwo⟩ := h'.list middle hmiddle
    obtain ⟨rest, rfl⟩ := hs
    have hpart : ∀ rs, part p (part kept rs) = part p rs := fun rs => by
      rw [part_part]
      refine part_congr fun id _ => ?_
      cases hid : p id with
      | false => rfl
      | true => rw [hp id hid]; rfl
    refine ⟨after, hafter, ⟨?_, fun hnil => ?_, htwo.settled⟩⟩
    · have hspared : ∀ d ∈ sent.map m.keeps, p d.target = true :=
        spared_map_keeps fun e he => h'.spared e (List.mem_append_left _ he)
      have hnodup : (targets (sent.map m.keeps ++ rest.map m.keeps)).Nodup := by
        rwa [← List.map_append, targets_map_keeps]
      have htwice := htwo.outlines
      rw [h.rules.outlines_eq, h.rules.keeps_eq, hone.outlines, part_putAll hspared, hpart,
        List.map_append, putAll_putAll hnodup] at htwice
      rwa [List.map_append]
    · obtain rfl : sent = [] := (List.append_eq_nil_iff.1 hnil).1
      rw [htwo.unsent hnil, hone.unsent rfl, hpart]

/-- What was kept and what was sent settles the list of the owner. -/
theorem Carried.list_eq (h : Carried m n owner p ds) (h' : Carried m k owner p ds) :
    n.relations? owner = k.relations? owner := by
  cases hb : m.relations? owner with
  | none => rw [h.missing hb, h'.missing hb]
  | some before =>
    obtain ⟨one, hn, hone⟩ := h.list before hb
    obtain ⟨other, hk, hother⟩ := h'.list before hb
    rw [hn, hk]
    refine congrArg some ?_
    by_cases hds : ds = []
    · rw [hone.unsent hds, hother.unsent hds]
    · have hrules : SameRules n k := h.rules.symm.trans h'.rules
      have houtlines : n.outlines one = n.outlines other := by
        rw [h.rules.outlines_eq, hone.outlines, hother.outlines]
      have hranked : Ranked n owner one := by
        intro r hr hnum
        exact (h.orderly (renumbers_iff.1 hnum).1 one hn).2 r hr hnum
      refine eq_of_settled hrules (hone.settled hds)
        (hother.settled hds) houtlines hranked fun r hr _ => ?_
      -- all that is on the list was kept
      have hkept : p r.target = true := by
        have hmem : r.target ∈ targets (m.outlines one) := by
          rw [targets_outlines]
          exact mem_targets.2 ⟨r, hr, rfl⟩
        rw [hone.outlines] at hmem
        rcases mem_targets_putAll hmem with hd | hbefore
        · obtain ⟨d, hd, ht⟩ := mem_targets.1 hd
          exact ht ▸ spared_map_keeps h.spared d hd
        · rw [targets_part] at hbefore
          exact (List.mem_filter.1 hbefore).2
      rw [h.requested _ hkept, h'.requested _ hkept]

/-! ### What becomes of the operations -/

/-- What becomes of a delete that is not refused. -/
def deletion (m : MemoryRemote) (owner : OwnerId) (id : TargetId) : Applied :=
  if id ∈ targets ((m.relations? owner).getD []) then .deleted id else .alreadyAbsent id

theorem applied_deleteOne {a : Applied} (hf : m.failures .delete id = none)
    (h : (Batch.deleteOne remote owner id).Yields m a n) : a = m.deletion owner id := by
  have hd := Batch.yields_deleteOne.1 h
  unfold deletion
  cases hr : m.relations? owner with
  | none =>
    have hgone : remote.delete owner id m = _ := delete_of_noOwner hf hr
    rw [hgone] at hd
    rcases hd with ⟨he, -⟩ | ⟨-, rfl⟩
    · cases he
    · rfl
  | some relations =>
    by_cases ht : id ∈ targets relations
    · have hthere : remote.delete owner id m = _ := delete_of_mem hf hr ht
      rw [hthere] at hd
      rcases hd with ⟨-, rfl⟩ | ⟨he, -⟩
      · exact (if_pos ht).symm
      · cases he
    · have habsent : remote.delete owner id m = _ := delete_of_notMem hf hr ht
      rw [habsent] at hd
      rcases hd with ⟨he, -⟩ | ⟨-, rfl⟩
      · cases he
      · exact (if_neg ht).symm

/-- What becomes of deletes of distinct targets is settled before the first of them. -/
theorem applied_deleteAll {ids : List TargetId} {as : List Applied} (hd : ids.Nodup)
    (sound : ∀ id, m.failures .delete id = none)
    (h : (Batch.deleteAll remote owner false ids).Yields m as n) :
    as = ids.map (m.deletion owner) := by
  simp only [Batch.deleteAll, Bool.false_eq_true, if_false] at h
  induction ids generalizing m as with
  | nil =>
    obtain ⟨rfl, -⟩ := Action.yields_mapM_nil.1 h
    rfl
  | cons id ids ih =>
    obtain ⟨a, t, as', ha, has, rfl⟩ := Action.yields_mapM_cons.1 h
    rw [List.nodup_cons] at hd
    have hs : SameSettings m t := by
      rw [← ha.state, Batch.state_deleteOne]
      exact same_delete owner id m
    have hlist := relations?_deleteOne (by simp [sound]) ha
    rw [applied_deleteOne (sound id) ha, ih hd.2 (by rwa [hs.failures]) has, List.map_cons]
    congr 1
    refine List.map_congr_left fun other ho => ?_
    have hne : other ≠ id := fun he => hd.1 (he ▸ ho)
    -- the target that went first is none of the others
    unfold deletion
    rw [hlist]
    cases m.relations? owner with
    | none => rfl
    | some relations => simp [targets_part, List.mem_filter, hne]

/-- Of targets that nothing was sent to there are only those that were there before. -/
theorem Carried.mem_before (h : Carried m n owner kept sent) (hs : id ∉ targets sent)
    (hid : id ∈ targets ((n.relations? owner).getD [])) :
    id ∈ targets ((m.relations? owner).getD []) := by
  cases hb : m.relations? owner with
  | none =>
    rw [h.missing hb] at hid
    cases hid
  | some before =>
    obtain ⟨after, hafter, hcarried⟩ := h.list before hb
    rw [hafter, Option.getD_some, ← targets_outlines m, hcarried.outlines] at hid
    rcases mem_targets_putAll hid with hd | hbefore
    · rw [targets_map_keeps] at hd
      exact absurd hd hs
    · rw [targets_part, targets_outlines] at hbefore
      exact (List.mem_filter.1 hbefore).1

/-- A remote that refuses no upsert accepts all relations of an owner that is there. -/
theorem exists_yields_upsertAll {before : List Relation}
    (sound : ∀ id, m.failures .upsert id = none) (hr : m.relations? owner = some before)
    (ds : List Relation) :
    ∃ as n, (Batch.upsertAll remote owner false ds).Yields m as n := by
  simp only [Batch.upsertAll, Bool.false_eq_true, if_false]
  let P : MemoryRemote → Prop := fun k => SameSettings m k ∧ ∃ rs, k.relations? owner = some rs
  have step : ∀ d ∈ ds, ∀ k, P k → ∃ a n, (Batch.upsertOne remote owner d).Yields k a n ∧ P n := by
    rintro d - k ⟨hs, rs, hrs⟩
    have hu := upsert_of_owner (r := d) (by rw [hs.failures, sound]) hrs
    have hs' := hs.trans (same_upsert owner d k)
    rw [hu] at hs'
    exact ⟨_, _, Batch.yields_upsertOne.2 ⟨hu, rfl⟩, hs', _, relations?_setRelations_self ..⟩
  obtain ⟨as, n, h, -⟩ := Action.exists_yields_mapM step ⟨.refl m, before, hr⟩
  exact ⟨as, n, h⟩

end Roster.MemoryRemote
