/-
The declared order is kept.

A remote in memory that renumbers does so after every single upsert, when some of the declared
targets carry numbers of older requests and others none at all.  Only the last renumbering counts:
by then everything that was sent is remembered, and what was asked for with a lower priority gets a
lower number.  So the order check of a cycle finds no violation, unless a target is pinned.

* `Asked`: what some relations ask for, but for targets that are pinned;
* `InOrder`, `OrderKept`: lists that confirm what was asked for in its order, and remotes with such
  a list;
* `OrderKept.upsert`, `orderKept_upsertAll`: one relation that is sent, and all of them;
* `OrderReport.check_of_inOrder`: what the order check says of such a list;
* `reconcile_keeps_order`: a whole cycle.
-/
import Roster.Proofs.Convergence
import Roster.Proofs.Ranking
import Roster.Proofs.Tracking

namespace Roster

open Roster.Relation

namespace MemoryRemote

variable {m n k : MemoryRemote} {owner : OwnerId} {id other : TargetId} {d r : Relation}
  {sent ds relations : List Relation} {v w : Int}

/-- Some relations ask for a priority of a target that is not pinned. -/
def Asked (m : MemoryRemote) (sent : List Relation) (id : TargetId) (v : Int) : Prop :=
  m.pinned id = none ∧ ∃ d ∈ sent, d.target = id ∧ d.priority = .explicit v

/-- A list confirms every priority that some relations ask for, and confirms them in their order. -/
structure InOrder (m : MemoryRemote) (sent relations : List Relation) : Prop where
  confirmed : ∀ {id v}, Asked m sent id v → (number? id relations).isSome = true
  /-- Without renumbering they are confirmed as they are. -/
  plain : m.compacting = false → ∀ {id v}, Asked m sent id v → number? id relations = some v
  increasing : ∀ {id other v w}, Asked m sent id v → Asked m sent other w → v < w →
    ∃ x y, number? id relations = some x ∧ number? other relations = some y ∧ x < y

/-- A remote has some relations on record, and its list of the owner confirms them in order. -/
structure OrderKept (m : MemoryRemote) (owner : OwnerId) (sent : List Relation) : Prop where
  requested : ∀ {id v}, Asked m sent id v → m.requested owner id = some v
  list : ∀ {relations}, m.relations? owner = some relations → InOrder m sent relations

theorem orderKept_nil (m : MemoryRemote) (owner : OwnerId) : OrderKept m owner [] := by
  have hnone : ∀ {id v}, ¬Asked m [] id v := fun h => by
    obtain ⟨-, d, hd, -⟩ := h
    cases hd
  exact ⟨fun h => absurd h hnone,
    fun _ => ⟨fun h => absurd h hnone, fun _ => fun h => absurd h hnone,
    fun h => absurd h hnone⟩⟩

theorem asked_concat (h : Asked m (sent ++ [d]) id v) :
    Asked m sent id v ∨ d.target = id ∧ d.priority = .explicit v := by
  obtain ⟨hp, e, he, ht⟩ := h
  rcases List.mem_append.1 he with he | he
  · exact .inl ⟨hp, e, he, ht⟩
  · rw [List.mem_singleton.1 he] at ht
    exact .inr ht

theorem mem_targets_of_asked (h : Asked m sent id v) : id ∈ targets sent := by
  obtain ⟨-, e, he, ht, -⟩ := h
  exact mem_targets.2 ⟨e, he, ht⟩

theorem number?_putFirst (id : TargetId) (r : Relation) (relations : List Relation) :
    number? id (putFirst r relations) =
      if r.target = id then r.priority.explicit? else number? id relations := by
  rw [number?, find?_putFirst]
  split <;> rfl

/-- A list confirms a relation that was put into it, and what it confirmed of other targets. -/
theorem InOrder.number?_putFirst (h : InOrder m sent relations) (hd : d.target ∉ targets sent)
    (ha : Asked m (sent ++ [d]) id v) :
    (number? id (putFirst (m.stored d) relations)).isSome = true ∧
      (m.compacting = false → number? id (putFirst (m.stored d) relations) = some v) := by
  rw [MemoryRemote.number?_putFirst, target_stored]
  rcases asked_concat ha with hs | ⟨rfl, hv⟩
  · have hne : d.target ≠ id := fun he => hd (he ▸ mem_targets_of_asked hs)
    rw [if_neg hne]
    exact ⟨h.confirmed hs, fun hc => h.plain hc hs⟩
  · rw [if_pos rfl, stored_of_notPinned ha.1, hv]
    exact ⟨rfl, fun _ => rfl⟩

theorem requested_noted (h : ∀ {id v}, Asked m sent id v → m.requested owner id = some v)
    (hd : d.target ∉ targets sent) (ha : Asked m (sent ++ [d]) id v) :
    (m.noted owner d).requested owner id = some v := by
  rcases asked_concat ha with hs | ⟨rfl, hv⟩
  · have hne : id ≠ d.target := fun he => hd (he ▸ mem_targets_of_asked hs)
    refine Eq.trans ?_ (h hs)
    exact requested_request_of_ne hne _ owner _
  · refine Eq.trans (requested_request_self _ owner d.target _) ?_
    rw [hv]
    rfl

/-- One more relation is sent, to another target. -/
theorem OrderKept.upsert (h : OrderKept m owner sent) (hd : d.target ∉ targets sent)
    (hu : upsert owner d m = (.ok (), k)) : OrderKept k owner (sent ++ [d]) := by
  obtain ⟨before, hb, rfl⟩ := of_upsert_ok hu
  have hrequested : ∀ {id v}, Asked m (sent ++ [d]) id v →
      (m.noted owner d).requested owner id = some v := requested_noted h.requested hd
  have placed : ∀ {id v}, Asked m (sent ++ [d]) id v →
      (number? id (putFirst (m.stored d) before)).isSome = true ∧
        (m.compacting = false → number? id (putFirst (m.stored d) before) = some v) :=
    (h.list hb).number?_putFirst hd
  refine ⟨fun ha => hrequested ha, fun hr => ?_⟩
  rw [relations?_setRelations_self] at hr
  obtain rfl := Option.some.inj hr
  cases hc : m.compacting with
  | false =>
    have hafter : (m.noted owner d).relationsAfter owner d before = putFirst (m.stored d) before :=
      relationsAfter_of_not_compacting (m := m.noted owner d) hc owner d before
    have hplain : ∀ {id v}, Asked m (sent ++ [d]) id v →
        number? id (putFirst (m.stored d) before) = some v :=
      fun ha => (placed ha).2 hc
    rw [hafter]
    refine ⟨fun ha => ?_, fun _ => fun ha => hplain ha, fun ha hb' hvw => ?_⟩
    · rw [hplain ha]
      rfl
    · exact ⟨_, _, hplain ha, hplain hb', hvw⟩
  | true =>
    have hafter : (m.noted owner d).relationsAfter owner d before =
        (m.noted owner d).compacted owner (putFirst (m.stored d) before) := if_pos hc
    have hconfirmed : ∀ {id v}, Asked m (sent ++ [d]) id v →
        (number? id (putFirst (m.stored d) before)).isSome = true :=
      fun ha => (placed ha).1
    rw [hafter]
    refine ⟨fun ha => ?_, fun hn => ?_, fun ha hb' hvw => ?_⟩
    · obtain ⟨i, r, -, -, -, hnumber⟩ :=
        number?_compacted (m := m.noted owner d) hc owner ha.1 (hconfirmed ha)
      rw [hnumber]
      rfl
    · cases hc.symm.trans hn
    · -- this renumbering follows what was asked for, which all of it is on record
      exact number?_compacted_lt hc ha.1 hb'.1 (hrequested ha) (hrequested hb') (hconfirmed ha)
        (hconfirmed hb') hvw

/-- Relations that are sent to distinct targets and accepted are confirmed in their order. -/
theorem orderKept_upsertAll {as : List Applied} (h : OrderKept m owner sent)
    (hd : (targets (sent ++ ds)).Nodup)
    (hy : (Batch.upsertAll remote owner false ds).Yields m as n) :
    OrderKept n owner (sent ++ ds) := by
  simp only [Batch.upsertAll, Bool.false_eq_true, if_false] at hy
  -- what was sent so far grows at its end with every relation that is sent
  induction ds generalizing m sent as with
  | nil =>
    obtain ⟨-, rfl⟩ := Action.yields_mapM_nil.1 hy
    rwa [List.append_nil]
  | cons d ds ih =>
    obtain ⟨a, t, as', ha, hrest, -⟩ := Action.yields_mapM_cons.1 hy
    have hnew : d.target ∉ targets sent := by
      rw [targets_append, List.nodup_append] at hd
      exact fun hm => hd.2.2 _ hm d.target List.mem_cons_self rfl
    have hsent := h.upsert hnew (Batch.yields_upsertOne.1 ha).1
    have hd' : (targets (sent ++ [d] ++ ds)).Nodup := by rwa [List.append_assoc]
    have hall := ih hsent hd' hrest
    rwa [List.append_assoc] at hall

/-- A batch leaves a list that confirms what it sent in its order, whatever was there before. -/
theorem orderKept_apply {plan : Plan} {as : List Applied} (hd : (targets plan.toUpsert).Nodup)
    (h : (Batch.apply remote owner false plan).Yields m as n) :
    n.pinned = m.pinned ∧ OrderKept n owner plan.toUpsert := by
  constructor
  · rw [← h.state]
    exact (same_apply m owner plan).pinned
  · obtain ⟨deleted, t, us, -, hu, -⟩ := Batch.yields_apply.1 h
    exact orderKept_upsertAll (orderKept_nil t owner) hd hu

end MemoryRemote

open MemoryRemote (number? InOrder Asked)

namespace OrderReport

variable {desired : DesiredSet} {view relations : List Relation} {prior : List Relation}

theorem violationsFrom_eq_nil {entries : List Entry}
    (h : ∀ a ∈ entries, ∀ b ∈ entries, a.desired < b.desired → a.confirmed < b.confirmed) :
    violationsFrom entries = [] := by
  induction entries with
  | nil => rfl
  | cons a rest ih =>
    have hnone : rest.filter (violates a) = [] := by
      refine List.filter_eq_nil_iff.2 fun b hb hv => ?_
      simp only [violates, Bool.and_eq_true, decide_eq_true_eq] at hv
      have := h a List.mem_cons_self b (List.mem_cons_of_mem _ hb) hv.1
      omega
    rw [violationsFrom, hnone, ih fun b hb c hc =>
      h b (List.mem_cons_of_mem _ hb) c (List.mem_cons_of_mem _ hc)]
    rfl

/-- The entries of a view, read off the list that it shows, if that confirms every priority that is
asked for. -/
theorem entries_of_confirmed (prior : List Relation)
    (h : ∀ d ∈ desired.relations, d.priority.isExplicit = true →
      (number? d.target relations).isSome = true) :
    entries desired (Observation.of desired prior relations).view =
      desired.relations.filterMap fun d => d.priority.explicit?.bind fun wanted =>
        (number? d.target relations).map fun got => ⟨d.target, wanted, got⟩ := by
  refine List.filterMap_congr fun d hd => ?_
  cases hv : d.priority with
  | unset => rfl
  | explicit v =>
    have hexplicit := Priority.isExplicit_iff.2 ⟨v, hv⟩
    obtain ⟨x, hx⟩ := Option.isSome_iff_exists.1 (h d hd hexplicit)
    obtain ⟨c, hc, hcx⟩ := Option.bind_eq_some_iff.1 hx
    have hfind : Relation.find? d.target desired.relations = some d :=
      find?_of_mem desired.distinct hd
    have hview := Observation.find?_view_of prior hfind hc
    -- a priority was asked for, so the confirmed one is shown
    have hshown : (Observation.shown prior d c).priority = c.priority := if_pos hexplicit
    have hcx' : (Observation.shown prior d c).priority.explicit? = some x := by rw [hshown, hcx]
    show (Relation.find? d.target _).bind (fun seen => seen.priority.explicit?.bind _) = _
    rw [hview, Option.bind_some, hcx', hx]
    rfl

/-- The order check finds no violation in a list that confirms in its order what the declaration
asks for. -/
theorem check_of_inOrder {m : MemoryRemote} (h : InOrder m desired.relations relations)
    (free : ∀ d ∈ desired.relations, d.priority.isExplicit = true → m.pinned d.target = none) :
    (check desired (Observation.of desired prior relations).view).violations = [] ∧
      (check desired (Observation.of desired prior relations).view).checked =
        (desired.relations.filter (·.priority.isExplicit)).length := by
  have asked : ∀ {d v}, d ∈ desired.relations → d.priority = .explicit v →
      Asked m desired.relations d.target v := by
    intro d v hd hv
    exact ⟨free d hd (Priority.isExplicit_iff.2 ⟨v, hv⟩), d, hd, rfl, hv⟩
  have confirmed : ∀ d ∈ desired.relations, d.priority.isExplicit = true →
      (number? d.target relations).isSome = true := by
    intro d hd he
    obtain ⟨v, hv⟩ := Priority.isExplicit_iff.1 he
    exact h.confirmed (asked hd hv)
  have hentries := entries_of_confirmed prior confirmed
  -- an entry of the check has the priority that was asked for and the one that was confirmed
  have of_mem : ∀ {e}, e ∈ entries desired (Observation.of desired prior relations).view →
      Asked m desired.relations e.target e.desired ∧
        number? e.target relations = some e.confirmed := by
    intro e he
    rw [hentries, List.mem_filterMap] at he
    obtain ⟨d, hd, he⟩ := he
    obtain ⟨v, hv, he⟩ := Option.bind_eq_some_iff.1 he
    obtain ⟨x, hx, rfl⟩ := Option.map_eq_some_iff.1 he
    exact ⟨asked hd (Priority.explicit?_eq_some_iff.1 hv), hx⟩
  constructor
  · refine violationsFrom_eq_nil fun a ha b hb hlt => ?_
    obtain ⟨haskedA, hxA⟩ := of_mem (List.mem_mergeSort.1 ha)
    obtain ⟨haskedB, hxB⟩ := of_mem (List.mem_mergeSort.1 hb)
    obtain ⟨x, y, hx, hy, hxy⟩ := h.increasing haskedA haskedB hlt
    rw [Option.some.inj (hxA.symm.trans hx), Option.some.inj (hxB.symm.trans hy)]
    exact hxy
  · rw [check, hentries, List.length_filterMap_eq_countP, List.countP_eq_length_filter]
    refine congrArg List.length (List.filter_congr fun d hd => ?_)
    cases hv : d.priority with
    | unset => rfl
    | explicit v =>
      obtain ⟨x, hx⟩ := Option.isSome_iff_exists.1 (h.confirmed (asked hd hv))
      rw [hx]
      rfl

end OrderReport

/-- **Renumbering keeps the declared order.**  On a remote in memory, whatever it holds and was
asked before, a cycle that ends well reports no violation of the declared order and compares every
target for which a priority was asked, unless such a target is pinned. -/
theorem reconcile_keeps_order {m n : MemoryRemote} {owner : OwnerId} {previous desired : DesiredSet}
    {prior : List Relation} {r : Reconciliation}
    (free : ∀ d ∈ desired.relations, d.priority.isExplicit = true → m.pinned d.target = none)
    (h : (Cycle.reconcile MemoryRemote.remote owner false previous desired prior).Yields m r n) :
    r.ordering.violations = [] ∧
      r.ordering.checked = (desired.relations.filter (·.priority.isExplicit)).length := by
  obtain ⟨as, k, actual, ha, hl, rfl⟩ := Cycle.yields_reconcile.1 h
  obtain ⟨hk, -⟩ := MemoryRemote.relations?_of_list hl
  obtain ⟨hpinned, hkept⟩ := MemoryRemote.orderKept_apply desired.distinct ha
  refine OrderReport.check_of_inOrder (hkept.list hk) fun d hd he => ?_
  rw [hpinned]
  exact free d hd he

/-- An owner with a repeated target, an undeclared relation and numbers of which nothing is on
record. -/
def crowdedRemote : MemoryRemote :=
  { MemoryRemote.ofOwners
      [("app", [⟨⟨"b"⟩, .explicit 7, .empty⟩, ⟨⟨"x"⟩, .explicit 1, .empty⟩,
        ⟨⟨"b"⟩, .explicit 0, .empty⟩])] with
    compacting := true }

def unsortedDesired : DesiredSet :=
  ⟨[⟨⟨"a"⟩, .explicit 5, .empty⟩, ⟨⟨"b"⟩, .explicit (-3), .empty⟩, .bare ⟨"c"⟩,
    ⟨⟨"d"⟩, .explicit 5, .empty⟩],
    by decide, by decide⟩

theorem reconcile_keeps_order_sample :
    ∃ r n, (Cycle.reconcile MemoryRemote.remote ⟨"app"⟩ false .empty unsortedDesired []).Yields
        crowdedRemote r n ∧ r.ordering.violations = [] ∧ r.ordering.checked = 3 := by
  obtain ⟨r, hr⟩ : ∃ r,
      ((Cycle.reconcile MemoryRemote.remote ⟨"app"⟩ false .empty unsortedDesired []).run
        crowdedRemote).result = .ok r := ⟨_, rfl⟩
  have free : ∀ d ∈ unsortedDesired.relations, d.priority.isExplicit = true →
      crowdedRemote.pinned d.target = none := fun _ _ _ => rfl
  obtain ⟨hviolations, hchecked⟩ := reconcile_keeps_order free (Action.yields_of_result hr)
  exact ⟨r, _, Action.yields_of_result hr, hviolations, hchecked⟩

end Roster
