/-
A cycle brings the remote to the declaration.

On a remote in memory, a cycle that ends well leaves the list of its owner as declared: what the
last set had and the new one lacks is gone, every declared relation is there with its payload, and
all that nobody declared stays as it was.  What the cycle shows is that list, declared targets
first.

* `relations?_deleteAll`, `sent_upsertAll`: the two halves of a batch;
* `Converged`, `converged_of_apply`: the list after a batch compared with the list before it;
* `Observation.Complete`, `Observation.complete_of`: what is shown of a list that has every declared
  target once;
* `reconcile_converges`: both for a whole cycle.
-/
import Roster.Proofs.Cycle
import Roster.Proofs.MemoryRemote

namespace Roster

open Roster.Relation

theorem Plan.notMem_toDelete_between (old new : DesiredSet) :
    ∀ d ∈ (between old new).toUpsert, d.target ∉ (between old new).toDelete := by
  intro d hd hm
  exact (mem_toDelete_between.1 hm).2 (mem_targets.2 ⟨d, hd, rfl⟩)

namespace MemoryRemote

variable {m n : MemoryRemote} {owner : OwnerId} {id : TargetId}

/-- A delete that ends well keeps the part of the list without its target, whether or not it was
there. -/
theorem relations?_deleteOne {target : TargetId} {a : Applied}
    (hf : m.failures .delete target ≠ some .notFound)
    (h : (Batch.deleteOne remote owner target).Yields m a n) :
    n.relations? owner = (m.relations? owner).map (part fun id => decide (id ≠ target)) := by
  have hd := Batch.yields_deleteOne.1 h
  cases he : m.failures .delete target with
  | some error =>
    -- a refused delete ends well only if the refusal is an absence, which is ruled out
    have hr : remote.delete owner target m = _ := delete_of_failure he
    rcases hd with ⟨hd, -⟩ | ⟨hd, -⟩
    · rw [hr] at hd
      cases hd
    · rw [hr] at hd
      cases hd
      exact absurd he hf
  | none =>
    cases hr : m.relations? owner with
    | none =>
      have hn := congrArg Prod.snd (delete_of_noOwner he hr)
      have : n = m.record (.delete owner target) := by
        rcases hd with ⟨hd, -⟩ | ⟨hd, -⟩ <;> exact (congrArg Prod.snd hd).symm.trans hn
      rw [this, relations?_record, hr]
      rfl
    | some relations =>
      have hn : n = (delete owner target m).2 := by
        rcases hd with ⟨hd, -⟩ | ⟨hd, -⟩ <;> exact (congrArg Prod.snd hd).symm
      by_cases ht : target ∈ targets relations
      · rw [hn, delete_of_mem he hr ht, relations?_setRelations_self]
        rfl
      · rw [hn, delete_of_notMem he hr ht, relations?_record, hr, Option.map_some, part_eq_self]
        exact fun id hid => decide_eq_true fun hi : id = target => ht (hi ▸ hid)

/-- Deletes that end well keep the part of the list without their targets. -/
theorem relations?_deleteAll {ids : List TargetId} {as : List Applied}
    (hf : ∀ id, m.failures .delete id ≠ some .notFound)
    (h : (Batch.deleteAll remote owner false ids).Yields m as n) :
    SameSettings m n ∧
      n.relations? owner = (m.relations? owner).map (part fun id => decide (id ∉ ids)) := by
  simp only [Batch.deleteAll, Bool.false_eq_true, if_false] at h
  induction ids generalizing m as with
  | nil =>
    obtain ⟨-, rfl⟩ := Action.yields_mapM_nil.1 h
    refine ⟨.refl n, ?_⟩
    have hp : part (fun id => decide (id ∉ ([] : List TargetId))) = id :=
      funext fun rs => part_eq_self fun id _ => by simp
    rw [hp, Option.map_id, id]
  | cons id ids ih =>
    obtain ⟨a, k, as', ha, hk, -⟩ := Action.yields_mapM_cons.1 h
    have hs : SameSettings m k := by
      rw [← ha.state, Batch.state_deleteOne]
      exact same_delete owner id m
    -- what one delete keeps and then the others, in one condition
    obtain ⟨hs', hr⟩ := ih (by rwa [hs.failures]) hk
    refine ⟨hs.trans hs', ?_⟩
    rw [hr, relations?_deleteOne (hf id) ha, Option.map_map]
    congr 1
    funext rs
    rw [Function.comp_apply, part_part]
    refine part_congr fun other _ => ?_
    simp [Bool.and_comm]

theorem exists_yields_deleteOne (hf : m.failures .delete id = none) (owner : OwnerId) :
    ∃ a n, (Batch.deleteOne remote owner id).Yields m a n ∧ SameSettings m n := by
  have hs : SameSettings m (delete owner id m).2 := same_delete owner id m
  -- an absent owner and an absent target are no failures of a delete
  cases hr : m.relations? owner with
  | none =>
    have hd := delete_of_noOwner hf hr
    rw [hd] at hs
    exact ⟨_, _, Batch.yields_deleteOne.2 (.inr ⟨hd, rfl⟩), hs⟩
  | some relations =>
    by_cases ht : id ∈ targets relations
    · have hd := delete_of_mem hf hr ht
      rw [hd] at hs
      exact ⟨_, _, Batch.yields_deleteOne.2 (.inl ⟨hd, rfl⟩), hs⟩
    · have hd := delete_of_notMem hf hr ht
      rw [hd] at hs
      exact ⟨_, _, Batch.yields_deleteOne.2 (.inr ⟨hd, rfl⟩), hs⟩

/-- A remote that refuses no delete carries all of them out. -/
theorem exists_yields_deleteAll (hf : ∀ id, m.failures .delete id = none) (owner : OwnerId)
    (ids : List TargetId) : ∃ as n, (Batch.deleteAll remote owner false ids).Yields m as n := by
  simp only [Batch.deleteAll, Bool.false_eq_true, if_false]
  have step : ∀ id ∈ ids, ∀ k, SameSettings m k →
      ∃ a n, (Batch.deleteOne remote owner id).Yields k a n ∧ SameSettings m n := by
    intro id _ k hk
    have hf' : k.failures .delete id = none := by rw [hk.failures, hf]
    obtain ⟨a, n, h, hs⟩ := exists_yields_deleteOne hf' owner
    exact ⟨a, n, h, hk.trans hs⟩
  obtain ⟨as, n, h, -⟩ := Action.exists_yields_mapM step (.refl m)
  exact ⟨as, n, h⟩

/-- An upsert that ends well puts the relation into the list, and was not refused. -/
theorem relations?_upsertOne {d : Relation} {before : List Relation} {a : Applied}
    (hr : m.relations? owner = some before) (h : (Batch.upsertOne remote owner d).Yields m a n) :
    SameSettings m n ∧
    n.relations? owner = some ((m.noted owner d).relationsAfter owner d before) := by
  obtain ⟨hu, -⟩ := Batch.yields_upsertOne.1 h
  have hs : SameSettings m n := by
    rw [← h.state, Batch.state_upsertOne]
    exact same_upsert owner d m
  obtain ⟨relations, hrs, rfl⟩ := of_upsert_ok hu
  obtain rfl : before = relations := Option.some.inj (hr.symm.trans hrs)
  exact ⟨hs, relations?_setRelations_self ..⟩

/-- Relations that are sent to distinct targets and accepted make the list what `Sent` says. -/
theorem sent_upsertAll {ds before : List Relation} {as : List Applied}
    (hd : (targets ds).Nodup) (hr : m.relations? owner = some before)
    (h : (Batch.upsertAll remote owner false ds).Yields m as n) :
    SameSettings m n ∧ ∃ after, n.relations? owner = some after ∧ Sent m ds before after := by
  simp only [Batch.upsertAll, Bool.false_eq_true, if_false] at h
  induction ds generalizing m before as with
  | nil =>
    obtain ⟨-, rfl⟩ := Action.yields_mapM_nil.1 h
    exact ⟨.refl n, before, hr, sent_nil n before⟩
  | cons d ds ih =>
    obtain ⟨a, k, as', ha, hk, -⟩ := Action.yields_mapM_cons.1 h
    rw [targets_cons, List.nodup_cons] at hd
    obtain ⟨hs, hkr⟩ := relations?_upsertOne hr ha
    obtain ⟨hs', after, hafter, hsent⟩ := ih hd.2 hkr hk
    refine ⟨hs.trans hs', after, hafter, Sent.cons hd.1 ?_ (hsent.of_same hs)⟩
    -- the request that is recorded first changes how the list is ranked, and no setting
    exact (sent_single (m.noted owner d) owner d before).of_same (same_noted m owner d)

/-- Deletes leave the settings of the remote alone, wherever they end. -/
theorem same_deleteAll (m : MemoryRemote) (owner : OwnerId) (ids : List TargetId) :
    SameSettings m ((Batch.deleteAll remote owner false ids).run m).state := by
  refine Batch.invariant_deleteAll (P := fun k => SameSettings m k) (fun id _ k hk => ?_) (.refl m)
  exact SameSettings.trans hk (same_delete owner id k)

/-- A batch leaves the settings of the remote alone, wherever it ends. -/
theorem same_apply (m : MemoryRemote) (owner : OwnerId) (plan : Plan) :
    SameSettings m ((Batch.apply remote owner false plan).run m).state := by
  refine Batch.invariant_apply (P := fun k => SameSettings m k) (fun id _ k hk => ?_)
    (fun r _ k hk => ?_) (.refl m)
  · exact SameSettings.trans hk (same_delete owner id k)
  · exact SameSettings.trans hk (same_upsert owner r k)

/-- An owner that the remote does not know is not made by sending relations. -/
theorem noOwner_upsertAll {ds : List Relation} {as : List Applied} (hr : m.relations? owner = none)
    (h : (Batch.upsertAll remote owner false ds).Yields m as n) : n.relations? owner = none := by
  simp only [Batch.upsertAll, Bool.false_eq_true, if_false] at h
  cases ds with
  | nil =>
    obtain ⟨-, rfl⟩ := Action.yields_mapM_nil.1 h
    exact hr
  | cons d ds =>
    obtain ⟨a, k, as', ha, -, -⟩ := Action.yields_mapM_cons.1 h
    -- the first of them would have been refused
    obtain ⟨relations, hrs, -⟩ := of_upsert_ok (Batch.yields_upsertOne.1 ha).1
    rw [hr] at hrs
    cases hrs

/-- What the remote lists is the list of the owner, and listing changes none. -/
theorem relations?_of_list {relations : List Relation}
    (h : remote.list owner m = (.ok relations, n)) :
    m.relations? owner = some relations ∧ n.relations? owner = some relations := by
  cases hr : m.relations? owner with
  | none =>
    rw [list_of_noOwner hr] at h
    cases h
  | some rs =>
    rw [list_of_owner hr] at h
    cases h
    exact ⟨rfl, hr⟩

/-- Whether nobody declares a target. -/
def undeclared (desired : DesiredSet) (id : TargetId) : Bool := decide (id ∉ desired.targets)

/-- Whether a target is neither declared nor deleted for having been declared before. -/
def survives (previous desired : DesiredSet) (id : TargetId) : Bool :=
  decide (id ∉ previous.targets ∧ id ∉ desired.targets)

/-- How the list `after` a batch compares with the list `before` it, on a remote with the settings
of `m`. -/
structure Converged (m : MemoryRemote) (previous desired : DesiredSet)
    (before after : List Relation) :
    Prop where
  /-- What was declared before and is no more is gone, what is new stands at the end. -/
  targets : targets after =
    ((targets before).filter fun id => decide (id ∉ previous.targets ∨ id ∈ desired.targets)) ++
      desired.targets.filter fun id => decide (id ∉ Relation.targets before)
  payload : ∀ d ∈ desired.relations, (find? d.target after).map (·.payload) = some d.payload
  survivors : cores (part (undeclared desired) after) =
    cores (part (survives previous desired) before)
  stored : m.compacting = false → ∀ d ∈ desired.relations, find? d.target after = some (m.stored d)
  untouched : m.compacting = false →
    part (undeclared desired) after = part (survives previous desired) before

theorem relation_undeclared {desired : DesiredSet} {d : Relation} (h : d ∈ desired.relations) :
    undeclared desired d.target = false := by
  have hd : d.target ∈ desired.targets := mem_targets.2 ⟨d, h, rfl⟩
  simp [undeclared, hd]

/-- Of the list without what a plan deletes, the undeclared part is what survives. -/
theorem part_undeclared_kept (previous desired : DesiredSet) (relations : List Relation) :
    part (undeclared desired)
        (part (fun id => decide (id ∉ (Plan.between previous desired).toDelete)) relations) =
      part (survives previous desired) relations := by
  rw [part_part]
  refine part_congr fun id _ => ?_
  by_cases hd : id ∈ desired.targets <;> by_cases hp : id ∈ previous.targets <;>
    simp [undeclared, survives, Plan.mem_toDelete_between, hd, hp]

/-- Deleting what a plan deletes and then sending what it sends brings a list to the declaration. -/
theorem Sent.converged {previous desired : DesiredSet} {before after : List Relation}
    (h : Sent m desired.relations
      (part (fun id => decide (id ∉ (Plan.between previous desired).toDelete)) before) after) :
    Converged m previous desired before after where
  targets := by
    rw [h.targets, targets_part]
    congr 1
    · -- what is not deleted was not declared before, or is declared now
      refine List.filter_congr fun id _ => ?_
      by_cases hd : id ∈ desired.targets <;> by_cases hp : id ∈ previous.targets <;>
        simp [Plan.mem_toDelete_between, hd, hp]
    · -- no declared target is deleted, so it is new exactly if it was not there
      refine List.filter_congr fun id hid => ?_
      have hk : id ∉ (Plan.between previous desired).toDelete :=
        fun hm => (Plan.mem_toDelete_between.1 hm).2 hid
      simp [hk]
  payload := h.payload
  survivors := by
    rw [h.others _ fun d hd => relation_undeclared hd, part_undeclared_kept]
  stored := h.stored
  untouched hc := by
    rw [h.untouched hc _ fun d hd => relation_undeclared hd, part_undeclared_kept]

/-- A batch that ends well brings the list of a known owner to the declaration. -/
theorem converged_of_apply {previous desired : DesiredSet} {before : List Relation}
    {as : List Applied} (hf : ∀ id, m.failures .delete id ≠ some .notFound)
    (hr : m.relations? owner = some before)
    (h : (Batch.apply remote owner false (Plan.between previous desired)).Yields m as n) :
    SameSettings m n ∧
      ∃ after, n.relations? owner = some after ∧ Converged m previous desired before after := by
  obtain ⟨ds, k, us, hd, hu, -⟩ := Batch.yields_apply.1 h
  obtain ⟨hs, hk⟩ := relations?_deleteAll hf hd
  rw [hr, Option.map_some] at hk
  obtain ⟨hs', after, hafter, hsent⟩ := sent_upsertAll desired.distinct hk hu
  exact ⟨hs.trans hs', after, hafter, (hsent.of_same hs).converged⟩

theorem noOwner_apply {plan : Plan} {as : List Applied}
    (hf : ∀ id, m.failures .delete id ≠ some .notFound) (hr : m.relations? owner = none)
    (h : (Batch.apply remote owner false plan).Yields m as n) : n.relations? owner = none := by
  obtain ⟨ds, k, us, hd, hu, -⟩ := Batch.yields_apply.1 h
  obtain ⟨-, hk⟩ := relations?_deleteAll hf hd
  rw [hr, Option.map_none] at hk
  exact noOwner_upsertAll hk hu

/-- A cycle that ends well brings the list of its owner to the declaration and shows it. -/
theorem converged_of_reconcile {previous desired : DesiredSet} {prior : List Relation}
    {r : Reconciliation} (hf : ∀ id, m.failures .delete id ≠ some .notFound)
    (h : (Cycle.reconcile remote owner false previous desired prior).Yields m r n) :
    ∃ before after, m.relations? owner = some before ∧ n.relations? owner = some after ∧
      SameSettings m n ∧ Converged m previous desired before after ∧
      r.observation = Observation.of desired prior after := by
  obtain ⟨as, k, actual, ha, hl, rfl⟩ := Cycle.yields_reconcile.1 h
  obtain ⟨hk, hn⟩ := relations?_of_list hl
  cases hr : m.relations? owner with
  | none =>
    -- the list was refused at the end, so the cycle did not end well
    rw [noOwner_apply hf hr ha] at hk
    cases hk
  | some before =>
    obtain ⟨hs, after, hafter, hc⟩ := converged_of_apply hf hr ha
    obtain rfl : after = actual := Option.some.inj (hafter.symm.trans hk)
    have hsn : SameSettings k n := by
      have := same_list owner k
      rwa [show list owner k = (.ok after, n) from hl] at this
    exact ⟨before, after, rfl, hn, hs.trans hsn, hc, rfl⟩

variable {previous desired : DesiredSet} {before after : List Relation}

/-- The settings are all that the comparison takes from the remote. -/
theorem Converged.of_same {k : MemoryRemote} (hs : SameSettings k m)
    (h : Converged m previous desired before after) :
    Converged k previous desired before after where
  targets := h.targets
  payload := h.payload
  survivors := h.survivors
  stored hc d hd := by
    rw [← hs.stored_eq]
    exact h.stored (hs.compacting.trans hc) d hd
  untouched hc := h.untouched (hs.compacting.trans hc)

theorem Converged.nodup (h : Converged m previous desired before after)
    (hd : (Relation.targets before).Nodup) : (Relation.targets after).Nodup := by
  rw [h.targets]
  refine List.nodup_append.2 ⟨hd.filter _, desired.distinct.filter _, ?_⟩
  rintro id hb _ ha rfl
  have := (List.mem_filter.1 ha).2
  exact absurd (List.mem_filter.1 hb).1 (by simpa using this)

theorem Converged.mem_targets (h : Converged m previous desired before after) {id : TargetId}
    (hid : id ∈ desired.targets) : id ∈ Relation.targets after := by
  rw [h.targets, List.mem_append, List.mem_filter, List.mem_filter]
  by_cases hb : id ∈ Relation.targets before
  · exact .inl ⟨hb, by simp [hid]⟩
  · exact .inr ⟨hid, by simp [hb]⟩

end MemoryRemote

open MemoryRemote (undeclared survives)

/-- What is shown of a list in which every declared target stands once: the declared targets in
declared order, and then all that nobody declared. -/
structure Observation.Complete (o : Observation) (desired : DesiredSet)
    (prior after : List Relation) :
    Prop where
  dropped : o.dropped = []
  view : o.view = declaredPart desired prior after ++ part (undeclared desired) after
  targets : Relation.targets o.view = desired.targets ++
    Relation.targets (part (undeclared desired) after)
  drift : o.drift = Relation.targets (part (undeclared desired) after)

theorem Observation.complete_of {desired : DesiredSet} {after : List Relation}
    (hd : (Relation.targets after).Nodup) (hm : ∀ id ∈ desired.targets, id ∈ Relation.targets after)
    (prior : List Relation) :
    (Observation.of desired prior after).Complete desired prior after := by
  -- no target is repeated, so no undeclared relation is skipped
  have hu : undeclaredPart desired after = part (undeclared desired) after :=
    firsts_eq_part hd desired.targets
  have ht : Relation.targets (declaredPart desired prior after) = desired.targets := by
    rw [targets_declaredPart, List.filter_eq_self]
    exact fun id hid => decide_eq_true (hm id hid)
  rw [of_eq]
  refine ⟨?_, ?_, ?_, ?_⟩
  · exact List.filter_eq_nil_iff.2 fun id hid => by simp [hm id hid]
  · exact congrArg _ hu
  · rw [targets_append, ht, hu]
  · rw [hu]

/-- **A cycle converges.**  A cycle that ends well leaves exactly the targets that are declared or
that nobody declared, now or before: those that stay in their old order, and then the new ones in
declared order.  The declared ones hold what is declared, with their priority unless it is pinned or
renumbered; the others are as they were.  The view lists both, the declared ones first. -/
theorem reconcile_converges {m n : MemoryRemote} {owner : OwnerId} {previous desired : DesiredSet}
    {prior : List Relation} {r : Reconciliation}
    (distinct : ∀ rs, m.relations? owner = some rs → (targets rs).Nodup)
    (honest : ∀ id, m.failures .delete id ≠ some .notFound)
    (h : (Cycle.reconcile MemoryRemote.remote owner false previous desired prior).Yields m r n) :
    ∃ before after, m.relations? owner = some before ∧ n.relations? owner = some after ∧
      targets after =
        ((targets before).filter fun id => decide (id ∉ previous.targets ∨ id ∈ desired.targets)) ++
          (desired.targets.filter fun id => decide (id ∉ targets before)) ∧
      (targets after).Nodup ∧
      (∀ d ∈ desired.relations, ∃ e, find? d.target after = some e ∧ e.payload = d.payload) ∧
      cores (part (undeclared desired) after) = cores (part (survives previous desired) before) ∧
      (m.compacting = false →
        part (undeclared desired) after = part (survives previous desired) before ∧
        ∀ d ∈ desired.relations, m.pinned d.target = none → find? d.target after = some d) ∧
      r.observation.Complete desired prior after := by
  obtain ⟨before, after, hb, ha, -, hc, hr⟩ := MemoryRemote.converged_of_reconcile honest h
  have hd : (targets after).Nodup := hc.nodup (distinct before hb)
  refine ⟨before, after, hb, ha, hc.targets, hd, ?_, hc.survivors, ?_, ?_⟩
  · intro d hd
    exact Option.map_eq_some_iff.1 (hc.payload d hd)
  · intro hn
    refine ⟨hc.untouched hn, fun d hd hp => ?_⟩
    rw [hc.stored hn d hd, MemoryRemote.stored_of_notPinned hp]
  · rw [hr]
    exact Observation.complete_of hd (fun id hid => hc.mem_targets hid) prior

/-- An owner with a relation to drop, one that nobody declared and one that is declared again and
pinned. -/
def sampleRemote : MemoryRemote :=
  { MemoryRemote.ofOwners
      [("app", [⟨⟨"a"⟩, .explicit 5, .empty⟩, .bare ⟨"b"⟩, .bare ⟨"c"⟩])] with
    pinned := fun id => if id = ⟨"c"⟩ then some 9 else none }

def samplePrevious : DesiredSet := ⟨[.bare ⟨"a"⟩, .bare ⟨"c"⟩], by decide, by decide⟩

def sampleDesired : DesiredSet :=
  ⟨[⟨⟨"d"⟩, .explicit 0, .ofList [("role", .string "admin")]⟩, ⟨⟨"c"⟩, .explicit 2, .empty⟩],
    by decide, by decide⟩

theorem sampleBare_named : ∀ r ∈ [Relation.bare ⟨"a"⟩], r.target.text ≠ "" := by decide

theorem sampleBare_distinct : (targets [.bare ⟨"a"⟩]).Nodup := by decide

theorem sampleRemote_distinct (rs : List Relation) (h : sampleRemote.relations? ⟨"app"⟩ = some rs) :
    (targets rs).Nodup := by
  obtain rfl : [⟨⟨"a"⟩, .explicit 5, .empty⟩, .bare ⟨"b"⟩, .bare ⟨"c"⟩] = rs := Option.some.inj h
  decide

theorem reconcile_converges_sample :
    ∃ r n after,
      (Cycle.reconcile MemoryRemote.remote ⟨"app"⟩ false samplePrevious sampleDesired []).Yields
        sampleRemote r n ∧
      n.relations? ⟨"app"⟩ = some after ∧ targets after = [⟨"b"⟩, ⟨"c"⟩, ⟨"d"⟩] ∧
      find? ⟨"d"⟩ after = some ⟨⟨"d"⟩, .explicit 0, .ofList [("role", .string "admin")]⟩ ∧
      r.observation.dropped = [] := by
  obtain ⟨r, hr⟩ : ∃ r, ((Cycle.reconcile MemoryRemote.remote ⟨"app"⟩ false samplePrevious
      sampleDesired []).run sampleRemote).result = .ok r := ⟨_, rfl⟩
  obtain ⟨before, after, hb, ha, ht, -, -, -, hp, hc⟩ :=
    reconcile_converges sampleRemote_distinct (fun _ => nofun) (Action.yields_of_result hr)
  obtain rfl : [⟨⟨"a"⟩, .explicit 5, .empty⟩, .bare ⟨"b"⟩, .bare ⟨"c"⟩] = before :=
    Option.some.inj hb
  refine ⟨r, _, after, Action.yields_of_result hr, ha, ht.trans (by decide), ?_, hc.dropped⟩
  exact (hp rfl).2 _ List.mem_cons_self (by decide)

end Roster
