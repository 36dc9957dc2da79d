/-
A remote that several owners share.

What a remote in memory answers to the requests for an owner depends on its settings, on the list of
the owner and on the priorities that were asked for there.  Requests for other owners leave all of
these alone, so a cycle for the owner ends alike whatever was sent for the others before.

* `Remote.only`: a remote as far as it serves one owner, `only_reconcile` and its like: a cycle for
  that owner makes do with it;
* `Unseen`: relations of remotes that the requests for an owner do not show, and keep;
* `SameFor`: remotes that agree for an owner, `sameFor_upsert_of_ne`, `sameFor_delete_of_ne`:
  requests for others;
* `alike_reconcile`, `alike_read`, `alike_clear`: cycles for the owner on remotes that agree for it.
-/
import Roster.Proofs.MemoryRemote
import Roster.Proofs.Simulation

namespace Roster

variable {σ : Type}

/-! ### One owner -/

/-- The remote as far as it serves one owner: it knows no other. -/
def Remote.only (owner : OwnerId) (remote : Remote σ) : Remote σ where
  upsert other r s := if other = owner then remote.upsert other r s else (.error .notFound, s)
  delete other id s := if other = owner then remote.delete other id s else (.error .notFound, s)
  list other s := if other = owner then remote.list other s else (.error .notFound, s)

namespace Batch

theorem only_deleteAll (remote : Remote σ) (owner : OwnerId) (rehearse : Bool)
    (ids : List TargetId) :
    deleteAll (remote.only owner) owner rehearse ids = deleteAll remote owner rehearse ids := by
  have hone : deleteOne (remote.only owner) owner = deleteOne remote owner := by
    funext id s
    simp only [deleteOne, Remote.only, if_true]
  rw [deleteAll, hone, deleteAll]

theorem only_upsertAll (remote : Remote σ) (owner : OwnerId) (rehearse : Bool)
    (rs : List Relation) :
    upsertAll (remote.only owner) owner rehearse rs = upsertAll remote owner rehearse rs := by
  have hone : upsertOne (remote.only owner) owner = upsertOne remote owner := by
    funext r s
    simp only [upsertOne, Remote.only, if_true]
  rw [upsertAll, hone, upsertAll]

theorem only_apply (remote : Remote σ) (owner : OwnerId) (rehearse : Bool) (plan : Plan) :
    apply (remote.only owner) owner rehearse plan = apply remote owner rehearse plan := by
  simp only [apply, only_deleteAll, only_upsertAll]

end Batch

namespace Cycle

theorem only_read (remote : Remote σ) (owner : OwnerId) (desired : DesiredSet)
    (prior : List Relation) :
    read (remote.only owner) owner desired prior = read remote owner desired prior := by
  have hfetch : fetch (remote.only owner) owner = fetch remote owner := by
    funext s
    simp only [fetch, Remote.only, if_true]
  rw [read, hfetch, read]

theorem only_reconcile (remote : Remote σ) (owner : OwnerId) (rehearse : Bool)
    (previous desired : DesiredSet) (prior : List Relation) :
    reconcile (remote.only owner) owner rehearse previous desired prior =
      reconcile remote owner rehearse previous desired prior := by
  simp only [reconcile, Batch.only_apply, only_read]

end Cycle

namespace MemoryRemote

open Roster.Action (Alike)

variable {m n k : MemoryRemote} {owner other : OwnerId}

/-! ### Remotes that agree for an owner -/

/-- The remotes agree in their settings and in all that they hold of the owner. -/
structure SameFor (owner : OwnerId) (m n : MemoryRemote) : Prop where
  settings : SameSettings m n
  list : n.relations? owner = m.relations? owner
  requested : n.requested owner = m.requested owner

theorem SameFor.refl (owner : OwnerId) (m : MemoryRemote) : SameFor owner m m := ⟨.refl m, rfl, rfl⟩

theorem SameFor.trans (h : SameFor owner m n) (h' : SameFor owner n k) : SameFor owner m k :=
  ⟨h.settings.trans h'.settings, h'.list.trans h.list, h'.requested.trans h.requested⟩

theorem SameFor.symm (h : SameFor owner m n) : SameFor owner n m :=
  ⟨⟨h.settings.compacting.symm, h.settings.pinned.symm, h.settings.failures.symm⟩, h.list.symm,
    h.requested.symm⟩

/-- What is recorded does not show. -/
theorem SameFor.record (h : SameFor owner m n) (call : Call) :
    SameFor owner (m.record call) (n.record call) :=
  ⟨⟨h.settings.compacting, h.settings.pinned, h.settings.failures⟩, h.list, h.requested⟩

theorem SameFor.request (h : SameFor owner m n) (target : TargetId) (value : Option Int) :
    SameFor owner (m.request owner target value) (n.request owner target value) where
  settings := ⟨h.settings.compacting, h.settings.pinned, h.settings.failures⟩
  list := h.list
  requested := by
    funext id
    simp only [MemoryRemote.request, h.requested]

theorem SameFor.setRelations (h : SameFor owner m n) (relations : List Relation) :
    SameFor owner (m.setRelations owner relations) (n.setRelations owner relations) where
  settings := ⟨h.settings.compacting, h.settings.pinned, h.settings.failures⟩
  list := by rw [relations?_setRelations_self, relations?_setRelations_self]
  requested := h.requested

/-- Renumbering looks at nothing else. -/
theorem SameFor.relationsAfter (h : SameFor owner m n) (r : Relation) (relations : List Relation) :
    n.relationsAfter owner r relations = m.relationsAfter owner r relations := by
  have hslots : ∀ relations, n.slots owner relations = m.slots owner relations := by
    intro relations
    simp only [slots, h.settings.pinned, h.requested]
  simp only [MemoryRemote.relationsAfter, compacted, ranking, hslots, h.settings.stored_eq,
    h.settings.compacting]

/-- A relation of remotes that no answer to the requests for an owner shows, and that they keep. -/
structure Unseen (owner : OwnerId) (R : MemoryRemote → MemoryRemote → Prop) : Prop where
  failures : ∀ m n, R m n → n.failures = m.failures
  list : ∀ m n, R m n → n.relations? owner = m.relations? owner
  record : ∀ m n, R m n → ∀ call, R (m.record call) (n.record call)
  request : ∀ m n, R m n → ∀ target value,
    R (m.request owner target value) (n.request owner target value)
  setRelations : ∀ m n, R m n →
    ∀ relations, R (m.setRelations owner relations) (n.setRelations owner relations)
  relationsAfter : ∀ m n, R m n → ∀ r relations,
    n.relationsAfter owner r relations = m.relationsAfter owner r relations

theorem unseen_sameFor (owner : OwnerId) : Unseen owner (SameFor owner) where
  failures _ _ h := h.settings.failures
  list _ _ h := h.list
  record _ _ h := h.record
  request _ _ h := h.request
  setRelations _ _ h := h.setRelations
  relationsAfter _ _ h := h.relationsAfter

variable {R : MemoryRemote → MemoryRemote → Prop}

theorem Unseen.upsert (hR : Unseen owner R) (h : R m n) (r : Relation) :
    (upsert owner r m).1 = (upsert owner r n).1 ∧ R (upsert owner r m).2 (upsert owner r n).2 := by
  have hrecord := hR.record m n h (.upsert owner r.target)
  cases hf : m.failures .upsert r.target with
  | some error =>
    rw [upsert_of_failure hf, upsert_of_failure (hR.failures m n h ▸ hf)]
    exact ⟨rfl, hrecord⟩
  | none =>
    have hf' : n.failures .upsert r.target = none := hR.failures m n h ▸ hf
    cases hr : m.relations? owner with
    | none =>
      rw [upsert_of_noOwner hf hr, upsert_of_noOwner hf' ((hR.list m n h).trans hr)]
      exact ⟨rfl, hrecord⟩
    | some relations =>
      have hnoted : R (m.noted owner r) (n.noted owner r) := hR.request _ _ hrecord _ _
      rw [upsert_of_owner hf hr, upsert_of_owner hf' ((hR.list m n h).trans hr),
        hR.relationsAfter _ _ hnoted]
      exact ⟨rfl, hR.setRelations _ _ hnoted _⟩

theorem Unseen.delete (hR : Unseen owner R) (h : R m n) (target : TargetId) :
    (delete owner target m).1 = (delete owner target n).1 ∧
      R (delete owner target m).2 (delete owner target n).2 := by
  have hrecord := hR.record m n h (.delete owner target)
  cases hf : m.failures .delete target with
  | some error =>
    rw [delete_of_failure hf, delete_of_failure (hR.failures m n h ▸ hf)]
    exact ⟨rfl, hrecord⟩
  | none =>
    have hf' : n.failures .delete target = none := hR.failures m n h ▸ hf
    cases hr : m.relations? owner with
    | none =>
      rw [delete_of_noOwner hf hr, delete_of_noOwner hf' ((hR.list m n h).trans hr)]
      exact ⟨rfl, hrecord⟩
    | some relations =>
      by_cases ht : target ∈ Relation.targets relations
      · rw [delete_of_mem hf hr ht, delete_of_mem hf' ((hR.list m n h).trans hr) ht]
        exact ⟨rfl, hR.setRelations _ _ (hR.request _ _ hrecord _ _) _⟩
      · rw [delete_of_notMem hf hr ht, delete_of_notMem hf' ((hR.list m n h).trans hr) ht]
        exact ⟨rfl, hrecord⟩

theorem Unseen.listed (hR : Unseen owner R) (h : R m n) :
    (MemoryRemote.list owner m).1 = (MemoryRemote.list owner n).1 ∧
      R (MemoryRemote.list owner m).2 (MemoryRemote.list owner n).2 := by
  have hrecord := hR.record m n h (.list owner)
  have hlist := hR.list _ _ hrecord
  rw [state_list, state_list]
  refine ⟨?_, hrecord⟩
  simp only [MemoryRemote.list, hlist]
  cases (m.record (.list owner)).relations? owner <;> rfl

/-- Remotes that agree for an owner answer its requests alike. -/
theorem simulates_only (owner : OwnerId) :
    (remote.only owner).Simulates (SameFor owner) (remote.only owner) where
  -- requests for other owners are not let through
  upsert other r s t h := by
    simp only [Remote.only]
    split
    · rename_i he
      subst he
      exact (unseen_sameFor other).upsert h r
    · exact ⟨rfl, h⟩
  delete other id s t h := by
    simp only [Remote.only]
    split
    · rename_i he
      subst he
      exact (unseen_sameFor other).delete h id
    · exact ⟨rfl, h⟩
  list other s t h := by
    simp only [Remote.only]
    split
    · rename_i he
      subst he
      exact (unseen_sameFor other).listed h
    · exact ⟨rfl, h⟩

theorem alike_read (owner : OwnerId) (desired : DesiredSet) (prior : List Relation) :
    Alike (SameFor owner) (Cycle.read remote owner desired prior)
      (Cycle.read remote owner desired prior) := by
  have h := Cycle.alike_read (simulates_only owner) owner desired prior
  rwa [Cycle.only_read] at h

theorem alike_reconcile (owner : OwnerId) (rehearse : Bool) (previous desired : DesiredSet)
    (prior : List Relation) :
    Alike (SameFor owner) (Cycle.reconcile remote owner rehearse previous desired prior)
      (Cycle.reconcile remote owner rehearse previous desired prior) := by
  have h := Cycle.alike_reconcile (simulates_only owner) owner rehearse previous desired prior
  rwa [Cycle.only_reconcile] at h

theorem alike_clear (owner : OwnerId) (rehearse : Bool) (desired : DesiredSet) :
    Alike (SameFor owner) (Cycle.clear remote owner rehearse desired)
      (Cycle.clear remote owner rehearse desired) := by
  have h :=
    Cycle.alike_ofBatch
      (Batch.alike_deleteAll (simulates_only owner) owner rehearse desired.targets)
  rwa [Batch.only_deleteAll] at h

/-! ### Requests for others -/

theorem sameFor_upsert_of_ne (h : other ≠ owner) (r : Relation) (m : MemoryRemote) :
    SameFor owner m (MemoryRemote.upsert other r m).2 where
  settings := same_upsert other r m
  list := relations?_upsert_of_ne h r m
  requested := by
    rcases hu : MemoryRemote.upsert other r m with ⟨error | _, n⟩
    · obtain rfl := of_upsert_error hu
      rfl
    · obtain ⟨relations, -, rfl⟩ := of_upsert_ok hu
      funext id
      exact if_neg fun he => h he.1.symm

theorem sameFor_delete_of_ne (h : other ≠ owner) (target : TargetId) (m : MemoryRemote) :
    SameFor owner m (MemoryRemote.delete other target m).2 where
  settings := same_delete other target m
  list := relations?_delete_of_ne h target m
  requested := by
    unfold MemoryRemote.delete
    dsimp only
    split
    · rfl
    · rfl
    · split
      · rfl
      · funext id
        exact if_neg fun he => h he.1.symm

theorem sameFor_list (owner other : OwnerId) (m : MemoryRemote) :
    SameFor owner m (MemoryRemote.list other m).2 := by
  rw [state_list]
  exact ⟨⟨rfl, rfl, rfl⟩, rfl, rfl⟩

end MemoryRemote

end Roster
