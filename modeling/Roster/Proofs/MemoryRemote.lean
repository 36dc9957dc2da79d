/-
What requests do to a remote in memory.

A request leaves the settings of the remote alone, and of the relations it changes those of its
owner only.  A delete keeps the part of the list without its target; an upsert puts the relation in
the place of the one to its target, or at the end, and may renumber the priorities of the list.

* `delete_of_mem`, `upsert_of_owner`: the requests that are carried out, and `of_upsert_ok`,
  `of_upsert_error`, `of_delete_error` for what an answer tells about a request;
* `relations?_delete_of_ne`, `relations?_upsert_of_ne`: the lists of other owners;
* `SameSettings`: what requests leave alone, `same_upsert`, `same_delete`, `same_list`;
* `Sent`: how a list compares with the one before some relations were sent, `sent_single` for one
  relation and `Sent.cons` for one after another.
-/
import Roster.Proofs.RelationLists
import Roster.Remote.Memory

namespace Roster.MemoryRemote

open Roster.Relation

variable {m n k : MemoryRemote} {owner : OwnerId}

@[simp] theorem relations?_setRelations_self (m : MemoryRemote) (owner : OwnerId)
    (relations : List Relation) :
    (m.setRelations owner relations).relations? owner = some relations :=
  Fields.get?_insert_self owner.text relations m.owners

theorem relations?_setRelations_of_ne {other : OwnerId} (h : owner ≠ other) (m : MemoryRemote)
    (relations : List Relation) :
    (m.setRelations owner relations).relations? other = m.relations? other := by
  refine Fields.get?_insert_of_ne (fun he => h ?_) relations m.owners
  cases owner
  cases other
  exact congrArg OwnerId.mk he

@[simp] theorem relations?_record (m : MemoryRemote) (call : Call) (owner : OwnerId) :
    (m.record call).relations? owner = m.relations? owner := rfl

@[simp] theorem relations?_request (m : MemoryRemote) (owner other : OwnerId) (target : TargetId)
    (value : Option Int) :
    (m.request owner target value).relations? other = m.relations? other := rfl

/-! ### Settings -/

/-- The remotes agree in what no request changes. -/
structure SameSettings (m n : MemoryRemote) : Prop where
  compacting : n.compacting = m.compacting
  pinned : n.pinned = m.pinned
  failures : n.failures = m.failures

theorem SameSettings.refl (m : MemoryRemote) : SameSettings m m := ⟨rfl, rfl, rfl⟩

theorem SameSettings.trans (h : SameSettings m n) (h' : SameSettings n k) : SameSettings m k :=
  ⟨h'.compacting.trans h.compacting, h'.pinned.trans h.pinned, h'.failures.trans h.failures⟩

theorem SameSettings.stored_eq (h : SameSettings m n) (r : Relation) : n.stored r = m.stored r := by
  rw [stored, stored, h.pinned]

/-! ### Requests -/

/-- A delete that is neither refused nor in vain. -/
theorem delete_of_mem {target : TargetId} {relations : List Relation}
    (hf : m.failures .delete target = none) (hr : m.relations? owner = some relations)
    (ht : target ∈ targets relations) :
    delete owner target m =
      (.ok (), ((m.record (.delete owner target)).request owner target none).setRelations owner
        (part (fun id => decide (id ≠ target)) relations)) := by
  -- the remote tells by the length of the list whether it deleted anything
  have hlt : (part (fun id => decide (id ≠ target)) relations).length ≠ relations.length := by
    obtain ⟨r, hm, rfl⟩ := mem_targets.1 ht
    intro he
    have := (List.length_filter_eq_length_iff.1 he) r hm
    simp at this
  have hf' : (m.record (.delete owner target)).failures .delete target = none := hf
  simp only [delete, hf', relations?_record, hr]
  exact if_neg hlt

/-- A delete of what is not there. -/
theorem delete_of_notMem {target : TargetId} {relations : List Relation}
    (hf : m.failures .delete target = none) (hr : m.relations? owner = some relations)
    (ht : target ∉ targets relations) :
    delete owner target m = (.error .notFound, m.record (.delete owner target)) := by
  have he : (part (fun id => decide (id ≠ target)) relations).length = relations.length := by
    rw [part_eq_self]
    intro id hid
    exact decide_eq_true fun he : id = target => ht (he ▸ hid)
  have hf' : (m.record (.delete owner target)).failures .delete target = none := hf
  simp only [delete, hf', relations?_record, hr]
  exact if_pos he

theorem delete_of_failure {target : TargetId} {error : RemoteError}
    (hf : m.failures .delete target = some error) :
    delete owner target m = (.error error, m.record (.delete owner target)) := by
  have hf' : (m.record (.delete owner target)).failures .delete target = some error := hf
  simp only [delete, hf']

theorem delete_of_noOwner {target : TargetId} (hf : m.failures .delete target = none)
    (hr : m.relations? owner = none) :
    delete owner target m = (.error .notFound, m.record (.delete owner target)) := by
  have hf' : (m.record (.delete owner target)).failures .delete target = none := hf
  simp only [delete, hf', relations?_record, hr]

/-- The remote once it has taken note of the upsert of a relation. -/
def noted (m : MemoryRemote) (owner : OwnerId) (r : Relation) : MemoryRemote :=
  (m.record (.upsert owner r.target)).request owner r.target r.priority.explicit?

theorem same_noted (m : MemoryRemote) (owner : OwnerId) (r : Relation) :
    SameSettings m (m.noted owner r) := ⟨rfl, rfl, rfl⟩

theorem upsert_of_owner {r : Relation} {relations : List Relation}
    (hf : m.failures .upsert r.target = none) (hr : m.relations? owner = some relations) :
    upsert owner r m =
      (.ok (), (m.noted owner r).setRelations owner
        ((m.noted owner r).relationsAfter owner r relations)) := by
  have hf' : (m.record (.upsert owner r.target)).failures .upsert r.target = none := hf
  simp only [upsert, hf', relations?_record, hr, noted]

theorem upsert_of_failure {r : Relation} {error : RemoteError}
    (hf : m.failures .upsert r.target = some error) :
    upsert owner r m = (.error error, m.record (.upsert owner r.target)) := by
  have hf' : (m.record (.upsert owner r.target)).failures .upsert r.target = some error := hf
  simp only [upsert, hf']

theorem upsert_of_noOwner {r : Relation} (hf : m.failures .upsert r.target = none)
    (hr : m.relations? owner = none) :
    upsert owner r m = (.error .notFound, m.record (.upsert owner r.target)) := by
  have hf' : (m.record (.upsert owner r.target)).failures .upsert r.target = none := hf
  simp only [upsert, hf', relations?_record, hr]

/-- An upsert that is accepted is for an owner that is there. -/
theorem of_upsert_ok {d : Relation} (h : upsert owner d m = (.ok (), n)) :
    ∃ relations, m.relations? owner = some relations ∧
      n = (m.noted owner d).setRelations owner
        ((m.noted owner d).relationsAfter owner d relations) := by
  cases hf : m.failures .upsert d.target with
  | some error =>
    rw [upsert_of_failure hf] at h
    cases h
  | none =>
    cases hr : m.relations? owner with
    | none =>
      rw [upsert_of_noOwner hf hr] at h
      cases h
    | some relations =>
      rw [upsert_of_owner hf hr] at h
      exact ⟨relations, rfl, (congrArg Prod.snd h).symm⟩

/-- An upsert that is refused is recorded and changes nothing. -/
theorem of_upsert_error {d : Relation} {error : RemoteError}
    (h : upsert owner d m = (.error error, n)) :
    n = m.record (.upsert owner d.target) := by
  cases hf : m.failures .upsert d.target with
  | some error =>
    rw [upsert_of_failure hf] at h
    exact (congrArg Prod.snd h).symm
  | none =>
    cases hr : m.relations? owner with
    | none =>
      rw [upsert_of_noOwner hf hr] at h
      exact (congrArg Prod.snd h).symm
    | some relations =>
      rw [upsert_of_owner hf hr] at h
      cases h

/-- A delete that is refused, or in vain, is recorded and changes nothing. -/
theorem of_delete_error {target : TargetId} {error : RemoteError}
    (h : delete owner target m = (.error error, n)) : n = m.record (.delete owner target) := by
  cases hf : m.failures .delete target with
  | some error =>
    rw [delete_of_failure hf] at h
    exact (congrArg Prod.snd h).symm
  | none =>
    cases hr : m.relations? owner with
    | none =>
      rw [delete_of_noOwner hf hr] at h
      exact (congrArg Prod.snd h).symm
    | some relations =>
      by_cases ht : target ∈ targets relations
      · rw [delete_of_mem hf hr ht] at h
        cases h
      · rw [delete_of_notMem hf hr ht] at h
        exact (congrArg Prod.snd h).symm

/-- A delete leaves the lists of other owners alone. -/
theorem relations?_delete_of_ne {other : OwnerId} (h : owner ≠ other) (target : TargetId)
    (m : MemoryRemote) : (delete owner target m).2.relations? other = m.relations? other := by
  unfold delete
  dsimp only
  split
  · rfl
  · rfl
  · split
    · rfl
    · rw [relations?_setRelations_of_ne h, relations?_request, relations?_record]

theorem relations?_upsert_of_ne {other : OwnerId} (h : owner ≠ other) (r : Relation)
    (m : MemoryRemote) : (upsert owner r m).2.relations? other = m.relations? other := by
  unfold upsert
  dsimp only
  split
  · rfl
  · rfl
  · rw [relations?_setRelations_of_ne h, relations?_request, relations?_record]

theorem same_delete (owner : OwnerId) (target : TargetId) (m : MemoryRemote) :
    SameSettings m (delete owner target m).2 := by
  unfold delete
  dsimp only
  split
  · exact ⟨rfl, rfl, rfl⟩
  · exact ⟨rfl, rfl, rfl⟩
  · split <;> exact ⟨rfl, rfl, rfl⟩

theorem same_upsert (owner : OwnerId) (r : Relation) (m : MemoryRemote) :
    SameSettings m (upsert owner r m).2 := by
  unfold upsert
  dsimp only
  split <;> exact ⟨rfl, rfl, rfl⟩

/-- Listing is recorded and changes nothing. -/
theorem state_list (owner : OwnerId) (m : MemoryRemote) :
    (list owner m).2 = m.record (.list owner) := by
  unfold list
  dsimp only
  split <;> rfl

theorem same_list (owner : OwnerId) (m : MemoryRemote) : SameSettings m (list owner m).2 := by
  rw [state_list]
  exact ⟨rfl, rfl, rfl⟩

theorem list_of_owner {relations : List Relation} (hr : m.relations? owner = some relations) :
    remote.list owner m = (.ok relations, m.record (.list owner)) := by
  simp only [remote, list, relations?_record, hr]

theorem list_of_noOwner (hr : m.relations? owner = none) :
    remote.list owner m = (.error .notFound, m.record (.list owner)) := by
  simp only [remote, list, relations?_record, hr]

/-! ### Putting a relation in its place -/

theorem targets_putFirst_of_notMem {r : Relation} {relations : List Relation}
    (h : r.target ∉ targets relations) :
    targets (putFirst r relations) = targets relations ++ [r.target] := by
  induction relations with
  | nil => rfl
  | cons s rest ih =>
    rw [targets_cons, List.mem_cons, not_or] at h
    rw [putFirst, if_neg (Ne.symm h.1), targets_cons, targets_cons, ih h.2]
    rfl

theorem mem_putFirst {r s : Relation} {relations : List Relation} (h : s ∈ putFirst r relations) :
    s = r ∨ s ∈ relations := by
  induction relations with
  | nil => exact .inl (List.mem_singleton.1 h)
  | cons t rest ih =>
    rw [putFirst] at h
    split at h
    · exact (List.mem_cons.1 h).imp_right (List.mem_cons_of_mem _)
    · rcases List.mem_cons.1 h with rfl | h
      · exact .inr List.mem_cons_self
      · exact (ih h).imp_right (List.mem_cons_of_mem _)

theorem find?_putFirst (id : TargetId) (r : Relation) (relations : List Relation) :
    find? id (putFirst r relations) = if r.target = id then some r else find? id relations := by
  induction relations with
  | nil => exact find?_cons id r []
  | cons s rest ih =>
    rw [putFirst]
    -- the first relation to the target gives way, and no later one is looked at
    by_cases hs : s.target = r.target
    · rw [if_pos hs, find?_cons, find?_cons]
      split
      · rfl
      · rename_i hr
        rw [if_neg (by rwa [hs])]
    · rw [if_neg hs, find?_cons, find?_cons, ih]
      by_cases hr : r.target = id
      · rw [if_pos hr, if_pos hr, if_neg (by rwa [← hr])]
      · rw [if_neg hr, if_neg hr]

/-- A part that the target is not in stays as it is. -/
theorem part_putFirst {p : TargetId → Bool} {r : Relation} (h : p r.target = false)
    (relations : List Relation) : part p (putFirst r relations) = part p relations := by
  induction relations with
  | nil => rw [putFirst, part_cons, if_neg (by simp [h])]
  | cons s rest ih =>
    rw [putFirst]
    by_cases hs : s.target = r.target
    · rw [if_pos hs, part_cons, part_cons, hs]
      simp [h]
    · rw [if_neg hs, part_cons, part_cons, ih]

/-- In a part that the target is in it is put into its place as well. -/
theorem part_putFirst_of_mem {p : TargetId → Bool} {r : Relation} (h : p r.target = true)
    (relations : List Relation) :
    part p (putFirst r relations) = putFirst r (part p relations) := by
  induction relations with
  | nil => rw [putFirst, part_cons, if_pos h]; rfl
  | cons s rest ih =>
    by_cases hs : s.target = r.target
    · have hp : p s.target = true := by rwa [hs]
      rw [putFirst, if_pos hs, part_cons, if_pos h, part_cons, if_pos hp, putFirst, if_pos hs]
    · rw [putFirst, if_neg hs, part_cons, part_cons, ih]
      split
      · rw [putFirst, if_neg hs]
      · rfl

theorem cores_compacted (m : MemoryRemote) (owner : OwnerId) (relations : List Relation) :
    cores (m.compacted owner relations) = cores relations := by
  refine List.ext_getElem? fun i => ?_
  simp only [cores, compacted, List.getElem?_map, List.getElem?_mapIdx, Option.map_map]
  cases relations[i]? with
  | none => rfl
  | some r =>
    simp only [Option.map_some, Function.comp_apply, core, renumber]
    split <;> rfl

theorem target_stored (m : MemoryRemote) (r : Relation) : (m.stored r).target = r.target := by
  unfold stored
  split <;> rfl

theorem payload_stored (m : MemoryRemote) (r : Relation) : (m.stored r).payload = r.payload := by
  unfold stored
  split <;> rfl

/-- A target that is not pinned is kept with the priority that is asked for. -/
theorem stored_of_notPinned {r : Relation} (h : m.pinned r.target = none) : m.stored r = r := by
  rw [stored, h]

theorem cores_relationsAfter (m : MemoryRemote) (owner : OwnerId) (r : Relation)
    (relations : List Relation) :
    cores (m.relationsAfter owner r relations) = cores (putFirst (m.stored r) relations) := by
  unfold relationsAfter
  split
  · exact cores_compacted ..
  · rfl

/-- Without renumbering the relation is put in its place and that is all. -/
theorem relationsAfter_of_not_compacting (h : m.compacting = false) (owner : OwnerId) (r : Relation)
    (relations : List Relation) :
    m.relationsAfter owner r relations = putFirst (m.stored r) relations := by
  simp [relationsAfter, h]

/-! ### Sending relations one after another -/

/-- How the list `after` compares with the list `before`, once the relations `ds` were sent to a
remote with the settings of `m`. -/
structure Sent (m : MemoryRemote) (ds before after : List Relation) : Prop where
  targets : targets after =
    targets before ++ (Relation.targets ds).filter fun id => decide (id ∉ Relation.targets before)
  payload : ∀ d ∈ ds, (find? d.target after).map (·.payload) = some d.payload
  /-- What nothing was sent to keeps its place, its target and its payload. -/
  others : ∀ p : TargetId → Bool, (∀ d ∈ ds, p d.target = false) →
    cores (part p after) = cores (part p before)
  /-- Without renumbering what was sent is stored as it is, but for pins, and all else stays. -/
  stored : m.compacting = false → ∀ d ∈ ds, find? d.target after = some (m.stored d)
  untouched : m.compacting = false → ∀ p : TargetId → Bool, (∀ d ∈ ds, p d.target = false) →
    part p after = part p before

theorem sent_nil (m : MemoryRemote) (relations : List Relation) :
    Sent m [] relations relations where
  targets := by simp
  payload := nofun
  others _ _ := rfl
  stored _ := nofun
  untouched _ _ _ := rfl

/-- One relation is sent. -/
theorem sent_single (m : MemoryRemote) (owner : OwnerId) (d : Relation)
    (relations : List Relation) :
    Sent m [d] relations (m.relationsAfter owner d relations) where
  targets := by
    rw [targets_eq_of_cores (cores_relationsAfter m owner d relations)]
    -- a target that is there keeps its place, and a new one comes last
    by_cases hd : d.target ∈ Relation.targets relations
    · rw [targets_putFirst_of_mem (by rwa [target_stored])]
      simp [hd]
    · rw [targets_putFirst_of_notMem (by rwa [target_stored]), target_stored]
      simp [hd]
  payload e he := by
    obtain rfl := List.mem_singleton.1 he
    rw [payload_find?_congr (cores_part_congr (cores_relationsAfter m owner e relations) _),
      find?_putFirst, target_stored, if_pos rfl, Option.map_some, payload_stored]
  others p hp := by
    rw [cores_part_congr (cores_relationsAfter m owner d relations) p, part_putFirst]
    rw [target_stored]
    exact hp d List.mem_cons_self
  stored hc e he := by
    obtain rfl := List.mem_singleton.1 he
    rw [relationsAfter_of_not_compacting hc, find?_putFirst, target_stored, if_pos rfl]
  untouched hc p hp := by
    rw [relationsAfter_of_not_compacting hc, part_putFirst]
    rw [target_stored]
    exact hp d List.mem_cons_self

/-- One relation is sent and then others, none of them to its target. -/
theorem Sent.cons {d : Relation} {ds before middle after : List Relation}
    (hd : d.target ∉ Relation.targets ds) (h : Sent m [d] before middle)
    (h' : Sent m ds middle after) :
    Sent m (d :: ds) before after where
  targets := by
    -- the target that was sent first is not among the later ones, so they are new as before
    have hf : (Relation.targets ds).filter (fun id => decide (id ∉ Relation.targets middle)) =
        (Relation.targets ds).filter (fun id => decide (id ∉ Relation.targets before)) := by
      refine List.filter_congr fun id hid => ?_
      have hne : id ≠ d.target := fun he => hd (he ▸ hid)
      rw [h.targets]
      simp [hne]
    rw [h'.targets, hf, h.targets, List.append_assoc, ← List.filter_append]
    rfl
  payload e he := by
    rcases List.mem_cons.1 he with rfl | he
    -- what was sent first is not touched by the others
    · rw [payload_find?_congr (h'.others (· == e.target) ?_)]
      · exact h.payload e List.mem_cons_self
      · intro c hc
        exact beq_eq_false_iff_ne.2 fun hce => hd (mem_targets.2 ⟨c, hc, hce⟩)
    · exact h'.payload e he
  others p hp := by
    rw [h'.others p fun e he => hp e (List.mem_cons_of_mem _ he)]
    exact h.others p fun e he => hp e (List.mem_singleton.1 he ▸ List.mem_cons_self)
  stored hc e he := by
    rcases List.mem_cons.1 he with rfl | he
    · rw [find?_eq_head?, h'.untouched hc (· == e.target) ?_, ← find?_eq_head?]
      · exact h.stored hc e List.mem_cons_self
      · intro c hc'
        exact beq_eq_false_iff_ne.2 fun hce => hd (mem_targets.2 ⟨c, hc', hce⟩)
    · exact h'.stored hc e he
  untouched hc p hp := by
    rw [h'.untouched hc p fun e he => hp e (List.mem_cons_of_mem _ he)]
    exact h.untouched hc p fun e he => hp e (List.mem_singleton.1 he ▸ List.mem_cons_self)

theorem Sent.of_same (hs : SameSettings m n) {ds before after : List Relation}
    (h : Sent n ds before after) : Sent m ds before after where
  targets := h.targets
  payload := h.payload
  others := h.others
  stored hc d hd := by
    rw [← hs.stored_eq]
    exact h.stored (hs.compacting.trans hc) d hd
  untouched hc := h.untouched (hs.compacting.trans hc)

end Roster.MemoryRemote
