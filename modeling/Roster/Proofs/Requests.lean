/-
What a remote in memory has on record.

A remote in memory keeps the lists of its owners, the priorities that were last asked for and the
pins side by side.  Whatever happens to it, they stay in step: a request is on record exactly for
what is on a list, and it is the last one that was accepted.  A history lists what happened, the
latest event first.

* `Event`, `after`: what can happen to a remote, and what it comes to by a history;
* `lastSent?`: the priority that was last seeded or accepted for a target, read off the history;
* `InStep`, `inStep_apply`: the lists and the requests of an owner, and what one event does to them;
* `unchanged_of_error`: an event that is refused changes neither;
* `renumbered_of_upsert`: the numbers right after an upsert;
* `after_inStep`: all of it for every history.
-/
import Roster.Proofs.Ranking

namespace Roster.MemoryRemote

open Roster.Relation

/-- Something that happens to a remote in memory. -/
inductive Event where
  | addOwner (owner : OwnerId)
  | seed (owner : OwnerId) (r : Relation)
  | pin (target : TargetId) (value : Int)
  | failOn (operation : Operation) (target : TargetId) (error : RemoteError)
  | upsert (owner : OwnerId) (r : Relation)
  | delete (owner : OwnerId) (target : TargetId)
  | list (owner : OwnerId)

/-- What the remote answers, and what it comes to. -/
def Event.apply (m : MemoryRemote) : Event → Except RemoteError Unit × MemoryRemote
  | .addOwner owner => (.ok (), m.addOwner owner)
  | .seed owner r => (.ok (), m.seed owner r)
  | .pin target value => (.ok (), m.pin target value)
  | .failOn operation target error => (.ok (), m.failOn operation target error)
  | .upsert owner r => MemoryRemote.upsert owner r m
  | .delete owner target => MemoryRemote.delete owner target m
  | .list owner => ((MemoryRemote.list owner m).1.map fun _ => (), (MemoryRemote.list owner m).2)

/-- The priority that the event gives to a target of an owner: a seed does, and an upsert that is
accepted. -/
def Event.sends? (m : MemoryRemote) (owner : OwnerId) (id : TargetId) : Event → Option Priority
  | .seed o r => if o = owner ∧ r.target = id then some r.priority else none
  | .upsert o r =>
    if o = owner ∧ r.target = id ∧ (MemoryRemote.upsert o r m).1.isOk then some r.priority else none
  | _ => none

/-- The remote after a history that starts without owners. -/
def after (compacting : Bool) : List Event → MemoryRemote
  | [] => { MemoryRemote.empty with compacting := compacting }
  | e :: before => (e.apply (after compacting before)).2

/-- The priority that was last given to a target of an owner. -/
def lastSent? (compacting : Bool) (owner : OwnerId) (id : TargetId) : List Event → Option Priority
  | [] => none
  | e :: before => (e.sends? (after compacting before) owner id).or
      (lastSent? compacting owner id before)

variable {m n : MemoryRemote} {owner other : OwnerId} {id target : TargetId} {r : Relation}
  {relations : List Relation} {sent : TargetId → Option Priority}

/-! ### Lists and requests in step -/

/-- The list of an owner names every target once, and a request is on record for what is on it, as
it was last sent. -/
structure InStep (m : MemoryRemote) (owner : OwnerId)
    (sent : TargetId → Option Priority) : Prop where
  distinct : ∀ relations, m.relations? owner = some relations → (targets relations).Nodup
  requested : ∀ id, m.requested owner id =
    if id ∈ targets ((m.relations? owner).getD []) then (sent id).bind Priority.explicit? else none

theorem InStep.nodup (h : InStep m owner sent) :
    (targets ((m.relations? owner).getD [])).Nodup := by
  cases hr : m.relations? owner with
  | none => exact List.nodup_nil
  | some relations => exact h.distinct relations hr

/-- Only the list of the owner and its requests matter. -/
theorem InStep.congr (h : InStep m owner sent) (hlist : n.relations? owner = m.relations? owner)
    (hrequests : n.requested owner = m.requested owner) : InStep n owner sent := by
  refine ⟨fun relations hr => h.distinct relations (hlist ▸ hr), fun id => ?_⟩
  rw [hlist, hrequests]
  exact h.requested id

/-- A list that is set together with a request for one target stays in step if all other targets are
on it as before. -/
theorem InStep.set {value : Option Int} {sent' : TargetId → Option Priority}
    (h : InStep m owner sent) (hd : (targets relations).Nodup)
    (hothers : ∀ id, id ≠ target →
      (id ∈ targets relations ↔ id ∈ targets ((m.relations? owner).getD [])) ∧ sent' id = sent id)
    (hvalue : value = if target ∈ targets relations
      then (sent' target).bind Priority.explicit? else none) :
    InStep ((m.request owner target value).setRelations owner relations) owner sent' := by
  refine ⟨fun rs hr => ?_, fun id => ?_⟩
  · rw [relations?_setRelations_self] at hr
    rwa [← Option.some.inj hr]
  · rw [relations?_setRelations_self, Option.getD_some]
    -- the request on record changes for the target alone
    by_cases ht : id = target
    · rw [ht, ← hvalue]
      exact requested_request_self m owner target value
    · obtain ⟨hmem, hsent⟩ := hothers id ht
      refine (requested_request_of_ne ht m owner value).trans ?_
      rw [h.requested id, hsent]
      exact if_congr hmem.symm rfl rfl

/-- Of other owners nothing changes. -/
theorem InStep.set_of_ne {value : Option Int} (h : InStep m owner sent) (ho : owner ≠ other) :
    InStep ((m.request other target value).setRelations other relations) owner sent :=
  h.congr (relations?_setRelations_of_ne (Ne.symm ho) _ _)
    (requested_request_of_owner_ne ho m target value)

theorem mem_targets_putFirst {relations : List Relation} :
    id ∈ targets (putFirst r relations) ↔ id = r.target ∨ id ∈ targets relations := by
  by_cases hr : r.target ∈ targets relations
  · rw [targets_putFirst_of_mem hr]
    exact ⟨.inr, fun h => h.elim (fun he => he ▸ hr) fun hm => hm⟩
  · rw [targets_putFirst_of_notMem hr, List.mem_append, List.mem_singleton, or_comm]

theorem targets_putFirst_congr {s : Relation} (h : r.target = s.target)
    (relations : List Relation) :
    targets (putFirst r relations) = targets (putFirst s relations) := by
  by_cases hs : s.target ∈ targets relations
  · rw [targets_putFirst_of_mem hs, targets_putFirst_of_mem (h ▸ hs)]
  · rw [targets_putFirst_of_notMem hs, targets_putFirst_of_notMem (h ▸ hs), h]

/-- A relation that is put into the list with its request. -/
theorem InStep.put (h : InStep m owner sent)
    (ht : targets relations = targets (putFirst r ((m.relations? owner).getD []))) :
    InStep ((m.request owner r.target r.priority.explicit?).setRelations owner relations) owner
      fun id => (if r.target = id then some r.priority else none).or (sent id) := by
  refine h.set ?_ (fun id hne => ⟨?_, ?_⟩) ?_
  · rw [ht]
    exact nodup_putFirst h.nodup r
  · rw [ht, mem_targets_putFirst]
    exact or_iff_right hne
  · rw [if_neg (Ne.symm hne), Option.none_or]
  · have hmem : r.target ∈ targets relations := by
      rw [ht, mem_targets_putFirst]
      exact .inl rfl
    rw [if_pos hmem, if_pos rfl, Option.some_or]
    rfl

theorem InStep.addOwner (h : InStep m owner sent) (other : OwnerId) :
    InStep (m.addOwner other) owner sent := by
  unfold MemoryRemote.addOwner
  split
  · exact h
  · rename_i hr
    by_cases ho : owner = other
    · -- the new list is empty, as what was missing counted as
      subst ho
      refine ⟨fun relations hrs => ?_, fun id => ?_⟩
      · rw [relations?_setRelations_self] at hrs
        rw [← Option.some.inj hrs]
        exact List.nodup_nil
      · have hrequested := h.requested id
        rw [hr] at hrequested
        rw [relations?_setRelations_self]
        exact hrequested
    · exact h.congr (relations?_setRelations_of_ne (Ne.symm ho) m []) rfl

theorem InStep.seed (h : InStep m owner sent) (other : OwnerId) (r : Relation) :
    InStep (m.seed other r) owner fun id =>
      ((Event.seed other r).sends? m owner id).or (sent id) := by
  by_cases ho : owner = other
  · subst ho
    simp only [Event.sends?, true_and]
    exact h.put rfl
  · simp only [Event.sends?, Ne.symm ho, false_and, if_false, Option.none_or]
    exact h.set_of_ne ho

theorem InStep.upsert (h : InStep m owner sent) (other : OwnerId) (r : Relation) :
    InStep (upsert other r m).2 owner fun id =>
      ((Event.upsert other r).sends? m owner id).or (sent id) := by
  rcases hu : MemoryRemote.upsert other r m with ⟨error | _, n⟩
  · obtain rfl := of_upsert_error hu
    simp only [Event.sends?, hu, Except.isOk, Except.toBool, Bool.false_eq_true,
      and_false, if_false, Option.none_or]
    exact h.congr rfl rfl
  · obtain ⟨relations, hr, rfl⟩ := of_upsert_ok hu
    have hrecord : InStep (m.record (.upsert other r.target)) owner sent := h.congr rfl rfl
    by_cases ho : owner = other
    · subst ho
      simp only [Event.sends?, hu, Except.isOk, Except.toBool, true_and, and_true]
      refine hrecord.put ?_
      rw [targets_eq_of_cores (cores_relationsAfter (m.noted owner r) owner r relations),
        relations?_record, hr, Option.getD_some]
      exact targets_putFirst_congr (target_stored _ r) relations
    · simp only [Event.sends?, Ne.symm ho, false_and, if_false, Option.none_or]
      exact hrecord.set_of_ne ho

theorem InStep.delete (h : InStep m owner sent) (other : OwnerId) (target : TargetId) :
    InStep (delete other target m).2 owner sent := by
  have hrecord : InStep (m.record (.delete other target)) owner sent := h.congr rfl rfl
  cases hf : m.failures .delete target with
  | some error =>
    rw [delete_of_failure hf]
    exact hrecord
  | none =>
    cases hr : m.relations? other with
    | none =>
      rw [delete_of_noOwner hf hr]
      exact hrecord
    | some relations =>
      by_cases ht : target ∈ targets relations
      · rw [delete_of_mem hf hr ht]
        by_cases ho : owner = other
        · subst ho
          -- a delete that is carried out takes the target off the list and off the record
          refine hrecord.set ?_ (fun id hne => ⟨?_, rfl⟩) ?_
          · rw [targets_part]
            exact (h.distinct relations hr).filter _
          · rw [targets_part, relations?_record, hr, Option.getD_some, List.mem_filter]
            exact and_iff_left (decide_eq_true hne)
          · rw [targets_part, if_neg]
            intro hmem
            exact absurd rfl (of_decide_eq_true (List.mem_filter.1 hmem).2)
        · exact hrecord.set_of_ne ho
      · rw [delete_of_notMem hf hr ht]
        exact hrecord

/-- What one event does to the list and the requests of an owner. -/
theorem inStep_apply (h : InStep m owner sent) (e : Event) :
    InStep (e.apply m).2 owner fun id => (e.sends? m owner id).or (sent id) := by
  cases e with
  | addOwner other => exact h.addOwner other
  | seed other r => exact h.seed other r
  | pin target value => exact h.congr rfl rfl
  | failOn operation target error => exact h.congr rfl rfl
  | upsert other r => exact h.upsert other r
  | delete other target => exact h.delete other target
  | list other =>
    have hlist : (Event.apply m (.list other)).2 = m.record (.list other) := state_list other m
    rw [hlist]
    exact h.congr rfl rfl

/-- After any history the list and the requests of every owner are in step. -/
theorem inStep_after (compacting : Bool) (history : List Event) (owner : OwnerId) :
    InStep (after compacting history) owner fun id => lastSent? compacting owner id history := by
  induction history with
  | nil => exact ⟨nofun, fun _ => rfl⟩
  | cons e before ih => exact inStep_apply ih e

/-! ### Refusals and numbers -/

/-- An event that is refused changes no list and no request. -/
theorem unchanged_of_error {e : Event} {error : RemoteError} (h : e.apply m = (.error error, n)) :
    n.owners = m.owners ∧ n.requested = m.requested := by
  -- settings are never refused; what is refused is only recorded
  cases e with
  | addOwner owner => cases h
  | seed owner r => cases h
  | pin target value => cases h
  | failOn operation target error => cases h
  | upsert owner r =>
    obtain rfl := of_upsert_error h
    exact ⟨rfl, rfl⟩
  | delete owner target =>
    obtain rfl := of_delete_error h
    exact ⟨rfl, rfl⟩
  | list owner =>
    obtain rfl : (MemoryRemote.list owner m).2 = n := congrArg Prod.snd h
    rw [state_list]
    exact ⟨rfl, rfl⟩

theorem orderly_apply (h : Orderly m owner) (e : Event) : Orderly (e.apply m).2 owner := by
  cases e with
  | addOwner other => exact orderly_addOwner h other
  | seed other r => exact orderly_seed h other r
  | pin target value => exact orderly_pin h target value
  | failOn operation target error => exact h
  | upsert other r => exact orderly_upsert h other r
  | delete other target => exact orderly_delete h other target
  | list other =>
    have hlist : (Event.apply m (.list other)).2 = m.record (.list other) := state_list other m
    rw [hlist]
    exact h

/-- After any history all that is renumbered was asked for. -/
theorem orderly_after (compacting : Bool) (history : List Event) (owner : OwnerId) :
    Orderly (after compacting history) owner := by
  induction history with
  | nil =>
    intro _ relations hr
    cases hr
  | cons e before ih => exact orderly_apply ih e

theorem compacting_apply (e : Event) (m : MemoryRemote) :
    (e.apply m).2.compacting = m.compacting := by
  cases e with
  | addOwner owner =>
    show (MemoryRemote.addOwner _ owner).compacting = _
    unfold MemoryRemote.addOwner
    split <;> rfl
  | seed owner r => rfl
  | pin target value => rfl
  | failOn operation target error => rfl
  | upsert owner r => exact (same_upsert owner r _).compacting
  | delete owner target => exact (same_delete owner target _).compacting
  | list owner => exact (same_list owner _).compacting

theorem compacting_after (compacting : Bool) (history : List Event) :
    (after compacting history).compacting = compacting := by
  induction history with
  | nil => rfl
  | cons e before ih => exact (compacting_apply e _).trans ih

/-- What a list looks like right after one of its relations was sent, if priorities are
renumbered. -/
structure Renumbered (m : MemoryRemote) (owner : OwnerId) (target : TargetId)
    (relations : List Relation) :
    Prop where
  numbered : Numbered m owner relations
  unset : ∀ r ∈ relations, m.pinned r.target = none → m.renumbers r = false → r.priority = .unset
  pinned : ∀ value, m.pinned target = some value →
    ∃ r, find? target relations = some r ∧ r.priority = .explicit value

/-- Right after an upsert that is accepted the list of the owner is renumbered. -/
theorem renumbered_of_upsert (hc : m.compacting = true) (h : Orderly m owner)
    (hu : upsert owner r m = (.ok (), n)) :
    ∃ relations, n.relations? owner = some relations ∧ Renumbered n owner r.target relations := by
  obtain ⟨before, hb, rfl⟩ := of_upsert_ok hu
  obtain ⟨hnodup, hranked⟩ := h hc before hb
  have hafter : (m.noted owner r).relationsAfter owner r before =
      (m.noted owner r).compacted owner (putFirst (m.stored r) before) := if_pos hc
  have hnumbered : Numbered (m.noted owner r) owner
      ((m.noted owner r).compacted owner (putFirst (m.stored r) before)) :=
    numbered_compacted hc (ranked_noted hnodup hranked r)
  rw [hafter]
  refine ⟨_, relations?_setRelations_self .., hnumbered.congr ⟨rfl, rfl⟩ rfl, fun s hs hp hn => ?_,
    fun value hv => ?_⟩
  · cases hpriority : s.priority with
    | unset => rfl
    | explicit value =>
      have hs : renumbers _ s = true := renumbers_iff.2 ⟨hc, hp, value, hpriority⟩
      cases hs.symm.trans hn
  · have hv' : m.pinned r.target = some value := hv
    have hfind : find? r.target (putFirst (m.stored r) before) = some (m.stored r) := by
      rw [find?_putFirst, target_stored, if_pos rfl]
    obtain ⟨i, hi, hfind'⟩ := find?_compacted (m.noted owner r) owner hfind
    -- what is pinned has no number of its own
    have hrank : i ∉ (m.noted owner r).ranking owner (putFirst (m.stored r) before) := by
      intro hmem
      obtain ⟨q, hq, hqn⟩ := (mem_ranking_iff (m := m.noted owner r) hc).1 hmem
      obtain rfl := Option.some.inj (hi.symm.trans hq)
      obtain ⟨-, hqp, -⟩ := renumbers_iff.1 hqn
      rw [target_stored] at hqp
      cases hv'.symm.trans hqp
    refine ⟨m.stored r, ?_, ?_⟩
    · rw [hfind', getElem?_compacted, hi, Option.map_some, renumber_of_notMem hrank]
    · rw [stored, hv']

/-- **The remote in memory keeps its books.**  After any history the list of an owner names every
target once, and on record is what was last asked for of those on the list.  Right after an upsert
that renumbers, the priorities on the list count 1, 2, … in the order of what is on record and then
of position, pins excepted.  What is refused changes no list and no request. -/
theorem after_inStep (compacting : Bool) (history : List Event) :
    (∀ owner relations, (after compacting history).relations? owner = some relations →
      (targets relations).Nodup) ∧
    (∀ owner id, (after compacting history).requested owner id =
      if id ∈ targets (((after compacting history).relations? owner).getD []) then
        (lastSent? compacting owner id history).bind Priority.explicit?
      else none) ∧
    (compacting = true → ∀ owner r n, upsert owner r (after compacting history) = (.ok (), n) →
      ∃ relations, n.relations? owner = some relations ∧ Renumbered n owner r.target relations) ∧
    (∀ e error n, Event.apply (after compacting history) e = (.error error, n) →
      n.owners = (after compacting history).owners ∧
        n.requested = (after compacting history).requested) := by
  refine ⟨fun owner => (inStep_after compacting history owner).distinct,
    fun owner => (inStep_after compacting history owner).requested, fun hc owner r n hu => ?_,
    fun e error n h => unchanged_of_error h⟩
  exact renumbered_of_upsert ((compacting_after compacting history).trans hc)
    (orderly_after compacting history owner) hu

/-- An owner with two relations and a pin for a third target. -/
def bookedHistory : List Event :=
  [.seed ⟨"app"⟩ ⟨⟨"b"⟩, .explicit 3, .empty⟩, .pin ⟨"c"⟩ 9,
    .seed ⟨"app"⟩ ⟨⟨"a"⟩, .explicit 5, .empty⟩]

theorem after_inStep_sample :
    ∃ n relations, upsert ⟨"app"⟩ ⟨⟨"c"⟩, .explicit 1, .empty⟩
      (after true bookedHistory) = (.ok (), n) ∧
      n.relations? ⟨"app"⟩ = some relations ∧ Numbered n ⟨"app"⟩ relations ∧
      (after true bookedHistory).requested ⟨"app"⟩ ⟨"b"⟩ = some 3 ∧
      ∃ r, find? ⟨"c"⟩ relations = some r ∧ r.priority = .explicit 9 := by
  obtain ⟨n, hn⟩ : ∃ n, upsert ⟨"app"⟩ ⟨⟨"c"⟩, .explicit 1, .empty⟩ (after true bookedHistory) =
      (.ok (), n) :=
    ⟨_, rfl⟩
  obtain ⟨-, hrequested, hrenumbered, -⟩ := after_inStep true bookedHistory
  obtain ⟨relations, hr, hrelations⟩ := hrenumbered rfl _ _ n hn
  obtain ⟨before, -, hafter⟩ := of_upsert_ok hn
  refine ⟨n, relations, hn, hr, hrelations.numbered, (hrequested _ _).trans rfl, ?_⟩
  exact hrelations.pinned 9 (by rw [hafter]; rfl)

end Roster.MemoryRemote
