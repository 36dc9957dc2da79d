/-
Runs that are tried again.

A real run that fails at a request leaves the disk as it was and has carried out a part of its
batch.  The same run, tried again on a remote in memory that refuses nothing any more, ends well
exactly if it would have ended well at the first go, and comes to the same: the list of the owner,
what is remembered but for the time, and the result, in which a delete may only find that there is
nothing left to delete.

* `Repeats`: how a run that is tried again compares with one that was not interrupted;
* `isOk_apply_iff`, `repeats_apply`: real applies;
* `isOk_destroy_iff`, `repeats_destroy`: real destroys;
* `retry_repeats`: both, after a run that failed.
-/
import Roster.Proofs.Attempts
import Roster.Proofs.Resending

namespace Roster

open Roster.Relation
open Roster.MemoryRemote (remote listing Orderly Carried spares)

/-! ### Coming to the same -/

/-- What became of an operation in a run that was tried again, beside what becomes of it at one
go. -/
inductive Applied.Again : Applied → Applied → Prop
  | same (a : Applied) : Again a a
  | absent (target : TargetId) : Again (.deleted target) (.alreadyAbsent target)

/-- The result of a run that was tried again, beside the one at one go. -/
inductive RunResult.Again : RunResult → RunResult → Prop
  | reconciled {r : Reconciliation} {as : List Applied}
      (h : List.Forall₂ Applied.Again r.applied as) :
    Again (.reconciled r) (.reconciled { r with applied := as })
  | destroyed {as bs : List Applied} (h : List.Forall₂ Applied.Again as bs) :
    Again (.destroyed as) (.destroyed bs)

/-- The disks hold the same of an owner, but for the time. -/
def SameButTime (home : Home) (owner : OwnerId) (d e : Disk) : Prop :=
  (StoredState.isStored home owner d = false ∧ StoredState.isStored home owner e = false) ∨
    ∃ (s : StoredState) (t u : Option Timestamp),
      StoredState.Remembers home owner { s with reconciledAt := t }.text d ∧
        StoredState.Remembers home owner { s with reconciledAt := u }.text e

/-- How the outcome of a run that was tried again compares with the one at one go. -/
structure Repeats (home : Home) (owner : OwnerId)
    (once again : Outcome (World MemoryRemote) RunError RunResult) :
    Prop where
  ends : again.result.isOk = once.result.isOk
  same : ∀ r q, once.result = .ok r → again.result = .ok q →
    r.Again q ∧ again.state.remote.relations? owner = once.state.remote.relations? owner ∧
      SameButTime home owner once.state.disk again.state.disk

namespace Plan

theorem nodup_toDelete_between (old new : DesiredSet) : (between old new).toDelete.Nodup :=
  old.distinct.filter _

end Plan

namespace MemoryRemote

variable {m n : MemoryRemote} {owner : OwnerId} {kept : TargetId → Bool} {sent : List Relation}
  {F G : Operation → TargetId → Option RemoteError}

theorem Carried.of_refusing (h : Carried (m.refusing F) n owner kept sent) :
    Carried m n owner kept sent :=
  h.congr_left ⟨rfl, rfl⟩ rfl rfl

/-- What the remotes refuse does not matter. -/
theorem Carried.refusing (h : Carried m n owner kept sent)
    (F G : Operation → TargetId → Option RemoteError) :
    Carried (m.refusing F) (n.refusing G) owner kept sent :=
  (h.congr_left (k := m.refusing F) ⟨rfl, rfl⟩ rfl rfl).congr ⟨rfl, rfl⟩ rfl rfl

theorem Carried.known_iff (h : Carried m n owner kept sent) :
    (∃ after, n.relations? owner = some after) ↔ ∃ before, m.relations? owner = some before := by
  constructor
  · rintro ⟨after, hafter⟩
    cases hb : m.relations? owner with
    | none =>
      rw [h.missing hb] at hafter
      cases hafter
    | some before => exact ⟨before, rfl⟩
  · rintro ⟨before, hb⟩
    obtain ⟨after, hafter, -⟩ := h.list before hb
    exact ⟨after, hafter⟩

/-- Of targets that nothing was sent to, a delete may only find less. -/
theorem Carried.again_deletion (h : Carried m n owner kept sent) {id : TargetId}
    (hs : id ∉ targets sent) :
    Applied.Again (m.deletion owner id) (n.deletion owner id) := by
  unfold deletion
  by_cases hn : id ∈ targets ((n.relations? owner).getD [])
  · rw [if_pos hn, if_pos (h.mem_before hs hn)]
    exact .same _
  · rw [if_neg hn]
    split
    · exact .absent id
    · exact .same _

theorem Carried.again_deletions (h : Carried m n owner kept sent) {ids : List TargetId}
    (hs : ∀ id ∈ ids, id ∉ targets sent) :
    List.Forall₂ Applied.Again (ids.map (m.deletion owner)) (ids.map (n.deletion owner)) := by
  rw [List.forall₂_map_left_iff, List.forall₂_map_right_iff, List.forall₂_same]
  intro id hid
  exact h.again_deletion (hs id hid)

end MemoryRemote

namespace Run

variable {m n : MemoryRemote} {home : Home} {d : Declaration} {disk : Disk} {s : StoredState}

/-! ### Real applies -/

/-- What a real apply comes to that nothing is refused, if it finds the list `after`. -/
def cameTo (m : MemoryRemote) (d : Declaration) (s : StoredState) (after : List Relation) :
    Reconciliation :=
  { Cycle.observe d.owner d.desired s.view after with
    applied := (Plan.between s.declared d.desired).toDelete.map (m.deletion d.owner) ++
      d.desired.relations.map fun r => .upserted r.target }

theorem of_yields_apply {now : Timestamp} {x : RunResult} {v : World MemoryRemote}
    (orderly : Orderly m d.owner) (sound : ∀ operation id, m.failures operation id = none)
    (load : StoredState.load home d.owner disk = .ok s)
    (h : (run remote home now d (.apply false)).Yields ⟨m, disk⟩ x v) :
    ∃ after, v.remote.relations? d.owner = some after ∧ x = .reconciled (cameTo m d s after) ∧
      Carried m v.remote d.owner (spares (Plan.between s.declared d.desired).toDelete)
        d.desired.relations ∧
      (StoredState.save home d.owner (remembered now d (cameTo m d s after))).Yields disk
        () v.disk := by
  obtain ⟨s', q, disk', rfl, load', cycle, save, rfl⟩ := yields_apply h
  obtain rfl : s = s' := Except.ok.inj (load.symm.trans load')
  obtain ⟨as, t, after, hb, hl, rfl⟩ := Cycle.yields_reconcile.1 cycle
  have hcarried := MemoryRemote.carried_of_apply orderly (fun id => by simp [sound])
    d.desired.distinct (Plan.notMem_toDelete_between s.declared d.desired) hb
  obtain ⟨ds, k, us, hdel, hups, rfl⟩ := Batch.yields_apply.1 hb
  have hds := MemoryRemote.applied_deleteAll (Plan.nodup_toDelete_between s.declared d.desired)
    (sound .delete) hdel
  have hus := Batch.applied_upsertAll hups
  obtain ⟨ht, hv⟩ := MemoryRemote.relations?_of_list hl
  -- listing at the end only records the call
  have hlisted : v.remote = t.record (.list d.owner) := by
    rw [MemoryRemote.list_of_owner ht] at hl
    exact (congrArg Prod.snd hl).symm
  subst hds hus
  refine ⟨after, hv, rfl, ?_, save⟩
  rw [hlisted]
  exact hcarried.record _

/-- Nothing being refused, a real apply ends well exactly if the owner is there and its state can be
saved. -/
theorem isOk_apply_iff (orderly : Orderly m d.owner)
    (sound : ∀ operation id, m.failures operation id = none)
    (load : StoredState.load home d.owner disk = .ok s) (now : Timestamp) :
    ((run remote home now d (.apply false)).run ⟨m, disk⟩).result.isOk = true ↔
      (∃ before, m.relations? d.owner = some before) ∧
        ∃ state e, (StoredState.save home d.owner state).Yields disk () e := by
  constructor
  · intro hok
    obtain ⟨x, hx⟩ := Action.isOk_iff.1 hok
    obtain ⟨after, hafter, -, hcarried, hsave⟩ :=
      of_yields_apply orderly sound load (Action.yields_of_result hx)
    exact ⟨hcarried.known_iff.1 ⟨after, hafter⟩, _, _, hsave⟩
  · rintro ⟨⟨before, hr⟩, state, e, hsave⟩
    -- the deletes end well, then the upserts, then the list, and then saving
    obtain ⟨ds, k, hdel⟩ := MemoryRemote.exists_yields_deleteAll (sound .delete) d.owner
      (Plan.between s.declared d.desired).toDelete
    obtain ⟨hs, hk⟩ := MemoryRemote.relations?_deleteAll (fun id => by simp [sound]) hdel
    rw [hr, Option.map_some] at hk
    obtain ⟨us, t, hups⟩ :=
      MemoryRemote.exists_yields_upsertAll (fun id => by rw [hs.failures, sound]) hk
        d.desired.relations
    have hb := Batch.yields_apply.2 ⟨ds, k, us, hdel, hups, rfl⟩
    obtain ⟨-, after, hafter, -⟩ := MemoryRemote.sent_upsertAll d.desired.distinct hk hups
    have hcycle : (Cycle.reconcile remote d.owner false s.declared d.desired s.view).Yields m _ _ :=
      Cycle.yields_reconcile.2 ⟨_, t, after, hb, MemoryRemote.list_of_owner hafter, rfl⟩
    obtain ⟨e', hsave'⟩ := StoredState.exists_yields_save hsave (remembered now d _)
    have hrun : (run remote home now d (.apply false)).Yields ⟨m, disk⟩ _ _ :=
      yields_applied load hcycle hsave'
    exact Action.isOk_iff.2 ⟨_, hrun.result⟩

variable {kept : TargetId → Bool} {sent : List Relation}

/-- A real apply after a part of its batch was carried out. -/
theorem repeats_apply (orderly : Orderly m d.owner)
    (sound : ∀ operation id, m.failures operation id = none)
    (sound' : ∀ operation id, n.failures operation id = none)
    (load : StoredState.load home d.owner disk = .ok s) (h : Carried m n d.owner kept sent)
    (hkept : ∀ id, id ∉ (Plan.between s.declared d.desired).toDelete → kept id = true)
    (hsent : sent <+: d.desired.relations) (t u : Timestamp) :
    Repeats home d.owner ((run remote home t d (.apply false)).run ⟨m, disk⟩)
      ((run remote home u d (.apply false)).run ⟨n, disk⟩) where
  ends := by
    rw [Bool.eq_iff_iff, isOk_apply_iff h.orderly sound' load,
      isOk_apply_iff orderly sound load, h.known_iff]
  same := by
    intro r q hr hq
    obtain ⟨one, hone, rfl, hcarried, hsave⟩ :=
      of_yields_apply orderly sound load (Action.yields_of_result hr)
    obtain ⟨two, htwo, rfl, hcarried', hsave'⟩ :=
      of_yields_apply h.orderly sound' load (Action.yields_of_result hq)
    have hlist := hcarried.list_eq
      (h.again hcarried' hsent (fun id hid => hkept id (MemoryRemote.spares_iff.1 hid))
        d.desired.distinct)
    obtain rfl : one = two := Option.some.inj (hone.symm.trans (hlist.trans htwo))
    refine ⟨.reconciled (r := cameTo m d s one) ?_, hlist.symm, .inr ?_⟩
    · -- what is deleted is not declared, so nothing was sent to it
      refine List.rel_append (h.again_deletions fun id hid hm => ?_)
        (List.forall₂_same.2 fun a _ => .same a)
      obtain ⟨r, hmem, rfl⟩ := mem_targets.1 hm
      exact Plan.notMem_toDelete_between s.declared d.desired r (hsent.subset hmem) hid
    · exact ⟨remembered t d (cameTo m d s one), some t, some u, StoredState.remembers_of_save hsave,
        StoredState.remembers_of_save hsave'⟩

/-! ### Real destroys -/

theorem of_yields_destroy {now : Timestamp} {x : RunResult} {v : World MemoryRemote}
    (orderly : Orderly m d.owner) (sound : ∀ operation id, m.failures operation id = none)
    (h : (run remote home now d (.destroy false)).Yields ⟨m, disk⟩ x v) :
    x = .destroyed (d.desired.targets.map (m.deletion d.owner)) ∧
      Carried m v.remote d.owner (spares d.desired.targets) [] ∧
      StoredState.isStored home d.owner v.disk = false := by
  have he := destroyEnds remote home now d ⟨m, disk⟩
  rw [h.result, h.state] at he
  cases he with
  | done _ clear remove =>
    rw [MemoryRemote.applied_deleteAll d.desired.distinct (sound .delete) clear]
    refine ⟨rfl, ?_, StoredState.not_isStored_of_remove remove⟩
    exact MemoryRemote.carried_of_deleteAll orderly (fun id => by simp [sound]) clear

/-- Nothing being refused, a real destroy ends well exactly if the owner can be forgotten. -/
theorem isOk_destroy_iff (sound : ∀ operation id, m.failures operation id = none)
    (load : StoredState.load home d.owner disk = .ok s) (now : Timestamp) :
    ((run remote home now d (.destroy false)).run ⟨m, disk⟩).result.isOk = true ↔
      ∃ removed e, (StoredState.remove home d.owner).Yields disk removed e := by
  obtain ⟨as, t, hdel⟩ :=
    MemoryRemote.exists_yields_deleteAll (sound .delete) d.owner d.desired.targets
  -- no delete is refused, so only forgetting the owner can fail
  constructor
  · intro hok
    obtain ⟨x, hx⟩ := Action.isOk_iff.1 hok
    have he := destroyEnds remote home now d ⟨m, disk⟩
    rw [hx] at he
    generalize ((run remote home now d (.destroy false)).run ⟨m, disk⟩).state = v at he
    cases he with
    | done _ _ remove => exact ⟨_, _, remove⟩
  · rintro ⟨removed, e, hremove⟩
    have hrun : (run remote home now d (.destroy false)).Yields ⟨m, disk⟩ _ _ :=
      yields_destroy load hdel hremove
    exact Action.isOk_iff.2 ⟨_, hrun.result⟩

/-- A real destroy after some of its deletes were carried out. -/
theorem repeats_destroy (orderly : Orderly m d.owner)
    (sound : ∀ operation id, m.failures operation id = none)
    (sound' : ∀ operation id, n.failures operation id = none)
    (load : StoredState.load home d.owner disk = .ok s) (h : Carried m n d.owner kept [])
    (hkept : ∀ id, id ∉ d.desired.targets → kept id = true) (t u : Timestamp) :
    Repeats home d.owner ((run remote home t d (.destroy false)).run ⟨m, disk⟩)
      ((run remote home u d (.destroy false)).run ⟨n, disk⟩) where
  ends := by rw [Bool.eq_iff_iff, isOk_destroy_iff sound' load, isOk_destroy_iff sound load]
  same := by
    intro r q hr hq
    obtain ⟨rfl, hcarried, hstored⟩ := of_yields_destroy orderly sound (Action.yields_of_result hr)
    obtain ⟨rfl, hcarried', hstored'⟩ :=
      of_yields_destroy h.orderly sound' (Action.yields_of_result hq)
    -- both runs delete the same targets, so what one of them left makes no difference
    have hlist := hcarried.list_eq
      (h.again hcarried' List.nil_prefix (fun id hid => hkept id (MemoryRemote.spares_iff.1 hid))
        List.nodup_nil)
    exact ⟨.destroyed (h.again_deletions fun _ _ => List.not_mem_nil), hlist.symm,
      .inl ⟨hstored, hstored'⟩⟩

/-! ### Runs that failed -/

/-- The run that finds an owner gone fails for that, or because it cannot forget the owner. -/
theorem goneError_ne {owner : OwnerId} {c : CycleError} (h : ∀ o, c ≠ .ownerNotFound o) :
    goneError home owner disk ≠ .cycle c := by
  unfold goneError
  intro he
  split at he
  · exact h owner (RunError.cycle.inj he).symm
  · cases he

/-- What a real apply has carried out that failed at a request. -/
theorem carried_of_failed_apply {F : Operation → TargetId → Option RemoteError}
    {fault : Option RemoteError} {now : Timestamp} {c : CycleError} {v : World MemoryRemote}
    {log : List Notice} (orderly : Orderly m d.owner)
    (failed : (run (listing fault) home now d (.apply false)).run ⟨m.refusing F, disk⟩ =
      ⟨.error (.cycle c), v, log⟩) (known : ∀ o, c ≠ .ownerNotFound o) :
    v.disk = disk ∧ ∃ s kept sent, StoredState.load home d.owner disk = .ok s ∧
      (∀ id, id ∉ (Plan.between s.declared d.desired).toDelete → kept id = true) ∧
      sent <+: d.desired.relations ∧ Carried m v.remote d.owner kept sent := by
  have he := applyEnds (listing fault) home now d ⟨m.refusing F, disk⟩
  rw [failed] at he
  generalize hresult : (Except.error (.cycle c) : Except RunError RunResult) = result at he
  cases he with
  | unread | unsaved | done => cases hresult
  | gone => exact absurd (Except.error.inj hresult).symm (goneError_ne known)
  | @failed s _ load cycle =>
    refine ⟨rfl, s, ?_⟩
    let P : MemoryRemote → Prop := fun n => ∃ kept sent,
      (∀ id, id ∉ (Plan.between s.declared d.desired).toDelete → kept id = true) ∧
        sent <+: d.desired.relations ∧ Carried m n d.owner kept sent
    -- refusing the list changes nothing about the batch
    have hbatch : P
        ((Batch.apply (listing fault) d.owner false (Plan.between s.declared d.desired)).run
          (m.refusing F)).state := by
      obtain ⟨kept, sent, hkept, hsent, h⟩ := MemoryRemote.carried_apply (m := m.refusing F) orderly
        d.desired.distinct (Plan.notMem_toDelete_between s.declared d.desired)
      exact ⟨kept, sent, hkept, hsent, h.of_refusing⟩
    have hlist : ∀ u, P u → P ((listing fault).list d.owner u).2 := by
      rintro u ⟨kept, sent, hkept, hsent, hu⟩
      refine ⟨kept, sent, hkept, hsent, ?_⟩
      cases fault with
      | some error => exact hu
      | none =>
        show Carried m (MemoryRemote.list d.owner u).2 d.owner kept sent
        rw [MemoryRemote.state_list]
        exact hu.record _
    have start : P (m.refusing F) :=
      ⟨fun _ => true, [], fun _ _ => rfl, List.nil_prefix,
        (Carried.refl (m := m.refusing F) orderly).of_refusing⟩
    obtain ⟨kept, sent, hkept, hsent, hcarried⟩ :=
      Cycle.invariant_reconcile s.view hbatch hlist start
    exact ⟨kept, sent, load, hkept, hsent, hcarried⟩

/-- What a real destroy has carried out that failed at a request. -/
theorem carried_of_failed_destroy {F : Operation → TargetId → Option RemoteError}
    {fault : Option RemoteError} {now : Timestamp} {c : CycleError} {v : World MemoryRemote}
    {log : List Notice} (orderly : Orderly m d.owner)
    (failed : (run (listing fault) home now d (.destroy false)).run ⟨m.refusing F, disk⟩ =
      ⟨.error (.cycle c), v, log⟩) :
    v.disk = disk ∧ ∃ s kept, StoredState.load home d.owner disk = .ok s ∧
      (∀ id, id ∉ d.desired.targets → kept id = true) ∧ Carried m v.remote d.owner kept [] := by
  have he := destroyEnds (listing fault) home now d ⟨m.refusing F, disk⟩
  rw [failed] at he
  -- only the deletes can fail for the cycle; the disk is not reached then
  cases he with
  | @failed s e t load clear =>
    obtain ⟨kept, hkept, hcarried⟩ :=
      MemoryRemote.carried_deleteAll (m := m.refusing F) orderly d.desired.targets
    have hstate :
        ((Batch.deleteAll remote d.owner false d.desired.targets).run (m.refusing F)).state = t :=
      clear.2
    rw [hstate] at hcarried
    exact ⟨rfl, s, kept, load, hkept, hcarried.of_refusing⟩

end Run

/-- No refusals. -/
def refusesNothing (_ : Operation) (_ : TargetId) : Option RemoteError := none

/-- **Trying again is safe.**  After a real apply or destroy that failed at a request, and not
because the owner is gone, the same run with nothing refused any more repeats what it would have
done at one go: on any remote in memory that does not renumber, and on one that does and that grew
from an empty one. -/
theorem retry_repeats {m : MemoryRemote} {home : Home} {d : Declaration} {mode : Mode} {disk : Disk}
    {F : Operation → TargetId → Option RemoteError} {fault : Option RemoteError} {c : CycleError}
    {v : World MemoryRemote} {log : List Notice} {now : Timestamp}
    (grown : m.compacting = false ∨ MemoryRemote.Raised m) (changes : mode.changes = true)
    (failed : (Run.run (listing fault) home now d mode).run ⟨m.refusing F, disk⟩ =
      ⟨.error (.cycle c), v, log⟩)
    (known : ∀ o, c ≠ .ownerNotFound o) (t u : Timestamp) :
    Repeats home d.owner
      ((Run.run remote home t d mode).run ⟨m.refusing refusesNothing, disk⟩)
      ((Run.run remote home u d mode).run ⟨v.remote.refusing refusesNothing, v.disk⟩) := by
  have orderly : Orderly m d.owner := by
    rcases grown with hc | hraised
    · exact MemoryRemote.orderly_of_not_compacting hc d.owner
    · exact MemoryRemote.orderly_of_raised hraised d.owner
  have sound : ∀ (n : MemoryRemote) operation id,
      (n.refusing refusesNothing).failures operation id = none :=
    fun _ _ _ => rfl
  -- what the failed run carried out is part of what the second one asks for
  cases mode with
  | apply rehearse =>
    obtain rfl : rehearse = false := by simpa [Mode.changes] using changes
    obtain ⟨hdisk, s, kept, sent, load, hkept, hsent, hcarried⟩ :=
      Run.carried_of_failed_apply orderly failed known
    rw [hdisk]
    exact Run.repeats_apply (m := m.refusing refusesNothing) orderly (sound m) (sound v.remote) load
      (hcarried.refusing _ _) hkept hsent t u
  | read => cases changes
  | destroy rehearse =>
    obtain rfl : rehearse = false := by simpa [Mode.changes] using changes
    obtain ⟨hdisk, s, kept, load, hkept, hcarried⟩ := Run.carried_of_failed_destroy orderly failed
    rw [hdisk]
    exact Run.repeats_destroy (m := m.refusing refusesNothing) orderly (sound m)
      (sound v.remote) load (hcarried.refusing _ _) hkept t u

/-! ### A run that fails between two relations -/

def retryHome : Home := ⟨"/home", ["home"]⟩

/-- A remote that renumbers, with an owner that has no relations yet. -/
def retryRemote : MemoryRemote := { MemoryRemote.empty with compacting := true }.addOwner ⟨"app"⟩

def retryDeclaration : Declaration :=
  ⟨⟨"app"⟩, ⟨[⟨⟨"a"⟩, .explicit 5, .empty⟩, ⟨⟨"b"⟩, .explicit 3, .empty⟩], by decide, by decide⟩⟩

/-- The second of the two relations is refused. -/
def retryFailures (operation : Operation) (id : TargetId) : Option RemoteError :=
  if operation = .upsert ∧ id = ⟨"b"⟩ then some (.unavailable "down") else none

/-- The run that fails. -/
def retryFirst : Outcome (World MemoryRemote) RunError RunResult :=
  (Run.run (listing none) retryHome ⟨0, 0⟩ retryDeclaration (.apply false)).run
    ⟨retryRemote.refusing retryFailures, .empty⟩

/-- The run that would not have failed. -/
def retryOnce : Outcome (World MemoryRemote) RunError RunResult :=
  (Run.run remote retryHome ⟨1, 0⟩ retryDeclaration (.apply false)).run
    ⟨retryRemote.refusing refusesNothing, .empty⟩

/-- The second try. -/
def retryAgain : Outcome (World MemoryRemote) RunError RunResult :=
  (Run.run remote retryHome ⟨2, 0⟩ retryDeclaration (.apply false)).run
    ⟨retryFirst.state.remote.refusing refusesNothing, retryFirst.state.disk⟩

theorem retry_repeats_sample :
    retryFirst.result = .error (.cycle (.batch ⟨.upsert, ⟨"b"⟩, .unavailable "down"⟩)) ∧
      retryOnce.result.isOk = true ∧ Repeats retryHome ⟨"app"⟩ retryOnce retryAgain := by
  have hresult : retryFirst.result =
      .error (.cycle (.batch ⟨.upsert, ⟨"b"⟩, .unavailable "down"⟩)) := by rfl
  have hfirst : retryFirst = ⟨.error (.cycle (.batch ⟨.upsert, ⟨"b"⟩, .unavailable "down"⟩)),
      retryFirst.state,
      retryFirst.log⟩ := by rw [← hresult]
  have hraised : MemoryRemote.Raised retryRemote := .addOwner .empty ⟨"app"⟩
  have hok : retryOnce.result.isOk = true := by rfl
  exact ⟨hresult, hok, retry_repeats (.inr hraised) rfl hfirst (fun _ => nofun) ⟨1, 0⟩ ⟨2, 0⟩⟩

end Roster
