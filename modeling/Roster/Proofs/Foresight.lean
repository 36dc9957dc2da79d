/-
Plans, rehearsals and real applies.

Three things say what an apply will do: the plan that a preview shows, what a rehearsal answers, and
the requests that the apply itself makes.  A preview asks the remote nothing and a rehearsal asks
for a list only, so that they agree is not seen where they run; they agree because all three go
through the operations of one plan, in order.

* `Plan.foretold`, `Plan.requests`, `Plan.outcomes`: what a plan makes a rehearsal answer, which
  requests it stands for, and what becomes of them;
* `yields_rehearsal_iff`: when a rehearsal ends well, on any remote, and with what;
* `calls_mapM`, `calls_apply`: the requests of a batch that ends well, on record in the remote;
* `preview_foretells`: all of it together.
-/
import Roster.Proofs.Reload
import Roster.Proofs.Retry

namespace Roster

variable {σ : Type}

namespace Plan

/-- What a rehearsal of the plan answers. -/
def foretold (p : Plan) : List Applied :=
  p.toDelete.map .wouldDelete ++ p.toUpsert.map fun r => .wouldUpsert r.target

/-- The requests that the plan stands for, with the list that is asked for after them. -/
def requests (p : Plan) (owner : OwnerId) : List Call :=
  p.toDelete.map (.delete owner) ++
    (p.toUpsert.map fun r => .upsert owner r.target) ++ [.list owner]

/-- What becomes of the operations of the plan, if the remote holds what it holds before them. -/
def outcomes (p : Plan) (m : MemoryRemote) (owner : OwnerId) : List Applied :=
  p.toDelete.map (m.deletion owner) ++ p.toUpsert.map fun r => .upserted r.target

theorem target_deletion (m : MemoryRemote) (owner : OwnerId) (id : TargetId) :
    (m.deletion owner id).target = id := by
  unfold MemoryRemote.deletion
  split <;> rfl

/-- A rehearsal answers for the targets that an apply is about, in the same order. -/
theorem targets_outcomes (p : Plan) (m : MemoryRemote) (owner : OwnerId) :
    (p.outcomes m owner).map Applied.target = p.foretold.map Applied.target := by
  simp only [outcomes, foretold, List.map_append, List.map_map, Function.comp_def, target_deletion]
  rfl

end Plan

/-! ### Rehearsals -/

namespace Batch

variable {remote : Remote σ} {owner : OwnerId} {s : σ}

theorem yields_deleteAll_rehearsal (ids : List TargetId) :
    (deleteAll remote owner true ids).Yields s (ids.map .wouldDelete) s := by
  have hrun := run_rehearsal owner ids s
  exact ⟨congrArg Outcome.result hrun, congrArg Outcome.state hrun⟩

theorem yields_upsertAll_rehearsal (rs : List Relation) :
    (upsertAll remote owner true rs).Yields s (rs.map fun r => .wouldUpsert r.target) s := by
  simp only [upsertAll, if_true]
  induction rs with
  | nil => exact Action.yields_mapM_nil.2 ⟨rfl, rfl⟩
  | cons r rs ih => exact Action.yields_mapM_cons.2 ⟨_, s, _, ⟨rfl, rfl⟩, ih, rfl⟩

/-- Rehearsing a plan ends well, answers what the plan foretells and leaves the remote as it is. -/
theorem yields_apply_rehearsal (plan : Plan) :
    (apply remote owner true plan).Yields s plan.foretold s :=
  yields_apply.2 ⟨_, s, _, yields_deleteAll_rehearsal _, yields_upsertAll_rehearsal _, rfl⟩

end Batch

namespace Run

variable {remote : Remote σ} {home : Home} {now : Timestamp} {d : Declaration} {w v : World σ}

/-- The cycle that a rehearsal ends with, once the remote has listed the relations. -/
def rehearsal (d : Declaration) (s : StoredState) (actual : List Relation) : Reconciliation :=
  { Cycle.observe d.owner d.desired s.view actual with
    applied := (Plan.between s.declared d.desired).foretold }

theorem yields_rehearsed_iff {s : StoredState} {q : Reconciliation} :
    (rehearsed remote d s).Yields w q v ↔
      ∃ actual, remote.list d.owner w.remote = (.ok actual, v.remote) ∧ v.disk = w.disk ∧
        q = rehearsal d s actual := by
  rw [rehearsed, yields_onRemote, Cycle.yields_reconcile]
  constructor
  · rintro ⟨hdisk, as, u, actual, ha, hl, rfl⟩
    -- the batch that was rehearsed is known already
    obtain ⟨rfl, rfl⟩ := (Batch.yields_apply_rehearsal _).unique ha
    exact ⟨actual, hl, hdisk, rfl⟩
  · rintro ⟨actual, hl, hdisk, rfl⟩
    exact ⟨hdisk, _, _, actual, Batch.yields_apply_rehearsal _, hl, rfl⟩

/-- A rehearsal ends well exactly if the remote lists the relations, and answers what its plan
foretells. -/
theorem yields_rehearsal_iff {s : StoredState} (load : StoredState.load home d.owner w.disk = .ok s)
    {r : RunResult} :
    (run remote home now d (.apply true)).Yields w r v ↔
      ∃ actual, remote.list d.owner w.remote = (.ok actual, v.remote) ∧ v.disk = w.disk ∧
        r = .reconciled (rehearsal d s actual) := by
  unfold run
  rw [Action.yields_bind]
  constructor
  · rintro ⟨s', u, hs, h⟩
    obtain ⟨rfl, rfl⟩ := (yields_load load).unique hs
    obtain ⟨q, v', hq, h⟩ := Action.yields_bind.1 h
    obtain ⟨rfl, rfl⟩ := Action.yields_pure.1 h
    obtain ⟨actual, hl, hdisk, rfl⟩ := yields_rehearsed_iff.1 hq
    exact ⟨actual, hl, hdisk, rfl⟩
  · rintro ⟨actual, hl, hdisk, rfl⟩
    refine ⟨s, w, yields_load load, Action.yields_bind.2 ⟨rehearsal d s actual, v, ?_, ?_⟩⟩
    · exact yields_rehearsed_iff.2 ⟨actual, hl, hdisk, rfl⟩
    · exact Action.yields_pure.2 ⟨rfl, rfl⟩

/-- If the list is refused, a rehearsal fails for that. -/
theorem fails_rehearsal {s : StoredState} {cause : RemoteError} {t : σ}
    (load : StoredState.load home d.owner w.disk = .ok s)
    (list : remote.list d.owner w.remote = (.error cause, t)) (now : Timestamp) :
    (run remote home now d (.apply true)).Fails w (.cycle (Cycle.listError d.owner cause))
      ⟨t, w.disk⟩ := by
  have hcycle : (Cycle.reconcile remote d.owner true s.declared d.desired s.view).Fails w.remote
      (Cycle.listError d.owner cause) t :=
    Cycle.fails_reconcile.2 (.inr ⟨_, _, cause, Batch.yields_apply_rehearsal _, list, rfl⟩)
  exact Action.fails_bind.2
    (.inr ⟨s, w, yields_load load, Action.fails_bind.2 (.inl (fails_onRemote hcycle))⟩)

/-- However it ends, a rehearsal that finds what is remembered asks for one list and does nothing
else. -/
theorem state_rehearsal {s : StoredState} (load : StoredState.load home d.owner w.disk = .ok s)
    (now : Timestamp) :
    ((run remote home now d (.apply true)).run w).state =
      ⟨(remote.list d.owner w.remote).2, w.disk⟩ := by
  rcases hl : remote.list d.owner w.remote with ⟨cause | actual, t⟩
  · exact (fails_rehearsal load hl now).2
  · exact (yields_rehearsal_iff (v := ⟨t, w.disk⟩) load |>.2 ⟨actual, hl, rfl, rfl⟩).state

end Run

/-! ### The requests on record -/

namespace MemoryRemote

variable {m n : MemoryRemote} {owner : OwnerId}

theorem calls_delete (owner : OwnerId) (id : TargetId) (m : MemoryRemote) :
    (delete owner id m).2.calls = m.calls ++ [.delete owner id] := by
  unfold delete
  dsimp only
  split
  · rfl
  · rfl
  · split <;> rfl

theorem calls_upsert (owner : OwnerId) (r : Relation) (m : MemoryRemote) :
    (upsert owner r m).2.calls = m.calls ++ [.upsert owner r.target] := by
  unfold upsert
  dsimp only
  split <;> rfl

/-- If every single action makes one request, actions that end well make theirs in order. -/
theorem calls_mapM {α : Type} {f : α → Action MemoryRemote BatchError Applied}
    {call : α → Call} {as : List α} {bs : List Applied}
    (step : ∀ a m, ((f a).run m).state.calls = m.calls ++ [call a])
    (h : (List.mapM f as).Yields m bs n) : n.calls = m.calls ++ as.map call := by
  induction as generalizing m bs with
  | nil =>
    obtain ⟨-, rfl⟩ := Action.yields_mapM_nil.1 h
    exact (List.append_nil _).symm
  | cons a as ih =>
    obtain ⟨b, k, cs, hb, hcs, rfl⟩ := Action.yields_mapM_cons.1 h
    have hcalls := step a m
    rw [hb.state] at hcalls
    rw [ih hcs, hcalls, List.append_assoc]
    rfl

/-- The requests of a batch that ends well. -/
theorem calls_apply {plan : Plan} {as : List Applied}
    (h : (Batch.apply remote owner false plan).Yields m as n) :
    n.calls ++ [.list owner] = m.calls ++ plan.requests owner := by
  obtain ⟨ds, k, us, hd, hu, -⟩ := Batch.yields_apply.1 h
  simp only [Batch.deleteAll, Batch.upsertAll, Bool.false_eq_true, if_false] at hd hu
  have hdeletes : k.calls = m.calls ++ plan.toDelete.map (.delete owner) :=
    calls_mapM (fun id m => by rw [Batch.state_deleteOne]; exact calls_delete owner id m) hd
  have hupserts : n.calls = k.calls ++ plan.toUpsert.map fun r => .upsert owner r.target :=
    calls_mapM (fun r m => by rw [Batch.state_upsertOne]; exact calls_upsert owner r m) hu
  rw [hupserts, hdeletes, Plan.requests, List.append_assoc, List.append_assoc, List.append_assoc]

end MemoryRemote

/-- **Plan, rehearsal and real apply agree.**  A rehearsal asks for one list and changes nothing,
ends well exactly if the remote knows the owner, and answers what the plan foretells.  An apply that
ends well makes the requests of the plan in order, and answers for the same targets: of the deletes
for those that the remote held at the start, and for every upsert. -/
theorem preview_foretells {home : Home} {d : Declaration} {s : StoredState} {disk : Disk}
    {m : MemoryRemote} (load : StoredState.load home d.owner disk = .ok s)
    (sound : ∀ id, m.failures .delete id = none) :
    ∃ p, Run.preview home d disk = .ok p ∧
      (∀ now, ((Run.run MemoryRemote.remote home now d (.apply true)).run ⟨m, disk⟩).state =
        ⟨m.record (.list d.owner), disk⟩) ∧
      (∀ now,
        ((Run.run MemoryRemote.remote home now d (.apply true)).run ⟨m, disk⟩).result.isOk = true ↔
        (m.relations? d.owner).isSome = true) ∧
      (∀ now r v, (Run.run MemoryRemote.remote home now d (.apply true)).Yields ⟨m, disk⟩ r v →
        ∃ q, r = .reconciled q ∧ q.applied = p.plan.foretold) ∧
      (∀ now r v, (Run.run MemoryRemote.remote home now d (.apply false)).Yields ⟨m, disk⟩ r v →
        ∃ q, r = .reconciled q ∧ q.applied = p.plan.outcomes m d.owner ∧
          q.applied.map Applied.target = p.plan.foretold.map Applied.target ∧
          v.remote.calls = m.calls ++ p.plan.requests d.owner) := by
  have hpreview : Run.preview home d disk = .ok
      { plan := Plan.between s.declared d.desired
        unified := DesiredSet.unified s.declared d.desired d.owner.text
        hasPrevious := StoredState.isStored home d.owner disk
        reconciledAt := s.reconciledAt } := by
    rw [Run.preview, load]
    rfl
  refine ⟨_, hpreview, fun now => ?_, fun now => ?_, fun now r v h => ?_, fun now r v h => ?_⟩
  · rw [Run.state_rehearsal (w := ⟨m, disk⟩) load]
    exact congrArg (World.mk · disk) (MemoryRemote.state_list d.owner m)
  · cases hr : m.relations? d.owner with
    | none =>
      have hfails := Run.fails_rehearsal (w := ⟨m, disk⟩) load (MemoryRemote.list_of_noOwner hr) now
      rw [hfails.1]
      exact iff_of_false Bool.false_ne_true Bool.false_ne_true
    | some actual =>
      have hyields : (Run.run MemoryRemote.remote home now d (.apply true)).Yields ⟨m, disk⟩
          (.reconciled (Run.rehearsal d s actual)) ⟨_, disk⟩ :=
        (Run.yields_rehearsal_iff load).2 ⟨actual, MemoryRemote.list_of_owner hr, rfl, rfl⟩
      rw [hyields.result]
      exact iff_of_true rfl rfl
  · obtain ⟨actual, -, -, rfl⟩ := (Run.yields_rehearsal_iff load).1 h
    exact ⟨_, rfl, rfl⟩
  · -- the real apply loads the same state, and hence has the same plan
    obtain ⟨s', q, _, rfl, load', hcycle, -, -⟩ := Run.yields_apply h
    obtain rfl := Except.ok.inj (load.symm.trans load')
    obtain ⟨as, k, actual, happly, hlist, rfl⟩ := Cycle.yields_reconcile.1 hcycle
    have has : as = (Plan.between s.declared d.desired).outcomes m d.owner := by
      obtain ⟨ds, u, us, hd, hu, rfl⟩ := Batch.yields_apply.1 happly
      rw [MemoryRemote.applied_deleteAll (Plan.nodup_toDelete_between _ _) sound hd,
        Batch.applied_upsertAll hu]
      rfl
    refine ⟨_, rfl, has, ?_, ?_⟩
    · rw [has, Plan.targets_outcomes]
    · have hcalls := congrArg (fun o => o.2.calls) hlist
      rw [← MemoryRemote.calls_apply happly, ← hcalls]
      show ((MemoryRemote.list d.owner k).2).calls = _
      rw [MemoryRemote.state_list]
      rfl

/-! ### A plan that deletes what is there and what is not -/

def foresightHome : Home := ⟨"/home", ["home"]⟩

/-- What an apply of two relations left. -/
def foresightState : StoredState :=
  StoredState.ofOwner ⟨"app"⟩ ⟨0, 0⟩ ⟨[.bare ⟨"gone"⟩, .bare ⟨"old"⟩], by decide, by decide⟩ []

def foresightDisk : Disk :=
  Disk.empty.withFile (StoredState.location foresightHome ⟨"app"⟩) (.text foresightState.text)

/-- The first of the two relations is gone by now, and another one was added elsewhere. -/
def foresightRemote : MemoryRemote := .ofOwners [("app", [.bare ⟨"old"⟩, .bare ⟨"other"⟩])]

def foresightDeclaration : Declaration := ⟨⟨"app"⟩, ⟨[.bare ⟨"new"⟩], by decide, by decide⟩⟩

theorem load_foresightDisk :
    StoredState.load foresightHome ⟨"app"⟩ foresightDisk = .ok foresightState := by
  have hbare : ∀ r ∈ [Relation.bare ⟨"gone"⟩, .bare ⟨"old"⟩], r.priority = .unset ∧
      r.payload = .empty := by
    simp [Relation.bare]
  refine StoredState.load_of_shallow rfl ⟨by decide, by decide, by decide⟩ (fun r hr => ?_)
    (fun r hr => ?_) fun r hr => ?_
  · obtain ⟨hp, he⟩ := hbare r hr
    refine ⟨fun n hn => ?_, he ▸ Payload.formed_empty⟩
    rw [hp] at hn
    cases hn
  · rw [(hbare r hr).2]
    exact ⟨trivial, trivial⟩
  · rw [Shallow, (hbare r hr).2]
    decide

theorem preview_foretells_sample :
    ∃ p q v, Run.preview foresightHome foresightDeclaration foresightDisk = .ok p ∧
      (Run.run MemoryRemote.remote foresightHome ⟨1, 0⟩ foresightDeclaration (.apply false)).Yields
        ⟨foresightRemote, foresightDisk⟩ (.reconciled q) v ∧
      q.applied = p.plan.outcomes foresightRemote ⟨"app"⟩ ∧
      q.applied = [.alreadyAbsent ⟨"gone"⟩, .deleted ⟨"old"⟩, .upserted ⟨"new"⟩] ∧
      v.remote.calls = [.delete ⟨"app"⟩ ⟨"gone"⟩, .delete ⟨"app"⟩ ⟨"old"⟩, .upsert ⟨"app"⟩ ⟨"new"⟩,
        .list ⟨"app"⟩] := by
  obtain ⟨q, t, hcycle⟩ : ∃ q t,
      (Cycle.reconcile MemoryRemote.remote ⟨"app"⟩ false foresightState.declared
        foresightDeclaration.desired foresightState.view).Yields foresightRemote q t :=
    ⟨_, _, rfl, rfl⟩
  obtain ⟨disk, hsave⟩ : ∃ disk, (StoredState.save foresightHome ⟨"app"⟩
      (Run.remembered ⟨1, 0⟩ foresightDeclaration q)).Yields foresightDisk () disk := ⟨_, rfl, rfl⟩
  have hrun :
      (Run.run MemoryRemote.remote foresightHome ⟨1, 0⟩ foresightDeclaration (.apply false)).Yields
        ⟨foresightRemote, foresightDisk⟩ (.reconciled q) ⟨t, disk⟩ :=
    Run.yields_applied load_foresightDisk hcycle hsave
  have hload : StoredState.load foresightHome foresightDeclaration.owner foresightDisk =
      .ok foresightState :=
    load_foresightDisk
  obtain ⟨p, hp, -, -, -, hreal⟩ := preview_foretells (m := foresightRemote) hload fun _ => rfl
  obtain ⟨q', he, hq, -, hcalls⟩ := hreal ⟨1, 0⟩ _ _ hrun
  obtain rfl := RunResult.reconciled.inj he
  have hplan : p.plan = Plan.between foresightState.declared foresightDeclaration.desired := by
    rw [Run.preview, hload] at hp
    rw [← Except.ok.inj hp]
  refine ⟨p, q, _, hp, hrun, hq, ?_, ?_⟩
  · rw [hq, hplan]
    decide +kernel
  · rw [hcalls, hplan]
    decide +kernel

end Roster
