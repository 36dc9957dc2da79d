/-
How runs end.

A run loads what is remembered, goes through a cycle and then saves or removes.  Each of these may
fail, and where it does settles what becomes of the remote and of the disk.

* `ApplyEnds`, `applyEnds`: the five ways in which a real apply ends;
* `DestroyEnds`, `destroyEnds`: the four ways in which a real destroy ends;
* `LookEnds`, `lookEnds`: the four ways in which a look ends;
* `remote_of_not_changes`, `disk_of_not_changes`, `kept_of_rehearses`: a run that may not change the
  remote only lists it and at most forgets the owner, and a rehearsal leaves the disk as it is;
* `kept_of_not_changes`: both, for an owner that is not gone;
* `invariant_run`: what the requests for an owner keep of the remote, and saving and removing for it
  of the disk, every run for the owner keeps.
-/
import Mathlib.Tactic.Common
import Roster.Proofs.Cycle
import Roster.Proofs.StoredState
import Roster.Run

namespace Roster.Run

variable {σ α : Type} {remote : Remote σ} {home : Home} {now : Timestamp} {d : Declaration}
  {w v : World σ}

theorem run_load_error {e : StateError} (h : StoredState.load home d.owner w.disk = .error e)
    (mode : Mode) :
    (run remote home now d mode).run w = ⟨.error (.state e), w, []⟩ := by
  unfold run
  refine Action.run_bind_error ?_
  simp only [Action.run, load, onDisk, h]
  rfl

theorem yields_load {s : StoredState} (h : StoredState.load home d.owner w.disk = .ok s) :
    (load home d.owner : Action (World σ) RunError StoredState).Yields w s w :=
  ⟨congrArg (Except.mapError RunError.state) h, rfl⟩

theorem yields_onRemote {x : Action σ CycleError α} {a : α} :
    (onRemote x).Yields w a v ↔ v.disk = w.disk ∧ x.Yields w.remote a v.remote := by
  obtain ⟨t, disk⟩ := v
  unfold Action.Yields Action.run onRemote
  rcases x w.remote with ⟨_ | b, u, log⟩
  · simp [Action.mapError_error]
  · simp only [Action.mapError_ok, Except.ok.injEq, World.mk.injEq]
    exact ⟨fun h => ⟨h.2.2.symm, h.1, h.2.1⟩, fun h => ⟨h.2.1, h.2.2, h.1.symm⟩⟩

theorem yields_onDisk {x : Action Disk StateError α} {a : α} :
    (onDisk x).Yields w a v ↔ v.remote = w.remote ∧ x.Yields w.disk a v.disk := by
  obtain ⟨t, disk⟩ := v
  unfold Action.Yields Action.run onDisk
  rcases x w.disk with ⟨_ | b, u, log⟩
  · simp [Action.mapError_error]
  · simp only [Action.mapError_ok, Except.ok.injEq, World.mk.injEq]
    exact ⟨fun h => ⟨h.2.1.symm, h.1, h.2.2⟩, fun h => ⟨h.2.1, h.1.symm, h.2.2⟩⟩

theorem fails_onRemote {x : Action σ CycleError α} {c : CycleError} {t : σ}
    (h : x.Fails w.remote c t) :
    (onRemote x).Fails w (.cycle c) ⟨t, w.disk⟩ := by
  obtain ⟨hr, rfl⟩ := h
  exact ⟨congrArg (Except.mapError RunError.cycle) hr, rfl⟩

theorem fails_onDisk {x : Action Disk StateError α} {e : StateError} {disk : Disk}
    (h : x.Fails w.disk e disk) : (onDisk x).Fails w (.state e) ⟨w.remote, disk⟩ := by
  obtain ⟨hr, rfl⟩ := h
  exact ⟨congrArg (Except.mapError RunError.state) hr, rfl⟩

/-! ### Cycles that forget an owner that is gone -/

/-- Why a run fails that finds the owner gone: for that, unless the owner cannot be forgotten. -/
def goneError (home : Home) (owner : OwnerId) (disk : Disk) : RunError :=
  match ((StoredState.remove home owner).run disk).result with
  | .ok _ => .cycle (.ownerNotFound owner)
  | .error e => .state e

theorem yields_forgetIfGone (home : Home) {x : Action σ CycleError α} {a : α} {t : σ}
    (h : x.Yields w.remote a t) :
    (forgetIfGone home x).Yields w a ⟨t, w.disk⟩ := by
  have hx : (onRemote (Action.attempt x)).Yields w (.ok a) ⟨t, w.disk⟩ :=
    yields_onRemote.2 ⟨rfl, Action.yields_attempt.2 h⟩
  exact Action.yields_bind.2 ⟨_, _, hx, Action.yields_pure.2 ⟨rfl, rfl⟩⟩

theorem fails_forgetIfGone (home : Home) {x : Action σ CycleError α} {c : CycleError} {t : σ}
    (h : x.Fails w.remote c t) (hc : ∀ owner, c ≠ .ownerNotFound owner) :
    (forgetIfGone home x).Fails w (.cycle c) ⟨t, w.disk⟩ := by
  have hx : (onRemote (Action.attempt x)).Yields w (.error c) ⟨t, w.disk⟩ :=
    yields_onRemote.2 ⟨rfl, Action.yields_attempt.2 h⟩
  refine Action.fails_bind.2 (.inr ⟨_, _, hx, ?_⟩)
  cases c with
  | ownerNotFound owner => exact absurd rfl (hc owner)
  | batch | listing => exact Action.fails_fail.2 ⟨rfl, rfl⟩

/-- An owner that is gone is forgotten, and the run fails. -/
theorem fails_forgetIfGone_of_gone (home : Home) {x : Action σ CycleError α}
    {owner : OwnerId} {t : σ} (h : x.Fails w.remote (.ownerNotFound owner) t) :
    (forgetIfGone home x).Fails w (goneError home owner w.disk)
      ⟨t, ((StoredState.remove home owner).run w.disk).state⟩ := by
  have hx : (onRemote (Action.attempt x)).Yields w (.error (.ownerNotFound owner)) ⟨t, w.disk⟩ :=
    yields_onRemote.2 ⟨rfl, Action.yields_attempt.2 h⟩
  refine Action.fails_bind.2 (.inr ⟨_, _, hx, ?_⟩)
  unfold goneError
  cases hr : ((StoredState.remove home owner).run w.disk).result with
  | error e =>
    exact Action.fails_bind.2 (.inl (fails_onDisk (w := ⟨t, w.disk⟩) (Action.fails_of_result hr)))
  | ok removed =>
    have hd : (onDisk (StoredState.remove home owner)).Yields ⟨t, w.disk⟩ removed
        ⟨t, ((StoredState.remove home owner).run w.disk).state⟩ :=
      yields_onDisk.2 ⟨rfl, Action.yields_of_result hr⟩
    refine Action.fails_bind.2 (.inr ⟨removed, _, hd, ?_⟩)
    -- whether anything was stored only decides what is noted
    cases removed with
    | true =>
      exact Action.fails_bind.2
        (.inr ⟨(), _, Action.yields_note.2 rfl, Action.fails_fail.2 ⟨rfl, rfl⟩⟩)
    | false => exact Action.fails_fail.2 ⟨rfl, rfl⟩

/-! ### Real applies -/

/-- What a real apply saves. -/
def remembered (now : Timestamp) (d : Declaration) (r : Reconciliation) : StoredState :=
  ⟨some d.owner, some now, d.desired, r.observation.view⟩

/-- A cycle that ends well and is remembered makes a real apply that ends well. -/
theorem yields_applied {s : StoredState} {r : Reconciliation} {t : σ} {disk : Disk}
    (hl : StoredState.load home d.owner w.disk = .ok s)
    (hc : (Cycle.reconcile remote d.owner false s.declared d.desired s.view).Yields w.remote r t)
    (hs : (StoredState.save home d.owner (remembered now d r)).Yields w.disk () disk) :
    (run remote home now d (.apply false)).Yields w (.reconciled r) ⟨t, disk⟩ := by
  have hcycle := yields_forgetIfGone home hc
  have hsave := yields_onDisk (w := ⟨t, w.disk⟩) (v := ⟨t, disk⟩) |>.2 ⟨rfl, hs⟩
  refine Action.yields_bind.2 ⟨s, w, yields_load hl, Action.yields_bind.2 ⟨r, ⟨t, disk⟩, ?_, ?_⟩⟩
  · refine Action.yields_bind.2 ⟨r, _, hcycle, Action.yields_bind.2 ⟨(), _, hsave, ?_⟩⟩
    exact Action.yields_pure.2 ⟨rfl, rfl⟩
  · exact Action.yields_pure.2 ⟨rfl, rfl⟩

/-- The ways in which a real apply ends, each with its result and the world that it leaves. -/
inductive ApplyEnds (remote : Remote σ) (home : Home) (now : Timestamp) (d : Declaration)
    (w : World σ) :
    Except RunError RunResult → World σ → Prop
  /-- What is remembered cannot be loaded. -/
  | unread {e : StateError} (load : StoredState.load home d.owner w.disk = .error e) :
    ApplyEnds remote home now d w (.error (.state e)) w
  /-- The cycle fails, and not because the owner is gone. -/
  | failed {s : StoredState} {c : CycleError} (load : StoredState.load home d.owner w.disk = .ok s)
    (cycle :
      ((Cycle.reconcile remote d.owner false s.declared d.desired s.view).run w.remote).result =
      .error c) (known : ∀ owner, c ≠ .ownerNotFound owner) :
    ApplyEnds remote home now d w (.error (.cycle c))
      ⟨((Cycle.reconcile remote d.owner false s.declared d.desired s.view).run w.remote).state,
        w.disk⟩
  /-- The remote does not know the owner. -/
  | gone {s : StoredState} {owner : OwnerId}
    (load : StoredState.load home d.owner w.disk = .ok s)
    (cycle :
      ((Cycle.reconcile remote d.owner false s.declared d.desired s.view).run w.remote).result =
      .error (.ownerNotFound owner)) :
    ApplyEnds remote home now d w (.error (goneError home owner w.disk))
      ⟨((Cycle.reconcile remote d.owner false s.declared d.desired s.view).run w.remote).state,
        ((StoredState.remove home owner).run w.disk).state⟩
  /-- The cycle ends well, but what it came to cannot be saved. -/
  | unsaved {s : StoredState} {r : Reconciliation} {t : σ} {e : StateError}
    (load : StoredState.load home d.owner w.disk = .ok s)
    (cycle : (Cycle.reconcile remote d.owner false s.declared d.desired s.view).Yields w.remote r t)
    (save : ((StoredState.save home d.owner (remembered now d r)).run w.disk).result = .error e) :
    ApplyEnds remote home now d w (.error (.state e))
      ⟨t, ((StoredState.save home d.owner (remembered now d r)).run w.disk).state⟩
  /-- The cycle ends well and is remembered. -/
  | done {s : StoredState} {r : Reconciliation} {t : σ} {disk : Disk}
    (load : StoredState.load home d.owner w.disk = .ok s)
    (cycle : (Cycle.reconcile remote d.owner false s.declared d.desired s.view).Yields w.remote r t)
    (save : (StoredState.save home d.owner (remembered now d r)).Yields w.disk () disk) :
    ApplyEnds remote home now d w (.ok (.reconciled r)) ⟨t, disk⟩

/-- A real apply ends in one of the five ways. -/
theorem applyEnds (remote : Remote σ) (home : Home) (now : Timestamp) (d : Declaration)
    (w : World σ) :
    ApplyEnds remote home now d w ((run remote home now d (.apply false)).run w).result
      ((run remote home now d (.apply false)).run w).state := by
  cases hl : StoredState.load home d.owner w.disk with
  | error e =>
    rw [run_load_error hl]
    exact .unread hl
  | ok s =>
    -- where the cycle leads after loading, the run leads
    have fails {e v} (h : (applied remote home now d s).Fails w e v) :
        (run remote home now d (.apply false)).Fails w e v :=
      Action.fails_bind.2 (.inr ⟨s, w, yields_load hl, Action.fails_bind.2 (.inl h)⟩)
    rcases Action.yields_or_fails (Cycle.reconcile remote d.owner false s.declared d.desired s.view)
      w.remote with ⟨r, t, hc⟩ | ⟨c, t, hc⟩
    · -- the cycle ended well, and whether the run does depends on saving
      rcases Action.yields_or_fails (StoredState.save home d.owner (remembered now d r)) w.disk with
        ⟨_, disk, hs⟩ | ⟨e, disk, hs⟩
      · have hrun : (run remote home now d (.apply false)).Yields w _ _ := yields_applied hl hc hs
        rw [hrun.result, hrun.state]
        exact .done hl hc hs
      · have hcycle := yields_forgetIfGone home hc
        have hsave := fails_onDisk (w := ⟨t, w.disk⟩) hs
        have hrun :=
          fails (Action.fails_bind.2 (.inr ⟨r, _, hcycle, Action.fails_bind.2 (.inl hsave)⟩))
        have hg : ApplyEnds remote home now d w _ _ := .unsaved hl hc hs.1
        rw [hs.2] at hg
        rw [hrun.1, hrun.2]
        exact hg
    · -- the cycle failed: an owner that is gone is forgotten, and nothing else is saved or removed
      by_cases hk : ∃ owner, c = .ownerNotFound owner
      · obtain ⟨owner, rfl⟩ := hk
        have hrun := fails (Action.fails_bind.2 (.inl (fails_forgetIfGone_of_gone home hc)))
        have hg : ApplyEnds remote home now d w _ _ := .gone hl hc.1
        rw [hc.2] at hg
        rw [hrun.1, hrun.2]
        exact hg
      · have hne : ∀ owner, c ≠ .ownerNotFound owner := fun owner he => hk ⟨owner, he⟩
        have hrun := fails (Action.fails_bind.2 (.inl (fails_forgetIfGone home hc hne)))
        have hg : ApplyEnds remote home now d w _ _ := .failed hl hc.1 hne
        rw [hc.2] at hg
        rw [hrun.1, hrun.2]
        exact hg

/-- What a real apply comes to when it ends well. -/
theorem yields_apply {r : RunResult} (h : (run remote home now d (.apply false)).Yields w r v) :
    ∃ s q disk, r = .reconciled q ∧ StoredState.load home d.owner w.disk = .ok s ∧
      (Cycle.reconcile remote d.owner false s.declared d.desired s.view).Yields
        w.remote q v.remote ∧
      (StoredState.save home d.owner (remembered now d q)).Yields w.disk () disk ∧
      v.disk = disk := by
  have he := applyEnds remote home now d w
  rw [h.result, h.state] at he
  cases he with
  | done load cycle save => exact ⟨_, _, _, rfl, load, cycle, save, rfl⟩

/-! ### Real destroys -/

theorem yields_destroy {s : StoredState} {as : List Applied} {t : σ} {b : Bool} {disk : Disk}
    (hl : StoredState.load home d.owner w.disk = .ok s)
    (hd : (Batch.deleteAll remote d.owner false d.desired.targets).Yields w.remote as t)
    (hr : (StoredState.remove home d.owner).Yields w.disk b disk) :
    (run remote home now d (.destroy false)).Yields w (.destroyed as) ⟨t, disk⟩ := by
  have hc : (onRemote (Cycle.clear remote d.owner false d.desired)).Yields w as ⟨t, w.disk⟩ :=
    yields_onRemote.2 ⟨rfl, Cycle.yields_ofBatch.2 hd⟩
  have hf : (onDisk (StoredState.remove home d.owner) : Action (World σ) RunError Bool).Yields
      ⟨t, w.disk⟩ b ⟨t, disk⟩ := yields_onDisk.2 ⟨rfl, hr⟩
  have hy : (cleared remote home d false).Yields w as ⟨t, disk⟩ := by
    unfold cleared
    simp only [Bool.not_false, if_true]
    refine Action.yields_bind.2 ⟨as, _, hc, Action.yields_bind.2 ⟨b, _, hf, ?_⟩⟩
    exact Action.yields_pure.2 ⟨rfl, rfl⟩
  exact Action.yields_bind.2
    ⟨s, w, yields_load hl, Action.yields_bind.2 ⟨as, _, hy, Action.yields_pure.2 ⟨rfl, rfl⟩⟩⟩

/-- The ways in which a real destroy ends, each with its result and the world that it leaves. -/
inductive DestroyEnds (remote : Remote σ) (home : Home) (d : Declaration) (w : World σ) :
    Except RunError RunResult → World σ → Prop
  /-- What is remembered cannot be loaded. -/
  | unread {e : StateError} (load : StoredState.load home d.owner w.disk = .error e) :
    DestroyEnds remote home d w (.error (.state e)) w
  /-- A delete fails. -/
  | failed {s : StoredState} {e : BatchError} {t : σ}
    (load : StoredState.load home d.owner w.disk = .ok s)
    (clear : (Batch.deleteAll remote d.owner false d.desired.targets).Fails w.remote e t) :
    DestroyEnds remote home d w (.error (.cycle (.batch e))) ⟨t, w.disk⟩
  /-- The deletes end well, but the owner cannot be forgotten. -/
  | unforgotten {s : StoredState} {as : List Applied} {t : σ} {e : StateError}
    (load : StoredState.load home d.owner w.disk = .ok s)
    (clear : (Batch.deleteAll remote d.owner false d.desired.targets).Yields w.remote as t)
    (remove : ((StoredState.remove home d.owner).run w.disk).result = .error e) :
    DestroyEnds remote home d w (.error (.state e)) ⟨t, w.disk⟩
  /-- The deletes end well and the owner is forgotten. -/
  | done {s : StoredState} {as : List Applied} {t : σ} {removed : Bool} {disk : Disk}
    (load : StoredState.load home d.owner w.disk = .ok s)
    (clear : (Batch.deleteAll remote d.owner false d.desired.targets).Yields w.remote as t)
    (remove : (StoredState.remove home d.owner).Yields w.disk removed disk) :
    DestroyEnds remote home d w (.ok (.destroyed as)) ⟨t, disk⟩

/-- A real destroy ends in one of the four ways. -/
theorem destroyEnds (remote : Remote σ) (home : Home) (now : Timestamp) (d : Declaration)
    (w : World σ) :
    DestroyEnds remote home d w ((run remote home now d (.destroy false)).run w).result
      ((run remote home now d (.destroy false)).run w).state := by
  cases hl : StoredState.load home d.owner w.disk with
  | error e =>
    rw [run_load_error hl]
    exact .unread hl
  | ok s =>
    have fails {e v} (h : (cleared remote home d false).Fails w e v) :
        (run remote home now d (.destroy false)).Fails w e v :=
      Action.fails_bind.2 (.inr ⟨s, w, yields_load hl, Action.fails_bind.2 (.inl h)⟩)
    rcases Action.yields_or_fails
        (Batch.deleteAll remote d.owner false d.desired.targets) w.remote with
      ⟨as, t, hd⟩ | ⟨e, t, hd⟩
    · have hclear : (onRemote (Cycle.clear remote d.owner false d.desired)).Yields w as
          ⟨t, w.disk⟩ :=
        yields_onRemote.2 ⟨rfl, Cycle.yields_ofBatch.2 hd⟩
      rcases Action.yields_or_fails (StoredState.remove home d.owner) w.disk with
        ⟨removed, disk, hr⟩ | ⟨e, disk, hr⟩
      · have hrun : (run remote home now d (.destroy false)).Yields w _ _ := yields_destroy hl hd hr
        rw [hrun.result, hrun.state]
        exact .done hl hd hr
      · -- all was deleted, but the owner is still remembered
        have hremove := fails_onDisk (w := ⟨t, w.disk⟩) hr
        have hrun :=
          fails (Action.fails_bind.2 (.inr ⟨as, _, hclear, Action.fails_bind.2 (.inl hremove)⟩))
        obtain rfl : w.disk = disk := (StoredState.state_remove_of_error hr.1).symm.trans hr.2
        rw [hrun.1, hrun.2]
        exact .unforgotten hl hd hr.1
    · have hclear := fails_onRemote (w := w) (Cycle.fails_ofBatch.2 ⟨e, hd, rfl⟩)
      have hrun := fails (Action.fails_bind.2 (.inl hclear))
      rw [hrun.1, hrun.2]
      exact .failed hl hd

/-! ### Runs that change nothing -/

/-- The ways in which a look ends, each with its result and the world that it leaves. -/
inductive LookEnds (remote : Remote σ) (home : Home) (d : Declaration) (w : World σ) :
    Except RunError RunResult → World σ → Prop
  /-- What is remembered cannot be loaded. -/
  | unread {e : StateError} (load : StoredState.load home d.owner w.disk = .error e) :
    LookEnds remote home d w (.error (.state e)) w
  /-- The list is refused, and not for want of the owner. -/
  | failed {s : StoredState} {cause : RemoteError} {t : σ}
    (load : StoredState.load home d.owner w.disk = .ok s)
    (list : remote.list d.owner w.remote = (.error cause, t)) (known : cause ≠ .notFound) :
    LookEnds remote home d w (.error (.cycle (.listing d.owner cause))) ⟨t, w.disk⟩
  /-- The remote does not know the owner. -/
  | gone {s : StoredState} {t : σ} (load : StoredState.load home d.owner w.disk = .ok s)
    (list : remote.list d.owner w.remote = (.error .notFound, t)) :
    LookEnds remote home d w (.error (goneError home d.owner w.disk))
      ⟨t, ((StoredState.remove home d.owner).run w.disk).state⟩
  /-- The remote lists the relations. -/
  | done {s : StoredState} {actual : List Relation} {t : σ}
    (load : StoredState.load home d.owner w.disk = .ok s)
    (list : remote.list d.owner w.remote = (.ok actual, t)) :
    LookEnds remote home d w (.ok (.reconciled (Cycle.observe d.owner d.desired s.view actual)))
      ⟨t, w.disk⟩

/-- A look at an owner that is gone forgets it, and fails. -/
theorem fails_look_of_gone {s : StoredState} {t : σ}
    (load : StoredState.load home d.owner w.disk = .ok s)
    (list : remote.list d.owner w.remote = (.error .notFound, t)) (now : Timestamp) :
    (run remote home now d .read).Fails w (goneError home d.owner w.disk)
      ⟨t, ((StoredState.remove home d.owner).run w.disk).state⟩ := by
  have hread : (Cycle.read remote d.owner d.desired s.view).Fails w.remote
      (.ownerNotFound d.owner) t :=
    Cycle.fails_read.2 ⟨_, list, rfl⟩
  have hlooked := fails_forgetIfGone_of_gone home hread
  exact Action.fails_bind.2 (.inr ⟨s, w, yields_load load, Action.fails_bind.2 (.inl hlooked)⟩)

/-- A look ends in one of the four ways. -/
theorem lookEnds (remote : Remote σ) (home : Home) (now : Timestamp) (d : Declaration)
    (w : World σ) :
    LookEnds remote home d w ((run remote home now d .read).run w).result
      ((run remote home now d .read).run w).state := by
  cases hl : StoredState.load home d.owner w.disk with
  | error e =>
    rw [run_load_error hl]
    exact .unread hl
  | ok s =>
    have fails {e v} (h : (looked remote home d s).Fails w e v) :
        (run remote home now d .read).Fails w e v :=
      Action.fails_bind.2 (.inr ⟨s, w, yields_load hl, Action.fails_bind.2 (.inl h)⟩)
    rcases hlist : remote.list d.owner w.remote with ⟨cause | actual, t⟩
    · -- an owner that is gone is forgotten; any other failure is only told
      by_cases hc : cause = .notFound
      · subst hc
        have hrun := fails_look_of_gone hl hlist now
        rw [hrun.1, hrun.2]
        exact .gone hl hlist
      · have hcycle : (Cycle.read remote d.owner d.desired s.view).Fails w.remote
            (.listing d.owner cause) t := by
          refine Cycle.fails_read.2 ⟨cause, hlist, ?_⟩
          cases cause with
          | notFound => exact absurd rfl hc
          | rejected | unavailable | malformed => rfl
        have hrun := fails (fails_forgetIfGone home hcycle fun _ => nofun)
        rw [hrun.1, hrun.2]
        exact .failed hl hlist hc
    · have hcycle : (looked remote home d s).Yields w
          (Cycle.observe d.owner d.desired s.view actual) ⟨t, w.disk⟩ :=
        yields_forgetIfGone home (Cycle.yields_read.2 ⟨actual, hlist, rfl⟩)
      have hrun : (run remote home now d .read).Yields w
          (.reconciled (Cycle.observe d.owner d.desired s.view actual)) ⟨t, w.disk⟩ :=
        Action.yields_bind.2 ⟨s, w, yields_load hl,
          Action.yields_bind.2 ⟨_, _, hcycle, Action.yields_pure.2 ⟨rfl, rfl⟩⟩⟩
      rw [hrun.result, hrun.state]
      exact .done hl hlist

/-- A rehearsal only lists the remote, if it does anything, and leaves the disk as it is. -/
theorem kept_of_rehearses {P : σ → Prop} {mode : Mode} (hm : mode.rehearses = true)
    (hw : P w.remote) (hl : P (remote.list d.owner w.remote).2) :
    P ((run remote home now d mode).run w).state.remote ∧
      ((run remote home now d mode).run w).state.disk = w.disk := by
  let Q : World σ → Prop := fun v => P v.remote ∧ v.disk = w.disk
  refine Action.invariant_bind (P := Q) ⟨hw, rfl⟩ fun s v hs _ => ?_
  -- loading leaves the world as it is
  obtain rfl : w = v := hs.2
  cases mode with
  | apply rehearse =>
    obtain rfl : rehearse = true := hm
    refine Action.invariant_bind (P := Q) ⟨?_, rfl⟩ fun _ _ _ hv => hv
    exact Cycle.invariant_rehearsed hw hl s.declared d.desired s.view
  | read => cases hm
  | destroy rehearse =>
    obtain rfl : rehearse = true := hm
    refine Action.invariant_bind (P := Q) ?_ fun _ _ _ hv => hv
    refine Action.invariant_bind (P := Q) ⟨?_, rfl⟩ fun _ _ _ hv => hv
    show P ((Batch.deleteAll remote d.owner true d.desired.targets).run w.remote).state
    rwa [Batch.state_deleteAll_rehearsal]

theorem rehearses_of_not_changes {mode : Mode} (hm : mode.changes = false) :
    mode.rehearses = true ∨ mode = .read := by
  cases mode with
  | apply rehearse | destroy rehearse =>
    cases rehearse with
    | false => cases hm
    | true => exact .inl rfl
  | read => exact .inr rfl

/-- What listing keeps is kept by a run that may not change the remote. -/
theorem remote_of_not_changes {P : σ → Prop} {mode : Mode} (hm : mode.changes = false)
    (hw : P w.remote) (hl : P (remote.list d.owner w.remote).2) :
    P ((run remote home now d mode).run w).state.remote := by
  rcases rehearses_of_not_changes hm with hr | rfl
  · exact (kept_of_rehearses hr hw hl).1
  · have he := lookEnds remote home now d w
    generalize ((run remote home now d .read).run w).result = result at he
    generalize ((run remote home now d .read).run w).state = v at he ⊢
    cases he with
    | unread => exact hw
    | failed _ list | gone _ list | done _ list =>
      rw [list] at hl
      exact hl

/-- What such a run does to the disk is at most to forget the owner. -/
theorem disk_of_not_changes {Q : Disk → Prop} {mode : Mode} (hm : mode.changes = false)
    (hw : Q w.disk) (hr : Q ((StoredState.remove home d.owner).run w.disk).state) :
    Q ((run remote home now d mode).run w).state.disk := by
  rcases rehearses_of_not_changes hm with hrehearses | rfl
  · have hkept : ((run remote home now d mode).run w).state.disk = w.disk :=
      (kept_of_rehearses (P := fun _ => True) hrehearses trivial trivial).2
    rwa [hkept]
  · have he := lookEnds remote home now d w
    generalize ((run remote home now d .read).run w).result = result at he
    generalize ((run remote home now d .read).run w).state = v at he ⊢
    cases he with
    | unread | failed | done => exact hw
    | gone => exact hr

/-- If the remote knows the owner, such a run leaves the disk as it is as well. -/
theorem kept_of_not_changes {P : σ → Prop} {mode : Mode} (hm : mode.changes = false)
    (hw : P w.remote) (hl : P (remote.list d.owner w.remote).2)
    (known : (remote.list d.owner w.remote).1 ≠ .error .notFound) :
    P ((run remote home now d mode).run w).state.remote ∧
      ((run remote home now d mode).run w).state.disk = w.disk := by
  refine ⟨remote_of_not_changes hm hw hl, ?_⟩
  rcases rehearses_of_not_changes hm with hr | rfl
  · exact (kept_of_rehearses hr hw hl).2
  · have he := lookEnds remote home now d w
    generalize ((run remote home now d .read).run w).result = result at he
    generalize ((run remote home now d .read).run w).state = v at he ⊢
    cases he with
    | unread | failed | done => rfl
    | gone _ list =>
      rw [list] at known
      exact absurd rfl known

/-! ### What every run keeps -/

/-- What the requests for the owner keep of the remote, of which only declared relations are sent,
and saving and removing for it of the disk, a run keeps, wherever it ends. -/
theorem invariant_run {P : σ → Prop} {Q : Disk → Prop}
    (upsert : ∀ r ∈ d.desired.relations, ∀ s, P s → P (remote.upsert d.owner r s).2)
    (delete : ∀ id s, P s → P (remote.delete d.owner id s).2)
    (list : ∀ s, P s → P (remote.list d.owner s).2)
    (save : ∀ s disk, Q disk → Q ((StoredState.save home d.owner s).run disk).state)
    (remove : ∀ disk, Q disk → Q ((StoredState.remove home d.owner).run disk).state)
    (hremote : P w.remote) (hdisk : Q w.disk) (now : Timestamp) (mode : Mode) :
    P ((run remote home now d mode).run w).state.remote ∧
      Q ((run remote home now d mode).run w).state.disk := by
  have hcycle (s : StoredState) :
      P ((Cycle.reconcile remote d.owner false s.declared d.desired s.view).run w.remote).state :=
    Cycle.invariant_reconcile s.view
      (Batch.invariant_apply (fun id _ => delete id) upsert hremote) list hremote
  have hclear : P ((Batch.deleteAll remote d.owner false d.desired.targets).run w.remote).state :=
    Batch.invariant_deleteAll (fun id _ => delete id) hremote
  have hlist := list w.remote hremote
  by_cases hr : mode.rehearses = true
  · have hkept : P ((run remote home now d mode).run w).state.remote ∧
        ((run remote home now d mode).run w).state.disk = w.disk :=
      kept_of_rehearses hr hremote hlist
    exact ⟨hkept.1, hkept.2.symm ▸ hdisk⟩
  · -- in a run that is no rehearsal the disk changes by saving or by forgetting
    cases mode with
    | apply rehearse =>
      obtain rfl : rehearse = false := by simpa [Mode.rehearses] using hr
      have he := applyEnds remote home now d w
      generalize ((run remote home now d (.apply false)).run w).result = result at he
      generalize ((run remote home now d (.apply false)).run w).state = v at he ⊢
      cases he with
      | unread => exact ⟨hremote, hdisk⟩
      | failed => exact ⟨hcycle _, hdisk⟩
      | gone _ cycle =>
        obtain rfl := Cycle.owner_of_reconcile cycle
        exact ⟨hcycle _, remove _ hdisk⟩
      | unsaved _ cycle => exact ⟨cycle.state ▸ hcycle _, save _ _ hdisk⟩
      | done _ cycle hs => exact ⟨cycle.state ▸ hcycle _, hs.state ▸ save _ _ hdisk⟩
    | read =>
      have he := lookEnds remote home now d w
      generalize ((run remote home now d .read).run w).result = result at he
      generalize ((run remote home now d .read).run w).state = v at he ⊢
      cases he with
      | unread => exact ⟨hremote, hdisk⟩
      | failed _ hl | done _ hl =>
        rw [hl] at hlist
        exact ⟨hlist, hdisk⟩
      | gone _ hl =>
        rw [hl] at hlist
        exact ⟨hlist, remove _ hdisk⟩
    | destroy rehearse =>
      obtain rfl : rehearse = false := by simpa [Mode.rehearses] using hr
      have he := destroyEnds remote home now d w
      generalize ((run remote home now d (.destroy false)).run w).result = result at he
      generalize ((run remote home now d (.destroy false)).run w).state = v at he ⊢
      cases he with
      | unread => exact ⟨hremote, hdisk⟩
      | failed _ clear => exact ⟨clear.2 ▸ hclear, hdisk⟩
      | unforgotten _ clear => exact ⟨clear.state ▸ hclear, hdisk⟩
      | done _ clear hr => exact ⟨clear.state ▸ hclear, hr.state ▸ remove _ hdisk⟩

end Roster.Run
