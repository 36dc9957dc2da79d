/-
What a run leaves of the state files, and what it sends.

What becomes of the file of an owner is settled by the kind of the run and by its result alone: a
real apply that ends well replaces it, a real destroy that ends well removes it, and so does a real
apply or a look that finds the owner gone.  Whatever else happens, at any point of the run, the file
stands as it did, and the files of other owners always do.

* `Fate`, `Fate.of`: what becomes of the file, by kind and result;
* `effect_apply`, `effect_destroy`, `effect_look`, `effect_run`: each kind of runs, and all of them;
* `run_effects`: all kinds, together with what is sent.
-/
import Roster.Proofs.Simulation

namespace Roster

open StoredState (Untouched)

/-- What becomes of the file of an owner. -/
inductive Fate where
  | kept
  /-- It is replaced by one that holds this view. -/
  | replaced (view : List Relation)
  | removed

/-- What becomes of the file of the declaration's owner in a run of some kind that ends with some
result. -/
def Fate.of : Mode → Except RunError RunResult → Fate
  | .apply false, .ok (.reconciled r) => .replaced r.observation.view
  | .apply false, .error (.cycle (.ownerNotFound _)) => .removed
  | .read, .error (.cycle (.ownerNotFound _)) => .removed
  | .destroy false, .ok _ => .removed
  | _, _ => .kept

/-- The disk `after` a run shows that this became of the file that the disk `before` it may hold. -/
def Fate.Holds (home : Home) (now : Timestamp) (d : Declaration) (before after : Disk) : Fate → Prop
  | kept => Untouched home d.owner before after
  | replaced view =>
    StoredState.Remembers home d.owner
      (StoredState.text ⟨some d.owner, some now, d.desired, view⟩) after
  | removed => StoredState.isStored home d.owner after = false

/-- What a run does to the state files: this becomes of the one of the declaration's owner, and the
others stand as they did. -/
structure Effect (home : Home) (now : Timestamp) (d : Declaration) (fate : Fate)
    (before after : Disk) :
    Prop where
  own : fate.Holds home now d before after
  others : ∀ other, other ≠ d.owner → Untouched home other before after

namespace Run

variable {σ : Type} {remote : Remote σ} {home : Home} {now : Timestamp} {d : Declaration}
  {w : World σ} {disk : Disk}

theorem effect_kept (home : Home) (now : Timestamp) (d : Declaration) (disk : Disk) :
    Effect home now d .kept disk disk where
  own := .refl home d.owner disk
  others other _ := .refl home other disk

/-- A run that finds the owner gone removes the file, or fails to and leaves it. -/
theorem effect_gone {mode : Mode} (hm : mode = .apply false ∨ mode = .read) (home : Home)
    (now : Timestamp) (d : Declaration) (disk : Disk) :
    Effect home now d (.of mode (.error (goneError home d.owner disk))) disk
      ((StoredState.remove home d.owner).run disk).state where
  own := by
    unfold goneError
    cases hr : ((StoredState.remove home d.owner).run disk).result with
    | error e =>
      rw [StoredState.state_remove_of_error hr]
      rcases hm with rfl | rfl <;> exact .refl home d.owner disk
    | ok removed =>
      have hstored := StoredState.not_isStored_of_remove (Action.yields_of_result hr)
      rcases hm with rfl | rfl <;> exact hstored
  others other hne := StoredState.untouched_remove_of_ne hne disk

theorem effect_apply (remote : Remote σ) (home : Home) (now : Timestamp) (d : Declaration)
    (w : World σ) :
    Effect home now d (.of (.apply false)
      ((run remote home now d (.apply false)).run w).result) w.disk
      ((run remote home now d (.apply false)).run w).state.disk := by
  have he := applyEnds remote home now d w
  generalize ((run remote home now d (.apply false)).run w).result = result at he ⊢
  generalize ((run remote home now d (.apply false)).run w).state = v at he ⊢
  -- only the ways that end with saving or with forgetting touch the file
  cases he with
  | unread => exact effect_kept home now d w.disk
  | @failed s c _ _ known =>
    cases c with
    | ownerNotFound owner => exact absurd rfl (known owner)
    | batch | listing => exact effect_kept home now d w.disk
  | gone _ cycle =>
    rw [Cycle.owner_of_reconcile cycle]
    exact effect_gone (.inl rfl) home now d w.disk
  | unsaved _ _ save =>
    exact ⟨StoredState.untouched_save_of_error save,
      fun _ _ => StoredState.untouched_save_of_error save⟩
  | done _ _ save =>
    exact ⟨StoredState.remembers_of_save save,
      fun _ hne => StoredState.untouched_save_of_ne save hne⟩

theorem effect_destroy (remote : Remote σ) (home : Home) (now : Timestamp) (d : Declaration)
    (w : World σ) :
    Effect home now d (.of (.destroy false)
      ((run remote home now d (.destroy false)).run w).result) w.disk
      ((run remote home now d (.destroy false)).run w).state.disk := by
  have he := destroyEnds remote home now d w
  generalize ((run remote home now d (.destroy false)).run w).result = result at he ⊢
  generalize ((run remote home now d (.destroy false)).run w).state = v at he ⊢
  cases he with
  | unread | failed | unforgotten => exact effect_kept home now d w.disk
  | done _ _ remove =>
    refine ⟨StoredState.not_isStored_of_remove remove, fun other hne => ?_⟩
    exact remove.state ▸ StoredState.untouched_remove_of_ne hne w.disk

theorem effect_look (remote : Remote σ) (home : Home) (now : Timestamp) (d : Declaration)
    (w : World σ) :
    Effect home now d (.of .read ((run remote home now d .read).run w).result) w.disk
      ((run remote home now d .read).run w).state.disk := by
  have he := lookEnds remote home now d w
  generalize ((run remote home now d .read).run w).result = result at he ⊢
  generalize ((run remote home now d .read).run w).state = v at he ⊢
  cases he with
  | unread | failed | done => exact effect_kept home now d w.disk
  | gone => exact effect_gone (.inr rfl) home now d w.disk

theorem Fate.of_rehearses {mode : Mode} (h : mode.rehearses = true)
    (result : Except RunError RunResult) :
    Fate.of mode result = .kept := by
  cases mode with
  | apply rehearse | destroy rehearse =>
    obtain rfl : rehearse = true := h
    rfl
  | read => cases h

/-- What a run leaves of the state files, whatever its kind. -/
theorem effect_run (remote : Remote σ) (home : Home) (now : Timestamp)
    (d : Declaration) (mode : Mode) (w : World σ) :
    Effect home now d (.of mode ((run remote home now d mode).run w).result) w.disk
      ((run remote home now d mode).run w).state.disk := by
  -- a rehearsal keeps the disk, whatever its mode
  by_cases hr : mode.rehearses = true
  · have hdisk : ((run remote home now d mode).run w).state.disk = w.disk :=
      (kept_of_rehearses (P := fun _ => True) hr trivial trivial).2
    rw [hdisk, Fate.of_rehearses hr]
    exact effect_kept home now d w.disk
  · cases mode with
    | apply rehearse =>
      obtain rfl : rehearse = false := by simpa [Mode.rehearses] using hr
      exact effect_apply remote home now d w
    | read => exact effect_look remote home now d w
    | destroy rehearse =>
      obtain rfl : rehearse = false := by simpa [Mode.rehearses] using hr
      exact effect_destroy remote home now d w

/-! ### What a run sends -/

/-- A run on a remote that records what it is sent goes as on the remote itself. -/
theorem run_recorded {mode : Mode} {result : Except RunError RunResult} {v : World σ}
    {log : List Notice} (h : (run remote home now d mode).run w = ⟨result, v, log⟩)
    (calls : List Call) :
    ∃ sent, (run remote.recorded home now d mode).run ⟨(w.remote, calls), w.disk⟩ =
      ⟨result, ⟨(v.remote, calls ++ sent), v.disk⟩, log⟩ := by
  have halike := alike_run (simulates_recorded remote calls) home now d mode w
    ⟨(w.remote, calls), w.disk⟩ ⟨⟨rfl, List.prefix_rfl⟩, rfl⟩
  rcases h' : (run remote.recorded home now d mode).run ⟨(w.remote, calls), w.disk⟩ with
    ⟨result', ⟨⟨s, all⟩, disk⟩, log'⟩
  rw [h, h'] at halike
  obtain ⟨rfl, ⟨⟨rfl, sent, rfl⟩, rfl⟩, rfl⟩ := halike
  exact ⟨sent, rfl⟩

/-- Unless a run may change the remote, all that it sends it is to list the relations of its
owner. -/
theorem sent_of_not_changes {mode : Mode} (hm : mode.changes = false)
    {calls sent : List Call} {s : σ} {result : Except RunError RunResult} {log : List Notice}
    (h : (run remote.recorded home now d mode).run ⟨(w.remote, calls), w.disk⟩ =
      ⟨result, ⟨(s, calls ++ sent), disk⟩, log⟩) : ∀ c ∈ sent, c = .list d.owner := by
  let P : σ × List Call → Prop := fun t => ∃ sent, t.2 = calls ++ sent ∧
    ∀ c ∈ sent, c = .list d.owner
  let recorder : World (σ × List Call) := ⟨(w.remote, calls), w.disk⟩
  have hlisted : P (remote.recorded.list d.owner recorder.remote).2 :=
    ⟨[.list d.owner], rfl, fun c hc => List.mem_singleton.1 hc⟩
  have hsent : P ((run remote.recorded home now d mode).run recorder).state.remote :=
    remote_of_not_changes hm ⟨[], (List.append_nil calls).symm, nofun⟩ hlisted
  rw [h] at hsent
  obtain ⟨sent', hsent', hlist⟩ := hsent
  rwa [List.append_cancel_left hsent']

end Run

/-- **What a run does.**  On every remote and for every kind of run: what becomes of the file of the
owner is settled by the kind and the result, the files of other owners stand as they did, only real
applies and destroys send the remote anything but requests to list, and a run that cannot load what
is remembered sends nothing. -/
theorem run_effects {σ : Type} (remote : Remote σ) (home : Home) (now : Timestamp) (d : Declaration)
    (mode : Mode) (w : World σ) (calls : List Call) :
    ∃ result v log sent,
      (Run.run remote home now d mode).run w = ⟨result, v, log⟩ ∧
      (Run.run remote.recorded home now d mode).run ⟨(w.remote, calls), w.disk⟩ =
        ⟨result, ⟨(v.remote, calls ++ sent), v.disk⟩, log⟩ ∧
      (Fate.of mode result).Holds home now d w.disk v.disk ∧
      (∀ other, other ≠ d.owner → Untouched home other w.disk v.disk) ∧
      (mode.changes = false → ∀ c ∈ sent, c = .list d.owner) ∧
      ∀ e, StoredState.load home d.owner w.disk = .error e →
        result = .error (.state e) ∧ v = w ∧ sent = [] := by
  rcases hrun : (Run.run remote home now d mode).run w with ⟨result, v, log⟩
  obtain ⟨sent, hsent⟩ := Run.run_recorded hrun calls
  have heffect := Run.effect_run remote home now d mode w
  rw [hrun] at heffect
  refine ⟨result, v, log, sent, rfl, hsent, heffect.own, heffect.others, fun hm => ?_,
    fun e he => ?_⟩
  · exact Run.sent_of_not_changes hm hsent
  · -- what is remembered is loaded first, also if the remote's calls are written down
    let recorder : World (σ × List Call) := ⟨(w.remote, calls), w.disk⟩
    have hload : StoredState.load home d.owner recorder.disk = .error e := he
    rw [Run.run_load_error he] at hrun
    cases hrun
    rw [Run.run_load_error hload] at hsent
    have hcalls := congrArg (fun o => o.state.remote.2) hsent
    exact ⟨rfl, rfl, by simpa [recorder] using hcalls⟩

/-! ### A look at what cannot be loaded -/

def spoiltHome : Home := ⟨"/home", ["home"]⟩

/-- A home in which the bytes of a state file are no text. -/
def spoiltWorld : World MemoryRemote :=
  ⟨.ofOwners [("app", [.bare ⟨"a"⟩])],
    Disk.empty.withFile (StoredState.location spoiltHome ⟨"app"⟩) .binary⟩

theorem run_effects_sample :
    (∃ e, StoredState.load spoiltHome ⟨"app"⟩ spoiltWorld.disk = .error e) ∧
    Mode.read.changes = false ∧
      ∃ result v log sent,
        (Run.run MemoryRemote.remote.recorded spoiltHome ⟨0, 0⟩ ⟨⟨"app"⟩, .empty⟩ .read).run
          ⟨(spoiltWorld.remote, []), spoiltWorld.disk⟩ =
            ⟨result, ⟨(v, sent), spoiltWorld.disk⟩, log⟩ ∧
        sent = [] ∧ ∀ c ∈ sent, c = .list ⟨"app"⟩ := by
  have hload : StoredState.load spoiltHome ⟨"app"⟩ spoiltWorld.disk =
      .error (.inaccessible (StoredState.path spoiltHome ⟨"app"⟩) .notText) := by rfl
  obtain ⟨result, v, log, sent, -, hrecorded, -, -, hlist, hunread⟩ :=
    run_effects MemoryRemote.remote spoiltHome ⟨0, 0⟩ ⟨⟨"app"⟩, .empty⟩ .read spoiltWorld []
  obtain ⟨-, rfl, rfl⟩ := hunread _ hload
  exact ⟨⟨_, hload⟩, rfl, _, _, _, _, hrecorded, rfl, hlist rfl⟩

end Roster
