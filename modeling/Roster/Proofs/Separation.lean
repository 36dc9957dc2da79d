/-
Owners that do not get in each other's way.

The runs of one owner, carried out between runs of others, end as they do alone.  Of the world a run
depends on what the remote holds of its owner, on the owner's file and on the directories of the
home; it goes alike in worlds that agree in these and leaves them in agreement, and the runs of
others do so as well.

The one thing that shows is whether others have made the directories, and only if a name on the way
to the owner's file is too long: removing the file is then refused where the directory above is
there, and finds nothing where it is not.

* `Action.Matches`, `matches_bind`: actions that end in agreement;
* `World.Twin`: worlds that agree for an owner, `matches_run` for a run of the owner,
  `twin_run_of_ne` for one of another;
* `Job.after`, `Job.answers`: jobs one after another, and what those of an owner come to;
* `owners_apart`: jobs of an owner between others and alone.
-/
import Mathlib.Data.List.Forall2
import Roster.Proofs.SharedHome
import Roster.Proofs.SharedRemote

namespace Roster

open Roster.StoredState (EqButTime Overlong SameFile Twin)
open Roster.MemoryRemote (SameFor)

namespace Action

variable {σ τ ε α β α' β' : Type} {R : σ → τ → Prop}

/-- Run from related states, the actions end with related answers, in related states. -/
def Matches (R : σ → τ → Prop) (Q : Except ε α → Except ε β → Prop) (x : Action σ ε α)
    (y : Action τ ε β) :
    Prop :=
  ∀ s t, R s t → Q (x.run s).result (y.run t).result ∧ R (x.run s).state (y.run t).state

theorem matches_pure {Q : Except ε α → Except ε β → Prop} {a : α} {b : β} (h : Q (.ok a) (.ok b)) :
    Matches R Q (pure a) (pure b) := fun _ _ hst => ⟨h, hst⟩

/-- Sequences match if their parts do, and if the errors of the first parts are answers of the
whole. -/
theorem matches_bind {E : ε → ε → Prop} {V : α → β → Prop} {Q : Except ε α' → Except ε β' → Prop}
    {x : Action σ ε α} {y : Action τ ε β} {f : α → Action σ ε α'} {g : β → Action τ ε β'}
    (hx : Matches R (Agree E V) x y) (hf : ∀ a b, V a b → Matches R Q (f a) (g b))
    (he : ∀ e e', E e e' → Q (.error e) (.error e')) : Matches R Q (x >>= f) (y >>= g) := by
  intro s t hst
  obtain ⟨hresult, hstate⟩ := hx s t hst
  rcases hs : x.run s with ⟨r, s', log⟩
  rcases ht : y.run t with ⟨r', t', log'⟩
  simp only [hs, ht] at hresult hstate
  cases hresult with
  | ok h =>
    rw [run_bind_ok hs, run_bind_ok ht]
    exact hf _ _ h s' t' hstate
  | error h =>
    rw [run_bind_error hs, run_bind_error ht]
    exact ⟨he _ _ h, hstate⟩

theorem agree_of_eq {r r' : Except ε α} (h : r = r') : Agree Eq Eq r r' := by
  subst h
  cases r with
  | error e => exact .error rfl
  | ok a => exact .ok rfl

end Action

open Roster.Action (Agree Matches matches_bind matches_pure)

/-- The worlds agree in all that the runs of an owner depend on. -/
structure World.Twin (home : Home) (owner : OwnerId) (w v : World MemoryRemote) : Prop where
  remote : SameFor owner w.remote v.remote
  disk : StoredState.Twin home owner w.disk v.disk

namespace Run

variable {home : Home} {owner other : OwnerId} {d : Declaration} {mode : Mode} {t u : Timestamp}
  {α : Type} {w v : World MemoryRemote}

/-! ### Answers -/

/-- Why a run fails whose owner cannot be forgotten since its name is too long. -/
def tooLong (home : Home) (owner : OwnerId) : RunError :=
  .state (.inaccessible (StoredState.path home owner) .nameTooLong)

/-- What a run comes to that ends by forgetting its owner. -/
inductive Forgetful (owner : OwnerId) : Mode → Except RunError RunResult → Prop
  | destroyed (as : List Applied) : Forgetful owner (.destroy false) (.ok (.destroyed as))
  | gone {mode : Mode} (h : mode = .apply false ∨ mode = .read) :
    Forgetful owner mode (.error (.cycle (.ownerNotFound owner)))

/-- The answers of a run in worlds that agree: the same, but that an owner whose name is too long
may be forgotten in one of them and not in the other. -/
inductive SameAnswer (home : Home) (owner : OwnerId) (mode : Mode) :
    Except RunError RunResult → Except RunError RunResult → Prop
  | same (r : Except RunError RunResult) : SameAnswer home owner mode r r
  | left {r : Except RunError RunResult} (long : Overlong home owner) (h : Forgetful owner mode r) :
    SameAnswer home owner mode r (.error (tooLong home owner))
  | right {r : Except RunError RunResult} (long : Overlong home owner)
      (h : Forgetful owner mode r) :
    SameAnswer home owner mode (.error (tooLong home owner)) r

theorem SameAnswer.eq {r r' : Except RunError RunResult} (h : SameAnswer home owner mode r r')
    (hl : ¬Overlong home owner) : r = r' := by
  cases h with
  | same => rfl
  | left long | right long => exact absurd long hl

theorem sameAnswer_of_eq {e e' : RunError} (h : e = e') :
    SameAnswer home owner mode (.error e) (.error e') :=
  h ▸ .same _

/-! ### The parts of a run -/

theorem matches_load (home : Home) (owner : OwnerId) :
    Matches (World.Twin home owner) (Agree Eq EqButTime) (load home owner) (load home owner) := by
  intro w v h
  refine ⟨?_, h⟩
  have hload := h.disk.loaded
  unfold Action.run load onDisk
  dsimp only
  generalize StoredState.load home owner w.disk = r at hload ⊢
  generalize StoredState.load home owner v.disk = r' at hload ⊢
  cases hload with
  | ok hs => exact .ok hs
  | error he => exact .error (congrArg RunError.state he)

theorem matches_onRemote {x y : Action MemoryRemote CycleError α}
    (h : Action.Alike (SameFor owner) x y) :
    Matches (World.Twin home owner) (Agree Eq Eq) (onRemote x) (onRemote y) := by
  intro w v hwv
  obtain ⟨hresult, hstate, -⟩ := h _ _ hwv.remote
  exact ⟨Action.agree_of_eq (congrArg (Except.mapError RunError.cycle) hresult), hstate, hwv.disk⟩

theorem matches_save (ht : t.Valid) (hu : u.Valid) (home : Home) (owner : OwnerId)
    (declared : DesiredSet) (view : List Relation) :
    Matches (World.Twin home owner) (Agree Eq Eq)
      (onDisk (StoredState.save home owner ⟨some owner, some t, declared, view⟩))
      (onDisk (StoredState.save home owner ⟨some owner, some u, declared, view⟩)) := by
  intro w v hwv
  obtain ⟨hresult, hdisk⟩ := hwv.disk.saved ht hu declared view
  exact ⟨Action.agree_of_eq (congrArg (Except.mapError RunError.state) hresult), hwv.remote, hdisk⟩

/-- Where the owner is gone, both runs fail for that, unless one of them cannot forget it. -/
theorem sameAnswer_goneError (hm : mode = .apply false ∨ mode = .read) {d e : Disk}
    (h : StoredState.Twin home owner d e) :
    SameAnswer home owner mode (.error (goneError home owner d))
      (.error (goneError home owner e)) := by
  have hremoved := h.removed.1
  unfold goneError
  generalize ((StoredState.remove home owner).run d).result = r at hremoved ⊢
  generalize ((StoredState.remove home owner).run e).result = r' at hremoved ⊢
  cases hremoved with
  | same => exact .same _
  | left long => exact .left long (.gone hm)
  | right long => exact .right long (.gone hm)

/-- Cycles that go alike and miss no other owner do so as well if the owner is forgotten when it is
gone. -/
theorem matches_forgetIfGone (hm : mode = .apply false ∨ mode = .read)
    {x : Action MemoryRemote CycleError α} (hx : Action.Alike (SameFor owner) x x)
    (hgone : ∀ m o, (x.run m).result = .error (.ownerNotFound o) → o = owner) :
    Matches (World.Twin home owner)
      (Agree (fun e e' => SameAnswer home owner mode (.error e) (.error e')) Eq)
      (forgetIfGone home x) (forgetIfGone home x) := by
  intro w v hwv
  obtain ⟨hresult, hstate, -⟩ := hx _ _ hwv.remote
  rcases Action.yields_or_fails x w.remote with ⟨a, m, hy⟩ | ⟨c, m, hf⟩
  · have hy' : x.Yields v.remote a (x.run v.remote).state := ⟨hresult.symm.trans hy.result, rfl⟩
    rw [(yields_forgetIfGone home hy).result, (yields_forgetIfGone home hy).state,
      (yields_forgetIfGone home hy').result, (yields_forgetIfGone home hy').state]
    rw [hy.state] at hstate
    exact ⟨.ok rfl, hstate, hwv.disk⟩
  · have hf' : x.Fails v.remote c (x.run v.remote).state := ⟨hresult.symm.trans hf.1, rfl⟩
    rw [hf.2] at hstate
    -- only where the owner is gone is the disk touched
    by_cases hk : ∃ o, c = .ownerNotFound o
    · obtain ⟨o, rfl⟩ := hk
      obtain rfl := hgone _ _ hf.1
      have hrun := fails_forgetIfGone_of_gone home hf
      have hrun' := fails_forgetIfGone_of_gone home hf'
      rw [hrun.1, hrun.2, hrun'.1, hrun'.2]
      exact ⟨.error (sameAnswer_goneError hm hwv.disk), hstate, hwv.disk.removed.2⟩
    · have hne : ∀ o, c ≠ .ownerNotFound o := fun o he => hk ⟨o, he⟩
      have hrun := fails_forgetIfGone home hf hne
      have hrun' := fails_forgetIfGone home hf' hne
      rw [hrun.1, hrun.2, hrun'.1, hrun'.2]
      exact ⟨.error (.same _), hstate, hwv.disk⟩

/-- Forgetting the owner is where a destroy ends. -/
theorem matches_forget (home : Home) (owner : OwnerId) (as : List Applied) :
    Matches (World.Twin home owner) (SameAnswer home owner (.destroy false))
      (onDisk (StoredState.remove home owner) >>= fun _ => pure (.destroyed as))
      (onDisk (StoredState.remove home owner) >>= fun _ => pure (.destroyed as)) := by
  intro w v hwv
  obtain ⟨hremoved, hdisk⟩ := hwv.disk.removed
  have hrun {w : World MemoryRemote} {r : Except StateError Bool} {disk : Disk} {log : List Notice}
      (h : (StoredState.remove home owner).run w.disk = ⟨r, disk, log⟩) :
      (onDisk (StoredState.remove home owner)).run w =
        ⟨r.mapError .state, ⟨w.remote, disk⟩, log⟩ := by
    unfold Action.run onDisk at *
    rw [h]
  rcases hd : (StoredState.remove home owner).run w.disk with ⟨r, disk, log⟩
  rcases he : (StoredState.remove home owner).run v.disk with ⟨r', disk', log'⟩
  rw [hd, he] at hremoved hdisk
  have hd' := hrun hd
  have he' := hrun he
  -- a name that is too long may show on one of the disks only
  cases hremoved with
  | same =>
    cases r with
    | ok removed =>
      rw [Action.run_bind_ok hd', Action.run_bind_ok he']
      exact ⟨.same _, hwv.remote, hdisk⟩
    | error e =>
      rw [Action.run_bind_error hd', Action.run_bind_error he']
      exact ⟨.same _, hwv.remote, hdisk⟩
  | left long =>
    rw [Action.run_bind_ok hd', Action.run_bind_error he']
    exact ⟨.left long (.destroyed as), hwv.remote, hdisk⟩
  | right long =>
    rw [Action.run_bind_error hd', Action.run_bind_ok he']
    exact ⟨.right long (.destroyed as), hwv.remote, hdisk⟩

/-! ### Runs -/

/-- A destroy that is carried out ends by forgetting the owner. -/
theorem run_destroy_eq (home : Home) (now : Timestamp) (d : Declaration) :
    run MemoryRemote.remote home now d (.destroy false) = (do
      let _ ← load home d.owner
      let as ← onRemote (Cycle.clear MemoryRemote.remote d.owner false d.desired)
      let _ ← onDisk (StoredState.remove home d.owner)
      pure (.destroyed as)) := by
  simp [run, cleared]

/-- The runs of an owner go alike in worlds that agree for it, and leave them in agreement. -/
theorem matches_run (ht : t.Valid) (hu : u.Valid) (home : Home) (d : Declaration) (mode : Mode) :
    Matches (World.Twin home d.owner) (SameAnswer home d.owner mode)
      (run MemoryRemote.remote home t d mode) (run MemoryRemote.remote home u d mode) := by
  have hdone : ∀ mode (r r' : Reconciliation), r = r' →
      Matches (World.Twin home d.owner) (SameAnswer home d.owner mode) (pure (.reconciled r))
        (pure (.reconciled r')) := fun _ _ _ h => matches_pure (h ▸ .same _)
  by_cases hdestroy : mode = .destroy false
  · subst hdestroy
    rw [run_destroy_eq, run_destroy_eq]
    refine matches_bind (matches_load home d.owner) (fun _ _ _ => ?_) fun _ _ => sameAnswer_of_eq
    refine matches_bind (matches_onRemote (MemoryRemote.alike_clear d.owner false d.desired))
      (fun as _ has => ?_) fun _ _ => sameAnswer_of_eq
    subst has
    exact matches_forget home d.owner as
  · refine matches_bind (matches_load home d.owner) (fun s s' hs => ?_) fun _ _ => sameAnswer_of_eq
    -- the time that was loaded is of no account
    rw [← hs]
    cases mode with
    | apply rehearse =>
      have hcycle := MemoryRemote.alike_reconcile d.owner rehearse s.declared d.desired s.view
      cases rehearse with
      | true => exact matches_bind (matches_onRemote hcycle) (hdone _) fun _ _ => sameAnswer_of_eq
      | false =>
        refine matches_bind ?_ (hdone _) fun _ _ h => h
        refine matches_bind
          (matches_forgetIfGone (.inl rfl) hcycle fun _ _ => Cycle.owner_of_reconcile)
          (fun r _ hr => ?_) fun _ _ h => .error h
        subst hr
        refine matches_bind (matches_save ht hu home d.owner d.desired r.observation.view)
          (fun _ _ _ => ?_) fun _ _ h => .error (sameAnswer_of_eq h)
        exact matches_pure (.ok rfl)
    | read =>
      have hcycle := MemoryRemote.alike_read d.owner d.desired s.view
      refine matches_bind (matches_forgetIfGone (.inr rfl) hcycle fun m o h => ?_)
        (hdone _) fun _ _ h => h
      obtain ⟨cause, -, hc⟩ := Cycle.fails_read.1 (Action.fails_of_result h)
      exact (Cycle.listError_eq_ownerNotFound_iff.1 hc.symm).2
    | destroy rehearse =>
      obtain rfl : rehearse = true := by simpa using hdestroy
      have hcleared : cleared MemoryRemote.remote home d true =
          onRemote (Cycle.clear MemoryRemote.remote d.owner true d.desired) := by simp [cleared]
      dsimp only
      rw [hcleared]
      refine matches_bind (matches_onRemote (MemoryRemote.alike_clear d.owner true d.desired))
        (fun as _ has => ?_) fun _ _ => sameAnswer_of_eq
      exact matches_pure (has ▸ .same _)

/-- A run for another owner leaves worlds in agreement. -/
theorem twin_run_of_ne (h : World.Twin home owner w v) (hne : d.owner ≠ owner) (now : Timestamp)
    (mode : Mode) :
    World.Twin home owner ((run MemoryRemote.remote home now d mode).run w).state v := by
  -- what a run of another owner keeps on the remote, and on the disk
  let P : MemoryRemote → Prop := SameFor owner w.remote
  let Q : Disk → Prop := fun e => StoredState.Keeps home w.disk e ∧
    e.find? (StoredState.location home owner) = w.disk.find? (StoredState.location home owner)
  have hkept : P ((run MemoryRemote.remote home now d mode).run w).state.remote ∧
      Q ((run MemoryRemote.remote home now d mode).run w).state.disk := invariant_run
    (fun r _ s hs => hs.trans (MemoryRemote.sameFor_upsert_of_ne hne r s))
    (fun id s hs => hs.trans (MemoryRemote.sameFor_delete_of_ne hne id s))
    (fun s hs => hs.trans (MemoryRemote.sameFor_list owner d.owner s))
    (fun s e he => ⟨he.1.trans (StoredState.keeps_save home d.owner s e),
      (StoredState.find?_save_of_ne hne.symm s e).trans he.2⟩)
    (fun e he => ⟨he.1.trans (StoredState.keeps_remove home d.owner e),
      (StoredState.untouched_remove_of_ne hne.symm e).entry.trans he.2⟩)
    (.refl owner w.remote) ⟨.refl home w.disk, rfl⟩ now mode
  obtain ⟨hremote, hkeeps, hfile⟩ := hkept
  exact ⟨hremote.symm.trans h.remote, h.disk.of_keeps_left hkeeps hfile⟩

end Run

/-! ### Jobs one after another -/

/-- A run that is to be carried out. -/
structure Job where
  now : Timestamp
  /-- A clock does not show other times. -/
  time : now.Valid
  declaration : Declaration
  mode : Mode

namespace Job

variable {home : Home} {owner : OwnerId} {w v : World MemoryRemote}

def outcome (home : Home) (j : Job) (w : World MemoryRemote) :
    Outcome (World MemoryRemote) RunError RunResult :=
  (Run.run MemoryRemote.remote home j.now j.declaration j.mode).run w

/-- The jobs are the same, though not at the same time. -/
structure Same (j k : Job) : Prop where
  declaration : j.declaration = k.declaration
  mode : j.mode = k.mode

/-- The world after some jobs. -/
def after (home : Home) : List Job → World MemoryRemote → World MemoryRemote
  | [], w => w
  | j :: jobs, w => after home jobs (j.outcome home w).state

/-- What the jobs of an owner come to among others. -/
def answers (home : Home) (owner : OwnerId) :
    List Job → World MemoryRemote → List (Mode × Except RunError RunResult)
  | [], _ => []
  | j :: jobs, w =>
    let rest := answers home owner jobs (j.outcome home w).state
    if j.declaration.owner = owner then (j.mode, (j.outcome home w).result) :: rest else rest

theorem answers_of_own {j : Job} (h : j.declaration.owner = owner) (jobs : List Job)
    (w : World MemoryRemote) :
    answers home owner (j :: jobs) w =
      (j.mode, (j.outcome home w).result) :: answers home owner jobs (j.outcome home w).state :=
  if_pos h

theorem answers_of_other {j : Job} (h : j.declaration.owner ≠ owner) (jobs : List Job)
    (w : World MemoryRemote) :
    answers home owner (j :: jobs) w = answers home owner jobs (j.outcome home w).state := if_neg h

/-- The answers of an owner in two executions. -/
def SameAnswers (home : Home) (owner : OwnerId) : List (Mode × Except RunError RunResult) →
    List (Mode × Except RunError RunResult) → Prop :=
  List.Forall₂ fun a b => a.1 = b.1 ∧ Run.SameAnswer home owner a.1 a.2 b.2

/-- The jobs of an owner come to the same between others as alone, and leave worlds that agree for
it. -/
theorem answers_apart {jobs alone : List Job} (h : World.Twin home owner w v)
    (same : List.Forall₂ Same (jobs.filter fun j => decide (j.declaration.owner = owner)) alone) :
    SameAnswers home owner (answers home owner jobs w) (answers home owner alone v) ∧
      World.Twin home owner (after home jobs w) (after home alone v) := by
  -- own runs are matched with those that are carried out alone, the others only keep the twin
  induction jobs generalizing w v alone with
  | nil =>
    rw [List.filter_nil, List.forall₂_nil_left_iff] at same
    subst same
    exact ⟨.nil, h⟩
  | cons j jobs ih =>
    by_cases ho : j.declaration.owner = owner
    · rw [List.filter_cons_of_pos (by simpa using ho)] at same
      cases same with
      | cons hjk hrest =>
        rename_i k alone
        obtain ⟨hdeclaration, hmode⟩ := hjk
        subst ho
        obtain ⟨hanswer, hworld⟩ := Run.matches_run j.time k.time home j.declaration j.mode w v h
        have hk : k.outcome home v =
            (Run.run MemoryRemote.remote home k.now j.declaration j.mode).run v := by
          rw [outcome, ← hdeclaration, ← hmode]
        obtain ⟨hanswers, hafter⟩ := ih hworld hrest
        rw [answers_of_own rfl, answers_of_own (congrArg Declaration.owner hdeclaration).symm,
          after, after, hk, ← hmode]
        exact ⟨.cons ⟨rfl, hanswer⟩ hanswers, hafter⟩
    · rw [List.filter_cons_of_neg (by simpa using ho)] at same
      rw [answers_of_other ho, after]
      exact ih (Run.twin_run_of_ne h ho j.now j.mode) same

theorem SameAnswers.eq {as bs : List (Mode × Except RunError RunResult)}
    (h : SameAnswers home owner as bs) (hl : ¬Overlong home owner) : as = bs := by
  refine List.forall₂_eq_eq_eq ▸ h.imp ?_
  rintro ⟨mode, r⟩ ⟨_, r'⟩ ⟨rfl, hr⟩
  exact congrArg (Prod.mk mode) (hr.eq hl)

end Job

open Job (answers after SameAnswers)

/-- **Owners do not get in each other's way.**  The runs of an owner come to the same between runs
of other owners as alone, and leave the same relations of the owner and, but for the time, the same
file.  Only if a name on the way to the file is too long, those that end by forgetting the owner may
end with that as the reason in one of the executions. -/
theorem owners_apart {home : Home} {owner : OwnerId} {w : World MemoryRemote}
    {jobs alone : List Job} (grounded : w.disk.Grounded)
    (same : List.Forall₂ Job.Same
      (jobs.filter fun j => decide (j.declaration.owner = owner)) alone) :
    (¬Overlong home owner → answers home owner jobs w = answers home owner alone w) ∧
      SameAnswers home owner (answers home owner jobs w) (answers home owner alone w) ∧
      (after home jobs w).remote.relations? owner = (after home alone w).remote.relations? owner ∧
      Option.Rel (SameFile owner) ((after home jobs w).disk.find? (StoredState.location home owner))
        ((after home alone w).disk.find? (StoredState.location home owner)) ∧
      Agree Eq EqButTime (StoredState.load home owner (after home jobs w).disk)
        (StoredState.load home owner (after home alone w).disk) := by
  have htwin : World.Twin home owner w w :=
    ⟨.refl owner w.remote, StoredState.twin_refl home owner grounded⟩
  obtain ⟨hanswers, hremote, hdisk⟩ := Job.answers_apart htwin same
  exact ⟨hanswers.eq, hanswers, hremote.list.symm, hdisk.file, hdisk.loaded⟩

/-! ### Two owners, and a name that is too long -/

def crossedHome : Home := ⟨"/home", ["home"]⟩

/-- An empty home, and a remote that knows one owner. -/
def crossedWorld : World MemoryRemote := ⟨.ofOwners [("a", [])], .empty⟩

/-- A job of a declaration that declares nothing. -/
def crossedJob (owner : OwnerId) (mode : Mode) : Job :=
  ⟨⟨0, 0⟩, ⟨by decide, by decide, by decide⟩, ⟨owner, .empty⟩, mode⟩

/-- The same job a second later. -/
def laterJob (owner : OwnerId) (mode : Mode) : Job :=
  ⟨⟨1, 0⟩, ⟨by decide, by decide, by decide⟩, ⟨owner, .empty⟩, mode⟩

theorem owners_apart_sample :
    crossedWorld.disk.Grounded ∧ ¬Overlong crossedHome ⟨"a"⟩ ∧
      answers crossedHome ⟨"a"⟩
          [crossedJob ⟨"a"⟩ (.apply false), crossedJob ⟨"b"⟩ .read, crossedJob ⟨"a"⟩
            (.destroy false)]
          crossedWorld =
        answers crossedHome ⟨"a"⟩ [laterJob ⟨"a"⟩ (.apply false), laterJob ⟨"a"⟩ (.destroy false)]
          crossedWorld := by
  have grounded : crossedWorld.disk.Grounded := Disk.grounded_empty
  have short : ¬Overlong crossedHome ⟨"a"⟩ := by
    unfold Overlong
    decide +kernel
  refine ⟨grounded, short, (owners_apart grounded ?_).1 short⟩
  exact .cons ⟨rfl, rfl⟩ (.cons ⟨rfl, rfl⟩ .nil)

/-- An owner whose file would have a name of 256 bytes. -/
def longOwner : OwnerId := ⟨String.ofList (List.replicate 251 'b')⟩

theorem length_longOwner : longOwner.text.toList.length = 251 := by
  unfold longOwner
  rw [String.toList_ofList]
  exact List.length_replicate

/-- What a look comes to if the remote does not know the owner. -/
theorem answers_look_of_gone {home : Home} {owner : OwnerId} {w : World MemoryRemote}
    {s : StoredState} (load : StoredState.load home owner w.disk = .ok s)
    (gone : w.remote.relations? owner = none) :
    answers home owner [crossedJob owner .read] w =
      [(.read, .error (Run.goneError home owner w.disk))] := by
  have hlist := MemoryRemote.list_of_noOwner gone
  have hlook := (Run.fails_look_of_gone (d := ⟨owner, .empty⟩) load hlist ⟨0, 0⟩).1
  refine (Job.answers_of_own rfl [] w).trans ?_
  exact congrArg (fun r => [(Mode.read, r)]) hlook

/-- An owner whose name is too long finds out about others, which make the directory that its file
would be in. -/
theorem not_apart_longOwner :
    crossedWorld.disk.Grounded ∧ longOwner ≠ ⟨"a"⟩ ∧
      answers crossedHome longOwner [crossedJob ⟨"a"⟩ (.apply false), crossedJob longOwner .read]
        crossedWorld =
        [(.read, .error (Run.tooLong crossedHome longOwner))] ∧
      answers crossedHome longOwner [crossedJob longOwner .read] crossedWorld =
        [(.read, .error (.cycle (.ownerNotFound longOwner)))] := by
  have hne : longOwner ≠ ⟨"a"⟩ := by
    intro h
    have hlength := length_longOwner
    rw [h] at hlength
    exact absurd hlength (by decide)
  have hgone : crossedWorld.remote.relations? longOwner = none := by
    have hget : crossedWorld.remote.relations? longOwner = if "a" = longOwner.text then some []
        else none := rfl
    rw [hget, if_neg fun h => hne (congrArg OwnerId.mk h.symm)]
  refine ⟨Disk.grounded_empty, hne, ?_, ?_⟩
  · let w := ((crossedJob ⟨"a"⟩ (.apply false)).outcome crossedHome crossedWorld).state
    have hfirst : answers crossedHome longOwner
        [crossedJob ⟨"a"⟩ (.apply false), crossedJob longOwner .read]
        crossedWorld = answers crossedHome longOwner [crossedJob longOwner .read] w :=
      Job.answers_of_other hne.symm _ _
    obtain ⟨r, hrun⟩ : ∃ r,
        (Run.run MemoryRemote.remote crossedHome ⟨0, 0⟩ ⟨⟨"a"⟩, .empty⟩ (.apply false)).Yields
          crossedWorld (.reconciled r) w := ⟨_, rfl, rfl⟩
    obtain ⟨s, q, disk, -, -, -, hsave, hdisk⟩ := Run.yields_apply hrun
    -- the first job made the directory, where the name is refused
    have hdir := (Disk.of_entry_concat (StoredState.remembers_of_save hsave)).1
    have hentry : w.disk.entry (StoredState.location crossedHome longOwner) =
        .error .nameTooLong := by
      rw [StoredState.location, Disk.entry_concat, hdisk, hdir, Disk.below,
        StoredState.isName_fileName (by rw [length_longOwner]; decide)]
      rfl
    have htwin : World.Twin crossedHome longOwner crossedWorld crossedWorld :=
      ⟨.refl _ _, StoredState.twin_refl _ _ Disk.grounded_empty⟩
    have hlist :=
      (Run.twin_run_of_ne (d := ⟨⟨"a"⟩, .empty⟩) htwin hne.symm ⟨0, 0⟩ (.apply false)).remote.list
    rw [hfirst, answers_look_of_gone (StoredState.load_of_error hentry) (hlist.symm.trans hgone),
      Run.goneError, StoredState.run_remove, hentry]
    rfl
  · have hentry : crossedWorld.disk.entry (StoredState.location crossedHome longOwner) =
        .error .notFound := rfl
    rw [answers_look_of_gone (StoredState.load_of_error hentry) hgone, Run.goneError,
      StoredState.run_remove, hentry]

end Roster
