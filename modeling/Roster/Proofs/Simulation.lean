/-
Remotes that runs cannot tell apart.

Two remotes with related states may answer every request alike and stay related.  Whatever is put
together from requests then ends alike on both of them: with the same result and the same notices,
in related states.  The same goes for the disks below a run, whose times may differ if the disks
hide that.

* `Action.Alike`, with `alike_bind`, `alike_mapM` and `alike_attempt` for how actions are put
  together;
* `Remote.Simulates`: a relation of states under which one remote answers as the other;
* `StoredState.Hides`: a relation of disks on which what is done for an owner at two times comes to
  the same;
* `Run.alike_run_of_hides`: a run on both remotes and both disks, `Run.alike_run` on one disk;
* `Remote.recorded`, `simulates_recorded`: a remote that also keeps the list of what it was sent.
-/
import Roster.Proofs.Run
import Roster.Proofs.StateTime
import Roster.Remote.Memory

namespace Roster

variable {σ τ ε α β : Type}

/-! ### Actions -/

namespace Action

variable {R : σ → τ → Prop}

/-- Run from related states, the actions end with the same result and the same notices, in related
states. -/
def Alike (R : σ → τ → Prop) (x : Action σ ε α) (y : Action τ ε α) : Prop :=
  ∀ s t, R s t → (x.run s).result = (y.run t).result ∧ R (x.run s).state (y.run t).state ∧
    (x.run s).log = (y.run t).log

theorem alike_pure (a : α) : Alike R (pure a : Action σ ε α) (pure a) := fun _ _ h => ⟨rfl, h, rfl⟩

theorem alike_note (log : List Notice) : Alike R (note log : Action σ ε Unit) (note log) :=
  fun _ _ h => ⟨rfl, h, rfl⟩

theorem alike_fail (e : ε) : Alike R (fail e : Action σ ε α) (fail e) := fun _ _ h => ⟨rfl, h, rfl⟩

/-- Sequences end alike if their first parts do, and their second parts after whatever the first
ones come to. -/
theorem alike_bind_of_result {x : Action σ ε α} {y : Action τ ε α} {f : α → Action σ ε β}
    {g : α → Action τ ε β} (hx : Alike R x y)
    (hf : ∀ a s, (x.run s).result = .ok a → Alike R (f a) (g a)) : Alike R (x >>= f) (y >>= g) := by
  intro s t hst
  obtain ⟨hresult, hstate, hlog⟩ := hx s t hst
  rcases hs : x.run s with ⟨e | a, s', log⟩
  · -- the first parts fail, and nothing follows
    rcases ht : y.run t with ⟨_, t', _⟩
    simp only [hs, ht] at hresult hstate hlog
    subst hresult hlog
    rw [run_bind_error hs, run_bind_error ht]
    exact ⟨rfl, hstate, rfl⟩
  · rcases ht : y.run t with ⟨_, t', _⟩
    simp only [hs, ht] at hresult hstate hlog
    subst hresult hlog
    rw [run_bind_ok hs, run_bind_ok ht]
    obtain ⟨hresult', hstate', hlog'⟩ := hf a s (congrArg Outcome.result hs) s' t' hstate
    exact ⟨hresult', hstate', congrArg (log ++ ·) hlog'⟩

theorem alike_bind {x : Action σ ε α} {y : Action τ ε α} {f : α → Action σ ε β}
    {g : α → Action τ ε β} (hx : Alike R x y) (hf : ∀ a, Alike R (f a) (g a)) :
    Alike R (x >>= f) (y >>= g) :=
  alike_bind_of_result hx fun a _ _ => hf a

theorem alike_mapM {f : α → Action σ ε β} {g : α → Action τ ε β} (h : ∀ a, Alike R (f a) (g a))
    (as : List α) : Alike R (List.mapM f as) (List.mapM g as) := by
  induction as with
  | nil => exact alike_pure []
  | cons a as ih =>
    rw [List.mapM_cons, List.mapM_cons]
    exact alike_bind (h a) fun b => alike_bind ih fun bs => alike_pure (b :: bs)

theorem alike_attempt {x : Action σ ε α} {y : Action τ ε α} (h : Alike R x y) :
    Alike R (attempt x) (attempt y) := by
  intro s t hst
  obtain ⟨hresult, hstate, hlog⟩ := h s t hst
  exact ⟨congrArg Except.ok hresult, hstate, hlog⟩

end Action

open Roster.Action (Agree Alike)

/-! ### Batches and cycles -/

/-- Under the relation the first remote answers as the second one does, and they stay related. -/
structure Remote.Simulates (R : σ → τ → Prop) (one : Remote σ) (other : Remote τ) : Prop where
  upsert : ∀ owner r s t, R s t → (one.upsert owner r s).1 = (other.upsert owner r t).1 ∧
    R (one.upsert owner r s).2 (other.upsert owner r t).2
  delete : ∀ owner id s t, R s t → (one.delete owner id s).1 = (other.delete owner id t).1 ∧
    R (one.delete owner id s).2 (other.delete owner id t).2
  list : ∀ owner s t, R s t → (one.list owner s).1 = (other.list owner t).1 ∧
    R (one.list owner s).2 (other.list owner t).2

variable {R : σ → τ → Prop} {one : Remote σ} {other : Remote τ}

namespace Batch

theorem alike_deleteOne (h : one.Simulates R other) (owner : OwnerId) (id : TargetId) :
    Alike R (deleteOne one owner id) (deleteOne other owner id) := by
  intro s t hst
  obtain ⟨hanswer, hstate⟩ := h.delete owner id s t hst
  unfold Action.run deleteOne
  rcases hs : one.delete owner id s with ⟨answer, s'⟩
  rcases ht : other.delete owner id t with ⟨_, t'⟩
  simp only [hs, ht] at hanswer hstate
  subst hanswer
  rcases answer with e | _
  · cases e <;> exact ⟨rfl, hstate, rfl⟩
  · exact ⟨rfl, hstate, rfl⟩

theorem alike_upsertOne (h : one.Simulates R other) (owner : OwnerId) (r : Relation) :
    Alike R (upsertOne one owner r) (upsertOne other owner r) := by
  intro s t hst
  obtain ⟨hanswer, hstate⟩ := h.upsert owner r s t hst
  unfold Action.run upsertOne
  rcases hs : one.upsert owner r s with ⟨answer, s'⟩
  rcases ht : other.upsert owner r t with ⟨_, t'⟩
  simp only [hs, ht] at hanswer hstate
  subst hanswer
  rcases answer with e | _ <;> exact ⟨rfl, hstate, rfl⟩

theorem alike_deleteAll (h : one.Simulates R other) (owner : OwnerId) (rehearse : Bool)
    (ids : List TargetId) :
    Alike R (deleteAll one owner rehearse ids) (deleteAll other owner rehearse ids) := by
  refine Action.alike_mapM (fun id => ?_) ids
  cases rehearse with
  | false => exact alike_deleteOne h owner id
  | true => exact fun _ _ hst => ⟨rfl, hst, rfl⟩

theorem alike_upsertAll (h : one.Simulates R other) (owner : OwnerId) (rehearse : Bool)
    (rs : List Relation) :
    Alike R (upsertAll one owner rehearse rs) (upsertAll other owner rehearse rs) := by
  refine Action.alike_mapM (fun r => ?_) rs
  cases rehearse with
  | false => exact alike_upsertOne h owner r
  | true => exact fun _ _ hst => ⟨rfl, hst, rfl⟩

theorem alike_apply (h : one.Simulates R other) (owner : OwnerId) (rehearse : Bool) (plan : Plan) :
    Alike R (apply one owner rehearse plan) (apply other owner rehearse plan) :=
  Action.alike_bind (alike_deleteAll h owner rehearse _) fun _ =>
    Action.alike_bind (alike_upsertAll h owner rehearse _) fun _ => Action.alike_pure _

end Batch

namespace Cycle

theorem alike_ofBatch {x : Action σ BatchError α} {y : Action τ BatchError α} (h : Alike R x y) :
    Alike R (ofBatch x) (ofBatch y) := by
  intro s t hst
  obtain ⟨hresult, hstate, hlog⟩ := h s t hst
  exact ⟨congrArg (Except.mapError CycleError.batch) hresult, hstate, hlog⟩

theorem alike_fetch (h : one.Simulates R other) (owner : OwnerId) :
    Alike R (fetch one owner) (fetch other owner) := by
  intro s t hst
  obtain ⟨hanswer, hstate⟩ := h.list owner s t hst
  unfold Action.run fetch
  rcases hs : one.list owner s with ⟨answer, s'⟩
  rcases ht : other.list owner t with ⟨_, t'⟩
  simp only [hs, ht] at hanswer hstate
  subst hanswer
  rcases answer with e | _
  · cases e <;> exact ⟨rfl, hstate, rfl⟩
  · exact ⟨rfl, hstate, rfl⟩

theorem alike_read (h : one.Simulates R other) (owner : OwnerId) (desired : DesiredSet)
    (prior : List Relation) :
    Alike R (read one owner desired prior) (read other owner desired prior) :=
  Action.alike_bind (alike_fetch h owner) fun _ =>
    Action.alike_bind (Action.alike_note _) fun _ => Action.alike_pure _

theorem alike_reconcile (h : one.Simulates R other) (owner : OwnerId) (rehearse : Bool)
    (previous desired : DesiredSet) (prior : List Relation) :
    Alike R (reconcile one owner rehearse previous desired prior)
      (reconcile other owner rehearse previous desired prior) :=
  Action.alike_bind (Action.alike_note _) fun _ =>
    Action.alike_bind (alike_ofBatch (Batch.alike_apply h owner rehearse _)) fun _ =>
      Action.alike_bind (alike_read h owner desired prior) fun _ => Action.alike_pure _

end Cycle

/-! ### Disks -/

/-- On disks that are related, what is done for an owner at two times comes to the same, but for the
times, and leaves them related. -/
structure StoredState.Hides (D : Disk → Disk → Prop) (home : Home) (owner : OwnerId)
    (t u : Timestamp) :
    Prop where
  load : ∀ d e, D d e → Agree Eq EqButTime (load home owner d) (load home owner e)
  save : ∀ declared view, Alike D (save home owner (ofOwner owner t declared view))
    (save home owner (ofOwner owner u declared view))
  remove : Alike D (remove home owner) (remove home owner)

theorem StoredState.hides_eq (home : Home) (owner : OwnerId) (t : Timestamp) :
    Hides Eq home owner t t where
  load := by
    rintro d _ rfl
    cases StoredState.load home owner d with
    | ok s => exact .ok (.refl s)
    | error e => exact .error rfl
  save := by
    rintro declared view d _ rfl
    exact ⟨rfl, rfl, rfl⟩
  remove := by
    rintro d _ rfl
    exact ⟨rfl, rfl, rfl⟩

/-! ### Runs -/

/-- The remotes of the worlds are related, and so are the disks. -/
def World.Related (R : σ → τ → Prop) (D : Disk → Disk → Prop) (w : World σ) (v : World τ) : Prop :=
  R w.remote v.remote ∧ D w.disk v.disk

/-- The remotes of the worlds are related, and the disks are the same. -/
def World.Alike (R : σ → τ → Prop) (w : World σ) (v : World τ) : Prop :=
  R w.remote v.remote ∧ w.disk = v.disk

namespace Run

variable {D : Disk → Disk → Prop} {home : Home} {owner : OwnerId} {t u : Timestamp}
  {d : Declaration}

theorem alike_onRemote {x : Action σ CycleError α} {y : Action τ CycleError α} (h : Alike R x y) :
    Alike (World.Related R D) (onRemote x) (onRemote y) := by
  rintro w v ⟨hremote, hdisk⟩
  obtain ⟨hresult, hstate, hlog⟩ := h w.remote v.remote hremote
  exact ⟨congrArg (Except.mapError RunError.cycle) hresult, ⟨hstate, hdisk⟩, hlog⟩

theorem alike_onDisk {x y : Action Disk StateError α} (h : Alike D x y) :
    Alike (World.Related R D) (onDisk x) (onDisk y) := by
  rintro w v ⟨hremote, hdisk⟩
  obtain ⟨hresult, hstate, hlog⟩ := h w.disk v.disk hdisk
  exact ⟨congrArg (Except.mapError RunError.state) hresult, ⟨hremote, hstate⟩, hlog⟩

theorem alike_forgetIfGone {x : Action σ CycleError α} {y : Action τ CycleError α} (h : Alike R x y)
    (hgone : ∀ s o, (x.run s).result = .error (.ownerNotFound o) → o = owner)
    (hremove : Alike D (StoredState.remove home owner) (StoredState.remove home owner)) :
    Alike (World.Related R D) (forgetIfGone home x) (forgetIfGone home y) := by
  refine Action.alike_bind_of_result (alike_onRemote (Action.alike_attempt h)) fun r w hr => ?_
  rcases r with c | a
  · cases c with
    | batch | listing => exact Action.alike_fail _
    | ownerNotFound o =>
      obtain rfl := hgone w.remote o (Except.ok.inj hr)
      refine Action.alike_bind (alike_onDisk hremove) fun removed => ?_
      cases removed with
      | false => exact Action.alike_fail _
      | true => exact Action.alike_bind (Action.alike_note _) fun _ => Action.alike_fail _
  · exact Action.alike_pure a

/-- What is remembered is loaded alike, but for its time, and no run looks at that. -/
theorem alike_load {f : StoredState → Action (World σ) RunError α}
    {g : StoredState → Action (World τ) RunError α}
    (hload : ∀ d e, D d e → Agree Eq StoredState.EqButTime (StoredState.load home owner d)
      (StoredState.load home owner e))
    (hfg : ∀ s s', StoredState.EqButTime s s' → Alike (World.Related R D) (f s) (g s')) :
    Alike (World.Related R D) (load home owner >>= f) (load home owner >>= g) := by
  rintro w v hwv
  have hagree := hload w.disk v.disk hwv.2
  have hw : (load home owner).run w =
      ⟨(StoredState.load home owner w.disk).mapError .state, w, []⟩ := rfl
  have hv : (load home owner).run v =
      ⟨(StoredState.load home owner v.disk).mapError .state, v, []⟩ := rfl
  generalize StoredState.load home owner w.disk = r at hagree hw
  generalize StoredState.load home owner v.disk = r' at hagree hv
  cases hagree with
  | error he =>
    subst he
    rw [Action.run_bind_error hw, Action.run_bind_error hv]
    exact ⟨rfl, hwv, rfl⟩
  | ok he =>
    rw [Action.run_bind_ok hw, Action.run_bind_ok hv]
    exact hfg _ _ he w v hwv

/-- A run can tell neither the remotes nor the disks apart, whatever the time. -/
theorem alike_run_of_hides (h : one.Simulates R other)
    (hides : StoredState.Hides D home d.owner t u) (mode : Mode) :
    Alike (World.Related R D) (run one home t d mode) (run other home u d mode) := by
  refine alike_load hides.load fun s s' hs => ?_
  rw [← hs]
  -- each mode is a sequence of steps on the remote and on the disk
  cases mode with
  | apply rehearse =>
    have hcycle := Cycle.alike_reconcile h d.owner rehearse s.declared d.desired s.view
    cases rehearse with
    | false =>
      refine Action.alike_bind ?_ fun _ => Action.alike_pure _
      refine Action.alike_bind ?_ fun r => ?_
      · exact alike_forgetIfGone hcycle (fun _ _ => Cycle.owner_of_reconcile) hides.remove
      · exact Action.alike_bind (alike_onDisk (hides.save _ _)) fun _ => Action.alike_pure r
    | true => exact Action.alike_bind (alike_onRemote hcycle) fun _ => Action.alike_pure _
  | read =>
    refine Action.alike_bind ?_ fun _ => Action.alike_pure _
    refine alike_forgetIfGone (Cycle.alike_read h d.owner d.desired s.view)
      (fun m o hr => ?_) hides.remove
    obtain ⟨cause, -, hc⟩ := Cycle.fails_read.1 (Action.fails_of_result hr)
    exact (Cycle.listError_eq_ownerNotFound_iff.1 hc.symm).2
  | destroy rehearse =>
    refine Action.alike_bind ?_ fun _ => Action.alike_pure _
    refine Action.alike_bind (alike_onRemote ?_) fun _ => ?_
    · exact Cycle.alike_ofBatch (Batch.alike_deleteAll h _ _ _)
    · cases rehearse with
      | false => exact Action.alike_bind (alike_onDisk hides.remove) fun _ => Action.alike_pure _
      | true => exact Action.alike_pure _

/-- A run cannot tell the remotes apart. -/
theorem alike_run (h : one.Simulates R other) (home : Home) (now : Timestamp) (d : Declaration)
    (mode : Mode) :
    Alike (World.Alike R) (run one home now d mode) (run other home now d mode) :=
  alike_run_of_hides h (StoredState.hides_eq home d.owner now) mode

end Run

/-! ### Recording what a remote is sent -/

/-- The remote, which also keeps the list of all that it was sent. -/
def Remote.recorded (remote : Remote σ) : Remote (σ × List Call) where
  upsert owner r s :=
    let answer := remote.upsert owner r s.1
    (answer.1, answer.2, s.2 ++ [.upsert owner r.target])
  delete owner id s :=
    let answer := remote.delete owner id s.1
    (answer.1, answer.2, s.2 ++ [.delete owner id])
  list owner s :=
    let answer := remote.list owner s.1
    (answer.1, answer.2, s.2 ++ [.list owner])

/-- Recording changes no answer, and only adds to the list. -/
theorem simulates_recorded (remote : Remote σ) (calls : List Call) :
    remote.Simulates (fun s t => t.1 = s ∧ calls <+: t.2) remote.recorded where
  upsert := by
    rintro owner r s ⟨_, sent⟩ ⟨rfl, hsent⟩
    exact ⟨rfl, rfl, hsent.trans (List.prefix_append ..)⟩
  delete := by
    rintro owner id s ⟨_, sent⟩ ⟨rfl, hsent⟩
    exact ⟨rfl, rfl, hsent.trans (List.prefix_append ..)⟩
  list := by
    rintro owner s ⟨_, sent⟩ ⟨rfl, hsent⟩
    exact ⟨rfl, rfl, hsent.trans (List.prefix_append ..)⟩

end Roster
