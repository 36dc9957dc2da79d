/-
How batches and cycles end.

A batch, a listing and a cycle end well exactly if the requests that they consist of are answered
well, one after the other, and fail with the first request that is not.  Nothing is assumed of the
remote.

* `yields_deleteOne`, `yields_upsertOne`, `yields_apply`: the operations of a batch;
* `yields_read`, `yields_reconcile`: looking at a remote, and bringing it to a declaration;
* `fails_apply`, `fails_read`, `fails_reconcile`: where they fail, and with what;
* `state_rehearsal`, `invariant_read`: what rehearsing and looking leave of the remote.
-/
import Roster.Cycle
import Roster.Proofs.Action

namespace Roster

variable {σ : Type} {remote : Remote σ} {owner : OwnerId} {s t : σ}

namespace Batch

/-- A delete ends well if the target is deleted, or if the remote does not know it. -/
theorem yields_deleteOne {target : TargetId} {a : Applied} :
    (deleteOne remote owner target).Yields s a t ↔
      (remote.delete owner target s = (.ok (), t) ∧ a = .deleted target) ∨
      (remote.delete owner target s = (.error .notFound, t) ∧ a = .alreadyAbsent target) := by
  unfold Action.Yields Action.run deleteOne
  rcases h : remote.delete owner target s with ⟨e | _, u⟩
  · -- of the errors, only an absence lets the batch go on
    cases e with
    | notFound =>
      constructor
      · rintro ⟨ha, rfl⟩
        exact .inr ⟨rfl, (Except.ok.inj ha).symm⟩
      · rintro (⟨h, -⟩ | ⟨h, rfl⟩)
        · cases h
        · cases h
          exact ⟨rfl, rfl⟩
    | rejected | unavailable | malformed => simp
  · constructor
    · rintro ⟨ha, rfl⟩
      exact .inl ⟨rfl, (Except.ok.inj ha).symm⟩
    · rintro (⟨h, rfl⟩ | ⟨h, -⟩)
      · cases h
        exact ⟨rfl, rfl⟩
      · cases h

/-- A delete fails with what the remote refuses it for, unless the target is absent. -/
theorem fails_deleteOne {target : TargetId} {e : BatchError} :
    (deleteOne remote owner target).Fails s e t ↔
      ∃ cause, remote.delete owner target s = (.error cause, t) ∧ cause ≠ .notFound ∧
        e = ⟨.delete, target, cause⟩ := by
  unfold Action.Fails Action.run deleteOne
  rcases h : remote.delete owner target s with ⟨c | _, u⟩
  · -- absence is the one answer that does not end a delete
    cases c with
    | notFound =>
      simp only [reduceCtorEq, false_and, false_iff]
      rintro ⟨_, h, present, -⟩
      cases h
      exact present rfl
    | rejected | unavailable | malformed =>
      constructor
      · rintro ⟨he, rfl⟩
        exact ⟨_, rfl, nofun, (Except.error.inj he).symm⟩
      · rintro ⟨_, h, -, rfl⟩
        cases h
        exact ⟨rfl, rfl⟩
  · simp

/-- An upsert ends well only if the remote accepts it. -/
theorem yields_upsertOne {r : Relation} {a : Applied} :
    (upsertOne remote owner r).Yields s a t ↔
      remote.upsert owner r s = (.ok (), t) ∧ a = .upserted r.target := by
  unfold Action.Yields Action.run upsertOne
  rcases h : remote.upsert owner r s with ⟨e | _, u⟩
  · simp
  · constructor
    · rintro ⟨ha, rfl⟩
      exact ⟨rfl, (Except.ok.inj ha).symm⟩
    · rintro ⟨h, rfl⟩
      cases h
      exact ⟨rfl, rfl⟩

/-- An upsert fails with what the remote refuses it for. -/
theorem fails_upsertOne {r : Relation} {e : BatchError} :
    (upsertOne remote owner r).Fails s e t ↔
      ∃ cause, remote.upsert owner r s = (.error cause, t) ∧ e = ⟨.upsert, r.target, cause⟩ := by
  unfold Action.Fails Action.run upsertOne
  rcases h : remote.upsert owner r s with ⟨c | _, u⟩
  · constructor
    · rintro ⟨he, rfl⟩
      exact ⟨c, rfl, (Except.error.inj he).symm⟩
    · rintro ⟨_, h, rfl⟩
      cases h
      exact ⟨rfl, rfl⟩
  · simp

/-- The state after one delete is the one that the remote comes to. -/
theorem state_deleteOne (remote : Remote σ) (owner : OwnerId) (target : TargetId) (s : σ) :
    ((deleteOne remote owner target).run s).state = (remote.delete owner target s).2 := by
  unfold Action.run deleteOne
  rcases remote.delete owner target s with ⟨e | _, u⟩
  · cases e <;> rfl
  · rfl

/-- The state after one upsert is the one that the remote comes to. -/
theorem state_upsertOne (remote : Remote σ) (owner : OwnerId) (r : Relation) (s : σ) :
    ((upsertOne remote owner r).run s).state = (remote.upsert owner r s).2 := by
  unfold Action.run upsertOne
  rcases remote.upsert owner r s with ⟨_ | _, u⟩ <;> rfl

/-- A batch ends well if all its deletes do, and all its upserts after them. -/
theorem yields_apply {rehearse : Bool} {plan : Plan} {as : List Applied} :
    (apply remote owner rehearse plan).Yields s as t ↔
      ∃ ds u us, (deleteAll remote owner rehearse plan.toDelete).Yields s ds u ∧
        (upsertAll remote owner rehearse plan.toUpsert).Yields u us t ∧ as = ds ++ us := by
  unfold apply
  rw [Action.yields_bind]
  constructor
  · rintro ⟨ds, u, hd, h⟩
    obtain ⟨us, v, hu, h⟩ := Action.yields_bind.1 h
    obtain ⟨rfl, rfl⟩ := Action.yields_pure.1 h
    exact ⟨ds, u, us, hd, hu, rfl⟩
  · rintro ⟨ds, u, us, hd, hu, rfl⟩
    exact ⟨ds, u, hd, Action.yields_bind.2 ⟨us, t, hu, Action.yields_pure.2 ⟨rfl, rfl⟩⟩⟩

/-- Relations that are sent end well only as sent. -/
theorem applied_upsertAll {ds : List Relation} {as : List Applied}
    (h : (upsertAll remote owner false ds).Yields s as t) :
    as = ds.map fun d => .upserted d.target := by
  simp only [upsertAll, Bool.false_eq_true, if_false] at h
  induction ds generalizing s as with
  | nil =>
    obtain ⟨rfl, -⟩ := Action.yields_mapM_nil.1 h
    rfl
  | cons d ds ih =>
    obtain ⟨a, u, as', ha, has, rfl⟩ := Action.yields_mapM_cons.1 h
    rw [(yields_upsertOne.1 ha).2, ih has, List.map_cons]

/-- A batch fails with the first of its deletes that fails, or else with the first of its
upserts. -/
theorem fails_apply {rehearse : Bool} {plan : Plan} {e : BatchError} :
    (apply remote owner rehearse plan).Fails s e t ↔
      (deleteAll remote owner rehearse plan.toDelete).Fails s e t ∨
      ∃ ds u, (deleteAll remote owner rehearse plan.toDelete).Yields s ds u ∧
        (upsertAll remote owner rehearse plan.toUpsert).Fails u e t := by
  unfold apply
  rw [Action.fails_bind]
  refine or_congr Iff.rfl (exists_congr fun ds => exists_congr fun u => and_congr Iff.rfl ?_)
  rw [Action.fails_bind]
  refine ⟨?_, .inl⟩
  rintro (h | ⟨us, v, -, h⟩)
  · exact h
  · exact absurd h Action.not_fails_pure

theorem state_deleteAll_rehearsal (remote : Remote σ) (owner : OwnerId)
    (ids : List TargetId) (s : σ) :
    ((deleteAll remote owner true ids).run s).state = s := by
  simp only [deleteAll, if_true]
  refine Action.invariant_mapM (P := (· = s)) (fun id _ t ht => ?_) rfl
  exact ht

theorem state_upsertAll_rehearsal (remote : Remote σ) (owner : OwnerId)
    (rs : List Relation) (s : σ) :
    ((upsertAll remote owner true rs).run s).state = s := by
  simp only [upsertAll, if_true]
  refine Action.invariant_mapM (P := (· = s)) (fun r _ t ht => ?_) rfl
  exact ht

/-- Rehearsing leaves the remote as it is. -/
theorem state_rehearsal (remote : Remote σ) (owner : OwnerId) (plan : Plan) (s : σ) :
    ((apply remote owner true plan).run s).state = s := by
  refine Action.invariant_bind (P := (· = s)) (state_deleteAll_rehearsal remote owner _ s) ?_
  rintro ds t - rfl
  refine Action.invariant_bind (P := (· = t)) (state_upsertAll_rehearsal remote owner _ t) ?_
  exact fun us u _ hu => hu

/-- What every delete keeps, all of them keep, wherever they end. -/
theorem invariant_deleteAll {P : σ → Prop} {ids : List TargetId}
    (hd : ∀ id ∈ ids, ∀ s, P s → P (remote.delete owner id s).2) (hs : P s) :
    P ((deleteAll remote owner false ids).run s).state := by
  refine Action.invariant_mapM (fun id hid v hv => ?_) hs
  simp only [Bool.false_eq_true, if_false, state_deleteOne]
  exact hd id hid v hv

/-- What every delete and every upsert of a plan keeps, a batch keeps, wherever it ends. -/
theorem invariant_apply {P : σ → Prop} {plan : Plan}
    (hd : ∀ id ∈ plan.toDelete, ∀ s, P s → P (remote.delete owner id s).2)
    (hu : ∀ r ∈ plan.toUpsert, ∀ s, P s → P (remote.upsert owner r s).2) (hs : P s) :
    P ((apply remote owner false plan).run s).state := by
  have hu' : ∀ u, P u → P ((upsertAll remote owner false plan.toUpsert).run u).state := by
    intro u hp
    refine Action.invariant_mapM (fun r hr v hv => ?_) hp
    simp only [Bool.false_eq_true, if_false, state_upsertOne]
    exact hu r hr v hv
  refine Action.invariant_bind (invariant_deleteAll hd hs) fun ds t _ ht => ?_
  exact Action.invariant_bind (hu' t ht) fun us u _ hv => hv

end Batch

namespace Cycle

theorem yields_ofBatch {α : Type} {x : Action σ BatchError α} {a : α} :
    (ofBatch x).Yields s a t ↔ x.Yields s a t := by
  unfold Action.Yields Action.run ofBatch
  rcases x s with ⟨_ | _, _, _⟩ <;> simp [Action.mapError_error, Action.mapError_ok]

theorem fails_ofBatch {α : Type} {x : Action σ BatchError α} {c : CycleError} :
    (ofBatch x).Fails s c t ↔ ∃ e, x.Fails s e t ∧ c = .batch e := by
  unfold Action.Fails Action.run ofBatch
  rcases x s with ⟨e | _, u, _⟩
  · simp only [Action.mapError_error, Except.error.injEq]
    exact ⟨fun h => ⟨e, ⟨rfl, h.2⟩, h.1.symm⟩, by rintro ⟨_, ⟨rfl, h⟩, rfl⟩; exact ⟨rfl, h⟩⟩
  · simp [Action.mapError_ok]

theorem state_ofBatch {α : Type} (x : Action σ BatchError α) (s : σ) :
    ((ofBatch x).run s).state = (x.run s).state := rfl

theorem yields_fetch {rs : List Relation} :
    (fetch remote owner).Yields s rs t ↔ remote.list owner s = (.ok rs, t) := by
  unfold Action.Yields Action.run fetch
  rcases h : remote.list owner s with ⟨e | ss, u⟩
  · cases e <;> simp
  · simp

/-- Looking ends well if the remote lists the relations, and then shows what they come to. -/
theorem yields_read {desired : DesiredSet} {prior : List Relation} {r : Reconciliation} :
    (read remote owner desired prior).Yields s r t ↔
      ∃ actual, remote.list owner s = (.ok actual, t) ∧ r = observe owner desired prior actual := by
  unfold read
  rw [Action.yields_bind]
  constructor
  · rintro ⟨actual, u, hf, h⟩
    obtain ⟨_, v, hn, h⟩ := Action.yields_bind.1 h
    obtain ⟨rfl, rfl⟩ := Action.yields_pure.1 h
    obtain rfl := Action.yields_note.1 hn
    exact ⟨actual, yields_fetch.1 hf, rfl⟩
  · rintro ⟨actual, hf, rfl⟩
    refine ⟨actual, t, yields_fetch.2 hf, Action.yields_bind.2 ⟨(), t, ?_, ?_⟩⟩
    · exact Action.yields_note.2 rfl
    · exact Action.yields_pure.2 ⟨rfl, rfl⟩

/-- A cycle ends well if its batch does and the remote then lists the relations. -/
theorem yields_reconcile {rehearse : Bool} {previous desired : DesiredSet} {prior : List Relation}
    {r : Reconciliation} :
    (reconcile remote owner rehearse previous desired prior).Yields s r t ↔
      ∃ as u actual,
        (Batch.apply remote owner rehearse (Plan.between previous desired)).Yields s as u ∧
        remote.list owner u = (.ok actual, t) ∧
        r = { observe owner desired prior actual with applied := as } := by
  unfold reconcile
  rw [Action.yields_bind]
  constructor
  · rintro ⟨_, u, hn, h⟩
    obtain rfl := Action.yields_note.1 hn
    obtain ⟨as, v, ha, h⟩ := Action.yields_bind.1 h
    obtain ⟨q, w, hr, h⟩ := Action.yields_bind.1 h
    obtain ⟨rfl, rfl⟩ := Action.yields_pure.1 h
    obtain ⟨actual, hl, rfl⟩ := yields_read.1 hr
    exact ⟨as, v, actual, yields_ofBatch.1 ha, hl, rfl⟩
  · rintro ⟨as, u, actual, ha, hl, rfl⟩
    refine ⟨(), s, Action.yields_note.2 rfl, Action.yields_bind.2 ⟨as, u, yields_ofBatch.2 ha, ?_⟩⟩
    refine Action.yields_bind.2 ⟨_, t, yields_read.2 ⟨actual, hl, rfl⟩, ?_⟩
    exact Action.yields_pure.2 ⟨rfl, rfl⟩

theorem state_fetch (remote : Remote σ) (owner : OwnerId) (s : σ) :
    ((fetch remote owner).run s).state = (remote.list owner s).2 := by
  unfold Action.run fetch
  rcases remote.list owner s with ⟨e | rs, u⟩
  · cases e <;> rfl
  · rfl

/-- What a listing that is refused amounts to. -/
def listError (owner : OwnerId) : RemoteError → CycleError
  | .notFound => .ownerNotFound owner
  | cause => .listing owner cause

theorem listError_eq_ownerNotFound_iff {cause : RemoteError} {o : OwnerId} :
    listError owner cause = .ownerNotFound o ↔ cause = .notFound ∧ o = owner := by
  cases cause with
  | notFound => simp only [listError, CycleError.ownerNotFound.injEq, true_and, eq_comm]
  | rejected | unavailable | malformed => simp [listError]

theorem fails_fetch {c : CycleError} :
    (fetch remote owner).Fails s c t ↔
      ∃ cause, remote.list owner s = (.error cause, t) ∧ c = listError owner cause := by
  unfold Action.Fails Action.run fetch
  rcases h : remote.list owner s with ⟨e | rs, u⟩
  · cases e with
    | notFound | rejected | unavailable | malformed =>
      constructor
      · rintro ⟨he, rfl⟩
        exact ⟨_, rfl, (Except.error.inj he).symm⟩
      · rintro ⟨_, h, rfl⟩
        cases h
        exact ⟨rfl, rfl⟩
  · simp

/-- Looking fails if the remote refuses the list. -/
theorem fails_read {desired : DesiredSet} {prior : List Relation} {c : CycleError} :
    (read remote owner desired prior).Fails s c t ↔
      ∃ cause, remote.list owner s = (.error cause, t) ∧ c = listError owner cause := by
  unfold read
  rw [Action.fails_bind, fails_fetch]
  refine ⟨?_, .inl⟩
  rintro (h | ⟨actual, u, -, h⟩)
  · exact h
  · rcases Action.fails_bind.1 h with h | ⟨_, v, -, h⟩
    · exact absurd h Action.not_fails_note
    · exact absurd h Action.not_fails_pure

/-- A cycle fails if its batch does, or if the remote refuses the list after it. -/
theorem fails_reconcile {rehearse : Bool} {previous desired : DesiredSet} {prior : List Relation}
    {c : CycleError} :
    (reconcile remote owner rehearse previous desired prior).Fails s c t ↔
      (∃ e, (Batch.apply remote owner rehearse (Plan.between previous desired)).Fails s e t ∧
        c = .batch e) ∨
      ∃ as u cause,
        (Batch.apply remote owner rehearse (Plan.between previous desired)).Yields s as u ∧
        remote.list owner u = (.error cause, t) ∧ c = listError owner cause := by
  unfold reconcile
  rw [Action.fails_bind]
  constructor
  · rintro (h | ⟨_, u, hn, h⟩)
    · exact absurd h Action.not_fails_note
    obtain rfl := Action.yields_note.1 hn
    rcases Action.fails_bind.1 h with h | ⟨as, v, ha, h⟩
    · exact .inl (fails_ofBatch.1 h)
    rcases Action.fails_bind.1 h with h | ⟨q, w, -, h⟩
    · obtain ⟨cause, hl, rfl⟩ := fails_read.1 h
      exact .inr ⟨as, v, cause, yields_ofBatch.1 ha, hl, rfl⟩
    · exact absurd h Action.not_fails_pure
  · intro h
    refine .inr ⟨(), s, Action.yields_note.2 rfl, Action.fails_bind.2 ?_⟩
    rcases h with ⟨e, he, rfl⟩ | ⟨as, u, cause, ha, hl, rfl⟩
    · exact .inl (fails_ofBatch.2 ⟨e, he, rfl⟩)
    · refine .inr ⟨as, u, yields_ofBatch.2 ha, Action.fails_bind.2 (.inl ?_)⟩
      exact fails_read.2 ⟨cause, hl, rfl⟩

/-- A cycle misses no other owner than its own. -/
theorem owner_of_reconcile {rehearse : Bool} {previous desired : DesiredSet} {prior : List Relation}
    {o : OwnerId}
    (h : ((reconcile remote owner rehearse previous desired prior).run s).result =
      .error (.ownerNotFound o)) : o = owner := by
  rcases fails_reconcile.1 (Action.fails_of_result h) with ⟨e, -, he⟩ | ⟨as, u, cause, -, -, hc⟩
  · cases he
  · exact (listError_eq_ownerNotFound_iff.1 hc.symm).2

theorem invariant_read {P : σ → Prop} (hl : P (remote.list owner s).2) (desired : DesiredSet)
    (prior : List Relation) : P ((read remote owner desired prior).run s).state := by
  refine Action.invariant_bind ?_ fun actual t _ ht => ?_
  · rw [state_fetch]
    exact hl
  · exact Action.invariant_bind (x := Action.note _) ht fun _ _ _ hv => hv

/-- What listing keeps, rehearsing and then looking keeps. -/
theorem invariant_rehearsed {P : σ → Prop} (hs : P s) (hl : P (remote.list owner s).2)
    (previous desired : DesiredSet) (prior : List Relation) :
    P ((reconcile remote owner true previous desired prior).run s).state := by
  have hb := Batch.state_rehearsal remote owner (Plan.between previous desired) s
  refine Action.invariant_bind (x := Action.note _) hs fun _ t hn _ => ?_
  obtain rfl := Action.yields_note.1 hn
  refine Action.invariant_bind (by rwa [state_ofBatch, hb]) fun as u ha _ => ?_
  -- the list is asked for where the rehearsal began
  obtain rfl : u = t := by rw [← ha.state, state_ofBatch, hb]
  exact Action.invariant_bind (invariant_read hl desired prior) fun _ _ _ hv => hv

/-- What a batch and a listing keep, a cycle keeps, wherever it ends. -/
theorem invariant_reconcile {P : σ → Prop} {previous desired : DesiredSet} (prior : List Relation)
    (hb : P ((Batch.apply remote owner false (Plan.between previous desired)).run s).state)
    (hl : ∀ u, P u → P (remote.list owner u).2) (hs : P s) :
    P ((reconcile remote owner false previous desired prior).run s).state := by
  refine Action.invariant_bind (x := Action.note _) hs fun _ t hn _ => ?_
  obtain rfl := Action.yields_note.1 hn
  refine Action.invariant_bind (by rwa [state_ofBatch]) fun as u _ hu => ?_
  exact Action.invariant_bind (invariant_read (hl u hu) desired prior) fun _ _ _ hv => hv

/-- A cycle misses the owner only if the remote does when it is asked for the list. -/
theorem notFound_of_reconcile {previous desired : DesiredSet} {prior : List Relation} {o : OwnerId}
    (h : ((reconcile remote owner false previous desired prior).run s).result =
      .error (.ownerNotFound o)) :
    (remote.list owner
      ((Batch.apply remote owner false (Plan.between previous desired)).run s).state).1 =
        .error .notFound := by
  -- a batch that fails is an error of its own, so the batch ended well and looking failed
  rcases fails_reconcile.1 (Action.fails_of_result h) with ⟨e, -, he⟩ | ⟨as, u, cause, ha, hl, hc⟩
  · cases he
  · rw [ha.state, hl, (listError_eq_ownerNotFound_iff.1 hc.symm).1]

end Cycle

end Roster
