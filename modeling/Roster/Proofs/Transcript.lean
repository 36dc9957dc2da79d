/-
What a batch sends, and how it ends.

A batch carries out the steps of its plan one after the other: the deletes, and then the upserts.
Every step is one request, and the answer to it says whether the batch goes on.  A delete goes on if
the target is gone, whoever removed it; an upsert goes on only if it was accepted.  Nothing is
assumed of the remote, so its answer to a request may depend on all those before it.

* `Plan.steps`, `apply_eq_mapM`: a batch as one sequence of steps;
* `Batch.Accepts`, `Batch.Refuses`: what the answer to one step makes of it;
* `Batch.Performs`: steps that are carried out one after the other;
* `yields_apply_iff`, `fails_apply_iff`: how a batch ends, on any remote;
* `Remote.transcribed`: a remote that writes down each request in full;
* `batch_follows_plan`: which requests a batch makes, and what it answers.
-/
import Roster.Proofs.Foresight

namespace Roster

variable {σ : Type}

/-! ### Steps -/

/-- One operation of a plan. -/
inductive Plan.Step where
  | delete (target : TargetId)
  | upsert (relation : Relation)

namespace Plan

namespace Step

def operation : Step → Operation
  | delete _ => .delete
  | upsert _ => .upsert

def target : Step → TargetId
  | delete target => target
  | upsert relation => relation.target

end Step

/-- The operations of a plan in the order in which they are carried out. -/
def steps (p : Plan) : List Step := p.toDelete.map .delete ++ p.toUpsert.map .upsert

end Plan

namespace Batch

open Plan (Step)

variable {remote : Remote σ} {owner : OwnerId} {step : Step} {steps : List Step} {s t u : σ}

/-- The remote's answer to a step lets the batch go on, and makes this of it. -/
inductive Accepts (remote : Remote σ) (owner : OwnerId) : Step → σ → Applied → σ → Prop
  | deleted {target : TargetId} {s t : σ} (answer : remote.delete owner target s = (.ok (), t)) :
    Accepts remote owner (.delete target) s (.deleted target) t
  | absent {target : TargetId} {s t : σ}
      (answer : remote.delete owner target s = (.error .notFound, t)) :
    Accepts remote owner (.delete target) s (.alreadyAbsent target) t
  | upserted {relation : Relation} {s t : σ}
      (answer : remote.upsert owner relation s = (.ok (), t)) :
    Accepts remote owner (.upsert relation) s (.upserted relation.target) t

/-- The remote's answer to a step is an error that ends the batch.  To an upsert, any error is
one. -/
inductive Refuses (remote : Remote σ) (owner : OwnerId) : Step → σ → RemoteError → σ → Prop
  | delete {target : TargetId} {s t : σ} {cause : RemoteError}
    (answer : remote.delete owner target s = (.error cause, t)) (present : cause ≠ .notFound) :
    Refuses remote owner (.delete target) s cause t
  | upsert {relation : Relation} {s t : σ} {cause : RemoteError}
    (answer : remote.upsert owner relation s = (.error cause, t)) :
    Refuses remote owner (.upsert relation) s cause t

/-- The remote lets all of some steps go on, each one in the state that the step before it led
to. -/
inductive Performs (remote : Remote σ) (owner : OwnerId) : List Step → σ → List Applied → σ → Prop
  | nil (s : σ) : Performs remote owner [] s [] s
  | cons {step : Step} {steps : List Step} {s t u : σ} {a : Applied} {as : List Applied}
    (first : Accepts remote owner step s a t) (rest : Performs remote owner steps t as u) :
    Performs remote owner (step :: steps) s (a :: as) u

/-! ### Batches as sequences of steps -/

/-- Carries out one step. -/
def perform (remote : Remote σ) (owner : OwnerId) : Step → Action σ BatchError Applied
  | .delete target => deleteOne remote owner target
  | .upsert relation => upsertOne remote owner relation

theorem apply_eq_mapM (remote : Remote σ) (owner : OwnerId) (plan : Plan) :
    apply remote owner false plan = plan.steps.mapM (perform remote owner) := by
  rw [apply, deleteAll, upsertAll, Plan.steps, List.mapM_append, List.mapM_map, List.mapM_map]
  rfl

theorem yields_perform {a : Applied} :
    (perform remote owner step).Yields s a t ↔ Accepts remote owner step s a t := by
  cases step with
  | delete target =>
    rw [perform, yields_deleteOne]
    constructor
    · rintro (⟨answer, rfl⟩ | ⟨answer, rfl⟩)
      · exact .deleted answer
      · exact .absent answer
    · intro h
      cases h with
      | deleted answer => exact .inl ⟨answer, rfl⟩
      | absent answer => exact .inr ⟨answer, rfl⟩
  | upsert relation =>
    rw [perform, yields_upsertOne]
    constructor
    · rintro ⟨answer, rfl⟩
      exact .upserted answer
    · intro h
      cases h with
      | upserted answer => exact ⟨answer, rfl⟩

theorem fails_perform {e : BatchError} :
    (perform remote owner step).Fails s e t ↔
      ∃ cause, Refuses remote owner step s cause t ∧ e = ⟨step.operation, step.target, cause⟩ := by
  cases step with
  | delete target =>
    rw [perform, fails_deleteOne]
    constructor
    · rintro ⟨cause, answer, present, rfl⟩
      exact ⟨cause, .delete answer present, rfl⟩
    · rintro ⟨cause, h, rfl⟩
      cases h with
      | delete answer present => exact ⟨cause, answer, present, rfl⟩
  | upsert relation =>
    rw [perform, fails_upsertOne]
    constructor
    · rintro ⟨cause, answer, rfl⟩
      exact ⟨cause, .upsert answer, rfl⟩
    · rintro ⟨cause, h, rfl⟩
      cases h with
      | upsert answer => exact ⟨cause, answer, rfl⟩

theorem yields_mapM_perform {as : List Applied} :
    (steps.mapM (perform remote owner)).Yields s as t ↔ Performs remote owner steps s as t := by
  induction steps generalizing s as with
  | nil =>
    rw [Action.yields_mapM_nil]
    constructor
    · rintro ⟨rfl, rfl⟩
      exact .nil t
    · intro h
      cases h
      exact ⟨rfl, rfl⟩
  | cons step steps ih =>
    rw [Action.yields_mapM_cons]
    constructor
    · rintro ⟨a, u, as, first, rest, rfl⟩
      exact .cons (yields_perform.1 first) (ih.1 rest)
    · intro h
      cases h with
      | cons first rest => exact ⟨_, _, _, yields_perform.2 first, ih.2 rest, rfl⟩

/-- A batch ends well exactly if all its steps go on, with what became of them. -/
theorem yields_apply_iff {plan : Plan} {as : List Applied} :
    (apply remote owner false plan).Yields s as t ↔ Performs remote owner plan.steps s as t := by
  rw [apply_eq_mapM, yields_mapM_perform]

/-- A batch fails exactly at the first step that does not go on, where the remote is then. -/
theorem fails_apply_iff {plan : Plan} {e : BatchError} :
    (apply remote owner false plan).Fails s e t ↔
      ∃ before step after as u cause, plan.steps = before ++ step :: after ∧
        Performs remote owner before s as u ∧ Refuses remote owner step u cause t ∧
        e = ⟨step.operation, step.target, cause⟩ := by
  rw [apply_eq_mapM, Action.fails_mapM]
  constructor
  · rintro ⟨before, step, after, as, u, hsteps, hbefore, hstep⟩
    obtain ⟨cause, refuses, rfl⟩ := fails_perform.1 hstep
    exact ⟨before, step, after, as, u, cause, hsteps, yields_mapM_perform.1 hbefore, refuses, rfl⟩
  · rintro ⟨before, step, after, as, u, cause, hsteps, performs, refuses, rfl⟩
    exact ⟨before, step, after, as, u, hsteps, yields_mapM_perform.2 performs,
      fails_perform.2 ⟨cause, refuses, rfl⟩⟩

end Batch

/-! ### Requests in full -/

/-- A request as a remote was sent it. -/
inductive Sent where
  | upsert (owner : OwnerId) (relation : Relation)
  | delete (owner : OwnerId) (target : TargetId)
  | list (owner : OwnerId)

/-- The request that a step stands for. -/
def Plan.Step.sent (owner : OwnerId) : Step → Sent
  | delete target => .delete owner target
  | upsert relation => .upsert owner relation

/-- The remote, which also writes down each request in full. -/
def Remote.transcribed (remote : Remote σ) : Remote (σ × List Sent) where
  upsert owner relation s :=
    let answer := remote.upsert owner relation s.1
    (answer.1, answer.2, s.2 ++ [.upsert owner relation])
  delete owner target s :=
    let answer := remote.delete owner target s.1
    (answer.1, answer.2, s.2 ++ [.delete owner target])
  list owner s :=
    let answer := remote.list owner s.1
    (answer.1, answer.2, s.2 ++ [.list owner])

namespace Batch

open Plan (Step)

variable {remote : Remote σ} {owner : OwnerId} {step : Step} {steps : List Step} {s : σ}
  {sent : List Sent} {now : σ × List Sent}

/-- Writing down what it is sent, a remote gives the same answers. -/
theorem delete_transcribed {target : TargetId} {answer : Except RemoteError Unit} :
    remote.transcribed.delete owner target (s, sent) = (answer, now) ↔
      remote.delete owner target s = (answer, now.1) ∧ now.2 = sent ++ [.delete owner target] := by
  rw [Remote.transcribed, Prod.ext_iff, Prod.ext_iff, Prod.ext_iff, and_assoc]
  exact and_congr Iff.rfl (and_congr Iff.rfl eq_comm)

theorem upsert_transcribed {relation : Relation} {answer : Except RemoteError Unit} :
    remote.transcribed.upsert owner relation (s, sent) = (answer, now) ↔
      remote.upsert owner relation s = (answer, now.1) ∧
      now.2 = sent ++ [.upsert owner relation] := by
  rw [Remote.transcribed, Prod.ext_iff, Prod.ext_iff, Prod.ext_iff, and_assoc]
  exact and_congr Iff.rfl (and_congr Iff.rfl eq_comm)

theorem accepts_transcribed {a : Applied} :
    Accepts remote.transcribed owner step (s, sent) a now ↔
      Accepts remote owner step s a now.1 ∧ now.2 = sent ++ [step.sent owner] := by
  constructor
  · intro h
    cases h with
    | deleted answer => exact (delete_transcribed.1 answer).imp_left .deleted
    | absent answer => exact (delete_transcribed.1 answer).imp_left .absent
    | upserted answer => exact (upsert_transcribed.1 answer).imp_left .upserted
  · rintro ⟨h, hsent⟩
    cases h with
    | deleted answer => exact .deleted (delete_transcribed.2 ⟨answer, hsent⟩)
    | absent answer => exact .absent (delete_transcribed.2 ⟨answer, hsent⟩)
    | upserted answer => exact .upserted (upsert_transcribed.2 ⟨answer, hsent⟩)

theorem refuses_transcribed {cause : RemoteError} :
    Refuses remote.transcribed owner step (s, sent) cause now ↔
      Refuses remote owner step s cause now.1 ∧ now.2 = sent ++ [step.sent owner] := by
  constructor
  · intro h
    cases h with
    | delete answer present =>
      exact (delete_transcribed.1 answer).imp_left fun h =>
        .delete h present
    | upsert answer => exact (upsert_transcribed.1 answer).imp_left .upsert
  · rintro ⟨h, hsent⟩
    cases h with
    | delete answer present => exact .delete (delete_transcribed.2 ⟨answer, hsent⟩) present
    | upsert answer => exact .upsert (upsert_transcribed.2 ⟨answer, hsent⟩)

theorem performs_transcribed {as : List Applied} :
    Performs remote.transcribed owner steps (s, sent) as now ↔
      Performs remote owner steps s as now.1 ∧ now.2 = sent ++ steps.map (Step.sent owner) := by
  -- induction on the steps: each one adds its request to what was written down before it
  induction steps generalizing s sent as with
  | nil =>
    constructor
    · intro h
      cases h
      exact ⟨.nil s, (List.append_nil sent).symm⟩
    · obtain ⟨t, written⟩ := now
      rintro ⟨h, hwritten⟩
      cases h
      obtain rfl : written = sent := hwritten.trans (List.append_nil sent)
      exact .nil _
  | cons step steps ih =>
    have hsent : sent ++ (step :: steps).map (Step.sent owner) =
        (sent ++ [step.sent owner]) ++ steps.map (Step.sent owner) := by simp
    constructor
    · intro h
      cases h with
      | @cons _ _ _ t _ _ _ first rest =>
        obtain ⟨t, written⟩ := t
        obtain ⟨first, rfl⟩ := accepts_transcribed.1 first
        obtain ⟨rest, hnow⟩ := ih.1 rest
        exact ⟨.cons first rest, hnow.trans hsent.symm⟩
    · rintro ⟨h, hnow⟩
      cases h with
      | cons first rest =>
        refine .cons (accepts_transcribed.2 ⟨first, rfl⟩) (ih.2 ⟨rest, ?_⟩)
        exact hnow.trans hsent

end Batch

open Batch

/-- **A batch follows its plan.**  On any remote a batch makes the requests of its plan in order, up
to the first one that is refused, and no other; that a target to delete is absent is no refusal.  It
answers what became of each step, or else which operation was refused, on which target and for what.
A rehearsal makes no request and foretells every step. -/
theorem batch_follows_plan (remote : Remote σ) (owner : OwnerId) (plan : Plan) (s : σ)
    (sent : List Sent) :
    (∀ outcomes now,
      (Batch.apply remote.transcribed owner false plan).Yields (s, sent) outcomes now ↔
      Performs remote owner plan.steps s outcomes now.1 ∧
        now.2 = sent ++ plan.steps.map (Plan.Step.sent owner)) ∧
    (∀ e now, (Batch.apply remote.transcribed owner false plan).Fails (s, sent) e now ↔
      ∃ before step after outcomes t cause, plan.steps = before ++ step :: after ∧
        Performs remote owner before s outcomes t ∧ Refuses remote owner step t cause now.1 ∧
        now.2 = sent ++ (before ++ [step]).map (Plan.Step.sent owner) ∧
        e = ⟨step.operation, step.target, cause⟩) ∧
    (Batch.apply remote.transcribed owner true plan).Yields (s, sent) plan.foretold (s, sent) := by
  refine ⟨fun outcomes now => ?_, fun e now => ?_, yields_apply_rehearsal plan⟩
  · rw [yields_apply_iff, performs_transcribed]
  · rw [fails_apply_iff]
    -- what is written down grows by one request with each step, the refused one included
    constructor
    · rintro ⟨before, step, after, as, ⟨t, written⟩, cause, hsteps, performs, refuses, rfl⟩
      obtain ⟨performs, rfl⟩ := performs_transcribed.1 performs
      obtain ⟨refuses, hnow⟩ := refuses_transcribed.1 refuses
      refine ⟨before, step, after, as, t, cause, hsteps, performs, refuses, ?_, rfl⟩
      rw [hnow, List.map_append, List.append_assoc, List.map_singleton]
    · rintro ⟨before, step, after, as, t, cause, hsteps, performs, refuses, hnow, rfl⟩
      refine ⟨before, step, after, as, (t, sent ++ before.map (Plan.Step.sent owner)), cause,
        hsteps, performs_transcribed.2 ⟨performs, rfl⟩, ?_, rfl⟩
      refine refuses_transcribed.2 ⟨refuses, ?_⟩
      rw [hnow, List.map_append, List.append_assoc, List.map_singleton]

end Roster
