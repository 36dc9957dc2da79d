/-
Histories with failed runs.

What a real apply did before it failed stays done, but what is remembered is the declaration that
was applied last.  So a relation that only a failed run sent is not deleted by the runs after it: it
is loose.  Nothing else that runs have sent is ever left behind.

* `listing`: a remote in memory whose list may be refused;
* `Attempts`: real applies of an owner, each with refusals of its own;
* `Loose`: what failed runs leave behind;
* `exists_left`: a real apply leaves the owner a list;
* `attempts_leave`: what is on the list after a run that ends well.
-/
import Roster.Proofs.Convergence
import Roster.Proofs.Run
import Roster.Proofs.StateText

namespace Roster

open Roster.Relation
open Roster.MemoryRemote (SameSettings)

namespace MemoryRemote

/-- The remote in memory, except that its list is refused with a given error. -/
def listing (fault : Option RemoteError) : Remote MemoryRemote :=
  { remote with
    list := fun owner m =>
      match fault with
      | some error => (.error error, m)
      | none => list owner m }

/-- The same remote with other refusals. -/
def refusing (m : MemoryRemote) (failures : Operation → TargetId → Option RemoteError) :
    MemoryRemote :=
  { m with failures := failures }

/-- What operations of a plan that ends anywhere leave of a list: of the targets that were not
declared before, none is gone, and those that came are declared now. -/
def Grown (owner : OwnerId) (previous desired : DesiredSet) (before : List Relation)
    (m : MemoryRemote) :
    Prop :=
  ∃ rs, m.relations? owner = some rs ∧ ∀ id ∉ previous.targets,
    (id ∈ targets before → id ∈ targets rs) ∧
      (id ∈ targets rs → id ∈ targets before ∨ id ∈ desired.targets)

variable {m n : MemoryRemote} {owner : OwnerId} {previous desired : DesiredSet}
  {before : List Relation} {fault : Option RemoteError}

theorem Grown.refl (h : m.relations? owner = some before) : Grown owner previous desired before m :=
  ⟨before, h, fun _ _ => ⟨id, .inl⟩⟩

theorem Grown.congr (hr : n.relations? owner = m.relations? owner)
    (h : Grown owner previous desired before m) : Grown owner previous desired before n := by
  obtain ⟨rs, hrs, hg⟩ := h
  exact ⟨rs, hr.trans hrs, hg⟩

theorem Grown.delete {id : TargetId} (hid : id ∈ previous.targets)
    (h : Grown owner previous desired before m) :
    Grown owner previous desired before (delete owner id m).2 := by
  obtain ⟨rs, hr, hg⟩ := h
  cases hf : m.failures .delete id with
  | some error =>
    rw [delete_of_failure hf]
    exact ⟨rs, hr, hg⟩
  | none =>
    by_cases ht : id ∈ targets rs
    · -- the target that goes was declared before, so the others are not concerned
      rw [delete_of_mem hf hr ht]
      refine ⟨_, relations?_setRelations_self .., fun other ho => ?_⟩
      have hne : other ≠ id := fun he => ho (he ▸ hid)
      rw [targets_part, List.mem_filter]
      simpa [hne] using hg other ho
    · rw [delete_of_notMem hf hr ht]
      exact ⟨rs, hr, hg⟩

theorem Grown.upsert {r : Relation} (hd : r.target ∈ desired.targets)
    (h : Grown owner previous desired before m) :
    Grown owner previous desired before (upsert owner r m).2 := by
  obtain ⟨rs, hr, hg⟩ := h
  cases hf : m.failures .upsert r.target with
  | some error =>
    rw [upsert_of_failure hf]
    exact ⟨rs, hr, hg⟩
  | none =>
    rw [upsert_of_owner hf hr]
    refine ⟨_, relations?_setRelations_self .., fun id hid => ?_⟩
    rw [(sent_single (m.noted owner r) owner r rs).targets, List.mem_append, List.mem_filter]
    -- an upsert adds its own target at most, and that one is declared
    obtain ⟨h1, h2⟩ := hg id hid
    refine ⟨fun hb => .inl (h1 hb), ?_⟩
    rintro (hm | ⟨hm, -⟩)
    · exact h2 hm
    · obtain rfl : id = r.target := by simpa using hm
      exact .inr hd

theorem Grown.list (h : Grown owner previous desired before m) :
    Grown owner previous desired before ((listing fault).list owner m).2 := by
  refine h.congr ?_
  cases fault with
  | some error => rfl
  | none =>
    show (MemoryRemote.list owner m).2.relations? owner = _
    rw [state_list, relations?_record]

theorem grown_apply (h : m.relations? owner = some before) :
    Grown owner previous desired before
      ((Batch.apply (listing fault) owner false (Plan.between previous desired)).run m).state := by
  refine Batch.invariant_apply (fun id hid n hn => ?_) (fun r hr n hn => ?_) (.refl h)
  · exact hn.delete (Plan.mem_toDelete_between.1 hid).1
  · exact hn.upsert (mem_targets.2 ⟨r, hr, rfl⟩)

/-- Wherever a cycle ends, the list has only grown by what is declared, but for what was declared
before. -/
theorem grown_reconcile (h : m.relations? owner = some before) (prior : List Relation) :
    Grown owner previous desired before
      ((Cycle.reconcile (listing fault) owner false previous desired prior).run m).state :=
  Cycle.invariant_reconcile prior (grown_apply h) (fun _ hn => hn.list) (.refl h)

/-- A cycle does not miss an owner that the remote knows. -/
theorem reconcile_ne_notFound (hk : m.relations? owner = some before) (hl : fault ≠ some .notFound)
    (prior : List Relation) (o : OwnerId) :
    ((Cycle.reconcile (listing fault) owner false previous desired prior).run m).result ≠
      .error (.ownerNotFound o) := by
  intro h
  have hn := Cycle.notFound_of_reconcile h
  have hg : Grown owner previous desired before
      ((Batch.apply (listing fault) owner false (Plan.between previous desired)).run m).state :=
    grown_apply hk
  obtain ⟨rs, hr, -⟩ := hg
  -- what was grown is listed, so only a made-up absence could be answered
  cases fault with
  | some error => exact hl (congrArg some (Except.error.inj hn))
  | none =>
    have hn' : (remote.list owner _).1 = .error .notFound := hn
    rw [list_of_owner hr] at hn'
    cases hn'

theorem fault_of_reconcile {prior : List Relation} {r : Reconciliation}
    (h : (Cycle.reconcile (listing fault) owner false previous desired prior).Yields m r n) :
    fault = none := by
  obtain ⟨as, k, actual, -, hl, -⟩ := Cycle.yields_reconcile.1 h
  cases fault with
  | none => rfl
  | some error => cases hl

end MemoryRemote

open MemoryRemote (listing Grown)

/-- A real apply that was carried out: what was declared, whether it ended well, and the targets
that were on the list of the owner afterwards. -/
structure Attempt where
  declared : DesiredSet
  succeeded : Bool
  left : List TargetId

/-- The real applies of an owner, of any declarations and at any times.  Each of them may be refused
any delete and any upsert, and the list, but not for want of the owner; nobody else changes the
remote. -/
inductive Attempts (home : Home) (owner : OwnerId) (start : World MemoryRemote) :
    List Attempt → World MemoryRemote → Prop
  | start : Attempts home owner start [] start
  | apply {attempts : List Attempt} {w v : World MemoryRemote} {d : Declaration} {now : Timestamp}
      {fault : Option RemoteError} {failures : Operation → TargetId → Option RemoteError}
      {result : Except RunError RunResult} {log : List Notice} {rs : List Relation}
      (h : Attempts home owner start attempts w) (ho : d.owner = owner)
      (honest : ∀ operation id, failures operation id ≠ some .notFound)
      (known : fault ≠ some .notFound)
      (run : (Run.run (listing fault) home now d (.apply false)).run
        ⟨w.remote.refusing failures, w.disk⟩ = ⟨result, v, log⟩)
      (left : v.remote.relations? owner = some rs) :
      Attempts home owner start (attempts ++ [⟨d.desired, result.isOk, targets rs⟩]) v

/-- The declaration of the last run that ended well. -/
def lastApplied (attempts : List Attempt) : DesiredSet :=
  (attempts.reverse.find? (·.succeeded)).elim .empty (·.declared)

/-- Whether no run that ended well declared a target. -/
def NeverApplied (attempts : List Attempt) (id : TargetId) : Prop :=
  ∀ a ∈ attempts, a.succeeded = true → id ∉ a.declared.targets

/-- Whether a target is loose: a failed run declared it and left it on the list, the last run that
had ended well before did not declare it, and none that ended well since did. -/
inductive Loose : List Attempt → TargetId → Prop
  | left {earlier : List Attempt} {a : Attempt} {id : TargetId} (failed : a.succeeded = false)
      (declared : id ∈ a.declared.targets) (left : id ∈ a.left)
      (unowned : id ∉ (lastApplied earlier).targets) : Loose (earlier ++ [a]) id
  | kept {earlier : List Attempt} {a : Attempt} {id : TargetId} (h : Loose earlier id)
      (undeclared : a.succeeded = true → id ∉ a.declared.targets) : Loose (earlier ++ [a]) id

variable {attempts earlier : List Attempt} {a : Attempt} {id : TargetId}

theorem lastApplied_of_failed (h : a.succeeded = false) :
    lastApplied (attempts ++ [a]) = lastApplied attempts := by
  simp [lastApplied, h]

theorem lastApplied_of_succeeded (h : a.succeeded = true) :
    lastApplied (attempts ++ [a]) = a.declared := by
  simp [lastApplied, h]

theorem neverApplied_concat :
    NeverApplied (attempts ++ [a]) id ↔
      NeverApplied attempts id ∧ (a.succeeded = true → id ∉ a.declared.targets) := by
  simp only [NeverApplied, List.mem_append, List.mem_singleton]
  constructor
  · exact fun h => ⟨fun b hb => h b (.inl hb), h a (.inr rfl)⟩
  · rintro ⟨h, ha⟩ b (hb | rfl)
    · exact h b hb
    · exact ha

theorem notMem_lastApplied_of_never (h : NeverApplied attempts id) :
    id ∉ (lastApplied attempts).targets := by
  unfold lastApplied
  cases hf : attempts.reverse.find? (·.succeeded) with
  | none => exact List.not_mem_nil
  | some b =>
    have hm := List.mem_of_find?_eq_some hf
    exact h b (List.mem_reverse.1 hm) (by simpa using List.find?_some hf)

theorem not_loose_nil : ¬Loose [] id := by
  generalize he : ([] : List Attempt) = attempts
  rintro (⟨⟩ | ⟨⟩)
  all_goals simp at he

theorem loose_concat :
    Loose (attempts ++ [a]) id ↔
      (a.succeeded = false ∧ id ∈ a.declared.targets ∧ id ∈ a.left ∧
        id ∉ (lastApplied attempts).targets) ∨
      (Loose attempts id ∧ (a.succeeded = true → id ∉ a.declared.targets)) := by
  constructor
  · -- the attempt that `Loose` speaks of is the last one, or one before it
    generalize he : attempts ++ [a] = all
    rintro (⟨hf, hd, hl, hu⟩ | ⟨h, hu⟩)
    · obtain ⟨rfl, hone⟩ := List.append_inj' he rfl
      obtain rfl := List.singleton_inj.1 hone
      exact .inl ⟨hf, hd, hl, hu⟩
    · obtain ⟨rfl, hone⟩ := List.append_inj' he rfl
      obtain rfl := List.singleton_inj.1 hone
      exact .inr ⟨h, hu⟩
  · rintro (⟨hf, hd, hl, hu⟩ | ⟨h, hu⟩)
    · exact .left hf hd hl hu
    · exact .kept h hu

/-- What is loose is not part of the declaration that was applied last. -/
theorem Loose.notMem_lastApplied (h : Loose attempts id) : id ∉ (lastApplied attempts).targets := by
  induction h with
  | left hf hd hl hu => rwa [lastApplied_of_failed hf]
  | @kept earlier a id h hu ih =>
    cases hs : a.succeeded with
    | false => rwa [lastApplied_of_failed hs]
    | true =>
      rw [lastApplied_of_succeeded hs]
      exact hu hs

/-- Whether what is remembered declares some targets: nothing is remembered and there are none, or a
state is that declares them. -/
def RemembersTargets (home : Home) (owner : OwnerId) (ids : List TargetId) (d : Disk) : Prop :=
  (StoredState.Forgotten home owner d ∧ ids = []) ∨
    ∃ time declared view,
      StoredState.Remembers home owner (StoredState.ofOwner owner time declared view).text d ∧
        declared.targets = ids

/-- What is loaded declares the targets. -/
theorem RemembersTargets.load {home : Home} {owner : OwnerId} {ids : List TargetId} {d : Disk}
    {s : StoredState} (h : RemembersTargets home owner ids d)
    (hs : StoredState.load home owner d = .ok s) : s.declared.targets = ids := by
  rcases h with ⟨hf, hl⟩ | ⟨time, declared, view, hr, hl⟩
  · rw [StoredState.load_of_forgotten hf] at hs
    obtain rfl := Except.ok.inj hs
    exact hl.symm
  · have ht := StoredState.load_of_remembers_text hr
    rw [hs] at ht
    exact (StoredState.targets_of_reread ht.symm).trans hl

theorem RemembersTargets.save_error {home : Home} {owner : OwnerId} {ids : List TargetId} {d : Disk}
    {state : StoredState} {e : StateError} (h : RemembersTargets home owner ids d)
    (he : ((StoredState.save home owner state).run d).result = .error e) :
    RemembersTargets home owner ids ((StoredState.save home owner state).run d).state := by
  rcases h with ⟨hf, hl⟩ | ⟨time, declared, view, hr, hl⟩
  · exact .inl ⟨StoredState.forgotten_of_save_error hf he, hl⟩
  · exact .inr ⟨time, declared, view, StoredState.remembers_of_save_error hr he, hl⟩

/-- What an attempt history comes to: of the targets that were not applied last, the list holds
those that it held at the start and that were never applied, and the loose ones; and what is
remembered is what was applied last. -/
structure Tracked (home : Home) (owner : OwnerId) (before : List Relation) (attempts : List Attempt)
    (w : World MemoryRemote) : Prop where
  list : ∃ rs, w.remote.relations? owner = some rs ∧ ∀ id ∉ (lastApplied attempts).targets,
    id ∈ targets rs ↔ (id ∈ targets before ∧ NeverApplied attempts id) ∨ Loose attempts id
  disk : RemembersTargets home owner (lastApplied attempts).targets w.disk

namespace Tracked

variable {home : Home} {owner : OwnerId} {before : List Relation} {w v : World MemoryRemote}

theorem nil (fresh : StoredState.Forgotten home owner w.disk)
    (known : w.remote.relations? owner = some before) : Tracked home owner before [] w where
  list := by
    refine ⟨before, known, fun id _ => ⟨fun h => .inl ⟨h, nofun⟩, ?_⟩⟩
    rintro (⟨h, -⟩ | h)
    · exact h
    · exact absurd h not_loose_nil
  disk := .inl ⟨fresh, rfl⟩

/-- What a real apply does to the remote, wherever it ends: the list only grows by what is declared,
but for what was applied last. -/
theorem grown {d : Declaration} {rs : List Relation} (h : Tracked home d.owner before attempts w)
    (hr : w.remote.relations? d.owner = some rs) (now : Timestamp) (fault : Option RemoteError)
    (failures : Operation → TargetId → Option RemoteError) :
    Grown d.owner (lastApplied attempts) d.desired rs
      ((Run.run (listing fault) home now d (.apply false)).run
        ⟨w.remote.refusing failures, w.disk⟩).state.remote := by
  have hr' : (w.remote.refusing failures).relations? d.owner = some rs := hr
  -- the cycle starts from what is remembered, which declares the targets that were applied last
  have hcycle : ∀ s : StoredState, StoredState.load home d.owner w.disk = .ok s →
      Grown d.owner (lastApplied attempts) d.desired rs
        ((Cycle.reconcile (listing fault) d.owner false s.declared d.desired s.view).run
          (w.remote.refusing failures)).state := by
    intro s hs
    obtain ⟨cs, hcs, hg⟩ := MemoryRemote.grown_reconcile hr' s.view
    refine ⟨cs, hcs, fun id hid => hg id ?_⟩
    rwa [h.disk.load hs]
  have he := Run.applyEnds (listing fault) home now d ⟨w.remote.refusing failures, w.disk⟩
  rcases hv : (Run.run (listing fault) home now d (.apply false)).run
    ⟨w.remote.refusing failures, w.disk⟩ with ⟨result, v, log⟩
  rw [hv] at he
  cases he with
  | unread load => exact .refl hr'
  | failed load cycle known => exact hcycle _ load
  | gone load cycle => exact hcycle _ load
  | unsaved load cycle save => exact cycle.state ▸ hcycle _ load
  | done load cycle save => exact cycle.state ▸ hcycle _ load

/-- A run that failed leaves loose what it sent, unless that was applied last. -/
theorem failed {a : Attempt} {rs : List Relation} (h : Tracked home owner before attempts w)
    (ha : a.succeeded = false) (hv : v.remote.relations? owner = some rs) (hl : a.left = targets rs)
    (hg : ∀ cs, w.remote.relations? owner = some cs →
      Grown owner (lastApplied attempts) a.declared cs v.remote)
    (hd : RemembersTargets home owner (lastApplied attempts).targets v.disk) :
    Tracked home owner before (attempts ++ [a]) v where
  list := by
    obtain ⟨cs, hcs, hmem⟩ := h.list
    obtain ⟨rs', hrs', hgrown⟩ := hg cs hcs
    obtain rfl : rs' = rs := Option.some.inj (hrs'.symm.trans hv)
    refine ⟨rs', hv, fun id hid => ?_⟩
    rw [lastApplied_of_failed ha] at hid
    obtain ⟨h1, h2⟩ := hgrown id hid
    have hsub : id ∈ targets cs ↔ _ := hmem id hid
    rw [neverApplied_concat, loose_concat, hl]
    simp only [ha, Bool.false_eq_true, false_implies, and_true, true_and]
    -- what is on the list was there before the run, or the run sent it
    constructor
    · intro hrs
      rcases h2 hrs with hc | hd
      · rcases hsub.1 hc with hi | hi
        · exact .inl hi
        · exact .inr (.inr hi)
      · exact .inr (.inl ⟨hd, hrs, hid⟩)
    · rintro (hi | ⟨-, hrs, -⟩ | hi)
      · exact h1 (hsub.2 (.inl hi))
      · exact hrs
      · exact h1 (hsub.2 (.inr hi))
  disk := by rwa [lastApplied_of_failed ha]

/-- A run that ended well deletes what was applied last and is declared no more. -/
theorem succeeded {a : Attempt} {rs : List Relation} (h : Tracked home owner before attempts w)
    (ha : a.succeeded = true) (hv : v.remote.relations? owner = some rs)
    (hg : ∀ cs, w.remote.relations? owner = some cs → ∀ id ∉ a.declared.targets,
      id ∈ targets rs ↔ id ∈ targets cs ∧ id ∉ (lastApplied attempts).targets)
    (hd : RemembersTargets home owner a.declared.targets v.disk) :
    Tracked home owner before (attempts ++ [a]) v where
  list := by
    obtain ⟨cs, hcs, hmem⟩ := h.list
    refine ⟨rs, hv, fun id hid => ?_⟩
    rw [lastApplied_of_succeeded ha] at hid
    rw [hg cs hcs id hid, neverApplied_concat, loose_concat]
    simp only [ha, Bool.true_eq_false, false_and, false_or, hid, not_false_eq_true,
      implies_true, and_true]
    -- what was never applied and what is loose were not declared by the last good run, so they stay
    constructor
    · rintro ⟨hc, hn⟩
      exact (hmem id hn).1 hc
    · rintro (⟨hb, hn⟩ | hl)
      · have hid' := notMem_lastApplied_of_never hn
        exact ⟨(hmem id hid').2 (.inl ⟨hb, hn⟩), hid'⟩
      · have hid' := hl.notMem_lastApplied
        exact ⟨(hmem id hid').2 (.inr hl), hid'⟩
  disk := by
    rwa [lastApplied_of_succeeded ha]

/-- One more real apply. -/
theorem apply {d : Declaration} {now : Timestamp} {fault : Option RemoteError}
    {failures : Operation → TargetId → Option RemoteError} {result : Except RunError RunResult}
    {log : List Notice} {rs : List Relation} (h : Tracked home d.owner before attempts w)
    (honest : ∀ operation id, failures operation id ≠ some .notFound)
    (known : fault ≠ some .notFound)
    (run : (Run.run (listing fault) home now d (.apply false)).run
      ⟨w.remote.refusing failures, w.disk⟩ = ⟨result, v, log⟩)
    (left : v.remote.relations? d.owner = some rs) :
    Tracked home d.owner before (attempts ++ [⟨d.desired, result.isOk, targets rs⟩]) v := by
  have he := Run.applyEnds (listing fault) home now d ⟨w.remote.refusing failures, w.disk⟩
  have hg : ∀ cs, w.remote.relations? d.owner = some cs →
      Grown d.owner (lastApplied attempts) d.desired cs v.remote := by
    intro cs hcs
    have hgrown := h.grown hcs now fault failures
    rwa [run] at hgrown
  rw [run] at he
  -- every way in which an apply ends badly only adds what was left on the list
  cases he with
  | unread load => exact h.failed rfl left rfl hg h.disk
  | failed load cycle hne => exact h.failed rfl left rfl hg h.disk
  | gone load cycle =>
    obtain ⟨cs, hcs, -⟩ := h.list
    exact absurd cycle
      (MemoryRemote.reconcile_ne_notFound (m := w.remote.refusing failures) hcs known _ _)
  | unsaved load cycle save => exact h.failed rfl left rfl hg (h.disk.save_error save)
  | @done s r t disk load cycle save =>
    have hp := h.disk.load load
    obtain rfl := MemoryRemote.fault_of_reconcile cycle
    obtain ⟨cs, after, hb, ha, -, hconv, -⟩ :=
      MemoryRemote.converged_of_reconcile (fun id => honest .delete id) cycle
    obtain rfl : after = rs := Option.some.inj (ha.symm.trans left)
    refine h.succeeded rfl left (fun cs' hc id hid => ?_) ?_
    · obtain rfl : cs = cs' := Option.some.inj (hb.symm.trans hc)
      rw [hconv.targets, List.mem_append, List.mem_filter, List.mem_filter, hp]
      simp [show id ∉ d.desired.targets from hid]
    · exact .inr ⟨now, d.desired, r.observation.view, StoredState.remembers_of_save save, rfl⟩

end Tracked

variable {home : Home} {owner : OwnerId} {before : List Relation} {start w : World MemoryRemote}

theorem tracked_of_attempts (fresh : StoredState.Forgotten home owner start.disk)
    (known : start.remote.relations? owner = some before)
    (h : Attempts home owner start attempts w) :
    Tracked home owner before attempts w := by
  induction h with
  | start => exact .nil fresh known
  | apply _ ho honest hl run left ih =>
    subst ho
    exact ih.apply honest hl run left

/-- A real apply leaves the owner a list, wherever it ends, so any of them can be the next
attempt. -/
theorem exists_left (fresh : StoredState.Forgotten home owner start.disk)
    (known : start.remote.relations? owner = some before) (h : Attempts home owner start attempts w)
    {d : Declaration} (ho : d.owner = owner) (now : Timestamp) (fault : Option RemoteError)
    (failures : Operation → TargetId → Option RemoteError) :
    ∃ rs, ((Run.run (listing fault) home now d (.apply false)).run
      ⟨w.remote.refusing failures, w.disk⟩).state.remote.relations? owner = some rs := by
  subst ho
  have ht := tracked_of_attempts fresh known h
  obtain ⟨cs, hcs, -⟩ := ht.list
  obtain ⟨rs, hrs, -⟩ := ht.grown hcs now fault failures
  exact ⟨rs, hrs⟩

/-- **What failed runs leave behind.**  After real applies of which the last one ended well, beside
what that one declared the list holds the targets from the start that no run that ended well
declared, and the loose ones: left there by a failed run while the last run that had ended well did
not declare them, and declared by no later run that ended well. -/
theorem attempts_leave (fresh : StoredState.Forgotten home owner start.disk)
    (known : start.remote.relations? owner = some before)
    (h : Attempts home owner start (earlier ++ [a]) w) (done : a.succeeded = true) :
    ∃ after, w.remote.relations? owner = some after ∧ ∀ id ∉ a.declared.targets,
      id ∈ targets after ↔
        (id ∈ targets before ∧ NeverApplied (earlier ++ [a]) id) ∨ Loose (earlier ++ [a]) id := by
  obtain ⟨after, hafter, hmem⟩ := (tracked_of_attempts fresh known h).list
  rw [lastApplied_of_succeeded done] at hmem
  exact ⟨after, hafter, hmem⟩

/-! ### A run that fails at its second relation -/

def looseHome : Home := ⟨"/home", ["home"]⟩

def looseStart : World MemoryRemote := ⟨.ofOwners [("app", [])], .empty⟩

def looseDeclaration : Declaration := ⟨⟨"app"⟩, ⟨[.bare ⟨"a"⟩, .bare ⟨"b"⟩], by decide, by decide⟩⟩

def looseFailures (operation : Operation) (id : TargetId) : Option RemoteError :=
  if operation = .upsert ∧ id = ⟨"b"⟩ then some (.unavailable "down") else none

/-- The run that fails. -/
def looseFirst : Outcome (World MemoryRemote) RunError RunResult :=
  (Run.run (listing none) looseHome ⟨0, 0⟩ looseDeclaration (.apply false)).run
    ⟨looseStart.remote.refusing looseFailures, looseStart.disk⟩

/-- A second run, which declares nothing. -/
def looseSecond : Outcome (World MemoryRemote) RunError RunResult :=
  (Run.run (listing none) looseHome ⟨1, 0⟩ ⟨⟨"app"⟩, .empty⟩ (.apply false)).run
    ⟨looseFirst.state.remote.refusing fun _ _ => none, looseFirst.state.disk⟩

theorem looseFailures_ne (operation : Operation) (id : TargetId) :
    looseFailures operation id ≠ some .notFound := by
  unfold looseFailures
  split <;> simp

theorem looseAttempts :
    Attempts looseHome ⟨"app"⟩ looseStart
      ([⟨looseDeclaration.desired, false, [⟨"a"⟩]⟩] ++ [⟨.empty, true, [⟨"a"⟩]⟩])
        looseSecond.state := by
  have known : (none : Option RemoteError) ≠ some .notFound := nofun
  have hfirst : looseFirst = ⟨looseFirst.result, looseFirst.state, looseFirst.log⟩ := rfl
  have hleft : looseFirst.state.remote.relations? ⟨"app"⟩ = some [.bare ⟨"a"⟩] := rfl
  have h1 := Attempts.apply .start (show looseDeclaration.owner = ⟨"app"⟩ from rfl) looseFailures_ne
    known hfirst hleft
  have hnone : ∀ operation id,
      (fun _ _ => none : Operation → TargetId → Option RemoteError) operation id ≠
        some .notFound := fun _ _ => nofun
  have hsecond : looseSecond = ⟨looseSecond.result, looseSecond.state, looseSecond.log⟩ := rfl
  have hleft' : looseSecond.state.remote.relations? ⟨"app"⟩ = some [.bare ⟨"a"⟩] := rfl
  exact Attempts.apply h1 (show (⟨⟨"app"⟩, .empty⟩ : Declaration).owner = ⟨"app"⟩ from rfl)
    hnone known hsecond hleft'

/-- A run that ends well may leave a relation that only a failed run sent. -/
theorem not_only_initial_left :
    ¬∀ (home : Home) (owner : OwnerId) (start w : World MemoryRemote) (before after : List Relation)
      (earlier : List Attempt) (a : Attempt), StoredState.Forgotten home owner start.disk →
      start.remote.relations? owner = some before →
      Attempts home owner start (earlier ++ [a]) w → a.succeeded = true →
      w.remote.relations? owner = some after →
      ∀ id ∈ targets after, id ∉ a.declared.targets → id ∈ targets before := by
  intro h
  have hleft : looseSecond.state.remote.relations? ⟨"app"⟩ = some [.bare ⟨"a"⟩] := rfl
  have hmem :=
    h looseHome ⟨"app"⟩ looseStart looseSecond.state [] [.bare ⟨"a"⟩] _ _ rfl rfl looseAttempts
    rfl hleft ⟨"a"⟩ (by decide) (by decide)
  exact absurd hmem (by decide)

theorem attempts_leave_sample :
    ∃ after, looseSecond.state.remote.relations? ⟨"app"⟩ = some after ∧ ⟨"a"⟩ ∈ targets after ∧
      Loose [⟨looseDeclaration.desired, false, [⟨"a"⟩]⟩, ⟨.empty, true, [⟨"a"⟩]⟩] ⟨"a"⟩ := by
  have fresh : StoredState.Forgotten looseHome ⟨"app"⟩ looseStart.disk := rfl
  have known : looseStart.remote.relations? ⟨"app"⟩ = some [] := rfl
  have hleft : looseSecond.state.remote.relations? ⟨"app"⟩ = some [.bare ⟨"a"⟩] := rfl
  obtain ⟨after, hafter, hmem⟩ := attempts_leave fresh known looseAttempts rfl
  obtain rfl : [.bare ⟨"a"⟩] = after := Option.some.inj (hleft.symm.trans hafter)
  refine ⟨_, hafter, by decide, ?_⟩
  rcases (hmem ⟨"a"⟩ (by decide)).1 (by decide) with ⟨h, -⟩ | h
  · cases h
  · exact h

end Roster
