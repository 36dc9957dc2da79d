/-
Owners that are gone.

A remote in memory that does not know an owner answers every delete with an absence, which is no
failure, refuses the first relation that is sent, and refuses the list.  So a look finds out that
the owner is gone and forgets it, and so does a real apply of a declaration that declares nothing.
A real apply of any other declaration fails at its first relation, which is not taken for the
owner's absence: the run ends with the refusal, and what is remembered stays.

* `Findable`: nothing but its absence keeps the file of an owner from being found;
* `reconcile_of_noOwner`: the two ways in which the cycle fails;
* `forgets_iff`: which runs forget an owner that is gone.
-/
import Roster.Proofs.Convergence
import Roster.Proofs.Run

namespace Roster

open Roster.MemoryRemote (remote)

namespace MemoryRemote

variable {m n : MemoryRemote} {owner : OwnerId}

/-- Of some relations that are sent to an owner that is not there the first one is refused. -/
theorem fails_upsertAll_of_noOwner {r : Relation} (hf : m.failures .upsert r.target = none)
    (hr : m.relations? owner = none) (rest : List Relation) :
    (Batch.upsertAll remote owner false (r :: rest)).Fails m ⟨.upsert, r.target, .notFound⟩
      (m.record (.upsert owner r.target)) := by
  simp only [Batch.upsertAll, Bool.false_eq_true, if_false, List.mapM_cons]
  refine Action.fails_bind.2 (.inl (Batch.fails_upsertOne.2 ⟨.notFound, ?_, rfl⟩))
  exact upsert_of_noOwner hf hr

/-- A cycle for an owner that is not there fails: at the list if nothing is declared, and else at
the first declared relation. -/
theorem reconcile_of_noOwner (sound : ∀ operation id, m.failures operation id = none)
    (hr : m.relations? owner = none) (previous desired : DesiredSet) (prior : List Relation) :
    ((Cycle.reconcile remote owner false previous desired prior).run m).result =
      .error (match desired.relations with
        | [] => .ownerNotFound owner
        | r :: _ => .batch ⟨.upsert, r.target, .notFound⟩) := by
  -- the deletes end well, and the owner is still not there
  obtain ⟨ds, k, hd⟩ :=
    exists_yields_deleteAll (sound .delete) owner (Plan.between previous desired).toDelete
  obtain ⟨hs, hk⟩ := relations?_deleteAll (fun id => by simp [sound]) hd
  rw [hr, Option.map_none] at hk
  cases hds : desired.relations with
  | nil =>
    have hu : (Batch.upsertAll remote owner false (Plan.between previous desired).toUpsert).Yields k
        [] k := by
      rw [show (Plan.between previous desired).toUpsert = [] from hds]
      exact Action.yields_mapM_nil.2 ⟨rfl, rfl⟩
    have hb := Batch.yields_apply.2 ⟨ds, k, [], hd, hu, rfl⟩
    have hlist := list_of_noOwner hk
    exact (Cycle.fails_reconcile.2 (.inr ⟨_, k, .notFound, hb, hlist, rfl⟩)).1
  | cons r rest =>
    have hu : (Batch.upsertAll remote owner false (Plan.between previous desired).toUpsert).Fails k
        ⟨.upsert, r.target, .notFound⟩ (k.record (.upsert owner r.target)) := by
      rw [show (Plan.between previous desired).toUpsert = r :: rest from hds]
      exact fails_upsertAll_of_noOwner (by rw [hs.failures, sound]) hk rest
    have hb := Batch.fails_apply.2 (.inr ⟨ds, k, hd, hu⟩)
    exact (Cycle.fails_reconcile.2 (.inl ⟨_, hb, rfl⟩)).1

end MemoryRemote

namespace StoredState

/-- Nothing but its absence keeps the file of the owner from being found. -/
def Findable (home : Home) (owner : OwnerId) (d : Disk) : Prop :=
  ∀ cause, d.entry (location home owner) = .error cause → cause = .notFound

variable {home : Home} {owner : OwnerId} {d : Disk} {s : StoredState}

theorem findable_of_isStored (h : isStored home owner d = true) : Findable home owner d := by
  intro cause he
  rw [isStored_eq_false he] at h
  cases h

/-- Where a state can be loaded, removing ends well unless the file could not be found. -/
theorem exists_yields_remove_iff (load : load home owner d = .ok s) :
    (∃ removed e, (remove home owner).Yields d removed e) ↔ Findable home owner d := by
  rcases remove_cases home owner d with ⟨x, he, hc⟩ | ⟨he, hc⟩ | ⟨cause, hc, he⟩
  · refine iff_of_true ⟨true, _, by rw [Action.Yields, hc]; exact ⟨rfl, rfl⟩⟩ fun cause h => ?_
    rw [he] at h
    cases h
  · refine iff_of_true ⟨false, _, by rw [Action.Yields, hc]; exact ⟨rfl, rfl⟩⟩ fun cause h => ?_
    rw [he] at h
    exact (Except.error.inj h).symm
  · refine iff_of_false (fun h => ?_) fun h => ?_
    · obtain ⟨removed, e, h⟩ := h
      rw [Action.Yields, hc] at h
      cases h.1
    · rcases he with ⟨he, hne⟩ | he
      · exact hne (h cause he)
      · -- a directory in the place of the file cannot be loaded
        have hstored := isStored_of_entry he
        have hread : d.read (location home owner) = .error .isDirectory := by simp [Disk.read, he]
        rw [StoredState.load, if_pos hstored, hread] at load
        cases load

end StoredState

namespace Run

variable {σ : Type} {home : Home} {owner : OwnerId} {disk : Disk}

theorem goneError_eq_iff :
    goneError home owner disk = .cycle (.ownerNotFound owner) ↔
      ∃ removed e, (StoredState.remove home owner).Yields disk removed e := by
  unfold goneError
  rcases Action.yields_or_fails (StoredState.remove home owner) disk with
      ⟨removed, e, h⟩ | ⟨error, e, h⟩
  · rw [h.result]
    exact iff_of_true rfl ⟨removed, e, h⟩
  · rw [h.1]
    refine iff_of_false nofun fun ⟨removed, e', h'⟩ => ?_
    rw [Action.Yields, h.1] at h'
    cases h'.1

/-- The run ends because the owner is gone, and leaves nothing that is remembered of it. -/
def Forgets (home : Home) (owner : OwnerId) (o : Outcome (World σ) RunError RunResult) : Prop :=
  o.result = .error (.cycle (.ownerNotFound owner)) ∧
    StoredState.isStored home owner o.state.disk = false

/-- A run that finds the owner gone forgets it, unless its file could not be found. -/
theorem forgets_gone_iff {s : StoredState} {v : World σ} {log : List Notice}
    (load : StoredState.load home owner disk = .ok s)
    (hv : v.disk = ((StoredState.remove home owner).run disk).state) :
    Forgets home owner ⟨.error (goneError home owner disk), v, log⟩ ↔
      StoredState.Findable home owner disk := by
  rw [← StoredState.exists_yields_remove_iff load, ← goneError_eq_iff]
  refine ⟨fun h => Except.error.inj h.1, fun h => ⟨congrArg Except.error h, ?_⟩⟩
  obtain ⟨removed, e, hr⟩ := goneError_eq_iff.1 h
  rw [hv, hr.state]
  exact StoredState.not_isStored_of_remove hr

variable {m : MemoryRemote} {now : Timestamp} {d : Declaration} {s : StoredState}

theorem forgets_look_iff (load : StoredState.load home d.owner disk = .ok s)
    (gone : m.relations? d.owner = none) (now : Timestamp) :
    Forgets home d.owner ((run remote home now d .read).run ⟨m, disk⟩) ↔
      StoredState.Findable home d.owner disk := by
  have hlist := MemoryRemote.list_of_noOwner gone
  have he := lookEnds remote home now d ⟨m, disk⟩
  rcases hv : (run remote home now d .read).run ⟨m, disk⟩ with ⟨result, v, log⟩
  rw [hv] at he
  -- the list can only be answered with the absence of the owner
  cases he with
  | unread load' =>
    cases load.symm.trans load'
  | failed _ list known =>
    cases hlist.symm.trans list
    exact absurd rfl known
  | gone => exact forgets_gone_iff load rfl
  | done _ list => cases hlist.symm.trans list

/-- A real apply of an owner that is gone, of a declaration that declares nothing. -/
theorem forgets_apply_iff (load : StoredState.load home d.owner disk = .ok s)
    (gone : m.relations? d.owner = none) (sound : ∀ operation id, m.failures operation id = none)
    (nothing : d.desired.relations = []) (now : Timestamp) :
    Forgets home d.owner ((run remote home now d (.apply false)).run ⟨m, disk⟩) ↔
      StoredState.Findable home d.owner disk := by
  have hcycle := MemoryRemote.reconcile_of_noOwner sound gone s.declared d.desired s.view
  rw [nothing] at hcycle
  have he := applyEnds remote home now d ⟨m, disk⟩
  rcases hv : (run remote home now d (.apply false)).run ⟨m, disk⟩ with ⟨result, v, log⟩
  rw [hv] at he
  -- with nothing to send, the cycle gets as far as the list, which finds the owner gone
  cases he with
  | unread load' => cases load.symm.trans load'
  | failed load' cycle known =>
    obtain rfl := Except.ok.inj (load.symm.trans load')
    exact absurd (Except.error.inj (cycle.symm.trans hcycle)) (known d.owner)
  | gone load' cycle =>
    obtain rfl := Cycle.owner_of_reconcile cycle
    exact forgets_gone_iff load rfl
  | unsaved load' cycle | done load' cycle =>
    obtain rfl := Except.ok.inj (load.symm.trans load')
    cases hcycle.symm.trans cycle.result

/-- A real apply of an owner that is gone, of a declaration that declares something. -/
theorem refused_apply {r : Relation} {rest : List Relation}
    (load : StoredState.load home d.owner disk = .ok s) (gone : m.relations? d.owner = none)
    (sound : ∀ operation id, m.failures operation id = none)
    (something : d.desired.relations = r :: rest) (now : Timestamp) :
    ((run remote home now d (.apply false)).run ⟨m, disk⟩).result =
        .error (.cycle (.batch ⟨.upsert, r.target, .notFound⟩)) ∧
      ((run remote home now d (.apply false)).run ⟨m, disk⟩).state.disk = disk := by
  have hcycle := MemoryRemote.reconcile_of_noOwner sound gone s.declared d.desired s.view
  rw [something] at hcycle
  have he := applyEnds remote home now d ⟨m, disk⟩
  rcases hv : (run remote home now d (.apply false)).run ⟨m, disk⟩ with ⟨result, v, log⟩
  rw [hv] at he
  -- the first upsert is refused for want of the owner, which is a failure of the batch
  cases he with
  | unread load' => cases load.symm.trans load'
  | failed load' cycle =>
    obtain rfl := Except.ok.inj (load.symm.trans load')
    cases cycle.symm.trans hcycle
    exact ⟨rfl, rfl⟩
  | gone load' cycle =>
    obtain rfl := Except.ok.inj (load.symm.trans load')
    cases hcycle.symm.trans cycle
  | unsaved load' cycle | done load' cycle =>
    obtain rfl := Except.ok.inj (load.symm.trans load')
    cases hcycle.symm.trans cycle.result

end Run

open Run (Forgets)

/-- **Which runs forget an owner that is gone.**  A look does, unless the owner's file could not
even be looked for, and then nothing is stored either; a real apply does so only if nothing is
declared, and otherwise ends with the refusal of the first declared relation and keeps what is
remembered. -/
theorem forgets_iff {m : MemoryRemote} {home : Home} {d : Declaration} {disk : Disk}
    {s : StoredState} (load : StoredState.load home d.owner disk = .ok s)
    (gone : m.relations? d.owner = none) (sound : ∀ operation id, m.failures operation id = none)
    (now : Timestamp) :
    let look := (Run.run remote home now d .read).run ⟨m, disk⟩
    let applied := (Run.run remote home now d (.apply false)).run ⟨m, disk⟩
    (Forgets home d.owner look ↔ StoredState.Findable home d.owner disk) ∧
      (Forgets home d.owner applied ↔
        StoredState.Findable home d.owner disk ∧ d.desired.relations = []) ∧
      ∀ r rest, d.desired.relations = r :: rest →
        applied.result = .error (.cycle (.batch ⟨.upsert, r.target, .notFound⟩)) ∧
          applied.state.disk = disk := by
  intro look applied
  refine ⟨Run.forgets_look_iff load gone now, ?_,
    fun r rest h => Run.refused_apply load gone sound h now⟩
  cases hd : d.desired.relations with
  | nil =>
    rw [Run.forgets_apply_iff load gone sound hd now]
    exact (and_iff_left rfl).symm
  | cons r rest =>
    have hr := (Run.refused_apply load gone sound hd now).1
    refine iff_of_false (fun h => ?_) (fun h => by cases h.2)
    cases hr.symm.trans h.1

/-! ### An owner that is remembered and gone -/

def goneHome : Home := ⟨"/home", ["home"]⟩

/-- A home that remembers the owner. -/
def goneDisk : Disk :=
  Disk.empty.withFile (StoredState.location goneHome ⟨"app"⟩) (.text "\x7b\"owner\":\"app\"\x7d")

def goneDeclaration : Declaration :=
  ⟨⟨"app"⟩, ⟨[.bare ⟨"a"⟩], sampleBare_named, sampleBare_distinct⟩⟩

theorem forgets_iff_sample :
    StoredState.isStored goneHome ⟨"app"⟩ goneDisk = true ∧
      Forgets goneHome ⟨"app"⟩
        ((Run.run remote goneHome ⟨0, 0⟩ goneDeclaration .read).run ⟨.empty, goneDisk⟩) ∧
      ((Run.run remote goneHome ⟨0, 0⟩ goneDeclaration (.apply false)).run
        ⟨.empty, goneDisk⟩).result =
        .error (.cycle (.batch ⟨.upsert, ⟨"a"⟩, .notFound⟩)) ∧
      StoredState.isStored goneHome ⟨"app"⟩
        ((Run.run remote goneHome ⟨0, 0⟩ goneDeclaration (.apply false)).run
          ⟨.empty, goneDisk⟩).state.disk = true := by
  have hstored : StoredState.isStored goneHome ⟨"app"⟩ goneDisk = true := by decide
  obtain ⟨s, hs⟩ : ∃ s, StoredState.load goneHome ⟨"app"⟩ goneDisk = .ok s := ⟨_, rfl⟩
  have hgone : MemoryRemote.empty.relations? ⟨"app"⟩ = none := by rfl
  obtain ⟨hlook, -, hrefused⟩ := forgets_iff (d := goneDeclaration) hs hgone (fun _ _ => rfl) ⟨0, 0⟩
  obtain ⟨hresult, hdisk⟩ := hrefused _ _ rfl
  exact ⟨hstored, hlook.2 (StoredState.findable_of_isStored hstored), hresult, hdisk ▸ hstored⟩

end Roster
