/-
Histories of successful runs.

A real apply that ends well leaves the remote as declared and remembers the declaration, and the
next one deletes what was remembered and is declared no more.  Over a whole history the remote so
holds what was declared last, and of what it held at the start all that was never declared.

* `History`: real applies that end well, with anything between them that may not change the remote;
* `Settled`, `Settled.step`: how the list compares with the first one, and what one more apply makes
  of it;
* `Kept`, `kept_of_history`: the same for a whole history, with what is remembered after it;
* `history_settles`: where a history leaves the remote and the disk, and a destroy after it.
-/
import Roster.Proofs.Convergence
import Roster.Proofs.Run
import Roster.Proofs.StateText

namespace Roster

open Roster.Relation
open MemoryRemote (undeclared survives SameSettings Converged)

/-- What was applied, and what it came to, in order. -/
abbrev Applies := List (DesiredSet × Reconciliation)

/-- The histories of an owner: real applies that end well and whose state can be read back, and
between them runs that may not change the remote and previews, of any declarations of the owner. -/
inductive History (home : Home) (owner : OwnerId) (start : World MemoryRemote) :
    Applies → World MemoryRemote → Prop
  | start : History home owner start [] start
  | apply {applies : Applies} {w v : World MemoryRemote} {now : Timestamp} {d : Declaration}
      {r : Reconciliation} (h : History home owner start applies w) (ho : d.owner = owner)
      (run : (Run.run MemoryRemote.remote home now d (.apply false)).Yields w (.reconciled r) v)
      (readsBack : StoredState.load home owner v.disk = .ok (Run.remembered now d r)) :
      History home owner start (applies ++ [(d.desired, r)]) v
  | look {applies : Applies} {w : World MemoryRemote} {d : Declaration} {mode : Mode}
      (h : History home owner start applies w) (ho : d.owner = owner) (hm : mode.changes = false)
      (now : Timestamp) :
      History home owner start applies ((Run.run MemoryRemote.remote home now d mode).run w).state
  | preview {applies : Applies} {w : World MemoryRemote} {d : Declaration}
      {p : Except StateError Preview} (h : History home owner start applies w)
      (ho : d.owner = owner)
      (hp : Run.preview home d w.disk = p) : History home owner start applies w

namespace Applies

/-- Whether a target was never declared. -/
def never (applies : Applies) (id : TargetId) : Bool := decide (∀ a ∈ applies, id ∉ a.1.targets)

/-- The set that was applied last. -/
def last (applies : Applies) : DesiredSet := applies.getLast?.elim .empty Prod.fst

variable {applies : Applies} {desired : DesiredSet} {r : Reconciliation} {id : TargetId}

theorem last_concat : last (applies ++ [(desired, r)]) = desired := by simp [last]

theorem never_iff : applies.never id = true ↔ ∀ a ∈ applies, id ∉ a.1.targets := decide_eq_true_iff

theorem never_concat (applies : Applies) (desired : DesiredSet) (r : Reconciliation)
    (id : TargetId) :
    never (applies ++ [(desired, r)]) id = (applies.never id && undeclared desired id) := by
  rw [Bool.eq_iff_iff, Bool.and_eq_true, never_iff, never_iff]
  simp only [List.mem_append, List.mem_singleton, undeclared, decide_eq_true_eq]
  constructor
  · exact fun h => ⟨fun a ha => h a (.inl ha), h _ (.inr rfl)⟩
  · rintro ⟨h, hd⟩ a (ha | rfl)
    · exact h a ha
    · exact hd

theorem notMem_last_of_never (h : applies.never id = true) : id ∉ applies.last.targets := by
  unfold last
  cases ha : applies.getLast? with
  | none => exact List.not_mem_nil
  | some a => exact never_iff.1 h a (List.mem_of_getLast? ha)

/-- What was never declared in a longer history was not before, and is not now. -/
theorem part_never_concat (applies : Applies) (desired : DesiredSet) (r : Reconciliation)
    (relations : List Relation) :
    part (never (applies ++ [(desired, r)])) relations =
      part applies.never (part (undeclared desired) relations) := by
  rw [part_part]
  exact part_congr fun id _ => never_concat applies desired r id

/-- What was never declared survives the next apply unless that one declares it. -/
theorem part_never_survives (applies : Applies) (desired : DesiredSet) (r : Reconciliation)
    (relations : List Relation) :
    part applies.never (part (survives applies.last desired) relations) =
      part (never (applies ++ [(desired, r)])) relations := by
  rw [part_part]
  refine part_congr fun id _ => ?_
  rw [never_concat]
  cases hn : applies.never id with
  | false => rfl
  | true => simp [survives, undeclared, notMem_last_of_never hn]

end Applies

open Applies (never last)

/-- How the list `after` some applies compares with the list `before` them, on a remote with the
settings of `m`. -/
structure Settled (m : MemoryRemote) (applies : Applies) (before after : List Relation) : Prop where
  nodup : (targets after).Nodup
  mem_iff : ∀ id, id ∈ targets after ↔
    (id ∈ targets before ∧ applies.never id = true) ∨ id ∈ applies.last.targets
  cores : cores (part applies.never after) = cores (part applies.never before)
  untouched : m.compacting = false → part applies.never after = part applies.never before

namespace Settled

variable {m : MemoryRemote} {applies : Applies} {before middle after : List Relation}
  {desired : DesiredSet} {r : Reconciliation}

theorem nil (hd : (targets before).Nodup) : Settled m [] before before where
  nodup := hd
  mem_iff id := by simp [never, last, DesiredSet.targets, DesiredSet.empty]
  cores := rfl
  untouched _ := rfl

/-- One more apply. -/
theorem step (h : Settled m applies before middle)
    (hc : Converged m applies.last desired middle after) :
    Settled m (applies ++ [(desired, r)]) before after where
  nodup := hc.nodup h.nodup
  mem_iff id := by
    rw [hc.targets, Applies.last_concat, Applies.never_concat, List.mem_append, List.mem_filter,
      List.mem_filter]
    -- what is declared now is on the list in any case: it stayed, or it is new
    by_cases hd : id ∈ desired.targets
    · simp only [hd, or_true, decide_true, and_true, true_and, decide_eq_true_eq, iff_true]
      exact Decidable.em _
    · simp only [hd, or_false, false_and, decide_eq_true_eq, undeclared, not_false_eq_true,
        decide_true, Bool.and_true, h.mem_iff]
      -- what was declared last is deleted, and of the rest nothing was ever declared
      constructor
      · rintro ⟨hm | hl, hn⟩
        · exact hm
        · exact absurd hl hn
      · exact fun hm => ⟨.inl hm, Applies.notMem_last_of_never hm.2⟩
  cores := calc
    _ = Relation.cores (part applies.never (part (undeclared desired) after)) := by
      rw [Applies.part_never_concat]
    _ = Relation.cores (part applies.never (part (survives applies.last desired) middle)) :=
      cores_part_congr hc.survivors _
    _ = Relation.cores (part (undeclared desired) (part applies.never middle)) := by
      rw [Applies.part_never_survives _ _ r, Applies.part_never_concat, part_comm]
    _ = Relation.cores (part (undeclared desired) (part applies.never before)) :=
      cores_part_congr h.cores _
    _ = _ := by rw [Applies.part_never_concat, part_comm]
  untouched hn := calc
    _ = part applies.never (part (undeclared desired) after) := Applies.part_never_concat ..
    _ = part applies.never (part (survives applies.last desired) middle) := by rw [hc.untouched hn]
    _ = part (undeclared desired) (part applies.never middle) := by
      rw [Applies.part_never_survives _ _ r, Applies.part_never_concat, part_comm]
    _ = part (undeclared desired) (part applies.never before) := by rw [h.untouched hn]
    _ = _ := by rw [Applies.part_never_concat, part_comm]

/-- What was not declared last was never declared. -/
theorem part_undeclared (h : Settled m (applies ++ [(desired, r)]) before after) :
    part (undeclared desired) after = part (never (applies ++ [(desired, r)])) after := by
  refine part_congr fun id hid => ?_
  rcases (h.mem_iff id).1 hid with ⟨-, hn⟩ | hl
  · rw [hn]
    have := Applies.notMem_last_of_never hn
    rw [Applies.last_concat] at this
    exact decide_eq_true this
  · rw [Applies.last_concat] at hl
    rw [Applies.never_concat]
    simp [undeclared, hl]

end Settled

/-- How the world `w` after some applies compares with the world `start` before them. -/
structure Kept (home : Home) (owner : OwnerId) (start : World MemoryRemote) (before : List Relation)
    (applies : Applies) (w : World MemoryRemote) : Prop where
  settings : SameSettings start.remote w.remote
  list : ∃ after, w.remote.relations? owner = some after ∧ Settled start.remote applies before after
  load : ∃ s, StoredState.load home owner w.disk = .ok s ∧ s.declared = applies.last
  file : applies ≠ [] → ∃ text, StoredState.Remembers home owner text w.disk
  drift : ∀ a ∈ applies.getLast?, a.2.observation.drift = targets (part applies.never before)

variable {home : Home} {owner : OwnerId} {start w : World MemoryRemote} {before : List Relation}
  {applies : Applies} {d : Declaration} {now : Timestamp}

theorem Kept.nil (fresh : StoredState.isStored home owner start.disk = false)
    (known : start.remote.relations? owner = some before) (distinct : (targets before).Nodup) :
    Kept home owner start before [] start where
  settings := .refl start.remote
  list := ⟨before, known, .nil distinct⟩
  load := ⟨.empty, by simp [StoredState.load, fresh], rfl⟩
  file h := absurd rfl h
  drift := nofun

/-- One more apply, of which the drift is what was never declared. -/
theorem Kept.apply {v : World MemoryRemote} {r : Reconciliation}
    (honest : ∀ id, start.remote.failures .delete id ≠ some .notFound)
    (h : Kept home d.owner start before applies w)
    (run : (Run.run MemoryRemote.remote home now d (.apply false)).Yields w (.reconciled r) v)
    (readsBack : StoredState.load home d.owner v.disk = .ok (Run.remembered now d r)) :
    Kept home d.owner start before (applies ++ [(d.desired, r)]) v := by
  obtain ⟨s, q, disk, hq, hload, hcycle, hsave, rfl⟩ := Run.yields_apply run
  obtain rfl : r = q := RunResult.reconciled.inj hq
  obtain ⟨s', hs', hlast⟩ := h.load
  -- the run loaded what the history had left, so it started from the set applied last
  obtain rfl : s = s' := Except.ok.inj (hload.symm.trans hs')
  obtain ⟨middle, hmiddle, hsettled⟩ := h.list
  rw [hlast] at hcycle
  have honest' : ∀ id, w.remote.failures .delete id ≠ some .notFound := by
    rwa [h.settings.failures]
  obtain ⟨_, after, hm, hafter, hsame, hconv, hobs⟩ :=
    MemoryRemote.converged_of_reconcile honest' hcycle
  obtain rfl : middle = _ := Option.some.inj (hmiddle.symm.trans hm)
  have hstep := hsettled.step (r := r) (hconv.of_same h.settings)
  refine ⟨h.settings.trans hsame, ⟨after, hafter, hstep⟩,
    ⟨_, readsBack, Applies.last_concat.symm⟩, ?_, ?_⟩
  · exact fun _ => ⟨_, StoredState.remembers_of_save hsave⟩
  · rintro a ha
    rw [List.getLast?_concat, Option.mem_some_iff] at ha
    subst ha
    rw [hobs,
      (Observation.complete_of hstep.nodup (fun id hid => hconv.mem_targets hid) s.view).drift,
      hstep.part_undeclared]
    exact targets_eq_of_cores hstep.cores

/-- A run that may not change the remote. -/
theorem Kept.look {mode : Mode} (h : Kept home d.owner start before applies w)
    (hm : mode.changes = false) (now : Timestamp) :
    Kept home d.owner start before applies
      ((Run.run MemoryRemote.remote home now d mode).run w).state := by
  obtain ⟨after, hafter, hsettled⟩ := h.list
  have hlist := MemoryRemote.list_of_owner hafter
  -- listing keeps the settings and the list, and the owner is known
  let P : MemoryRemote → Prop := fun n => SameSettings w.remote n ∧
    n.relations? d.owner = some after
  have hP : P (MemoryRemote.remote.list d.owner w.remote).2 := by
    rw [hlist]
    exact ⟨⟨rfl, rfl, rfl⟩, hafter⟩
  have known : (MemoryRemote.remote.list d.owner w.remote).1 ≠ .error .notFound := by
    rw [hlist]
    exact nofun
  have hw : P w.remote := ⟨.refl _, hafter⟩
  obtain ⟨⟨hsame, hrel⟩, hdisk⟩ := Run.kept_of_not_changes hm hw hP known
  refine ⟨h.settings.trans hsame, ⟨after, hrel, hsettled⟩, ?_, ?_, h.drift⟩
  · rw [hdisk]
    exact h.load
  · rw [hdisk]
    exact h.file

theorem kept_of_history (fresh : StoredState.isStored home owner start.disk = false)
    (known : start.remote.relations? owner = some before) (distinct : (targets before).Nodup)
    (honest : ∀ id, start.remote.failures .delete id ≠ some .notFound)
    (h : History home owner start applies w) : Kept home owner start before applies w := by
  induction h with
  | start => exact .nil fresh known distinct
  | apply _ ho run readsBack ih =>
    subst ho
    exact ih.apply honest run readsBack
  | look _ ho hm now ih =>
    subst ho
    exact ih.look hm now
  | preview _ _ _ ih => exact ih

/-- Destroying what was declared last leaves what was never declared, and nothing is remembered. -/
theorem Kept.destroy (sound : ∀ id, start.remote.failures .delete id = none)
    (h : Kept home d.owner start before applies w) (hne : applies ≠ [])
    (hd : d.desired = applies.last) (now : Timestamp) :
    ∃ as v left,
      (Run.run MemoryRemote.remote home now d (.destroy false)).Yields w (.destroyed as) v ∧
      v.remote.relations? d.owner = some left ∧
      (∀ after, w.remote.relations? d.owner = some after → left = part applies.never after) ∧
      StoredState.isStored home d.owner v.disk = false := by
  obtain ⟨after, hafter, hsettled⟩ := h.list
  obtain ⟨s, hs, -⟩ := h.load
  obtain ⟨text, htext⟩ := h.file hne
  have hf : ∀ id, w.remote.failures .delete id = none := by rwa [h.settings.failures]
  obtain ⟨as, n, hdel⟩ := MemoryRemote.exists_yields_deleteAll hf d.owner d.desired.targets
  obtain ⟨-, hn⟩ := MemoryRemote.relations?_deleteAll (fun id => by rw [hf]; exact nofun) hdel
  obtain ⟨hrem, hforgot⟩ := StoredState.forgets_of_remove htext
  refine ⟨as, _, _, Run.yields_destroy hs hdel hrem, hn.trans (by rw [hafter]; rfl), ?_, ?_⟩
  · rintro _ ha
    obtain rfl := Option.some.inj (hafter.symm.trans ha)
    refine part_congr fun id hid => ?_
    -- of what the list holds, what was not declared last was never declared
    rw [hd, Bool.eq_iff_iff, decide_eq_true_eq]
    refine ⟨fun hl => ?_, Applies.notMem_last_of_never⟩
    rcases (hsettled.mem_iff id).1 hid with ⟨-, hn⟩ | hm
    · exact hn
    · exact absurd hm hl
  · exact StoredState.not_isStored_of_forgotten hforgot

/-- **Successful runs converge.**  Runs that end well, starting with nothing remembered, leave
exactly the targets that were declared last and, of those at the start, the ones that were never
declared: these are the drift, in their old order and with what they held.  The last declaration is
remembered, and destroying it leaves what was never declared and nothing remembered. -/
theorem history_settles {earlier : Applies} {desired : DesiredSet} {r : Reconciliation}
    (fresh : StoredState.isStored home owner start.disk = false)
    (known : start.remote.relations? owner = some before) (distinct : (targets before).Nodup)
    (sound : ∀ operation id, start.remote.failures operation id = none)
    (h : History home owner start (earlier ++ [(desired, r)]) w) :
    ∃ after, w.remote.relations? owner = some after ∧ (targets after).Nodup ∧
      (∀ id, id ∈ targets after ↔
        (id ∈ targets before ∧ never (earlier ++ [(desired, r)]) id = true) ∨
        id ∈ desired.targets) ∧
      cores (part (never (earlier ++ [(desired, r)])) after) =
        cores (part (never (earlier ++ [(desired, r)])) before) ∧
      (start.remote.compacting = false →
        part (never (earlier ++ [(desired, r)])) after =
          part (never (earlier ++ [(desired, r)])) before) ∧
      (∃ s, StoredState.load home owner w.disk = .ok s ∧ s.declared = desired) ∧
      r.observation.drift = targets (part (never (earlier ++ [(desired, r)])) before) ∧
      ∀ now (d : Declaration), d.owner = owner → d.desired = desired →
        ∃ as v,
          (Run.run MemoryRemote.remote home now d (.destroy false)).Yields w (.destroyed as) v ∧
          v.remote.relations? owner = some (part (never (earlier ++ [(desired, r)])) after) ∧
          StoredState.isStored home owner v.disk = false := by
  have hk := kept_of_history fresh known distinct (fun id => by rw [sound]; exact nofun) h
  -- what every step keeps, read for a history whose last apply is this one
  obtain ⟨after, hafter, hsettled⟩ := hk.list
  have hmem := hsettled.mem_iff
  have hload := hk.load
  rw [Applies.last_concat] at hmem hload
  refine ⟨after, hafter, hsettled.nodup, hmem, hsettled.cores, hsettled.untouched, hload, ?_, ?_⟩
  · exact hk.drift (desired, r) List.getLast?_concat
  · rintro now d rfl hd
    have hlast : d.desired = last (earlier ++ [(desired, r)]) := hd.trans Applies.last_concat.symm
    obtain ⟨as, v, left, hrun, hleft, hpart, hforgot⟩ :=
      hk.destroy (fun id => sound .delete id) (by simp) hlast now
    exact ⟨as, v, hrun, hleft.trans (congrArg some (hpart after hafter)), hforgot⟩

/-! ### An apply and a look -/

def settledHome : Home := ⟨"/", []⟩

def settledStart : World MemoryRemote := ⟨.ofOwners [("app", [.bare ⟨"b"⟩])], .empty⟩

def settledDeclaration : Declaration :=
  ⟨⟨"app"⟩, ⟨[.bare ⟨"a"⟩], sampleBare_named, sampleBare_distinct⟩⟩

/-- The world after an apply. -/
def settledWorld : World MemoryRemote :=
  ((Run.run MemoryRemote.remote settledHome ⟨0, 0⟩ settledDeclaration (.apply false)).run
    settledStart).state

theorem exists_settledHistory : ∃ r, History settledHome ⟨"app"⟩ settledStart
    ([] ++ [(settledDeclaration.desired, r)])
    ((Run.run MemoryRemote.remote settledHome ⟨1, 0⟩ settledDeclaration .read).run
      settledWorld).state := by
  obtain ⟨r, run, hview⟩ : ∃ r : Reconciliation,
      (Run.run MemoryRemote.remote settledHome ⟨0, 0⟩ settledDeclaration (.apply false)).Yields
        settledStart (.reconciled r) settledWorld ∧
      r.observation.view = [.bare ⟨"a"⟩, .bare ⟨"b"⟩] :=
    ⟨_, ⟨rfl, rfl⟩, rfl⟩
  obtain ⟨s, q, disk, hq, -, -, hsave, hdisk⟩ := Run.yields_apply run
  obtain rfl : r = q := RunResult.reconciled.inj hq
  obtain rfl : settledWorld.disk = disk := hdisk
  have htime : Timestamp.read? (Timestamp.text ⟨0, 0⟩) = some ⟨0, 0⟩ := by decide +kernel
  have hbare : ∀ id, WireRelation.reread 125 (.bare id) = some (.bare id) := fun id =>
    WireRelation.reread_eq_some ⟨nofun, List.Pairwise.nil, trivial⟩ ⟨trivial, trivial⟩
      (show 1 ≤ 124 by decide)
  -- the text of the state is read back part by part
  have hdeclared : DesiredSet.reread 125 settledDeclaration.desired =
      some settledDeclaration.desired := by
    refine DesiredSet.reread_eq_some fun r hr => ?_
    obtain rfl := List.mem_singleton.1 hr
    exact hbare _
  have hread : StoredState.reread 125 ⟨"app"⟩ ⟨0, 0⟩ settledDeclaration.desired r.observation.view =
      some (Run.remembered ⟨0, 0⟩ settledDeclaration r) := by
    unfold StoredState.reread
    rw [htime, hdeclared, hview]
    simp only [List.mapM_cons, List.mapM_nil, hbare]
    rw [Run.remembered, hview]
    rfl
  have readsBack : StoredState.load settledHome ⟨"app"⟩ settledWorld.disk =
      .ok (Run.remembered ⟨0, 0⟩ settledDeclaration r) :=
    (StoredState.load_eq_ok_iff (StoredState.remembers_of_save hsave)).2 hread
  exact ⟨r, .look (.apply .start rfl run readsBack) rfl rfl _⟩

theorem history_settles_sample :
    ∃ r after, never ([] ++ [(settledDeclaration.desired, r)]) ⟨"b"⟩ = true ∧
    (Run.run MemoryRemote.remote settledHome ⟨1, 0⟩ settledDeclaration .read |>.run
      settledWorld).state.remote.relations? ⟨"app"⟩ = some after ∧ ⟨"b"⟩ ∈ targets after := by
  obtain ⟨r, hr⟩ := exists_settledHistory
  have fresh : StoredState.isStored settledHome ⟨"app"⟩ settledStart.disk = false := rfl
  have known : settledStart.remote.relations? ⟨"app"⟩ = some [.bare ⟨"b"⟩] := rfl
  obtain ⟨after, hafter, -, hmem, -⟩ := history_settles fresh known (by decide) (fun _ _ => rfl) hr
  have hn : never ([] ++ [(settledDeclaration.desired, r)]) ⟨"b"⟩ = true := by
    rw [Applies.never_iff]
    intro a ha
    obtain rfl := List.mem_singleton.1 ha
    exact (by decide : (⟨"b"⟩ : TargetId) ∉ settledDeclaration.desired.targets)
  exact ⟨r, after, hn, hafter, (hmem ⟨"b"⟩).2 (.inl ⟨by decide, hn⟩)⟩

end Roster
