/-
Loading what an apply saved.

The file of a state nests payloads three levels deeper than they are nested themselves, and its
reader opens no more levels than the reader of a payload does.  So what a real apply saves is loaded
again exactly if no payload in it has more than 124 levels; a deeper one, which a declaration may
well hold, leaves a file that no run of the owner gets past.

* `load_of_shallow`, `exists_error_of_deep`: a saved state with payloads of at most 124 levels, and
  with a deeper one;
* `reloads_iff_shallow`: what is loaded after a real apply.
-/
import Roster.Proofs.Formed
import Roster.Proofs.Run
import Roster.Proofs.TimeText

namespace Roster

/-- The levels that are left for a payload in the file of a state. -/
def payloadLevels : Nat := 124

/-- Whether a payload fits the levels that are left for it. -/
def Shallow (r : Relation) : Prop := r.payload.toJson.depth ≤ payloadLevels

namespace StoredState

variable {home : Home} {owner : OwnerId} {time : Timestamp} {declared : DesiredSet}
  {view : List Relation} {d : Disk}

/-- A saved state is loaded as it is if it can be read part by part. -/
theorem load_of_shallow (h : Remembers home owner (ofOwner owner time declared view).text d)
    (ht : time.Valid) (hf : ∀ r ∈ declared.relations ++ view, WireRelation.Formed r)
    (he : ∀ r ∈ declared.relations ++ view, Json.All Json.Exact r.payload.toJson)
    (hs : ∀ r ∈ declared.relations ++ view, Shallow r) :
    load home owner d = .ok (ofOwner owner time declared view) := by
  have hr : ∀ r ∈ declared.relations ++ view, WireRelation.reread 125 r = some r :=
    fun r hm => WireRelation.reread_eq_some (hf r hm) (he r hm) (hs r hm)
  have hd : DesiredSet.reread 125 declared = some declared :=
    DesiredSet.reread_eq_some fun r hm => hr r (List.mem_append_left _ hm)
  have hv : view.mapM (WireRelation.reread 125) = some view :=
    Json.mapM_eq_self fun r hm => hr r (List.mem_append_right _ hm)
  rw [load_eq_ok_iff h, reread, Timestamp.read?_text ht, hd, hv]
  rfl

/-- A saved state is not loaded if a payload in it is too deep. -/
theorem exists_error_of_deep {r : Relation}
    (h : Remembers home owner (ofOwner owner time declared view).text d)
    (hr : r ∈ declared.relations ++ view) (hdeep : ¬Shallow r) :
    ∃ e, load home owner d = .error e := by
  have hn : WireRelation.reread 125 r = none :=
    WireRelation.reread_eq_none (Nat.lt_of_not_le hdeep)
  -- one relation that is not read takes its list with it, and that the state
  have hnone : reread 125 owner time declared view = none := by
    unfold reread
    rcases List.mem_append.1 hr with hm | hm
    · rw [DesiredSet.reread_eq_none hm hn]
      cases Timestamp.read? time.text <;> rfl
    · rw [Json.mapM_eq_none hm hn]
      cases Timestamp.read? time.text with
      | none => rfl
      | some t => cases DesiredSet.reread 125 declared <;> rfl
  cases hl : load home owner d with
  | error e => exact ⟨e, rfl⟩
  | ok s =>
    rw [load_eq_ok_iff h, hnone] at hl
    cases hl

end StoredState

variable {home : Home} {now : Timestamp} {text : String} {d : Declaration}
  {w v : World MemoryRemote} {r : Reconciliation}

/-- **What a real apply saves is loaded again exactly if no payload in it is too deep.**  If all
payloads in the declaration and in the view are shallow, and their doubles are read back from their
texts, they are loaded as they were saved.  If one is too deep, nothing is loaded, and every later
run and every preview of the owner fails for that. -/
theorem reloads_iff_shallow (parsed : Declaration.parse text = .ok d)
    (held : w.remote.Formed d.owner)
    (room : ∀ rs, v.remote.relations? d.owner = some rs → rs.length < 0x8000000000000000)
    (time : now.Valid) (doubles : ∀ s ∈ d.desired.relations ++ r.observation.view,
      Json.All Json.Exact s.payload.toJson)
    (run : (Run.run MemoryRemote.remote home now d (.apply false)).Yields w (.reconciled r) v) :
    ((∀ s ∈ d.desired.relations ++ r.observation.view, Shallow s) →
      StoredState.load home d.owner v.disk = .ok
        ⟨some d.owner, some now, d.desired, r.observation.view⟩) ∧
    ((∃ s ∈ d.desired.relations ++ r.observation.view, ¬Shallow s) →
      ∃ e, StoredState.load home d.owner v.disk = .error e ∧
        ∀ later (other : Declaration), other.owner = d.owner →
          (∀ mode, (Run.run MemoryRemote.remote home later other mode).run v =
            ⟨.error (.state e), v, []⟩) ∧
          Run.preview home other v.disk = .error e) := by
  obtain ⟨s, q, disk, hq, hload, hcycle, hsave, rfl⟩ := Run.yields_apply run
  obtain rfl : r = q := RunResult.reconciled.inj hq
  have hdeclared := Declaration.formed_of_parse parsed
  have hview := held.reconcile hdeclared (StoredState.formed_of_load hload) room hcycle
  have hsaved := StoredState.remembers_of_save hsave
  have hformed : ∀ s ∈ d.desired.relations ++ r.observation.view, WireRelation.Formed s := by
    intro s hs
    rcases List.mem_append.1 hs with hs | hs
    · exact hdeclared s hs
    · exact hview s hs
  refine ⟨StoredState.load_of_shallow hsaved time hformed doubles, ?_⟩
  rintro ⟨s, hs, hdeep⟩
  -- every run and every preview loads first
  obtain ⟨e, he⟩ := StoredState.exists_error_of_deep hsaved hs hdeep
  refine ⟨e, he, fun later other ho => ⟨fun mode => ?_, ?_⟩⟩
  · rw [← ho] at he
    exact Run.run_load_error he mode
  · rw [← ho] at he
    unfold Run.preview
    rw [he]
    rfl

/-! ### A payload that is as deep as it may be, and a deeper one -/

/-- Objects in each other. -/
def nested : Nat → Json
  | 0 => .null
  | n + 1 => .object [("a", nested n)]

theorem depth_nested (n : Nat) : (nested n).depth = n := by
  induction n with
  | zero => rfl
  | succ n ih => simp [nested, Json.depth, Json.depthFields, ih]

theorem all_nested {p : Json → Prop} (hnull : p .null)
    (hobject : ∀ j, p (.object [("a", j)])) (n : Nat) :
    Json.All p (nested n) := by
  induction n with
  | zero => exact hnull
  | succ n ih => exact ⟨hobject _, ih, trivial⟩

/-- A relation with a payload of so many levels. -/
def nestedRelation (n : Nat) : Relation :=
  ⟨⟨"b"⟩, .unset, ⟨[("a", nested n)], List.pairwise_singleton ..⟩⟩

theorem formed_nestedRelation (n : Nat) : WireRelation.Formed (nestedRelation n) :=
  ⟨nofun, List.pairwise_singleton ..,
    all_nested trivial (fun _ => List.pairwise_singleton ..) n, trivial⟩

theorem shallow_nestedRelation_iff (n : Nat) : Shallow (nestedRelation n) ↔ n < payloadLevels := by
  show max (nested n).depth 0 + 1 ≤ payloadLevels ↔ n < payloadLevels
  rw [depth_nested]
  omega

def reloadHome : Home := ⟨"/", []⟩

def reloadDeclaration : Declaration := ⟨⟨"app"⟩, ⟨[.bare ⟨"c"⟩], by decide, by decide⟩⟩

/-- A remote that holds a relation which nobody declares. -/
def reloadStart (n : Nat) : World MemoryRemote := ⟨.ofOwners [("app", [nestedRelation n])], .empty⟩

/-- The world after an apply. -/
def reloadWorld (n : Nat) : World MemoryRemote :=
  ((Run.run MemoryRemote.remote reloadHome ⟨0, 0⟩ reloadDeclaration (.apply false)).run
    (reloadStart n)).state

theorem parse_reloadDeclaration :
    Declaration.parse "owner: app\nrelations:\n- id: c\n" = .ok reloadDeclaration := by
  -- declarations cannot be compared, their parts can
  have key : (Declaration.parse "owner: app\nrelations:\n- id: c\n").toOption.map
      (fun d => (d.owner,
      d.desired.relations.map fun r => (r.target, r.priority, r.payload.fields.length))) =
      some (⟨"app"⟩, [(⟨"c"⟩, .unset, 0)]) := by decide +kernel
  cases hp : Declaration.parse "owner: app\nrelations:\n- id: c\n" with
  | error e =>
    rw [hp] at key
    cases key
  | ok d =>
    obtain ⟨owner, relations, hn, hd⟩ := d
    rw [hp] at key
    obtain ⟨rfl, hr⟩ := Prod.mk.inj (Option.some.inj key)
    obtain ⟨⟨target, priority, ⟨fields, hs⟩⟩, rfl, hone⟩ := List.map_eq_singleton_iff.1 hr
    obtain ⟨rfl, hone⟩ := Prod.mk.inj hone
    obtain ⟨rfl, hone⟩ := Prod.mk.inj hone
    obtain rfl := List.length_eq_zero_iff.1 hone
    rfl

/-- That an apply on that remote ends well, and what it shows. -/
def ReloadApply (n : Nat) : Prop := ∃ r,
  (Run.run MemoryRemote.remote reloadHome ⟨0, 0⟩ reloadDeclaration (.apply false)).Yields
    (reloadStart n) (.reconciled r) (reloadWorld n) ∧
    r.observation.view = [.bare ⟨"c"⟩, nestedRelation n]

theorem reloadApply_shallow : ReloadApply 123 := ⟨_, ⟨rfl, rfl⟩, rfl⟩

theorem reloadApply_deep : ReloadApply 124 := ⟨_, ⟨rfl, rfl⟩, rfl⟩

theorem reloads_iff_shallow_sample :
    StoredState.load reloadHome ⟨"app"⟩ (reloadWorld 123).disk =
      .ok ⟨some ⟨"app"⟩, some ⟨0, 0⟩, reloadDeclaration.desired,
        [.bare ⟨"c"⟩, nestedRelation 123]⟩ ∧
    ∃ e, StoredState.load reloadHome ⟨"app"⟩ (reloadWorld 124).disk = .error e := by
  have held : ∀ n, (reloadStart n).remote.Formed ⟨"app"⟩ := by
    refine fun n => ⟨fun _ _ h => (Option.some_ne_none _ h.symm).elim, fun rs hrs => ?_⟩
    obtain rfl : [nestedRelation n] = rs := Option.some.inj hrs
    exact List.forall_mem_singleton.2 (formed_nestedRelation n)
  have time : Timestamp.Valid ⟨0, 0⟩ := ⟨by decide, by decide, by decide⟩
  have doubles : ∀ n, ∀ s ∈ reloadDeclaration.desired.relations ++ [.bare ⟨"c"⟩, nestedRelation n],
      Json.All Json.Exact s.payload.toJson := by
    intro n s hs
    simp only [reloadDeclaration, List.mem_append, List.mem_cons, List.not_mem_nil, or_false] at hs
    rcases hs with rfl | rfl | rfl
    · exact ⟨trivial, trivial⟩
    · exact ⟨trivial, trivial⟩
    · exact ⟨trivial, all_nested trivial (fun _ => trivial) n, trivial⟩
  have room : ∀ n, ((reloadWorld n).remote.relations? ⟨"app"⟩).map List.length = some 2 →
      ∀ rs, (reloadWorld n).remote.relations? ⟨"app"⟩ = some rs →
        rs.length < 0x8000000000000000 := by
    intro n h rs hrs
    rw [hrs] at h
    have : rs.length = 2 := Option.some.inj h
    omega
  -- what is shown has the payload of the remote, which is one level deeper in the second world
  constructor
  · obtain ⟨r, hrun, hview⟩ := reloadApply_shallow
    have hd := doubles 123
    rw [← hview] at hd
    have h := (reloads_iff_shallow parse_reloadDeclaration (held 123) (room 123 (by decide +kernel))
      time hd hrun).1
    rw [hview] at h
    refine h fun s hs => ?_
    simp only [reloadDeclaration, List.mem_append, List.mem_cons, List.not_mem_nil, or_false] at hs
    rcases hs with rfl | rfl | rfl
    · exact (by decide : 1 ≤ 124)
    · exact (by decide : 1 ≤ 124)
    · exact (shallow_nestedRelation_iff 123).2 (by decide)
  · obtain ⟨r, hrun, hview⟩ := reloadApply_deep
    have hd := doubles 124
    rw [← hview] at hd
    have h := (reloads_iff_shallow parse_reloadDeclaration (held 124) (room 124 (by decide +kernel))
      time hd hrun).2
    rw [hview] at h
    obtain ⟨e, he, -⟩ := h ⟨nestedRelation 124, by simp, by rw [shallow_nestedRelation_iff]; decide⟩
    exact ⟨e, he⟩

end Roster
