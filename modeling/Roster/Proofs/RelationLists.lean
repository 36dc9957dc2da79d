/-
Lists of relations.

A list of relations is looked at in three ways: as the targets it names, as what is found under a
target, and as the part of it whose targets satisfy a condition.  Renumbering priorities changes
none of them but for the priorities, so the part is also compared by its cores, that is by target
and payload alone.

* `targets_part`, `cores_part`: targets and cores of a part;
* `find?_eq_head?`: a lookup is the head of a part, and `find?_of_mem` one among distinct targets;
* `firsts_eq_part`: among distinct targets every relation is the first one to its target.
-/
import Mathlib.Data.List.Nodup
import Roster.View

namespace Roster.Relation

/-- What renumbering leaves of a relation: its target and its payload. -/
def core (r : Relation) : TargetId × Payload := (r.target, r.payload)

/-- The cores of some relations, in order. -/
def cores (relations : List Relation) : List (TargetId × Payload) := relations.map core

/-- The relations whose targets satisfy a condition, in order. -/
def part (p : TargetId → Bool) (relations : List Relation) : List Relation :=
  relations.filter fun r => p r.target

@[simp] theorem targets_nil : targets [] = [] := rfl

@[simp] theorem targets_cons (r : Relation) (rest : List Relation) :
    targets (r :: rest) = r.target :: targets rest := rfl

@[simp] theorem targets_append (rs ss : List Relation) :
    targets (rs ++ ss) = targets rs ++ targets ss := List.map_append

theorem mem_targets {id : TargetId} {relations : List Relation} :
    id ∈ targets relations ↔ ∃ r ∈ relations, r.target = id := List.mem_map

theorem part_cons (p : TargetId → Bool) (r : Relation) (rest : List Relation) :
    part p (r :: rest) = if p r.target then r :: part p rest else part p rest := List.filter_cons

theorem part_part (p q : TargetId → Bool) (relations : List Relation) :
    part p (part q relations) = part (fun id => p id && q id) relations :=
  List.filter_filter

theorem part_comm (p q : TargetId → Bool) (relations : List Relation) :
    part p (part q relations) = part q (part p relations) := by
  simp only [part_part, Bool.and_comm]

theorem part_congr {p q : TargetId → Bool} {relations : List Relation}
    (h : ∀ id ∈ targets relations, p id = q id) : part p relations = part q relations :=
  List.filter_congr fun r hr => h r.target (mem_targets.2 ⟨r, hr, rfl⟩)

theorem part_eq_self {p : TargetId → Bool} {relations : List Relation}
    (h : ∀ id ∈ targets relations, p id = true) : part p relations = relations :=
  List.filter_eq_self.2 fun r hr => h r.target (mem_targets.2 ⟨r, hr, rfl⟩)

theorem targets_part (p : TargetId → Bool) (relations : List Relation) :
    targets (part p relations) = (targets relations).filter p := by
  simp only [targets, part, List.filter_map, Function.comp_def]

theorem cores_part (p : TargetId → Bool) (relations : List Relation) :
    cores (part p relations) = (cores relations).filter fun c => p c.1 := by
  simp only [cores, part, List.filter_map, Function.comp_def, core]

theorem map_fst_cores (relations : List Relation) :
    (cores relations).map Prod.fst = targets relations := by
  simp only [cores, targets, List.map_map]
  rfl

theorem targets_eq_of_cores {rs ss : List Relation} (h : cores rs = cores ss) :
    targets rs = targets ss := by
  rw [← map_fst_cores, ← map_fst_cores, h]

theorem cores_part_congr {rs ss : List Relation} (h : cores rs = cores ss) (p : TargetId → Bool) :
    cores (part p rs) = cores (part p ss) := by
  rw [cores_part, cores_part, h]

/-- A lookup finds the first relation of the part with that target. -/
theorem find?_eq_head? (id : TargetId) (relations : List Relation) :
    find? id relations = (part (· == id) relations).head? := by
  rw [find?, part, List.head?_filter]

theorem find?_cons (id : TargetId) (r : Relation) (rest : List Relation) :
    find? id (r :: rest) = if r.target = id then some r else find? id rest := by
  simp only [find?, List.find?_cons]
  split <;> simp_all

theorem find?_concat (id : TargetId) (relations : List Relation) (r : Relation) :
    find? id (relations ++ [r]) = (find? id relations).or
      (if r.target = id then some r else none) := by
  rw [find?, List.find?_append]
  congr 1
  exact find?_cons id r []

/-- Among distinct targets every relation is found under its target. -/
theorem find?_of_mem {relations : List Relation} {r : Relation} (hd : (targets relations).Nodup)
    (hr : r ∈ relations) : find? r.target relations = some r := by
  cases hs : find? r.target relations with
  | none => exact absurd (mem_targets.2 ⟨r, hr, rfl⟩) (find?_eq_none_iff.1 hs)
  | some s =>
    obtain ⟨ht, hmem⟩ := find?_eq_some hs
    rw [List.inj_on_of_nodup_map hd hmem hr ht]

/-- Relations whose parts under a target have the same cores are found there with the same
payload. -/
theorem payload_find?_congr {rs ss : List Relation} {id : TargetId}
    (h : cores (part (· == id) rs) = cores (part (· == id) ss)) :
    (find? id rs).map (·.payload) = (find? id ss).map (·.payload) := by
  have hd := congrArg (fun cs => cs.head?.map Prod.snd) h
  simpa only [cores, List.head?_map, ← find?_eq_head?, Option.map_map, Function.comp_def,
    core] using hd

/-- Among distinct targets every relation is the first one to its target. -/
theorem firsts_eq_part {relations : List Relation} (hd : (targets relations).Nodup)
    (seen : List TargetId) :
    firsts seen relations = part (fun id => decide (id ∉ seen)) relations := by
  induction relations generalizing seen with
  | nil => rfl
  | cons r rest ih =>
    rw [targets_cons, List.nodup_cons] at hd
    rw [firsts, part_cons]
    by_cases hr : r.target ∈ seen
    · rw [if_pos hr, if_neg (by simpa using hr), ih hd.2]
    · rw [if_neg hr, if_pos (by simpa using hr), ih hd.2]
      congr 1
      refine part_congr fun id hid => ?_
      -- no later relation has this target, so it does not matter that it was seen
      have hne : id ≠ r.target := fun he => hd.1 (he ▸ hid)
      simp [hne]

end Roster.Relation
