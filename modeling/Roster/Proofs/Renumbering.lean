/-
Lists up to renumbering.

A remote in memory that renumbers overwrites every explicit priority of a target that is not pinned.
The numbers that it writes say nothing new: they follow from the order of the list, from the targets
that have such a priority, and from what was last asked for.  The outline of a list leaves these
numbers out.

* `outline`, `outlines_relationsAfter`: a relation that is sent is put into the outline, and that is
  all;
* `mem_ranking_iff`: which positions get a number;
* `compacted_congr`: lists with the same outline are renumbered alike if the same was asked for;
* `Settled`, `eq_of_settled`: a list that renumbering leaves alone is settled by its outline;
* `Orderly`, `orderly_of_raised`: of a remote that grew from an empty one by requests, everything
  that is renumbered was asked for.
-/
import Roster.Proofs.MemoryRemote

namespace Roster.MemoryRemote

open Roster.Relation

variable {m n k : MemoryRemote} {owner : OwnerId} {r s : Relation}
  {relations others : List Relation}

/-! ### Outlines -/

/-- Whether the remote gives a relation in its lists a number of its own. -/
def renumbers (m : MemoryRemote) (r : Relation) : Bool :=
  m.compacting && (m.pinned r.target).isNone && r.priority.isExplicit

/-- The relation without the number that the remote gives it. -/
def outline (m : MemoryRemote) (r : Relation) : Relation :=
  if m.renumbers r then { r with priority := .explicit 0 } else r

def outlines (m : MemoryRemote) (relations : List Relation) : List Relation :=
  relations.map m.outline

theorem renumbers_iff :
    m.renumbers r = true ↔
      m.compacting = true ∧ m.pinned r.target = none ∧ ∃ value, r.priority = .explicit value := by
  unfold renumbers
  cases hp : r.priority <;> simp [Priority.isExplicit]

theorem target_outline (m : MemoryRemote) (r : Relation) : (m.outline r).target = r.target := by
  unfold outline
  split <;> rfl

theorem payload_outline (m : MemoryRemote) (r : Relation) : (m.outline r).payload = r.payload := by
  unfold outline
  split <;> rfl

theorem targets_outlines (m : MemoryRemote) (relations : List Relation) :
    targets (m.outlines relations) = targets relations := by
  simp only [targets, outlines, List.map_map, Function.comp_def, target_outline]

theorem outline_of_not_renumbers (h : m.renumbers r = false) : m.outline r = r := by
  simp [outline, h]

theorem renumbers_outline (m : MemoryRemote) (r : Relation) :
    m.renumbers (m.outline r) = m.renumbers r := by
  by_cases h : m.renumbers r = true
  · obtain ⟨hc, hp, -⟩ := renumbers_iff.1 h
    rw [h, renumbers_iff, target_outline]
    exact ⟨hc, hp, 0, by simp [outline, h]⟩
  · rw [outline_of_not_renumbers (by simpa using h)]

theorem renumbers_congr (h : m.outline r = m.outline s) : m.renumbers r = m.renumbers s := by
  rw [← renumbers_outline m r, h, renumbers_outline]

theorem target_eq_of_outline (h : m.outline r = m.outline s) : r.target = s.target := by
  rw [← target_outline m r, h, target_outline]

/-- A remote that does not renumber has nothing to leave out. -/
theorem outlines_of_not_compacting (h : m.compacting = false) (relations : List Relation) :
    m.outlines relations = relations := by
  refine List.map_id'' (fun r => ?_) relations
  exact outline_of_not_renumbers (by simp [renumbers, h])

theorem part_outlines (p : TargetId → Bool) (m : MemoryRemote) (relations : List Relation) :
    m.outlines (part p relations) = part p (m.outlines relations) := by
  simp only [outlines, part, List.filter_map, Function.comp_def, target_outline]

theorem outlines_putFirst (m : MemoryRemote) (r : Relation) (relations : List Relation) :
    m.outlines (putFirst r relations) = putFirst (m.outline r) (m.outlines relations) := by
  induction relations with
  | nil => rfl
  | cons s rest ih =>
    simp only [outlines, putFirst, List.map_cons, target_outline] at ih ⊢
    by_cases hs : s.target = r.target
    · rw [if_pos hs, if_pos hs, List.map_cons]
    · rw [if_neg hs, if_neg hs, List.map_cons, ih]

/-- The remotes agree in which relations they give which numbers to. -/
structure SameRules (m n : MemoryRemote) : Prop where
  compacting : n.compacting = m.compacting
  pinned : n.pinned = m.pinned

theorem SameRules.refl (m : MemoryRemote) : SameRules m m := ⟨rfl, rfl⟩

theorem SameRules.symm (h : SameRules m n) : SameRules n m := ⟨h.compacting.symm, h.pinned.symm⟩

theorem SameRules.trans (h : SameRules m n) (h' : SameRules n k) : SameRules m k :=
  ⟨h'.compacting.trans h.compacting, h'.pinned.trans h.pinned⟩

theorem SameSettings.rules (h : SameSettings m n) : SameRules m n := ⟨h.compacting, h.pinned⟩

theorem SameRules.renumbers_eq (h : SameRules m n) : n.renumbers = m.renumbers := by
  funext r
  rw [renumbers, renumbers, h.compacting, h.pinned]

theorem SameRules.outline_eq (h : SameRules m n) : n.outline = m.outline := by
  funext r
  rw [outline, outline, h.renumbers_eq]

theorem SameRules.outlines_eq (h : SameRules m n) : n.outlines = m.outlines := by
  funext relations
  rw [outlines, outlines, h.outline_eq]

theorem SameRules.stored_eq (h : SameRules m n) (r : Relation) : n.stored r = m.stored r := by
  rw [stored, stored, h.pinned]

/-! ### Renumbering -/

/-- What a relation at a position is ranked by, if it is. -/
def slot (m : MemoryRemote) (owner : OwnerId) (r : Relation) (i : Nat) : Option (Int × Nat) :=
  match m.pinned r.target, r.priority.explicit? with
  | none, some stored => some ((m.requested owner r.target).getD stored, i)
  | _, _ => none

theorem slots_eq (m : MemoryRemote) (owner : OwnerId) (relations : List Relation) :
    m.slots owner relations = relations.zipIdx.filterMap fun p => m.slot owner p.1 p.2 := rfl

theorem slot_isSome_iff (hc : m.compacting = true) (owner : OwnerId) (i : Nat) :
    (m.slot owner r i).isSome = true ↔ m.renumbers r = true := by
  rw [renumbers_iff]
  unfold slot
  cases m.pinned r.target with
  | some value => simp
  | none =>
    cases r.priority with
    | unset => simp [Priority.explicit?]
    | explicit value => simp [Priority.explicit?, hc]

theorem position_of_slot {i j : Nat} {key : Int}
    (h : m.slot owner r i = some (key, j)) : j = i := by
  unfold slot at h
  split at h
  · exact (Prod.mk.inj (Option.some.inj h)).2.symm
  · cases h

/-- The positions that get a number are those of the relations that the remote renumbers. -/
theorem mem_ranking_iff (hc : m.compacting = true) {i : Nat} :
    i ∈ m.ranking owner relations ↔ ∃ r, relations[i]? = some r ∧ m.renumbers r = true := by
  simp only [ranking, List.mem_map, List.mem_mergeSort, slots_eq, List.mem_filterMap]
  constructor
  · rintro ⟨⟨key, j⟩, ⟨⟨r, k⟩, hr, hs⟩, rfl⟩
    obtain rfl := position_of_slot hs
    exact ⟨r, List.mk_mem_zipIdx_iff_getElem?.1 hr,
      (slot_isSome_iff hc owner j).1 (Option.isSome_of_eq_some hs)⟩
  · rintro ⟨r, hr, hn⟩
    obtain ⟨⟨key, j⟩, hs⟩ := Option.isSome_iff_exists.1 ((slot_isSome_iff hc owner i).2 hn)
    obtain rfl := position_of_slot hs
    exact ⟨(key, j), ⟨(r, j), List.mk_mem_zipIdx_iff_getElem?.2 hr, hs⟩, rfl⟩

theorem renumber_of_notMem {ranking : List Nat} {i : Nat} (h : i ∉ ranking) (r : Relation) :
    renumber ranking i r = r := by
  rw [renumber, List.idxOf?_eq_none_iff.2 h]

/-- Renumbering does not change the outline of what has a number. -/
theorem outline_renumber {ranking : List Nat} {i : Nat} (h : i ∈ ranking → m.renumbers r = true) :
    m.outline (renumber ranking i r) = m.outline r := by
  by_cases hi : i ∈ ranking
  · obtain ⟨hc, hp, -⟩ := renumbers_iff.1 (h hi)
    obtain ⟨rank, hrank⟩ := Option.isSome_iff_exists.1 (List.isSome_idxOf?.2 hi)
    have hn : m.renumbers { r with priority := .explicit (rank + 1) } = true :=
      renumbers_iff.2 ⟨hc, hp, _, rfl⟩
    simp only [renumber, hrank, outline, hn, h hi, if_true]
  · rw [renumber_of_notMem hi]

theorem outlines_compacted (hc : m.compacting = true) (owner : OwnerId)
    (relations : List Relation) :
    m.outlines (m.compacted owner relations) = m.outlines relations := by
  refine List.ext_getElem? fun i => ?_
  simp only [outlines, compacted, List.getElem?_map, List.getElem?_mapIdx, Option.map_map]
  cases hr : relations[i]? with
  | none => rfl
  | some r =>
    refine congrArg some (outline_renumber fun hi => ?_)
    obtain ⟨s, hs, hn⟩ := (mem_ranking_iff hc).1 hi
    rw [hr] at hs
    rwa [Option.some.inj hs]

/-- Everything in a list that the remote renumbers was asked for. -/
def Ranked (m : MemoryRemote) (owner : OwnerId) (relations : List Relation) : Prop :=
  ∀ r ∈ relations, m.renumbers r = true → (m.requested owner r.target).isSome = true

theorem ranked_congr (h : m.outlines relations = m.outlines others)
    (hr : Ranked m owner relations) :
    Ranked m owner others := by
  intro s hs hn
  have hmem : m.outline s ∈ m.outlines relations := h ▸ List.mem_map.2 ⟨s, hs, rfl⟩
  obtain ⟨r, hrm, he⟩ := List.mem_map.1 hmem
  rw [← target_eq_of_outline he]
  exact hr r hrm ((renumbers_congr he).trans hn)

/-- Of what a list renumbers the remotes were asked for the same. -/
def SameRequests (m n : MemoryRemote) (owner : OwnerId) (relations : List Relation) : Prop :=
  ∀ r ∈ relations, m.renumbers r = true → n.requested owner r.target = m.requested owner r.target

theorem slot_of_not_renumbers (hc : m.compacting = true) (hn : m.renumbers r ≠ true)
    (owner : OwnerId) (i : Nat) : m.slot owner r i = none :=
  Option.not_isSome_iff_eq_none.1 fun hs => hn ((slot_isSome_iff hc owner i).1 hs)

theorem slot_congr (hc : m.compacting = true) (hrules : SameRules m n)
    (h : m.outline r = m.outline s)
    (hranked : m.renumbers r = true → (m.requested owner r.target).isSome = true)
    (hsame : m.renumbers r = true → n.requested owner r.target = m.requested owner r.target)
    (i : Nat) :
    m.slot owner r i = n.slot owner s i := by
  by_cases hn : m.renumbers r = true
  · -- both have a number, and what was asked for is what they are ranked by
    obtain ⟨-, hpin, value, hv⟩ := renumbers_iff.1 hn
    obtain ⟨-, -, value', hv'⟩ := renumbers_iff.1 ((renumbers_congr h).symm.trans hn)
    obtain ⟨wanted, hw⟩ := Option.isSome_iff_exists.1 (hranked hn)
    have hw' := (hsame hn).trans hw
    have ht := target_eq_of_outline h
    simp only [slot, hrules.pinned, ← ht, hpin, hv, hv', Priority.explicit?, hw, hw',
      Option.getD_some]
  · have hn' : n.renumbers s ≠ true := by rwa [hrules.renumbers_eq, ← renumbers_congr h]
    rw [slot_of_not_renumbers hc hn, slot_of_not_renumbers (hrules.compacting.trans hc) hn']

/-- Lists with the same outline have the same ranking if the same was asked for. -/
theorem ranking_congr (hc : m.compacting = true) (hrules : SameRules m n)
    (h : m.outlines relations = m.outlines others) (hranked : Ranked m owner relations)
    (hsame : SameRequests m n owner relations) :
    m.ranking owner relations = n.ranking owner others := by
  suffices hslots : m.slots owner relations = n.slots owner others by rw [ranking, ranking, hslots]
  rw [slots_eq, slots_eq]
  -- position by position, from any first position on
  generalize 0 = start
  induction relations generalizing others start with
  | nil =>
    obtain rfl := List.map_eq_nil_iff.1 h.symm
    rfl
  | cons r rest ih =>
    cases others with
    | nil => cases h
    | cons s rest' =>
      obtain ⟨hhead, htail⟩ := List.cons.inj h
      have hslot : m.slot owner r start = n.slot owner s start :=
        slot_congr hc hrules hhead (hranked r List.mem_cons_self) (hsame r List.mem_cons_self) start
      have hrest := ih htail (fun q hq => hranked q (List.mem_cons_of_mem _ hq))
        (fun q hq => hsame q (List.mem_cons_of_mem _ hq)) (start + 1)
      simp only [List.zipIdx_cons, List.filterMap_cons, hslot, hrest]

theorem renumber_congr {ranking : List Nat} {i : Nat} (h : m.outline r = m.outline s)
    (hi : i ∈ ranking ↔ m.renumbers r = true) : renumber ranking i r = renumber ranking i s := by
  by_cases hmem : i ∈ ranking
  · obtain ⟨rank, hrank⟩ := Option.isSome_iff_exists.1 (List.isSome_idxOf?.2 hmem)
    have ht := target_eq_of_outline h
    have hpayload : r.payload = s.payload := by rw [← payload_outline m r, h, payload_outline]
    simp only [renumber, hrank, ht, hpayload]
  · have hn : m.renumbers r = false := by simpa using fun hr => hmem (hi.2 hr)
    have hn' : m.renumbers s = false := (renumbers_congr h).symm.trans hn
    rw [outline_of_not_renumbers hn, outline_of_not_renumbers hn'] at h
    rw [h]

/-- Lists with the same outline and the same ranking are renumbered alike. -/
theorem compacted_congr_of_ranking (hc : m.compacting = true)
    (h : m.outlines relations = m.outlines others)
    (hranking : m.ranking owner relations = n.ranking owner others) :
    m.compacted owner relations = n.compacted owner others := by
  refine List.ext_getElem? fun i => ?_
  have hi := congrArg (·[i]?) h
  simp only [outlines, List.getElem?_map] at hi
  simp only [compacted, List.getElem?_mapIdx, ← hranking]
  cases hr : relations[i]? with
  | none =>
    rw [hr] at hi
    rw [Option.map_eq_none_iff.1 hi.symm]
  | some r =>
    rw [hr] at hi
    obtain ⟨s, hs, he⟩ := Option.map_eq_some_iff.1 hi.symm
    rw [hs]
    refine congrArg some (renumber_congr he.symm ?_)
    rw [mem_ranking_iff hc, hr]
    simp

/-- Lists with the same outline are renumbered alike if the same was asked for. -/
theorem compacted_congr (hc : m.compacting = true) (hrules : SameRules m n)
    (h : m.outlines relations = m.outlines others) (hranked : Ranked m owner relations)
    (hsame : SameRequests m n owner relations) :
    m.compacted owner relations = n.compacted owner others :=
  compacted_congr_of_ranking hc h (ranking_congr hc hrules h hranked hsame)

/-! ### Lists that renumbering leaves alone -/

/-- Renumbering, if the remote does it, leaves the list alone. -/
def Settled (m : MemoryRemote) (owner : OwnerId) (relations : List Relation) : Prop :=
  m.compacting = true → m.compacted owner relations = relations

/-- Such a list is settled by its outline and by what was asked for. -/
theorem eq_of_settled (hrules : SameRules m n) (hm : Settled m owner relations)
    (hn : Settled n owner others) (h : m.outlines relations = m.outlines others)
    (hranked : Ranked m owner relations) (hsame : SameRequests m n owner relations) :
    relations = others := by
  cases hcompacting : m.compacting with
  | false =>
    rwa [outlines_of_not_compacting hcompacting, outlines_of_not_compacting hcompacting] at h
  | true =>
    rw [← hm hcompacting, ← hn (hrules.compacting.trans hcompacting)]
    exact compacted_congr hcompacting hrules h hranked hsame

theorem settled_compacted (hranked : Ranked m owner relations) :
    Settled m owner (m.compacted owner relations) := by
  intro hc
  exact (compacted_congr hc (.refl m) (outlines_compacted hc owner relations).symm hranked
    fun _ _ _ => rfl).symm

/-- A relation that is sent is put into the outline of the list. -/
theorem outlines_relationsAfter (m : MemoryRemote) (owner : OwnerId) (r : Relation)
    (relations : List Relation) :
    m.outlines (m.relationsAfter owner r relations) =
      putFirst (m.outline (m.stored r)) (m.outlines relations) := by
  unfold relationsAfter
  split
  · rename_i hc
    rw [outlines_compacted hc, outlines_putFirst]
  · rw [outlines_putFirst]

theorem settled_relationsAfter (hranked : Ranked m owner (putFirst (m.stored r) relations)) :
    Settled m owner (m.relationsAfter owner r relations) := by
  intro hc
  have hafter : m.relationsAfter owner r relations =
      m.compacted owner (putFirst (m.stored r) relations) := by
    simp [relationsAfter, hc]
  rw [hafter]
  exact settled_compacted hranked hc

/-! ### Remotes that were asked for all that they renumber -/

/-- If the remote renumbers, the owner's list names every target once, and all that is renumbered in
it was asked for. -/
def Orderly (m : MemoryRemote) (owner : OwnerId) : Prop :=
  m.compacting = true → ∀ relations, m.relations? owner = some relations →
    (targets relations).Nodup ∧ Ranked m owner relations

theorem orderly_of_not_compacting (h : m.compacting = false) (owner : OwnerId) :
    Orderly m owner := by
  intro hc
  rw [h] at hc
  cases hc

theorem Ranked.congr (h : Ranked m owner relations) (hrules : SameRules m n)
    (hrequests : n.requested owner = m.requested owner) : Ranked n owner relations := by
  intro r hr hn
  rw [hrequests]
  rw [hrules.renumbers_eq] at hn
  exact h r hr hn

theorem Orderly.congr (h : Orderly m owner) (hrules : SameRules m n)
    (hrequests : n.requested owner = m.requested owner)
    (hlist : n.relations? owner = m.relations? owner) : Orderly n owner := by
  intro hc relations hr
  obtain ⟨hnodup, hranked⟩ := h (hrules.compacting.symm.trans hc) relations (hlist.symm.trans hr)
  exact ⟨hnodup, hranked.congr hrules hrequests⟩

theorem requested_request_self (m : MemoryRemote) (owner : OwnerId) (target : TargetId)
    (value : Option Int) :
    (m.request owner target value).requested owner target = value := if_pos ⟨rfl, rfl⟩

theorem requested_request_of_ne {target id : TargetId} (h : id ≠ target) (m : MemoryRemote)
    (owner : OwnerId) (value : Option Int) :
    (m.request owner target value).requested owner id = m.requested owner id :=
  if_neg fun h' => h h'.2

theorem requested_request_of_owner_ne {other : OwnerId} (h : other ≠ owner) (m : MemoryRemote)
    (target : TargetId) (value : Option Int) :
    (m.request owner target value).requested other = m.requested other :=
  funext fun _ => if_neg fun h' => h h'.1

theorem nodup_putFirst (hd : (targets relations).Nodup) (r : Relation) :
    (targets (putFirst r relations)).Nodup := by
  by_cases hr : r.target ∈ targets relations
  · rwa [targets_putFirst_of_mem hr]
  · rw [targets_putFirst_of_notMem hr]
    refine List.nodup_append.2 ⟨hd, List.nodup_singleton _, fun a ha b hb he => hr ?_⟩
    rwa [← List.mem_singleton.1 hb, ← he]

/-- Among distinct targets a relation that is put into the list is the only one to its target. -/
theorem mem_putFirst_of_nodup (hd : (targets relations).Nodup) (h : r ∈ putFirst s relations) :
    r = s ∨ r ∈ relations ∧ r.target ≠ s.target := by
  by_cases ht : r.target = s.target
  · have hs : s ∈ putFirst s relations := (find?_eq_some (by rw [find?_putFirst, if_pos rfl])).2
    exact .inl (List.inj_on_of_nodup_map (nodup_putFirst hd s) h hs ht)
  · exact (mem_putFirst h).imp_right fun hm => ⟨hm, ht⟩

/-- A relation that is put into a list keeps it ranked if it comes with a request. -/
theorem ranked_putFirst {value : Option Int} (hd : (targets relations).Nodup)
    (h : Ranked m owner relations) (hs : m.renumbers s = true → value.isSome = true) :
    Ranked (m.request owner s.target value) owner (putFirst s relations) := by
  intro r hr hn
  rcases mem_putFirst_of_nodup hd hr with rfl | ⟨hmem, hne⟩
  · rw [requested_request_self]
    exact hs hn
  · rw [requested_request_of_ne hne]
    exact h r hmem hn

/-- A list that is set together with a request is in order if it is for its owner; those of other
owners stay so. -/
theorem orderly_setRelations {other : OwnerId} {target : TargetId} {value : Option Int}
    (h : Orderly m other)
    (hown : other = owner → m.compacting = true →
      (targets relations).Nodup ∧ Ranked (m.request owner target value) owner relations) :
    Orderly ((m.request owner target value).setRelations owner relations) other := by
  by_cases ho : other = owner
  · subst ho
    intro hc rs hr
    rw [relations?_setRelations_self] at hr
    obtain rfl := Option.some.inj hr
    exact hown rfl hc
  · refine h.congr ⟨rfl, rfl⟩ (requested_request_of_owner_ne ho m target value) ?_
    exact relations?_setRelations_of_ne (Ne.symm ho) _ _

theorem explicit?_of_renumbers (h : m.renumbers r = true) : r.priority.explicit?.isSome = true := by
  obtain ⟨-, -, value, hv⟩ := renumbers_iff.1 h
  rw [hv]
  rfl

theorem explicit?_of_renumbers_stored (h : m.renumbers (m.stored r) = true) :
    r.priority.explicit?.isSome = true := by
  obtain ⟨-, hp, -⟩ := renumbers_iff.1 h
  rw [target_stored] at hp
  rw [stored_of_notPinned hp] at h
  exact explicit?_of_renumbers h

/-- The list after an upsert, before it may be renumbered. -/
theorem ranked_noted (hd : (targets relations).Nodup) (h : Ranked m owner relations)
    (r : Relation) :
    Ranked (m.noted owner r) owner (putFirst (m.stored r) relations) := by
  have hput : Ranked (m.request owner (m.stored r).target r.priority.explicit?) owner
      (putFirst (m.stored r) relations) := ranked_putFirst hd h explicit?_of_renumbers_stored
  rw [target_stored] at hput
  exact hput

theorem ranked_relationsAfter (h : Ranked m owner (putFirst (m.stored r) relations)) :
    Ranked m owner (m.relationsAfter owner r relations) := by
  refine ranked_congr ?_ h
  rw [outlines_relationsAfter, outlines_putFirst]

theorem orderly_upsert {other : OwnerId} (h : Orderly m other) (owner : OwnerId) (r : Relation) :
    Orderly (upsert owner r m).2 other := by
  have hrecord : Orderly (m.record (.upsert owner r.target)) other := h
  unfold upsert
  dsimp only
  split
  · exact hrecord
  · exact hrecord
  · rename_i relations _ hr
    refine orderly_setRelations hrecord fun ho hc => ?_
    subst ho
    obtain ⟨hnodup, hranked⟩ := h hc relations hr
    refine ⟨?_, ranked_relationsAfter (ranked_noted hnodup hranked r)⟩
    have ht := targets_eq_of_cores (cores_relationsAfter (m.noted other r) other r relations)
    exact (congrArg List.Nodup ht).mpr (nodup_putFirst hnodup _)

theorem ranked_part (h : Ranked m owner relations) (target : TargetId) (value : Option Int) :
    Ranked (m.request owner target value) owner
      (part (fun id => decide (id ≠ target)) relations) := by
  intro r hr hn
  obtain ⟨hmem, ht⟩ := List.mem_filter.1 hr
  rw [requested_request_of_ne (of_decide_eq_true ht)]
  exact h r hmem hn

theorem orderly_delete {other : OwnerId} (h : Orderly m other) (owner : OwnerId)
    (target : TargetId) :
    Orderly (delete owner target m).2 other := by
  have hrecord : Orderly (m.record (.delete owner target)) other := h
  unfold delete
  dsimp only
  split
  · exact hrecord
  · exact hrecord
  · rename_i relations _ hr
    split
    · exact hrecord
    · refine orderly_setRelations hrecord fun ho hc => ?_
      subst ho
      obtain ⟨hnodup, hranked⟩ := h hc relations hr
      refine ⟨?_, ranked_part hranked target none⟩
      show (targets (part (fun id => decide (id ≠ target)) relations)).Nodup
      rw [targets_part]
      exact hnodup.filter _

/-- The remotes that grow from an empty one that renumbers, by requests and settings of any kind. -/
inductive Raised : MemoryRemote → Prop
  | empty : Raised { MemoryRemote.empty with compacting := true }
  | addOwner {m : MemoryRemote} (h : Raised m) (owner : OwnerId) : Raised (m.addOwner owner)
  | seed {m : MemoryRemote} (h : Raised m) (owner : OwnerId) (r : Relation) :
      Raised (m.seed owner r)
  | pin {m : MemoryRemote} (h : Raised m) (target : TargetId) (value : Int) :
      Raised (m.pin target value)
  | failOn {m : MemoryRemote} (h : Raised m) (operation : Operation) (target : TargetId)
    (error : RemoteError) : Raised (m.failOn operation target error)
  | upsert {m : MemoryRemote} (h : Raised m) (owner : OwnerId) (r : Relation) :
      Raised (upsert owner r m).2
  | delete {m : MemoryRemote} (h : Raised m) (owner : OwnerId) (target : TargetId) :
    Raised (delete owner target m).2

theorem orderly_addOwner {other : OwnerId} (h : Orderly m other) (owner : OwnerId) :
    Orderly (m.addOwner owner) other := by
  unfold addOwner
  split
  · exact h
  · by_cases ho : other = owner
    · subst ho
      intro hc rs hr
      rw [relations?_setRelations_self] at hr
      obtain rfl := Option.some.inj hr
      exact ⟨List.nodup_nil, nofun⟩
    · exact h.congr ⟨rfl, rfl⟩ rfl (relations?_setRelations_of_ne (Ne.symm ho) m [])

theorem orderly_seed {other : OwnerId} (h : Orderly m other) (owner : OwnerId) (r : Relation) :
    Orderly (m.seed owner r) other := by
  refine orderly_setRelations h fun ho hc => ?_
  subst ho
  cases hr : m.relations? other with
  | none =>
    exact ⟨List.nodup_singleton _, ranked_putFirst List.nodup_nil nofun explicit?_of_renumbers⟩
  | some relations =>
    obtain ⟨hnodup, hranked⟩ := h hc relations hr
    exact ⟨nodup_putFirst hnodup r, ranked_putFirst hnodup hranked explicit?_of_renumbers⟩

theorem orderly_pin (h : Orderly m owner) (target : TargetId) (value : Int) :
    Orderly (m.pin target value) owner := by
  intro hc relations hr
  obtain ⟨hnodup, hranked⟩ := h hc relations hr
  refine ⟨hnodup, fun r hmem hn => hranked r hmem ?_⟩
  -- what is not pinned now was not pinned before
  obtain ⟨-, hp, hv⟩ := renumbers_iff.1 hn
  refine renumbers_iff.2 ⟨hc, ?_, hv⟩
  have hne : r.target ≠ target := by
    rintro rfl
    simp [pin] at hp
  simpa [pin, hne] using hp

/-- A remote that grew from an empty one was asked for all that it renumbers. -/
theorem orderly_of_raised (h : Raised m) (owner : OwnerId) : Orderly m owner := by
  induction h with
  | empty =>
    intro _ relations hr
    cases hr
  | addOwner _ other ih => exact orderly_addOwner ih other
  | seed _ other r ih => exact orderly_seed ih other r
  | pin _ target value ih => exact orderly_pin ih target value
  | failOn _ operation target error ih => exact ih
  | upsert _ other r ih => exact orderly_upsert ih other r
  | delete _ other target ih => exact orderly_delete ih other target

end Roster.MemoryRemote
