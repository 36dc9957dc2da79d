/-
The numbers that renumbering gives.

Renumbering sorts what it numbers by the priority that was last asked for, and what is asked for
alike by its position in the list.  The sort is stable, so both are read off the sorted list at
once, and the number of a relation is its rank there.

* `pairwise_mergeSort_stable`: a stable sort keeps the order of what it does not tell apart;
* `Precedes`, `idxOf_lt_of_precedes`: what comes before something else has the lower rank;
* `numbers_compacted`: the numbers are 1, 2, …, each of them once;
* `find?_compacted`: what is found under a target, renumbered;
* `number?_compacted_lt`: of two targets the one that was last asked for with the lower priority
  gets the lower number.
-/
import Roster.Proofs.Renumbering

namespace Roster

/-- A stable sort keeps the order of what it does not tell apart. -/
theorem pairwise_mergeSort_stable {α : Type} {le : α → α → Bool} {R : α → α → Prop} {l : List α}
    (trans : ∀ a b c, le a b = true → le b c = true → le a c = true)
    (total : ∀ a b, (le a b || le b a) = true) (h : l.Pairwise R) :
    (l.mergeSort le).Pairwise fun a b => le a b = true ∧ (le b a = true → R a b) := by
  -- sorted together with the positions, by which what is not told apart is ordered
  have hsorted : (l.zipIdx.mergeSort (List.zipIdxLE le)).Pairwise fun p q =>
      List.zipIdxLE le p q = true :=
    List.pairwise_mergeSort (List.zipIdxLE_trans trans) (List.zipIdxLE_total total) l.zipIdx
  have hpositions : l.zipIdx.Pairwise fun p q => p.2 ≠ q.2 := by
    have hlt : (l.zipIdx.map Prod.snd).Pairwise (· < ·) := by
      rw [List.zipIdx_map_snd]
      exact List.pairwise_lt_range'
    exact (List.pairwise_map.1 hlt).imp Nat.ne_of_lt
  have hdistinct := (List.mergeSort_perm l.zipIdx (List.zipIdxLE le)).symm.pairwise hpositions
    fun {p q} hne => Ne.symm hne
  rw [← List.mergeSort_zipIdx, List.pairwise_map]
  refine (hsorted.and hdistinct).imp_of_mem fun {p q} hp hq hpq => ?_
  obtain ⟨hle, hne⟩ := hpq
  have hp' := List.mk_mem_zipIdx_iff_getElem?.1 (List.mem_mergeSort.1 hp)
  have hq' := List.mk_mem_zipIdx_iff_getElem?.1 (List.mem_mergeSort.1 hq)
  unfold List.zipIdxLE at hle
  split at hle
  · rename_i hpq
    refine ⟨hpq, fun hqp => ?_⟩
    rw [if_pos hqp] at hle
    have hlt : p.2 < q.2 := Nat.lt_of_le_of_ne (of_decide_eq_true hle) hne
    obtain ⟨hi, hpi⟩ := List.getElem?_eq_some_iff.1 hp'
    obtain ⟨hj, hqj⟩ := List.getElem?_eq_some_iff.1 hq'
    have hR := List.pairwise_iff_getElem.1 h p.2 q.2 hi hj hlt
    rwa [hpi, hqj] at hR
  · cases hle

/-- A stable sort by numbers keeps the order of what has the same number. -/
theorem pairwise_mergeSort_by {α : Type} {key : α → Int} {R : α → α → Prop} {l : List α}
    (h : l.Pairwise R) :
    (l.mergeSort fun a b => decide (key a ≤ key b)).Pairwise fun a b =>
      key a < key b ∨ key a = key b ∧ R a b := by
  have htrans : ∀ a b c : α, decide (key a ≤ key b) = true → decide (key b ≤ key c) = true →
      decide (key a ≤ key c) = true := by
    intro a b c
    simp only [decide_eq_true_eq]
    omega
  have htotal : ∀ a b : α, (decide (key a ≤ key b) || decide (key b ≤ key a)) = true := by
    intro a b
    simp only [Bool.or_eq_true, decide_eq_true_eq]
    omega
  refine (pairwise_mergeSort_stable htrans htotal h).imp fun {a b} hab => ?_
  obtain ⟨hle, hR⟩ := hab
  rcases Int.lt_or_eq_of_le (of_decide_eq_true hle) with hlt | heq
  · exact .inl hlt
  · exact .inr ⟨heq, hR (decide_eq_true (Int.le_of_eq heq.symm))⟩

/-- In a list that is ordered by a relation, what stands in the relation to something else stands
before it. -/
theorem idxOf_map_lt {α β : Type} [DecidableEq β] {f : α → β} {R : α → α → Prop} {l : List α}
    (asymm : ∀ {a b}, R a b → ¬R b a) (ordered : l.Pairwise R) (once : (l.map f).Nodup)
    {a b : α} (ha : a ∈ l) (hb : b ∈ l) (h : R a b) :
    (l.map f).idxOf (f a) < (l.map f).idxOf (f b) := by
  have hidx : ∀ (p : Nat) (hp : p < l.length), (l.map f).idxOf (f l[p]) = p := by
    intro p hp
    have := once.idxOf_getElem p (by rwa [List.length_map])
    rwa [List.getElem_map] at this
  obtain ⟨p, hp, rfl⟩ := List.getElem_of_mem ha
  obtain ⟨q, hq, rfl⟩ := List.getElem_of_mem hb
  have hordered := List.pairwise_iff_getElem.1 ordered
  rw [hidx p hp, hidx q hq]
  -- were the places the other way, `R` would hold the other way too
  by_contra hle
  rcases Nat.lt_or_eq_of_le (Nat.le_of_not_lt hle) with hlt | rfl
  · exact asymm h (hordered q p hq hp hlt)
  · exact asymm h h

theorem Priority.explicit?_eq_some_iff {p : Priority} {v : Int} :
    p.explicit? = some v ↔ p = .explicit v := by
  cases p <;> simp [Priority.explicit?]

theorem Priority.isExplicit_iff {p : Priority} : p.isExplicit = true ↔ ∃ v, p = .explicit v := by
  cases p <;> simp [Priority.isExplicit]

namespace MemoryRemote

open Roster.Relation

variable {m : MemoryRemote} {owner : OwnerId} {r s : Relation} {relations : List Relation}

/-- The order of what is numbered: by what counts for it, and then by the position. -/
def Precedes (a b : Int × Nat) : Prop := a.1 < b.1 ∨ a.1 = b.1 ∧ a.2 < b.2

theorem Precedes.asymm {a b : Int × Nat} (h : Precedes a b) : ¬Precedes b a := by
  unfold Precedes at *
  omega

theorem mem_slots_iff {a : Int} {i : Nat} :
    (a, i) ∈ m.slots owner relations ↔ ∃ r, relations[i]? = some r ∧
    m.slot owner r i = some (a, i) := by
  rw [slots_eq, List.mem_filterMap]
  constructor
  · rintro ⟨⟨r, j⟩, hr, hs⟩
    obtain rfl := position_of_slot hs
    exact ⟨r, List.mk_mem_zipIdx_iff_getElem?.1 hr, hs⟩
  · rintro ⟨r, hr, hs⟩
    exact ⟨(r, i), List.mk_mem_zipIdx_iff_getElem?.2 hr, hs⟩

theorem pairwise_slots (m : MemoryRemote) (owner : OwnerId) (relations : List Relation) :
    (m.slots owner relations).Pairwise fun a b => a.2 < b.2 := by
  have hlt : (relations.zipIdx.map Prod.snd).Pairwise (· < ·) := by
    rw [List.zipIdx_map_snd]
    exact List.pairwise_lt_range'
  rw [slots_eq]
  refine (List.pairwise_map.1 hlt).filterMap _ fun p q hpq a ha b hb => ?_
  rwa [position_of_slot ha, position_of_slot hb]

/-- What is numbered, in the order of the numbers. -/
def sortedSlots (m : MemoryRemote) (owner : OwnerId) (relations : List Relation) :
    List (Int × Nat) :=
  (m.slots owner relations).mergeSort fun a b => decide (a.1 ≤ b.1)

theorem ranking_eq (m : MemoryRemote) (owner : OwnerId) (relations : List Relation) :
    m.ranking owner relations = (m.sortedSlots owner relations).map (·.2) := rfl

theorem pairwise_sortedSlots (m : MemoryRemote) (owner : OwnerId) (relations : List Relation) :
    (m.sortedSlots owner relations).Pairwise Precedes :=
  pairwise_mergeSort_by (pairwise_slots m owner relations)

theorem nodup_ranking (m : MemoryRemote) (owner : OwnerId) (relations : List Relation) :
    (m.ranking owner relations).Nodup := by
  have hperm : (m.ranking owner relations).Perm ((m.slots owner relations).map (·.2)) :=
    (List.mergeSort_perm _ _).map _
  refine hperm.nodup_iff.2 (List.pairwise_map.2 ?_)
  exact (pairwise_slots m owner relations).imp Nat.ne_of_lt

/-- What comes before something else has the lower rank. -/
theorem idxOf_lt_of_precedes {a b : Int × Nat} (ha : a ∈ m.slots owner relations)
    (hb : b ∈ m.slots owner relations) (h : Precedes a b) :
    (m.ranking owner relations).idxOf a.2 < (m.ranking owner relations).idxOf b.2 :=
  idxOf_map_lt (fun hab hba => hab.asymm hba) (pairwise_sortedSlots m owner relations)
    (nodup_ranking m owner relations) (List.mem_mergeSort.2 ha) (List.mem_mergeSort.2 hb) h

/-! ### The numbers of a list -/

theorem renumber_of_mem {ranking : List Nat} {i : Nat} (h : i ∈ ranking) (r : Relation) :
    renumber ranking i r = { r with priority := .explicit (ranking.idxOf i + 1) } := by
  obtain ⟨rank, hrank⟩ := Option.isSome_iff_exists.1 (List.isSome_idxOf?.2 h)
  have hidx : ranking.idxOf i = rank := by rw [List.idxOf_eq_getD_idxOf?, hrank, Option.getD_some]
  rw [renumber, hrank, hidx]

theorem getElem?_compacted (m : MemoryRemote) (owner : OwnerId)
    (relations : List Relation) (i : Nat) :
    (m.compacted owner relations)[i]? =
      relations[i]?.map (renumber (m.ranking owner relations) i) := List.getElem?_mapIdx

/-- Renumbering gives numbers to what had one, and takes none away. -/
theorem renumbers_renumber {ranking : List Nat} {i : Nat} (h : i ∈ ranking → m.renumbers r = true) :
    m.renumbers (renumber ranking i r) = m.renumbers r := renumbers_congr (outline_renumber h)

/-- How the numbers of a list stand to what was asked for. -/
structure Numbered (m : MemoryRemote) (owner : OwnerId) (relations : List Relation) : Prop where
  /-- All that has a number was asked for. -/
  ranked : Ranked m owner relations
  /-- They are 1, 2, …, each of them once. -/
  numbers : ((relations.filter m.renumbers).map (·.priority)).Perm
    ((List.range (relations.filter m.renumbers).length).map fun k => .explicit (k + 1))
  /-- They follow what was last asked for, and the position in the list where the same was asked
  for. -/
  increasing : ∀ {i j : Nat} {r s : Relation} {a b : Int}, relations[i]? = some r →
    relations[j]? = some s →
    m.renumbers r = true → m.renumbers s = true → m.requested owner r.target = some a →
    m.requested owner s.target = some b → Precedes (a, i) (b, j) →
    ∃ x y, r.priority = .explicit x ∧ s.priority = .explicit y ∧ x < y

/-- Of the remote only its rules and what it was asked for matter. -/
theorem Numbered.congr {n : MemoryRemote} (h : Numbered m owner relations) (hrules : SameRules m n)
    (hrequests : n.requested owner = m.requested owner) : Numbered n owner relations where
  ranked := h.ranked.congr hrules hrequests
  numbers := by
    rw [hrules.renumbers_eq]
    exact h.numbers
  increasing hr hs hnr hns ha hb := by
    rw [hrules.renumbers_eq] at hnr hns
    rw [hrequests] at ha hb
    exact h.increasing hr hs hnr hns ha hb

/-- A relation that is numbered and was asked for is ranked by what was asked for. -/
theorem slot_of_requested {i : Nat} {a : Int} (hn : m.renumbers r = true)
    (ha : m.requested owner r.target = some a) : m.slot owner r i = some (a, i) := by
  obtain ⟨-, hp, value, hv⟩ := renumbers_iff.1 hn
  simp only [slot, hp, hv, Priority.explicit?, ha, Option.getD_some]

/-- The relations that a renumbered list numbers, each with its position before. -/
theorem filter_compacted (hc : m.compacting = true) (owner : OwnerId) (relations : List Relation) :
    (m.compacted owner relations).filter m.renumbers =
      (relations.zipIdx.filter fun p => m.renumbers p.1).map fun p =>
        { p.1 with priority := .explicit ((m.ranking owner relations).idxOf p.2 + 1) } := by
  -- renumbering gives a number to what was to be renumbered, and to nothing else
  have hmem : ∀ p ∈ relations.zipIdx, p.2 ∈ m.ranking owner relations ↔ m.renumbers p.1 = true := by
    intro p hp
    rw [mem_ranking_iff hc, List.mk_mem_zipIdx_iff_getElem?.1 hp]
    simp
  rw [compacted, List.mapIdx_eq_zipIdx_map, List.filter_map]
  have hfilter : relations.zipIdx.filter
      (m.renumbers ∘ fun p => renumber (m.ranking owner relations) p.2 p.1) =
      relations.zipIdx.filter fun p => m.renumbers p.1 :=
    List.filter_congr fun p hp => renumbers_renumber (hmem p hp).1
  show List.map _ (relations.zipIdx.filter
    (m.renumbers ∘ fun p => renumber (m.ranking owner relations) p.2 p.1)) = _
  rw [hfilter]
  refine List.map_congr_left fun p hp => ?_
  obtain ⟨hp, hn⟩ := List.mem_filter.1 hp
  exact renumber_of_mem ((hmem p hp).2 hn) p.1

/-- The numbers of a renumbered list are 1, 2, …, each of them once. -/
theorem numbers_compacted (hc : m.compacting = true) (owner : OwnerId) (relations : List Relation) :
    (((m.compacted owner relations).filter m.renumbers).map (·.priority)).Perm
      ((List.range ((m.compacted owner relations).filter m.renumbers).length).map fun k =>
        .explicit (k + 1)) := by
  -- the positions that are numbered, in the order of the list, are the ranking in another order
  have hpositions : ((relations.zipIdx.filter fun p => m.renumbers p.1).map Prod.snd).Perm
      (m.ranking owner relations) := by
    refine (List.perm_ext_iff_of_nodup ?_ (nodup_ranking m owner relations)).2 fun i => ?_
    · refine List.Nodup.sublist (List.filter_sublist.map Prod.snd) ?_
      rw [List.zipIdx_map_snd]
      exact List.nodup_range'
    · rw [mem_ranking_iff hc]
      simp only [List.mem_map, List.mem_filter]
      constructor
      · rintro ⟨⟨r, j⟩, ⟨hr, hn⟩, rfl⟩
        exact ⟨r, List.mk_mem_zipIdx_iff_getElem?.1 hr, hn⟩
      · rintro ⟨r, hr, hn⟩
        exact ⟨(r, i), ⟨List.mk_mem_zipIdx_iff_getElem?.2 hr, hn⟩, rfl⟩
  have hranks : (m.ranking owner relations).map ((m.ranking owner relations).idxOf ·) =
      List.range (m.ranking owner relations).length := by
    refine List.ext_getElem (by simp) fun i hi _ => ?_
    rw [List.getElem_map, List.getElem_range, (nodup_ranking m owner relations).idxOf_getElem]
  have hlength : ((m.compacted owner relations).filter m.renumbers).length =
      (m.ranking owner relations).length := by
    rw [filter_compacted hc, List.length_map, ← hpositions.length_eq, List.length_map]
  have hnumbers := (hpositions.map fun i => (m.ranking owner relations).idxOf i).map
    fun k : Nat => Priority.explicit (k + 1)
  rw [hranks, List.map_map, List.map_map] at hnumbers
  rw [hlength, filter_compacted hc, List.map_map]
  exact hnumbers

/-- A number of a renumbered list is the rank of its position. -/
theorem getElem?_compacted_of_renumbers (hc : m.compacting = true) {i : Nat} (owner : OwnerId)
    (hr : relations[i]? = some r) (hn : m.renumbers r = true) :
    (m.compacted owner relations)[i]? =
      some { r with priority := .explicit ((m.ranking owner relations).idxOf i + 1) } := by
  have hi : i ∈ m.ranking owner relations := (mem_ranking_iff hc).2 ⟨r, hr, hn⟩
  rw [getElem?_compacted, hr, Option.map_some, renumber_of_mem hi]

/-- What has a number in a renumbered list had one before. -/
theorem of_getElem?_compacted (hc : m.compacting = true) {i : Nat}
    (hs : (m.compacted owner relations)[i]? = some s) (hn : m.renumbers s = true) :
    ∃ r, relations[i]? = some r ∧ m.renumbers r = true ∧
      s = { r with priority := .explicit ((m.ranking owner relations).idxOf i + 1) } := by
  have hs' := hs
  rw [getElem?_compacted] at hs
  obtain ⟨r, hr, rfl⟩ := Option.map_eq_some_iff.1 hs
  have hmem : i ∈ m.ranking owner relations → m.renumbers r = true := by
    intro hi
    obtain ⟨q, hq, hqn⟩ := (mem_ranking_iff hc).1 hi
    rw [hr] at hq
    rwa [Option.some.inj hq]
  have hr' : m.renumbers r = true := by rwa [← renumbers_renumber hmem]
  refine ⟨r, hr, hr', ?_⟩
  rw [getElem?_compacted_of_renumbers hc owner hr hr'] at hs'
  exact (Option.some.inj hs').symm

/-- What was asked for with the lower priority has the lower rank, and what stands first if the same
was asked for. -/
theorem rank_lt {i j : Nat} {a b : Int} (hr : relations[i]? = some r) (hs : relations[j]? = some s)
    (hnr : m.renumbers r = true) (hns : m.renumbers s = true)
    (ha : m.requested owner r.target = some a) (hb : m.requested owner s.target = some b)
    (h : Precedes (a, i) (b, j)) :
    (m.ranking owner relations).idxOf i < (m.ranking owner relations).idxOf j :=
  idxOf_lt_of_precedes (mem_slots_iff.2 ⟨r, hr, slot_of_requested hnr ha⟩)
    (mem_slots_iff.2 ⟨s, hs, slot_of_requested hns hb⟩) h

/-- A list that was renumbered is numbered by what was asked for. -/
theorem numbered_compacted (hc : m.compacting = true) (h : Ranked m owner relations) :
    Numbered m owner (m.compacted owner relations) where
  ranked := ranked_congr (outlines_compacted hc owner relations).symm h
  numbers := numbers_compacted hc owner relations
  increasing hr hs hnr hns ha hb h := by
    obtain ⟨r', hr', hnr', rfl⟩ := of_getElem?_compacted hc hr hnr
    obtain ⟨s', hs', hns', rfl⟩ := of_getElem?_compacted hc hs hns
    have hlt := rank_lt hr' hs' hnr' hns' ha hb h
    exact ⟨_, _, rfl, rfl, by omega⟩

/-! ### Looking numbers up -/

/-- The number that a list confirms for a target. -/
def number? (id : TargetId) (relations : List Relation) : Option Int :=
  (find? id relations).bind (·.priority.explicit?)

/-- What is found under a target is found at the same position of the renumbered list. -/
theorem find?_compacted {id : TargetId} (m : MemoryRemote) (owner : OwnerId)
    (h : find? id relations = some r) :
    ∃ i : Nat, relations[i]? = some r ∧
      find? id (m.compacted owner relations) = (m.compacted owner relations)[i]? := by
  obtain ⟨hr, i, hi, rfl, hbefore⟩ := List.find?_eq_some_iff_getElem.1 h
  refine ⟨i, List.getElem?_eq_getElem hi, ?_⟩
  have hi' : i < (m.compacted owner relations).length := by
    rwa [compacted, List.length_mapIdx]
  rw [List.getElem?_eq_getElem hi']
  refine List.find?_eq_some_iff_getElem.2 ⟨?_, i, hi', rfl, fun j hj => ?_⟩
  · simpa [compacted, target_renumber] using hr
  · simpa [compacted, target_renumber] using hbefore j hj

/-- A target that is not pinned keeps having a number. -/
theorem number?_compacted {id : TargetId} (hc : m.compacting = true) (owner : OwnerId)
    (hp : m.pinned id = none) (h : (number? id relations).isSome = true) :
    ∃ (i : Nat) (r : Relation), relations[i]? = some r ∧ r.target = id ∧ m.renumbers r = true ∧
      number? id (m.compacted owner relations) =
        some (((m.ranking owner relations).idxOf i : Int) + 1) := by
  obtain ⟨x, hx⟩ := Option.isSome_iff_exists.1 h
  obtain ⟨r, hr, hrx⟩ := Option.bind_eq_some_iff.1 hx
  obtain ⟨ht, -⟩ := find?_eq_some hr
  have hn : m.renumbers r = true :=
    renumbers_iff.2 ⟨hc, by rwa [ht], x, Priority.explicit?_eq_some_iff.1 hrx⟩
  obtain ⟨i, hi, hfind⟩ := find?_compacted m owner hr
  refine ⟨i, r, hi, ht, hn, ?_⟩
  rw [number?, hfind, getElem?_compacted_of_renumbers hc owner hi hn]
  rfl

/-- Of two targets that are not pinned, the one that was last asked for with the lower priority gets
the lower number. -/
theorem number?_compacted_lt {id other : TargetId} {v w : Int} (hc : m.compacting = true)
    (hid : m.pinned id = none) (hother : m.pinned other = none) (hv : m.requested owner id = some v)
    (hw : m.requested owner other = some w) (hx : (number? id relations).isSome = true)
    (hy : (number? other relations).isSome = true) (h : v < w) :
    ∃ x y, number? id (m.compacted owner relations) = some x ∧
      number? other (m.compacted owner relations) = some y ∧ x < y := by
  obtain ⟨i, r, hr, rfl, hnr, hxr⟩ := number?_compacted hc owner hid hx
  obtain ⟨j, s, hs, rfl, hns, hys⟩ := number?_compacted hc owner hother hy
  have hlt := rank_lt hr hs hnr hns hv hw (.inl h)
  exact ⟨_, _, hxr, hys, by omega⟩

end MemoryRemote

end Roster
