/-
The same relation sent twice.

Sending a relation to a remote in memory a second time puts it where it stands.  A remote that
renumbers does so once more, and ranks what was asked for by what was asked for, but what it only
found in its snapshot by the number that the first renumbering gave it.  So the second list is the
first one exactly if both orders agree on what is ranked in the one way and what is ranked in the
other.

* `ranking_eq_of_order`: positions in the same order are ranked alike;
* `InPlace`, `compacted_compacted_iff`: when a renumbered list stays as it is if it is renumbered
  again;
* `upsert_upsert`: what the second upsert leaves;
* `grown`: the remotes that grow from a snapshot, and `upsert_again_iff` for all of them.
-/
import Roster.Proofs.Requests
import Roster.Proofs.Resending

namespace Roster.MemoryRemote

open Roster.Relation

variable {m n k : MemoryRemote} {owner : OwnerId} {r s : Relation}
  {relations others : List Relation}

/-! ### Lists that are renumbered twice -/

theorem Precedes.trichotomy (a b : Int × Nat) : Precedes a b ∨ a = b ∨ Precedes b a := by
  obtain ⟨x, i⟩ := a
  obtain ⟨y, j⟩ := b
  simp only [Precedes, Prod.mk.injEq]
  omega

/-- The ranks of two numbered positions compare as what the positions are ranked by. -/
theorem idxOf_lt_iff {a b : Int × Nat} (ha : a ∈ m.slots owner relations)
    (hb : b ∈ m.slots owner relations) :
    (m.ranking owner relations).idxOf a.2 < (m.ranking owner relations).idxOf b.2 ↔
    Precedes a b := by
  refine ⟨fun hlt => ?_, idxOf_lt_of_precedes ha hb⟩
  rcases Precedes.trichotomy a b with h | rfl | h
  · exact h
  · exact absurd hlt (Nat.lt_irrefl _)
  · exact absurd (idxOf_lt_of_precedes hb ha h) (Nat.lt_asymm hlt)

/-- Two lists with the same positions to be ranked are ranked alike if what comes first in the one
ranking is not behind in the other list. -/
theorem ranking_eq_of_order
    (hsame : ∀ i, i ∈ n.ranking owner others ↔ i ∈ m.ranking owner relations)
    (horder : ∀ a ∈ n.slots owner others, ∀ b ∈ n.slots owner others,
      (m.ranking owner relations).idxOf a.2 < (m.ranking owner relations).idxOf b.2 →
      Precedes a b) :
    n.ranking owner others = m.ranking owner relations := by
  have hnodup := nodup_ranking m owner relations
  have hperm : (n.ranking owner others).Perm (m.ranking owner relations) :=
    (List.perm_ext_iff_of_nodup (nodup_ranking n owner others) hnodup).2 hsame
  -- both are sorted by the rank in the second one
  have hfirst : (n.ranking owner others).Pairwise fun i j =>
      (m.ranking owner relations).idxOf i ≤ (m.ranking owner relations).idxOf j := by
    rw [ranking_eq n, List.pairwise_map]
    refine (pairwise_sortedSlots n owner others).imp_of_mem fun {a b} ha hb hab =>
      Nat.le_of_not_lt fun hlt => ?_
    exact hab.asymm (horder b (List.mem_mergeSort.1 hb) a (List.mem_mergeSort.1 ha) hlt)
  have hsecond : (m.ranking owner relations).Pairwise fun i j =>
      (m.ranking owner relations).idxOf i ≤ (m.ranking owner relations).idxOf j := by
    refine List.pairwise_iff_getElem.2 fun i j hi hj hij => ?_
    rw [hnodup.idxOf_getElem i hi, hnodup.idxOf_getElem j hj]
    exact Nat.le_of_lt hij
  refine hperm.eq_of_pairwise (fun i j hi _ hij hji => ?_) hfirst hsecond
  exact (List.idxOf_inj ((hsame i).1 hi)).1 (Nat.le_antisymm hij hji)

/-- Whatever was never asked for stands, by the number that it has, among what was asked for where
that number stands among the others. -/
def InPlace (m : MemoryRemote) (owner : OwnerId) (relations : List Relation) : Prop :=
  ∀ (i j : Nat) (r s : Relation) (a b v : Int), relations[i]? = some r → relations[j]? = some s →
    m.renumbers r = true → m.renumbers s = true → r.priority = .explicit a →
      s.priority = .explicit b →
    m.requested owner r.target = none → m.requested owner s.target = some v →
    (a < b ↔ Precedes (a, i) (v, j))

theorem inPlace_of_ranked (h : Ranked m owner relations) : InPlace m owner relations := by
  intro i j r s a b v hr _ hn _ _ _ hnone _
  have hsome := h r (List.mem_of_getElem? hr) hn
  rw [hnone] at hsome
  cases hsome

theorem inPlace_of_not_compacting (h : m.compacting = false) (owner : OwnerId)
    (relations : List Relation) :
    InPlace m owner relations := by
  intro i j r s a b v _ _ hn
  obtain ⟨hc, -⟩ := renumbers_iff.1 hn
  rw [h] at hc
  cases hc

/-- What is ranked has a number and a key: what was asked for, or else the number. -/
theorem of_mem_slots {p : Int × Nat} (hc : m.compacting = true) (h : p ∈ m.slots owner relations) :
    ∃ r a, relations[p.2]? = some r ∧ m.renumbers r = true ∧ r.priority = .explicit a ∧
      p.1 = (m.requested owner r.target).getD a := by
  obtain ⟨key, i⟩ := p
  obtain ⟨r, hr, hslot⟩ := mem_slots_iff.1 h
  have hn : m.renumbers r = true := (slot_isSome_iff hc owner i).1 (Option.isSome_of_eq_some hslot)
  obtain ⟨-, hp, a, ha⟩ := renumbers_iff.1 hn
  refine ⟨r, a, hr, hn, ha, ?_⟩
  simp only [slot, hp, ha, Priority.explicit?, Option.some.injEq, Prod.mk.injEq, and_true] at hslot
  exact hslot.symm

theorem slot_of_renumbers {i : Nat} {a : Int} (hn : m.renumbers r = true)
    (ha : r.priority = .explicit a) (owner : OwnerId) :
    m.slot owner r i = some ((m.requested owner r.target).getD a, i) := by
  obtain ⟨-, hp, -⟩ := renumbers_iff.1 hn
  simp only [slot, hp, ha, Priority.explicit?]

/-- The number that a position of a renumbered list has is its rank before. -/
theorem number_of_compacted {i : Nat} {a : Int} (hc : m.compacting = true)
    (hs : (m.compacted owner relations)[i]? = some s) (hn : m.renumbers s = true)
    (ha : s.priority = .explicit a) : a = (m.ranking owner relations).idxOf i + 1 := by
  obtain ⟨r, -, -, rfl⟩ := of_getElem?_compacted hc hs hn
  exact (Priority.explicit.inj ha).symm

theorem mem_ranking_compacted (hc : m.compacting = true) (i : Nat) :
    i ∈ m.ranking owner (m.compacted owner relations) ↔ i ∈ m.ranking owner relations := by
  rw [mem_ranking_iff hc, mem_ranking_iff hc]
  constructor
  · rintro ⟨s, hs, hn⟩
    obtain ⟨r, hr, hnr, -⟩ := of_getElem?_compacted hc hs hn
    exact ⟨r, hr, hnr⟩
  · rintro ⟨r, hr, hn⟩
    refine ⟨_, getElem?_compacted_of_renumbers hc owner hr hn, ?_⟩
    obtain ⟨-, hp, -⟩ := renumbers_iff.1 hn
    exact renumbers_iff.2 ⟨hc, hp, _, rfl⟩

/-- A renumbered list in which everything is in place is ranked as before. -/
theorem ranking_compacted_of_inPlace (hc : m.compacting = true)
    (h : InPlace m owner (m.compacted owner relations)) :
    m.ranking owner (m.compacted owner relations) = m.ranking owner relations := by
  refine ranking_eq_of_order (mem_ranking_compacted hc) fun p hp q hq hlt => ?_
  obtain ⟨r, a, hr, hnr, ha, hkey⟩ := of_mem_slots hc hp
  obtain ⟨s, b, hs, hns, hb, hkey'⟩ := of_mem_slots hc hq
  obtain ⟨key, i⟩ := p
  obtain ⟨key', j⟩ := q
  have hai := number_of_compacted hc hr hnr ha
  have hbj := number_of_compacted hc hs hns hb
  dsimp only at hr hs hkey hkey' hlt hai hbj
  have hab : a < b := by omega
  cases hv : m.requested owner r.target with
  | none =>
    cases hw : m.requested owner s.target with
    | none =>
      simp only [hv, hw, Option.getD_none] at hkey hkey'
      exact .inl (by rwa [hkey, hkey'])
    | some w =>
      simp only [hv, hw, Option.getD_none, Option.getD_some] at hkey hkey'
      rw [hkey, hkey']
      exact (h i j r s a b w hr hs hnr hns ha hb hv hw).1 hab
  | some v =>
    cases hw : m.requested owner s.target with
    | none =>
      simp only [hv, hw, Option.getD_none, Option.getD_some] at hkey hkey'
      subst hkey hkey'
      rcases Precedes.trichotomy (key, i) (key', j) with hpq | he | hqp
      · exact hpq
      · obtain ⟨-, rfl⟩ := Prod.mk.inj he
        exact absurd hlt (Nat.lt_irrefl _)
      · exact absurd ((h j i s r key' a key hs hr hns hnr hb ha hw hv).2 hqp) (Int.lt_asymm hab)
    | some w =>
      -- both were asked for, so they were ranked by the same before
      simp only [hv, hw, Option.getD_some] at hkey hkey'
      obtain ⟨r', hr', hnr', rfl⟩ := of_getElem?_compacted hc hr hnr
      obtain ⟨s', hs', hns', rfl⟩ := of_getElem?_compacted hc hs hns
      rw [hkey, hkey']
      exact (idxOf_lt_iff (mem_slots_iff.2 ⟨r', hr', slot_of_requested hnr' hv⟩)
        (mem_slots_iff.2 ⟨s', hs', slot_of_requested hns' hw⟩)).1 hlt

/-- A list that renumbering leaves alone has everything in place. -/
theorem inPlace_of_compacted (hc : m.compacting = true)
    (h : m.compacted owner relations = relations) :
    InPlace m owner relations := by
  intro i j r s a b v hr hs hnr hns ha hb hnone hv
  have hai : a = (m.ranking owner relations).idxOf i + 1 :=
    number_of_compacted hc (by rwa [h]) hnr ha
  have hbj : b = (m.ranking owner relations).idxOf j + 1 :=
    number_of_compacted hc (by rwa [h]) hns hb
  have hslot := slot_of_renumbers (i := i) hnr ha owner
  rw [hnone, Option.getD_none] at hslot
  have hiff := idxOf_lt_iff (mem_slots_iff.2 ⟨r, hr, hslot⟩)
    (mem_slots_iff.2 ⟨s, hs, slot_of_requested hns hv⟩)
  rw [← hiff]
  dsimp only
  omega

/-- Renumbering a list once more leaves it alone exactly if everything in it is in place. -/
theorem compacted_compacted_iff (hc : m.compacting = true) :
    m.compacted owner (m.compacted owner relations) = m.compacted owner relations ↔
      InPlace m owner (m.compacted owner relations) := by
  refine ⟨inPlace_of_compacted hc, fun h => ?_⟩
  exact compacted_congr_of_ranking hc (outlines_compacted hc owner relations)
    (ranking_compacted_of_inPlace hc h)

/-! ### Relations that are sent twice -/

theorem slots_putFirst (hfind : find? r.target relations = some s)
    (h : ∀ i, m.slot owner r i = m.slot owner s i) :
    m.slots owner (putFirst r relations) = m.slots owner relations := by
  rw [slots_eq, slots_eq]
  -- position by position, from any first position on
  generalize 0 = start
  induction relations generalizing start with
  | nil => cases hfind
  | cons t rest ih =>
    rw [find?_cons] at hfind
    rw [putFirst]
    by_cases ht : t.target = r.target
    · rw [if_pos ht] at hfind ⊢
      obtain rfl := Option.some.inj hfind
      simp only [List.zipIdx_cons, List.filterMap_cons, h]
    · rw [if_neg ht] at hfind ⊢
      simp only [List.zipIdx_cons, List.filterMap_cons, ih hfind]

theorem find?_outlines (id : TargetId) (m : MemoryRemote) (relations : List Relation) :
    find? id (m.outlines relations) = (find? id relations).map m.outline := by
  induction relations with
  | nil => rfl
  | cons r rest ih =>
    show find? id (m.outline r :: m.outlines rest) = _
    rw [find?_cons, find?_cons, target_outline, ih]
    split <;> rfl

/-- A relation that was asked for may be put where it stands with any number before a list is
renumbered. -/
theorem compacted_putFirst (hc : m.compacting = true) (hfind : find? r.target relations = some s)
    (h : m.outline r = m.outline s)
    (hasked : m.renumbers r = true → (m.requested owner r.target).isSome = true) :
    m.compacted owner (putFirst r relations) = m.compacted owner relations := by
  have houtlines : m.outlines (putFirst r relations) = m.outlines relations := by
    rw [outlines_putFirst]
    refine putFirst_of_find? ?_
    rw [target_outline, find?_outlines, hfind, Option.map_some, h]
  refine compacted_congr_of_ranking hc houtlines ?_
  rw [ranking, ranking, slots_putFirst hfind (slot_congr hc (.refl m) h hasked fun _ => rfl)]

/-- What is asked for again is on record. -/
theorem noted_of_requested (h : m.requested owner r.target = r.priority.explicit?) :
    m.noted owner r = m.record (.upsert owner r.target) := by
  have hrequested : (m.noted owner r).requested = m.requested := by
    funext o t
    show (if o = owner ∧ t = r.target then r.priority.explicit? else m.requested o t) =
      m.requested o t
    split
    · rename_i ht
      rw [ht.1, ht.2, h]
    · rfl
  exact congrArg (fun q => { m.record (.upsert owner r.target) with requested := q }) hrequested

/-- Right after a relation was sent, sending it again does no more than renumber the list. -/
theorem relationsAfter_again (hrequested : m.requested owner r.target = r.priority.explicit?)
    (before : List Relation) :
    m.relationsAfter owner r (m.relationsAfter owner r before) =
      if m.compacting then m.compacted owner (m.relationsAfter owner r before)
      else m.relationsAfter owner r before := by
  have hfind : find? (m.stored r).target (putFirst (m.stored r) before) = some (m.stored r) := by
    rw [find?_putFirst, if_pos rfl]
  cases hc : m.compacting with
  | false =>
    rw [relationsAfter_of_not_compacting hc, relationsAfter_of_not_compacting hc,
      putFirst_of_find? hfind]
    rfl
  | true =>
    have hafter : ∀ relations, m.relationsAfter owner r relations =
        m.compacted owner (putFirst (m.stored r) relations) := fun relations => if_pos hc
    rw [hafter before, hafter, if_pos rfl]
    -- where the relation stands after the first time, it stands as it would be sent
    obtain ⟨i, hi, hfind'⟩ := find?_compacted m owner hfind
    rw [getElem?_compacted, hi, Option.map_some] at hfind'
    refine compacted_putFirst hc hfind' (outline_renumber fun hmem => ?_).symm fun hn => ?_
    · obtain ⟨q, hq, hqn⟩ := (mem_ranking_iff hc).1 hmem
      rwa [Option.some.inj (hi.symm.trans hq)]
    · rw [target_stored, hrequested]
      exact explicit?_of_renumbers_stored hn

theorem failures_of_upsert_ok (h : upsert owner r m = (.ok (), n)) :
    m.failures .upsert r.target = none := by
  cases hf : m.failures .upsert r.target with
  | none => rfl
  | some error =>
    rw [upsert_of_failure hf] at h
    cases h

/-- What the second upsert leaves. -/
theorem upsert_upsert (h : upsert owner r m = (.ok (), n)) :
    ∃ before relations, relations = n.relationsAfter owner r before ∧
      n.relations? owner = some relations ∧
      n.owners = Fields.insert owner.text relations m.owners ∧
      upsert owner r n = (.ok (), (n.record (.upsert owner r.target)).setRelations owner
        (if n.compacting then n.compacted owner relations else relations)) := by
  have hf := failures_of_upsert_ok h
  obtain ⟨before, -, hn⟩ := of_upsert_ok h
  have hfailures : n.failures .upsert r.target = none := by rwa [hn]
  have hrequested : n.requested owner r.target = r.priority.explicit? := by
    rw [hn]
    exact requested_request_self ..
  have hr : n.relations? owner = some (n.relationsAfter owner r before) := by
    rw [hn]
    exact relations?_setRelations_self ..
  have hagain : (n.record (.upsert owner r.target)).relationsAfter owner r
      (n.relationsAfter owner r before) =
        if n.compacting then n.compacted owner (n.relationsAfter owner r before)
        else n.relationsAfter owner r before := relationsAfter_again hrequested before
  refine ⟨before, _, rfl, hr, ?_, ?_⟩
  · rw [hn]
    rfl
  · rw [upsert_of_owner hfailures hr, noted_of_requested hrequested, hagain]

/-- Renumbering leaves a list alone right after a relation was sent exactly if everything in it is
in place. -/
theorem settled_relationsAfter_iff (before : List Relation) :
    Settled m owner (m.relationsAfter owner r before) ↔
    InPlace m owner (m.relationsAfter owner r before) := by
  cases hc : m.compacting with
  | false =>
    refine iff_of_true (fun hc' => ?_) (inPlace_of_not_compacting hc owner _)
    rw [hc] at hc'
    cases hc'
  | true =>
    have hafter : m.relationsAfter owner r before =
        m.compacted owner (putFirst (m.stored r) before) := if_pos hc
    rw [hafter, ← compacted_compacted_iff hc]
    exact ⟨fun h => h hc, fun h _ => h⟩

theorem outlines_again (m : MemoryRemote) (owner : OwnerId) (relations : List Relation) :
    m.outlines (if m.compacting then m.compacted owner relations else relations) =
      m.outlines relations := by
  split
  · rename_i hc
    exact outlines_compacted hc owner relations
  · rfl

/-! ### Remotes that grow from a snapshot -/

/-- The remote after a history that starts with the given remote, the latest event first. -/
def grown (m : MemoryRemote) : List Event → MemoryRemote
  | [] => m
  | e :: before => (e.apply (grown m before)).2

theorem grown_empty (compacting : Bool) (history : List Event) :
    grown { MemoryRemote.empty with compacting := compacting } history =
      after compacting history := by
  induction history with
  | nil => rfl
  | cons e before ih => exact congrArg (fun m => (e.apply m).2) ih

theorem compacting_grown (m : MemoryRemote) (history : List Event) :
    (grown m history).compacting = m.compacting := by
  induction history with
  | nil => rfl
  | cons e before ih => exact (compacting_apply e _).trans ih

/-- **Sending a relation twice.**  A remote that accepted a relation accepts it again, and only
numbers in the list of its owner can change.  Nothing changes exactly if what was never asked for
has, by its number, its place among what was asked for; so nothing changes if the remote does not
renumber, or if it grew from an empty one. -/
theorem upsert_again_iff (owners : List (String × List Relation)) (compacting : Bool)
    (history : List Event)
    (h : upsert owner r (grown { ofOwners owners with compacting := compacting } history) =
      (.ok (), n)) :
    ∃ k relations again, upsert owner r n = (.ok (), k) ∧
      n.relations? owner = some relations ∧ k.relations? owner = some again ∧
      n.outlines again = n.outlines relations ∧
      (∀ other, owner ≠ other → k.relations? other = n.relations? other) ∧
      (k.owners = n.owners ↔ InPlace n owner relations) ∧
      (compacting = false ∨ owners = [] → k.owners = n.owners) := by
  obtain ⟨before, relations, hrelations, hr, howners, hagain⟩ := upsert_upsert h
  have hiff : Fields.insert owner.text
      (if n.compacting then n.compacted owner relations else relations) n.owners =
      n.owners ↔ InPlace n owner relations := by
    rw [hrelations, ← settled_relationsAfter_iff, ← hrelations]
    constructor
    · intro he hc
      have hget := congrArg (Fields.get? owner.text) he
      rw [Fields.get?_insert_self, if_pos hc] at hget
      exact Option.some.inj (hget.trans hr)
    · intro hsettled
      have hsame : (if n.compacting then n.compacted owner relations else relations) =
          relations := by
        split
        · rename_i hc
          exact hsettled hc
        · rfl
      rw [hsame, howners, Fields.insert_insert]
  refine ⟨_, relations, _, hagain, hr, relations?_setRelations_self ..,
    outlines_again n owner relations,
    fun other ho => relations?_setRelations_of_ne ho _ _, hiff, fun hcase => hiff.2 ?_⟩
  have hcompacting : n.compacting = compacting := by
    have hsame :=
      same_upsert owner r (grown { ofOwners owners with compacting := compacting } history)
    rw [h] at hsame
    exact hsame.compacting.trans (compacting_grown _ history)
  rcases hcase with rfl | rfl
  · exact inPlace_of_not_compacting hcompacting owner relations
  · -- a remote that starts empty was asked for all that it numbers
    have horderly : Orderly n owner := by
      have hafter := grown_empty compacting history
      have hupsert := orderly_upsert (orderly_after compacting history owner) owner r
      rw [← hafter] at hupsert
      have hn := congrArg Prod.snd h
      dsimp only at hn
      rwa [← hn]
    cases hc : n.compacting with
    | false => exact inPlace_of_not_compacting hc owner relations
    | true => exact inPlace_of_ranked (horderly hc relations hr).2

/-- A remote that renumbers, and whose snapshot holds a relation with a number that nobody asked
for. -/
def numberedSnapshot : List (String × List Relation) := [("app", [⟨⟨"a"⟩, .explicit 100, .empty⟩])]

theorem upsert_again_iff_sample :
    ∃ n k, upsert ⟨"app"⟩ ⟨⟨"b"⟩, .explicit 5, .empty⟩
        (grown { ofOwners numberedSnapshot with compacting := true } []) = (.ok (), n) ∧
      upsert ⟨"app"⟩ ⟨⟨"b"⟩, .explicit 5, .empty⟩ n = (.ok (), k) ∧
      n.relations? ⟨"app"⟩ = some [⟨⟨"a"⟩, .explicit 2, .empty⟩, ⟨⟨"b"⟩, .explicit 1, .empty⟩] ∧
      k.owners ≠ n.owners := by
  let m := grown { ofOwners numberedSnapshot with compacting := true } []
  obtain ⟨n, hn⟩ : ∃ n, upsert ⟨"app"⟩ ⟨⟨"b"⟩, .explicit 5, .empty⟩ m = (.ok (), n) := ⟨_, rfl⟩
  obtain ⟨k, relations, again, hk, hr, -, -, -, hiff, -⟩ :=
    upsert_again_iff numberedSnapshot true [] hn
  obtain rfl := congrArg Prod.snd hn
  -- the number that was asked for comes first
  have hranking : (m.noted ⟨"app"⟩ ⟨⟨"b"⟩, .explicit 5, .empty⟩).ranking ⟨"app"⟩
      [⟨⟨"a"⟩, .explicit 100, .empty⟩, ⟨⟨"b"⟩, .explicit 5, .empty⟩] = [1, 0] := by
    show (List.mergeSort [(100, 0), (5, 1)] fun a b => decide (a.1 ≤ b.1)).map (·.2) = [1, 0]
    simp [List.mergeSort]
  have hlist : (upsert ⟨"app"⟩ ⟨⟨"b"⟩, .explicit 5, .empty⟩ m).2.relations? ⟨"app"⟩ =
      some [⟨⟨"a"⟩, .explicit 2, .empty⟩, ⟨⟨"b"⟩, .explicit 1, .empty⟩] := by
    show some (List.mapIdx (renumber ((m.noted ⟨"app"⟩ ⟨⟨"b"⟩, .explicit 5, .empty⟩).ranking ⟨"app"⟩
      [⟨⟨"a"⟩, .explicit 100, .empty⟩, ⟨⟨"b"⟩, .explicit 5, .empty⟩])) _) = _
    rw [hranking]
    rfl
  obtain rfl := Option.some.inj (hr.symm.trans hlist)
  refine ⟨_, k, hn, hk, hlist, fun he => ?_⟩
  have hplace := hiff.1 he 0 1 _ _ 2 1 5 rfl rfl rfl rfl rfl rfl rfl rfl
  revert hplace
  unfold Precedes
  decide

end Roster.MemoryRemote
