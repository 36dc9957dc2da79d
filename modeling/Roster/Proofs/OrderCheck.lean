/-
What the order check finds.

A target is compared if the declaration asks for a priority of it and the first relation to it in
the view has one.  Two compared targets clash if one was declared lower than the other and is not
confirmed lower.  The check looks at pairs in the order of the declared priorities only, so a clash
is never met the other way round, and targets that were declared alike never clash, wherever they
stand.

* `Compared`, `mem_entries_iff`: what is compared;
* `pairwise_mergeSort_of_sublist`: the declared priorities in their order, equal ones as they were
  declared;
* `mem_violationsFrom_iff`, `pairwise_violationsFrom`: the pairs that a sorted list reports, and
  their order;
* `OrderReport.Exact`, `check_exact`: the whole account of a report;
* `ok_iff_sorts_agree`: the check against two independent sorts.
-/
import Mathlib.Data.Int.Order.Basic
import Mathlib.Data.Prod.Lex
import Roster.Ordering
import Roster.Proofs.Ranking
import Roster.Proofs.ViewParts

namespace Roster

open Roster.Relation
open MemoryRemote (Precedes)

/-! ### The declared order -/

/-- What is read off relations one by one keeps their order. -/
theorem sublist_targets_filterMap {α : Type} {f : Relation → Option α} {target : α → TargetId}
    (h : ∀ d a, f d = some a → target a = d.target) (ds : List Relation) :
    ((ds.filterMap f).map target).Sublist (targets ds) := by
  induction ds with
  | nil => exact List.Sublist.slnil
  | cons d ds ih =>
    rw [List.filterMap_cons, targets_cons]
    cases hd : f d with
    | none => exact ih.cons _
    | some a =>
      rw [List.map_cons, h d a hd]
      exact ih.cons_cons _

namespace DesiredSet

/-- The targets for which a priority is asked, lower ones first; where the same is asked for they
stay in declared order. -/
def byPriority (set : DesiredSet) : List (TargetId × Int) :=
  (set.relations.filterMap fun d => d.priority.explicit?.map fun v => (d.target, v)).mergeSort
    fun a b => decide (a.2 ≤ b.2)

/-- The place of a target in the order of the declared priorities. -/
def place (set : DesiredSet) (id : TargetId) : Nat := (set.byPriority.map Prod.fst).idxOf id

variable {set : DesiredSet} {α : Type} {value : α → Int} {target : α → TargetId}

/-- What stands in declared order is sorted by the priorities, and what has the same one by the
declaration. -/
theorem pairwise_mergeSort_of_sublist {l : List α} (h : (l.map target).Sublist set.targets) :
    (l.mergeSort fun a b => decide (value a ≤ value b)).Pairwise fun a b =>
      Precedes (value a, set.targets.idxOf (target a)) (value b, set.targets.idxOf (target b)) := by
  have once : set.targets.Nodup := set.distinct
  have htargets : set.targets.Pairwise fun x y => set.targets.idxOf x < set.targets.idxOf y := by
    refine List.pairwise_iff_getElem.2 fun i j hi hj hij => ?_
    rwa [once.idxOf_getElem i hi, once.idxOf_getElem j hj]
  have hl : (l.map target).Pairwise fun x y => set.targets.idxOf x < set.targets.idxOf y :=
    htargets.sublist h
  rw [List.pairwise_map] at hl
  exact pairwise_mergeSort_by hl

theorem sublist_asked (set : DesiredSet) :
    ((set.relations.filterMap fun d => d.priority.explicit?.map fun v => (d.target, v)).map
      Prod.fst).Sublist set.targets := by
  refine sublist_targets_filterMap (fun d a hd => ?_) set.relations
  obtain ⟨v, -, rfl⟩ := Option.map_eq_some_iff.1 hd
  rfl

theorem mem_byPriority {id : TargetId} {v : Int} :
    (id, v) ∈ set.byPriority ↔ ∃ d ∈ set.relations, d.target = id ∧ d.priority = .explicit v := by
  simp only [byPriority, List.mem_mergeSort, List.mem_filterMap, Option.map_eq_some_iff,
    Prod.mk.injEq, Priority.explicit?_eq_some_iff]
  constructor
  · rintro ⟨d, hd, v, hv, rfl, rfl⟩
    exact ⟨d, hd, rfl, hv⟩
  · rintro ⟨d, hd, rfl, hv⟩
    exact ⟨d, hd, v, hv, rfl, rfl⟩

theorem place_lt {x y : TargetId} {v w : Int} (hx : (x, v) ∈ set.byPriority)
    (hy : (y, w) ∈ set.byPriority)
    (h : Precedes (v, set.targets.idxOf x) (w, set.targets.idxOf y)) :
    set.place x < set.place y := by
  have hsorted : set.byPriority.Pairwise fun a b =>
      Precedes (a.2, set.targets.idxOf a.1) (b.2, set.targets.idxOf b.1) :=
    pairwise_mergeSort_of_sublist (sublist_asked set)
  have honce : (set.byPriority.map Prod.fst).Nodup :=
    ((List.mergeSort_perm _ _).map _).nodup_iff.2 (set.distinct.sublist (sublist_asked set))
  exact idxOf_map_lt (fun hab hba => hab.asymm hba) hsorted honce hx hy h

end DesiredSet

namespace OrderReport

variable {desired : DesiredSet} {view : List Relation} {a b e : Entry} {es : List Entry}
  {v : OrderViolation}

/-! ### What is compared -/

/-- The declaration asks for a priority of the target, and the first relation to it in the view has
one. -/
structure Compared (desired : DesiredSet) (view : List Relation) (e : Entry) : Prop where
  asked : ∃ d ∈ desired.relations, d.target = e.target ∧ d.priority = .explicit e.desired
  confirmed : ∃ seen, IsFirst e.target view seen ∧ seen.priority = .explicit e.confirmed

theorem mem_entries_iff : e ∈ entries desired view ↔ Compared desired view e := by
  simp only [entries, List.mem_filterMap, Option.bind_eq_bind, Option.bind_eq_some_iff,
    Option.pure_def, Option.some.injEq, Priority.explicit?_eq_some_iff, find?_eq_some_iff_isFirst]
  constructor
  · rintro ⟨d, hd, v, hv, seen, hseen, w, hw, rfl⟩
    exact ⟨⟨d, hd, rfl, hv⟩, seen, hseen, hw⟩
  · obtain ⟨target, v, w⟩ := e
    rintro ⟨⟨d, hd, rfl, hv⟩, seen, hseen, hw⟩
    exact ⟨d, hd, v, hv, seen, hseen, w, hw, rfl⟩

/-- Of a target at most one entry is compared. -/
theorem Compared.eq_of_target (ha : Compared desired view a) (hb : Compared desired view b)
    (h : a.target = b.target) : a = b := by
  obtain ⟨target, v, w⟩ := a
  obtain ⟨other, v', w'⟩ := b
  obtain rfl : target = other := h
  obtain ⟨⟨d, hd, hdt, hv⟩, seen, hseen, hw⟩ := ha
  obtain ⟨⟨d', hd', hdt', hv'⟩, seen', hseen', hw'⟩ := hb
  dsimp only at hdt hdt' hv hv' hseen hseen' hw hw'
  have hfind := find?_of_mem desired.distinct hd
  have hfind' := find?_of_mem desired.distinct hd'
  rw [hdt] at hfind
  rw [hdt', hfind] at hfind'
  obtain rfl := Option.some.inj hfind'
  rw [← find?_eq_some_iff_isFirst] at hseen hseen'
  rw [hseen] at hseen'
  obtain rfl := Option.some.inj hseen'
  rw [hv] at hv'
  rw [hw] at hw'
  rw [Priority.explicit.inj hv', Priority.explicit.inj hw']

theorem sublist_entries (desired : DesiredSet) (view : List Relation) :
    ((entries desired view).map (·.target)).Sublist desired.targets := by
  refine sublist_targets_filterMap (fun d a hd => ?_) desired.relations
  simp only [Option.bind_eq_bind, Option.bind_eq_some_iff, Option.pure_def, Option.some.injEq] at hd
  obtain ⟨v, -, seen, -, w, -, rfl⟩ := hd
  rfl

theorem nodup_entries (desired : DesiredSet) (view : List Relation) :
    (entries desired view).Nodup :=
  List.Nodup.of_map _ (desired.distinct.sublist (sublist_entries desired view))

/-- Whether a declared target is compared. -/
def isCompared (view : List Relation) (d : Relation) : Bool :=
  d.priority.isExplicit && (Relation.find? d.target view).any (·.priority.isExplicit)

theorem length_entries (desired : DesiredSet) (view : List Relation) :
    (entries desired view).length = (desired.relations.filter (isCompared view)).length := by
  rw [entries, List.length_filterMap_eq_countP, List.countP_eq_length_filter]
  refine congrArg List.length (List.filter_congr fun d _ => ?_)
  rw [isCompared]
  cases d.priority with
  | unset => rfl
  | explicit v =>
    cases Relation.find? d.target view with
    | none => rfl
    | some seen => cases h : seen.priority <;> simp [h, Priority.explicit?, Priority.isExplicit]

/-- The compared targets are ranked by the declared priorities, and those with the same one by the
declaration. -/
theorem pairwise_ranked (desired : DesiredSet) (view : List Relation) :
    (ranked (entries desired view)).Pairwise fun a b =>
      Precedes (a.desired, desired.targets.idxOf a.target)
        (b.desired, desired.targets.idxOf b.target) :=
  DesiredSet.pairwise_mergeSort_of_sublist (sublist_entries desired view)

theorem mem_ranked_iff : e ∈ ranked (entries desired view) ↔ Compared desired view e := by
  rw [ranked, List.mem_mergeSort, mem_entries_iff]

/-- The compared targets are ranked in the order of the declared set. -/
theorem pairwise_place (desired : DesiredSet) (view : List Relation) :
    (ranked (entries desired view)).Pairwise fun a b =>
      desired.place a.target < desired.place b.target := by
  refine (pairwise_ranked desired view).imp_of_mem fun ha hb hab => ?_
  have hmem : ∀ {e}, e ∈ ranked (entries desired view) →
      (e.target, e.desired) ∈ desired.byPriority := fun he =>
    DesiredSet.mem_byPriority.2 (mem_ranked_iff.1 he).asked
  exact DesiredSet.place_lt (hmem ha) (hmem hb) hab

/-! ### What is reported -/

/-- One of two entries was declared lower than the other and is not confirmed lower. -/
def Clash (a b : Entry) : Prop := a.desired < b.desired ∧ b.confirmed ≤ a.confirmed

theorem violates_iff : violates a b = true ↔ Clash a b := by
  simp only [violates, Bool.and_eq_true, decide_eq_true_eq, Clash]

/-- In the order of the declared priorities every clash is met. -/
theorem mem_violationsFrom_iff (sorted : es.Pairwise fun a b => a.desired ≤ b.desired) :
    v ∈ violationsFrom es ↔ ∃ a ∈ es, ∃ b ∈ es, Clash a b ∧ v = violation a b := by
  induction es with
  | nil => simp [violationsFrom]
  | cons e es ih =>
    obtain ⟨hfirst, hrest⟩ := List.pairwise_cons.1 sorted
    rw [violationsFrom, List.mem_append, ih hrest]
    constructor
    · rintro (h | ⟨a, ha, b, hb, h⟩)
      · obtain ⟨b, hb, rfl⟩ := List.mem_map.1 h
        obtain ⟨hb, hclash⟩ := List.mem_filter.1 hb
        exact ⟨e, List.mem_cons_self, b, List.mem_cons_of_mem _ hb, violates_iff.1 hclash, rfl⟩
      · exact ⟨a, List.mem_cons_of_mem _ ha, b, List.mem_cons_of_mem _ hb, h⟩
    · rintro ⟨a, ha, b, hb, hclash, rfl⟩
      -- the one that was declared higher cannot stand first
      have hbehind : b ∈ es := by
        rcases List.mem_cons.1 hb with rfl | hb
        · rcases List.mem_cons.1 ha with rfl | ha
          · exact absurd hclash.1 (lt_irrefl _)
          · exact absurd hclash.1 (not_lt.2 (hfirst a ha))
        · exact hb
      rcases List.mem_cons.1 ha with rfl | ha
      · exact .inl (List.mem_map.2 ⟨b, List.mem_filter.2 ⟨hbehind, violates_iff.2 hclash⟩, rfl⟩)
      · exact .inr ⟨a, ha, b, hbehind, hclash, rfl⟩

/-- The places of the two targets of a violation. -/
def places (desired : DesiredSet) (v : OrderViolation) : Nat ×ₗ Nat :=
  toLex (desired.place v.earlier, desired.place v.later)

theorem earlier_mem_of_mem (h : v ∈ violationsFrom es) : v.earlier ∈ es.map (·.target) := by
  induction es with
  | nil => cases h
  | cons e es ih =>
    rw [List.map_cons]
    rcases List.mem_append.1 h with h | h
    · obtain ⟨b, -, rfl⟩ := List.mem_map.1 h
      exact List.mem_cons_self
    · exact List.mem_cons_of_mem _ (ih h)

/-- The pairs of a list are reported in the order of the list. -/
theorem pairwise_violationsFrom
      (h : es.Pairwise fun a b => desired.place a.target < desired.place b.target) :
    (violationsFrom es).Pairwise fun v w => places desired v < places desired w := by
  induction es with
  | nil => exact List.Pairwise.nil
  | cons e es ih =>
    obtain ⟨hfirst, hrest⟩ := List.pairwise_cons.1 h
    rw [violationsFrom, List.pairwise_append, List.pairwise_map]
    refine ⟨(hrest.filter _).imp fun hab => ?_, ih hrest, fun v hv w hw => ?_⟩
    · exact Prod.Lex.toLex_lt_toLex.2 (.inr ⟨rfl, hab⟩)
    · obtain ⟨b, -, rfl⟩ := List.mem_map.1 hv
      obtain ⟨a, ha, he⟩ := List.mem_map.1 (earlier_mem_of_mem hw)
      refine Prod.Lex.toLex_lt_toLex.2 (.inl ?_)
      rw [← he]
      exact hfirst a ha

theorem mem_violations_iff : v ∈ (check desired view).violations ↔
    ∃ a b, Compared desired view a ∧ Compared desired view b ∧ Clash a b ∧ v = violation a b := by
  have hsorted : (ranked (entries desired view)).Pairwise fun a b => a.desired ≤ b.desired :=
    (pairwise_ranked desired view).imp fun hab => hab.elim le_of_lt fun h => le_of_eq h.1
  rw [check, mem_violationsFrom_iff hsorted]
  simp only [mem_ranked_iff]
  constructor
  · rintro ⟨a, ha, b, hb, h⟩
    exact ⟨a, b, ha, hb, h⟩
  · rintro ⟨a, b, ha, hb, h⟩
    exact ⟨a, ha, b, hb, h⟩

/-- Nothing is reported exactly if what was declared lower is always confirmed lower. -/
theorem ok_iff : (check desired view).ok = true ↔
    ∀ a b, Compared desired view a → Compared desired view b → a.desired < b.desired →
    a.confirmed < b.confirmed := by
  rw [ok, List.isEmpty_iff, List.eq_nil_iff_forall_not_mem]
  constructor
  · intro h a b ha hb hlt
    by_contra hle
    exact h _ (mem_violations_iff.2 ⟨a, b, ha, hb, ⟨hlt, not_lt.1 hle⟩, rfl⟩)
  · intro h v hv
    obtain ⟨a, b, ha, hb, hclash, -⟩ := mem_violations_iff.1 hv
    exact absurd (h a b ha hb hclash.1) (not_lt.2 hclash.2)

/-- The whole account of a report. -/
structure Exact (desired : DesiredSet) (view : List Relation) (report : OrderReport) : Prop where
  checked : report.checked = (desired.relations.filter (isCompared view)).length
  /-- No pair of targets is reported twice. -/
  once : (report.violations.map fun v => (v.earlier, v.later)).Nodup
  clashes : ∀ v, v ∈ report.violations ↔ ∃ a b, Compared desired view a ∧ Compared desired view b ∧
    (a.desired < b.desired ∧ b.confirmed ≤ a.confirmed) ∧
    v = ⟨a.target, b.target, (a.desired, b.desired), (a.confirmed, b.confirmed)⟩
  /-- Targets that were declared alike have no order. -/
  ties : ∀ v ∈ report.violations, v.desired.1 ≠ v.desired.2
  /-- In the order of their first targets and then of their second ones in the declaration, sorted
  by the declared priorities without changing the order of those that are equal. -/
  ordered : report.violations.Pairwise fun v w => places desired v < places desired w

theorem exact_check (desired : DesiredSet) (view : List Relation) :
    (check desired view).Exact desired view := by
  have hordered := pairwise_violationsFrom (pairwise_place desired view)
  refine ⟨length_entries desired view, List.pairwise_map.2 (hordered.imp fun {v w} hlt he => ?_),
    fun v => mem_violations_iff, fun v hv => ?_, hordered⟩
  · have hplaces : places desired v = places desired w := by
      rw [places, places, (Prod.mk.inj he).1, (Prod.mk.inj he).2]
    exact absurd hplaces (ne_of_lt hlt)
  · exact ne_of_lt (mem_violationsFrom_lt hv)

theorem Exact.unique {report other : OrderReport} (h : report.Exact desired view)
    (h' : other.Exact desired view) :
    report = other := by
  have hnodup : ∀ {r : OrderReport}, r.Exact desired view → r.violations.Nodup := fun hr =>
    hr.ordered.imp fun hlt he => absurd (he ▸ hlt) (lt_irrefl _)
  have hperm : report.violations.Perm other.violations :=
    (List.perm_ext_iff_of_nodup (hnodup h) (hnodup h')).2 fun v =>
      (h.clashes v).trans (h'.clashes v).symm
  have hviolations : report.violations = other.violations :=
    hperm.eq_of_pairwise (fun v w _ _ hvw hwv => absurd hvw (lt_asymm hwv)) h.ordered h'.ordered
  obtain ⟨checked, violations⟩ := report
  obtain ⟨checked', violations'⟩ := other
  obtain rfl : checked = checked' := h.checked.trans h'.checked.symm
  obtain rfl : violations = violations' := hviolations
  rfl

end OrderReport

open OrderReport

/-- **What the order check reports.**  The report on a declaration and a view is the only one that
meets this account: it counts the targets that are compared, and has once each the pairs of them
that were declared in one order and are confirmed alike or in the other one.  Hence it has none
exactly if whatever was declared lower is confirmed lower. -/
theorem check_exact (desired : DesiredSet) (view : List Relation) :
    (∀ report, report = check desired view ↔ report.Exact desired view) ∧
      ((check desired view).ok = true ↔ ∀ a b, Compared desired view a → Compared desired view b →
        a.desired < b.desired → a.confirmed < b.confirmed) := by
  refine ⟨fun report => ⟨?_, fun h => h.unique (exact_check desired view)⟩, ok_iff⟩
  rintro rfl
  exact exact_check desired view

/-! ### The order as two sorts -/

namespace OrderReport

/-- Every compared target with its priorities, each once, in any order. -/
def Lists (desired : DesiredSet) (view : List Relation) (es : List Entry) : Prop :=
  es.Nodup ∧ ∀ e, e ∈ es ↔ Compared desired view e

/-- Entries sorted by one of their priorities. -/
def sorted (key : Entry → Int) (es : List Entry) : List Entry :=
  es.mergeSort fun a b => decide (key a ≤ key b)

/-- The targets of some entries, sorted by one of their priorities. -/
def sequence (key : Entry → Int) (es : List Entry) : List TargetId := (sorted key es).map (·.target)

variable {asked got : List Entry} {key : Entry → Int}

theorem pairwise_sorted (key : Entry → Int) (es : List Entry) :
    (sorted key es).Pairwise fun a b => key a ≤ key b := by
  have hany : es.Pairwise fun _ _ => True := List.pairwise_of_forall fun _ _ => trivial
  exact (pairwise_mergeSort_by hany).imp fun hab => hab.elim le_of_lt fun h => le_of_eq h.1

theorem Lists.mem_sorted (h : Lists desired view es) :
    e ∈ sorted key es ↔ Compared desired view e := by
  rw [sorted, List.mem_mergeSort, h.2]

theorem Lists.perm (h : Lists desired view asked) (h' : Lists desired view got)
    (key key' : Entry → Int) :
    (sorted key asked).Perm (sorted key' got) :=
  ((List.mergeSort_perm _ _).trans
    ((List.perm_ext_iff_of_nodup h.1 h'.1).2 fun e => (h.2 e).trans (h'.2 e).symm)).trans
    (List.mergeSort_perm _ _).symm

/-- The sequences of the targets agree exactly if the sorted entries do. -/
theorem sequence_eq_iff (h : Lists desired view asked) (h' : Lists desired view got)
    {key key' : Entry → Int} :
    sequence key asked = sequence key' got ↔ sorted key asked = sorted key' got := by
  refine ⟨fun hs => ?_, fun hs => congrArg _ hs⟩
  have hlength : (sorted key asked).length = (sorted key' got).length :=
    (h.perm h' key key').length_eq
  refine List.ext_getElem hlength fun i hi hj => ?_
  have htarget : (sorted key asked)[i].target = (sorted key' got)[i].target := by
    have := congrArg (·[i]?) hs
    simpa [sequence, List.getElem?_eq_getElem hi, List.getElem?_eq_getElem hj] using this
  exact (h.mem_sorted.1 (List.getElem_mem hi)).eq_of_target
    (h'.mem_sorted.1 (List.getElem_mem hj)) htarget

/-- If no two entries have the same declared priority, confirmed ones that follow the declared ones
sort them alike. -/
theorem sorted_eq_of_increasing (hasked : Lists desired view asked) (hgot : Lists desired view got)
    (apart : (asked.map (·.desired)).Nodup)
    (h : ∀ a b, Compared desired view a → Compared desired view b →
      a.desired < b.desired → a.confirmed < b.confirmed) :
    (got.map (·.confirmed)).Nodup ∧ sorted (·.desired) asked = sorted (·.confirmed) got := by
  have hapart : ∀ {a b}, Compared desired view a → Compared desired view b →
      a.desired = b.desired → a = b :=
    fun ha hb => List.inj_on_of_nodup_map apart ((hasked.2 _).2 ha) ((hasked.2 _).2 hb)
  have hconfirmed : ∀ a b, Compared desired view a → Compared desired view b →
      a.confirmed = b.confirmed → a = b := by
    intro a b ha hb he
    rcases lt_trichotomy a.desired b.desired with hlt | heq | hgt
    · exact absurd he (ne_of_lt (h a b ha hb hlt))
    · exact hapart ha hb heq
    · exact absurd he.symm (ne_of_lt (h b a hb ha hgt))
  refine
    ⟨List.Nodup.map_on (fun a ha b hb => hconfirmed a b ((hgot.2 a).1 ha) ((hgot.2 b).1 hb)) hgot.1,
      ?_⟩
  have hfirst : (sorted (·.desired) asked).Pairwise fun a b => a.confirmed ≤ b.confirmed := by
    refine (pairwise_sorted (·.desired) asked).imp_of_mem fun {a b} ha hb hab => ?_
    rcases lt_or_eq_of_le hab with hlt | heq
    · exact le_of_lt (h a b (hasked.mem_sorted.1 ha) (hasked.mem_sorted.1 hb) hlt)
    · rw [hapart (hasked.mem_sorted.1 ha) (hasked.mem_sorted.1 hb) heq]
  refine (hasked.perm hgot _ _).eq_of_pairwise (fun a b ha hb hab hba => ?_) hfirst
    (pairwise_sorted (·.confirmed) got)
  exact hconfirmed a b (hasked.mem_sorted.1 ha) (hgot.mem_sorted.1 hb) (le_antisymm hab hba)

/-- If confirmed priorities are different and sort the entries as the declared ones do, they follow
them. -/
theorem increasing_of_sorted_eq (hgot : Lists desired view got)
    (apart : (got.map (·.confirmed)).Nodup)
    (h : sorted (·.desired) asked = sorted (·.confirmed) got) (ha : Compared desired view a)
    (hb : Compared desired view b) (hlt : a.desired < b.desired) :
    a.confirmed < b.confirmed := by
  have hboth : (sorted (·.confirmed) got).Pairwise fun a b => a.desired ≤ b.desired ∧
      a.confirmed ≤ b.confirmed :=
    (h ▸ pairwise_sorted (·.desired) asked).and (pairwise_sorted (·.confirmed) got)
  -- of two entries in the list, whichever stands first has the lower one of both priorities
  have hmem : ∀ {e}, Compared desired view e → e ∈ sorted (·.confirmed) got := hgot.mem_sorted.2
  obtain ⟨i, hi, rfl⟩ := List.getElem_of_mem (hmem ha)
  obtain ⟨j, hj, rfl⟩ := List.getElem_of_mem (hmem hb)
  have hij : i < j := by
    rcases lt_trichotomy i j with hij | rfl | hji
    · exact hij
    · exact absurd hlt (lt_irrefl _)
    · exact absurd hlt (not_lt.2 (List.pairwise_iff_getElem.1 hboth j i hj hi hji).1)
  refine lt_of_le_of_ne (List.pairwise_iff_getElem.1 hboth i j hi hj hij).2 fun he => ?_
  have hsame := List.inj_on_of_nodup_map apart ((hgot.2 _).2 ha) ((hgot.2 _).2 hb) he
  exact absurd hlt (hsame ▸ lt_irrefl _)

theorem lists_of_perm (h : es.Perm (entries desired view)) : Lists desired view es :=
  ⟨h.nodup_iff.2 (nodup_entries desired view), fun _ => h.mem_iff.trans mem_entries_iff⟩

end OrderReport

/-- **The order check as two sorts.**  Say that no two of the compared targets were declared with
the same priority.  Then nothing is reported exactly if no two of them are confirmed with the same
one, and their sequence by the declared priorities is their sequence by the confirmed ones, each
sort starting from any listing of the compared targets. -/
theorem ok_iff_sorts_agree {desired : DesiredSet} {view : List Relation}
    {asked got : List OrderReport.Entry} (hasked : Lists desired view asked)
    (hgot : Lists desired view got) (apart : (asked.map (·.desired)).Nodup) :
    (check desired view).ok = true ↔
      (got.map (·.confirmed)).Nodup ∧
        OrderReport.sequence (·.desired) asked = OrderReport.sequence (·.confirmed) got := by
  rw [ok_iff, sequence_eq_iff hasked hgot]
  constructor
  · exact sorted_eq_of_increasing hasked hgot apart
  · rintro ⟨honce, hsorts⟩ a b ha hb hlt
    exact increasing_of_sorted_eq hgot honce hsorts ha hb hlt

namespace OrderReport

/-- A declaration that lists its targets in no order of their priorities. -/
def shuffledDesired : DesiredSet :=
  ⟨[⟨⟨"a"⟩, .explicit 5, .empty⟩, ⟨⟨"b"⟩, .explicit (-3), .empty⟩, .bare ⟨"c"⟩,
    ⟨⟨"d"⟩, .explicit 7, .empty⟩],
    by decide, by decide⟩

/-- A view with a target of which only the first relation counts. -/
def shuffledView : List Relation :=
  [⟨⟨"d"⟩, .explicit 9, .empty⟩, ⟨⟨"b"⟩, .explicit 1, .empty⟩, ⟨⟨"c"⟩, .explicit 0, .empty⟩,
    ⟨⟨"a"⟩, .explicit 2, .empty⟩, ⟨⟨"b"⟩, .explicit 4, .empty⟩]

def shuffledEntries : List Entry := [⟨⟨"d"⟩, 7, 9⟩, ⟨⟨"a"⟩, 5, 2⟩, ⟨⟨"b"⟩, -3, 1⟩]

end OrderReport

theorem ok_iff_sorts_agree_shuffled :
    Lists shuffledDesired shuffledView shuffledEntries ∧
      Lists shuffledDesired shuffledView shuffledEntries.reverse ∧
      (shuffledEntries.map (·.desired)).Nodup ∧ (check shuffledDesired shuffledView).ok = true := by
  have hasked : Lists shuffledDesired shuffledView shuffledEntries := lists_of_perm (by decide)
  have hgot : Lists shuffledDesired shuffledView shuffledEntries.reverse :=
    lists_of_perm (by decide)
  have hapart : (shuffledEntries.map (·.desired)).Nodup := by decide
  have hsequences : OrderReport.sequence (·.desired) shuffledEntries =
      OrderReport.sequence (·.confirmed) shuffledEntries.reverse := by
    simp [OrderReport.sequence, OrderReport.sorted, shuffledEntries, List.mergeSort,
      List.MergeSort.Internal.splitInTwo]
  exact ⟨hasked, hgot, hapart, (ok_iff_sorts_agree hasked hgot hapart).2 ⟨by decide, hsequences⟩⟩

end Roster
