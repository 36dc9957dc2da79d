/-
How actions end.

`x.Yields s a t` says that the action `x`, run from `s`, ends well with `a` in the state `t`, and
`x.Fails s e t` that it fails with `e` in the state `t`.  An action that is put together from others
yields exactly what its parts yield one after the other, and fails exactly where one of them does:

* `Agree`: results that are both values or both errors, and related;
* `yields_bind`, `yields_pure`, `fails_bind`: sequences;
* `yields_mapM_cons`, `fails_mapM`: an action for each item of a list;
* `invariant_mapM`: what every single action keeps is kept by all of them, also when one fails;
* `exists_yields_mapM`: if every single action ends well and keeps it, so do all of them.
-/
import Mathlib.Logic.Basic
import Roster.Action

namespace Roster.Action

variable {σ ε α β : Type}

/-- Two results agree: they are related errors, or related values. -/
inductive Agree (E : ε → ε → Prop) (V : α → β → Prop) : Except ε α → Except ε β → Prop
  | ok {a : α} {b : β} (h : V a b) : Agree E V (.ok a) (.ok b)
  | error {e e' : ε} (h : E e e') : Agree E V (.error e) (.error e')

theorem mapError_ok (f : ε → σ) (a : α) : (.ok a : Except ε α).mapError f = .ok a := rfl

theorem mapError_error (f : ε → σ) (e : ε) :
    (.error e : Except ε α).mapError f = .error (f e) := rfl

theorem isOk_iff {r : Except ε α} : r.isOk = true ↔ ∃ a, r = .ok a := by
  cases r with
  | error e => exact iff_of_false Bool.false_ne_true nofun
  | ok a => exact iff_of_true rfl ⟨a, rfl⟩

/-- Run from `s`, the action ends well with `a` in the state `t`. -/
def Yields (x : Action σ ε α) (s : σ) (a : α) (t : σ) : Prop :=
  (x.run s).result = .ok a ∧ (x.run s).state = t

theorem yields_pure {a b : α} {s t : σ} :
    (pure a : Action σ ε α).Yields s b t ↔ b = a ∧ t = s := by
  simp only [Yields, run_pure, Except.ok.injEq]
  exact ⟨fun h => ⟨h.1.symm, h.2.symm⟩, fun h => ⟨h.1.symm, h.2.symm⟩⟩

/-- A sequence yields what its second action yields from where the first one came to. -/
theorem yields_bind {x : Action σ ε α} {f : α → Action σ ε β} {s u : σ} {b : β} :
    (x >>= f).Yields s b u ↔ ∃ a t, x.Yields s a t ∧ (f a).Yields t b u := by
  rcases h : x.run s with ⟨_ | a, t, log⟩
  · rw [Yields, run_bind_error h]
    simp [Yields, h]
  · rw [Yields, run_bind_ok h]
    simp only [Yields, h, Except.ok.injEq]
    exact ⟨fun hb => ⟨a, t, ⟨rfl, rfl⟩, hb⟩, by rintro ⟨_, _, ⟨rfl, rfl⟩, hb⟩; exact hb⟩

theorem Yields.result {x : Action σ ε α} {s t : σ} {a : α} (h : x.Yields s a t) :
    (x.run s).result = .ok a := h.1

theorem Yields.state {x : Action σ ε α} {s t : σ} {a : α} (h : x.Yields s a t) :
    (x.run s).state = t := h.2

/-- An action has one end only. -/
theorem Yields.unique {x : Action σ ε α} {s t u : σ} {a b : α} (h : x.Yields s a t)
    (h' : x.Yields s b u) :
    a = b ∧ t = u :=
  ⟨Except.ok.inj (h.result.symm.trans h'.result), h.state.symm.trans h'.state⟩

theorem yields_of_result {x : Action σ ε α} {s : σ} {a : α} (h : (x.run s).result = .ok a) :
    x.Yields s a (x.run s).state := ⟨h, rfl⟩

theorem yields_note {log : List Notice} {s t : σ} {u : Unit} :
    (note log : Action σ ε Unit).Yields s u t ↔ t = s := by
  simp only [Yields, note, run, true_and]
  exact eq_comm

/-- Run from `s`, the action fails with `e` in the state `t`. -/
def Fails (x : Action σ ε α) (s : σ) (e : ε) (t : σ) : Prop :=
  (x.run s).result = .error e ∧ (x.run s).state = t

theorem fails_of_result {x : Action σ ε α} {s : σ} {e : ε} (h : (x.run s).result = .error e) :
    x.Fails s e (x.run s).state := ⟨h, rfl⟩

theorem yields_or_fails (x : Action σ ε α) (s : σ) :
    (∃ a t, x.Yields s a t) ∨ ∃ e t, x.Fails s e t := by
  cases h : (x.run s).result with
  | ok a => exact .inl ⟨a, _, yields_of_result h⟩
  | error e => exact .inr ⟨e, _, fails_of_result h⟩

theorem not_fails_pure {a : α} {s t : σ} {e : ε} : ¬(pure a : Action σ ε α).Fails s e t := by
  rintro ⟨h, -⟩
  cases h

theorem not_fails_note {log : List Notice} {s t : σ} {e : ε} :
    ¬(note log : Action σ ε Unit).Fails s e t := by
  rintro ⟨h, -⟩
  cases h

/-- A sequence fails where its first action fails, or where its second one does after the first
ended well. -/
theorem fails_bind {x : Action σ ε α} {f : α → Action σ ε β} {s u : σ} {e : ε} :
    (x >>= f).Fails s e u ↔ x.Fails s e u ∨ ∃ a t, x.Yields s a t ∧ (f a).Fails t e u := by
  rcases h : x.run s with ⟨c | a, t, log⟩
  · rw [Fails, run_bind_error h]
    simp [Fails, Yields, h]
  · rw [Fails, run_bind_ok h]
    simp only [Fails, Yields, h, reduceCtorEq, false_and, false_or, Except.ok.injEq]
    exact ⟨fun hb => ⟨a, t, ⟨rfl, rfl⟩, hb⟩, by rintro ⟨_, _, ⟨rfl, rfl⟩, hb⟩; exact hb⟩

/-- Looking at how an action ends does not fail. -/
theorem yields_attempt {x : Action σ ε α} {s t : σ} {r : Except ε α} :
    (attempt x).Yields s r t ↔ (x.run s).result = r ∧ (x.run s).state = t := by
  simp only [Yields, run, attempt, Except.ok.injEq]

theorem fails_fail {e c : ε} {s t : σ} : (fail e : Action σ ε α).Fails s c t ↔ c = e ∧ t = s := by
  simp only [Fails, run, fail, Except.error.injEq]
  exact ⟨fun h => ⟨h.1.symm, h.2.symm⟩, fun h => ⟨h.1.symm, h.2.symm⟩⟩

theorem yields_mapM_nil {f : α → Action σ ε β} {s t : σ} {bs : List β} :
    (List.mapM f []).Yields s bs t ↔ bs = [] ∧ t = s := by
  rw [List.mapM_nil, yields_pure]

theorem yields_mapM_cons {f : α → Action σ ε β} {a : α} {as : List α} {s u : σ} {bs : List β} :
    (List.mapM f (a :: as)).Yields s bs u ↔
      ∃ b t cs, (f a).Yields s b t ∧ (List.mapM f as).Yields t cs u ∧ bs = b :: cs := by
  rw [List.mapM_cons, yields_bind]
  constructor
  · rintro ⟨b, t, hb, h⟩
    obtain ⟨cs, v, hcs, h⟩ := yields_bind.1 h
    obtain ⟨rfl, rfl⟩ := yields_pure.1 h
    exact ⟨b, t, cs, hb, hcs, rfl⟩
  · rintro ⟨b, t, cs, hb, hcs, rfl⟩
    exact ⟨b, t, hb, yields_bind.2 ⟨cs, u, hcs, yields_pure.2 ⟨rfl, rfl⟩⟩⟩

/-- Some actions fail exactly where one of them does, after those before it ended well. -/
theorem fails_mapM {f : α → Action σ ε β} {as : List α} {s u : σ} {e : ε} :
    (List.mapM f as).Fails s e u ↔
      ∃ before a after bs t, as = before ++ a :: after ∧ (List.mapM f before).Yields s bs t ∧
      (f a).Fails t e u := by
  induction as generalizing s with
  | nil =>
    rw [List.mapM_nil]
    refine iff_of_false not_fails_pure ?_
    rintro ⟨before, a, after, -, -, h, -⟩
    exact absurd h.symm (by simp)
  | cons a as ih =>
    rw [List.mapM_cons, fails_bind]
    constructor
    · rintro (h | ⟨b, t, hb, h⟩)
      · exact ⟨[], a, as, [], s, rfl, yields_mapM_nil.2 ⟨rfl, rfl⟩, h⟩
      · rcases fails_bind.1 h with h | ⟨_, _, -, h⟩
        · -- the failure lies behind the first step, where the induction finds it
          obtain ⟨before, c, after, bs, v, rfl, hbs, hc⟩ := ih.1 h
          exact ⟨a :: before, c, after, b :: bs, v, rfl,
            yields_mapM_cons.2 ⟨b, t, bs, hb, hbs, rfl⟩, hc⟩
        · exact absurd h not_fails_pure
    · rintro ⟨_ | ⟨b, before⟩, c, after, bs, v, has, hbs, hc⟩
      · obtain ⟨rfl, rfl⟩ := List.cons.inj has
        obtain ⟨-, rfl⟩ := yields_mapM_nil.1 hbs
        exact .inl hc
      · obtain ⟨rfl, rfl⟩ := List.cons.inj has
        obtain ⟨b', t, cs, hb', hcs, -⟩ := yields_mapM_cons.1 hbs
        exact .inr ⟨b', t, hb', fails_bind.2 (.inl (ih.2 ⟨before, c, after, cs, v, rfl, hcs, hc⟩))⟩

/-- Where the first of some actions fails, all of them end. -/
theorem state_mapM_of_fails {f : α → Action σ ε β} {a : α} {s t : σ} {e : ε} (h : (f a).Fails s e t)
    (as : List α) : ((List.mapM f (a :: as)).run s).state = t := by
  rw [List.mapM_cons]
  exact (fails_bind.2 (.inl h)).2

/-- Where the first of some actions ends well, the others go on. -/
theorem state_mapM_of_yields {f : α → Action σ ε β} {a : α} {b : β} {s t : σ}
    (h : (f a).Yields s b t) (as : List α) :
    ((List.mapM f (a :: as)).run s).state = ((List.mapM f as).run t).state := by
  rcases yields_or_fails (List.mapM f as) t with ⟨bs, u, hbs⟩ | ⟨e, u, he⟩
  · rw [(yields_mapM_cons.2 ⟨b, t, bs, h, hbs, rfl⟩).state, hbs.state]
  · rw [List.mapM_cons, he.2]
    exact (fails_bind.2 (.inr ⟨b, t, h, fails_bind.2 (.inl he)⟩)).2

/-- The state after a sequence is one that its first action comes to, or one that the second comes
to from there. -/
theorem invariant_bind {P : σ → Prop} {x : Action σ ε α} {f : α → Action σ ε β} {s : σ}
    (hx : P (x.run s).state) (hf : ∀ a t, x.Yields s a t → P t → P ((f a).run t).state) :
    P ((x >>= f).run s).state := by
  rcases h : x.run s with ⟨_ | a, t, log⟩
  · rw [run_bind_error h]
    rwa [h] at hx
  · rw [run_bind_ok h]
    rw [h] at hx
    exact hf a t ⟨by rw [h], by rw [h]⟩ hx

/-- What each action keeps, all of them keep one after the other, wherever they end. -/
theorem invariant_mapM {P : σ → Prop} {f : α → Action σ ε β} {as : List α}
    (step : ∀ a ∈ as, ∀ s, P s → P ((f a).run s).state) {s : σ} (hs : P s) :
    P ((List.mapM f as).run s).state := by
  -- an action that fails ends them all, in a state that it kept
  induction as generalizing s with
  | nil => exact hs
  | cons a as ih =>
    rw [List.mapM_cons]
    refine invariant_bind (step a List.mem_cons_self s hs) fun b t _ ht => ?_
    refine invariant_bind (ih (fun c hc => step c (List.mem_cons_of_mem _ hc)) ht) ?_
    exact fun cs u _ hu => hu

theorem exists_yields_mapM {P : σ → Prop} {f : α → Action σ ε β} {as : List α}
    (step : ∀ a ∈ as, ∀ s, P s → ∃ b t, (f a).Yields s b t ∧ P t) {s : σ} (hs : P s) :
    ∃ bs t, (List.mapM f as).Yields s bs t ∧ P t := by
  induction as generalizing s with
  | nil => exact ⟨[], s, yields_mapM_nil.2 ⟨rfl, rfl⟩, hs⟩
  | cons a as ih =>
    obtain ⟨b, t, hb, ht⟩ := step a List.mem_cons_self s hs
    obtain ⟨bs, u, hbs, hu⟩ := ih (fun c hc => step c (List.mem_cons_of_mem _ hc)) ht
    exact ⟨b :: bs, u, yields_mapM_cons.2 ⟨b, t, bs, hb, hbs, rfl⟩, hu⟩

end Roster.Action
