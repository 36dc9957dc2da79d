/-
Splitting a text at separators.

* `split_ne_nil`: there is always a first part;
* `split_append_cons`: a separator splits what stands before it from what stands behind it;
* `split_append`: what stands before the first separator is the first part;
* `split_flatMap`, `split_flatMap_cons`: parts with separators between them are told apart again;
* `split_congr`: only the characters of the text matter;
* `mem_of_mem_split`: the parts hold nothing that the text lacks.
-/

namespace Roster.Text

/-- The parts of a text between the characters of a class. -/
def split (separates : Char → Bool) : List Char → List (List Char)
  | [] => [[]]
  | c :: cs =>
    if separates c then [] :: split separates cs
    else
      match split separates cs with
      | [] => [[c]]
      | part :: parts => (c :: part) :: parts

variable {separates : Char → Bool}

theorem split_ne_nil (cs : List Char) : split separates cs ≠ [] := by
  cases cs with
  | nil => simp [split]
  | cons c cs =>
    rw [split]
    split
    · simp
    · split <;> simp

theorem split_of_none {cs : List Char} (h : ∀ c ∈ cs, separates c = false) :
    split separates cs = [cs] := by
  induction cs with
  | nil => rfl
  | cons c cs ih =>
    simp [split, h c List.mem_cons_self, ih fun d hd => h d (List.mem_cons_of_mem _ hd)]

/-- A separator splits what stands before it from what stands behind it. -/
theorem split_append_cons (cs : List Char) {s : Char} (hs : separates s = true) (rest : List Char) :
    split separates (cs ++ s :: rest) = split separates cs ++ split separates rest := by
  induction cs with
  | nil => simp [split, hs]
  | cons c cs ih =>
    rw [List.cons_append, split, split, ih]
    split
    · rfl
    · cases h : split separates cs with
      | nil => exact absurd h (split_ne_nil cs)
      | cons part parts => rfl

theorem split_append {cs : List Char} (h : ∀ c ∈ cs, separates c = false) {s : Char}
    (hs : separates s = true) (rest : List Char) :
    split separates (cs ++ s :: rest) = cs :: split separates rest := by
  rw [split_append_cons cs hs, split_of_none h, List.singleton_append]

/-- Texts behind a separator each are split one by one. -/
theorem split_flatMap {s : Char} (hs : separates s = true) (cs : List Char)
    (texts : List (List Char)) :
    split separates (cs ++ texts.flatMap (s :: ·)) =
      split separates cs ++ texts.flatMap (split separates) := by
  induction texts generalizing cs with
  | nil => rw [List.flatMap_nil, List.flatMap_nil, List.append_nil, List.append_nil]
  | cons text texts ih =>
    rw [List.flatMap_cons, List.flatMap_cons, List.cons_append, split_append_cons cs hs, ih]

/-- Parts without separators, each but the first one behind a separator, are the parts of the
whole. -/
theorem split_flatMap_cons {s : Char} (hs : separates s = true) {front : List Char}
    {parts : List (List Char)} (hfront : ∀ c ∈ front, separates c = false)
    (hparts : ∀ part ∈ parts, ∀ c ∈ part, separates c = false) :
    split separates (front ++ parts.flatMap (s :: ·)) = front :: parts := by
  have hwhole : parts.map (split separates) = parts.map fun part => [part] :=
    List.map_congr_left fun part hpart => split_of_none (hparts part hpart)
  rw [split_flatMap hs, split_of_none hfront, List.flatMap_def, hwhole, ← List.flatMap_def,
    List.flatMap_singleton', List.singleton_append]

theorem split_congr {divides : Char → Bool} {cs : List Char}
    (h : ∀ c ∈ cs, separates c = divides c) : split separates cs = split divides cs := by
  induction cs with
  | nil => rfl
  | cons c cs ih =>
    rw [split, split, h c List.mem_cons_self, ih fun d hd => h d (List.mem_cons_of_mem _ hd)]

theorem mem_of_mem_split {cs part : List Char} (h : part ∈ split separates cs) {c : Char}
    (hc : c ∈ part) :
    c ∈ cs := by
  induction cs generalizing part with
  | nil => simp_all [split]
  | cons d cs ih =>
    rw [split] at h
    split at h
    · rcases List.mem_cons.1 h with rfl | h
      · cases hc
      · exact List.mem_cons_of_mem _ (ih h hc)
    · cases hsplit : split separates cs with
      | nil => exact absurd hsplit (split_ne_nil cs)
      | cons first parts =>
        rw [hsplit] at h ih
        rcases List.mem_cons.1 h with rfl | h
        · exact (List.mem_cons.1 hc).elim (fun he => he ▸ List.mem_cons_self)
            fun hc => List.mem_cons_of_mem _ (ih List.mem_cons_self hc)
        · exact List.mem_cons_of_mem _ (ih (List.mem_cons_of_mem _ h) hc)

end Roster.Text
