/-
The lines of a declaration, and the declarations that they cannot tell apart.

A difference of two declarations is shown on the lines of their relations, in which names stand as
they are, blanks and quotes included.  What stands behind a name can still be told from it: in a
payload a blank stands inside a string only, and from there the text of no payload leads outside.  A
line break in a name cannot be told from the end of a line: a name that begins with the whole line
of another relation hides that relation.

* `tail_inj`, `eq_nil_of_append_tail`: what stands behind a name, and where it begins;
* `line_inj`, `prefix_line_cases`: a line settles its relation, and begins another line only inside
  the name there;
* `Swallowed`, `swallowing`, `Unfolds`: names that begin with the line of another relation;
* `unchanged_exact`: when two declarations show no difference.
-/
import Roster.Plan
import Roster.Proofs.Json.Compact

namespace Roster

namespace DesiredSet

/-- The characters between a name and a priority. -/
@[irreducible] def priorityMark : List Char := "priority=".toList

/-- The characters between a priority and a payload. -/
@[irreducible] def profileMark : List Char := "profile=".toList

/-- What stands behind the name in the line of a relation. -/
def tail (r : Relation) : List Char :=
  ' ' :: (priorityMark ++ r.priority.text.toList) ++ ' ' ::
    (profileMark ++ r.payload.toJson.compactChars ++ ['\n'])

/-- The line of a relation. -/
def line (r : Relation) : List Char := r.target.text.toList ++ tail r

variable {r s : Relation} {front : List Char}

theorem toList_lineText (r : Relation) : (lineText r).toList = line r := by
  simp [lineText, line, tail, priorityMark, profileMark, Payload.text, Json.compact]

theorem toList_linesText (set : DesiredSet) :
    set.linesText.toList = set.relations.flatMap line := by
  rw [linesText, String.toList_join, List.flatMap_map]
  simp only [toList_lineText]

/-! ### What stands behind a name -/

theorem isNumberChar_of_mem_priority {p : Priority} :
    ∀ c ∈ p.text.toList, Json.isNumberChar c = true := by
  cases p with
  | unset =>
    intro c hc
    obtain rfl : c = '-' := by simpa [Priority.text] using hc
    rfl
  | explicit n =>
    rw [Priority.text, Text.Decimal.intText, String.toList_ofList]
    exact Json.isNumberChar_of_mem (n := .int n)

theorem notMem_priority {p : Priority} {c : Char} (h : Json.isNumberChar c = false) :
    c ∉ p.text.toList := by
  intro hc
  rw [isNumberChar_of_mem_priority c hc] at h
  cases h

theorem priorityText_injective {p q : Priority} (h : p.text.toList = q.text.toList) : p = q := by
  have hread : ∀ p : Priority, Text.Decimal.readInt? p.text.toList = p.explicit? := by
    intro p
    cases p with
    | unset => rfl
    | explicit n =>
      rw [Priority.text, Text.Decimal.intText, String.toList_ofList, Text.Decimal.readInt?_ofInt]
      rfl
  rw [← Priority.ofOption_explicit? p, ← Priority.ofOption_explicit? q, ← hread, ← hread, h]

theorem priorityMark_eq : priorityMark = ['p', 'r', 'i', 'o', 'r', 'i', 't', 'y', '='] := by
  decide +kernel

theorem profileMark_eq : profileMark = ['p', 'r', 'o', 'f', 'i', 'l', 'e', '='] := by
  decide +kernel

/-- What stands behind a name settles the priority and the payload. -/
theorem tail_inj (h : tail r = tail s) : r.priority = s.priority ∧ r.payload = s.payload := by
  simp only [tail, List.cons_append, List.append_assoc, List.cons.injEq, true_and] at h
  have hblank : ∀ {cs : List Char}, ∀ c ∈ (' ' :: cs).head?, Json.isNumberChar c = false := by
    rintro cs c hc
    obtain rfl : ' ' = c := by simpa using hc
    decide
  obtain ⟨hpriority, hrest⟩ := Json.append_inj_of_all isNumberChar_of_mem_priority
    isNumberChar_of_mem_priority hblank hblank (List.append_cancel_left h)
  have hpayload := List.append_cancel_left (List.cons.inj hrest).2
  have hjson :=
    (Json.compactChars_inj _ _ (Json.ends_cons (by decide) [])
      (Json.ends_cons (by decide) []) hpayload).1
  exact ⟨priorityText_injective hpriority, Payload.ext (Json.object.inj hjson)⟩

/-- A blank is found behind what has none. -/
theorem exists_of_append_blank {word cs ds : List Char} (hword : ' ' ∉ word)
    (h : front ++ ' ' :: cs = word ++ ds) :
    ∃ more, front = word ++ more ∧ more ++ ' ' :: cs = ds := by
  rcases List.append_eq_append_iff.1 h with ⟨as, rfl, has⟩ | ⟨bs, rfl, hbs⟩
  · cases as with
    | nil => exact ⟨[], by rw [List.append_nil, List.append_nil], has⟩
    | cons a as =>
      obtain ⟨rfl, -⟩ := List.cons.inj has
      exact absurd (List.mem_append_right _ List.mem_cons_self) hword
  · exact ⟨bs, rfl, hbs.symm⟩

/-- What stands behind a name does not begin again within itself: the blanks of a payload stand in
strings, and from there the text of a payload would lead outside. -/
theorem eq_nil_of_append_tail (h : front ++ tail s = tail r) : front = [] := by
  cases front with
  | nil => rfl
  | cons c front =>
    exfalso
    have hpriority : ' ' ∉ priorityMark ++ r.priority.text.toList := by
      rw [priorityMark_eq, List.mem_append, not_or]
      exact ⟨by decide, notMem_priority (by decide)⟩
    have hprofile : ' ' ∉ profileMark := by
      rw [profileMark_eq]
      decide
    simp only [tail, List.cons_append] at h
    obtain ⟨more, -, hmore⟩ := exists_of_append_blank hpriority (List.cons.inj h).2
    cases more with
    | nil =>
      have hmarks := (List.cons.inj hmore).2
      rw [priorityMark_eq, profileMark_eq] at hmarks
      simp at hmarks
    | cons d more =>
      obtain ⟨inner, -, hinner⟩ := exists_of_append_blank hprofile
        ((List.cons.inj hmore).2.trans (List.append_assoc ..))
      -- the line of `s` would end where the payload of `r` does
      have hends : (inner ++ ' ' :: (priorityMark ++ s.priority.text.toList)) ++
          ' ' :: (profileMark ++ s.payload.toJson.compactChars) ++ ['\n'] =
            r.payload.toJson.compactChars ++ ['\n'] := by
        rw [← hinner]
        simp
      have hpayload := List.append_cancel_right hends
      have hinside := (hpayload ▸ Json.balanced_compact r.payload.toJson).of_blank
      have hplain : ∀ c ∈ profileMark, c ∉ ['"', '\\', '\n'] := by
        rw [profileMark_eq]
        simp
      exact (Json.balanced_compact s.payload.toJson).not_true
        (Json.Balanced.of_append_inside hplain hinside)

/-- A line break stands only at the end of a line behind the name. -/
theorem exists_tail (r : Relation) : ∃ body, tail r = body ++ ['\n'] ∧ '\n' ∉ body := by
  refine ⟨' ' :: (priorityMark ++ r.priority.text.toList) ++ ' ' ::
    (profileMark ++ r.payload.toJson.compactChars),
    by simp [tail], ?_⟩
  have hpriority : '\n' ∉ r.priority.text.toList := notMem_priority (by decide)
  have hpayload := (Json.balanced_compact r.payload.toJson).lineBreak_notMem
  rw [priorityMark_eq, profileMark_eq]
  simp [hpriority, hpayload]

/-! ### Lines -/

/-- A line settles its relation. -/
theorem line_inj (h : line r = line s) : r = s := by
  -- one of the two names begins the other one, and by symmetry that of `r` may be taken
  have heq : ∀ {r s : Relation} {front : List Char},
      s.target.text.toList = r.target.text.toList ++ front →
      tail r = front ++ tail s → r = s := by
    intro r s front hname htail
    obtain rfl := eq_nil_of_append_tail htail.symm
    obtain ⟨hpriority, hpayload⟩ := tail_inj htail
    obtain ⟨⟨rtext⟩, rpriority, rpayload⟩ := r
    obtain ⟨⟨stext⟩, spriority, spayload⟩ := s
    rw [List.append_nil, String.toList_inj] at hname
    obtain rfl : stext = rtext := hname
    obtain rfl : rpriority = spriority := hpriority
    obtain rfl : rpayload = spayload := hpayload
    rfl
  rcases List.append_eq_append_iff.1 h with ⟨front, hname, htail⟩ | ⟨front, hname, htail⟩
  · exact heq hname htail
  · exact (heq hname htail).symm

/-- A line that begins another line is that line, or its name begins with it. -/
theorem prefix_line_cases (h : line r <+: line s) : r = s ∨ line r <+: s.target.text.toList := by
  obtain ⟨rest, hrest⟩ := h
  obtain ⟨body, hbody, hplain⟩ := exists_tail s
  obtain ⟨body', hbody', -⟩ := exists_tail r
  rcases List.append_eq_append_iff.1 hrest with ⟨front, hname, -⟩ | ⟨front, hline, htail⟩
  · exact .inr ⟨front, hname.symm⟩
  rcases List.eq_nil_or_concat' rest with rfl | ⟨rest, c, rfl⟩
  · rw [List.append_nil] at hrest
    exact .inl (line_inj hrest)
  rcases List.eq_nil_or_concat' front with rfl | ⟨front, d, rfl⟩
  · rw [List.append_nil] at hline
    exact .inr (hline ▸ List.prefix_rfl)
  · -- the line break of `r` would stand behind the name of `s` and before its end
    rw [hbody, ← List.append_assoc] at htail
    rw [line, hbody', ← List.append_assoc, ← List.append_assoc] at hline
    have hbreak : '\n' = d := (List.append_singleton_inj.1 hline).2
    rw [(List.append_singleton_inj.1 htail).1, hbreak] at hplain
    simp at hplain

/-- The name of the second relation begins with the whole line of the first one, its line break
included. -/
def Swallowed (r s : Relation) : Prop := (lineText r).toList <+: s.target.text.toList

instance (r s : Relation) : Decidable (Swallowed r s) := inferInstanceAs (Decidable (_ <+: _))

/-- No name in one of the sets begins with the line of a relation of the other one. -/
def Clear (old new : DesiredSet) : Prop :=
  ∀ r ∈ old.relations, ∀ s ∈ new.relations, ¬Swallowed r s ∧ ¬Swallowed s r

instance (old new : DesiredSet) : Decidable (Clear old new) :=
  inferInstanceAs (Decidable (∀ r ∈ old.relations, ∀ s ∈ new.relations, _))

/-- The relation that swallows the line of another one: the line is made the beginning of the
name. -/
def swallowing (r s : Relation) : Relation := { s with target := ⟨lineText r ++ s.target.text⟩ }

theorem swallowed_iff : Swallowed r s ↔ line r <+: s.target.text.toList := by
  rw [Swallowed, toList_lineText]

theorem line_swallowing (r s : Relation) : line (swallowing r s) = line r ++ line s := by
  have htail : tail (swallowing r s) = tail s := rfl
  have hname : (swallowing r s).target.text.toList = line r ++ s.target.text.toList := by
    rw [← toList_lineText, ← String.toList_append]
    rfl
  rw [line, hname, htail, List.append_assoc, ← line]

theorem exists_swallowing (h : Swallowed r s) : ∃ t, s = swallowing r t := by
  obtain ⟨more, hmore⟩ := h
  refine ⟨{ s with target := ⟨String.ofList more⟩ }, ?_⟩
  have hname : s.target.text = lineText r ++ String.ofList more := by
    rw [← String.toList_inj, ← hmore, String.toList_append, String.toList_ofList]
  rw [swallowing, ← hname]

/-- Of two relations whose lines begin the same text, one is the other or swallows it. -/
theorem line_append_cases {more rest : List Char} (h : line r ++ more = line s ++ rest) :
    r = s ∧ more = rest ∨ Swallowed r s ∨ Swallowed s r := by
  rw [swallowed_iff, swallowed_iff]
  have hprefix : line r <+: line s ∨ line s <+: line r :=
    List.prefix_or_prefix_of_prefix (List.prefix_append _ more) (h ▸ List.prefix_append _ rest)
  have hcases : r = s ∨ line r <+: s.target.text.toList ∨ line s <+: r.target.text.toList := by
    rcases hprefix with hrs | hsr
    · exact (prefix_line_cases hrs).imp_right .inl
    · exact (prefix_line_cases hsr).imp Eq.symm .inr
  rcases hcases with rfl | hcases
  · exact .inl ⟨rfl, List.append_cancel_left h⟩
  · exact .inr hcases

theorem line_append_ne_nil (r : Relation) (more : List Char) : line r ++ more ≠ [] := by
  simp [line, tail]

/-- Where no line is swallowed, the lines settle the relations. -/
theorem eq_of_lines_eq {rs ss : List Relation}
    (clear : ∀ r ∈ rs, ∀ s ∈ ss, ¬Swallowed r s ∧ ¬Swallowed s r)
    (h : rs.flatMap line = ss.flatMap line) : rs = ss := by
  induction rs generalizing ss with
  | nil =>
    cases ss with
    | nil => rfl
    | cons s ss => exact absurd h.symm (line_append_ne_nil s _)
  | cons r rs ih =>
    cases ss with
    | nil => exact absurd h (line_append_ne_nil r _)
    | cons s ss =>
      -- neither first line swallows the other one, so the two are equal and can be taken off
      obtain ⟨hr, hs⟩ := clear r List.mem_cons_self s List.mem_cons_self
      obtain ⟨rfl, hrest⟩ := (line_append_cases h).resolve_right (not_or.2 ⟨hr, hs⟩)
      rw [ih
        (fun r hr s hs => clear r (List.mem_cons_of_mem _ hr) s (List.mem_cons_of_mem _ hs)) hrest]

/-- Taking lines out of the names that begin with them leads from some relations to others. -/
inductive Unfolds : List Relation → List Relation → Prop
  | nil : Unfolds [] []
  | keep {rs ts : List Relation} (r : Relation) (rest : Unfolds rs ts) : Unfolds (r :: rs) (r :: ts)
  | out {rs ts : List Relation} {r s : Relation} (rest : Unfolds (r :: s :: rs) ts) :
    Unfolds (swallowing r s :: rs) ts

theorem Unfolds.lines_eq {rs ts : List Relation} (h : Unfolds rs ts) :
    rs.flatMap line = ts.flatMap line := by
  induction h with
  | nil => rfl
  | keep r _ ih => rw [List.flatMap_cons, List.flatMap_cons, ih]
  | out _ ih =>
    rw [List.flatMap_cons, line_swallowing, ← ih, List.append_assoc,
      ← List.flatMap_cons, ← List.flatMap_cons]

/-- Relations with the same lines unfold to the same relations. -/
theorem exists_unfolds (n : Nat) {rs ss : List Relation} (hn : (rs.flatMap line).length < n)
    (h : rs.flatMap line = ss.flatMap line) : ∃ ts, Unfolds rs ts ∧ Unfolds ss ts := by
  have hpos : ∀ r, 0 < (line r).length := fun r =>
    List.length_pos_iff.2 (List.append_nil (line r) ▸ line_append_ne_nil r [])
  -- every step leaves a text without its first line
  induction n generalizing rs ss with
  | zero => exact absurd hn (Nat.not_lt_zero _)
  | succ n ih =>
    cases rs with
    | nil =>
      cases ss with
      | nil => exact ⟨[], .nil, .nil⟩
      | cons s ss => exact absurd h.symm (line_append_ne_nil s _)
    | cons r rs =>
      cases ss with
      | nil => exact absurd h (line_append_ne_nil r _)
      | cons s ss =>
        rw [List.flatMap_cons, List.length_append] at hn
        rw [List.flatMap_cons, List.flatMap_cons] at h
        rcases line_append_cases h with ⟨rfl, hrest⟩ | hswallowed | hswallowed
        · have hr := hpos r
          obtain ⟨ts, hrs, hss⟩ := ih (by omega) hrest
          exact ⟨r :: ts, .keep r hrs, .keep r hss⟩
        · have hr := hpos r
          obtain ⟨t, rfl⟩ := exists_swallowing hswallowed
          rw [line_swallowing, List.append_assoc] at h
          obtain ⟨ts, hrs, hss⟩ :=
            ih (by omega) ((List.append_cancel_left h).trans List.flatMap_cons.symm)
          exact ⟨r :: ts, .keep r hrs, .out (.keep r hss)⟩
        · have hs := hpos s
          obtain ⟨t, rfl⟩ := exists_swallowing hswallowed
          rw [line_swallowing, List.append_assoc] at h
          rw [line_swallowing, List.length_append] at hn
          have hlength : ((t :: rs).flatMap line).length < n := by
            rw [List.flatMap_cons, List.length_append]
            omega
          obtain ⟨ts, hrs, hss⟩ := ih hlength (List.flatMap_cons.trans (List.append_cancel_left h))
          exact ⟨s :: ts, .out (.keep s hrs), .keep s hss⟩

/-- Two declarations show no difference exactly if taking lines out of names leads from both to the
same relations.  If no name in one of them begins with the line of a relation of the other one, they
are the same relations. -/
theorem unchanged_exact (old new : DesiredSet) (label : String) :
    (unified old new label = "" ↔ ∃ relations, Unfolds old.relations relations ∧
      Unfolds new.relations relations) ∧
    (Clear old new → (unified old new label = "" ↔ old.relations = new.relations)) := by
  have hlines : unified old new label = "" ↔
      old.relations.flatMap line = new.relations.flatMap line := by
    rw [unified_eq_empty_iff, ← String.toList_inj, toList_linesText, toList_linesText]
  rw [hlines]
  refine ⟨⟨exists_unfolds _ (Nat.lt_succ_self _), ?_⟩,
    fun clear => ⟨eq_of_lines_eq clear, fun h => by rw [h]⟩⟩
  rintro ⟨relations, hold, hnew⟩
  rw [hold.lines_eq, hnew.lines_eq]

/-- One relation, with a name of two lines. -/
def hiddenSet : DesiredSet :=
  ⟨[swallowing (.bare ⟨"x"⟩) (.bare ⟨"y"⟩)], by decide +kernel, List.nodup_singleton _⟩

def shownSet : DesiredSet := ⟨[.bare ⟨"x"⟩, .bare ⟨"y"⟩], by decide, by decide⟩

/-- A name that holds the words of a line, but no line break. -/
def wordySet : DesiredSet :=
  ⟨[.bare ⟨"x priority=- profile={}"⟩, .bare ⟨"y"⟩], by decide, by decide⟩

/-- A name of two lines hides a relation, and one that only looks like a line does not. -/
theorem unchanged_exact_sample :
    hiddenSet.targets = [⟨"x priority=- profile={}\ny"⟩] ∧ shownSet.targets = [⟨"x"⟩, ⟨"y"⟩] ∧
      unified hiddenSet shownSet "app" = "" ∧
      Clear wordySet shownSet ∧ unified wordySet shownSet "app" ≠ "" := by
  have clear : Clear wordySet shownSet := by decide +kernel
  refine ⟨by decide +kernel, by decide, ?_, clear, fun h => ?_⟩
  · exact (unchanged_exact hiddenSet shownSet "app").1.2
      ⟨shownSet.relations, .out (.keep _ (.keep _ .nil)), .keep _ (.keep _ .nil)⟩
  · have hsame :=
      congrArg Relation.targets (((unchanged_exact wordySet shownSet "app").2 clear).1 h)
    exact absurd hsame (by decide)

end DesiredSet

end Roster
