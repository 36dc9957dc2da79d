/-
Listings of pages that are linked by their headers.

A link header is taken apart at its commas and its semicolons wherever they stand.  An address may
hold both, and so may a quoted parameter.  An entry whose address has one of them falls into pieces
none of which is an entry; one with a comma in a parameter loses that parameter and those behind it.
If this happens to the entry that links to the next page, before its parameter says so, the listing
ends there as if no page followed.  Every other address is found, whatever entries stand around it.

* `Link.Entry`, `Link.header`: headers as they are written;
* `isNext_iff`, `Unambiguous`: what is read off one parameter, and the parameters that are left out;
* `Entry.Intact`, `findSome?_text`: what is read off one entry;
* `next?_header_of_single`: the link of a header with a single entry for the next page;
* `Service.Chain`: pages that are linked one to the next;
* `listing_of_chain`: which of their relations a listing answers.
-/
import Roster.Proofs.Listing

namespace Roster

namespace Link

open Text (isBlank split trim)

/-! ### Parameters -/

/-- Between blanks, the parameter says that its entry is the next page. -/
def SaysNext (parameter : List Char) : Prop :=
  ∃ lead word trail, (∀ c ∈ lead, isBlank c = true) ∧ (∀ c ∈ trail, isBlank c = true) ∧
    (word = "rel=\"next\"".toList ∨ word = "rel=next".toList) ∧ parameter = lead ++ (word ++ trail)

theorem isNext_iff {parameter : List Char} : isNext parameter = true ↔ SaysNext parameter := by
  rw [isNext, Bool.or_eq_true, beq_iff_eq, beq_iff_eq]
  constructor
  · intro h
    obtain ⟨lead, trail, hlead, htrail, hparameter⟩ := Text.exists_trim parameter
    exact ⟨lead, _, trail, hlead, htrail, h, hparameter⟩
  · rintro ⟨lead, word, trail, hlead, htrail, hword, rfl⟩
    have htrim : trim (lead ++ (word ++ trail)) = word := by
      rcases hword with rfl | rfl <;>
        exact Text.trim_of_word hlead htrail (by decide) (by decide) (by decide)
    rw [htrim]
    exact hword

instance (parameter : List Char) : Decidable (SaysNext parameter) :=
  decidable_of_iff _ isNext_iff

/-- The character stands between entries or between parameters. -/
def separates (c : Char) : Bool := c == ',' || c == ';'

/-- The text holds nothing that stands between entries or between parameters. -/
def Plain (cs : List Char) : Prop := ',' ∉ cs ∧ ';' ∉ cs

instance (cs : List Char) : Decidable (Plain cs) := inferInstanceAs (Decidable (_ ∧ _))

/-- Whatever the parameter quotes, no bracket opens in it, and if a piece of it says that the entry
is the next page, that piece is the parameter. -/
def Unambiguous (parameter : List Char) : Prop :=
  '<' ∉ parameter ∧ ∀ piece ∈ split separates parameter, SaysNext piece → piece = parameter

instance (parameter : List Char) : Decidable (Unambiguous parameter) :=
  inferInstanceAs (Decidable (_ ∧ _))

/-- The parameters before the first one that holds a comma. -/
def heard (parameters : List (List Char)) : List (List Char) :=
  parameters.takeWhile fun p => decide (',' ∉ p)

/-! ### Pieces of a header -/

theorem beq_eq_false_of_notMem {d : Char} {cs : List Char} (h : d ∉ cs) :
    ∀ c ∈ cs, (c == d) = false :=
  fun _ hc => beq_eq_false_iff_ne.2 fun he => h (he ▸ hc)

theorem bne_of_notMem {d : Char} {cs : List Char} (h : d ∉ cs) : ∀ c ∈ cs, (c != d) = true :=
  fun _ hc => bne_iff_ne.2 fun he => h (he ▸ hc)

theorem notMem_of_blank {d : Char} {cs : List Char} (h : ∀ c ∈ cs, isBlank c = true)
    (hd : isBlank d = false) : d ∉ cs := by
  intro hc
  rw [h d hc] at hd
  cases hd

theorem SaysNext.plain {parameter : List Char} (h : SaysNext parameter) : Plain parameter := by
  obtain ⟨lead, word, trail, hlead, htrail, hword, rfl⟩ := h
  have hplain : Plain word := by rcases hword with rfl | rfl <;> decide
  have hblank : ∀ {d : Char}, isBlank d = false → d ∉ lead ∧ d ∉ trail := fun hd =>
    ⟨notMem_of_blank hlead hd, notMem_of_blank htrail hd⟩
  obtain ⟨hcomma, hcomma'⟩ := hblank (d := ',') (by decide)
  obtain ⟨hsemicolon, hsemicolon'⟩ := hblank (d := ';') (by decide)
  constructor <;> simp [*, hplain.1, hplain.2]

theorem separates_of_ne {c : Char} (hc : c ≠ ',') : (c == ';') = separates c := by
  rw [separates, beq_eq_false_iff_ne.2 hc, Bool.false_or]

theorem split_semicolons {cs : List Char} (h : ',' ∉ cs) :
    split (· == ';') cs = split separates cs :=
  Text.split_congr fun _ hc => separates_of_ne fun he => h (he ▸ hc)

/-- A parameter without commas is read as a whole. -/
theorem any_isNext_pieces {parameter : List Char} (h : Unambiguous parameter)
    (hcomma : ',' ∉ parameter) :
    (split (· == ';') parameter).any isNext = decide (SaysNext parameter) := by
  rw [Bool.eq_iff_iff, List.any_eq_true, decide_eq_true_eq]
  constructor
  · rintro ⟨piece, hpiece, hnext⟩
    have hsays := isNext_iff.1 hnext
    rw [split_semicolons hcomma] at hpiece
    exact h.2 piece hpiece hsays ▸ hsays
  · intro hsays
    refine ⟨parameter, ?_, isNext_iff.2 hsays⟩
    rw [Text.split_of_none (beq_eq_false_of_notMem hsays.plain.2)]
    exact List.mem_singleton_self _

/-- What stands before a comma in a parameter does not say that the entry is the next page. -/
theorem any_isNext_before {before after : List Char} (h : Unambiguous (before ++ ',' :: after))
    (hcomma : ',' ∉ before) : (split (· == ';') before).any isNext = false := by
  rw [split_semicolons hcomma]
  refine List.any_eq_false.2 fun piece hpiece hnext => ?_
  have hmem : piece ∈ split separates (before ++ ',' :: after) := by
    rw [Text.split_append_cons before rfl]
    exact List.mem_append_left _ hpiece
  have hwhole := h.2 piece hmem (isNext_iff.1 hnext)
  exact (isNext_iff.1 hnext).plain.1 (hwhole ▸ by simp)

/-- Up to their first comma some parameters fall into pieces of which one says that the entry is the
next page exactly if one of the parameters before that comma does. -/
theorem exists_pieces {parameters : List (List Char)} (h : ∀ p ∈ parameters, Unambiguous p) :
    ∃ parts : List (List Char),
      (parameters.flatMap (';' :: ·)).takeWhile (· != ',') = parts.flatMap (';' :: ·) ∧
      (parts.flatMap (split (· == ';'))).any isNext =
        decide (∃ p ∈ heard parameters, SaysNext p) := by
  induction parameters with
  | nil => exact ⟨[], rfl, rfl⟩
  | cons p parameters ih =>
    obtain ⟨hp, hrest⟩ := List.forall_mem_cons.1 h
    by_cases hcomma : ',' ∈ p
    · -- the first comma stands in this parameter
      obtain ⟨before, after, rfl, hbefore⟩ := List.eq_append_cons_of_mem hcomma
      refine ⟨[before], ?_, ?_⟩
      · rw [List.flatMap_cons, ← List.cons_append, List.append_assoc,
          List.takeWhile_append_of_pos (bne_of_notMem (by simpa using hbefore))]
        simp
      · rw [List.flatMap_singleton, any_isNext_before hp hbefore, heard,
          List.takeWhile_cons_of_neg (by simp)]
        simp
    · obtain ⟨parts, htext, hany⟩ := ih hrest
      refine ⟨p :: parts, ?_, ?_⟩
      · rw [List.flatMap_cons, List.takeWhile_append_of_pos (bne_of_notMem (by simpa using hcomma)),
          htext, List.flatMap_cons]
      · rw [List.flatMap_cons, List.any_append, hany, any_isNext_pieces hp hcomma, heard, heard,
          List.takeWhile_cons_of_pos (by simpa using hcomma), Bool.eq_iff_iff]
        simp

theorem mem_of_mem_trim {cs : List Char} {c : Char} (h : c ∈ trim cs) : c ∈ cs := by
  obtain ⟨lead, trail, -, -, hcs⟩ := Text.exists_trim cs
  rw [hcs]
  exact List.mem_append_right _ (List.mem_append_left _ h)

theorem unbracketed?_eq_none {cs : List Char} (h : '<' ∉ cs ∨ '>' ∉ cs) :
    unbracketed? cs = none := by
  unfold unbracketed?
  split
  · rename_i cs
    refine if_neg fun hlast => ?_
    rcases h with h | h
    · exact h List.mem_cons_self
    · exact h (List.mem_cons_of_mem _ (List.mem_of_getLast? hlast))
  · rfl

/-- What lacks one of the brackets before its first semicolon is no entry. -/
theorem entryNext?_eq_none {front rest : List Char} (h : '<' ∉ front ∨ '>' ∉ front)
    (hrest : rest = [] ∨ ∃ more, rest = ';' :: more) : entryNext? (front ++ rest) = none := by
  -- the first piece is one of `front`, whatever stands behind it
  obtain ⟨part, parts, hsplit, hpart⟩ : ∃ part parts,
      split (· == ';') (front ++ rest) = part :: parts ∧ part ∈ split (· == ';') front := by
    rcases hfront : split (· == ';') front with _ | ⟨part, parts⟩
    · exact absurd hfront (Text.split_ne_nil front)
    · rcases hrest with rfl | ⟨more, rfl⟩
      · exact ⟨part, parts, by rw [List.append_nil, hfront], List.mem_cons_self⟩
      · exact ⟨part, _,
          by rw [Text.split_append_cons front rfl, hfront, List.cons_append], List.mem_cons_self⟩
  have hmem : ∀ c, c ∈ trim part → c ∈ front :=
    fun c hc => Text.mem_of_mem_split hpart (mem_of_mem_trim hc)
  have hnone : unbracketed? (trim part) = none :=
    unbracketed?_eq_none (h.imp (fun h hc => h (hmem _ hc)) fun h hc => h (hmem _ hc))
  rw [entryNext?, hsplit]
  simp only [hnone, ite_self]

/-- A text that lacks one of the brackets has no entry. -/
theorem findSome?_eq_none {cs : List Char} (h : '<' ∉ cs ∨ '>' ∉ cs) :
    (split (· == ',') cs).findSome? entryNext? = none := by
  refine List.findSome?_eq_none_iff.2 fun piece hpiece => ?_
  have hmem : ∀ c ∈ piece, c ∈ cs := fun _ hc => Text.mem_of_mem_split hpiece hc
  rw [← List.append_nil piece]
  exact entryNext?_eq_none (h.imp (fun h hc => h (hmem _ hc)) fun h hc => h (hmem _ hc)) (.inl rfl)

/-- Of a text behind which no bracket opens, only what stands before the first comma can be an
entry. -/
theorem findSome?_append {front rest : List Char} (hfront : ',' ∉ front) (hrest : '<' ∉ rest) :
    (split (· == ',') (front ++ rest)).findSome? entryNext? =
      entryNext? (front ++ rest.takeWhile (· != ',')) := by
  by_cases hcomma : ',' ∈ rest
  · obtain ⟨before, after, rfl, hbefore⟩ := List.eq_append_cons_of_mem hcomma
    -- behind the first comma nothing opens a bracket, so no later piece is an entry
    have hafter : (split (· == ',') after).findSome? entryNext? = none := by
      refine findSome?_eq_none (.inl fun hc => hrest ?_)
      exact List.mem_append_right _ (List.mem_cons_of_mem _ hc)
    have hwhole : ',' ∉ front ++ before := by simp [hfront, hbefore]
    have htake : (before ++ ',' :: after).takeWhile (· != ',') = before := by
      rw [List.takeWhile_append_of_pos (bne_of_notMem hbefore)]
      simp
    rw [← List.append_assoc, Text.split_append (beq_eq_false_of_notMem hwhole) rfl,
      List.findSome?_cons, hafter, htake]
    cases entryNext? (front ++ before) <;> rfl
  · have hwhole : ',' ∉ front ++ rest := by simp [hfront, hcomma]
    have htake : rest.takeWhile (· != ',') = rest := by
      rw [← List.append_nil rest, List.takeWhile_append_of_pos (bne_of_notMem hcomma),
        List.takeWhile_nil]
    rw [Text.split_of_none (beq_eq_false_of_notMem hwhole), List.findSome?_singleton, htake]

/-! ### Entries -/

/-- An entry of a link header: an address between angle brackets, with parameters behind it. -/
structure Entry where
  lead : List Char
  address : List Char
  trail : List Char
  parameters : List (List Char)
  lead_blank : ∀ c ∈ lead, isBlank c = true
  trail_blank : ∀ c ∈ trail, isBlank c = true
  closed : '<' ∉ address ∧ '>' ∉ address
  unambiguous : ∀ p ∈ parameters, Unambiguous p

namespace Entry

/-- The address in its brackets. -/
def front (e : Entry) : List Char := e.lead ++ '<' :: (e.address ++ '>' :: e.trail)

/-- The parameters, each behind a semicolon. -/
def tail (e : Entry) : List Char := e.parameters.flatMap (';' :: ·)

def text (e : Entry) : List Char := e.front ++ e.tail

def IsNext (e : Entry) : Prop := ∃ p ∈ e.parameters, SaysNext p

instance (e : Entry) : Decidable e.IsNext := inferInstanceAs (Decidable (∃ p ∈ _, _))

/-- The address is plain, and no comma stands before the parameter that says that the entry is the
next page. -/
def Intact (e : Entry) : Prop :=
  Plain e.address ∧ ∃ p ∈ heard e.parameters, SaysNext p

instance (e : Entry) : Decidable e.Intact := inferInstanceAs (Decidable (_ ∧ ∃ p ∈ _, _))

/-- The address that is read off the entry. -/
def linked? (e : Entry) : Option (List Char) := if e.Intact then some e.address else none

theorem Intact.isNext {e : Entry} (h : e.Intact) : e.IsNext := by
  obtain ⟨-, p, hp, hsays⟩ := h
  exact ⟨p, (List.takeWhile_sublist _).mem hp, hsays⟩

theorem linked?_eq_none {e : Entry} (h : ¬Plain e.address) : e.linked? = none :=
  if_neg fun hc => h hc.1

theorem notMem_lead {e : Entry} {d : Char} (hd : isBlank d = false) : d ∉ e.lead :=
  notMem_of_blank e.lead_blank hd

theorem notMem_trail {e : Entry} {d : Char} (hd : isBlank d = false) : d ∉ e.trail :=
  notMem_of_blank e.trail_blank hd

theorem bracket_notMem_tail (e : Entry) : '<' ∉ e.tail := by
  intro h
  obtain ⟨p, hp, hc⟩ := List.mem_flatMap.1 h
  rcases List.mem_cons.1 hc with h | h
  · cases h
  · exact (e.unambiguous p hp).1 h

/-- The text falls apart where the address has a separator: no bracket closes before it, none opens
behind it. -/
theorem exists_text_of_mem {e : Entry} {d : Char} (h : d ∈ e.address) :
    ∃ before after, e.text = before ++ d :: after ∧ '>' ∉ before ∧ '<' ∉ after ∧
      (',' ∉ e.address → ',' ∉ before) := by
  obtain ⟨before, after, haddress⟩ := List.append_of_mem h
  refine ⟨e.lead ++ '<' :: before, after ++ '>' :: (e.trail ++ e.tail), ?_, ?_, ?_,
    fun hcomma => ?_⟩
  · simp [text, front, haddress]
  · have hbefore : '>' ∉ before := fun hc => e.closed.2 (haddress ▸ by simp [hc])
    simp [hbefore, notMem_lead (e := e) (d := '>') (by decide)]
  · have hafter : '<' ∉ after := fun hc => e.closed.1 (haddress ▸ by simp [hc])
    simp [hafter, notMem_trail (e := e) (d := '<') (by decide), e.bracket_notMem_tail]
  · have hbefore : ',' ∉ before := fun hc => hcomma (haddress ▸ by simp [hc])
    simp [hbefore, notMem_lead (e := e) (d := ',') (by decide)]

/-- An entry with a plain address is read up to the first comma in its parameters. -/
theorem findSome?_text_of_plain {e : Entry} (h : Plain e.address) :
    (split (· == ',') e.text).findSome? entryNext? = e.linked? := by
  have hfront : ∀ {d : Char}, isBlank d = false → d ∉ e.address → d ≠ '<' → d ≠ '>' →
      d ∉ e.front := by
    intro d hd haddress hopen hclose
    simp [front, notMem_lead hd, notMem_trail hd, haddress, hopen, hclose]
  -- the piece before the parameters is the address in its brackets
  have htrim : trim e.front = '<' :: (e.address ++ ['>']) := by
    have hword : e.front = e.lead ++ (('<' :: (e.address ++ ['>'])) ++ e.trail) := by simp [front]
    rw [hword]
    refine Text.trim_of_word e.lead_blank e.trail_blank rfl ?_ (List.cons_ne_nil _ _)
    rw [← List.cons_append, List.getLast?_concat]
    rfl
  obtain ⟨parts, htail, hany⟩ := exists_pieces e.unambiguous
  rw [text, findSome?_append (hfront (by decide) h.1 (by decide) (by decide)) e.bracket_notMem_tail,
    tail, htail, entryNext?, Text.split_flatMap rfl,
    Text.split_of_none (beq_eq_false_of_notMem (hfront (by decide) h.2 (by decide) (by decide))),
    List.singleton_append, linked?]
  simp only [htrim, unbracketed?_brackets, hany, decide_eq_true_eq, Intact, h, true_and]

/-- Of an entry, the pieces between commas give its address if it is intact. -/
theorem findSome?_text (e : Entry) :
    (split (· == ',') e.text).findSome? entryNext? = e.linked? := by
  by_cases hcomma : ',' ∈ e.address
  · -- the pieces before the comma have no closing bracket, those behind it no opening one
    obtain ⟨before, after, htext, hclose, hopen, -⟩ := exists_text_of_mem hcomma
    rw [linked?_eq_none fun h => h.1 hcomma, htext, Text.split_append_cons before rfl,
      List.findSome?_append, findSome?_eq_none (.inr hclose), findSome?_eq_none (.inl hopen)]
    rfl
  by_cases hsemicolon : ';' ∈ e.address
  · -- the part before the semicolon has no closing bracket
    obtain ⟨before, after, htext, hclose, hopen, hbefore⟩ := exists_text_of_mem hsemicolon
    have hrest : '<' ∉ ';' :: after := by simp [hopen]
    rw [linked?_eq_none fun h => h.2 hsemicolon, htext, findSome?_append (hbefore hcomma) hrest]
    exact entryNext?_eq_none (.inr hclose) (.inr ⟨_, List.takeWhile_cons_of_pos rfl⟩)
  · exact findSome?_text_of_plain ⟨hcomma, hsemicolon⟩

end Entry

/-! ### Headers -/

/-- The characters of some entries with commas between them. -/
def written (es : List Entry) : List Char := [','].intercalate (es.map Entry.text)

/-- A link header as it is written. -/
def header (es : List Entry) : String := String.ofList (written es)

theorem findSome?_written (es : List Entry) :
    (split (· == ',') (written es)).findSome? entryNext? = es.findSome? Entry.linked? := by
  rw [written]
  induction es with
  | nil => rfl
  | cons e es ih =>
    cases es with
    | nil =>
      rw [List.map_singleton, List.intercalate_singleton, List.findSome?_singleton,
        e.findSome?_text]
    | cons f es =>
      rw [List.map_cons, List.map_cons, List.intercalate_cons_cons, ← List.map_cons,
        List.append_assoc, List.singleton_append, Text.split_append_cons _ rfl,
        List.findSome?_append, e.findSome?_text, ih, List.findSome?_cons (a := e)]
      cases e.linked? <;> rfl

theorem next?_header (es : List Entry) :
    next? (header es) = (es.findSome? Entry.linked?).map String.ofList := by
  rw [next?, header, String.toList_ofList, findSome?_written]

theorem linked?_of_not_isNext {e : Entry} (h : ¬e.IsNext) : e.linked? = none :=
  if_neg fun hc => h hc.isNext

/-- A header without an entry for the next page has no link. -/
theorem next?_header_of_none {es : List Entry} (h : ∀ e ∈ es, ¬e.IsNext) :
    next? (header es) = none := by
  rw [next?_header, List.findSome?_eq_none_iff.2 fun e he => linked?_of_not_isNext (h e he),
    Option.map_none]

/-- A header with a single entry for the next page links to it if the entry is intact, and else
nowhere. -/
theorem next?_header_of_single {before after : List Entry} {e : Entry}
    (hsingle : ∀ f ∈ before ++ after, ¬f.IsNext) :
    next? (header (before ++ e :: after)) =
      if e.Intact then some (String.ofList e.address) else none := by
  have hnone : ∀ es : List Entry, (∀ f ∈ es, ¬f.IsNext) → es.findSome? Entry.linked? = none :=
    fun es hes => List.findSome?_eq_none_iff.2 fun f hf => linked?_of_not_isNext (hes f hf)
  have hbefore := hnone before fun f hf => hsingle f (List.mem_append_left _ hf)
  have hafter := hnone after fun f hf => hsingle f (List.mem_append_right _ hf)
  rw [next?_header, List.findSome?_append, hbefore, Option.none_or, List.findSome?_cons, hafter,
    Entry.linked?]
  by_cases hintact : e.Intact
  · rw [if_pos hintact, if_pos hintact, Option.map_some]
  · rw [if_neg hintact, if_neg hintact, Option.map_none]

/-- The header has this entry as the single one for the next page, among any others. -/
def LinksBy (link : Option String) (e : Entry) : Prop :=
  ∃ before after, link = some (header (before ++ e :: after)) ∧ e.IsNext ∧
    ∀ f ∈ before ++ after, ¬f.IsNext

/-- There is no header, or one without an entry for the next page. -/
def LinksNowhere (link : Option String) : Prop :=
  link = none ∨ ∃ es, link = some (header es) ∧ ∀ e ∈ es, ¬e.IsNext

theorem LinksBy.next? {link : Option String} {e : Entry} (h : LinksBy link e) :
    link.bind next? = if e.Intact then some (String.ofList e.address) else none := by
  obtain ⟨before, after, rfl, -, hsingle⟩ := h
  rw [Option.bind_some, next?_header_of_single hsingle]

theorem LinksNowhere.next? {link : Option String} (h : LinksNowhere link) :
    link.bind next? = none := by
  obtain rfl | ⟨es, rfl, hes⟩ := h
  · rfl
  · exact next?_header_of_none hes

end Link

/-! ### Chains of pages -/

namespace Service

variable {σ : Type} {s : Service} {server : Server σ} {state now : σ}

/-- A page behind another one, with the entry that links to it. -/
structure Follower where
  entry : Link.Entry
  relations : List Relation

def Follower.page (f : Follower) : Page := ⟨String.ofList f.entry.address, f.relations⟩

/-- From a page on, each page is a success whose body decodes and links to the one behind it, as far
as the last one. -/
inductive Chain (s : Service) (server : Server σ) : Page → List Follower → σ → σ → Prop
  | last {page : Page} {r : Response} {state t : σ}
    (answered : Succeeds s server page.address state r t) (decoded : Decodes r page.relations)
    (ends : Link.LinksNowhere r.link) : Chain s server page [] state t
  | link {page : Page} {next : Follower} {followers : List Follower} {r : Response} {state t u : σ}
    (answered : Succeeds s server page.address state r t) (decoded : Decodes r page.relations)
    (links : Link.LinksBy r.link next.entry) (rest : Chain s server next.page followers t u) :
    Chain s server page (next :: followers) state u

/-- The walk through a chain ends before the first page whose entry is not intact. -/
theorem Chain.walk {first : Page} {followers : List Follower}
    (h : Chain s server first followers state now) :
    ∃ t, Walk s server (some first.address) state
      (first :: (followers.takeWhile fun f => decide f.entry.Intact).map Follower.page) none t := by
  induction followers generalizing first state with
  | nil =>
    cases h with
    | last answered decoded ends =>
      refine ⟨now, .page answered decoded ?_⟩
      rw [ends.next?]
      exact .here _ _
  | cons next followers ih =>
    cases h with
    | @link _ _ _ _ _ t _ answered decoded links rest =>
      have hnext := links.next?
      rw [List.takeWhile_cons]
      -- a link that falls apart ends the walk as if no page followed
      by_cases hintact : next.entry.Intact
      · rw [if_pos hintact] at hnext
        rw [if_pos (by simpa using hintact)]
        obtain ⟨u, hwalk⟩ := ih rest
        refine ⟨u, .page answered decoded ?_⟩
        rwa [hnext]
      · rw [if_neg hintact] at hnext
        rw [if_neg (by simpa using hintact)]
        refine ⟨t, .page answered decoded ?_⟩
        rw [hnext]
        exact .here _ _

end Service

open Service

/-- **A listing reads a chain as far as its links are intact.**  Of pages that are linked one to the
next by a single entry each, none of them coming twice, a listing answers the relations up to the
first link with a comma or a semicolon in its address, or with a comma before it says that it is the
next page; so it answers the relations of all of them if the links have none. -/
theorem listing_of_chain {σ : Type} {s : Service} {server : Server σ} {owner : OwnerId}
    {state now : σ} {first : Page} {followers : List Follower}
    (chain : Chain s server first followers state now)
    (starts : first.address = s.relationsUrl owner)
    (once : (addresses (first :: followers.map Follower.page)).Nodup) :
    (s.list server owner state).1 =
      .ok (gathered (first ::
        (followers.takeWhile fun f => decide f.entry.Intact).map Follower.page)) := by
  obtain ⟨t, walk⟩ := chain.walk
  rw [starts] at walk
  -- what is read of the chain comes by no address twice, as it is part of the chain
  have hsub : (addresses
      (first :: (followers.takeWhile fun f => decide f.entry.Intact).map Follower.page)).Sublist
        (addresses (first :: followers.map Follower.page)) :=
    (((List.takeWhile_sublist _).map _).cons_cons first).map _
  rw [list_of_walk walk (once.sublist hsub) (.complete t)]

/-! ### A chain of four pages -/

namespace Service

def chainService : Service := ⟨"https://h", none⟩

/-- The entry of the page before the first one. -/
def previousEntry : Link.Entry :=
  ⟨[], "https://h/owners/app/relations?page=0".toList, [],
    [" rel=prev".toList, " title=\"zero, or less; who knows\"".toList], List.forall_mem_nil _,
    List.forall_mem_nil _, by decide, by decide⟩

def secondEntry : Link.Entry :=
  ⟨[' '], "https://h/owners/app/relations?page=2".toList, [],
    [" title=more".toList, " rel=\"next\"".toList], List.forall_mem_singleton.2 rfl,
    List.forall_mem_nil _, by decide, by decide⟩

/-- An entry that goes on with a comma after it has said that it is the next page. -/
def thirdEntry : Link.Entry :=
  ⟨[], "http://h/owners/app/relations?page=3".toList, [],
    [" rel=next".toList, " title=\"and on, and on\"".toList], List.forall_mem_nil _,
    List.forall_mem_nil _, by decide, by decide⟩

/-- An entry with a comma in its address. -/
def fourthEntry : Link.Entry :=
  ⟨[], "https://h/owners/app/relations?after=a,b".toList, [], [" rel=\"next\"".toList],
    List.forall_mem_nil _, List.forall_mem_nil _, by decide, by decide⟩

def pageOf (body : String) (link : Option String) : Response := ⟨200, link, body⟩

def chainResponses : List Response :=
  [pageOf "[\x7b\"id\":\"a\"\x7d]" (some (Link.header [previousEntry, secondEntry])),
    pageOf "[\x7b\"id\":\"b\"\x7d]" (some (Link.header [thirdEntry])),
    pageOf "[\x7b\"id\":\"c\"\x7d]" (some (Link.header [fourthEntry])),
    pageOf "[\x7b\"id\":\"d\"\x7d]" none]

def chainStart : Page := ⟨"https://h/owners/app/relations", [.bare ⟨"a"⟩]⟩

def chainFollowers : List Follower :=
  [⟨secondEntry, [.bare ⟨"b"⟩]⟩, ⟨thirdEntry, [.bare ⟨"c"⟩]⟩, ⟨fourthEntry, [.bare ⟨"d"⟩]⟩]

theorem chain_chainFollowers :
    ∃ now, Chain chainService Canned.serve chainStart chainFollowers ⟨chainResponses, []⟩ now := by
  have hsecond : Link.LinksBy (some (Link.header [previousEntry, secondEntry])) secondEntry :=
    ⟨[previousEntry], [], rfl, by decide, by decide⟩
  have hthird : Link.LinksBy (some (Link.header [thirdEntry])) thirdEntry :=
    ⟨[], [], rfl, by decide, by decide⟩
  have hfourth : Link.LinksBy (some (Link.header [fourthEntry])) fourthEntry :=
    ⟨[], [], rfl, by decide, by decide⟩
  exact ⟨_, .link ⟨_, rfl, rfl, by decide⟩ ⟨[⟨"a", none, none⟩], rfl, rfl⟩ hsecond
    (.link ⟨_, rfl, rfl, by decide⟩ ⟨[⟨"b", none, none⟩], rfl, rfl⟩ hthird
      (.link ⟨_, rfl, rfl, by decide⟩ ⟨[⟨"c", none, none⟩], rfl, rfl⟩ hfourth
        (.last ⟨_, rfl, rfl, by decide⟩ ⟨[⟨"d", none, none⟩], rfl, rfl⟩ (.inl rfl))))⟩

end Service

theorem listing_of_chain_sample :
    (∃ now, Chain chainService Canned.serve chainStart chainFollowers ⟨chainResponses, []⟩ now) ∧
      (chainService.list Canned.serve ⟨"app"⟩ ⟨chainResponses, []⟩).1 =
        .ok [.bare ⟨"a"⟩, .bare ⟨"b"⟩, .bare ⟨"c"⟩] := by
  obtain ⟨now, chain⟩ := chain_chainFollowers
  exact ⟨⟨now, chain⟩, listing_of_chain chain (by decide +kernel) (by decide)⟩

end Roster
