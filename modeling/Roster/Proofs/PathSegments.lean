/-
Addresses below an address.

A text that is an address when a slash is put behind it stays one when segments of plain characters
are put behind the slash, and nothing but the path changes; the base needs no form of its own for
that, as long as it has no query and no fragment.  Of the segments below only those that are dots
have a meaning of their own.  A text in percent-encoding is such a segment, and it is dots exactly
if the text itself is, since dots are written as they are and percent signs are not.

* `isPlain_of_mem`, `dots_encodeBytes`: what percent-encoding leaves to the reader of a path;
* `parse?_slash`: reading below an address;
* `exists_reached`, `resolveFrom_alternating`: the segments that the path of the base leads to, and
  those below;
* `below`, `target_below_inj`: an address below an address, and what is asked of the host for it.
-/
import Mathlib.Data.List.TakeWhile
import Roster.Web.Url

namespace Roster

namespace Url

open Text.Percent (isUnreserved encodeByte encodeBytes)
open Text.Decimal (hexDigitUpper)

/-- The characters that stand for themselves inside a segment of a path. -/
def isPlain (c : Char) : Bool := 0x20 < c.toNat && !endsAuthority c && encode isPathByte [c] == [c]

theorem encode_of_plain {cs : List Char} (h : ∀ c ∈ cs, isPlain c = true) :
    encode isPathByte cs = cs := by
  induction cs with
  | nil => rfl
  | cons c cs ih =>
    have hc := h c List.mem_cons_self
    simp only [isPlain, Bool.and_eq_true, beq_iff_eq] at hc
    have hsplit : encode isPathByte (c :: cs) = encode isPathByte [c] ++ encode isPathByte cs := by
      simp [encode, encodeBytes]
    rw [hsplit, hc.2, ih fun d hd => h d (List.mem_cons_of_mem _ hd), List.singleton_append]

theorem isPlain_of_mem {bs : List UInt8} {c : Char} (h : c ∈ encodeBytes isUnreserved bs) :
    isPlain c = true := by
  obtain ⟨b, -, hc⟩ := List.mem_flatMap.1 h
  have key : ∀ n : Fin 256, (encodeByte isUnreserved (UInt8.ofNat n.val)).all isPlain = true := by
    decide +kernel
  have hall := key ⟨b.toNat, b.toNat_lt⟩
  simp only [UInt8.ofNat_toNat] at hall
  exact List.all_eq_true.1 hall c hc

/-- Only a percent sign and a two begin an encoded dot. -/
theorem dots_cons {c : Char} {cs : List Char} (h : c ≠ '%' ∨ cs.head? ≠ some '2') :
    dots (c :: cs) = c :: dots cs := by
  rw [dots]
  rintro e rest rfl rfl
  simp at h

set_option maxRecDepth 8000 in
theorem dots_encodeByte (b : UInt8) (cs : List Char) :
    dots (encodeByte isUnreserved b ++ cs) = encodeByte isUnreserved b ++ dots cs := by
  have hb : b = UInt8.ofNat b.toNat := by simp
  rw [encodeByte]
  split
  · rename_i hkeep
    -- a byte that is kept is no percent sign
    have key : ∀ n : Fin 256, isUnreserved (UInt8.ofNat n.val) = true →
        Char.ofNat n.val ≠ '%' := by decide
    exact dots_cons (.inl (key ⟨b.toNat, b.toNat_lt⟩ (hb ▸ hkeep)))
  · rename_i hkeep
    -- a dot is kept, so no byte is written as an encoded one
    have key : ∀ n : Fin 256, isUnreserved (UInt8.ofNat n.val) ≠ true →
        hexDigitUpper (n.val / 16) ≠ '%' ∧ hexDigitUpper (n.val % 16) ≠ '%' ∧
          (hexDigitUpper (n.val / 16) = '2' → hexDigitUpper (n.val % 16) ≠ 'e' ∧
            hexDigitUpper (n.val % 16) ≠ 'E') := by
      decide
    obtain ⟨hhigh, hlow, hdot⟩ := key ⟨b.toNat, b.toNat_lt⟩ (hb ▸ hkeep)
    dsimp only at hhigh hlow hdot
    generalize hexDigitUpper (b.toNat / 16) = high at hhigh hdot ⊢
    generalize hexDigitUpper (b.toNat % 16) = low at hlow hdot ⊢
    by_cases h2 : high = '2'
    · obtain ⟨he, hE⟩ := hdot h2
      subst h2
      show dots ('%' :: '2' :: low :: cs) = '%' :: '2' :: low :: dots cs
      rw [dots, if_neg (by simp [he, hE])]
    · show dots ('%' :: high :: low :: cs) = '%' :: high :: low :: dots cs
      rw [dots_cons (.inr (by simpa using h2)), dots_cons (.inl hhigh), dots_cons (.inl hlow)]

theorem dots_encodeBytes (bs : List UInt8) :
    dots (encodeBytes isUnreserved bs) = encodeBytes isUnreserved bs := by
  induction bs with
  | nil => rfl
  | cons b bs ih =>
    have hcons : encodeBytes isUnreserved (b :: bs) = encodeByte isUnreserved b ++
        encodeBytes isUnreserved bs := rfl
    rw [hcons, dots_encodeByte, ih]

/-! ### Addresses below an address -/

theorem takeWhile_append_cons {p : Char → Bool} {c : Char} (hc : p c = false)
    (cs rest : List Char) :
    (cs ++ c :: rest).takeWhile p = cs.takeWhile p := by
  induction cs with
  | nil => simp [hc]
  | cons d cs ih => cases hd : p d <;> simp [hd, ih]

theorem dropWhile_append_cons {p : Char → Bool} {c : Char} (hc : p c = false)
    (cs rest : List Char) :
    (cs ++ c :: rest).dropWhile p = cs.dropWhile p ++ c :: rest := by
  induction cs with
  | nil => simp [hc]
  | cons d cs ih => cases hd : p d <;> simp [hd, ih]

/-- Cleaning keeps an end without blanks and control characters as it is. -/
theorem exists_clean (front : List Char) : ∃ kept, (∀ c ∈ kept, c ∈ front) ∧
    ∀ c rest, (∀ d ∈ c :: rest, 0x20 < d.toNat) →
      clean (front ++ c :: rest) = kept ++ c :: rest := by
  refine ⟨(front.dropWhile fun c => decide (c.toNat ≤ 0x20)).filter fun c =>
    !(c == '\t' || c == '\n' || c == '\r'),
    fun c hc => (List.dropWhile_sublist _).mem (List.mem_filter.1 hc).1, fun c rest hrest => ?_⟩
  have hloose : ∀ d ∈ c :: rest, decide (d.toNat ≤ 0x20) = false := fun d hd =>
    decide_eq_false (Nat.not_le.2 (hrest d hd))
  -- nothing is taken off the end, since the last character is none of those
  have hend : ∀ before : List Char,
      ((before ++ c :: rest).reverse.dropWhile fun c => decide (c.toNat ≤ 0x20)).reverse =
        before ++ c :: rest := by
    intro before
    cases hlast : (c :: rest).reverse with
    | nil => simp at hlast
    | cons last more =>
      have hmem : last ∈ c :: rest := List.mem_reverse.1 (hlast ▸ List.mem_cons_self)
      rw [List.reverse_append, hlast, List.cons_append,
        List.dropWhile_cons_of_neg (by rw [hloose last hmem]; exact Bool.false_ne_true),
        ← List.cons_append, ← hlast, ← List.reverse_append, List.reverse_reverse]
  have hbreaks : (c :: rest).filter (fun c => !(c == '\t' || c == '\n' || c == '\r')) =
      c :: rest := by
    refine List.filter_eq_self.2 fun d hd => ?_
    have hlt := hrest d hd
    simp only [Bool.not_eq_true', Bool.or_eq_false_iff, beq_eq_false_iff_ne]
    refine ⟨⟨?_, ?_⟩, ?_⟩ <;> rintro rfl <;> exact absurd hlt (by decide)
  simp only [clean]
  rw [dropWhile_append_cons (hloose c List.mem_cons_self), hend, List.filter_append, hbreaks]

/-- A scheme ends before the first slash. -/
theorem exists_scheme (front : List Char) : (∀ rest, scheme? (front ++ '/' :: rest) = none) ∨
    ∃ name back, (∀ c ∈ back, c ∈ front) ∧
      ∀ rest, scheme? (front ++ '/' :: rest) = some (name, back ++ '/' :: rest) := by
  have htakes := takeWhile_append_cons (c := '/')
    (p := fun c => c.isAlphanum || c == '+' || c == '-' || c == '.') (by decide) front
  have hdrops := dropWhile_append_cons (c := '/')
    (p := fun c => c.isAlphanum || c == '+' || c == '-' || c == '.') (by decide) front
  simp only [scheme?, htakes, hdrops]
  -- no scheme without a first letter and a colon, wherever the slash stands
  cases htake : front.takeWhile fun c : Char =>
      c.isAlphanum || c == '+' || c == '-' || c == '.' with
  | nil => exact .inl fun rest => rfl
  | cons c name =>
    cases hdrop : front.dropWhile fun c : Char =>
        c.isAlphanum || c == '+' || c == '-' || c == '.' with
    | nil => exact .inl fun rest => rfl
    | cons d back =>
      by_cases hd : d = ':'
      · subst hd
        by_cases hc : c.isAlpha = true
        · refine .inr ⟨(c :: name).map Char.toLower, back, fun e he => ?_, fun rest => if_pos hc⟩
          exact (List.dropWhile_sublist _).mem (hdrop ▸ List.mem_cons_of_mem _ he)
        · exact .inl fun rest => if_neg hc
      · refine .inl fun rest => ?_
        split
        · rename_i heq
          exact absurd (List.cons.inj heq).1 hd
        · rfl

theorem takeWhile_bne_of_notMem {d : Char} {cs : List Char} (h : d ∉ cs) :
    cs.takeWhile (· != d) = cs := by
  refine List.takeWhile_eq_self_iff.2 fun c hc => ?_
  exact bne_iff_ne.2 fun he => h (he ▸ hc)

theorem dropWhile_bne_of_notMem {d : Char} {cs : List Char} (h : d ∉ cs) :
    cs.dropWhile (· != d) = [] := by
  refine List.dropWhile_eq_nil_iff.2 fun c hc => ?_
  exact bne_iff_ne.2 fun he => h (he ▸ hc)

/-- What may stand in a path below an address. -/
def IsBelow (rest : List Char) : Prop := ∀ c ∈ rest, isPlain c = true ∨ c = '/'

/-- What stands behind a host has no query and no fragment if nothing before it has. -/
theorem notMem_behind {host rest : List Char} (hrest : IsBelow rest) {d : Char} (hhost : d ∉ host)
    (hd : isPlain d = false) (hslash : d ≠ '/') :
    d ∉ host.dropWhile (!endsAuthority ·) ++ '/' :: rest := by
  intro hmem
  rcases List.mem_append.1 hmem with h | h
  · exact hhost ((List.dropWhile_sublist _).mem h)
  · rcases List.mem_cons.1 h with h | h
    · exact hslash h
    · rcases hrest d h with h | h
      · rw [hd] at h
        cases h
      · exact hslash h

/-- The segments behind a host begin with the same ones whatever stands below them. -/
theorem exists_segments {host : List Char} (hquery : '?' ∉ host) (hfragment : '#' ∉ host) :
    ∃ above, ∀ rest, Text.split isSlash
      (match host.dropWhile (!endsAuthority ·) ++ '/' :: rest with
        | c :: cs => if isSlash c then cs else c :: cs
        | [] => []) = above ++ Text.split isSlash rest := by
  cases htail : host.dropWhile (!endsAuthority ·) with
  | nil => exact ⟨[], fun rest => rfl⟩
  | cons c tail =>
    -- the host ends before a slash, since there is no query and no fragment
    have hmem : c ∈ host := (List.dropWhile_sublist _).mem (htail ▸ List.mem_cons_self)
    have hne : ¬(c = '?' ∨ c = '#') := by
      rintro (rfl | rfl)
      · exact hquery hmem
      · exact hfragment hmem
    have hends : endsAuthority c = true := by
      have := List.head_dropWhile_not (!endsAuthority ·) (l := host)
        (by rw [htail]; exact List.cons_ne_nil _ _)
      simpa [htail] using this
    have hslash : isSlash c = true := by simpa [endsAuthority, or_assoc, hne] using hends
    refine ⟨Text.split isSlash tail, fun rest => ?_⟩
    show Text.split isSlash (if isSlash c then tail ++ '/' :: rest else _) = _
    rw [if_pos hslash, Text.split_append_cons _ rfl]

/-- With a slash behind it a text is no address, or one below which everything is read alike: only
the segments change. -/
theorem parse?_slash {top : String} (hquery : '?' ∉ top.toList) (hfragment : '#' ∉ top.toList) :
    parse? (String.ofList (top.toList ++ ['/'])) = none ∨
      ∃ scheme host port above, ∀ rest, IsBelow rest →
        parse? (String.ofList (top.toList ++ '/' :: rest)) =
          some ⟨scheme, host, port, resolve (above ++ Text.split isSlash rest), []⟩ := by
  obtain ⟨kept, hkept, hclean⟩ := exists_clean top.toList
  have hcleaned : ∀ rest, IsBelow rest → clean (top.toList ++ '/' :: rest) = kept ++
      '/' :: rest := by
    refine fun rest hrest => hclean '/' rest fun d hd => ?_
    rcases List.mem_cons.1 hd with rfl | hd
    · decide
    · rcases hrest d hd with h | rfl
      · simp only [isPlain, Bool.and_eq_true, decide_eq_true_eq] at h
        exact h.1.1
      · decide
  have hnil : IsBelow [] := fun c hc => absurd hc List.not_mem_nil
  rcases exists_scheme kept with hnone | ⟨name, back, hback, hscheme⟩
  · left
    simp only [parse?, String.toList_ofList, hcleaned [] hnil, hnone]
    rfl
  cases hname : Scheme.ofName? name with
  | none =>
    left
    simp only [parse?, String.toList_ofList, hcleaned [] hnil, hscheme, Option.bind_eq_bind,
      Option.bind_some, hname]
    rfl
  | some scheme =>
    have hmem : ∀ c, c ∈ back.dropWhile isSlash → c ∈ top.toList := fun c hc =>
      hkept c (hback c ((List.dropWhile_sublist _).mem hc))
    by_cases hhost : back.dropWhile isSlash = []
    · -- there are only slashes behind the scheme, and the one that is put behind them is no host
      left
      have hslashes : (back ++ ['/']).dropWhile isSlash = [] := by
        rw [List.dropWhile_append, hhost]
        rfl
      simp only [parse?, String.toList_ofList, hcleaned [] hnil, hscheme, Option.bind_eq_bind,
        Option.bind_some, hname, hslashes]
      rfl
    obtain ⟨above, habove⟩ :=
      exists_segments (fun h => hquery (hmem _ h)) (fun h => hfragment (hmem _ h))
    have hslashes : ∀ rest, (back ++ '/' :: rest).dropWhile isSlash =
        back.dropWhile isSlash ++ '/' :: rest := by
      intro rest
      rw [List.dropWhile_append, if_neg (by simpa using hhost)]
    have htakes := takeWhile_append_cons (p := (!endsAuthority ·)) (c := '/') (by decide)
      (back.dropWhile isSlash)
    have hdrops := dropWhile_append_cons (p := (!endsAuthority ·)) (c := '/') (by decide)
      (back.dropWhile isSlash)
    cases hport : hostPort? scheme.defaultPort
        (withoutUser ((back.dropWhile isSlash).takeWhile (!endsAuthority ·))) with
    | none =>
      left
      simp only [parse?, String.toList_ofList, hcleaned [] hnil, hscheme, Option.bind_eq_bind,
        Option.bind_some, hname, hslashes, htakes, hport]
      rfl
    | some place =>
      refine .inr ⟨scheme, place.1, place.2, above, fun rest hrest => ?_⟩
      have hq := notMem_behind hrest (fun h => hquery (hmem _ h)) (by decide) (by decide)
      have hf := notMem_behind hrest (fun h => hfragment (hmem _ h)) (by decide) (by decide)
      simp only [parse?, String.toList_ofList, hcleaned rest hrest, hscheme, Option.bind_eq_bind,
        Option.bind_some, hname, hslashes, htakes, hport, hdrops, takeWhile_bne_of_notMem hf,
        takeWhile_bne_of_notMem hq, dropWhile_bne_of_notMem hq]
      exact congrArg (fun ss => some (⟨scheme, place.1, place.2, resolve ss, []⟩ : Url))
        (habove rest)

/-! ### Resolving segments -/

theorem resolveFrom_cons {above : List (List Char)} {s : List Char} {rest : List (List Char)}
    (hrest : rest ≠ []) :
    resolveFrom above (s :: rest) =
      if isDoubleDot s then resolveFrom above.tail rest
      else if isSingleDot s then resolveFrom above rest
      else resolveFrom (encode isPathByte s :: above) rest := by
  rw [resolveFrom]
  exact fun h => hrest h

/-- Wherever some segments lead from, what follows is resolved from there. -/
theorem exists_reached (ss above : List (List Char)) :
    ∃ reached, ∀ s rest, resolveFrom above (ss ++ s :: rest) = resolveFrom reached (s :: rest) := by
  induction ss generalizing above with
  | nil => exact ⟨above, fun s rest => rfl⟩
  | cons t ss ih =>
    have hcons : ∀ s rest, resolveFrom above (t :: ss ++ s :: rest) =
        if isDoubleDot t then resolveFrom above.tail (ss ++ s :: rest)
        else if isSingleDot t then resolveFrom above (ss ++ s :: rest)
        else resolveFrom (encode isPathByte t :: above) (ss ++ s :: rest) := fun s rest =>
      resolveFrom_cons (by simp)
    simp only [hcons]
    -- two dots lead one up, one dot stays, and any other segment leads down
    split
    · exact ih above.tail
    · split
      · exact ih above
      · exact ih (encode isPathByte t :: above)

theorem resolveFrom_nil (above : List (List Char)) :
    resolveFrom above [[]] = above.reverse ++ [[]] :=
  resolveFrom_of_plain (List.forall_mem_singleton.2 (by decide)) above

/-- Two segments that are not dots before two that may be: what is resolved stays below the
place. -/
theorem resolveFrom_alternating {a b : List Char}
    (ha : isSingleDot a = false ∧ isDoubleDot a = false)
    (hb : isSingleDot b = false ∧ isDoubleDot b = false) (s t : List Char)
    (above : List (List Char)) :
    resolveFrom above [a, s, b, t] = above.reverse ++ resolve [a, s, b, t] := by
  obtain ⟨ha1, ha2⟩ := ha
  obtain ⟨hb1, hb2⟩ := hb
  simp only [resolve, resolveFrom, ha1, ha2, hb1, hb2, Bool.false_eq_true, if_false, List.tail_cons]
  cases isDoubleDot s <;> cases isSingleDot s <;> cases isDoubleDot t <;>
      cases isSingleDot t <;> simp

/-! ### What is asked of the host -/

/-- The address that some segments lead to from an address. -/
def below (u : Url) (segments : List (List Char)) : Url := { u with path := u.path ++ segments }

@[simp] theorem path_below (u : Url) (segments : List (List Char)) :
    (u.below segments).path = u.path ++ segments := rfl

theorem isSlash_of_isPlain {c : Char} (h : isPlain c = true) : isSlash c = false := by
  simp only [isPlain, endsAuthority, Bool.and_eq_true, Bool.not_eq_true', Bool.or_eq_false_iff] at h
  exact h.1.2.1.1

/-- Segments that hold no slashes. -/
def Slashless (ss : List (List Char)) : Prop := ∀ s ∈ ss, ∀ c ∈ s, isSlash c = false

theorem slashless_singleton {s : List Char} (h : ∀ c ∈ s, isPlain c = true) : Slashless [s] :=
  List.forall_mem_singleton.2 fun c hc => isSlash_of_isPlain (h c hc)

theorem Slashless.append {ss ts : List (List Char)} (hss : Slashless ss) (hts : Slashless ts) :
    Slashless (ss ++ ts) := fun s hs => (List.mem_append.1 hs).elim (hss s) (hts s)

theorem Slashless.sublist {ss ts : List (List Char)} (h : ss.Sublist ts) (hts : Slashless ts) :
    Slashless ss :=
  fun s hs => hts s (h.mem hs)

/-- Segments without slashes can be told apart in what is asked of the host. -/
theorem target_below_inj {u : Url} {ss ts : List (List Char)} (hss : Slashless ss)
    (hts : Slashless ts) :
    (u.below ss).target = (u.below ts).target ↔ ss = ts := by
  refine ⟨fun h => ?_, fun h => by rw [h]⟩
  have hnil : ∀ c ∈ ([] : List Char), isSlash c = false := fun c hc => absurd hc List.not_mem_nil
  have hpath : ss.flatMap ('/' :: ·) = ts.flatMap ('/' :: ·) := by
    have h := String.ofList_injective h
    simp only [below, pathText, List.flatMap_append] at h
    exact List.append_cancel_left (List.append_cancel_right h)
  have hsplit := congrArg (Text.split isSlash) hpath
  rw [← List.nil_append (ss.flatMap _), ← List.nil_append (ts.flatMap _),
    Text.split_flatMap_cons rfl hnil hss, Text.split_flatMap_cons rfl hnil hts] at hsplit
  exact (List.cons.inj hsplit).2

end Url

end Roster
