/-
Blank characters and trimming.

`isBlank` is the Unicode property White_Space, and `trim` drops blank characters at both ends of a
text.  A trimmed text is empty exactly if every character is blank (`trim_eq_nil_iff`), and trimming
takes the blanks off a word (`trim_of_word`, `exists_trim`).
-/

namespace Roster.Text

/-- The characters with the Unicode property White_Space. -/
def isBlank (c : Char) : Bool :=
  let n := c.toNat
  (0x09 ≤ n && n ≤ 0x0D) || n == 0x20 || n == 0x85 || n == 0xA0 || n == 0x1680 ||
    (0x2000 ≤ n && n ≤ 0x200A) || n == 0x2028 || n == 0x2029 || n == 0x202F || n == 0x205F ||
    n == 0x3000

def trimLeft (cs : List Char) : List Char := cs.dropWhile isBlank

def trimRight (cs : List Char) : List Char := (cs.reverse.dropWhile isBlank).reverse

def trim (cs : List Char) : List Char := trimRight (trimLeft cs)

/-- `trim` on strings. -/
def trimmed (s : String) : String := String.ofList (trim s.toList)

def isBlankText (s : String) : Bool := s.toList.all isBlank

theorem trim_eq_nil_iff {cs : List Char} : trim cs = [] ↔ ∀ c ∈ cs, isBlank c = true := by
  have key : ∀ l : List Char, l.dropWhile isBlank = [] ↔ ∀ c ∈ l, isBlank c = true := by
    intro l
    induction l with
    | nil => simp
    | cons c l ih =>
      by_cases hc : isBlank c = true
      · simp [hc, ih]
      · simp [hc]
  constructor
  · intro h
    have h' : (trimLeft cs).reverse.dropWhile isBlank = [] := by
      simpa [trim, trimRight] using h
    have hl : ∀ c ∈ trimLeft cs, isBlank c = true := fun c hc =>
      (key _).1 h' c (List.mem_reverse.2 hc)
    rw [← key]
    cases hd : cs.dropWhile isBlank with
    | nil => rfl
    | cons c l =>
      have hb : isBlank c = true := hl c (by rw [trimLeft, hd]; exact List.mem_cons_self)
      have hn := List.head_dropWhile_not isBlank (l := cs) (by rw [hd]; simp)
      simp [hd, hb] at hn
  · intro h
    simp [trim, trimRight, trimLeft, (key cs).2 h]

theorem dropWhile_blank_append {lead rest : List Char} (hlead : ∀ c ∈ lead, isBlank c = true)
    (hrest : rest.head?.any isBlank = false) : (lead ++ rest).dropWhile isBlank = rest := by
  rw [List.dropWhile_append_of_pos hlead]
  cases rest with
  | nil => rfl
  | cons c rest =>
    have hc : isBlank c = false := hrest
    rw [List.dropWhile_cons_of_neg (by simp [hc])]

/-- Trimming takes the blanks off a word that has none at its ends. -/
theorem trim_of_word {lead word trail : List Char} (hlead : ∀ c ∈ lead, isBlank c = true)
    (htrail : ∀ c ∈ trail, isBlank c = true) (hfirst : word.head?.any isBlank = false)
    (hlast : word.getLast?.any isBlank = false) (hword : word ≠ []) :
    trim (lead ++ (word ++ trail)) = word := by
  have hleft : trimLeft (lead ++ (word ++ trail)) = word ++ trail := by
    refine dropWhile_blank_append hlead ?_
    cases word with
    | nil => exact absurd rfl hword
    | cons c word => exact hfirst
  have hright : (trail.reverse ++ word.reverse).dropWhile isBlank = word.reverse := by
    refine dropWhile_blank_append (fun c hc => htrail c (List.mem_reverse.1 hc)) ?_
    rwa [List.head?_reverse]
  rw [trim, hleft, trimRight, List.reverse_append, hright, List.reverse_reverse]

/-- A text is its trimmed form with blanks at both ends. -/
theorem exists_trim (cs : List Char) : ∃ lead trail, (∀ c ∈ lead, isBlank c = true) ∧
    (∀ c ∈ trail, isBlank c = true) ∧ cs = lead ++ (trim cs ++ trail) := by
  refine ⟨cs.takeWhile isBlank, ((trimLeft cs).reverse.takeWhile isBlank).reverse, fun c hc => ?_,
    fun c hc => ?_, ?_⟩
  · exact List.all_eq_true.1 List.all_takeWhile c hc
  · exact List.all_eq_true.1 List.all_takeWhile c (List.mem_reverse.1 hc)
  · rw [trim, trimRight, ← List.reverse_append, List.takeWhile_append_dropWhile,
      List.reverse_reverse, trimLeft, List.takeWhile_append_dropWhile]

end Roster.Text
