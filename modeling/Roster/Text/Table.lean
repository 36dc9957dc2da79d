/-
Tables with frames.

A cell is a text of one or more lines.  Each column is as wide as the widest line in it, each row as
high as its highest cell; lines stand at the left and cells at the top, with a blank on either side.
The frame has round corners and a rule below the first row.

* `columns_rule`, `columns_rowLine`: every line of a table is equally wide.
-/
import Roster.Text.Split
import Roster.Text.Width

namespace Roster.Text.Table

abbrev Cell := List (List Char)

def cell (text : String) : Cell := split (· == '\n') text.toList

/-- The columns that a cell takes up. -/
def cellColumns (c : Cell) : Nat := (c.map columns).foldr max 0

/-- The width of every column, given the width that each row needs for it. -/
def widest : List (List Nat) → List Nat
  | [] => []
  | [widths] => widths
  | widths :: rest => List.zipWith max widths (widest rest)

def columnWidths (rows : List (List Cell)) : List Nat :=
  widest (rows.map fun row => row.map cellColumns)

def padded (width : Nat) (line : List Char) : List Char :=
  line ++ List.replicate (width - columns line) ' '

/-- Parts of a line with frame characters before, between and after them. -/
def framed (left middle right : Char) (parts : List (List Char)) : List Char :=
  left :: ([middle].intercalate parts ++ [right])

def rule (left middle right : Char) (widths : List Nat) : List Char :=
  framed left middle right (widths.map fun w => List.replicate (w + 2) '─')

def boxed (width : Nat) (line : List Char) : List Char := ' ' :: (padded width line ++ [' '])

def rowLine (widths : List Nat) (lines : List (List Char)) : List Char :=
  framed '│' '│' '│' (List.zipWith boxed widths lines)

def height (row : List Cell) : Nat := (row.map List.length).foldr max 1

def rowLines (widths : List Nat) (row : List Cell) : List (List Char) :=
  (List.range (height row)).map fun i => rowLine widths (row.map fun part => part[i]?.getD [])

def lines (headings : List Cell) (rows : List (List Cell)) : List (List Char) :=
  let widths := columnWidths (headings :: rows)
  rule '╭' '┬' '╮' widths :: rowLines widths headings ++ rule '├' '┼' '┤' widths ::
    rows.flatMap (rowLines widths) ++ [rule '╰' '┴' '╯' widths]

def render (headings : List String) (rows : List (List String)) : String :=
  String.ofList (['\n'].intercalate (lines (headings.map cell) (rows.map fun row => row.map cell)))

theorem columns_cons {c : Char} (h : charColumns c = 1) (cs : List Char) :
    columns (c :: cs) = columns cs + 1 := by
  rw [columns, h, Nat.add_comm]

theorem columns_replicate {c : Char} (h : charColumns c = 1) (n : Nat) :
    columns (List.replicate n c) = n := by
  induction n with
  | zero => rfl
  | succ n ih => rw [List.replicate_succ, columns_cons h, ih]

theorem columns_padded {width : Nat} {line : List Char} (h : columns line ≤ width) :
    columns (padded width line) = width := by
  rw [padded, columns_append, columns_replicate (by decide)]
  omega

def framedColumns : List Nat → Nat
  | [] => 1
  | w :: ws => w + 1 + framedColumns ws

theorem columns_framed {left middle right : Char} (hl : charColumns left = 1)
    (hm : charColumns middle = 1) (hr : charColumns right = 1) {parts : List (List Char)}
    (h : parts ≠ []) :
    columns (framed left middle right parts) = framedColumns (parts.map columns) := by
  induction parts with
  | nil => exact absurd rfl h
  | cons part rest ih =>
    cases rest with
    | nil =>
      simp only [framed, List.intercalate_singleton]
      rw [columns_cons hl, columns_append, columns_cons hr]
      simp [columns, framedColumns]
    | cons next rest =>
      have ih := ih (by simp)
      simp only [framed] at ih ⊢
      rw [columns_cons hl] at ih ⊢
      simp only [List.intercalate_cons_cons, List.append_assoc, List.map_cons, framedColumns]
      rw [columns_append, List.singleton_append, columns_cons hm]
      simp only [List.map_cons, framedColumns] at ih
      omega

def frame : List Char := ['╭', '┬', '╮', '├', '┼', '┤', '╰', '┴', '╯', '│', '─']

theorem all_frame : (frame.all fun c => charColumns c == 1) = true := by decide +kernel

theorem charColumns_frame {c : Char} (h : c ∈ frame) : charColumns c = 1 := by
  simpa using List.all_eq_true.1 all_frame c h

theorem columns_rule {left middle right : Char} (hl : charColumns left = 1)
    (hm : charColumns middle = 1) (hr : charColumns right = 1) {widths : List Nat}
    (h : widths ≠ []) :
    columns (rule left middle right widths) = framedColumns (widths.map (· + 2)) := by
  have hd := charColumns_frame (c := '─') (by simp [frame])
  rw [rule, columns_framed hl hm hr (by simpa using h), List.map_map]
  simp only [Function.comp_def, columns_replicate hd]

theorem columns_boxed {width : Nat} {line : List Char} (h : columns line ≤ width) :
    columns (boxed width line) = width + 2 := by
  rw [boxed, columns_cons (by decide), columns_append, columns_padded h, columns_cons (by decide)]
  simp [columns]

theorem map_zipWith_boxed {widths : List Nat} {lines : List (List Char)}
    (hl : lines.length = widths.length) (h : ∀ e ∈ widths.zip lines, columns e.2 ≤ e.1) :
    (List.zipWith boxed widths lines).map columns = widths.map (· + 2) := by
  induction widths generalizing lines with
  | nil => simp
  | cons w ws ih =>
    cases lines with
    | nil => simp at hl
    | cons line rest =>
      simp only [List.zip_cons_cons, List.forall_mem_cons] at h
      simp only [List.length_cons, Nat.add_right_cancel_iff] at hl
      simp [columns_boxed h.1, ih hl h.2]

theorem columns_rowLine {widths : List Nat} {lines : List (List Char)} (hn : widths ≠ [])
    (hl : lines.length = widths.length) (h : ∀ e ∈ widths.zip lines, columns e.2 ≤ e.1) :
    columns (rowLine widths lines) = framedColumns (widths.map (· + 2)) := by
  have hz : List.zipWith boxed widths lines ≠ [] := by
    intro he
    have := congrArg List.length he
    rw [List.length_zipWith, hl, Nat.min_self] at this
    exact hn (List.length_eq_zero_iff.1 this)
  have hc := charColumns_frame (c := '│') (by simp [frame])
  rw [rowLine, columns_framed hc hc hc hz, map_zipWith_boxed hl h]

end Roster.Text.Table
