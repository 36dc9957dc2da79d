/-
Edit runs between two sequences of lines.

A run keeps, drops or adds a number of lines.  The runs between two sequences come from the middle
of a shortest path of edits: the path is searched from both ends at once, and where the two searches
meet, the sequences are cut in two and each half is treated in the same way.  `settle` then moves
every added run up as far as equal lines above it allow, joining what it meets, and down as far as
they allow below it, which fixes one of several equally short answers.

A run holds the positions at which it starts in either sequence.  The position in the sequence that
it does not touch is only good for headers, and moving a run moves both.
-/

namespace Roster.Text

/-- What a run does with its lines. -/
inductive Change where
  | keep
  | drop
  | add
  deriving DecidableEq, Repr

/-- Consecutive lines with one change. -/
structure Run where
  change : Change
  old : Nat
  new : Nat
  length : Nat
  deriving DecidableEq, Repr

namespace Run

def oldLength (r : Run) : Nat := if r.change = .add then 0 else r.length

def newLength (r : Run) : Nat := if r.change = .drop then 0 else r.length

def oldStop (r : Run) : Nat := r.old + r.oldLength

def newStop (r : Run) : Nat := r.new + r.newLength

def up (r : Run) (n : Nat) : Run := { r with old := r.old - n, new := r.new - n }

def down (r : Run) (n : Nat) : Run := { r with old := r.old + n, new := r.new + n }

def grow (r : Run) (n : Nat) : Run := { r with length := r.length + n }

def shrink (r : Run) (n : Nat) : Run := { r with length := r.length - n }

end Run

namespace Runs

/-- How many of at most `limit` lines agree from two positions on, downwards. -/
def agreeDown (same : Nat → Nat → Bool) : Nat → Nat → Nat → Nat
  | 0, _, _ => 0
  | limit + 1, i, j => if same i j then agreeDown same limit (i + 1) (j + 1) + 1 else 0

/-- How many of at most `limit` lines agree before two positions, upwards. -/
def agreeUp (same : Nat → Nat → Bool) : Nat → Nat → Nat → Nat
  | 0, _, _ => 0
  | limit + 1, i, j => if same (i - 1) (j - 1) then agreeUp same limit (i - 1) (j - 1) + 1 else 0

/-- A part of both sequences. -/
structure Window where
  old : Nat
  oldStop : Nat
  new : Nat
  newStop : Nat

namespace Window

def oldLength (w : Window) : Nat := w.oldStop - w.old

def newLength (w : Window) : Nat := w.newStop - w.new

end Window

/-- How far a search has come on each diagonal, the diagonal 0 standing at `centre`. -/
structure Frontier where
  centre : Nat
  reach : Array Nat

namespace Frontier

/-- A search that has come nowhere. -/
def start (size : Nat) : Frontier := ⟨size + 1, Array.replicate (2 * size + 3) 0⟩

def get (f : Frontier) (k : Int) : Nat := f.reach.getD (f.centre + k).toNat 0

def set (f : Frontier) (k : Int) (x : Nat) : Frontier :=
  { f with reach := f.reach.setIfInBounds (f.centre + k).toNat x }

/-- Where a path of `d` edits enters a diagonal: from the neighbour that has come further. -/
def enter (f : Frontier) (d k : Int) : Nat :=
  if k = -d ∨ (k ≠ d ∧ f.get (k - 1) < f.get (k + 1)) then f.get (k + 1) else f.get (k - 1) + 1

end Frontier

/-- A search that may end early, at the point where the searches of both ends meet. -/
abbrev Search := Except (Nat × Nat)

/-- The diagonals that paths of `d` edits can end on, the highest first. -/
def diagonals (d : Nat) : List Int := (List.range (d + 1)).map fun (i : Nat) => (d : Int) - 2 * i

/-- One more edit for the search from the start, on one diagonal. -/
def forward (same : Nat → Nat → Bool) (w : Window) (d : Nat) (back : Frontier) (front : Frontier)
    (k : Int) : Search Frontier :=
  let n := w.oldLength
  let m := w.newLength
  let delta : Int := (n : Int) - m
  let x₀ := front.enter d k
  let y₀ := (x₀ : Int) - k
  let x :=
    if x₀ < n ∧ 0 ≤ y₀ ∧ y₀ < m then
      x₀ + agreeDown same (min (n - x₀) (m - y₀.toNat)) (w.old + x₀) (w.new + y₀.toNat)
    else x₀
  -- a path of an odd number of edits is closed by the search from the start
  if delta % 2 = 1 ∧ (k - delta).natAbs + 1 ≤ d ∧ n ≤ x + back.get (-(k - delta)) then
    .error (w.old + x₀, w.new + y₀.toNat)
  else .ok (front.set k x)

/-- One more edit for the search from the end, on one diagonal. -/
def backward (same : Nat → Nat → Bool) (w : Window) (d : Nat) (front : Frontier) (back : Frontier)
    (k : Int) : Search Frontier :=
  let n := w.oldLength
  let m := w.newLength
  let delta : Int := (n : Int) - m
  let x₀ := back.enter d k
  let y₀ := (x₀ : Int) - k
  let steps :=
    if x₀ < n ∧ 0 ≤ y₀ ∧ y₀ < m then
      agreeUp same (min (n - x₀) (m - y₀.toNat)) (w.oldStop - x₀) (w.newStop - y₀.toNat)
    else 0
  let x := x₀ + steps
  -- and one of an even number by the search from the end
  if delta % 2 = 0 ∧ (k - delta).natAbs ≤ d ∧ n ≤ x + front.get (-(k - delta)) then
    .error (w.oldStop - x, w.newStop - (y₀ + steps).toNat)
  else .ok (back.set k x)

/-- Searches from both ends with ever more edits. -/
def searchFrom (same : Nat → Nat → Bool) (w : Window) : Nat → Nat → Frontier → Frontier →
    Search Unit
  | 0, _, _, _ => .ok ()
  | left + 1, d, front, back => do
    let front ← (diagonals d).foldlM (forward same w d back) front
    let back ← (diagonals d).foldlM (backward same w d front) back
    searchFrom same w left (d + 1) front back

/-- A point on a shortest path through the window. -/
def middle? (same : Nat → Nat → Bool) (w : Window) : Option (Nat × Nat) :=
  let size := (w.oldLength + w.newLength + 1) / 2 + 1
  match searchFrom same w size 0 (.start size) (.start size) with
  | .error point => some point
  | .ok () => none

/-- A run, unless it is empty. -/
def nonempty (change : Change) (old new length : Nat) : List Run :=
  if length = 0 then [] else [⟨change, old, new, length⟩]

/-- The runs of a window: what both sequences start and end with is kept, and what is left between
is cut in two at a point of a shortest path. -/
def within (same : Nat → Nat → Bool) : Nat → Window → List Run
  | 0, w => nonempty .drop w.old w.new w.oldLength ++ nonempty .add w.old w.new w.newLength
  | fuel + 1, w =>
    let above := agreeDown same (min w.oldLength w.newLength) w.old w.new
    let v : Window := { w with old := w.old + above, new := w.new + above }
    let below := agreeUp same (min v.oldLength v.newLength) v.oldStop v.newStop
    let v : Window := { v with oldStop := v.oldStop - below, newStop := v.newStop - below }
    let between :=
      if v.oldLength = 0 ∨ v.newLength = 0 then
        nonempty .drop v.old v.new v.oldLength ++ nonempty .add v.old v.new v.newLength
      else
        match middle? same v with
        | some (x, y) =>
          within same fuel { v with oldStop := x, newStop := y } ++
            within same fuel { v with old := x, new := y }
        | none => nonempty .drop v.old v.new v.oldLength ++ nonempty .add v.old v.new v.newLength
    nonempty .keep w.old w.new above ++ between ++ nonempty .keep v.oldStop v.newStop below

/-! ### Settling -/

/-- A run with the runs above it, the nearest first, and the runs below it. -/
structure Focus where
  above : List Run
  run : Run
  below : List Run

/-- An upper bound for the steps that a run can be moved past some others. -/
def distance (runs : List Run) : Nat := runs.foldr (fun r n => r.length + 1 + n) 0

/-- Puts a run in front, unless it is empty. -/
def consNonempty (r : Run) (runs : List Run) : List Run := if r.length = 0 then runs else r :: runs

/-- Moves the run up past equal lines and past runs of the other change, joining runs of its own. -/
def slideUp (same : Nat → Nat → Bool) : Nat → Focus → Focus
  | 0, f => f
  | fuel + 1, f =>
    match f.above with
    | [] => f
    | r :: above =>
      if r.change = .keep then
        let n := agreeUp same (min r.oldLength f.run.newLength) r.oldStop f.run.newStop
        if n = 0 then
          if r.length = 0 then slideUp same fuel { f with above := above } else f
        else
          -- the lines that the run leaves below it are kept
          let below :=
            match f.below with
            | s :: below =>
              if s.change = .keep then (s.up n).grow n :: below
              else ⟨.keep, r.oldStop - n, f.run.newStop - n, n⟩ :: f.below
            | [] => [⟨.keep, r.oldStop - n, f.run.newStop - n, n⟩]
          slideUp same fuel ⟨consNonempty (r.shrink n) above, f.run.up n, below⟩
      else if r.change = f.run.change then
        slideUp same fuel { f with above := above, run := r.grow f.run.length }
      else slideUp same fuel ⟨above, f.run, r :: f.below⟩

/-- Moves the run down past equal lines and past runs of the other change, joining runs of its
own. -/
def slideDown (same : Nat → Nat → Bool) : Nat → Focus → Focus
  | 0, f => f
  | fuel + 1, f =>
    match f.below with
    | [] => f
    | r :: below =>
      if r.change = .keep then
        let n := agreeDown same (min r.oldLength f.run.newLength) r.old f.run.new
        if n = 0 then
          if r.length = 0 then slideDown same fuel { f with below := below } else f
        else
          -- the lines that the run leaves above it are kept
          let above :=
            match f.above with
            | s :: above =>
              if s.change = .keep then s.grow n :: above
              else ⟨.keep, r.old, f.run.new, n⟩ :: f.above
            | [] => [⟨.keep, r.old, f.run.new, n⟩]
          slideDown same fuel ⟨above, f.run.down n, consNonempty ((r.down n).shrink n) below⟩
      else if r.change = f.run.change then
        slideDown same fuel { f with run := f.run.grow r.length, below := below }
      else slideDown same fuel ⟨r :: f.above, f.run, below⟩

/-- Slides every run of a change up and then down, from the first run to the last. -/
def settleFrom (same : Nat → Nat → Bool) (change : Change) : Nat → List Run → List Run → List Run
  | _, above, [] => above.reverse
  | 0, above, below => above.reverse ++ below
  | fuel + 1, above, r :: below =>
    if r.change = change then
      let f := slideUp same (distance above + 1) ⟨above, r, below⟩
      let f := slideDown same (distance f.below + 1) f
      settleFrom same change fuel (f.run :: f.above) f.below
    else settleFrom same change fuel (r :: above) below

def settle (same : Nat → Nat → Bool) (runs : List Run) : List Run :=
  -- a dropped run has no new lines to compare, so it only joins with its like
  let runs := settleFrom same .drop (2 * distance runs + 1) [] runs
  settleFrom same .add (2 * distance runs + 1) [] runs

def between (same : Nat → Nat → Bool) (oldLength newLength : Nat) : List Run :=
  settle same (within same (oldLength + newLength + 1) ⟨0, oldLength, 0, newLength⟩)

end Runs

end Roster.Text
