/-
Readers of JSON text.

A reader takes the rest of a text and answers what it read and what is left, or the first fault in
reading order: the text ends too early, it is not JSON, or it is JSON of another shape than the
reader asks for.  `readItems` and `readMembers` walk the parts of an array or an object with any
reader of a part, so that a typed reader meets a fault of shape before a fault of form that stands
behind it.

Every array or object that is open costs one level, and `maxLevels` may be open at once: a `Decoder`
is a reader that is told how many levels are left.

* `skipSpace_cons`, `skipSpace_idem`: what is left after skipping blanks starts with none.
-/

namespace Roster.Json

/-- What is wrong with a text. -/
inductive Fault where
  /-- The text ends too early. -/
  | truncated
  /-- The text is not JSON. -/
  | malformed
  /-- The text is JSON, but not of the shape asked for. -/
  | mismatched
  deriving DecidableEq, Repr

def Fault.message : Fault → String
  | truncated => "the text ends too early"
  | malformed => "the text is not JSON"
  | mismatched => "the text has an unexpected shape"

/-- What a reader answers: a value and the rest of the text, or a fault. -/
abbrev Reading (α : Type) := Except Fault (α × List Char)

abbrev Reader (α : Type) := List Char → Reading α

/-- A reader that may open a number of further levels. -/
abbrev Decoder (α : Type) := Nat → Reader α

/-- The arrays and objects that may be open at once. -/
def maxLevels : Nat := 127

def isSpace (c : Char) : Bool := c == ' ' || c == '\n' || c == '\t' || c == '\r'

def skipSpace (cs : List Char) : List Char := cs.dropWhile isSpace

theorem skipSpace_cons {c : Char} (h : isSpace c = false) (cs : List Char) :
    skipSpace (c :: cs) = c :: cs := by
  simp [skipSpace, h]

theorem skipSpace_idem (cs : List Char) : skipSpace (skipSpace cs) = skipSpace cs := by
  induction cs with
  | nil => rfl
  | cons c cs ih =>
    by_cases h : isSpace c = true
    · simpa [skipSpace, h] using ih
    · simp [skipSpace, h]

def expectWord : List Char → Reader Unit
  | [], cs => .ok ((), cs)
  | _ :: _, [] => .error .truncated
  | w :: ws, c :: cs => if c = w then expectWord ws cs else .error .malformed

def Reading.andThen {α β : Type} (reading : Reading α) (next : α → Reader β) : Reading β :=
  match reading with
  | .ok (a, rest) => next a rest
  | .error fault => .error fault

/-- The value of a reading, changed or refused by a check. -/
def Reading.bindValue {α β : Type} (reading : Reading α) (f : α → Except Fault β) : Reading β :=
  match reading with
  | .ok (a, rest) => (f a).map (·, rest)
  | .error fault => .error fault

/-- The items of an array from the first one on, with the closing bracket. -/
def readItemsFrom {α : Type} (item : Reader α) : Nat → Reader (List α)
  | 0, _ => .error .truncated
  | fuel + 1, cs =>
    match item cs with
    | .error fault => .error fault
    | .ok (a, rest) =>
      match skipSpace rest with
      | [] => .error .truncated
      | ']' :: rest => .ok ([a], rest)
      | ',' :: rest =>
        match skipSpace rest with
        | [] => .error .truncated
        | ']' :: _ => .error .malformed
        | c :: rest => (readItemsFrom item fuel (c :: rest)).bindValue fun as => .ok (a :: as)
      | _ => .error .malformed

/-- The items of an array, after its opening bracket. -/
def readItems {α : Type} (item : Reader α) : Reader (List α) := fun cs =>
  match skipSpace cs with
  | [] => .error .truncated
  | ']' :: rest => .ok ([], rest)
  | c :: rest => readItemsFrom item (rest.length + 1) (c :: rest)

/-- The members of an object from the first one on, with the closing brace.  What they amount to is
collected in a value; `member` is told each name together with what was collected before it, and
answers the reader of that member's value, or a fault. -/
def readMembersFrom {σ : Type} (name : Reader String)
    (member : String → σ → Except Fault (Reader σ)) : Nat → σ → Reader σ
  | 0, _, _ => .error .truncated
  | fuel + 1, seen, cs =>
    match name cs with
    | .error fault => .error fault
    | .ok (key, rest) =>
      match member key seen with
      | .error fault => .error fault
      | .ok value =>
        match skipSpace rest with
        | [] => .error .truncated
        | ':' :: rest =>
          match value rest with
          | .error fault => .error fault
          | .ok (seen, rest) =>
            match skipSpace rest with
            | [] => .error .truncated
            | '}' :: rest => .ok (seen, rest)
            | ',' :: rest =>
              match skipSpace rest with
              | [] => .error .truncated
              | c :: rest => readMembersFrom name member fuel seen (c :: rest)
            | _ => .error .malformed
        | _ => .error .malformed

/-- The members of an object, after its opening brace. -/
def readMembers {σ : Type} (name : Reader String)
    (member : String → σ → Except Fault (Reader σ)) (start : σ) : Reader σ := fun cs =>
  match skipSpace cs with
  | [] => .error .truncated
  | '}' :: rest => .ok (start, rest)
  | c :: rest => readMembersFrom name member (rest.length + 1) start (c :: rest)

/-- Reads a whole text, after which only blanks may be left. -/
def readWhole {α : Type} (decoder : Decoder α) (text : String) : Except Fault α :=
  match decoder maxLevels text.toList with
  | .error fault => .error fault
  | .ok (a, rest) => if skipSpace rest = [] then .ok a else .error .malformed

end Roster.Json
