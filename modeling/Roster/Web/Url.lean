/-
Absolute web addresses.

An address has a scheme, a host with a port, a path and a query.  Reading one takes it into the form
in which it is sent: the port is the one of the scheme if none is given, the segments `.` and `..`
are resolved, what may not stand in a path or a query is percent-encoded, and a fragment is dropped.
The schemes `http` and `https` are read, and no other ones.

* `resolveFrom_of_plain`: segments without dots stay as they are.
-/
import Roster.Text.Percent
import Roster.Text.Split

namespace Roster

/-- The schemes of the addresses that can be asked. -/
inductive Scheme where
  | http
  | https
  deriving DecidableEq, Repr

namespace Scheme

/-- The scheme that a name in lower case stands for. -/
def ofName? (name : List Char) : Option Scheme :=
  if name = "http".toList then some .http
  else if name = "https".toList then some .https
  else none

/-- The port of the addresses that give none. -/
def defaultPort : Scheme → Nat
  | http => 80
  | https => 443

end Scheme

/-- An absolute address. -/
structure Url where
  scheme : Scheme
  host : List Char
  port : Nat
  /-- The segments of the path. -/
  path : List (List Char)
  query : List Char
  deriving DecidableEq, Repr

namespace Url

open Text.Decimal (isDigit ofDigits)

/-- The bytes that stand for themselves in a query. -/
def isQueryByte (b : UInt8) : Bool :=
  0x21 ≤ b && b ≤ 0x7E && !(b == 0x22 || b == 0x23 || b == 0x3C || b == 0x3E || b == 0x27)

/-- The bytes that stand for themselves in a path. -/
def isPathByte (b : UInt8) : Bool :=
  0x21 ≤ b && b ≤ 0x7E && !(b == 0x22 || b == 0x23 || b == 0x3C || b == 0x3E || b == 0x3F ||
    b == 0x60 || b == 0x7B || b == 0x7D)

def encode (keep : UInt8 → Bool) (cs : List Char) : List Char :=
  Text.Percent.encodeBytes keep (cs.flatMap String.utf8EncodeChar)

/-- The characters that an address has only by accident: line breaks and tabs anywhere, and blanks
and control characters at the ends. -/
def clean (cs : List Char) : List Char :=
  let isLoose (c : Char) : Bool := c.toNat ≤ 0x20
  let inner := ((cs.dropWhile isLoose).reverse.dropWhile isLoose).reverse
  inner.filter fun c => !(c == '\t' || c == '\n' || c == '\r')

/-- The characters that separate segments. -/
def isSlash (c : Char) : Bool := c == '/' || c == '\\'

/-- The characters that end the host. -/
def endsAuthority (c : Char) : Bool := isSlash c || c == '?' || c == '#'

/-- A segment in lower case in which percent-encoded dots are dots. -/
def dots : List Char → List Char
  | '%' :: '2' :: e :: cs =>
    if e = 'e' ∨ e = 'E' then '.' :: dots cs else '%' :: '2' :: e :: dots cs
  | c :: cs => c :: dots cs
  | [] => []

def isSingleDot (s : List Char) : Bool := dots s == ['.']

def isDoubleDot (s : List Char) : Bool := dots s == ['.', '.']

/-- Follows segments from a path, which is given with its last segment first.  Staying and going up
at the end leave an empty segment. -/
def resolveFrom (above : List (List Char)) : List (List Char) → List (List Char)
  | [] => above.reverse
  | [s] =>
    if isDoubleDot s then ([] :: above.tail).reverse
    else if isSingleDot s then ([] :: above).reverse
    else (encode isPathByte s :: above).reverse
  | s :: rest =>
    if isDoubleDot s then resolveFrom above.tail rest
    else if isSingleDot s then resolveFrom above rest
    else resolveFrom (encode isPathByte s :: above) rest

/-- The path that some segments lead to. -/
def resolve (ss : List (List Char)) : List (List Char) := resolveFrom [] ss

/-- The port of an address, after the colon: a number below 65536, or nothing. -/
def port? (default : Nat) (cs : List Char) : Option Nat :=
  if cs.isEmpty then some default
  else if cs.all isDigit && ofDigits cs < 65536 then some (ofDigits cs)
  else none

def isHostChar (c : Char) : Bool :=
  0x20 < c.toNat && c.toNat ≠ 0x7F && !"%/:<>?@[\\]^|#".toList.contains c

/-- A host and its port. -/
def hostPort? (default : Nat) (cs : List Char) : Option (List Char × Nat) :=
  match cs with
  | '[' :: rest =>
    let inside := rest.takeWhile (· != ']')
    match rest.dropWhile (· != ']') with
    | [']'] => some ('[' :: (inside ++ [']']), default)
    | ']' :: ':' :: port => (port? default port).map fun p => ('[' :: (inside ++ [']']), p)
    | _ => none
  | _ =>
    let host := cs.takeWhile (· != ':')
    if host.isEmpty || !host.all isHostChar then none
    else
      (port? default ((cs.dropWhile (· != ':')).drop 1)).map fun p => (host.map Char.toLower, p)

/-- What stands behind the last at sign, or everything if there is none. -/
def withoutUser (cs : List Char) : List Char := (cs.reverse.takeWhile (· != '@')).reverse

/-- The scheme of an address in lower case, and what follows its colon. -/
def scheme? (cs : List Char) : Option (List Char × List Char) :=
  let isSchemeChar (c : Char) : Bool := c.isAlphanum || c == '+' || c == '-' || c == '.'
  match cs.takeWhile isSchemeChar, cs.dropWhile isSchemeChar with
  | c :: name, ':' :: rest => if c.isAlpha then some ((c :: name).map Char.toLower, rest) else none
  | _, _ => none

/-- The address in a text. -/
def parse? (s : String) : Option Url := do
  let (name, rest) ← scheme? (clean s.toList)
  let scheme ← Scheme.ofName? name
  let rest := rest.dropWhile isSlash
  let authority := withoutUser (rest.takeWhile (!endsAuthority ·))
  let (host, port) ← hostPort? scheme.defaultPort authority
  let rest := (rest.dropWhile (!endsAuthority ·)).takeWhile (· != '#')
  let path := rest.takeWhile (· != '?')
  let query := (rest.dropWhile (· != '?')).drop 1
  let path := match path with
    | c :: cs => if isSlash c then cs else c :: cs
    | [] => []
  pure ⟨scheme, host, port, resolve (Text.split isSlash path), encode isQueryByte query⟩

def pathText (u : Url) : List Char := u.path.flatMap fun s => '/' :: s

/-- What is asked of the host: the path, and the query if there is one. -/
def target (u : Url) : String :=
  String.ofList (u.pathText ++ if u.query.isEmpty then [] else '?' :: u.query)

theorem resolveFrom_of_plain {ss : List (List Char)}
    (h : ∀ s ∈ ss, isSingleDot s = false ∧ isDoubleDot s = false) (above : List (List Char)) :
    resolveFrom above ss = above.reverse ++ ss.map (encode isPathByte) := by
  induction ss generalizing above with
  | nil => simp [resolveFrom]
  | cons s rest ih =>
    obtain ⟨h1, h2⟩ := h s List.mem_cons_self
    cases rest with
    | nil => simp [resolveFrom, h1, h2]
    | cons t rest =>
      rw [resolveFrom, if_neg (by simp [h2]), if_neg (by simp [h1]),
        ih (fun s hs => h s (List.mem_cons_of_mem _ hs))]
      · simp
      · simp

end Url

end Roster
