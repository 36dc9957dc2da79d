/-
JSON values.

Numbers are integers or doubles, and the two are never equal.  The fields of an object stand in a
list; readers keep it sorted by name (`Json.ofFields`), and writers write it in the order given.
-/
import Roster.Fields
import Roster.Number.Binary64

namespace Roster

/-- A JSON number: an integer, or a double. -/
inductive Number where
  | int (value : Int)
  | float (value : Binary64)
  deriving DecidableEq

namespace Number

def IsInt64 (n : Int) : Prop := -0x8000000000000000 ≤ n ∧ n < 0x8000000000000000

instance (n : Int) : Decidable (IsInt64 n) := by unfold IsInt64; infer_instance

/-- The number as a 64-bit integer; doubles and larger integers have none. -/
def int64? : Number → Option Int
  | .int n => if IsInt64 n then some n else none
  | .float _ => none

/-- The number as a double, rounded if need be. -/
def binary64? : Number → Option Binary64
  | .int n => Binary64.ofNat? (n < 0) n.natAbs
  | .float x => some x

def same : Number → Number → Bool
  | .int a, .int b => a == b
  | .float x, .float y => x.same y
  | _, _ => false

end Number

/-- A JSON value. -/
inductive Json where
  | null
  | bool (value : Bool)
  | number (value : Number)
  | string (value : String)
  | array (items : List Json)
  | object (fields : List (String × Json))

namespace Json

def ofInt (n : Int) : Json := .number (.int n)

/-- The object with the given fields, in which the last of several values of a name counts. -/
def ofFields (entries : List (String × Json)) : Json := .object (Fields.ofList entries)

def isNull : Json → Bool
  | .null => true
  | _ => false

/-- The Boolean that the value is. -/
def bool? : Json → Option Bool
  | .bool b => some b
  | _ => none

/-- The 64-bit integer that the value is. -/
def int64? : Json → Option Int
  | .number n => n.int64?
  | _ => none

/-- The double that the value is, or rounds to. -/
def binary64? : Json → Option Binary64
  | .number n => n.binary64?
  | _ => none

/-- The string that the value is. -/
def string? : Json → Option String
  | .string s => some s
  | _ => none

def items? : Json → Option (List Json)
  | .array items => some items
  | _ => none

def fields? : Json → Option (List (String × Json))
  | .object fields => some fields
  | _ => none

/-- The field of an object, or null. -/
def field (name : String) (j : Json) : Json :=
  ((j.fields?.getD []).find? (·.1 == name)).elim .null (·.2)

mutual

/-- Equality of values, numbers being compared numerically. -/
def same : Json → Json → Bool
  | .null, .null => true
  | .bool a, .bool b => a == b
  | .number a, .number b => a.same b
  | .string a, .string b => a == b
  | .array as, .array bs => sameItems as bs
  | .object as, .object bs => sameFields as bs
  | _, _ => false

def sameItems : List Json → List Json → Bool
  | [], [] => true
  | a :: as, b :: bs => same a b && sameItems as bs
  | _, _ => false

def sameFields : List (String × Json) → List (String × Json) → Bool
  | [], [] => true
  | (k, a) :: as, (l, b) :: bs => k == l && same a b && sameFields as bs
  | _, _ => false

end

end Json

end Roster
