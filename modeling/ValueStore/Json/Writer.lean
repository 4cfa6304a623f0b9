import ValueStore.Format
import ValueStore.Number.Style
import ValueStore.Text.Quoted

/-!
# Writing JSON

Compact JSON: no spaces, and every character that need not be escaped stands for
itself. The keys of objects are strings, or scalars written as such; lists and numbers
that are not finite are refused there.
-/

namespace ValueStore

namespace Json

def controlEscape (c : Char) : List Char :=
  let digits := Text.hexDigits c.toNat
  ['\\', 'u'] ++ List.replicate (4 - digits.length) '0' ++ digits

def stringChar (c : Char) : List Char :=
  match c with
  | '"' => ['\\', '"']
  | '\\' => ['\\', '\\']
  | '\x08' => ['\\', 'b']
  | '\x0c' => ['\\', 'f']
  | '\n' => ['\\', 'n']
  | '\r' => ['\\', 'r']
  | '\t' => ['\\', 't']
  | c => if c.toNat < 0x20 then controlEscape c else [c]

def string (s : String) : String :=
  String.ofList ('"' :: (s.toList.flatMap stringChar ++ ['"']))

def integer (n : Int64) : String :=
  toString n.toInt

def boolean (b : Bool) : String :=
  if b then "true" else "false"

/--
Numbers from a hundred-thousandth to below ten to the sixteenth are written without an exponent,
and an exponent always has a sign. JSON has no word for what is not finite.
-/
def floatStyle : Number.Style where
  plainFrom := -5
  plainBelow := 16
  plusSign := "+"
  tie := .toEven
  nan := "null"
  infinity := "null"
  negativeInfinity := "null"

def float (x : Binary64) : String :=
  floatStyle.render x

def array (items : List String) : String :=
  "[" ++ ",".intercalate items ++ "]"

def object (entries : List (String × String)) : String :=
  "\x7b" ++ ",".intercalate (entries.map fun entry => entry.1 ++ ":" ++ entry.2) ++ "\x7d"

/-! ## The format -/

inductive Role where
  | value
  | key

def listAsKey : Error :=
  .format "key must be a string"

def floatAsKey : Error :=
  .format "float key must be finite (got NaN or +/-inf)"

def Role.scalar (role : Role) (written : String) : String :=
  match role with
  | .value => written
  | .key => "\"" ++ written ++ "\""

/-- Items and entries are kept with the last one first. The number declared makes no difference. -/
def format {α : Type} : Format α Role String (List String) (List (String × String)) where
  integer role n := return role.scalar (integer n)
  float role x :=
    match role with
    | .value => return float x
    | .key =>
        if x.isFinite then
          return Role.key.scalar (float x)
        else
          Action.fail floatAsKey
  string _ s := return string s
  boolean role b := return role.scalar (boolean b)
  startList role _ :=
    match role with
    | .value => return []
    | .key => Action.fail listAsKey
  element written write := do
    let item ← write .value
    return item :: written
  finishList written := return array written.reverse
  startMap role _ :=
    match role with
    | .value => return []
    | .key => Action.fail listAsKey
  entry written writeKey writeValue := do
    let key ← writeKey .key
    let value ← writeValue .value
    return (key, value) :: written
  finishMap written := return object written.reverse
  custom := .format

end Json

end ValueStore
