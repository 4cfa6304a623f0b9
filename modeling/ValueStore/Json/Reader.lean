import ValueStore.Source

/-!
# Reading JSON

Readers for scalars, and a source of lists. A reader takes what it needs from the front of a text
and answers the rest, or says in which of three ways the text failed: it ended too
early, it is no JSON, or it is JSON of the wrong type or out of range. The first
failure met from left to right is the one reported. A value of the wrong type is
still read far enough to tell whether it is well formed, except that an array or an
object is refused at its opening bracket.
-/

namespace ValueStore

namespace Json

inductive ReadError where
  /-- Well formed so far, but of the wrong type or out of range. -/
  | mismatched
  | truncated
  | malformed
  deriving DecidableEq

def ReadError.category : ReadError -> String
  | .mismatched => "data"
  | .truncated => "eof"
  | .malformed => "syntax"

abbrev Reader (α : Type) := List Char -> Except ReadError (α × List Char)

def isBlank (c : Char) : Bool :=
  c == ' ' || c == '\n' || c == '\t' || c == '\r'

def skipBlank (text : List Char) : List Char :=
  text.dropWhile isBlank

def digitValue (c : Char) : Nat :=
  c.toNat - '0'.toNat

def startsWithDigit : List Char -> Bool
  | c :: _ => c.isDigit
  | [] => false

/-! ## Numbers -/

def takeDigits : Nat -> List Char -> Nat × List Char
  | n, [] => (n, [])
  | n, c :: rest =>
      if c.isDigit && n * 10 + digitValue c < Nat.pow 2 64 then
        takeDigits (n * 10 + digitValue c) rest
      else
        (n, c :: rest)

def skipDigits (text : List Char) : List Char :=
  text.dropWhile Char.isDigit

def roundSignificand (n : Nat) : Nat :=
  let unit := Nat.pow 2 (n.log2 - 52)
  let below := n / unit
  let excess := 2 * (n % unit)
  if excess < unit ∨ (excess = unit ∧ below % 2 = 0) then
    below * unit
  else
    (below + 1) * unit

/--
Whether `n * 10 ^ exponent` is too large for a floating-point number, when both factors are
rounded before they are multiplied.
-/
def overflows (n : Nat) (exponent : Int) : Bool :=
  if n = 0 ∨ exponent < 0 then
    false
  else if 308 < exponent then
    true
  else
    Nat.pow 2 1024 - Nat.pow 2 970 ≤
      roundSignificand n * roundSignificand (Nat.pow 10 exponent.toNat)

/-- What a numeral stands for. The value of a number that is no integer is not kept. -/
inductive Numeral where
  | integer (n : Int)
  | other

def finish (n : Nat) (exponent : Int) : Reader Numeral := fun text =>
  if overflows n exponent then .error .malformed else .ok (.other, text)

def clampExponent (exponent : Int) : Int :=
  max (-Int.pow 2 31) (min exponent (Int.pow 2 31 - 1))

def exponentDigits (n : Nat) (exponent : Int) (negative : Bool) : Reader Numeral
  | [] => .error .truncated
  | text =>
      if startsWithDigit text then
        let digits := (text.takeWhile Char.isDigit).foldl (fun e c => e * 10 + digitValue c) 0
        if digits < Nat.pow 2 31 then
          finish n (clampExponent (if negative then exponent - digits else exponent + digits))
            (skipDigits text)
        else if n ≠ 0 ∧ !negative then
          .error .malformed
        else
          .ok (.other, skipDigits text)
      else
        .error .malformed

def exponentPart (n : Nat) (exponent : Int) : Reader Numeral
  | '+' :: text => exponentDigits n exponent false text
  | '-' :: text => exponentDigits n exponent true text
  | text => exponentDigits n exponent false text

def exponentOrEnd (n : Nat) (exponent : Int) : Reader Numeral
  | 'e' :: text => exponentPart n exponent text
  | 'E' :: text => exponentPart n exponent text
  | text => finish n exponent text

def fractionPart (n : Nat) (exponent : Int) : Reader Numeral := fun text =>
  match takeDigits n text with
  | (n', rest) =>
      let taken := text.length - rest.length
      if startsWithDigit rest then
        exponentOrEnd n' (exponent - taken) (skipDigits rest)
      else if taken = 0 then
        match rest with
        | [] => .error .truncated
        | _ => .error .malformed
      else
        exponentOrEnd n' (exponent - taken) rest

/-- The value of a numeral of digits only. Minus zero is not an integer. -/
def signedNumeral (negative : Bool) (n : Nat) : Numeral :=
  if negative then
    if n = 0 ∨ Nat.pow 2 63 < n then .other else .integer (-n)
  else
    .integer n

def afterDigits (negative : Bool) (n : Nat) : Reader Numeral := fun text =>
  match text with
  | '.' :: rest => fractionPart n 0 rest
  | 'e' :: rest => exponentPart n 0 rest
  | 'E' :: rest => exponentPart n 0 rest
  | text =>
      if startsWithDigit text then
        let rest := skipDigits text
        let exponent : Int := text.length - rest.length
        match rest with
        | '.' :: rest => fractionPart n exponent rest
        | rest => exponentOrEnd n exponent rest
      else
        .ok (signedNumeral negative n, text)

/-- A number whose sign has been read. A leading zero is followed by no other digit. -/
def numeral (negative : Bool) : Reader Numeral
  | [] => .error .truncated
  | '0' :: rest =>
      if startsWithDigit rest then .error .malformed else afterDigits negative 0 rest
  | text =>
      if startsWithDigit text then
        match takeDigits 0 text with
        | (n, rest) => afterDigits negative n rest
      else
        .error .malformed

/-! ## Strings -/

def hexValue? (c : Char) : Option Nat :=
  if c.isDigit then some (c.toNat - '0'.toNat)
  else if 'a' ≤ c ∧ c ≤ 'f' then some (c.toNat - 'a'.toNat + 10)
  else if 'A' ≤ c ∧ c ≤ 'F' then some (c.toNat - 'A'.toNat + 10)
  else none

/-- Four hexadecimal digits. The text ends too early if fewer than four bytes of it are left. -/
def hexEscape : Reader Nat := fun text =>
  if (text.take 4).foldl (fun size c => size + c.utf8Size) 0 < 4 then
    .error .truncated
  else
    match text with
    | a :: b :: c :: d :: rest =>
        match hexValue? a, hexValue? b, hexValue? c, hexValue? d with
        | some a, some b, some c, some d =>
            .ok (a * 4096 + b * 256 + c * 16 + d, rest)
        | _, _, _, _ => .error .malformed
    | _ => .error .malformed

def trailingSurrogate (leading : Nat) : Reader Char
  | [] => .error .truncated
  | ['\\'] => .error .truncated
  | '\\' :: 'u' :: rest => do
      let (trailing, rest) ← hexEscape rest
      if 0xdc00 ≤ trailing ∧ trailing ≤ 0xdfff then
        return (Char.ofNat ((leading - 0xd800) * 1024 + (trailing - 0xdc00) + 0x10000), rest)
      else
        throw .malformed
  | _ => .error .malformed

/-- A character by its code; one beyond the first 65536 is written as two surrogates. -/
def unicodeEscape : Reader Char := fun text => do
  let (code, rest) ← hexEscape text
  if 0xdc00 ≤ code ∧ code ≤ 0xdfff then
    throw .malformed
  else if 0xd800 ≤ code ∧ code ≤ 0xdbff then
    trailingSurrogate code rest
  else
    return (Char.ofNat code, rest)

def escape : Reader Char
  | [] => .error .truncated
  | '"' :: rest => .ok ('"', rest)
  | '\\' :: rest => .ok ('\\', rest)
  | '/' :: rest => .ok ('/', rest)
  | 'b' :: rest => .ok ('\x08', rest)
  | 'f' :: rest => .ok ('\x0c', rest)
  | 'n' :: rest => .ok ('\n', rest)
  | 'r' :: rest => .ok ('\r', rest)
  | 't' :: rest => .ok ('\t', rest)
  | 'u' :: rest => unicodeEscape rest
  | _ => .error .malformed

/-- The rest of a string behind its opening quote, at most `bound` characters of it. -/
def stringBody : Nat -> List Char -> Reader String
  | 0, _, _ => .error .truncated
  | _ + 1, _, [] => .error .truncated
  | _ + 1, written, '"' :: rest => .ok (String.ofList written.reverse, rest)
  | bound + 1, written, '\\' :: rest => do
      let (c, rest) ← escape rest
      stringBody bound (c :: written) rest
  | bound + 1, written, c :: rest =>
      if c.toNat < 0x20 then .error .malformed else stringBody bound (c :: written) rest

def stringRest : Reader String := fun text =>
  stringBody (text.length + 1) [] text

/-! ## Values -/

def word : List Char -> Reader Unit
  | [], text => .ok ((), text)
  | _ :: _, [] => .error .truncated
  | expected :: letters, c :: rest =>
      if c = expected then word letters rest else .error .malformed

def wrongType (text : List Char) : ReadError :=
  let after {α : Type} (reading : Except ReadError (α × List Char)) : ReadError :=
    match reading with
    | .ok _ => .mismatched
    | .error e => e
  match text with
  | 'n' :: rest => after (word ['u', 'l', 'l'] rest)
  | 't' :: rest => after (word ['r', 'u', 'e'] rest)
  | 'f' :: rest => after (word ['a', 'l', 's', 'e'] rest)
  | '-' :: rest => after (numeral true rest)
  | '"' :: rest => after (stringRest rest)
  | '[' :: _ => .mismatched
  | '\x7b' :: _ => .mismatched
  | text => if startsWithDigit text then after (numeral false text) else .malformed

namespace Reader

def integer (lower upper : Int) : Reader Int := fun text =>
  let checked (reading : Except ReadError (Numeral × List Char)) :
      Except ReadError (Int × List Char) :=
    match reading with
    | .ok (.integer n, rest) =>
        if lower ≤ n ∧ n ≤ upper then .ok (n, rest) else .error .mismatched
    | .ok (.other, _) => .error .mismatched
    | .error e => .error e
  match skipBlank text with
  | [] => .error .truncated
  | '-' :: rest => checked (numeral true rest)
  | text =>
      if startsWithDigit text then checked (numeral false text) else .error (wrongType text)

def int64 : Reader Int64 := fun text => do
  let (n, rest) ← integer (-Int.pow 2 63) (Int.pow 2 63 - 1) text
  return (Int64.ofInt n, rest)

def string : Reader String := fun text =>
  match skipBlank text with
  | [] => .error .truncated
  | '"' :: rest => stringRest rest
  | text => .error (wrongType text)

def boolean : Reader Bool := fun text =>
  match skipBlank text with
  | [] => .error .truncated
  | 't' :: rest => (word ['r', 'u', 'e'] rest).map fun (_, rest) => (true, rest)
  | 'f' :: rest => (word ['a', 'l', 's', 'e'] rest).map fun (_, rest) => (false, rest)
  | text => .error (wrongType text)

end Reader

/-! ## The source -/

/-- Text still to be read, and how many levels of nesting are still accepted. -/
structure Input where
  text : List Char
  room : Nat

def nestingLimit : Nat := 127

def ReadError.refusal (e : ReadError) : Error :=
  .format e.category

def Reader.on {α : Type} (reader : Reader α) (input : Input) : Except Error (α × Input) :=
  match reader input.text with
  | .ok (x, rest) => .ok (x, { input with text := rest })
  | .error e => .error e.refusal

/-- The items behind the first of an array inside which there is `room`, at most `bound` of them. -/
def arrayRest (room : Nat) : Nat -> Input -> Supply Input
  | 0, _ => .failed ReadError.truncated.refusal
  | bound + 1, input =>
      match skipBlank input.text with
      | [] => .failed ReadError.truncated.refusal
      | ']' :: rest => .finished { text := rest, room := room + 1 }
      | ',' :: rest =>
          match skipBlank rest with
          | [] => .failed ReadError.truncated.refusal
          | ']' :: _ => .failed ReadError.malformed.refusal
          | rest => .item { text := rest, room := room } (arrayRest room bound)
      | _ => .failed ReadError.malformed.refusal

def arrayItems (input : Input) : Supply Input :=
  match skipBlank input.text with
  | [] => .failed ReadError.truncated.refusal
  | '[' :: rest =>
      match input.room with
      | 0 => .failed ReadError.malformed.refusal
      | room + 1 =>
          match skipBlank rest with
          | [] => .failed ReadError.truncated.refusal
          | ']' :: rest => .finished { text := rest, room := room + 1 }
          | rest =>
              .item { text := rest, room := room } fun after =>
                arrayRest room (after.text.length + 1) after
  | text => .failed (wrongType text).refusal

def source : Source String Input where
  opened text := { text := text.toList, room := nestingLimit }
  integer := Reader.on Reader.int64
  string := Reader.on Reader.string
  list := arrayItems
  closed input :=
    match skipBlank input.text with
    | [] => .ok ()
    | _ => .error ReadError.malformed.refusal

end Json

end ValueStore
