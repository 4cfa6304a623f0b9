import ValueStore.Text.Combining
import ValueStore.Text.Unprintable

/-!
# Quoted text

A string in double quotes, for people to read. The quote itself, the backslash
and four control characters have short escapes. A character that would not show,
or that would merge with its neighbour, is written by its code point; every other
character stands for itself.
-/

namespace ValueStore

namespace Text

def hexDigits (n : Nat) : List Char :=
  Nat.toDigits 16 n

/-- A printable ASCII character needs no table: none of them is unprintable or combining. -/
def isPlain (c : Char) : Bool :=
  if c.toNat < 0x7f then
    0x20 ≤ c.toNat
  else
    !isCombining c && !isUnprintable c

def quotedChar (c : Char) : List Char :=
  match c with
  | '"' => ['\\', '"']
  | '\\' => ['\\', '\\']
  | '\x00' => ['\\', '0']
  | '\t' => ['\\', 't']
  | '\r' => ['\\', 'r']
  | '\n' => ['\\', 'n']
  | c => if isPlain c then [c] else ['\\', 'u', '\x7b'] ++ hexDigits c.toNat ++ ['\x7d']

def quoted (s : String) : String :=
  String.ofList ('"' :: (s.toList.flatMap quotedChar ++ ['"']))

def enclosed (opening closing : String) (items : List String) : String :=
  opening ++ ", ".intercalate items ++ closing

end Text

end ValueStore
