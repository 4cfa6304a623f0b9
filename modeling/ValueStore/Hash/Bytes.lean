/-!
# Bytes of words and text

The byte strings from which hashes are taken. Words are written with their least
significant byte first.
-/

namespace ValueStore

namespace Bytes

/-- The low bytes of a number, `width` of them, the least significant first. -/
def littleEndian : Nat -> Nat -> List UInt8
  | 0, _ => []
  | width + 1, n => UInt8.ofNat (n % 256) :: littleEndian width (n / 256)

def ofWord (w : UInt64) : List UInt8 :=
  littleEndian 8 w.toNat

def ofInt64 (n : Int64) : List UInt8 :=
  ofWord n.toUInt64

def ofLength (n : Nat) : List UInt8 :=
  littleEndian 8 n

def ofBool (b : Bool) : List UInt8 :=
  [if b then 1 else 0]

def utf8 (s : String) : List UInt8 :=
  s.toUTF8.data.toList

/-- The UTF-8 bytes of a string and a byte that occurs in none, so that the end can be told. -/
def terminated (s : String) : List UInt8 :=
  utf8 s ++ [0xff]

def counted {α : Type} (item : α -> List UInt8) (items : List α) : List UInt8 :=
  ofLength items.length ++ items.flatMap item

end Bytes

end ValueStore
