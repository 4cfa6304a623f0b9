/-!
# The FNV-1a hash

A 64-bit state takes in one byte at a time: the byte is added without carry, then
the state is multiplied by a fixed prime, modulo `2 ^ 64`.
-/

namespace ValueStore

structure Fnv where
  state : UInt64
  deriving DecidableEq

namespace Fnv

def prime : UInt64 := 0x100000001b3

def start : Fnv := ⟨0xcbf29ce484222325⟩

def absorbByte (h : Fnv) (byte : UInt8) : Fnv :=
  ⟨(h.state ^^^ byte.toUInt64) * prime⟩

def absorb (h : Fnv) (bytes : List UInt8) : Fnv :=
  bytes.foldl absorbByte h

def hash (bytes : List UInt8) : UInt64 :=
  (start.absorb bytes).state

def debug (h : Fnv) : String :=
  "Fnv1aHasher \x7b state: " ++ toString h.state ++ " \x7d"

theorem absorb_append (h : Fnv) (first second : List UInt8) :
    h.absorb (first ++ second) = (h.absorb first).absorb second := by
  simp [absorb]

end Fnv

end ValueStore
