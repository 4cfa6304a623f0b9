import ValueStore.Hash.Bytes
import ValueStore.Text.Quoted

/-!
# Handles

A handle stands for something outside the store: a function, a channel or some
other foreign thing. The store knows the name of its type and an identity, and
whether identities may be compared.
-/

namespace ValueStore

structure Handle where
  typeName : String
  identity : UInt64
  comparable : Bool
  deriving DecidableEq

namespace Handle

def ofIdentity (typeName : String) (identity : UInt64) : Handle :=
  { typeName := typeName, identity := identity, comparable := false }

def comparableByIdentity (h : Handle) : Handle :=
  { h with comparable := true }

def bytes (h : Handle) : List UInt8 :=
  Bytes.terminated h.typeName ++ Bytes.ofWord h.identity ++ Bytes.ofBool h.comparable

def display (typeName : String) (h : Handle) : String :=
  "<" ++ typeName ++ " #" ++ toString h.identity ++ ">"

def debug (h : Handle) : String :=
  "Handle \x7b type_name: " ++ Text.quoted h.typeName ++ ", identity: " ++
    toString h.identity ++ ", comparable: " ++ toString h.comparable ++ " \x7d"

end Handle

end ValueStore
