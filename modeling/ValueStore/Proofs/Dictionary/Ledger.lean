import ValueStore.Dictionary.Basic

/-!
# Requests, dictionaries and ledgers

A ledger is a list of entries and nothing else: it is searched from its start, an
entry is put in front, and the one entry of a key is crossed out. Dictionaries and
ledgers are asked the same requests, one after the other.
-/

namespace ValueStore

inductive Request (κ ν : Type) where
  | put (key : κ) (value : ν)
  | delete (key : κ)
  | erase (key : κ)
  | compact
  | clone
  | get (key : κ)
  | getD (key : κ) (fallback : ν)
  | getWithFlag (key : κ)
  | contains (key : κ)
  | size
  | isEmpty

namespace Request

variable {κ ν : Type}

def key? : Request κ ν -> Option κ
  | put key _ => some key
  | delete key => some key
  | erase key => some key
  | compact => none
  | clone => none
  | get key => some key
  | getD key _ => some key
  | getWithFlag key => some key
  | contains key => some key
  | size => none
  | isEmpty => none

end Request

inductive Reply (ν : Type) where
  /-- A new version was made. -/
  | done
  | flag (b : Bool)
  | value (v : ν)
  | flagged (b : Bool) (v : Option ν)
  | count (n : Nat)
  | refused (error : Error)
  deriving DecidableEq

namespace Dictionary

variable {α κ ν : Type}

def answer (keying : Keying α κ) (m : Dictionary κ ν) :
    Request κ ν -> Action α (Reply ν × Dictionary κ ν)
  | .put key value => do return (.done, ← m.put keying key value)
  | .delete key => do return (.done, ← m.delete keying key)
  | .erase key => do
      let (found, smaller) ← m.erase keying key
      return (.flag found, smaller)
  | .compact => return (.done, m.compact)
  | .clone => return (.done, m)
  | .get key => do return (.value (← m.get keying key), m)
  | .getD key fallback => do return (.value (← m.getD keying key fallback), m)
  | .getWithFlag key => do
      let value ← m.lookup? keying key
      return (.flagged value.isSome value, m)
  | .contains key => do return (.flag (← m.contains keying key), m)
  | .size => return (.count m.size, m)
  | .isEmpty => return (.flag m.isEmpty, m)

def serve (keying : Keying α κ) (m : Dictionary κ ν) (request : Request κ ν) :
    Action α (Reply ν × Dictionary κ ν) :=
  (m.answer keying request).recover fun error => return (.refused error, m)

def serveAll (keying : Keying α κ) (m : Dictionary κ ν) :
    List (Request κ ν) -> Action α (List (Reply ν) × Dictionary κ ν)
  | [] => return ([], m)
  | request :: rest => do
      let (reply, m) ← m.serve keying request
      let (replies, m) ← m.serveAll keying rest
      return (reply :: replies, m)

end Dictionary

/-- A plain collection of entries. -/
abbrev Ledger (κ ν : Type) := List (κ × ν)

namespace Ledger

variable {α κ ν : Type}

/-- Whether an entry has the key sought; a comparison that fails does not say so. -/
def isFor (keying : Keying α κ) (key : κ) (entry : κ × ν) : Bool :=
  match (keying.same entry.1 key).eval with
  | .ok answer => answer
  | .error _ => false

def entry? (keying : Keying α κ) (ledger : Ledger κ ν) (key : κ) : Option (κ × ν) :=
  ledger.find? (isFor keying key)

def without (keying : Keying α κ) (ledger : Ledger κ ν) (key : κ) : Ledger κ ν :=
  ledger.eraseP (isFor keying key)

def put (keying : Keying α κ) (ledger : Ledger κ ν) (key : κ) (value : ν) :
    Except Error (Ledger κ ν) := do
  let _ ← (keying.hash key).eval
  match ledger.entry? keying key with
  | some _ => .error .duplicateKey
  | none => return (key, value) :: ledger

def putAll (keying : Keying α κ) (ledger : Ledger κ ν) :
    List (κ × ν) -> Except Error (Ledger κ ν)
  | [] => return ledger
  | (key, value) :: rest => do
      let larger ← ledger.put keying key value
      putAll keying larger rest

def erase (keying : Keying α κ) (ledger : Ledger κ ν) (key : κ) :
    Except Error (Bool × Ledger κ ν) := do
  let _ ← (keying.hash key).eval
  return ((ledger.entry? keying key).isSome, ledger.without keying key)

def lookup? (keying : Keying α κ) (ledger : Ledger κ ν) (key : κ) :
    Except Error (Option ν) := do
  let _ ← (keying.hash key).eval
  return (ledger.entry? keying key).map Prod.snd

def answer (keying : Keying α κ) (ledger : Ledger κ ν) :
    Request κ ν -> Except Error (Reply ν × Ledger κ ν)
  | .put key value => do return (.done, ← ledger.put keying key value)
  | .delete key => do
      match ← ledger.erase keying key with
      | (true, smaller) => return (.done, smaller)
      | (false, _) => .error .keyNotFound
  | .erase key => do
      let (found, smaller) ← ledger.erase keying key
      return (.flag found, smaller)
  | .compact => return (.done, ledger)
  | .clone => return (.done, ledger)
  | .get key => do
      match ← ledger.lookup? keying key with
      | some value => return (.value value, ledger)
      | none => .error .keyNotFound
  | .getD key fallback => do
      return (.value ((← ledger.lookup? keying key).getD fallback), ledger)
  | .getWithFlag key => do
      let value ← ledger.lookup? keying key
      return (.flagged value.isSome value, ledger)
  | .contains key => do return (.flag (← ledger.lookup? keying key).isSome, ledger)
  | .size => return (.count ledger.length, ledger)
  | .isEmpty => return (.flag ledger.isEmpty, ledger)

def serve (keying : Keying α κ) (ledger : Ledger κ ν) (request : Request κ ν) :
    Reply ν × Ledger κ ν :=
  match ledger.answer keying request with
  | .ok answered => answered
  | .error error => (.refused error, ledger)

def serveAll (keying : Keying α κ) (ledger : Ledger κ ν) :
    List (Request κ ν) -> List (Reply ν) × Ledger κ ν
  | [] => ([], ledger)
  | request :: rest =>
      let (reply, ledger) := ledger.serve keying request
      let (replies, ledger) := serveAll keying ledger rest
      (reply :: replies, ledger)

end Ledger

inductive Origin (κ ν : Type) where
  | withPolicy (policy : Policy)
  | ofList (entries : List (κ × ν))

namespace Origin

variable {α κ ν : Type}

def dictionary (keying : Keying α κ) : Origin κ ν -> Action α (Dictionary κ ν)
  | withPolicy policy => return .withPolicy policy
  | ofList entries => Dictionary.ofList keying entries

def ledger (keying : Keying α κ) : Origin κ ν -> Except Error (Ledger κ ν)
  | withPolicy _ => return []
  | ofList entries => Ledger.putAll keying [] entries

def keys : Origin κ ν -> List κ
  | withPolicy _ => []
  | ofList entries => entries.map Prod.fst

def serveAll (keying : Keying α κ) (origin : Origin κ ν) (requests : List (Request κ ν)) :
    Action α (List (Reply ν) × Dictionary κ ν) := do
  (← origin.dictionary keying).serveAll keying requests

def expected (keying : Keying α κ) (origin : Origin κ ν) (requests : List (Request κ ν)) :
    Except Error (List (Reply ν) × Ledger κ ν) := do
  return (← origin.ledger keying).serveAll keying requests

end Origin

end ValueStore
