/-!
# Errors

Every reason for which the store refuses an operation, and the wording of each.
A refusal carries the facts its wording needs and nothing else.
-/

namespace ValueStore

inductive Access where
  | head
  | last
  | rest
  deriving DecidableEq

def Access.name : Access -> String
  | .head => "head"
  | .last => "last"
  | .rest => "rest"

/-- Why an operation was refused. The last reason is that of a format, which words it itself. -/
inductive Error where
  | duplicateKey
  | keyNotFound
  | emptyCollection (access : Access)
  | unhashableKey (typeName : String)
  | incomparable (left right : String)
  | format (message : String)
  deriving DecidableEq

namespace Error

def message : Error -> String
  | duplicateKey => "duplicate key: an equal key is already present in the map"
  | keyNotFound => "key not found"
  | emptyCollection access => access.name ++ ": collection is empty"
  | unhashableKey typeName => "unhashable key type: " ++ typeName
  | incomparable left right => "cannot compare " ++ left ++ " with " ++ right
  | format message => message

end Error

end ValueStore
