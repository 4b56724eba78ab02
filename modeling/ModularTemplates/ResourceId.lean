/-!
# Resource addresses

A resource is addressed by its module and its name in that module.
-/

namespace ModularTemplates

/-- The address of a resource. -/
structure ResourceId where
  module : String
  resource : String
deriving DecidableEq, Repr

/-- The text of an address. -/
def ResourceId.display (id : ResourceId) : String :=
  id.module ++ "." ++ id.resource

end ModularTemplates
