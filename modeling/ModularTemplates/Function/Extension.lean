/-!
# Extensions

An extension is a module's contribution of middlewares and layers to the functions of all modules.
-/

namespace ModularTemplates

/-- A middleware or layer that an extension contributes. -/
structure Contribution where
  resource : String
  /-- the function types it is meant for; all of them if nothing is said -/
  types : Option (List String)
deriving DecidableEq, Repr

/-- The middlewares and layers that a module contributes to functions. -/
structure Extension where
  module : String
  middlewares : List Contribution
  layers : List Contribution
deriving DecidableEq, Repr

/-- Whether a contribution is meant for functions of a type. -/
def Contribution.appliesTo (c : Contribution) (type : String) : Bool :=
  match c.types with
  | some types => types.contains type
  | none => true

end ModularTemplates
