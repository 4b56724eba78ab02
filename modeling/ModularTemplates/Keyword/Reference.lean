import ModularTemplates.Keyword.Definition

/-!
# References

A reference is an object whose reference keyword holds the address of a resource. It becomes a
reference to the name that the root of the resource's family has in compiled documents. A plain
string is left as it is.
-/

namespace ModularTemplates

variable {m : Type → Type}

/-- The compiled name of the resource that an address means. -/
def KeywordContext.resolve (context : KeywordContext m) (v : Json) : Except String String := do
  let id := (← Address.ofJson v).id context.module
  match context.services.family id with
  | some family => return context.services.logicalId family.root
  | none => throw ("referenced resource " ++ id.display ++ " does not exist")

/-- A reference must be a string or lead to a resource. -/
def referenceValidator (context : KeywordContext m) : Validator := fun _ _ v =>
  match v with
  | .string _ => []
  | v =>
    match context.resolve v with
    | .ok _ => []
    | .error e => [e]

/-- A reference by address becomes a reference by name. -/
def referenceProcessor [Monad m] (context : KeywordContext m) : Processor KeywordFailure m :=
  fun keyword _ v =>
    match v with
    | .string _ => return .unchanged
    | v =>
      match context.resolve v with
      | .ok name => return .object (.single keyword (.string name)) 0
      | .error e => throw (.message e)

/-- The keyword of references. -/
def referenceKeyword [Monad m] (keyword : String) : KeywordDefinition m where
  keyword
  validator context := .ok (referenceValidator context)
  processor context := .ok (referenceProcessor context)

end ModularTemplates
