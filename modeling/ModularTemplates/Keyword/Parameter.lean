import ModularTemplates.Keyword.Definition

/-!
# Parameters

A parameter is an object whose `Parameter` property names a declared parameter. It becomes the
template's own reference to the parameter.
-/

namespace ModularTemplates

variable {m : Type → Type}

/-- The complaint about a value that is no parameter name. -/
def notAParameterName (v : Json) : String :=
  "parameter name must be a string, found " ++ v.text

/-- A parameter must be declared. -/
def parameterValidator (context : KeywordContext m) : Validator := fun _ _ v =>
  match v with
  | .string name =>
    if context.services.parameterNames.contains name then []
    else ["parameter " ++ name ++ " is not declared"]
  | v => [notAParameterName v]

/-- A parameter becomes a reference to its name. -/
def parameterProcessor [Monad m] : Processor KeywordFailure m := fun _ _ v =>
  match v with
  | .string name => return .object (.single "Ref" (.string name)) 0
  | v => throw (.message (notAParameterName v))

/-- The keyword of parameters. -/
def parameterKeyword [Monad m] : KeywordDefinition m where
  keyword := "Parameter"
  validator context := .ok (parameterValidator context)
  processor _ := .ok parameterProcessor

end ModularTemplates
