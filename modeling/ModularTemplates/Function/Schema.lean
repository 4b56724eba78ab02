import ModularTemplates.Path.Basic

/-!
# Function schema

The names by which functions, middlewares and their parts are found in resources.
-/

namespace ModularTemplates

/-- Types, properties and keywords that the composition of functions depends on. -/
structure Schema where
  /-- resource types that are functions -/
  functionTypes : List String
  middlewareType : String
  /-- the property that holds the code keyword -/
  codeProperty : String
  functionKeyword : String
  middlewareKeyword : String
  /-- the list of middlewares inside the function keyword -/
  middlewaresField : String
  layersProperty : String
  referenceKeyword : String
deriving DecidableEq, Repr

namespace Schema

/-- The names used when nothing else is said. -/
def standard : Schema where
  functionTypes := ["AWS::Serverless::Function"]
  middlewareType := "Middleware"
  codeProperty := "CodeUri"
  functionKeyword := "Function"
  middlewareKeyword := "Middleware"
  middlewaresField := "middlewares"
  layersProperty := "Layers"
  referenceKeyword := "Ref"

/-- Where the code of a function is described, below its properties. -/
def functionCodePath (s : Schema) : Path :=
  [.key s.codeProperty, .key s.functionKeyword]

/-- Where the code of a middleware is described, below its properties. -/
def middlewareCodePath (s : Schema) : Path :=
  [.key s.codeProperty, .key s.middlewareKeyword]

/-- Where a function lists its middlewares, below its properties. -/
def middlewaresPath (s : Schema) : Path :=
  s.functionCodePath ++ [.key s.middlewaresField]

/-- Where a resource lists its layers, below its properties. -/
def layersPath (s : Schema) : Path :=
  [.key s.layersProperty]

/-- Whether resources of a type are functions. -/
def isFunctionType (s : Schema) (type : String) : Bool :=
  s.functionTypes.contains type

end Schema

end ModularTemplates
