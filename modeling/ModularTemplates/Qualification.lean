import ModularTemplates.Function.Schema
import ModularTemplates.Provenance

/-!
# Qualified references

An address that names a resource but no module means a resource of the module that wrote it. When
values of several modules are merged, the provenance tells which module that is, and the module is
added to the address. Addresses stand under the reference keyword and in the middleware list under
the function keyword.
-/

namespace ModularTemplates

/-- What is needed to qualify the addresses of a value. -/
structure Qualifier where
  schema : Schema
  provenance : Provenance

namespace Qualifier

/-- The module that supplied the value at a path. -/
def moduleAt (q : Qualifier) (path : Path) : String :=
  (q.provenance.source path).owner.module

/-- Add the module to an address that names a resource and no module. -/
def address (q : Qualifier) (path : Path) (v : Json) : Json :=
  match v with
  | .object fs =>
    if Fields.has fs "module" || !Fields.has fs "resource" then .object fs
    else .object (Fields.set fs "module" (.string (q.moduleAt path)))
  | other => other

/-- Change the value under a key, if there is one. -/
def onField (fs : Fields Json) (key : String) (f : Json → Json) : Fields Json :=
  match fs.get? key with
  | some v => fs.set key (f v)
  | none => fs

/-- Qualify the entries of a list of addresses at their own paths. -/
def entries (q : Qualifier) (path : Path) (v : Json) : Json :=
  match v with
  | .array xs => .array (xs.mapIdx fun i x => q.address (path ++ [.index i]) x)
  | other => other

/-- Qualify the middleware list inside a function keyword. -/
def middlewares (q : Qualifier) (path : Path) (v : Json) : Json :=
  match v with
  | .object fs =>
    .object (onField fs q.schema.middlewaresField
      (q.entries (path ++ [.key q.schema.middlewaresField])))
  | other => other

/-- Qualify the addresses that an object holds under its own keywords. -/
def object (q : Qualifier) (path : Path) (fs : Fields Json) : Fields Json :=
  onField (onField fs q.schema.referenceKeyword (q.address path)) q.schema.functionKeyword
    (q.middlewares (path ++ [.key q.schema.functionKeyword]))

mutual
/-- Qualify all addresses of a value that stands at a path. -/
def value (q : Qualifier) (path : Path) : Json → Json
  | .object fs => .object (q.object path (fields q path fs))
  | .array xs => .array (items q path 0 xs)
  | v => v

/-- Qualify all addresses below the properties of an object. -/
def fields (q : Qualifier) (path : Path) : List (String × Json) → List (String × Json)
  | [] => []
  | (k, v) :: fs => (k, value q (path ++ [.key k]) v) :: fields q path fs

/-- Qualify all addresses below the items of an array from an index on. -/
def items (q : Qualifier) (path : Path) : Nat → List Json → List Json
  | _, [] => []
  | i, x :: xs => value q (path ++ [.index i]) x :: items q path (i + 1) xs
end

end Qualifier

/-- Qualify all addresses of merged properties. -/
def qualifyReferences (schema : Schema) (provenance : Provenance) (properties : Json) : Json :=
  Qualifier.value ⟨schema, provenance⟩ [] properties

end ModularTemplates
