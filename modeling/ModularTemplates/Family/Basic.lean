import ModularTemplates.Family.Link
import ModularTemplates.Json.Text
import ModularTemplates.Provenance

/-!
# Extension families

All resources that lead to one root form a family. The properties of its members are merged into
those of the root, and every merged value is attributed to the member that supplied it. All members
stand for the one merged resource.
-/

namespace ModularTemplates

/-- A family with its merged resource. -/
structure Family where
  root : ResourceId
  /-- the root and its extenders in the order in which they were merged -/
  members : List ResourceId
  /-- the root resource with the merged properties -/
  resource : Json
  /-- who supplied which property -/
  provenance : Provenance

/-- The properties of a resource; anything but an object counts as no properties. -/
def Json.ownProperties (body : Json) : Json :=
  match body.field? "Properties" with
  | some (.object fs) => .object fs
  | _ => .object []

/-- The text of a resource type. -/
def Json.typeName : Json → String
  | .string s => s
  | v => v.text

namespace Family

/-- The merged properties. -/
def properties (f : Family) : Json :=
  (f.resource.field? "Properties").getD (.object [])

/-- Refuse a member whose type differs from the type of the root. -/
def checkType (root member : Link) : Except FamilyError Unit :=
  match member.body.field? "Type", root.body.field? "Type" with
  | some type, some rootType =>
    if type.same rootType then .ok ()
    else .error (.typeMismatch member.id type.typeName root.id rootType.typeName)
  | _, _ => .ok ()

/-- Merge the properties of a member into what its predecessors made. -/
def contribute (root : Link) (sofar : Json × Provenance) (member : Link) :
    Except FamilyError (Json × Provenance) := do
  checkType root member
  match (merge member.rules sofar.1 member.body.ownProperties).result with
  | .error e => throw (.merge member.id e)
  | .ok (properties, changes) =>
    return (properties, sofar.2.enterAll changes member.id properties)

/-- The family of a root. Its members are merged as the walk back from the root comes to them. -/
def ofRoot (links : Links) (rootId : ResourceId) : Except FamilyError Family := do
  match links.find? rootId with
  | none => throw (.malformedResource rootId)
  | some root =>
    let (properties, provenance) ← (links.walk rootId).foldlM
      (fun sofar step => do contribute root sofar (← step))
      (root.body.ownProperties, .leaf rootId)
    return {
      root := rootId
      members := rootId :: (links.members rootId).map Link.id
      resource := root.body.setField "Properties" properties
      provenance }

end Family

/-- The families of a set of documents. -/
structure Families where
  documents : Documents
  links : Links
  /-- in the order in which members of them come up first -/
  families : List Family

namespace Families

/-- Add the family of a resource unless it is there. -/
def addFamilyOf (links : Links) (families : List Family) (link : Link) :
    Except FamilyError (List Family) := do
  let root ← links.root link.id
  if families.any fun family => family.root == root then return families
  else return families ++ [← Family.ofRoot links root]

/-- Resolve all extensions of documents. -/
def ofDocuments (documents : Documents) : Except FamilyError Families := do
  let links ← Links.ofDocuments documents
  let families ← links.foldlM (addFamilyOf links) []
  return ⟨documents, links, families⟩

/-- The family of a resource. -/
def get? (f : Families) (id : ResourceId) : Option Family :=
  f.families.find? fun family => family.members.contains id

/-- Every resource with its family, family by family. -/
def resourceMap (f : Families) : List (ResourceId × Family) :=
  f.families.flatMap fun family => family.members.map fun id => (id, family)

/-- The resources that extend a resource. -/
def extenders (f : Families) (id : ResourceId) : List ResourceId :=
  (f.links.extenders id).map Link.id

/-- The resource that a resource extends. -/
def target? (f : Families) (id : ResourceId) : Option ResourceId :=
  f.links.target? id

end Families

end ModularTemplates
