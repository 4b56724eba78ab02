import ModularTemplates.Documents
import ModularTemplates.Family.Error

/-!
# Extension links

Every resource of a set of documents is a link: it extends at most one other resource. Following the
links from a resource leads to the root of its family, unless the links run in a circle. The
resources that lead to a root are taken breadth first: those that extend the root come first, and
the extenders of a resource wait behind those of the resources before it.
-/

namespace ModularTemplates

/-- A resource, the resource it extends, and the rules by which it does so. -/
structure Link where
  id : ResourceId
  body : Json
  target : Option ResourceId
  rules : Rules

/-- The links of all resources, in document order. -/
abbrev Links := List Link

namespace Links

/-- The link of a resource. -/
def find? (links : Links) (id : ResourceId) : Option Link :=
  List.find? (fun link => link.id == id) links

/-- The resource that a resource extends. -/
def target? (links : Links) (id : ResourceId) : Option ResourceId :=
  (links.find? id).bind Link.target

/-- The links of the resources that extend a resource. -/
def extenders (links : Links) (id : ResourceId) : Links :=
  links.filter fun link => link.target == some id

/-- Link a resource to the target of its declaration, which must be one of the resources. -/
def linkResource (resources : List (ResourceId × Json)) (id : ResourceId) (body : Json) :
    Option Declaration → Except FamilyError Link
  | none => .ok ⟨id, body, none, []⟩
  | some declaration =>
    let target := declaration.target id.module
    if resources.any fun resource => resource.1 == target then
      .ok ⟨id, body, some target, declaration.rules⟩
    else .error (.targetNotFound id target)

/-- Link all resources of documents. First all resources are checked to be objects, then all
declarations are read, then all targets are looked for. -/
def ofDocuments (documents : Documents) : Except FamilyError Links := do
  let resources := documents.resources
  resources.forM fun (id, body) =>
    if body.isObject then .ok () else .error (.malformedResource id)
  let declared ← resources.mapM fun (id, body) => do
    return (id, body, ← Declaration.of id body)
  declared.mapM fun (id, body, declaration) => linkResource resources id body declaration

/-! ### Roots -/

/-- The links of resources that are not in a list. -/
def without (links : Links) (passed : List ResourceId) : Links :=
  links.filter fun link => !passed.contains link.id

theorem length_without_lt {links : Links} {passed : List ResourceId} {id : ResourceId} {link : Link}
    (h : links.find? id = some link) (hid : id ∉ passed) :
    (links.without (passed ++ [id])).length < (links.without passed).length := by
  have hmem : link ∈ links := List.mem_of_find?_eq_some h
  have hlid : link.id = id := by simpa using List.find?_some h
  have hsplit : links.without (passed ++ [id]) =
      (links.without passed).filter fun link => link.id != id := by
    simp only [without, List.filter_filter]
    congr 1
    funext l
    by_cases h1 : l.id = id <;> by_cases h2 : l.id ∈ passed <;> simp [h1, h2]
  rw [hsplit, List.length_filter_lt_length_iff_exists]
  refine ⟨link, ?_, ?_⟩
  · simp [without, hmem, hlid, hid]
  · simp [hlid]

/-- Follow the links from a resource that was reached through others. -/
def rootFrom (links : Links) (passed : List ResourceId) (id : ResourceId) :
    Except FamilyError ResourceId :=
  if _hid : id ∈ passed then .error (.cycle passed)
  else
    match _h : links.target? id with
    | none => .ok id
    | some target => rootFrom links (passed ++ [id]) target
termination_by (links.without passed).length
decreasing_by
  obtain ⟨link, hlink, -⟩ := Option.bind_eq_some_iff.1 _h
  exact length_without_lt hlink _hid

/-- The root of the family of a resource. -/
def root (links : Links) (id : ResourceId) : Except FamilyError ResourceId :=
  links.rootFrom [] id

/-! ### Members -/

/-- Take the resources in a queue, each of them once. The extenders of one that is taken join the
queue behind all others, and a resource without a link is where it ends. -/
def visit (links : Links) (seen queue : List ResourceId) : List (Except FamilyError Link) :=
  match queue with
  | [] => []
  | id :: queue =>
    if _hid : id ∈ seen then links.visit seen queue
    else
      match _h : links.find? id with
      | none => [.error (.malformedResource id)]
      | some link =>
        .ok link :: links.visit (seen ++ [id]) (queue ++ (links.extenders id).map Link.id)
termination_by ((links.without seen).length, queue.length)
decreasing_by
  · exact Prod.Lex.right _ (Nat.lt_succ_self _)
  · exact Prod.Lex.left _ _ (length_without_lt _h _hid)

/-- The walk back from a root: to its extenders, to their extenders, and so on, nearest first. -/
def walk (links : Links) (root : ResourceId) : List (Except FamilyError Link) :=
  links.visit [root] ((links.extenders root).map Link.id)

/-- The links that a queue of resources leads to. -/
def collect (links : Links) (seen queue : List ResourceId) : Links :=
  (links.visit seen queue).filterMap Except.toOption

/-- The resources that the walk back from a root comes to. -/
def members (links : Links) (root : ResourceId) : Links :=
  links.collect [root] ((links.extenders root).map Link.id)

end Links

end ModularTemplates
