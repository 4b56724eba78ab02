import Mathlib.Tactic.Lemma
import ModularTemplates.Proofs.Function.Contributions
import ModularTemplates.Proofs.Function.SameMiddlewares

/-!
# Replaced entries

An entry of the middleware list in a document is replaced by another one. If the function extends
nothing and nothing extends it, the list that it is composed with is the one of its document, entry
by entry qualified, with what extensions contribute behind it. So the two lists that are composed
with differ in this entry and in no other one. A qualified entry names a resource of the module of
the function unless it names a module itself.
-/

namespace ModularTemplates

/-! ### Addresses -/

namespace Json

variable {v : Json} {module : String} {id : ResourceId}

/-- The resource that an address in a module names: one of this module unless it names a
module itself. -/
def addressed? (module : String) (v : Json) : Option ResourceId := do
  let resource ← (← v.field? "resource").asString?
  match v.field? "module" with
  | none => return ⟨module, resource⟩
  | some other => return ⟨← other.asString?, resource⟩

lemma resourceId?_eq_some_iff : v.resourceId? = some id ↔
    v.child? (.key "resource") = some (.string id.resource) ∧
      v.child? (.key "module") = some (.string id.module) := by
  obtain ⟨module, resource⟩ := id
  rw [resourceId?, child?_key, child?_key]
  cases v.field? "module" with
  | none => simp
  | some m =>
    cases v.field? "resource" with
    | none => cases m <;> simp [asString?]
    | some r => cases m <;> cases r <;> simp [asString?, and_comm]

lemma addressed?_eq_some_iff : v.addressed? module = some id ↔
    v.child? (.key "resource") = some (.string id.resource) ∧
      (v.child? (.key "module") = some (.string id.module) ∨
        v.child? (.key "module") = none ∧ module = id.module) := by
  obtain ⟨_, resource⟩ := id
  rw [addressed?, child?_key, child?_key]
  cases v.field? "resource" with
  | none => simp
  | some r =>
    cases v.field? "module" with
    | none => cases r <;> simp [asString?, and_comm]
    | some m => cases m <;> cases r <;> simp [asString?, and_comm]

end Json

namespace Qualifier

variable {q : Qualifier} {path : Path} {i : Nat} {x : Json} {s : String}

lemma child?_resource_entry : (q.entry path i x).child? (.key "resource") = some (.string s) ↔
    x.child? (.key "resource") = some (.string s) := by
  rw [entry]
  cases hx : x.child? (.key "resource") with
  | some r =>
    obtain ⟨g, hg, hchild, -⟩ := @child?_value q (path ++ [.index i]) _ _ _ hx
    rw [child?_address hchild, Option.some.injEq, hg.eq_string_iff, value_eq_string_iff,
      Option.some.injEq]
  | none =>
    have hnone := @child?_value_eq_none q (path ++ [.index i]) _ _ hx
    generalize q.value (path ++ [.index i]) x = v at hnone ⊢
    cases v with
    | object fs =>
      rw [Json.child?] at hnone
      simp [address, Fields.has, hnone, Json.child?]
    | _ => simp [address, Json.child?]

/-- A qualified entry names what the entry names in the module that supplied it. -/
theorem resourceId?_entry : (q.entry path i x).resourceId? =
    x.addressed? (q.moduleAt (path ++ [.index i])) := by
  refine Option.ext fun id => ?_
  rw [Json.resourceId?_eq_some_iff, Json.addressed?_eq_some_iff, child?_resource_entry]
  refine and_congr_right fun hresource => ?_
  exact (child?_qualified_address .id hresource (path ++ [.index i])).2 id.module

end Qualifier

/-! ### An entry of a list -/

namespace Json

variable {keys : List String} {p : Path} {i : Nat} {v w y : Json}

/-- Putting an item into a list changes nothing besides the list. -/
lemma SameButList.of_assign? (h : Path.assign? (Path.ofKeys keys ++ [.index i]) v y = some w) :
    SameButList keys v w := by
  induction keys generalizing v w with
  | nil =>
    obtain ⟨below, below', hbelow, -, rfl⟩ := Path.assign?_cons_eq_some_iff.mp h
    rcases exists_of_child? hbelow with ⟨fs, k, -, hk, -⟩ | ⟨xs, j, rfl, -, -⟩
    · cases hk
    · exact .inr ⟨xs, _, rfl, rfl⟩
  | cons key keys ih =>
    obtain ⟨below, below', hbelow, hassign, rfl⟩ := Path.assign?_cons_eq_some_iff.mp h
    rcases exists_of_child? hbelow with ⟨fs, k, rfl, hk, hget⟩ | ⟨xs, j, -, hj, -⟩
    · cases hk
      have hsame : Fields.SameBut (SameButList keys) key fs fs := .refl (SameButList.refl keys) fs
      have hset := hsame.set_here (ih hassign)
      rw [Fields.set_of_get? hget] at hset
      exact .of_fields hset
    · cases hj

/-- The list has the item in place of the old one. -/
lemma itemsAt_of_assign? (h : Path.assign? (p ++ [.index i]) v y = some w) :
    w.itemsAt p = (v.itemsAt p).set i y := by
  induction p generalizing v w with
  | nil =>
    obtain ⟨below, below', hbelow, hassign, rfl⟩ := Path.assign?_cons_eq_some_iff.mp h
    rcases exists_of_child? hbelow with ⟨fs, k, -, hk, -⟩ | ⟨xs, j, rfl, hj, -⟩
    · cases hk
    · cases hassign
      cases hj
      rfl
  | cons seg p ih =>
    obtain ⟨below, below', hbelow, hassign, rfl⟩ := Path.assign?_cons_eq_some_iff.mp h
    have hitems := ih hassign
    rw [itemsAt, itemsAt] at hitems ⊢
    rw [Path.lookup_cons, Path.lookup_cons, child?_replaceChild hbelow, hbelow]
    exact hitems

end Json

namespace Documents

variable {schema : Schema} {documents documents' : Documents} {function id : ResourceId} {i : Nat}
  {y : Json}

/-- The same resources, but for one entry of the middleware list in the body of one of them. -/
def EntryReplaced (documents : Documents) (schema : Schema) (function : ResourceId) (i : Nat)
    (y : Json) (documents' : Documents) : Prop :=
  ∃ before body body' after, documents.resources = before ++ (function, body) :: after ∧
    documents'.resources = before ++ (function, body') :: after ∧
    Path.assign? (Path.ofKeys ("Properties" :: schema.middlewaresKeys) ++ [.index i]) body y =
      some body'

namespace EntryReplaced

variable (h : documents.EntryReplaced schema function i y documents')
  (hdocuments : documents.WellFormed) (hdocuments' : documents'.WellFormed)

include h

lemma sameButLists : SameButLists schema.middlewaresKeys documents documents' := by
  obtain ⟨before, body, body', after, hbody, hbody', hassign⟩ := h
  have hrefl : ∀ r : ResourceId × Json,
      r.1 = r.1 ∧ Json.SameButList ("Properties" :: schema.middlewaresKeys) r.2 r.2 :=
    fun r => ⟨rfl, .refl _ _⟩
  rw [SameButLists, hbody, hbody']
  exact List.rel_append (List.forall₂_same.mpr fun r _ => hrefl r)
    (.cons ⟨rfl, .of_assign? hassign⟩ (List.forall₂_same.mpr fun r _ => hrefl r))

include hdocuments hdocuments'

lemma exists_bodies : ∃ body body', documents.resource? function = some body ∧
    documents'.resource? function = some body' ∧
    Path.assign? (Path.ofKeys ("Properties" :: schema.middlewaresKeys) ++ [.index i]) body y =
      some body' := by
  obtain ⟨before, body, body', after, hbody, hbody', hassign⟩ := h
  refine ⟨body, body', ?_, ?_, hassign⟩
  · rw [resource?_eq_some_iff hdocuments, hbody]
    simp
  · rw [resource?_eq_some_iff hdocuments', hbody']
    simp

/-- The properties of the resource have the new entry in place of the old one. -/
lemma itemsAt_ownProperties : (documents'.ownProperties function).itemsAt schema.middlewaresPath =
    ((documents.ownProperties function).itemsAt schema.middlewaresPath).set i y := by
  obtain ⟨body, body', hfound, hfound', hassign⟩ := h.exists_bodies hdocuments hdocuments'
  obtain ⟨properties, properties', hproperties, hbelow, rfl⟩ :=
    Path.assign?_cons_eq_some_iff.mp hassign
  obtain ⟨code, code', hcode, -, rfl⟩ := Path.assign?_cons_eq_some_iff.mp hbelow
  obtain ⟨fs, rfl⟩ := Json.exists_object_of_child? hcode
  have hchild := Json.child?_replaceChild hproperties
    ((Json.object fs).replaceChild (.key schema.codeProperty) code')
  rw [Json.child?_key] at hproperties hchild
  have hown : documents.ownProperties function = .object fs := by
    rw [ownProperties, hfound, Option.map_some, Option.getD_some, Json.ownProperties, hproperties]
  have hown' : documents'.ownProperties function =
      (Json.object fs).replaceChild (.key schema.codeProperty) code' := by
    rw [ownProperties, hfound', Option.map_some, Option.getD_some, Json.ownProperties, hchild]
    rfl
  rw [hown, hown']
  exact Json.itemsAt_of_assign? hbelow

end EntryReplaced

/-- A resource that extends nothing and that nothing extends is its whole family. -/
lemma Resolves.of_extenders_eq_nil (hdocuments : documents.WellFormed) {family : Family}
    (h : documents.Resolves family) (hid : id ∈ family.members)
    (hextended : documents.extended? id = none) (hextenders : documents.extenders id = []) :
    family.properties = documents.ownProperties id ∧ family.provenance = .leaf id := by
  obtain ⟨n, hchain⟩ := (h.mem_members_iff hdocuments).mp hid
  obtain rfl := hchain.root_unique .root h.root_extends hextended
  have hgeneration : ∀ n, documents.generation family.root (n + 1) = [] := by
    intro n
    induction n with
    | zero => simp [generation, hextenders]
    | succ n ih => rw [generation, ih, List.flatMap_nil]
  have htail : family.members.tail = [] := by
    rw [List.eq_nil_iff_forall_not_mem]
    intro other hother
    obtain ⟨n, hbehind⟩ := (h.mem_tail_members_iff hdocuments).mp hother
    have hmem := (mem_generation_iff hdocuments).mpr hbehind
    rw [hgeneration] at hmem
    exact List.not_mem_nil hmem
  have hmerged := h.merged
  rw [htail] at hmerged
  obtain ⟨hproperties, hprovenance⟩ := Prod.mk.inj (Except.ok.inj hmerged)
  exact ⟨hproperties.symm, hprovenance.symm⟩

end Documents

/-! ### The lists of functions -/

/-- The entry of a function's own list, qualified for the module of the function. -/
def Schema.ownEntry (schema : Schema) (function : ResourceId) (i : Nat) (x : Json) : Json :=
  Qualifier.entry ⟨schema, .leaf function⟩ schema.middlewaresPath i x

lemma Schema.resourceId?_ownEntry (schema : Schema) (function : ResourceId) (i : Nat) (x : Json) :
    (schema.ownEntry function i x).resourceId? = x.addressed? function.module := by
  rw [ownEntry, Qualifier.resourceId?_entry]
  rfl

lemma Schema.mapIdx_ownEntry (schema : Schema) (function : ResourceId) (first last : List Json)
    (z : Json) : (first ++ z :: last).mapIdx (schema.ownEntry function) =
      first.mapIdx (schema.ownEntry function) ++ schema.ownEntry function first.length z ::
        last.mapIdx fun j => schema.ownEntry function (j + (first.length + 1)) := by
  simp only [List.mapIdx_append, List.mapIdx_cons, Nat.zero_add, Nat.add_assoc, Nat.add_comm 1]

/-- A qualified entry of an own list names what an entry of the list names in the module of the
function. -/
lemma Schema.exists_of_mem_mapIdx_ownEntry {schema : Schema} {function : ResourceId} (k : Nat)
    {xs : List Json} {z : Json}
    (hz : z ∈ xs.mapIdx fun j => schema.ownEntry function (j + k)) :
    ∃ x ∈ xs, z.resourceId? = x.addressed? function.module := by
  obtain ⟨j, hj, rfl⟩ := List.mem_mapIdx.mp hz
  exact ⟨xs[j], List.getElem_mem hj, schema.resourceId?_ownEntry function _ _⟩

namespace Composer

variable {c c' : Composer} {function a b : ResourceId} {i : Nat} {x y : Json}

/-- The middleware list of a function: its qualified entries, with those that extensions contribute,
before repeated ones are dropped. -/
def Lists (c : Composer) (function : ResourceId) (entries : List Json) : Prop :=
  ∃ body family injected, c.families.documents.resource? function = some body ∧
    c.families.get? function = some family ∧
    (c.extensions.flatMap (c.schema.injections (body.textField "Type"))).foldlM
      (Properties.inject c.schema function) ⟨family.properties, family.provenance⟩ =
        .ok injected ∧
    entries = (qualifyReferences c.schema injected.provenance injected.value).itemsAt
      c.schema.middlewaresPath

/-- The list in the function's own document. -/
def ownEntries (c : Composer) (function : ResourceId) : List Json :=
  (c.families.documents.ownProperties function).itemsAt c.schema.middlewaresPath

/-- The list of a function that is its whole family: its own entries, and the contributed ones. -/
theorem Lists.eq_ownEntries (hc : c.Accepted) (hschema : c.schema.DistinctNames)
    (hextended : c.families.documents.extended? function = none)
    (hextenders : c.families.documents.extenders function = []) {body : Json}
    (hbody : c.families.documents.resource? function = some body)
    (hne : c.ownEntries function ≠ []) {xs : List Json} (h : c.Lists function xs) :
    xs = (c.ownEntries function).mapIdx (c.schema.ownEntry function) ++
      c.contributedMiddlewares (body.textField "Type") := by
  obtain ⟨body, family, injected, hbody', hget, hinjected, rfl⟩ := h
  rw [hbody] at hbody'
  cases hbody'
  obtain ⟨-, hmember⟩ := (Families.get?_eq_some_iff hc.wellFormed hc.families).mp hget
  obtain ⟨hproperties, hprovenance⟩ :=
    (hc.resolves hget).of_extenders_eq_nil hc.wellFormed hmember hextended hextenders
  have hready : Properties.Ready c.schema ⟨family.properties, family.provenance⟩ := by
    refine ⟨(hc.resolves hget).wellFormed_properties hc.wellFormed, ?_⟩
    -- the list is not empty, so it stands in an object
    obtain ⟨x, hx⟩ := List.exists_mem_of_ne_nil _ hne
    obtain ⟨i, hx⟩ := List.mem_iff_getElem?.mp hx
    have hlookup := Json.lookup_of_itemsAt hx
    rw [Schema.middlewaresPath, List.append_assoc, Path.lookup_append, ← hproperties] at hlookup
    obtain ⟨code, hcode, hlist⟩ := Option.bind_eq_some_iff.mp hlookup
    obtain ⟨list, hlist, -⟩ := Option.bind_eq_some_iff.mp hlist
    obtain ⟨fs, rfl⟩ := Json.exists_object_of_child? hlist
    exact ⟨fs, hcode⟩
  obtain ⟨-, hadds⟩ := c.contributes_injections hschema _ function _ _ hready hinjected
  rw [hadds.middlewares, hproperties, hprovenance]
  congr 1
  exact @Qualifier.itemsAt_middlewaresPath ⟨c.schema, .leaf function⟩ _ hschema

/-- In the document of a function an entry for one resource is replaced by an entry for another
one. The function is its whole family, and nothing else that is listed for it names one of the
two resources. -/
structure EntryReplaced (c c' : Composer) (function : ResourceId) (i : Nat) (x y : Json)
    (a b : ResourceId) : Prop where
  schema : c'.schema = c.schema
  distinct : c.schema.DistinctNames
  extensions : c'.extensions = c.extensions
  documents : c.families.documents.EntryReplaced c.schema function i y c'.families.documents
  extended : c.families.documents.extended? function = none
  extenders : c.families.documents.extenders function = []
  names : x.addressed? function.module = some a
  names' : y.addressed? function.module = some b
  entries : ∃ before after, c.ownEntries function = before ++ x :: after ∧ before.length = i ∧
    ∀ z ∈ before ++ after, z.addressed? function.module ≠ some a ∧
      z.addressed? function.module ≠ some b
  contributed : ∀ body, c.families.documents.resource? function = some body →
    ∀ z ∈ c.contributedMiddlewares (body.textField "Type"), z.resourceId? ≠ some a ∧
      z.resourceId? ≠ some b

namespace EntryReplaced

variable (h : c.EntryReplaced c' function i x y a b) (hc : c.Accepted) (hc' : c'.Accepted)

include h

lemma sameButLists : c.SameButLists c' := by
  refine ⟨h.schema, h.documents.sameButLists, fun type => ?_⟩
  rw [h.extensions, List.forall₂_same]
  intro injection hinjection
  obtain ⟨extension, -, hinjection⟩ := List.mem_flatMap.mp hinjection
  rcases List.mem_append.mp hinjection with hinjection | hinjection
  · obtain ⟨contribution, -, rfl⟩ := List.mem_map.mp hinjection
    exact .inl ⟨_, _, rfl, rfl⟩
  · obtain ⟨contribution, -, rfl⟩ := List.mem_map.mp hinjection
    exact .inr ⟨_, rfl, rfl⟩

lemma contributedMiddlewares_eq (type : String) :
    c'.contributedMiddlewares type = c.contributedMiddlewares type := by
  rw [contributedMiddlewares, contributedMiddlewares, h.extensions]

include hc hc'

lemma ownEntries_eq : c'.ownEntries function = (c.ownEntries function).set i y := by
  rw [ownEntries, ownEntries, h.schema,
    h.documents.itemsAt_ownProperties hc.wellFormed hc'.wellFormed]

/-- The function is its whole family after the replacement, too. -/
lemma lists_eq {body : Json} (hbody : c.families.documents.resource? function = some body)
    (hne : c'.ownEntries function ≠ []) {xs : List Json} (hxs : c'.Lists function xs) :
    xs = (c'.ownEntries function).mapIdx (c.schema.ownEntry function) ++
      c.contributedMiddlewares (body.textField "Type") := by
  have hlinks := h.sameButLists.resources
  obtain ⟨old, new, hold, hnew, hassign⟩ := h.documents.exists_bodies hc.wellFormed hc'.wellFormed
  have htype : new.textField "Type" = body.textField "Type" := by
    rw [hbody] at hold
    cases hold
    exact (Json.SameButList.of_assign? hassign).textField_eq (by decide)
  have hlist := hxs.eq_ownEntries hc' (h.schema ▸ h.distinct)
    ((hlinks.extended?_eq hc.wellFormed hc'.wellFormed function).trans h.extended)
    ((hlinks.extenders_eq hc.wellFormed hc'.wellFormed function).trans h.extenders) hnew hne
  rwa [h.schema, htype, h.contributedMiddlewares_eq] at hlist

/-- The lists that are composed with differ in the entry, and nothing else in them names one of the
two resources. -/
theorem exists_lists : ∃ before after,
    (∀ xs, c.Lists function xs → xs = before ++ c.schema.ownEntry function i x :: after) ∧
    (∀ xs, c'.Lists function xs → xs = before ++ c.schema.ownEntry function i y :: after) ∧
    ∀ z ∈ before ++ after, z.resourceId? ≠ some a ∧ z.resourceId? ≠ some b := by
  obtain ⟨first, last, hentries, rfl, helsewhere⟩ := h.entries
  have hentries' : c'.ownEntries function = first ++ y :: last := by
    simp [h.ownEntries_eq hc hc', hentries]
  obtain ⟨body, -, hbody, -, -⟩ := h.documents.exists_bodies hc.wellFormed hc'.wellFormed
  refine ⟨first.mapIdx (c.schema.ownEntry function),
    last.mapIdx (fun j => c.schema.ownEntry function (j + (first.length + 1))) ++
      c.contributedMiddlewares (body.textField "Type"), ?_, ?_, ?_⟩
  · intro xs hxs
    have hne : c.ownEntries function ≠ [] := by simp [hentries]
    rw [hxs.eq_ownEntries hc h.distinct h.extended h.extenders hbody hne, hentries,
      c.schema.mapIdx_ownEntry, List.append_assoc, List.cons_append]
  · intro xs hxs
    have hne : c'.ownEntries function ≠ [] := by simp [hentries']
    rw [h.lists_eq hc hc' hbody hne hxs, hentries', c.schema.mapIdx_ownEntry, List.append_assoc,
      List.cons_append]
  · intro z hz
    rw [← List.append_assoc, List.mem_append, List.mem_append] at hz
    rcases hz with (hz | hz) | hz
    · obtain ⟨w, hw, hnames⟩ := Schema.exists_of_mem_mapIdx_ownEntry 0 hz
      rw [hnames]
      exact helsewhere w (List.mem_append_left last hw)
    · obtain ⟨w, hw, hnames⟩ := Schema.exists_of_mem_mapIdx_ownEntry (first.length + 1) hz
      rw [hnames]
      exact helsewhere w (List.mem_append_right first hw)
    · exact h.contributed body hbody z hz

end EntryReplaced

end Composer

end ModularTemplates
