import Mathlib.Tactic.Lemma
import ModularTemplates.Proofs.Function.ReplacedEntries
import ModularTemplates.Proofs.Function.Repetition

/-!
# Middlewares that are named by another member of their family

An entry of a middleware list names a resource, and what is used is the family of the resource. Only
the checks look at the named resource itself: its own body must have the type of middlewares and
describe their code. So an entry can name any member of the family that passes the checks, and the
composed function is the same but for the entry.
-/

namespace ModularTemplates

/-! ### Lists with another entry -/

namespace Json

variable {x y z : Json} {before after : List Json}

/-- Entries that are the same name the same resource. -/
lemma resourceId?_of_same (hx : x.WellFormed) (h : x.same z = true) :
    x.resourceId? = z.resourceId? := by
  have hread : ∀ v : Json, v.resourceId? = ((v.field? "module").bind asString?).bind fun module =>
      ((v.field? "resource").bind asString?).bind fun resource => some ⟨module, resource⟩ := by
    intro v
    simp only [Option.bind_assoc]
    rfl
  rw [hread, hread, text?_of_same hx h, text?_of_same hx h]

/-- From two lists that differ in an item like no other one, the same further items are kept. -/
lemma exists_foldl_append_cons (hx : ∀ z ∈ after, x.same z = false)
    (hy : ∀ z ∈ after, y.same z = false) (first last : List Json) :
    ∃ last', after.foldl (fun kept z => if kept.any (same · z) then kept else kept ++ [z])
        (first ++ x :: last) = first ++ x :: last' ∧
      after.foldl (fun kept z => if kept.any (same · z) then kept else kept ++ [z])
        (first ++ y :: last) = first ++ y :: last' := by
  induction after generalizing last with
  | nil => exact ⟨last, rfl, rfl⟩
  | cons z after ih =>
    rw [List.forall_mem_cons] at hx hy
    have hany : ∀ u : Json, u.same z = false →
        (first ++ u :: last).any (same · z) = (first ++ last).any (same · z) := by
      intro u hu
      simp [hu]
    rw [List.foldl_cons, List.foldl_cons, hany x hx.1, hany y hy.1]
    split_ifs
    · exact ih hx.2 hy.2 last
    · rw [List.append_assoc, List.append_assoc]
      exact ih hx.2 hy.2 (last ++ [z])

lemma distinctItems_append_cons_eq_foldl (hx : ∀ z ∈ before, z.same x = false)
    (after : List Json) :
    distinctItems (before ++ x :: after) =
      after.foldl (fun kept z => if kept.any (same · z) then kept else kept ++ [z])
        (distinctItems before ++ [x]) := by
  have hnew : (distinctItems before).any (same · x) = false := by
    rw [List.any_eq_false]
    intro z hz
    simp [hx z (Stable.mem_of_mem_distinctItems hz)]
  rw [distinctItems, List.foldl_append, List.foldl_cons, ← distinctItems, hnew]
  rfl

/-- Where an item is like no other one, another item like no other one can stand in its place when
repeated items are dropped. -/
lemma distinctItems_append_cons (hx : ∀ z ∈ before, z.same x = false)
    (hy : ∀ z ∈ before, z.same y = false) (hx' : ∀ z ∈ after, x.same z = false)
    (hy' : ∀ z ∈ after, y.same z = false) :
    ∃ first last, distinctItems (before ++ x :: after) = first ++ x :: last ∧
      distinctItems (before ++ y :: after) = first ++ y :: last := by
  obtain ⟨last, hlast, hlast'⟩ := exists_foldl_append_cons hx' hy' (distinctItems before) []
  exact ⟨distinctItems before, last, (distinctItems_append_cons_eq_foldl hx after).trans hlast,
    (distinctItems_append_cons_eq_foldl hy after).trans hlast'⟩

/-! ### Dropping repeated items -/

namespace SameButList

variable {keys : List String} {key : String} {v w : Json}

lemma modify? {f : Json → Json} (hf : ∀ xs, ∃ ys, f (.array xs) = .array ys)
    (h : SameButList keys v w) :
    Option.Rel (SameButList keys) (Path.modify? f (.ofKeys keys) v)
      (Path.modify? f (.ofKeys keys) w) := by
  induction keys generalizing v w with
  | nil =>
    rcases h with rfl | ⟨xs, ys, rfl, rfl⟩
    · exact rel_refl _ _
    · obtain ⟨xs', hxs⟩ := hf xs
      obtain ⟨ys', hys⟩ := hf ys
      exact .some (.inr ⟨xs', ys', hxs, hys⟩)
  | cons key keys ih =>
    rcases h with rfl | ⟨fs, gs, rfl, rfl, h⟩
    · exact rel_refl _ _
    · have hget := h.get?
      rw [Path.ofKeys_cons, Path.modify?, Path.modify?, child?, child?]
      generalize Fields.get? fs key = a, Fields.get? gs key = b at hget
      cases hget with
      | none => exact .none
      | @some u u' hpart =>
        have hbelow := ih hpart
        simp only [Option.bind_eq_bind, Option.bind_some]
        generalize Path.modify? f (.ofKeys keys) u = a,
          Path.modify? f (.ofKeys keys) u' = b at hbelow
        cases hbelow with
        | none => exact .none
        | some hchanged => exact .some (.of_fields (h.set_here hchanged))

lemma getD_modify? {f : Json → Json} (hf : ∀ xs, ∃ ys, f (.array xs) = .array ys)
    (h : SameButList keys v w) :
    SameButList keys ((Path.modify? f (.ofKeys keys) v).getD v)
      ((Path.modify? f (.ofKeys keys) w).getD w) := by
  have hmodified := h.modify? hf
  generalize Path.modify? f (.ofKeys keys) v = a,
    Path.modify? f (.ofKeys keys) w = b at hmodified ⊢
  cases hmodified with
  | none => exact h
  | some hmodified => exact hmodified

/-- Items of the list itself may be dropped. -/
lemma dropRepeatedAt (h : SameButList keys v w) :
    SameButList keys (v.dropRepeatedAt (.ofKeys keys)) (w.dropRepeatedAt (.ofKeys keys)) :=
  h.getD_modify? fun xs => ⟨distinctItems xs, rfl⟩

lemma dropRepeatedAt_key (fs : Fields Json) (k : String) :
    (object fs).dropRepeatedAt [.key k] =
      .object (Qualifier.onField fs k (Json.dropRepeatedAt [])) := by
  rw [Json.dropRepeatedAt, Path.modify?, child?, Qualifier.onField]
  cases Fields.get? fs k <;> rfl

/-- Items of another list may be dropped, if there is no list where there is an object. -/
lemma dropRepeatedAt_property {key' : String} (h : SameButList (key :: key' :: keys) v w)
    (k : String) :
    SameButList (key :: key' :: keys) (v.dropRepeatedAt [.key k]) (w.dropRepeatedAt [.key k]) := by
  rcases h with rfl | ⟨fs, gs, rfl, rfl, h⟩
  · exact .refl _ _
  · rw [dropRepeatedAt_key, dropRepeatedAt_key]
    refine .of_fields (Qualifier.sameBut_onField h (fun _ v w hvw => ?_) fun _ _ => rfl)
    rcases hvw with rfl | ⟨fs, gs, rfl, rfl, h⟩
    · exact .refl _ _
    · exact .of_fields h

/-- Where the lists differ in one item, putting the item in place makes the values equal. -/
lemma assign? {first last : List Json} {x y : Json} (h : SameButList keys v w) (hv : v.WellFormed)
    (hx : (Path.ofKeys keys).lookup v = some (.array (first ++ x :: last)))
    (hy : (Path.ofKeys keys).lookup w = some (.array (first ++ y :: last))) :
    Path.assign? (Path.ofKeys keys ++ [.index first.length]) v y = some w := by
  unfold Path.assign?
  induction keys generalizing v w with
  | nil =>
    cases hx
    cases hy
    simp [Path.modify?, child?, replaceChild]
  | cons key keys ih =>
    obtain ⟨u, hu, hbelow⟩ := Option.bind_eq_some_iff.mp hx
    obtain ⟨u', hu', hbelow'⟩ := Option.bind_eq_some_iff.mp hy
    rcases h.objects_or_eq with ⟨fs, gs, rfl, rfl, hfs⟩ | ⟨-, hobject⟩
    · have hpart := hfs.get?
      replace hu : Fields.get? fs key = some u := hu
      replace hu' : Fields.get? gs key = some u' := hu'
      rw [hu, hu'] at hpart
      cases hpart with
      | some hpart =>
        rw [Path.ofKeys_cons, List.cons_append, Path.modify?, child?, hu]
        simp only [Option.bind_eq_bind, Option.bind_some]
        rw [ih hpart (hv.get? hu) hbelow hbelow', Option.bind_some, replaceChild,
          ← hfs.set_eq hv.distinct, Fields.set_of_get? hu']
        rfl
    · obtain ⟨fs, rfl⟩ := exists_object_of_child? hu
      exact absurd rfl (hobject fs)

end SameButList

end Json

/-! ### One entry of the list -/

/-- Properties of a function that are the same but for one entry of the middleware list. -/
structure Schema.SameButEntry (schema : Schema) (x y v w : Json) : Prop where
  same : Json.SameButList schema.middlewaresKeys v w
  intact : schema.Intact v
  intact' : schema.Intact w
  entries : ∃ first last, v.itemsAt schema.middlewaresPath = first ++ x :: last ∧
    w.itemsAt schema.middlewaresPath = first ++ y :: last

/-- The same composed function, but for one entry of its middleware list. -/
structure ComposedFunction.SameButEntry (schema : Schema) (x y : Json)
    (f f' : ComposedFunction) : Prop where
  function : f'.function = f.function
  middlewares : f'.middlewares = f.middlewares
  resource : ∃ i,
    Path.lookup (.key "Properties" :: schema.middlewaresPath ++ [.index i]) f.resource = some x ∧
    Path.assign? (.key "Properties" :: schema.middlewaresPath ++ [.index i]) f.resource y =
      some f'.resource

lemma Json.lookup_of_itemsAt_eq {v x : Json} {path : Path} {first last : List Json}
    (h : v.itemsAt path = first ++ x :: last) :
    path.lookup v = some (.array (first ++ x :: last)) := by
  unfold itemsAt at h
  cases hv : path.lookup v with
  | none => simp [hv] at h
  | some w => cases w <;> simp_all [asArray?]

/-- An entry that names a resource that no other entry names is like no other entry. -/
lemma Json.not_same_of_resourceId?_ne {x z : Json} {a : ResourceId} (hx : x.WellFormed)
    (hz : z.WellFormed) (hid : x.resourceId? = some a) (hne : z.resourceId? ≠ some a) :
    x.same z = false ∧ z.same x = false := by
  constructor
  · refine Bool.eq_false_iff.mpr fun hsame => hne ?_
    rw [← resourceId?_of_same hx hsame, hid]
  · refine Bool.eq_false_iff.mpr fun hsame => hne ?_
    rw [resourceId?_of_same hz hsame, hid]

namespace Schema.SameButEntry

variable {schema : Schema} {x y v w : Json}

/-- The entries stay where the code properties do. -/
lemma of_child?_eq {v' w' : Json} (h : schema.SameButEntry x y v w)
    (hsame : Json.SameButList schema.middlewaresKeys v' w') (hv' : schema.Intact v')
    (hw' : schema.Intact w')
    (hchild : v'.child? (.key schema.codeProperty) = v.child? (.key schema.codeProperty))
    (hchild' : w'.child? (.key schema.codeProperty) = w.child? (.key schema.codeProperty)) :
    schema.SameButEntry x y v' w' := by
  obtain ⟨first, last, hfirst, hlast⟩ := h.entries
  exact ⟨hsame, hv', hw', first, last, (Json.itemsAt_congr hchild _).trans hfirst,
    (Json.itemsAt_congr hchild' _).trans hlast⟩

/-- Where an entry names a resource that no other entry names, it is not dropped, and nothing is
dropped for it. -/
lemma dropRepeatedAt {before after : List Json} {a b : ResourceId}
    (h : Json.SameButList schema.middlewaresKeys v w) (hv : schema.Intact v) (hw : schema.Intact w)
    (hentries : v.itemsAt schema.middlewaresPath = before ++ x :: after)
    (hentries' : w.itemsAt schema.middlewaresPath = before ++ y :: after)
    (hx : x.resourceId? = some a) (hy : y.resourceId? = some b)
    (helsewhere : ∀ z ∈ before ++ after, z.resourceId? ≠ some a ∧
      z.resourceId? ≠ some b) :
    schema.SameButEntry x y (v.dropRepeatedAt schema.middlewaresPath)
      (w.dropRepeatedAt schema.middlewaresPath) := by
  refine ⟨h.dropRepeatedAt, hv.dropRepeatedAt_middlewaresPath,
    hw.dropRepeatedAt_middlewaresPath, ?_⟩
  rw [Json.itemsAt_dropRepeatedAt, Json.itemsAt_dropRepeatedAt, hentries, hentries']
  have hwell :=
    Json.wellFormed_array_iff.mp (hv.wellFormed.lookup (Json.lookup_of_itemsAt_eq hentries))
  have hwell' :=
    Json.wellFormed_array_iff.mp (hw.wellFormed.lookup (Json.lookup_of_itemsAt_eq hentries'))
  have hother : ∀ z, z ∈ before ∨ z ∈ after →
      (x.same z = false ∧ z.same x = false) ∧ y.same z = false ∧ z.same y = false := by
    intro z hz
    obtain ⟨hza, hzb⟩ := helsewhere z (List.mem_append.mpr hz)
    have hzwell : z.WellFormed := hwell z (by rcases hz with hz | hz <;> simp [hz])
    exact ⟨Json.not_same_of_resourceId?_ne (hwell x (by simp)) hzwell hx hza,
      Json.not_same_of_resourceId?_ne (hwell' y (by simp)) hzwell hy hzb⟩
  exact Json.distinctItems_append_cons (fun z hz => (hother z (.inl hz)).1.2)
    (fun z hz => (hother z (.inl hz)).2.2) (fun z hz => (hother z (.inr hz)).1.1)
    fun z hz => (hother z (.inr hz)).2.1

end Schema.SameButEntry

/-! ### Composing -/

namespace Composer

variable {c c' : Composer} {function a b : ResourceId} {x y : Json}

lemma alike_orError {α β : Type} {R : α → β → Prop} {u : Option α} {v : Option β}
    (h : Option.Rel R u v) (e e' : FunctionError) : Alike R (orError u e) (orError v e') := by
  cases h with
  | none => exact .error e e'
  | some h => exact .ok h

lemma checkFunction_eq (hschema : c'.schema = c.schema) {body body' : Json}
    (h : Json.SameButList ("Properties" :: c.schema.middlewaresKeys) body body') :
    c'.checkFunction function body' = c.checkFunction function body := by
  rw [checkFunction, checkFunction, hschema, h.textField_eq (by decide), h.field?_of_ne (by decide),
    h.hasCodeKeyword_eq]

/-- One composer uses a middleware list in which an entry names one resource, another composer
the list in which an entry for another resource stands in its place. No other entry names one of
the two resources. -/
structure Readdressed (c c' : Composer) (function : ResourceId) (x y : Json)
    (a b : ResourceId) : Prop where
  accepted : c.Accepted
  accepted' : c'.Accepted
  same : c.SameButLists c'
  names : x.resourceId? = some a
  names' : y.resourceId? = some b
  lists : ∃ before after, (∀ xs, c.Lists function xs → xs = before ++ x :: after) ∧
    (∀ xs, c'.Lists function xs → xs = before ++ y :: after) ∧
    ∀ z ∈ before ++ after, z.resourceId? ≠ some a ∧ z.resourceId? ≠ some b

/-- An entry can be replaced in the document of the function. -/
theorem Readdressed.of_entryReplaced {i : Nat} (hc : c.Accepted) (hc' : c'.Accepted)
    (h : c.EntryReplaced c' function i x y a b) :
    c.Readdressed c' function (c.schema.ownEntry function i x)
      (c.schema.ownEntry function i y) a b where
  accepted := hc
  accepted' := hc'
  same := h.sameButLists
  names := (c.schema.resourceId?_ownEntry function i x).trans h.names
  names' := (c.schema.resourceId?_ownEntry function i y).trans h.names'
  lists := h.exists_lists hc hc'

/-- The properties that middlewares are merged into are the same but for the entry. -/
lemma Readdressed.alike_prepare (h : c.Readdressed c' function x y a b) {body body' : Json}
    {family family' : Family} {code code' : CodeIdentity}
    (hbody : c.families.documents.resource? function = some body)
    (hbody' : c'.families.documents.resource? function = some body')
    (htype : body'.textField "Type" = body.textField "Type")
    (hget : c.families.get? function = some family)
    (hget' : c'.families.get? function = some family')
    (hfamily : family.SameButList c.schema.middlewaresKeys family')
    (hcode : family.code? c.schema.functionCodePath = some code)
    (hcode' : family'.code? c.schema.functionCodePath = some code') :
    Alike (c.schema.SameButEntry x y) (c.prepare function (body.textField "Type") family)
      (c'.prepare function (body'.textField "Type") family') := by
  have hwell := (h.accepted.resolves hget).wellFormed_properties h.accepted.wellFormed
  have hwell' := (h.accepted'.resolves hget').wellFormed_properties h.accepted'.wellFormed
  have hsame : Properties.SameButList c.schema ⟨family.properties, family.provenance⟩
      ⟨family'.properties, family'.provenance⟩ :=
    ⟨hfamily.merged, (ready_of_code? hwell hcode).describesCode⟩
  rw [prepare, prepare, htype, h.same.schema]
  refine (hsame.foldlM_inject (h.same.contributions _)).bind
    fun injected injected' hinjected hinjected' hp => ?_
  have hintact := ((Schema.Intact.of_code? hwell hcode).foldlM_inject hinjected).qualifyReferences
    injected.provenance
  have hintact' :=
    ((Schema.Intact.of_code? hwell' hcode').foldlM_inject hinjected').qualifyReferences
      injected'.provenance
  obtain ⟨before, after, hlist, hlist', helsewhere⟩ := h.lists
  refine .ok (.dropRepeatedAt (hp.merged.qualifyReferences c.schema) hintact hintact' ?_ ?_
    h.names h.names' helsewhere)
  · exact hlist _ ⟨body, family, injected, hbody, hget, hinjected, rfl⟩
  · refine hlist' _ ⟨body', family', injected', hbody', hget', ?_, by rw [h.same.schema]⟩
    rw [h.same.schema, htype]
    exact hinjected'

/-- Every entry is the same middleware for both composers, also the one that differs. -/
lemma Readdressed.forall₂_sameMiddleware (h : c.Readdressed c' function x y a b)
    (hfamily : c.families.get? a = c.families.get? b) (hadmits : c.Admits a ↔ c.Admits b)
    (first last : List Json) :
    List.Forall₂ (c.SameMiddleware c' function) (first ++ x :: last) (first ++ y :: last) := by
  have hmiddleware : ∀ id r, c.middleware function id = .ok r ↔
      c'.middleware function id = .ok r :=
    fun id _ => (h.same.middleware_eq_ok_iff h.accepted h.accepted' id).symm
  have hother : ∀ z, c.SameMiddleware c' function z z := by
    intro z
    cases hz : z.resourceId? with
    | none => exact .inl ⟨hz, hz⟩
    | some id => exact .inr ⟨id, id, hz, hz, hmiddleware id⟩
  have hentry : c.SameMiddleware c' function x y := .inr ⟨a, b, h.names, h.names', fun r =>
    (middleware_eq_ok_iff_of_get?_eq hfamily hadmits).trans (hmiddleware b r)⟩
  exact List.rel_append (List.forall₂_same.mpr fun z _ => hother z)
    (.cons hentry (List.forall₂_same.mpr fun z _ => hother z))

/-- The middlewares of both lists are merged alike, and the lists stay as they are. -/
lemma Readdressed.alike_addMiddlewares (h : c.Readdressed c' function x y a b)
    (hfamily : c.families.get? a = c.families.get? b) (hadmits : c.Admits a ↔ c.Admits b)
    {v w : Json} (hvw : c.schema.SameButEntry x y v w) :
    Alike (fun r r' => r'.2 = r.2 ∧ c.schema.SameButEntry x y r.1 r'.1)
      (c.addMiddlewares function 0 (c.middlewareEntries v) v)
      (c'.addMiddlewares function 0 (c'.middlewareEntries w) w) := by
  obtain ⟨first, last, hfirst, hlast⟩ := hvw.entries
  have hentries : List.Forall₂ (c.SameMiddleware c' function) (c.middlewareEntries v)
      (c'.middlewareEntries w) := by
    have hitems : c'.middlewareEntries w = w.itemsAt c.schema.middlewaresPath := by
      rw [middlewareEntries, h.same.schema]
      rfl
    rw [hitems, hlast, show c.middlewareEntries v = _ from hfirst]
    exact h.forall₂_sameMiddleware hfamily hadmits first last
  obtain ⟨ts, hts⟩ := hvw.intact.exists_object
  obtain ⟨fs, gs, rfl, rfl, hfields⟩ := hvw.same.objects_or_eq.resolve_right fun h => h.2 ts hts
  have hadded := Composer.alike_addMiddlewares h.same.schema h.accepted hentries hfields 0
  refine hadded.imp ?_
  rintro ⟨v, codes⟩ ⟨w, _⟩ hv hw ⟨rfl, fs', gs', rfl, rfl, hresult⟩
  obtain ⟨-, hintact, hchild⟩ :=
    intact_addMiddlewares (fun _ _ => h.accepted.exists_qualified) hvw.intact hv
  have hintact' := hvw.intact'
  rw [← h.same.schema] at hintact'
  obtain ⟨-, hintact', hchild'⟩ :=
    intact_addMiddlewares (fun _ _ => h.accepted'.exists_qualified) hintact' hw
  rw [h.same.schema] at hintact' hchild'
  exact ⟨rfl, hvw.of_child?_eq (.of_fields hresult) hintact hintact' hchild hchild'⟩

end Composer

namespace Schema.SameButEntry

variable {schema : Schema} {x y v w : Json}

/-- Dropping repeated layers leaves the middlewares as they are. -/
lemma dropRepeatedAt_layersPath (h : schema.SameButEntry x y v w) :
    schema.SameButEntry x y (v.dropRepeatedAt schema.layersPath)
      (w.dropRepeatedAt schema.layersPath) := by
  have hchild := h.intact.child?_dropRepeatedAt_layersPath
  have hchild' := h.intact'.child?_dropRepeatedAt_layersPath
  exact h.of_child?_eq (h.same.dropRepeatedAt_property _)
    ⟨h.intact.wellFormed.dropRepeatedAt _, hchild ▸ h.intact.code⟩
    ⟨h.intact'.wellFormed.dropRepeatedAt _, hchild' ▸ h.intact'.code⟩ hchild hchild'

/-- Putting the other entry in place makes the properties equal. -/
lemma exists_assign? (h : schema.SameButEntry x y v w) : ∃ i,
    Path.lookup (schema.middlewaresPath ++ [.index i]) v = some x ∧
      Path.assign? (schema.middlewaresPath ++ [.index i]) v y = some w := by
  obtain ⟨first, last, hfirst, hlast⟩ := h.entries
  have hlookup := Json.lookup_of_itemsAt_eq hfirst
  refine ⟨first.length, ?_,
    h.same.assign? h.intact.wellFormed hlookup (Json.lookup_of_itemsAt_eq hlast)⟩
  rw [Path.lookup_append, hlookup]
  simp [Json.child?]

end Schema.SameButEntry

/-! ### The composed function -/

section Resources

variable {fs : Fields Json} {key : String} {v w y : Json} {p : Path}

lemma Json.lookup_setField (fs : Fields Json) (key : String) (v : Json) (p : Path) :
    Path.lookup (.key key :: p) ((object fs).setField key v) = p.lookup v := by
  rw [Path.lookup_cons, setField, child?, Fields.get?_set_self, Option.bind_some]

lemma Json.assign?_setField (fs : Fields Json) (key : String) (h : Path.assign? p v y = some w) :
    Path.assign? (.key key :: p) ((object fs).setField key v) y =
      some ((object fs).setField key w) := by
  unfold Path.assign? at h ⊢
  rw [Path.modify?, setField, child?, Fields.get?_set_self]
  simp only [Option.bind_eq_bind, Option.bind_some]
  rw [h, Option.bind_some, replaceChild, Fields.set_set]
  rfl

end Resources

namespace Composer

variable {c c' : Composer} {function a b : ResourceId} {x y : Json}

/-- An entry of a middleware list can name any member of a family that passes the same checks:
the function can be composed as before, with the same code, and its resource is the same but
for the entry. -/
theorem compose_readdressed (h : c.Readdressed c' function x y a b) {family : Family}
    (hfamily : family ∈ c.families.families) (ha : a ∈ family.members)
    (hb : b ∈ family.members) (hadmits : c.Admits a ↔ c.Admits b) :
    Alike (ComposedFunction.SameButEntry c.schema x y) (c.compose function)
      (c'.compose function) := by
  have hmember : ∀ id ∈ family.members, c.families.get? id = some family := fun id hid =>
    (Families.get?_eq_some_iff h.accepted.wellFormed h.accepted.families).mpr ⟨hfamily, hid⟩
  have hab : c.families.get? a = c.families.get? b := (hmember a ha).trans (hmember b hb).symm
  unfold compose
  refine (alike_orError (h.same.resource? h.accepted h.accepted' function) _ _).bind
    fun body body' hbody hbody' hbodies => ?_
  rw [orError_eq_ok_iff] at hbody hbody'
  rw [checkFunction_eq h.same.schema hbodies]
  refine (Alike.refl (R := fun _ _ => True) (fun _ => trivial) (c.checkFunction function body)).bind
    fun _ _ _ _ _ => ?_
  refine (alike_orError (h.same.get? h.accepted h.accepted' function) _ _).bind
    fun own own' hown hown' hfamilies => ?_
  rw [orError_eq_ok_iff] at hown hown'
  have hcodes : own'.code? c'.schema.functionCodePath = own.code? c.schema.functionCodePath := by
    rw [h.same.schema]
    exact hfamilies.merged.code?_eq (by simp [Schema.functionCodePath, Schema.middlewaresKeys])
  dsimp only
  change Alike _ (orError (own.code? _) _ >>= _) (orError (own'.code? _) _ >>= _)
  rw [hcodes]
  refine (Alike.refl (R := (· = ·)) (fun _ => rfl) (orError (own.code? _) _)).bind ?_
  rintro code _ hcode - rfl
  rw [orError_eq_ok_iff] at hcode
  refine (h.alike_prepare hbody hbody' (hbodies.textField_eq (by decide)) hown hown' hfamilies hcode
    (by rw [← hcode, ← hcodes, h.same.schema])).bind fun prepared prepared' _ _ hprepared => ?_
  refine (h.alike_addMiddlewares hab hadmits hprepared).bind ?_
  rintro ⟨composed, codes⟩ ⟨composed', _⟩ - - ⟨rfl, hcomposed⟩
  obtain ⟨i, hlookup, hassign⟩ := hcomposed.dropRepeatedAt_layersPath.exists_assign?
  obtain ⟨fs, -, hresource⟩ := (h.accepted.resolves hown).resource
  refine .ok ⟨rfl, rfl, i, ?_, ?_⟩
  · dsimp only
    rw [hresource, List.cons_append, Json.lookup_setField]
    exact hlookup
  · dsimp only
    rw [h.same.schema, hfamilies.resource, hresource, List.cons_append]
    exact Json.assign?_setField _ _ hassign

/-! ### Entries for an extender -/

/-- The body of a middleware. -/
def middlewareBody : Json :=
  .object [("Type", .string "Middleware"),
    ("Properties", .single "CodeUri" (.single "Middleware" (.single "name" (.string "check"))))]

/-- A function, a middleware, and a resource that extends the middleware. The function lists one of
them by its name. -/
def withExtender (more : Json) (family : Family) (listed : String) : Composer :=
  let function : Json := .object [("Type", .string "AWS::Serverless::Function"),
    ("Properties", .single "CodeUri" (.single "Function" (.object
      [("name", .string "handler"),
        ("middlewares", .array [.single "resource" (.string listed)])])))]
  { families :=
      { documents := [("app", ⟨.single "Resources" (.object
          [("api", function), ("auth", middlewareBody), ("more", more)]), none⟩)]
        links := [⟨⟨"app", "api"⟩, function, none, []⟩,
          ⟨⟨"app", "auth"⟩, middlewareBody, none, []⟩,
          ⟨⟨"app", "more"⟩, more, some ⟨"app", "auth"⟩, []⟩]
        families :=
          [⟨⟨"app", "api"⟩, [⟨"app", "api"⟩], function, .leaf ⟨"app", "api"⟩⟩,
            family] }
    schema := .standard
    extensions := [] }

/-- The entry for the middleware can be replaced by one for its extender. -/
lemma readdressed_withExtender {more : Json} {family : Family}
    (haccepted : (withExtender more family "auth").Accepted)
    (haccepted' : (withExtender more family "more").Accepted)
    (hextenders : (withExtender more family "auth").families.documents.extenders
      ⟨"app", "api"⟩ = []) :
    (withExtender more family "auth").Readdressed (withExtender more family "more")
      ⟨"app", "api"⟩
      (.object [("resource", .string "auth"), ("module", .string "app")])
      (.object [("resource", .string "more"), ("module", .string "app")])
      ⟨"app", "auth"⟩ ⟨"app", "more"⟩ := by
  have hreplaced : (withExtender more family "auth").EntryReplaced (withExtender more family "more")
      ⟨"app", "api"⟩ 0 (.single "resource" (.string "auth"))
        (.single "resource" (.string "more"))
      ⟨"app", "auth"⟩ ⟨"app", "more"⟩ := by
    constructor
    · rfl
    · exact (by decide : Schema.standard.DistinctNames)
    · rfl
    · exact ⟨[], _, _, _, rfl, rfl, rfl⟩
    · rfl
    · exact hextenders
    · rfl
    · rfl
    · exact ⟨[], [], rfl, rfl, by simp⟩
    · simp [contributedMiddlewares, withExtender]
  exact .of_entryReplaced haccepted haccepted' hreplaced

/-- An entry for a middleware becomes an entry for its extender, which adds to its code and repeats
the type and the keyword. -/
theorem compose_readdressed_extender :
    let more : Json := .object [("Type", .string "Middleware"),
      ("Extend", .single "resource" (.string "auth")),
      ("Properties", .single "CodeUri" (.single "Middleware" (.single "note" (.string "more"))))]
    let family : Family := ⟨⟨"app", "auth"⟩, [⟨"app", "auth"⟩, ⟨"app", "more"⟩],
      .object [("Type", .string "Middleware"),
        ("Properties", .single "CodeUri" (.single "Middleware" (.object
        [("name", .string "check"), ("note", .string "more")])))],
      .fields ⟨"app", "auth"⟩
        [("CodeUri", .fields ⟨"app", "auth"⟩ [("Middleware", .fields ⟨"app", "auth"⟩
        [("note", .leaf ⟨"app", "more"⟩)])])]⟩
    let c := withExtender more family "auth"
    let c' := withExtender more family "more"
    let x : Json := .object [("resource", .string "auth"), ("module", .string "app")]
    let y : Json := .object [("resource", .string "more"), ("module", .string "app")]
    c.Readdressed c' ⟨"app", "api"⟩ x y ⟨"app", "auth"⟩ ⟨"app", "more"⟩ ∧
      family ∈ c.families.families ∧ ⟨"app", "auth"⟩ ∈ family.members ∧
      ⟨"app", "more"⟩ ∈ family.members ∧
      c.Admits ⟨"app", "auth"⟩ ∧ c.Admits ⟨"app", "more"⟩ ∧
      ∃ f f', c.compose ⟨"app", "api"⟩ = .ok f ∧ c'.compose ⟨"app", "api"⟩ = .ok f' ∧
        ComposedFunction.SameButEntry c.schema x y f f' ∧
        f.middlewares = [⟨"app", "check"⟩] := by
  intro more family c c' x y
  have hreaddressed :
      c.Readdressed c' ⟨"app", "api"⟩ x y ⟨"app", "auth"⟩ ⟨"app", "more"⟩ :=
    readdressed_withExtender ⟨by decide, by cbv⟩ ⟨by decide, by cbv⟩ (by decide)
  have hadmits : c.Admits ⟨"app", "auth"⟩ ∧ c.Admits ⟨"app", "more"⟩ :=
    ⟨⟨middlewareBody, by decide, by decide, by decide⟩,
      ⟨more, by decide, by decide, by decide⟩⟩
  have halike :=
    compose_readdressed hreaddressed (show family ∈ c.families.families by simp [c, withExtender])
      (by decide) (by decide) (iff_of_true hadmits.1 hadmits.2)
  have hresult : (c.compose ⟨"app", "api"⟩).toOption.map ComposedFunction.middlewares =
      some [⟨"app", "check"⟩] := by decide +kernel
  obtain ⟨f, hf, hmiddlewares⟩ := Option.map_eq_some_iff.mp hresult
  rw [toOption_eq_some_iff] at hf
  rw [hf] at halike
  generalize c'.compose ⟨"app", "api"⟩ = result at halike
  cases halike with
  | @ok _ f' hsame =>
    exact ⟨hreaddressed, by simp [c, withExtender], by decide, by decide, hadmits.1, hadmits.2, f,
      f', hf, rfl, hsame, hmiddlewares⟩

/-- The extender does not repeat the type of middlewares, so the function can not be
composed any more. -/
theorem not_composed_readdressed :
    let more : Json := .single "Extend" (.single "resource" (.string "auth"))
    let family : Family :=
      ⟨⟨"app", "auth"⟩, [⟨"app", "auth"⟩, ⟨"app", "more"⟩], middlewareBody,
        .leaf ⟨"app", "auth"⟩⟩
    let c := withExtender more family "auth"
    let c' := withExtender more family "more"
    let x : Json := .object [("resource", .string "auth"), ("module", .string "app")]
    let y : Json := .object [("resource", .string "more"), ("module", .string "app")]
    c.Readdressed c' ⟨"app", "api"⟩ x y ⟨"app", "auth"⟩ ⟨"app", "more"⟩ ∧
      family ∈ c.families.families ∧ ⟨"app", "auth"⟩ ∈ family.members ∧
      ⟨"app", "more"⟩ ∈ family.members ∧
      (c.compose ⟨"app", "api"⟩).isOk = true ∧
      c'.compose ⟨"app", "api"⟩ = .error (.notAMiddleware ⟨"app", "more"⟩ "") := by
  intro more family c c' x y
  have hreaddressed :
      c.Readdressed c' ⟨"app", "api"⟩ x y ⟨"app", "auth"⟩ ⟨"app", "more"⟩ :=
    readdressed_withExtender ⟨by decide, by cbv⟩ ⟨by decide, by cbv⟩ (by decide)
  have hrefused : (c'.compose ⟨"app", "api"⟩).map (fun _ => ()) =
      .error (.notAMiddleware ⟨"app", "more"⟩ "") := by decide +kernel
  refine ⟨hreaddressed, by simp [c, withExtender], by decide, by decide, by decide +kernel, ?_⟩
  generalize c'.compose ⟨"app", "api"⟩ = result at hrefused ⊢
  cases result with
  | ok f => cases hrefused
  | error e => exact congrArg Except.error (Except.error.inj hrefused)

end Composer

end ModularTemplates
