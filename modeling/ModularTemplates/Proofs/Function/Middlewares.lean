import Mathlib.Tactic.Lemma
import ModularTemplates.Proofs.Function.Lists
import ModularTemplates.Proofs.Function.Steps
import ModularTemplates.Proofs.Merge.Objects

/-!
# Properties of middlewares

The only rule by which the properties of a middleware are merged into a function is one for the
layers. So the layers of the middleware come after those that are there, and all other properties
are merged as if there were no rule.
-/

namespace ModularTemplates

/-! ### Places that no rule reaches -/

/-- No rule is about a place or about anything below it. -/
def Rules.Silent (rules : Rules) (path : Path) : Prop :=
  ∀ p, rules.find? (path ++ p) = none ∧ rules.reachBelow (path ++ p) = false

section Silent

variable {rules : Rules} {path : Path}

lemma Rules.Silent.here (h : rules.Silent path) :
    rules.find? path = none ∧ rules.reachBelow path = false := by
  simpa using h []

lemma Rules.Silent.child (h : rules.Silent path) (seg : Segment) :
    rules.Silent (path ++ [seg]) := by
  intro p
  rw [List.append_assoc]
  exact h (seg :: p)

mutual
lemma mergeAt_of_silent {path : Path} (h : rules.Silent path) (t s : Json) :
    mergeAt rules path t s = mergeAt [] path t s := by
  obtain ⟨hfind, hbelow⟩ := h.here
  match t, s with
  | .object ts, .object ss =>
    rw [mergeAt, mergeAt, hfind, mergeFields_of_silent h ts ss]
    rfl
  | .array ts, .array ss =>
    rw [mergeAt, mergeAt, hfind, hbelow]
    rfl
  | .null, s | .bool _, s | .number _, s | .string _, s
  | .object _, .null | .object _, .bool _ | .object _, .number _ | .object _, .string _
  | .object _, .array _ | .array _, .null | .array _, .bool _ | .array _, .number _
  | .array _, .string _ | .array _, .object _ =>
    simp [mergeAt, hfind]

lemma mergeFields_of_silent {path : Path} (h : rules.Silent path) (ts : Fields Json)
    (ss : List (String × Json)) : mergeFields rules path ts ss = mergeFields [] path ts ss := by
  match ss with
  | [] => rfl
  | (k, s) :: ss =>
    simp only [mergeFields]
    rw [mergeAt_of_silent (h.child (.key k)), mergeFields_of_silent h _ ss]
end

end Silent

/-! ### Merging beside the layers -/

section Merge

variable {schema : Schema} {ts ss : Fields Json} {k : String}

lemma silent_middlewareRules (hk : k ≠ schema.layersProperty) :
    schema.middlewareRules.Silent [.key k] := by
  intro p
  constructor
  · cases p <;> simp [Rules.find?, Schema.middlewareRules, Schema.layersPath, Path.matches,
      Segment.matches, hk.symm]
  · simp [Rules.reachBelow, Schema.middlewareRules, Schema.layersPath, Path.reachesBelow]

/-- The other properties are merged on their own and without rules. -/
lemma mergeFields_others (h : (mergeFields schema.middlewareRules [] ts ss).error = none) :
    (mergeFields [] [] (ts.only schema.isOther) (Fields.only schema.isOther ss)).error = none ∧
    (mergeFields [] [] (ts.only schema.isOther) (Fields.only schema.isOther ss)).target =
      (mergeFields schema.middlewareRules [] ts ss).target.only schema.isOther := by
  induction ss generalizing ts with
  | nil => exact ⟨rfl, rfl⟩
  | cons field ss ih =>
    obtain ⟨k, s⟩ := field
    simp only [mergeFields, Merged.error_next] at h ⊢
    obtain ⟨herror, hrest⟩ := h
    have ih := ih hrest
    rw [Merged.next_of_error herror, Fields.only_cons]
    by_cases hother : schema.isOther k
    · have hk : k ≠ schema.layersProperty := by
        rintro rfl
        simp [schema.isOther_layersProperty] at hother
      rw [List.nil_append, mergeAt_of_silent (silent_middlewareRules hk)] at herror ih ⊢
      rw [Fields.only_set_of_true hother] at ih
      rwa [if_pos hother, mergeFields, Fields.get?_only hother, List.nil_append,
        Merged.next_of_error herror]
    · rw [Bool.not_eq_true] at hother
      rw [Fields.only_set_of_false hother] at ih
      rwa [hother, if_neg Bool.false_ne_true]

lemma get?_target_mergeFields {rules : Rules} {path : Path} (hss : ss.Distinct)
    (h : (mergeFields rules path ts ss).error = none) (k : String) :
    (ss.get? k = none → (mergeFields rules path ts ss).target.get? k = ts.get? k) ∧
    ∀ s, ss.get? k = some s →
      (mergeAt rules (path ++ [.key k]) ((ts.get? k).getD .null) s).error = none ∧
      (mergeFields rules path ts ss).target.get? k =
        some (mergeAt rules (path ++ [.key k]) ((ts.get? k).getD .null) s).target := by
  obtain ⟨herror, htarget, -⟩ := @mergeFields_eq _ _ _ _ hss h (fun k =>
    mergeAt rules (path ++ [.key k]) ((ts.get? k).getD .null)
        ((ss.get? k).getD .null)) fun k s hs => by
      rw [hss.get?_of_mem hs, Option.getD_some]
  rw [htarget, Fields.get?_update_map]
  constructor
  · intro hk
    rw [if_neg (Fields.get?_eq_none_iff.mp hk)]
  · intro s hs
    have hmem := Fields.mem_keys_of_get? hs
    have hpart := herror k hmem
    rw [hs, Option.getD_some] at hpart
    rw [if_pos hmem, hs, Option.getD_some]
    exact ⟨hpart, rfl⟩

lemma Json.itemsAt_congr {v w : Json} {key : String} (h : v.child? (.key key) = w.child? (.key key))
    (p : Path) : v.itemsAt (.key key :: p) = w.itemsAt (.key key :: p) := by
  rw [itemsAt, itemsAt, Path.lookup_cons, Path.lookup_cons, h]

lemma Json.itemsAt_key (fs : Fields Json) (key : String) :
    (Json.object fs).itemsAt [.key key] = ((fs.get? key).bind Json.asArray?).getD [] := by
  rw [itemsAt, Path.lookup_cons, child?]
  cases fs.get? key <;> rfl

/-- Layers come after those that are there. -/
lemma itemsAt_layersPath_mergeFields (hss : ss.Distinct)
    (h : (mergeFields schema.middlewareRules [] ts ss).error = none) :
    (Json.object (mergeFields schema.middlewareRules [] ts ss).target).itemsAt schema.layersPath =
      (Json.object ts).itemsAt schema.layersPath ++ (Json.object ss).itemsAt schema.layersPath := by
  obtain ⟨hnone, hsome⟩ := get?_target_mergeFields hss h schema.layersProperty
  rw [Schema.layersPath, Json.itemsAt_key, Json.itemsAt_key, Json.itemsAt_key]
  cases hlayers : ss.get? schema.layersProperty with
  | none =>
    rw [hnone hlayers]
    simp
  | some s =>
    obtain ⟨herror, htarget⟩ := hsome s hlayers
    have hrule : schema.middlewareRules.find? [.key schema.layersProperty] = some .append := by
      simp [Rules.find?, Schema.middlewareRules, Schema.layersPath, Path.matches, Segment.matches]
    rw [List.nil_append, mergeAt_of_rule hrule] at herror htarget
    obtain ⟨xs, ys, hxs, rfl⟩ := addItems_error herror
    rw [htarget, Json.items_of_itemsOrNull? hxs]
    simp [applyOperation, addItems, hxs, Merged.changed, Json.asArray?]

/-- The properties of a middleware without its code, merged into those of a function. -/
theorem merge_middleware (hschema : schema.DistinctNames) (hss : ss.Distinct) {merged : Json}
    {changes : List Change}
    (h : (merge schema.middlewareRules (.object ts)
      ((Json.object ss).eraseField schema.codeProperty)).result = .ok (merged, changes)) :
    ∃ fs, merged = .object fs ∧
      merged.itemsAt schema.middlewaresPath = (Json.object ts).itemsAt schema.middlewaresPath ∧
      merged.itemsAt schema.layersPath =
        (Json.object ts).itemsAt schema.layersPath ++ (Json.object ss).itemsAt schema.layersPath ∧
      (merge [] (schema.others (.object ts)) (schema.others (.object ss))).result.map Prod.fst =
        .ok (schema.others merged) := by
  have hmerge : ∀ (rules : Rules) gs gs', rules.find? [] = none →
      merge rules (.object gs) (.object gs') = (mergeFields rules [] gs gs').map .object := by
    intro rules gs gs' hfind
    rw [merge, mergeAt, hfind]
  rw [Merged.result_eq_ok_iff, Json.eraseField, hmerge _ _ _ rfl] at h
  have herror := congrArg Merged.error h
  have htarget := congrArg Merged.target h
  simp only [Merged.map] at herror htarget
  have herased := hss.erase schema.codeProperty
  refine ⟨_, htarget.symm, ?_, ?_, ?_⟩
  · obtain ⟨hcode, -⟩ := get?_target_mergeFields herased herror schema.codeProperty
    have hchild : merged.child? (.key schema.codeProperty) =
        (Json.object ts).child? (.key schema.codeProperty) := by
      rw [← htarget]
      exact hcode (Fields.get?_erase_self hss _)
    exact Json.itemsAt_congr hchild _
  · have hchild :
      (Json.object (ss.erase schema.codeProperty)).child? (.key schema.layersProperty) =
        (Json.object ss).child? (.key schema.layersProperty) :=
      Fields.get?_erase_of_ne hschema.code_ne_layers.symm ss
    rw [← htarget, itemsAt_layersPath_mergeFields herased herror]
    exact congrArg _ (Json.itemsAt_congr hchild [])
  · obtain ⟨herror, hothers⟩ := mergeFields_others herror
    rw [Fields.only_erase schema.isOther_codeProperty] at herror hothers
    rw [Schema.others, Schema.others, hmerge _ _ _ rfl, ← htarget, Schema.others, ← hothers]
    simp [Merged.result, Merged.map, herror, Except.map]

end Merge

/-! ### All middlewares of a function -/

namespace Composer

variable {c : Composer} {function : ResourceId}

/-- The entry of a list of middlewares is the address of a resource of the family. -/
def NamesMember (c : Composer) (entry : Json) (family : Family) : Prop :=
  ∃ id, entry.resourceId? = some id ∧ c.families.get? id = some family

/-- Merge the properties of a middleware besides its code and its layers, without rules. -/
def mergeOthers (c : Composer) (sofar : Json) (middleware : Family) : Except MergeError Json :=
  (merge [] sofar (c.schema.others (middleware.qualified c.schema))).result.map Prod.fst

theorem addMiddlewares_eq_ok (hschema : c.schema.DistinctNames)
    (hqualified : ∀ id family, c.families.get? id = some family →
      ∃ fs, family.qualified c.schema = .object fs ∧ Fields.Distinct fs)
    {index : Nat} {entries : List Json} {ts : Fields Json} {composed : Json}
    {codes : List CodeIdentity}
    (h : c.addMiddlewares function index entries (.object ts) = .ok (composed, codes)) :
    ∃ middlewares : List Family,
      List.Forall₂ c.NamesMember entries middlewares ∧
      List.Forall₂ (fun middleware code =>
        middleware.code? c.schema.middlewareCodePath = some code)
        middlewares codes ∧
      composed.itemsAt c.schema.middlewaresPath =
        (Json.object ts).itemsAt c.schema.middlewaresPath ∧
      composed.itemsAt c.schema.layersPath = (Json.object ts).itemsAt c.schema.layersPath ++
        middlewares.flatMap (fun middleware =>
          (middleware.qualified c.schema).itemsAt c.schema.layersPath) ∧
      middlewares.foldlM c.mergeOthers (c.schema.others (.object ts)) =
        .ok (c.schema.others composed) := by
  induction entries generalizing index ts codes with
  | nil =>
    cases h
    exact ⟨[], .nil, .nil, rfl, (List.append_nil _).symm, rfl⟩
  | cons entry entries ih =>
    obtain ⟨id, family, code, codes', merged, changes, hid, hget, hcode, hmerge, hrest, rfl⟩ :=
      addMiddlewares_cons_eq_ok h
    obtain ⟨ss, hss, hdistinct⟩ := hqualified id family hget
    rw [hss] at hmerge
    obtain ⟨fs, rfl, hentries, hlayers, hothers⟩ := merge_middleware hschema hdistinct hmerge
    obtain ⟨middlewares, hnames, hcodes, hentries', hlayers', hothers'⟩ := ih hrest
    refine ⟨family :: middlewares, .cons ⟨id, hid, hget⟩ hnames, .cons hcode hcodes,
      hentries'.trans hentries, ?_, ?_⟩
    · rw [hlayers', hlayers, List.flatMap_cons, List.append_assoc, hss]
    · rw [List.foldlM_cons, mergeOthers, hss, hothers]
      exact hothers'

end Composer

end ModularTemplates
