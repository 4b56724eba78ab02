import Mathlib.Tactic.Lemma
import ModularTemplates.Proofs.Keyword.Answers

/-!
# Properties returned by keywords

A keyword replacement takes the property of its keyword out of the object and sets the properties
that it returns. The replacements of an object are applied in key order, so that a property that
one of them returned under the name of a keyword behind it is taken out again, when it is the
turn of that keyword.
-/

namespace ModularTemplates

variable {σ ε : Type}

/-! ### Replacing keywords one after the other -/

/-- The fields after the keywords were replaced by the properties that were returned for
them, in order. -/
def replaceKeywords (fs : Fields Json) (returned : List (String × Fields Json)) : Fields Json :=
  returned.foldl (fun fs r => (fs.erase r.1).update r.2) fs

/-- The answers that return the properties. -/
def keywordReplies (returned : List (String × Fields Json)) : List (String × Replacement) :=
  returned.map fun r => (r.1, .keyword r.2)

variable {fs : Fields Json} {returned before after : List (String × Fields Json)} {name : String}
  {v : Json}

lemma foldl_keywordReplies (fs : Fields Json) (returned : List (String × Fields Json)) :
    (keywordReplies returned).foldl replaceKeyword fs = replaceKeywords fs returned :=
  List.foldl_map

lemma changesAmong_keywordReplies (returned : List (String × Fields Json)) :
    changesAmong (keywordReplies returned) = keywordReplies returned := by
  refine List.filter_eq_self.mpr fun reply hreply => ?_
  obtain ⟨r, -, rfl⟩ := List.mem_map.mp hreply
  rfl

lemma map_fst_keywordReplies (returned : List (String × Fields Json)) :
    (keywordReplies returned).map Prod.fst = returned.map Prod.fst := by
  simp [keywordReplies, Function.comp_def]

lemma distinct_replaceKeywords (hfs : fs.Distinct) (returned : List (String × Fields Json)) :
    (replaceKeywords fs returned).Distinct := by
  induction returned generalizing fs with
  | nil => exact hfs
  | cons r returned ih => exact ih ((hfs.erase r.1).update r.2)

/-- A name that nothing is returned under keeps its value, unless it is the name of a keyword. -/
lemma get?_replaceKeywords (hfs : fs.Distinct) (hreturned : ∀ r ∈ returned, name ∉ r.2.keys) :
    (replaceKeywords fs returned).get? name =
      if name ∈ returned.map Prod.fst then none else fs.get? name := by
  induction returned generalizing fs with
  | nil => rfl
  | cons r returned ih =>
    obtain ⟨hr, hreturned⟩ := List.forall_mem_cons.mp hreturned
    have hstep : ((fs.erase r.1).update r.2).get? name =
        if name = r.1 then none else fs.get? name := by
      rw [Fields.get?_update_of_not_mem hr]
      split_ifs with hname
      · rw [hname, Fields.get?_erase_self hfs]
      · exact Fields.get?_erase_of_ne hname fs
    have hrest := ih ((hfs.erase r.1).update r.2) hreturned
    rw [hstep] at hrest
    rw [replaceKeywords, List.foldl_cons, ← replaceKeywords, hrest]
    simp only [List.map_cons, List.mem_cons]
    by_cases hname : name = r.1
    · simp [hname]
    · simp only [hname, if_false, false_or]

/-- What is returned under a name for one keyword, and for none behind it, is there in the end
unless the name is the one of a keyword behind. -/
lemma get?_replaceKeywords_append (hfs : fs.Distinct) {keyword : String} {properties : Fields Json}
    (hproperties : properties.Distinct) (hget : properties.get? name = some v)
    (hafter : ∀ later ∈ after, name ∉ later.2.keys) :
    (replaceKeywords fs (before ++ (keyword, properties) :: after)).get? name =
      if name ∈ after.map Prod.fst then none else some v := by
  have hbefore := distinct_replaceKeywords hfs before
  rw [replaceKeywords, List.foldl_append, List.foldl_cons, ← replaceKeywords, ← replaceKeywords,
    get?_replaceKeywords ((hbefore.erase keyword).update properties) hafter,
    Fields.get?_update_of_get? hproperties hget]

namespace Processors

variable {ps : Processors ε (StateM σ)} {above : List Crumb} {gs : Fields Json} {s s₁ s₂ : σ}

/-! ### Objects whose keywords are replaced -/

lemma keys_of_run_fields {parent : Json} {fs gs : List (String × Json)}
    (h : (ps.fields parent above fs).run.run s = (.ok gs, s₁)) :
    Fields.keys gs = Fields.keys fs := by
  induction fs generalizing gs s with
  | nil =>
    rw [fields] at h
    cases h
    rfl
  | cons field fs ih =>
    obtain ⟨k, v⟩ := field
    rw [fields] at h
    obtain ⟨w, s', -, h⟩ := exists_of_run_bind h
    obtain ⟨rest, s'', hrest, h⟩ := exists_of_run_bind h
    cases h
    rw [Fields.keys_cons, Fields.keys_cons, ih hrest]

/-- The keywords among the names are those that reply. -/
lemma Replies.mem_map_fst_iff {node : Node} {processed : Fields Json} {names : List String}
    {replies : List (String × Replacement)} (h : ps.Replies node processed names s replies s₁) :
    name ∈ replies.map Prod.fst ↔ name ∈ names ∧ (Fields.get? ps name).isSome := by
  induction h with
  | nil s => simp
  | @plain other names s s' replies hname rest ih =>
    rw [ih, List.mem_cons]
    constructor
    · exact fun h => ⟨.inr h.1, h.2⟩
    · rintro ⟨rfl | hmem, hsome⟩
      · rw [hname] at hsome
        cases hsome
      · exact ⟨hmem, hsome⟩
  | @keyword other names processor s s₁ s₂ answer replies hname hanswer rest ih =>
    rw [List.map_cons, List.mem_cons, ih, List.mem_cons]
    constructor
    · rintro (rfl | ⟨hmem, hsome⟩)
      · exact ⟨.inl rfl, by rw [hname]; rfl⟩
      · exact ⟨.inr hmem, hsome⟩
    · rintro ⟨rfl | hmem, hsome⟩
      · exact .inl rfl
      · exact .inr ⟨hmem, hsome⟩

lemma run_replaceKeywords {fs : Fields Json}
    (hfields : (ps.fields (.object fs) above fs).run.run s = (.ok gs, s₁))
    (hreplies : ps.Replies ⟨.object fs, above⟩ gs fs.keys s₁ (keywordReplies returned) s₂) :
    (settle (ps.value above (.object fs))).run.run s =
      (.ok (.object (replaceKeywords gs returned)), s₂) := by
  have hrun := hreplies.run_object hfields
  rw [changesAmong_keywordReplies, applyAnswers_of_not_isObject, foldl_keywordReplies] at hrun
  · exact run_settle_of_ok hrun
  · intro reply hreply
    obtain ⟨r, -, rfl⟩ := List.mem_map.mp hreply
    rfl

/-- An object, at any place, whose keywords all answer keyword replacements becomes an object again.
A property that one of them returns, and none behind it, is in the object if and only if no keyword
behind it has its name. Processed properties that are no keywords are kept if nothing is returned
under their names, and keywords are gone if nothing is returned under theirs. -/
theorem returned_property_kept_iff {fs : Fields Json} (hfs : fs.Distinct)
    (hfields : (ps.fields (.object fs) above fs).run.run s = (.ok gs, s₁))
    (hreplies : ps.Replies ⟨.object fs, above⟩ gs fs.keys s₁ (keywordReplies returned) s₂)
    (hreturned : ∀ r ∈ returned, r.2.Distinct) :
    ∃ result : Fields Json,
      (settle (ps.value above (.object fs))).run.run s = (.ok (.object result), s₂) ∧
      (∀ before keyword properties after name v,
        returned = before ++ (keyword, properties) :: after →
        Fields.get? properties name = some v → (∀ later ∈ after, name ∉ later.2.keys) →
        (result.get? name = some v ↔ name ∉ after.map Prod.fst)) ∧
      (∀ name v, Fields.get? ps name = none → (∀ r ∈ returned, name ∉ r.2.keys) →
        gs.get? name = some v → result.get? name = some v) ∧
      (∀ name ∈ fs.keys, (Fields.get? ps name).isSome →
        (∀ r ∈ returned, name ∉ r.2.keys) → result.get? name = none) := by
  have hgs : gs.Distinct := by
    rw [Fields.Distinct, keys_of_run_fields hfields]
    exact hfs
  have hkeywords : ∀ name, name ∈ returned.map Prod.fst ↔
      name ∈ fs.keys ∧ (Fields.get? ps name).isSome := by
    intro name
    rw [← map_fst_keywordReplies, hreplies.mem_map_fst_iff]
  refine ⟨replaceKeywords gs returned, run_replaceKeywords hfields hreplies, ?_, ?_, ?_⟩
  · rintro before keyword properties after name v rfl hget hafter
    rw [get?_replaceKeywords_append hgs (hreturned (keyword, properties) (by simp)) hget hafter]
    split_ifs with hname
    · simp [hname]
    · simp [hname]
  · intro name v hplain hnot hget
    rw [get?_replaceKeywords hgs hnot, if_neg, hget]
    rw [hkeywords, hplain]
    simp
  · intro name hname hkeyword hnot
    rw [get?_replaceKeywords hgs hnot, if_pos ((hkeywords name).mpr ⟨hname, hkeyword⟩)]

/-- Two keywords return different properties, and both are kept next to the property that
is no keyword. -/
theorem returned_property_kept_beside_name :
    let ps : Processors String (StateM Unit) :=
      [("One", fun _ _ v => return .keyword [("first", v), ("same", v)]),
        ("Two", fun _ _ v => return .keyword [("second", v), ("same", v)])]
    let object : Fields Json := [("One", .bool true), ("name", .string "n"), ("Two", .bool false)]
    ∃ result : Fields Json,
      (settle (ps.value [] (.object object))).run.run () = (.ok (.object result), ()) ∧
      result.get? "first" = some (.bool true) ∧ result.get? "same" = some (.bool false) ∧
      result.get? "name" = some (.string "n") ∧ result.get? "One" = none := by
  intro ps object
  have hfields : (ps.fields (.object object) [] object).run.run () = (.ok object, ()) := rfl
  have hreplies : ps.Replies ⟨.object object, []⟩ object object.keys () (keywordReplies
      [("One", [("first", .bool true), ("same", .bool true)]),
        ("Two", [("second", .bool false), ("same", .bool false)])]) () :=
    .keyword rfl rfl (.plain rfl (.keyword rfl rfl (.nil ())))
  obtain ⟨result, hrun, hreturned, hkept, hgone⟩ :=
    returned_property_kept_iff (by decide) hfields hreplies (by decide)
  refine ⟨result, hrun, ?_, ?_, ?_, ?_⟩
  · exact (hreturned [] "One" _ _ "first" _ rfl rfl (by decide)).mpr (by decide)
  · exact (hreturned [_] "Two" _ [] "same" _ rfl rfl (by decide)).mpr (by decide)
  · exact hkept "name" _ rfl (by decide) rfl
  · exact hgone "One" (by decide) rfl (by decide)

/-- A property that one keyword returns under the name of the keyword behind it is lost, although
that keyword returns nothing. -/
theorem returned_property_lost :
    let ps : Processors String (StateM Unit) :=
      [("A", fun _ _ _ => return .keyword [("B", .string "x")]),
        ("B", fun _ _ _ => return .keyword [])]
    let object : Fields Json := [("A", .bool true), ("B", .bool true)]
    ps.Replies ⟨.object object, []⟩ object object.keys ()
      (keywordReplies [("A", [("B", .string "x")]), ("B", [])])
        () ∧
      (processKeywords ps (.object object)).run.run () = (.ok (.object []), ()) := by
  intro ps object
  exact ⟨.keyword rfl rfl (.keyword rfl rfl (.nil ())), rfl⟩

end Processors

end ModularTemplates
