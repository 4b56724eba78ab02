import Mathlib.Tactic.Lemma
import ModularTemplates.Keyword.Validation
import ModularTemplates.Proofs.DocumentOrder
import ModularTemplates.Proofs.Keyword.Answers

/-!
# Occurrences of keywords

A keyword occurs wherever an object has a property of this name. The occurrences in a document are
listed from the inside out, and those in one object by the order of its keys. Validation goes
through this list, and so does processing as long as the processors leave everything as it is.
-/

namespace ModularTemplates

/-- A keyword among the properties of an object. -/
structure Occurrence where
  node : Node
  keyword : String
  value : Json

namespace Occurrence

/-- The registered keywords among some properties of an object, in order. -/
def among (registered : String → Bool) (node : Node) (fs : Fields Json) : List Occurrence :=
  (fs.filter fun field => registered field.1).map fun field => ⟨node, field.1, field.2⟩

/-- The place of the object, and the keyword. -/
def place (o : Occurrence) : Path × String :=
  (o.node.path, o.keyword)

/-- An occurrence comes before another one if its object does, or its key in the same object. -/
def Precedes (document : Json) (a b : Occurrence) : Prop :=
  a.node.Precedes document b.node ∨
    a.node = b.node ∧ [a.keyword, b.keyword].Sublist a.node.propertyNames

end Occurrence

/-- The registered keywords among the properties of a node. -/
def Node.occurrences (registered : String → Bool) (node : Node) : List Occurrence :=
  match node.value with
  | .object fs => Occurrence.among registered node fs
  | _ => []

/-- The registered keywords in a document, from the inside out. -/
def Json.occurrences (registered : String → Bool) (document : Json) : List Occurrence :=
  (Node.postorder document).flatMap (Node.occurrences registered)

/-! ### What the list of occurrences holds -/

section List

variable {registered : String → Bool} {node : Node} {document : Json} {o : Occurrence}

lemma Occurrence.mem_among_iff {fs : Fields Json} :
    o ∈ among registered node fs ↔
      o.node = node ∧ (o.keyword, o.value) ∈ fs ∧ registered o.keyword = true := by
  obtain ⟨node', keyword, value⟩ := o
  simp only [among, List.mem_map, List.mem_filter, Prod.exists, Occurrence.mk.injEq]
  constructor
  · rintro ⟨k, v, ⟨hfield, hregistered⟩, rfl, rfl, rfl⟩
    exact ⟨rfl, hfield, hregistered⟩
  · rintro ⟨rfl, hfield, hregistered⟩
    exact ⟨keyword, value, ⟨hfield, hregistered⟩, rfl, rfl, rfl⟩

lemma Node.mem_occurrences_iff (hnode : node.value.WellFormed) :
    o ∈ node.occurrences registered ↔
    o.node = node ∧ node.value.field? o.keyword = some o.value ∧
    registered o.keyword = true := by
  obtain ⟨v, above⟩ := node
  cases v with
  | object fs =>
    have hfield : (o.keyword, o.value) ∈ fs ↔
        (Json.object fs).field? o.keyword = some o.value :=
      hnode.distinct.mem_iff
    exact Occurrence.mem_among_iff.trans (by rw [hfield])
  | _ => simp [occurrences, Json.field?, Json.asObject?]

lemma Node.pairwise_occurrences (hnode : node.value.WellFormed) :
    (node.occurrences registered).Pairwise (Occurrence.Precedes document) := by
  obtain ⟨v, above⟩ := node
  cases v with
  | object fs =>
    refine List.pairwise_iff_forall_sublist.mpr fun {a b} hsublist => ?_
    have hmem : ∀ o ∈ [a, b], o.node = ⟨.object fs, above⟩ := fun o ho =>
      ((mem_occurrences_iff hnode).mp (hsublist.subset ho)).1
    have ha := hmem a (by simp)
    have hb := hmem b (by simp)
    refine .inr ⟨ha.trans hb.symm, ?_⟩
    have hkeys :
        ((occurrences registered ⟨.object fs, above⟩).map Occurrence.keyword).Sublist
        (Fields.keys fs) := by
      simp only [occurrences, Occurrence.among, List.map_map]
      exact List.filter_sublist.map Prod.fst
    rw [ha]
    exact (hsublist.map Occurrence.keyword).trans hkeys
  | _ => exact List.Pairwise.nil

/-- The occurrences are those of the document's own objects. -/
lemma Json.mem_occurrences_iff (hdocument : document.WellFormed) :
    o ∈ document.occurrences registered ↔
    (Node.root document).navigate o.node.path = some o.node ∧
      o.node.value.field? o.keyword = some o.value ∧ registered o.keyword = true := by
  have hvalue : ∀ node, (Node.root document).navigate node.path = some node →
      node.value.WellFormed :=
    fun node h => hdocument.lookup (Node.lookup_path h)
  rw [occurrences, List.mem_flatMap]
  constructor
  · rintro ⟨node, hnode, ho⟩
    have hnavigate := (Node.mem_postorder_iff_navigate hdocument).mp hnode
    obtain ⟨rfl, ho⟩ := (Node.mem_occurrences_iff (hvalue node hnavigate)).mp ho
    exact ⟨hnavigate, ho⟩
  · rintro ⟨hnavigate, ho⟩
    exact ⟨o.node, (Node.mem_postorder_iff_navigate hdocument).mpr hnavigate,
      (Node.mem_occurrences_iff (hvalue o.node hnavigate)).mpr ⟨rfl, ho⟩⟩

lemma Json.pairwise_occurrences (hdocument : document.WellFormed) :
    (document.occurrences registered).Pairwise (Occurrence.Precedes document) := by
  have hvalue : ∀ node ∈ Node.postorder document, node.value.WellFormed := fun node hnode =>
    hdocument.lookup (Node.lookup_path ((Node.mem_postorder_iff_navigate hdocument).mp hnode))
  refine List.pairwise_flatMap.mpr
    ⟨fun node hnode => Node.pairwise_occurrences (hvalue node hnode), ?_⟩
  refine (Node.pairwise_postorder hdocument).imp_of_mem
    fun {n m} hn hm hprecedes a ha b hb => .inl ?_
  rw [((Node.mem_occurrences_iff (hvalue n hn)).mp ha).1,
    ((Node.mem_occurrences_iff (hvalue m hm)).mp hb).1]
  exact hprecedes

end List

/-! ### Validation -/

namespace Validators

/-- The complaints about one occurrence of a keyword. -/
def complaints (vs : Validators) (o : Occurrence) : List LocatedError :=
  match vs.get? o.keyword with
  | some validator => (validator o.keyword o.node o.value).map (LocatedError.mk o.node o.keyword)
  | none => []

variable {vs : Validators}

lemma own_eq (node : Node) (fs : Fields Json) :
    vs.own node fs = (Occurrence.among (Fields.has vs) node fs).flatMap vs.complaints := by
  induction fs with
  | nil => rfl
  | cons field fs ih =>
    rw [own, List.flatMap_cons, Occurrence.among, List.filter_cons]
    cases hget : Fields.get? vs field.1 with
    | some validator =>
      rw [if_pos (by simp [Fields.has, hget]), List.map_cons, List.flatMap_cons, complaints, hget]
      exact congrArg _ ih
    | none =>
      rw [if_neg (by simp [Fields.has, hget])]
      exact ih

mutual
/-- The complaints about a value are those about the occurrences in it. -/
lemma value_eq (above : List Crumb) (v : Json) : vs.value above v =
    ((Node.postorderFrom above v).flatMap (Node.occurrences (Fields.has vs))).flatMap
      vs.complaints := by
  match v with
  | .object fs =>
    rw [value, Node.postorderFrom, List.flatMap_append, List.flatMap_append, fields_eq, own_eq,
      List.flatMap_singleton, Node.occurrences]
  | .array xs =>
    rw [value, Node.postorderFrom, List.flatMap_append, List.flatMap_append, items_eq,
      List.flatMap_singleton]
    exact (List.append_nil _).symm
  | .null | .bool _ | .number _ | .string _ => simp [value, Node.postorderFrom, Node.occurrences]

lemma fields_eq (parent : Json) (above : List Crumb) (fs : List (String × Json)) :
    vs.fields parent above fs =
    ((Node.postorderFields parent above fs).flatMap (Node.occurrences (Fields.has vs))).flatMap
      vs.complaints := by
  match fs with
  | [] => rfl
  | (k, v) :: fs =>
    rw [fields, Node.postorderFields, List.flatMap_append, List.flatMap_append, value_eq, fields_eq]

lemma items_eq (parent : Json) (above : List Crumb) (i : Nat) (xs : List Json) :
    vs.items parent above i xs =
    ((Node.postorderItems parent above i xs).flatMap (Node.occurrences (Fields.has vs))).flatMap
      vs.complaints := by
  match xs with
  | [] => rfl
  | x :: xs =>
    rw [items, Node.postorderItems, List.flatMap_append, List.flatMap_append, value_eq, items_eq]
end

lemma mem_complaints_iff {o : Occurrence} {e : LocatedError} : e ∈ vs.complaints o ↔
    e.node = o.node ∧ e.keyword = o.keyword ∧
      ∃ validator, Fields.get? vs o.keyword = some validator ∧
        e.message ∈ validator o.keyword o.node o.value := by
  obtain ⟨node, keyword, message⟩ := e
  rw [complaints]
  cases Fields.get? vs o.keyword with
  | none => simp
  | some validator =>
    simp only [List.mem_map, LocatedError.mk.injEq, Option.some.injEq, exists_eq_left']
    constructor
    · rintro ⟨m, hm, rfl, rfl, rfl⟩
      exact ⟨rfl, rfl, hm⟩
    · rintro ⟨rfl, rfl, hm⟩
      exact ⟨message, hm, rfl, rfl, rfl⟩

end Validators

/-! ### Processing -/

namespace Processors

variable {σ ε : Type} {ps : Processors ε (StateM σ)}

/-- All processors leave the objects with their keywords as they are, whatever else they do. -/
def Unchanging (ps : Processors ε (StateM σ)) : Prop :=
  ∀ name processor, Fields.get? ps name = some processor →
    ∀ node v s, ((processor name node v).run.run s).1 = .ok .unchanged

/-- The state that a processor leaves when it is asked about an occurrence of its keyword. -/
def after (ps : Processors ε (StateM σ)) (s : σ) (o : Occurrence) : σ :=
  match Fields.get? ps o.keyword with
  | some processor => ((processor o.keyword o.node o.value).run.run s).2
  | none => s

/-- The same processors, and each question put to one of them is written down: the place of the
object, and the keyword. -/
def recorded (ps : Processors ε (StateM σ)) :
    Processors ε (StateM (List (Path × String) × σ)) :=
  Fields.mapValues
    (fun processor keyword node v => ExceptT.mk fun (log, s) =>
      let (answer, s) := (processor keyword node v).run.run s
      (answer, log ++ [(node.path, keyword)], s)) ps

/-- What the keywords of an object are asked for: they answer that nothing changes, one
after the other. -/
lemma Unchanging.exists_replies (hps : ps.Unchanging) {fs gs : Fields Json} (hfs : fs.Distinct)
    (hgs : gs ⊆ fs) (node : Node) (s : σ) : ∃ replies, changesAmong replies = [] ∧
      ps.Replies node fs gs.keys s replies
        ((Occurrence.among (Fields.has ps) node gs).foldl ps.after s) := by
  induction gs generalizing s with
  | nil => exact ⟨[], rfl, .nil s⟩
  | cons field gs ih =>
    obtain ⟨k, v⟩ := field
    obtain ⟨hfield, hgs⟩ := List.cons_subset.mp hgs
    rw [Occurrence.among, List.filter_cons]
    cases hget : Fields.get? ps k with
    | none =>
      obtain ⟨replies, hchanges, hreplies⟩ := ih hgs s
      rw [if_neg (by simp [Fields.has, hget])]
      exact ⟨replies, hchanges, .plain hget hreplies⟩
    | some processor =>
      obtain ⟨replies, hchanges, hreplies⟩ := ih hgs (ps.after s ⟨node, k, v⟩)
      rw [if_pos (by simp [Fields.has, hget])]
      refine ⟨(k, .unchanged) :: replies,
        by simpa [changesAmong, Replacement.changes] using hchanges, ?_⟩
      refine .keyword hget ?_ hreplies
      rw [hfs.get?_of_mem hfield, Option.getD_some, after, hget]
      exact Prod.ext (hps k processor hget node v s) rfl

mutual
/-- A value stays as it is, and the processors are asked about the occurrences in it one
after the other. -/
lemma Unchanging.run_value (hps : ps.Unchanging) {above : List Crumb} {v : Json} (hv : v.WellFormed)
    (s : σ) :
    (settle (ps.value above v)).run.run s =
      (.ok v, ((Node.postorderFrom above v).flatMap (Node.occurrences (Fields.has ps))).foldl
        ps.after s) := by
  cases v with
  | object fs =>
    have hfields := hps.run_fields (.object fs) above
      (fun field hfield => hv.get? (hv.distinct.get?_of_mem hfield)) s
    obtain ⟨replies, hchanges, hreplies⟩ :=
      hps.exists_replies hv.distinct (List.Subset.refl fs) ⟨.object fs, above⟩
        (((Node.postorderFields (.object fs) above fs).flatMap
          (Node.occurrences (Fields.has ps))).foldl ps.after s)
    have hrun := hreplies.run_object hfields
    rw [hchanges] at hrun
    rw [Node.postorderFrom, List.flatMap_append, List.foldl_append, List.flatMap_singleton]
    exact run_settle_of_ok hrun
  | array xs =>
    have hitems := hps.run_items (.array xs) above 0 (Json.wellFormed_array_iff.mp hv) s
    rw [Node.postorderFrom, List.flatMap_append, List.foldl_append, List.flatMap_singleton]
    exact run_settle_of_ok (run_array hitems)
  | _ =>
    rw [value_of_primitive above rfl, Node.postorderFrom_of_primitive above rfl]
    rfl

lemma Unchanging.run_fields (hps : ps.Unchanging) (parent : Json) (above : List Crumb)
    {fs : List (String × Json)} (hfs : ∀ field ∈ fs, field.2.WellFormed) (s : σ) :
    (ps.fields parent above fs).run.run s = (.ok fs,
      ((Node.postorderFields parent above fs).flatMap (Node.occurrences (Fields.has ps))).foldl
        ps.after s) := by
  match fs with
  | [] =>
    rw [fields]
    rfl
  | (k, v) :: fs =>
    obtain ⟨hv, hfs⟩ := List.forall_mem_cons.mp hfs
    rw [Node.postorderFields, List.flatMap_append, List.foldl_append]
    exact run_fields_cons (hps.run_value hv s) (hps.run_fields parent above hfs _)

lemma Unchanging.run_items (hps : ps.Unchanging) (parent : Json) (above : List Crumb) (i : Nat)
    {xs : List Json} (hxs : ∀ x ∈ xs, x.WellFormed) (s : σ) :
    (ps.items parent above i xs).run.run s = (.ok xs,
      ((Node.postorderItems parent above i xs).flatMap (Node.occurrences (Fields.has ps))).foldl
        ps.after s) := by
  match xs with
  | [] =>
    rw [items]
    rfl
  | x :: xs =>
    obtain ⟨hx, hxs⟩ := List.forall_mem_cons.mp hxs
    rw [Node.postorderItems, List.flatMap_append, List.foldl_append]
    exact run_items_cons (hps.run_value hx s) (hps.run_items parent above (i + 1) hxs _)
end

lemma Unchanging.run_processKeywords (hps : ps.Unchanging) {document : Json}
    (hdocument : document.WellFormed) (s : σ) : (processKeywords ps document).run.run s =
      (.ok document, (document.occurrences (Fields.has ps)).foldl ps.after s) :=
  run_processKeywords_of_ok (hps.run_value hdocument s)

/-! ### The record of all questions -/

lemma has_recorded (name : String) : Fields.has ps.recorded name = Fields.has ps name := by
  rw [Fields.has, recorded, Fields.get?_mapValues, Option.isSome_map, Fields.has]

lemma Unchanging.recorded (hps : ps.Unchanging) : ps.recorded.Unchanging := by
  intro name processor hget node v s
  rw [Processors.recorded, Fields.get?_mapValues] at hget
  obtain ⟨plain, hplain, rfl⟩ := Option.map_eq_some_iff.mp hget
  exact hps name plain hplain node v s.2

lemma after_recorded {o : Occurrence} (ho : Fields.has ps o.keyword = true)
    (log : List (Path × String)) (s : σ) :
    ps.recorded.after (log, s) o = (log ++ [o.place], ps.after s o) := by
  obtain ⟨processor, hprocessor⟩ := Option.isSome_iff_exists.mp ho
  rw [after, after, recorded, Fields.get?_mapValues, hprocessor]
  rfl

lemma foldl_after_recorded {os : List Occurrence}
    (hos : ∀ o ∈ os, Fields.has ps o.keyword = true) (log : List (Path × String)) (s : σ) :
    os.foldl ps.recorded.after (log, s) =
      (log ++ os.map Occurrence.place, os.foldl ps.after s) := by
  induction os generalizing log s with
  | nil => simp
  | cons o os ih =>
    obtain ⟨ho, hos⟩ := List.forall_mem_cons.mp hos
    rw [List.foldl_cons, after_recorded ho, ih hos, List.map_cons, List.append_assoc,
      List.singleton_append, List.foldl_cons]

end Processors

/-- With the same keywords registered, validation and processing go through the same occurrences.
Every occurrence in the document is listed just once, in post-order, and behind those at earlier
keys of the same object. Validation gives the complaints about them in this order, each with the
object, whose path leads to it in the document. And while all processors leave everything as it is,
they are asked about them in this order. -/
theorem keywords_once_in_order (vs : Validators) {document : Json}
    (hdocument : document.WellFormed) :
    (∀ o, o ∈ document.occurrences (Fields.has vs) ↔
      (Node.root document).navigate o.node.path = some o.node ∧
        o.node.value.field? o.keyword = some o.value ∧ Fields.has vs o.keyword = true) ∧
    (document.occurrences (Fields.has vs)).Pairwise (Occurrence.Precedes document) ∧
    validateKeywords vs document = (document.occurrences (Fields.has vs)).flatMap vs.complaints ∧
    (∀ e ∈ validateKeywords vs document, ∃ v validator,
      e.path.lookup document = some e.node.value ∧
      (Node.root document).navigate e.path = some e.node ∧
      e.node.value.field? e.keyword = some v ∧ Fields.get? vs e.keyword = some validator ∧
      e.message ∈ validator e.keyword e.node v) ∧
    ∀ {σ ε : Type} (ps : Processors ε (StateM σ)), Fields.has ps = Fields.has vs →
      ps.Unchanging → ∀ s : σ,
      ∃ s', (processKeywords ps document).run.run s = (.ok document, s') ∧
        ∀ log, (processKeywords ps.recorded document).run.run (log, s) =
          (.ok document, log ++ (document.occurrences (Fields.has vs)).map Occurrence.place,
            s') := by
  have hmem := fun o => @Json.mem_occurrences_iff (Fields.has vs) document o hdocument
  have hvalidate : validateKeywords vs document =
      (document.occurrences (Fields.has vs)).flatMap vs.complaints :=
    Validators.value_eq [] document
  refine ⟨hmem, Json.pairwise_occurrences hdocument, hvalidate, ?_, ?_⟩
  · intro e he
    rw [hvalidate] at he
    obtain ⟨o, ho, he⟩ := List.mem_flatMap.mp he
    obtain ⟨hnode, hkeyword, validator, hvalidator, hmessage⟩ :=
      Validators.mem_complaints_iff.mp he
    obtain ⟨hnavigate, hfield, -⟩ := (hmem o).mp ho
    rw [← hnode] at hnavigate hfield hmessage
    rw [← hkeyword] at hfield hvalidator hmessage
    exact ⟨o.value, validator, Node.lookup_path hnavigate, hnavigate, hfield, hvalidator,
      hmessage⟩
  · intro σ ε ps hhas hps s
    refine ⟨_, hps.run_processKeywords hdocument s, fun log => ?_⟩
    have hrecorded : Fields.has ps.recorded = Fields.has ps := funext Processors.has_recorded
    rw [hps.recorded.run_processKeywords hdocument, hrecorded,
      Processors.foldl_after_recorded, hhas]
    exact fun o ho => (Json.mem_occurrences_iff hdocument).mp ho |>.2.2

/-- A keyword stands in an item beside another one, and inside of the value of a keyword. -/
theorem keywords_once_in_order_nested :
    let vs : Validators :=
      [("One", fun _ _ v => if v.shape = .object then ["first", "second"] else ["only"]),
        ("Two", fun _ _ _ => [])]
    let ps : Processors String (StateM Nat) :=
      [("One", fun _ _ _ => do modify (· + 1); return .unchanged),
        ("Two", fun _ _ _ => return .unchanged)]
    let document : Json := .object
      [("list", .array [.null, .object [("Two", .null), ("One", .object [("One", .bool true)])]]),
        ("One", .null)]
    let item : Path := [.key "list", .index 1]
    document.WellFormed ∧ Fields.has ps = Fields.has vs ∧ ps.Unchanging ∧
      (validateKeywords vs document).map (fun e => (e.path, e.message)) =
        [(item ++ [.key "One"], "only"), (item, "first"), (item, "second"), ([], "only")] ∧
      ∃ s', (processKeywords ps.recorded document).run.run ([], 0) = (.ok document,
        [(item ++ [.key "One"], "One"), (item, "Two"), (item, "One"), ([], "One")], s') := by
  intro vs ps document item
  have hdocument : document.WellFormed := by decide
  have hhas : Fields.has ps = Fields.has vs := by
    funext name
    simp only [Fields.has, Fields.get?_cons, vs, ps]
    split_ifs <;> rfl
  have hps : ps.Unchanging := by
    intro name processor hget node v s
    rw [Fields.get?_cons, Fields.get?_cons] at hget
    split_ifs at hget <;> cases hget <;> rfl
  obtain ⟨-, -, hvalidate, -, hprocess⟩ := keywords_once_in_order vs hdocument
  obtain ⟨s', -, hlog⟩ := hprocess ps hhas hps 0
  refine ⟨hdocument, hhas, hps, ?_, s', hlog []⟩
  rw [hvalidate]
  rfl

end ModularTemplates
