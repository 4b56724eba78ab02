import Mathlib.Tactic.Lemma
import ModularTemplates.Proofs.Merge.Outcome
import ModularTemplates.Proofs.Provenance.Marked

/-!
# Merging into marked values

The reference for provenance. A contributor merges a source into a marked value: what it puts in
place, it has written, items that it adds to an array are its own, and a combined value is
attributed to it as a whole. Everything else keeps its marks, wherever it moves. Without the marks
this is the ordinary merge.
-/

namespace ModularTemplates

namespace Marked

/-! ### Combining -/

mutual
/-- Objects key by key, arrays index by index, anything else is put in place by the contributor. -/
def combine (contributor : ResourceId) : (target : Marked) → (source : Json) → Marked
  | .object m ts, .object ss => .object m (combineFields contributor ts ss)
  | .array m ts, .array ss => .array m (combineItems contributor ts ss)
  | _, s => s.marked (.by contributor)

/-- Source fields one by one; new keys go to the end. -/
def combineFields (contributor : ResourceId) (ts : Fields Marked) :
    (source : List (String × Json)) → Fields Marked
  | [] => ts
  | (k, s) :: ss =>
    combineFields contributor (ts.set k (match ts.get? k with
      | some t => combine contributor t s
      | none => s.marked (.by contributor))) ss

/-- Items in pairs; the longer list keeps its tail. -/
def combineItems (contributor : ResourceId) :
    (target : List Marked) → (source : List Json) → List Marked
  | ts, [] => ts
  | [], s :: ss => Json.markedItems (.by contributor) (s :: ss)
  | t :: ts, s :: ss => combine contributor t s :: combineItems contributor ts ss
end

/-! ### Merging under rules -/

/-- The items that can be added to; null counts as no items. -/
def itemsOrNull? : Marked → Option (List Marked)
  | .array _ xs => some xs
  | .scalar _ ⟨.null, _⟩ => some []
  | _ => none

/-- Add the items of a source behind or before those of the target. -/
def addItems (operation : Operation) (contributor : ResourceId) (target : Marked) (source : Json) :
    Marked :=
  match target.itemsOrNull?, source with
  | some ts, .array ss =>
    let added := Json.markedItems (.by contributor) ss
    .array target.mark (if operation = .prepend then added ++ ts else ts ++ added)
  | _, _ => target

/-- Apply an operation to the target as a whole. -/
def applyOperation (operation : Operation) (contributor : ResourceId) (target : Marked)
    (source : Json) : Marked :=
  match operation with
  | .replace => source.marked (.by contributor)
  | .combine => (combine contributor target source).reauthor contributor
  | .append | .prepend => addItems operation contributor target source

mutual
/-- Merge at a path, by the rule for the path or, without one, by the shape of the values. -/
def mergeAt (rules : Rules) (contributor : ResourceId) (path : Path) (target : Marked)
    (source : Json) : Marked :=
  match rules.find? path with
  | some operation => applyOperation operation contributor target source
  | none =>
    match target, source with
    | .object m ts, .object ss =>
      .object m (Fields.update ts (mergeFields rules contributor path (.object m ts) ss))
    | .array m ts, .array ss =>
      if rules.reachBelow path then
        .array m (mergeItems rules contributor path (.array m ts) 0 ss ++ ts.drop ss.length)
      else (Json.array ss).marked (.by contributor)
    | _, s => s.marked (.by contributor)

/-- The source fields, each merged into the part of the target under its key. -/
def mergeFields (rules : Rules) (contributor : ResourceId) (path : Path) (target : Marked) :
    (source : List (String × Json)) → List (String × Marked)
  | [] => []
  | (k, s) :: ss =>
    (k, mergeAt rules contributor (path ++ [.key k]) (target.childD (.key k)) s) ::
      mergeFields rules contributor path target ss

/-- The source items from an index on, each merged into the item of the target at its index. -/
def mergeItems (rules : Rules) (contributor : ResourceId) (path : Path) (target : Marked) :
    (index : Nat) → (source : List Json) → List Marked
  | _, [] => []
  | i, s :: ss =>
    mergeAt rules contributor (path ++ [.index i]) (target.childD (.index i)) s ::
      mergeItems rules contributor path target (i + 1) ss
end

/-- Merge the source of a contributor. -/
def merge (rules : Rules) (contributor : ResourceId) (target : Marked) (source : Json) : Marked :=
  mergeAt rules contributor [] target source

/-! ### The parts of a merged container -/

section Parts

variable {rules : Rules} {contributor : ResourceId} {path : Path} {T : Marked} {s : Json}

lemma get?_mergeFields (ss : List (String × Json)) (k : String) :
    Fields.get? (mergeFields rules contributor path T ss) k =
      (Fields.get? ss k).map
        (mergeAt rules contributor (path ++ [.key k]) (T.childD (.key k))) := by
  induction ss with
  | nil => rfl
  | cons field ss ih =>
    obtain ⟨k', s⟩ := field
    rw [mergeFields, Fields.get?_cons, Fields.get?_cons, ih]
    split_ifs with hk
    · rw [hk, Option.map_some]
    · rfl

lemma keys_mergeFields (ss : List (String × Json)) :
    Fields.keys (mergeFields rules contributor path T ss) = Fields.keys ss := by
  induction ss with
  | nil => rfl
  | cons field ss ih => rw [mergeFields, Fields.keys_cons, Fields.keys_cons, ih]

lemma length_mergeItems (i : Nat) (ss : List Json) :
    (mergeItems rules contributor path T i ss).length = ss.length := by
  induction ss generalizing i with
  | nil => rfl
  | cons s ss ih => rw [mergeItems, List.length_cons, List.length_cons, ih]

lemma getElem?_mergeItems (i j : Nat) (ss : List Json) :
    (mergeItems rules contributor path T i ss)[j]? =
      ss[j]?.map
        (mergeAt rules contributor (path ++ [.index (i + j)]) (T.childD (.index (i + j)))) := by
  induction ss generalizing i j with
  | nil => rfl
  | cons s ss ih =>
    rw [mergeItems]
    cases j with
    | zero => simp
    | succ j => simp [ih, Nat.add_assoc, Nat.add_comm 1 j]

lemma mergeAt_of_rule {operation : Operation} (h : rules.find? path = some operation) :
    mergeAt rules contributor path T s = applyOperation operation contributor T s := by
  unfold mergeAt
  rw [h]

lemma mergeAt_of_not_descend (hfind : rules.find? path = none)
    (h : rules.descend path T.erase s = false) :
    mergeAt rules contributor path T s = s.marked (.by contributor) := by
  unfold mergeAt
  rw [hfind]
  cases T <;> cases s <;> simp_all [Rules.descend, erase]

/-- An entered target is a container as the source is. -/
lemma containers_of_descend (h : rules.descend path T.erase s = true) :
    (∃ m ts ss, T = .object m ts ∧ s = .object ss) ∨
      ∃ m ts ss, T = .array m ts ∧ s = .array ss ∧ rules.reachBelow path = true := by
  cases T with
  | scalar m v =>
    obtain ⟨v, hv⟩ := v
    cases v with
    | array xs => cases hv
    | object fs => cases hv
    | _ => simp [Rules.descend, erase] at h
  | array m ts => cases s <;> simp_all [Rules.descend, erase]
  | object m ts => cases s <;> simp_all [Rules.descend, erase]

lemma mark_mergeAt (hfind : rules.find? path = none) (h : rules.descend path T.erase s = true) :
    (mergeAt rules contributor path T s).mark = T.mark := by
  obtain ⟨m, ts, ss, rfl, rfl⟩ | ⟨m, ts, ss, rfl, rfl, hbelow⟩ := containers_of_descend h
  · simp only [mergeAt, hfind]
    rfl
  · simp only [mergeAt, hfind, hbelow, if_true]
    rfl

/-- The parts of an entered target are merged one by one. -/
theorem child?_mergeAt (contributor : ResourceId) (hfind : rules.find? path = none)
    (h : rules.descend path T.erase s = true) (hnodup : s.segments.Nodup) (seg : Segment) :
    (mergeAt rules contributor path T s).child? seg =
      match s.child? seg with
      | some s' => some (mergeAt rules contributor (path ++ [seg]) (T.childD seg) s')
      | none => T.child? seg := by
  obtain ⟨m, ts, ss, rfl, rfl⟩ | ⟨m, ts, ss, rfl, rfl, hbelow⟩ := containers_of_descend h
  · simp only [mergeAt, hfind]
    cases seg with
    | index i => rfl
    | key k =>
      have hget : Fields.get? (mergeFields rules contributor path (.object m ts) ss) k = _ :=
        get?_mergeFields ss k
      simp only [child?, Json.child?]
      cases hs : Fields.get? ss k with
      | none =>
        refine Fields.get?_update_of_not_mem ?_ ts
        rwa [keys_mergeFields, ← Fields.get?_eq_none_iff]
      | some s' =>
        rw [hs, Option.map_some] at hget
        refine Fields.get?_update_of_get? ?_ hget ts
        rw [Fields.Distinct, keys_mergeFields]
        exact List.Nodup.of_map _ hnodup
  · simp only [mergeAt, hfind, hbelow, if_true]
    cases seg with
    | key k => rfl
    | index i =>
      simp only [child?, Json.child?]
      cases hs : ss[i]? with
      | none =>
        have hle := List.getElem?_eq_none_iff.mp hs
        rw [List.getElem?_append_right (by rwa [length_mergeItems]), length_mergeItems,
          List.getElem?_drop, Nat.add_sub_cancel' hle]
      | some s' =>
        obtain ⟨hlt, -⟩ := List.getElem?_eq_some_iff.mp hs
        rw [List.getElem?_append_left (by rwa [length_mergeItems]), getElem?_mergeItems, hs,
          Nat.zero_add, Option.map_some]

end Parts

/-! ### Without the marks -/

lemma eraseItems_append (xs ys : List Marked) :
    eraseItems (xs ++ ys) = eraseItems xs ++ eraseItems ys := by
  simp only [eraseItems_eq, List.map_append]

lemma itemsOrNull?_erase (T : Marked) :
    T.erase.itemsOrNull? = T.itemsOrNull?.map eraseItems := by
  cases T with
  | scalar m v =>
    obtain ⟨v, hv⟩ := v
    cases v with
    | array xs => cases hv
    | object fs => cases hv
    | _ => rfl
  | array m xs => rfl
  | object m fs => rfl

mutual
theorem erase_combine (contributor : ResourceId) (T : Marked) (s : Json) :
    (combine contributor T s).erase = ModularTemplates.combine T.erase s := by
  match T, s with
  | .object m ts, .object ss =>
    rw [combine, erase, erase, ModularTemplates.combine, erase_combineFields contributor ts ss]
  | .array m ts, .array ss =>
    rw [combine, erase, erase, ModularTemplates.combine, erase_combineItems contributor ts ss]
  | .scalar m v, s =>
    obtain ⟨v, hv⟩ := v
    cases v with
    | array xs => cases hv
    | object fs => cases hv
    | _ => simp [combine, erase, ModularTemplates.combine]
  | .object m ts, .null | .object m ts, .bool _ | .object m ts, .number _ | .object m ts, .string _
  | .object m ts, .array _ | .array m ts, .null | .array m ts, .bool _ | .array m ts, .number _
  | .array m ts, .string _ | .array m ts, .object _ =>
    simp [combine, erase, ModularTemplates.combine]

theorem erase_combineFields (contributor : ResourceId) (ts : Fields Marked)
    (ss : List (String × Json)) :
    eraseFields (combineFields contributor ts ss) =
      ModularTemplates.combineFields (eraseFields ts) ss := by
  match ss with
  | [] => rfl
  | (k, s) :: ss =>
    rw [combineFields, erase_combineFields contributor _ ss, ModularTemplates.combineFields]
    simp only [eraseFields_eq, Fields.mapValues_set, Fields.get?_mapValues]
    cases ts.get? k with
    | none => simp
    | some T => simp [erase_combine contributor T s]

theorem erase_combineItems (contributor : ResourceId) (ts : List Marked) (ss : List Json) :
    eraseItems (combineItems contributor ts ss) =
      ModularTemplates.combineItems (eraseItems ts) ss := by
  match ts, ss with
  | [], [] => rfl
  | _ :: _, [] => rfl
  | [], s :: ss =>
    rw [combineItems, Json.erase_markedItems, eraseItems, ModularTemplates.combineItems]
  | T :: ts, s :: ss =>
    rw [combineItems, eraseItems, eraseItems, ModularTemplates.combineItems,
      erase_combine contributor T s, erase_combineItems contributor ts ss]
end

lemma erase_addItems {operation : Operation} {contributor : ResourceId} {T : Marked}
    {ts ss : List Json} (h : T.erase.itemsOrNull? = some ts) :
    (addItems operation contributor T (.array ss)).erase =
      .array (if operation = .prepend then ss ++ ts else ts ++ ss) := by
  rw [itemsOrNull?_erase, Option.map_eq_some_iff] at h
  obtain ⟨Ts, hTs, rfl⟩ := h
  simp only [addItems, hTs, erase]
  split_ifs <;> simp [eraseItems_append, Json.erase_markedItems]

section Parts

variable {rules : Rules} {contributor : ResourceId} {path : Path} {T : Marked}
  {part : Segment → Json}

lemma eraseFields_mergeFields {ss : List (String × Json)}
    (h : ∀ k s, (k, s) ∈ ss →
      (mergeAt rules contributor (path ++ [.key k]) (T.childD (.key k)) s).erase = part (.key k)) :
    eraseFields (mergeFields rules contributor path T ss) =
      (Fields.keys ss).map fun k => (k, part (.key k)) := by
  induction ss with
  | nil => rfl
  | cons field ss ih =>
    rw [mergeFields, eraseFields, Fields.keys_cons, List.map_cons, h _ _ List.mem_cons_self,
      ih fun k s hs => h k s (List.mem_cons_of_mem field hs)]

lemma eraseItems_mergeItems {ss : List Json}
    (h : ∀ i s, ss[i]? = some s →
      (mergeAt rules contributor (path ++ [.index i]) (T.childD (.index i)) s).erase =
        part (.index i)) :
    eraseItems (mergeItems rules contributor path T 0 ss) =
      (List.range ss.length).map fun i => part (.index i) := by
  rw [eraseItems_eq]
  apply List.ext_getElem?
  intro i
  rw [List.getElem?_map, getElem?_mergeItems, List.getElem?_map, Nat.zero_add]
  cases hs : ss[i]? with
  | none => simp [List.getElem?_eq_none_iff.mp hs]
  | some s =>
    obtain ⟨hlt, -⟩ := List.getElem?_eq_some_iff.mp hs
    simp [h i s hs, List.getElem?_range hlt]

end Parts

/-- Without the marks the reference makes what the merge makes. -/
theorem erase_mergeAt {rules : Rules} {contributor : ResourceId} {path : Path} {T : Marked}
    {t s v : Json} {changes : List Change} (h : Merges rules path t s v changes)
    (hT : T.erase = t) :
    (mergeAt rules contributor path T s).erase = v := by
  induction h generalizing T with
  | replaced h =>
    subst hT
    rcases h with h | ⟨hfind, hdescend⟩
    · rw [mergeAt_of_rule h, applyOperation, Json.erase_marked]
    · rw [mergeAt_of_not_descend hfind hdescend, Json.erase_marked]
  | combined h =>
    subst hT
    rw [mergeAt_of_rule h, applyOperation, erase_reauthor, erase_combine]
  | appended h ht | prepended h ht =>
    subst hT
    rw [mergeAt_of_rule h, applyOperation, erase_addItems ht]
    rfl
  | @entered path t s part changes hfind hdescend hnodup parts ih =>
    subst hT
    have hparts : ∀ seg s', s.child? seg = some s' →
        (mergeAt rules contributor (path ++ [seg]) (T.childD seg) s').erase = part seg :=
      fun seg s' hs' => ih seg s' hs' (erase_childD T seg)
    obtain ⟨m, ts, ss, rfl, rfl⟩ | ⟨m, ts, ss, rfl, rfl, hbelow⟩ :=
      containers_of_descend hdescend
    · have hdistinct : Fields.Distinct ss := List.Nodup.of_map _ hnodup
      have hfields := eraseFields_mergeFields (T := .object m ts) fun k s hs =>
        hparts (.key k) s (hdistinct.get?_of_mem hs)
      simp only [mergeAt, hfind, erase, Json.withParts]
      rw [← hfields]
      simp only [eraseFields_eq, Fields.mapValues_update]
    · have hitems := eraseItems_mergeItems (T := .array m ts) fun i s hs =>
        hparts (.index i) s hs
      simp only [mergeAt, hfind, hbelow, if_true, erase, Json.withParts]
      rw [eraseItems_append, hitems]
      simp only [eraseItems_eq, List.map_drop]

end Marked

end ModularTemplates
