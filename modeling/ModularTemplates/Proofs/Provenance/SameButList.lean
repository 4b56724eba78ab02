import Mathlib.Tactic.Lemma
import ModularTemplates.Proofs.Provenance.Suppliers

/-!
# Values that are the same but for a list

Two values may hold different lists at a path of keys and be the same besides. A rule does not look
at the items of a list to decide what to do. So what is merged into such values, or into one value
from two such sources, leaves values that are the same but for the list at that path.
-/

namespace ModularTemplates

/-! ### Fields -/

namespace Fields

variable {α β : Type} {R : α → α → Prop} {key other : String} {fs gs : Fields α} {v w : α}

/-- The same fields in the same order, with related values under a key. -/
inductive SameBut (R : α → α → Prop) (key : String) : Fields α → Fields α → Prop where
  | nil : SameBut R key [] []
  | here {v w : α} {fs gs : Fields α} (h : R v w) (rest : SameBut R key fs gs) :
      SameBut R key ((key, v) :: fs) ((key, w) :: gs)
  | other {k : String} {v : α} {fs gs : Fields α} (hk : k ≠ key) (rest : SameBut R key fs gs) :
      SameBut R key ((k, v) :: fs) ((k, v) :: gs)

namespace SameBut

lemma refl (hR : ∀ v, R v v) (fs : Fields α) : SameBut R key fs fs := by
  induction fs with
  | nil => exact .nil
  | cons field fs ih =>
    obtain ⟨k, v⟩ := field
    by_cases hk : k = key
    · subst hk
      exact .here (hR v) ih
    · exact .other hk ih

lemma keys_eq (h : SameBut R key fs gs) : gs.keys = fs.keys := by
  induction h with
  | nil => rfl
  | here _ _ ih | other _ _ ih => rw [keys_cons, keys_cons, ih]

lemma get?_of_ne (h : SameBut R key fs gs) (hother : other ≠ key) :
    gs.get? other = fs.get? other := by
  induction h with
  | nil => rfl
  | here _ _ ih => rw [get?_cons_of_ne hother.symm, get?_cons_of_ne hother.symm, ih]
  | other _ _ ih => rw [get?_cons, get?_cons, ih]

lemma get? (h : SameBut R key fs gs) : Option.Rel R (fs.get? key) (gs.get? key) := by
  induction h with
  | nil => exact .none
  | here h _ _ =>
    rw [get?_cons_self, get?_cons_self]
    exact .some h
  | other hk _ ih => rwa [get?_cons_of_ne hk, get?_cons_of_ne hk]

lemma set_here (h : SameBut R key fs gs) (hvw : R v w) :
    SameBut R key (fs.set key v) (gs.set key w) := by
  induction h with
  | nil => exact .here hvw .nil
  | here _ rest _ =>
    rw [Fields.set, Fields.set, if_pos rfl, if_pos rfl]
    exact .here hvw rest
  | other hk _ ih =>
    rw [Fields.set, Fields.set, if_neg hk, if_neg hk]
    exact .other hk ih

lemma set_other (h : SameBut R key fs gs) (hother : other ≠ key) (v : α) :
    SameBut R key (fs.set other v) (gs.set other v) := by
  induction h with
  | nil => exact .other hother .nil
  | here h _ ih =>
    rw [Fields.set, Fields.set, if_neg hother.symm, if_neg hother.symm]
    exact .here h ih
  | other hk rest ih =>
    rw [Fields.set, Fields.set]
    split_ifs
    · exact .other hk rest
    · exact .other hk ih

lemma set (hR : ∀ v, R v v) (h : SameBut R key fs gs) (k : String) (v : α) :
    SameBut R key (fs.set k v) (gs.set k v) := by
  by_cases hk : k = key
  · subst hk
    exact h.set_here (hR v)
  · exact h.set_other hk v

lemma has_eq (h : SameBut R key fs gs) (k : String) : gs.has k = fs.has k := by
  have hmem : k ∈ gs.keys ↔ k ∈ fs.keys := by rw [h.keys_eq]
  rw [mem_keys_iff, mem_keys_iff, ← Option.isSome_iff_exists,
    ← Option.isSome_iff_exists] at hmem
  exact Bool.eq_iff_iff.mpr hmem

lemma update {new new' : Fields α} (h : SameBut R key fs gs) (hnew : SameBut R key new new') :
    SameBut R key (fs.update new) (gs.update new') := by
  induction hnew generalizing fs gs with
  | nil => exact h
  | here hvw _ ih => exact ih (h.set_here hvw)
  | other hk _ ih => exact ih (h.set_other hk _)

lemma mapValues {S : β → β → Prop} {f : α → β} (h : SameBut R key fs gs)
    (hf : ∀ v w, R v w → S (f v) (f w)) :
    SameBut S key (Fields.mapValues f fs) (Fields.mapValues f gs) := by
  induction h with
  | nil => exact .nil
  | here h _ ih => exact .here (hf _ _ h) ih
  | other hk _ ih => exact .other hk ih

lemma eq_of_not_mem (h : SameBut R key fs gs) (hkey : key ∉ fs.keys) : gs = fs := by
  induction h with
  | nil => rfl
  | here _ _ _ => exact absurd List.mem_cons_self hkey
  | other _ _ ih => rw [ih fun hmem => hkey (List.mem_cons_of_mem _ hmem)]

/-- Where no key is listed twice, the fields become equal once a value is put under the key. -/
lemma set_eq (h : SameBut R key fs gs) (hfs : fs.Distinct) (v : α) :
    gs.set key v = fs.set key v := by
  induction h with
  | nil => rfl
  | here _ rest _ =>
    rw [Distinct, keys_cons, List.nodup_cons] at hfs
    rw [Fields.set, Fields.set, if_pos rfl, if_pos rfl, rest.eq_of_not_mem hfs.1]
  | other hk _ ih =>
    rw [Distinct, keys_cons, List.nodup_cons] at hfs
    rw [Fields.set, Fields.set, if_neg hk, if_neg hk, ih hfs.2]

/-- They also become equal without the key. -/
lemma erase_eq (h : SameBut R key fs gs) (hfs : fs.Distinct) : gs.erase key = fs.erase key := by
  induction h with
  | nil => rfl
  | here _ rest _ =>
    rw [Distinct, keys_cons, List.nodup_cons] at hfs
    rw [Fields.erase, Fields.erase, if_pos rfl, if_pos rfl, rest.eq_of_not_mem hfs.1]
  | other hk _ ih =>
    rw [Distinct, keys_cons, List.nodup_cons] at hfs
    rw [Fields.erase, Fields.erase, if_neg hk, if_neg hk, ih hfs.2]

end SameBut

end Fields

/-! ### Values -/

/-- The same value, but for the list at a path of keys. -/
def Json.SameButList : List String → Json → Json → Prop
  | [], v, w => w = v ∨ ∃ xs ys, v = .array xs ∧ w = .array ys
  | key :: keys, v, w => w = v ∨ ∃ fs gs, v = .object fs ∧ w = .object gs ∧
      Fields.SameBut (Json.SameButList keys) key fs gs

namespace Marked

/-- The same marked value, but for the items of the list at a path of keys. -/
def SameButList : List String → Marked → Marked → Prop
  | [], M, N => N = M ∨ ∃ m xs ys, M = .array m xs ∧ N = .array m ys
  | key :: keys, M, N => N = M ∨ ∃ m fs gs, M = .object m fs ∧ N = .object m gs ∧
      Fields.SameBut (SameButList keys) key fs gs

end Marked

lemma Json.SameButList.refl (keys : List String) (v : Json) : SameButList keys v v := by
  cases keys <;> exact .inl rfl

lemma Json.SameButList.of_fields {key : String} {keys : List String} {fs gs : List (String × Json)}
    (h : Fields.SameBut (SameButList keys) key fs gs) :
    SameButList (key :: keys) (.object fs) (.object gs) :=
  .inr ⟨fs, gs, rfl, rfl, h⟩

lemma Json.SameButList.marked {keys : List String} {v w : Json} (h : SameButList keys v w)
    (m : Mark) :
    Marked.SameButList keys (v.marked m) (w.marked m) := by
  induction keys generalizing v w with
  | nil =>
    rcases h with rfl | ⟨xs, ys, rfl, rfl⟩
    · exact .inl rfl
    · exact .inr ⟨m, _, _, rfl, rfl⟩
  | cons key keys ih =>
    rcases h with rfl | ⟨fs, gs, rfl, rfl, h⟩
    · exact .inl rfl
    · refine .inr ⟨m, _, _, rfl, rfl, ?_⟩
      rw [Json.markedFields_eq, Json.markedFields_eq]
      exact h.mapValues fun _ _ => ih

namespace Json.SameButList

variable {keys : List String} {key other : String} {v w : Json}

/-- Two values with a list below a key are two objects, or one value that is no object. -/
lemma objects_or_eq (h : SameButList (key :: keys) v w) :
    (∃ fs gs, v = .object fs ∧ w = .object gs ∧
      Fields.SameBut (SameButList keys) key fs gs) ∨
      (w = v ∧ ∀ fs, v ≠ .object fs) := by
  rcases h with rfl | h
  · cases w with
    | object fs => exact .inl ⟨fs, fs, rfl, rfl, .refl (.refl keys) fs⟩
    | _ => exact .inr ⟨rfl, by simp⟩
  · exact .inl h

lemma rel_refl (keys : List String) (v : Option Json) : Option.Rel (SameButList keys) v v := by
  cases v with
  | none => exact .none
  | some v => exact .some (.refl keys v)

lemma field? (h : SameButList (key :: keys) v w) :
    Option.Rel (SameButList keys) (v.field? key) (w.field? key) := by
  rcases h with rfl | ⟨fs, gs, rfl, rfl, h⟩
  · exact rel_refl keys _
  · exact h.get?

lemma field?_of_ne (h : SameButList (key :: keys) v w) (hother : other ≠ key) :
    w.field? other = v.field? other := by
  rcases h with rfl | ⟨fs, gs, rfl, rfl, h⟩
  · rfl
  · exact h.get?_of_ne hother

end Json.SameButList

namespace Marked.SameButList

variable {keys : List String} {key : String} {M N : Marked} {s s' : Json} {contributor : ResourceId}

lemma refl (keys : List String) (M : Marked) : SameButList keys M M := by
  cases keys <;> exact .inl rfl

lemma mark_eq (h : SameButList keys M N) : N.mark = M.mark := by
  cases keys with
  | nil =>
    rcases h with rfl | ⟨m, xs, ys, rfl, rfl⟩
    · rfl
    · rfl
  | cons key keys =>
    rcases h with rfl | ⟨m, fs, gs, rfl, rfl, -⟩
    · rfl
    · rfl

lemma erase (h : SameButList keys M N) : Json.SameButList keys M.erase N.erase := by
  induction keys generalizing M N with
  | nil =>
    rcases h with rfl | ⟨m, xs, ys, rfl, rfl⟩
    · exact .inl rfl
    · exact .inr ⟨_, _, rfl, rfl⟩
  | cons key keys ih =>
    rcases h with rfl | ⟨m, fs, gs, rfl, rfl, h⟩
    · exact .inl rfl
    · refine .inr ⟨_, _, rfl, rfl, ?_⟩
      rw [eraseFields_eq, eraseFields_eq]
      exact h.mapValues fun _ _ => ih

lemma reauthor (h : SameButList keys M N) (author : ResourceId) :
    SameButList keys (M.reauthor author) (N.reauthor author) := by
  induction keys generalizing M N with
  | nil =>
    rcases h with rfl | ⟨m, xs, ys, rfl, rfl⟩
    · exact .inl rfl
    · exact .inr ⟨_, _, _, rfl, rfl⟩
  | cons key keys ih =>
    rcases h with rfl | ⟨m, fs, gs, rfl, rfl, h⟩
    · exact .inl rfl
    · refine .inr ⟨_, _, _, rfl, rfl, ?_⟩
      rw [reauthorFields_eq, reauthorFields_eq]
      exact h.mapValues fun _ _ => ih

/-! ### Parts -/

lemma exists_object {m : Mark} {fs : Fields Marked}
    (h : SameButList (key :: keys) (.object m fs) N) :
    ∃ gs, N = .object m gs ∧ Fields.SameBut (SameButList keys) key fs gs := by
  rcases h with rfl | ⟨_, _, gs, heq, rfl, h⟩
  · exact ⟨fs, rfl, .refl (refl keys) fs⟩
  · cases heq
    exact ⟨gs, rfl, h⟩

lemma childD_key (h : SameButList (key :: keys) M N) :
    SameButList keys (M.childD (.key key)) (N.childD (.key key)) := by
  rcases h with rfl | ⟨m, fs, gs, rfl, rfl, h⟩
  · exact refl keys _
  · have hget := h.get?
    rw [childD, childD, child?, child?]
    generalize Fields.get? fs key = a, Fields.get? gs key = b at hget
    cases hget with
    | none => exact refl keys _
    | some hpart => exact hpart

lemma childD_of_ne (h : SameButList (key :: keys) M N) {seg : Segment} (hseg : seg ≠ .key key) :
    N.childD seg = M.childD seg := by
  rcases h with rfl | ⟨m, fs, gs, rfl, rfl, h⟩
  · rfl
  · cases seg with
    | index i => rfl
    | key k =>
      rw [childD, childD, child?, child?, h.get?_of_ne fun hk => hseg (hk ▸ rfl)]
      rfl

/-! ### Merging -/

section Merging

variable {rules : Rules} {path : Path}

lemma not_descend_scalar (m : Mark) (v : Scalar) (s : Json) :
    rules.descend path (Marked.scalar m v).erase s = false := by
  obtain ⟨v, hv⟩ := v
  cases v with
  | array | object => simp [Json.shape] at hv
  | _ => rfl

lemma combineFields {ts us : Fields Marked} {ss ss' : List (String × Json)}
    (hparts : ∀ {M N s s'}, SameButList keys M N → Json.SameButList keys s s' →
      SameButList keys (Marked.combine contributor M s) (Marked.combine contributor N s'))
    (h : Fields.SameBut (SameButList keys) key ts us)
    (hs : Fields.SameBut (Json.SameButList keys) key ss ss') :
    Fields.SameBut (SameButList keys) key (Marked.combineFields contributor ts ss)
      (Marked.combineFields contributor us ss') := by
  induction hs generalizing ts us with
  | nil => exact h
  | here hv _ ih =>
    refine ih (h.set_here ?_)
    have hget := h.get?
    generalize Fields.get? ts key = a, Fields.get? us key = b at hget
    cases hget with
    | none => exact hv.marked _
    | some hpart => exact hparts hpart hv
  | other hk _ ih =>
    refine ih ?_
    rw [h.get?_of_ne hk]
    exact h.set_other hk _

lemma combine (h : SameButList keys M N) (hs : Json.SameButList keys s s') :
    SameButList keys (Marked.combine contributor M s) (Marked.combine contributor N s') := by
  induction keys generalizing M N s s' with
  | nil =>
    rcases h with rfl | ⟨m, xs, ys, rfl, rfl⟩
    · rcases hs with rfl | ⟨ss, ss', rfl, rfl⟩
      · exact refl [] _
      · cases N with
        | array m ts => exact .inr ⟨m, _, _, rfl, rfl⟩
        | _ => exact .inr ⟨.by contributor, _, _, rfl, rfl⟩
    · rcases hs with rfl | ⟨ss, ss', rfl, rfl⟩
      · cases s' with
        | array ss => exact .inr ⟨m, _, _, rfl, rfl⟩
        | _ => exact .inl rfl
      · exact .inr ⟨m, _, _, rfl, rfl⟩
  | cons key keys ih =>
    rcases h with rfl | ⟨m, ts, us, rfl, rfl, h⟩
    · rcases hs with rfl | ⟨ss, ss', rfl, rfl, hs⟩
      · exact refl _ _
      · cases N with
        | object m ts =>
          exact .inr ⟨m, _, _, rfl, rfl, combineFields ih (.refl (refl keys) ts) hs⟩
        | _ => exact (Json.SameButList.of_fields hs).marked _
    · rcases hs with rfl | ⟨ss, ss', rfl, rfl, hs⟩
      · cases s' with
        | object ss =>
          exact .inr ⟨m, _, _, rfl, rfl, combineFields ih h (.refl (.refl keys) ss)⟩
        | _ => exact .inl rfl
      · exact .inr ⟨m, _, _, rfl, rfl, combineFields ih h hs⟩

/-- Items of whatever contributors can be added to the list. -/
lemma addItems_list (operation : Operation) (a b : ResourceId) (h : SameButList [] M N)
    (ss ss' : List Json) :
    SameButList [] (Marked.addItems operation a M (.array ss))
      (Marked.addItems operation b N (.array ss')) := by
  rcases h with rfl | ⟨m, xs, ys, rfl, rfl⟩
  · unfold Marked.addItems
    cases N.itemsOrNull? with
    | none => exact refl [] N
    | some xs => exact .inr ⟨N.mark, _, _, rfl, rfl⟩
  · exact .inr ⟨m, _, _, rfl, rfl⟩

lemma addItems (operation : Operation) (h : SameButList keys M N)
    (hs : Json.SameButList keys s s') :
    SameButList keys (Marked.addItems operation contributor M s)
      (Marked.addItems operation contributor N s') := by
  have hkept : ∀ {M : Marked} {s : Json}, (∀ ss, s ≠ .array ss) →
      Marked.addItems operation contributor M s = M := by
    intro M s hs
    unfold Marked.addItems
    split
    · exact absurd rfl (hs _)
    · rfl
  cases keys with
  | nil =>
    rcases hs with rfl | ⟨ss, ss', rfl, rfl⟩
    · cases s' with
      | array ss => exact h.addItems_list operation _ _ ss ss
      | _ =>
        rw [hkept (by simp), hkept (by simp)]
        exact h
    · exact h.addItems_list operation _ _ ss ss'
  | cons key keys =>
    -- items are not added to an object, and an object is not added
    rcases h with rfl | ⟨m, ts, us, rfl, rfl, h⟩
    · rcases hs with rfl | ⟨ss, ss', rfl, rfl, hs⟩
      · exact refl _ _
      · rw [hkept (by simp), hkept (by simp)]
        exact refl _ _
    · exact .inr ⟨m, ts, us, rfl, rfl, h⟩

lemma applyOperation (operation : Operation) (h : SameButList keys M N)
    (hs : Json.SameButList keys s s') :
    SameButList keys (Marked.applyOperation operation contributor M s)
      (Marked.applyOperation operation contributor N s') := by
  cases operation with
  | replace => exact hs.marked _
  | combine => exact (h.combine hs).reauthor contributor
  | append | prepend => exact h.addItems _ hs

lemma mergeFields {ss ss' : List (String × Json)}
    (hparts : ∀ {path M N s s'}, SameButList keys M N → Json.SameButList keys s s' →
      SameButList keys (Marked.mergeAt rules contributor path M s)
      (Marked.mergeAt rules contributor path N s'))
    (h : SameButList (key :: keys) M N) (hs : Fields.SameBut (Json.SameButList keys) key ss ss') :
    Fields.SameBut (SameButList keys) key (Marked.mergeFields rules contributor path M ss)
      (Marked.mergeFields rules contributor path N ss') := by
  induction hs with
  | nil => exact .nil
  | here hv _ ih => exact .here (hparts h.childD_key hv) ih
  | other hk _ ih =>
    rw [Marked.mergeFields, Marked.mergeFields, h.childD_of_ne fun heq => hk (Segment.key.inj heq)]
    exact .other hk ih

lemma mergeAt_list (hfind : rules.find? path = none) (h : SameButList [] M N)
    (hs : Json.SameButList [] s s') :
    SameButList [] (Marked.mergeAt rules contributor path M s)
      (Marked.mergeAt rules contributor path N s') := by
  have harrays : ∀ m ts us ss ss', SameButList []
      (Marked.mergeAt rules contributor path (.array m ts) (.array ss))
      (Marked.mergeAt rules contributor path (.array m us) (.array ss')) := by
    intro m ts us ss ss'
    rw [Marked.mergeAt, Marked.mergeAt, hfind]
    dsimp only
    split_ifs
    · exact .inr ⟨m, _, _, rfl, rfl⟩
    · exact .inr ⟨.by contributor, _, _, rfl, rfl⟩
  have hother : ∀ {T t}, rules.descend path (Marked.erase T) t = false →
      Marked.mergeAt rules contributor path T t = t.marked (.by contributor) :=
    fun h => mergeAt_of_not_descend hfind h
  rcases h with rfl | ⟨m, xs, ys, rfl, rfl⟩
  · rcases hs with rfl | ⟨ss, ss', rfl, rfl⟩
    · exact refl [] _
    · cases N with
      | array m ts => exact harrays m ts ts ss ss'
      | scalar m v =>
        rw [hother (not_descend_scalar m v _), hother (not_descend_scalar m v _)]
        exact .inr ⟨.by contributor, _, _, rfl, rfl⟩
      | object m fs =>
        rw [hother rfl, hother rfl]
        exact .inr ⟨.by contributor, _, _, rfl, rfl⟩
  · rcases hs with rfl | ⟨ss, ss', rfl, rfl⟩
    · cases s' with
      | array ss => exact harrays m xs ys ss ss
      | _ =>
        rw [hother rfl, hother rfl]
        exact refl [] _
    · exact harrays m xs ys ss ss'

lemma mergeAt_objects (hfind : rules.find? path = none)
    (hparts : ∀ {path M N s s'}, SameButList keys M N → Json.SameButList keys s s' →
      SameButList keys (Marked.mergeAt rules contributor path M s)
      (Marked.mergeAt rules contributor path N s'))
    (m : Mark) {ts us : Fields Marked} {ss ss' : List (String × Json)}
    (h : Fields.SameBut (SameButList keys) key ts us)
    (hs : Fields.SameBut (Json.SameButList keys) key ss ss') :
    SameButList (key :: keys) (Marked.mergeAt rules contributor path (.object m ts) (.object ss))
      (Marked.mergeAt rules contributor path (.object m us) (.object ss')) := by
  rw [Marked.mergeAt, Marked.mergeAt, hfind]
  exact .inr ⟨m, _, _, rfl, rfl,
    h.update (mergeFields hparts (.inr ⟨m, ts, us, rfl, rfl, h⟩) hs)⟩

/-- Merging one source or two that are the same but for the list, by one contributor. -/
theorem mergeAt (h : SameButList keys M N) (hs : Json.SameButList keys s s') :
    SameButList keys (Marked.mergeAt rules contributor path M s)
      (Marked.mergeAt rules contributor path N s') := by
  induction keys generalizing path M N s s' with
  | nil =>
    cases hfind : rules.find? path with
    | some operation =>
      rw [mergeAt_of_rule hfind, mergeAt_of_rule hfind]
      exact h.applyOperation operation hs
    | none => exact mergeAt_list hfind h hs
  | cons key keys ih =>
    cases hfind : rules.find? path with
    | some operation =>
      rw [mergeAt_of_rule hfind, mergeAt_of_rule hfind]
      exact h.applyOperation operation hs
    | none =>
      -- two objects are merged key by key, anything else is replaced
      have hother : ∀ {T t}, rules.descend path (Marked.erase T) t = false →
          Marked.mergeAt rules contributor path T t = t.marked (.by contributor) :=
        fun h => mergeAt_of_not_descend hfind h
      rcases h with rfl | ⟨m, ts, us, rfl, rfl, h⟩
      · rcases hs with rfl | ⟨ss, ss', rfl, rfl, hs⟩
        · exact refl _ _
        · cases N with
          | object m ts => exact mergeAt_objects hfind ih m (.refl (refl keys) ts) hs
          | array m ts =>
            rw [hother rfl, hother rfl]
            exact (Json.SameButList.of_fields hs).marked _
          | scalar m v =>
            rw [hother (not_descend_scalar m v _), hother (not_descend_scalar m v _)]
            exact (Json.SameButList.of_fields hs).marked _
      · rcases hs with rfl | ⟨ss, ss', rfl, rfl, hs⟩
        · cases s' with
          | object ss => exact mergeAt_objects hfind ih m h (.refl (.refl keys) ss)
          | _ =>
            rw [hother rfl, hother rfl]
            exact refl _ _
        · exact mergeAt_objects hfind ih m h hs

end Merging

end Marked.SameButList

/-! ### Outside the list -/

/-- A path does not lead to one of the items of the list at a path of keys, or into it. -/
def Path.Outside (keys : List String) (p : Path) : Prop :=
  ∀ i rest, p ≠ Path.ofKeys keys ++ .index i :: rest

lemma Path.Outside.tail {key : String} {keys : List String} {p : Path}
    (h : Path.Outside (key :: keys) (.key key :: p)) : Path.Outside keys p := by
  rintro i rest rfl
  exact h i rest rfl

/-- Who wrote the last place on a path that there is. -/
def Marked.authorAt : Path → Marked → ResourceId
  | [], M => M.mark.author
  | seg :: p, M => authorAt p (M.childD seg)

/-- A provenance that keeps up with a marked value knows the author of every path, also of one that
leads nowhere. -/
lemma Provenance.Tracks.owner_source {P : Provenance} {M : Marked} (h : P.Tracks M) (p : Path) :
    (source p P).owner = M.authorAt p := by
  induction p generalizing P M with
  | nil => exact h.owner_eq
  | cons seg p ih =>
    rw [owner_source_cons, Marked.authorAt]
    exact ih (h.childD seg)

lemma Marked.SameButList.authorAt_eq {keys : List String} {M N : Marked} (h : SameButList keys M N)
    {p : Path} (hp : p.Outside keys) : N.authorAt p = M.authorAt p := by
  induction keys generalizing p M N with
  | nil =>
    rcases h with rfl | ⟨m, xs, ys, rfl, rfl⟩
    · rfl
    · cases p with
      | nil => rfl
      | cons seg p =>
        cases seg with
        | key k => rfl
        | index i => exact absurd rfl (hp i p)
  | cons key keys ih =>
    cases p with
    | nil => exact congrArg Mark.author h.mark_eq
    | cons seg p =>
      by_cases hseg : seg = .key key
      · subst hseg
        exact ih h.childD_key hp.tail
      · rw [authorAt, authorAt, h.childD_of_ne hseg]

/-- What does not look into objects and arrays finds the same outside the list. -/
lemma Json.SameButList.map_lookup {α : Type} {f : Json → α}
    (harray : ∀ xs ys, f (.array xs) = f (.array ys))
    (hobject : ∀ fs gs, f (.object fs) = f (.object gs)) {keys : List String} {v w : Json}
    (h : SameButList keys v w) {p : Path} (hp : p.Outside keys) :
    (p.lookup w).map f = (p.lookup v).map f := by
  induction keys generalizing p v w with
  | nil =>
    rcases h with rfl | ⟨xs, ys, rfl, rfl⟩
    · rfl
    · cases p with
      | nil => exact congrArg some (harray ys xs)
      | cons seg p =>
        cases seg with
        | key k => rfl
        | index i => exact absurd rfl (hp i p)
  | cons key keys ih =>
    rcases h with rfl | ⟨fs, gs, rfl, rfl, h⟩
    · rfl
    · cases p with
      | nil => exact congrArg some (hobject gs fs)
      | cons seg p =>
        cases seg with
        | index i => rfl
        | key k =>
          rw [Path.lookup_cons, Path.lookup_cons, child?, child?]
          by_cases hk : k = key
          · subst hk
            have hget := h.get?
            generalize Fields.get? fs k = a, Fields.get? gs k = b at hget
            cases hget with
            | none => rfl
            | some hpart => exact ih hpart hp.tail
          · rw [h.get?_of_ne hk]

/-! ### Merging with provenance -/

/-- Two values are the same but for a list, and so are the owners that their provenances name. -/
def Provenance.SameButList (keys : List String) (x y : Json × Provenance) : Prop :=
  ∃ M N, M.erase = x.1 ∧ N.erase = y.1 ∧ x.2.Tracks M ∧ y.2.Tracks N ∧
    Marked.SameButList keys M N

lemma Provenance.SameButList.leaf {keys : List String} {v w : Json} (h : Json.SameButList keys v w)
    (owner : ResourceId) : SameButList keys (v, .leaf owner) (w, .leaf owner) :=
  ⟨_, _, Json.erase_marked _ v, Json.erase_marked _ w, .leaf_marked (.by owner) v,
    .leaf_marked (.by owner) w, h.marked _⟩

end ModularTemplates
