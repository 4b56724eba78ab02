import Mathlib.Tactic.Lemma
import ModularTemplates.Proofs.Function.Lists
import ModularTemplates.Proofs.Function.Steps

/-!
# Contributions of extensions

A contribution is merged into properties that are not yet qualified, and the owners of what is there
stay as they are. So it does not matter that qualification comes later: in qualified properties the
contribution is one more item at the end of its list.
-/

namespace ModularTemplates

/-! ### Merging one field into an object -/

/-- A value inside objects of one field each. -/
def Json.nest (keys : List String) (v : Json) : Json :=
  keys.foldr Json.single v

section Nest

variable {rules : Rules} {path : Path} {v : Json} {fs : Fields Json} {key : String}
  {keys : List String} {ys : List Json}

@[simp] lemma Json.nest_nil (v : Json) : nest [] v = v := rfl

@[simp] lemma Json.nest_cons (key : String) (keys : List String) (v : Json) :
    nest (key :: keys) v = single key (nest keys v) := rfl

lemma Json.wellFormed_single (key : String) {w : Json} (hw : w.WellFormed) :
    (single key w).WellFormed := by
  simp [single, WellFormed, WellFormedFields, Fields.Distinct, hw]

lemma Json.wellFormed_nest (keys : List String) {w : Json} (hw : w.WellFormed) :
    (nest keys w).WellFormed := by
  induction keys with
  | nil => exact hw
  | cons key keys ih => exact wellFormed_single key ih

lemma mergeAt_single (hfind : rules.find? path = none) (fs : Fields Json) (key : String)
    (s : Json) :
    mergeAt rules path (.object fs) (.single key s) =
      (mergeAt rules (path ++ [.key key]) ((fs.get? key).getD .null) s).map fun w =>
        .object (fs.set key w) := by
  rw [Json.single, mergeAt, hfind]
  simp only [mergeFields, Merged.next, Merged.map]
  cases (mergeAt rules (path ++ [.key key]) ((fs.get? key).getD .null) s).error <;> simp

/-- Items inside objects of one field each come after the items that are there. -/
lemma mergeAt_nest (hopen : Path.lookup (keys.map .key) v = some (.object fs))
    (hnone : ∀ p, p <+: keys → rules.find? (path ++ p.map .key) = none)
    (happend : rules.find? (path ++ (keys.map .key ++ [.key key])) = some .append)
    (h : (mergeAt rules path v (.nest keys (.single key (.array ys)))).error = none) :
    ∃ xs, ((fs.get? key).getD .null).itemsOrNull? = some xs ∧
      (mergeAt rules path v (.nest keys (.single key (.array ys)))).changes =
        [⟨path ++ (keys.map .key ++ [.key key]), .append ys.length⟩] ∧
      Path.lookup (keys.map .key ++ [.key key])
        (mergeAt rules path v (.nest keys (.single key (.array ys)))).target =
          some (.array (xs ++ ys)) := by
  have hfind := hnone [] List.nil_prefix
  rw [List.map_nil, List.append_nil] at hfind
  -- an object on the way is entered under its only key; a rule is met at the last key
  induction keys generalizing path v with
  | nil =>
    cases hopen
    rw [List.map_nil, List.nil_append] at happend
    rw [Json.nest_nil, mergeAt_single hfind, mergeAt_of_rule happend, Merged.map] at h ⊢
    obtain ⟨xs, _, hxs, heq⟩ := addItems_error h
    cases heq
    refine ⟨xs, hxs, ?_⟩
    simp [applyOperation, addItems, hxs, Merged.changed, Json.child?]
  | cons k keys ih =>
    obtain ⟨u, hu, hbelow⟩ := Option.bind_eq_some_iff.mp hopen
    cases v with
    | object gs =>
      replace hu : Fields.get? gs k = some u := hu
      have hbelowNone : ∀ p, p <+: keys →
          rules.find? (path ++ [.key k] ++ p.map .key) = none := by
        intro p hp
        simpa using hnone (k :: p) (List.cons_prefix_cons.mpr ⟨rfl, hp⟩)
      rw [Json.nest_cons, mergeAt_single hfind, hu, Option.getD_some, Merged.map] at h ⊢
      obtain ⟨xs, hxs, hchanges, hlookup⟩ := ih hbelow hbelowNone (by simpa using happend) h
        (by simpa using hbelowNone [] List.nil_prefix)
      refine ⟨xs, hxs, hchanges.trans (by simp), ?_⟩
      simpa [Json.child?] using hlookup
    | _ => cases hu

lemma sameBut_mergeAt_single (hfind : rules.find? path = none) (fs : Fields Json) (s : Json) :
    Json.SameBut key (.object fs) (mergeAt rules path (.object fs) (.single key s)).target := by
  rw [mergeAt_single hfind]
  exact .inr ⟨fs, _, rfl, rfl⟩

end Nest

/-! ### One contribution -/

section Inject

variable {schema : Schema} {function contributor : ResourceId} {p next : Properties}
  {keys : List String} {key : String} {ys : List Json} {fs : Fields Json}

/-- Items that a contributor appends to a list leave the owners of what was there. -/
lemma Properties.inject_nest (keys : List String) (key : String)
    (hopen : Path.lookup (keys.map .key) p.value = some (.object fs))
    (hnone : ∀ q, q <+: keys → schema.injectionRules.find? (q.map .key) = none)
    (happend : schema.injectionRules.find? (keys.map .key ++ [.key key]) = some .append)
    (h : p.inject schema function (contributor, .nest keys (.single key (.array ys))) = .ok next) :
    Path.lookup (keys.map .key ++ [.key key]) next.value =
        some (.array (p.value.itemsAt (keys.map .key ++ [.key key]) ++ ys)) ∧
      p.provenance.Agree p.value next.provenance := by
  obtain ⟨changes, hmerge, hprovenance⟩ := inject_eq_ok h
  rw [Merged.result_eq_ok_iff] at hmerge
  obtain ⟨xs, hxs, hchanges, hlookup⟩ :=
    @mergeAt_nest _ [] _ _ _ _ _ hopen (by simpa using hnone)
      (by simpa using happend) (congrArg Merged.error hmerge)
  rw [merge] at hmerge
  simp only [hmerge, List.nil_append] at hchanges hlookup
  have hitems : p.value.itemsAt (keys.map .key ++ [.key key]) = xs := by
    rw [Json.itemsAt, Path.lookup_append, hopen, Option.bind_some]
    refine Json.items_of_itemsOrNull? ?_
    cases hget : fs.get? key <;> simpa [Json.child?, hget] using hxs
  refine ⟨by rw [hlookup, hitems], ?_⟩
  rw [hprovenance, hchanges, Provenance.enterAll_cons, Provenance.enterAll_nil, Provenance.enter]
  refine .alter_keys hopen (fun P w hw => ?_) _
  rw [hw, Option.getD_some] at hxs
  simpa [hlookup, Json.asArray?] using Provenance.Agree.appended hxs contributor ys.length

lemma Properties.sameBut_inject {value : Json} (hopen : p.value = .object fs)
    (hnone : schema.injectionRules.find? [] = none)
    (h : p.inject schema function (contributor, .single key value) = .ok next) :
    Json.SameBut key p.value next.value := by
  obtain ⟨changes, hmerge, -⟩ := inject_eq_ok h
  rw [Merged.result_eq_ok_iff] at hmerge
  have htarget : (mergeAt schema.injectionRules [] p.value (.single key value)).target =
      next.value :=
    congrArg Merged.target hmerge
  rw [← htarget, hopen]
  exact sameBut_mergeAt_single hnone fs value

lemma Properties.wellFormed_inject {injection : Injection} (hp : p.value.WellFormed)
    (hinjection : injection.2.WellFormed) (h : p.inject schema function injection = .ok next) :
    next.value.WellFormed := by
  obtain ⟨changes, hmerge, -⟩ := inject_eq_ok h
  exact wellFormed_of_merge hp hinjection hmerge

end Inject

end ModularTemplates
