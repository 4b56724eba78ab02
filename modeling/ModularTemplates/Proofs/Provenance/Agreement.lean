import Mathlib.Tactic.Lemma
import ModularTemplates.Proofs.Provenance.Tracks

/-!
# Provenances that agree

Two provenances agree on a value if they name the same owner for every place in it. Adding items to
an array leaves the owners of everything that was there before.
-/

namespace ModularTemplates

namespace Provenance

variable {v : Json} {P P' : Provenance} {fs : Fields Json} {key : String} {p : Path}

/-- Both provenances name the same owner for every place in the value. -/
def Agree (v : Json) (P P' : Provenance) : Prop :=
  ∀ p, p.lookup v ≠ none → (source p P').owner = (source p P).owner

lemma Agree.refl (v : Json) (P : Provenance) : Agree v P P :=
  fun _ _ => rfl

/-- It is enough to agree on the whole and on the parts. -/
lemma Agree.of_children (howner : P'.owner = P.owner)
    (h : ∀ seg w, v.child? seg = some w → Agree w (P.childD seg) (P'.childD seg)) :
    Agree v P P' := by
  intro p hp
  cases p with
  | nil => exact howner
  | cons seg p =>
    rw [Path.lookup_cons] at hp
    cases hchild : v.child? seg with
    | none => simp [hchild] at hp
    | some w =>
      rw [hchild, Option.bind_some] at hp
      rw [owner_source_cons, owner_source_cons]
      exact h seg w hchild p hp

lemma childD_alter_key (f : Provenance → Provenance) (key : String) (p : Path) (P : Provenance)
    (other : String) :
    (alter f (.key key :: p) P).childD (.key other) =
      if other = key then alter f p (P.childD (.key key)) else P.childD (.key other) := by
  simp only [childD, child?_key, alter, fieldsBelow_fields, Fields.get?_set]
  split_ifs
  · rfl
  · rfl

/-- A change below a key is one for the value under the key only. -/
lemma Agree.alter_key {f : Provenance → Provenance}
    (h : ∀ w, fs.get? key = some w →
      Agree w (P.childD (.key key)) (alter f p (P.childD (.key key)))) :
    Agree (.object fs) P (alter f (.key key :: p) P) := by
  refine .of_children rfl fun seg w hw => ?_
  cases seg with
  | index i => cases hw
  | key other =>
    rw [childD_alter_key]
    split_ifs with hother
    · subst hother
      exact h w hw
    · exact .refl w _

/-- A change inside objects is one for the value under the last key only. -/
lemma Agree.alter_keys {keys : List String} {f : Provenance → Provenance}
    (hopen : Path.lookup (keys.map .key) v = some (.object fs))
    (h : ∀ P w, fs.get? key = some w → Agree w P (f P)) (P : Provenance) :
    Agree v P (alter f (keys.map .key ++ [.key key]) P) := by
  induction keys generalizing v P with
  | nil =>
    cases hopen
    exact .alter_key fun w hw => h _ w hw
  | cons k keys ih =>
    obtain ⟨u, hu, hbelow⟩ := Option.bind_eq_some_iff.mp hopen
    cases v with
    | object gs =>
      refine .alter_key fun w hw => ?_
      cases hu.symm.trans hw
      exact ih hbelow _
    | _ => cases hu

/-- Items that are added at the end change the owner of no item before them. -/
lemma Agree.appended {xs : List Json} (h : v.itemsOrNull? = some xs) (contributor : ResourceId)
    (count : Nat) :
    Agree v P (items P.owner
      (Provenance.appended contributor count (xs.length + count) P.itemsBelow)) := by
  refine .of_children rfl fun seg w hw => ?_
  cases v with
  | array ys =>
    cases h
    cases seg with
    | key k => cases hw
    | index i =>
      obtain ⟨hi, -⟩ := List.getElem?_eq_some_iff.mp hw
      have hchild : (items P.owner (Provenance.appended contributor count (xs.length + count)
          P.itemsBelow)).childD (.index i) = P.childD (.index i) := by
        rw [childD, childD, child?_index, child?_index, itemsBelow_items, join_getElem?_appended,
          if_pos (.inl hi)]
        rfl
      rw [hchild]
      exact .refl w _
  | null => cases hw
  | _ => cases h

end Provenance

end ModularTemplates
