import Mathlib.Tactic.Lemma
import ModularTemplates.Proofs.Family.Partition

/-!
# Documents that are refused

Why documents are refused: a resource can not be linked, the walk to the root of a resource does not
end, or a member can not be merged into its root. The reasons are looked for in this order, resource
by resource, and the first one is reported.
-/

namespace ModularTemplates

namespace Links

variable {documents : Documents} {links : Links} {id : ResourceId} {passed : List ResourceId}
  {e : FamilyError}

/-- Linking fails for what a single resource is or declares. -/
lemma error_of_ofDocuments (h : ofDocuments documents = .error e) :
    ∃ id, e = .malformedResource id ∨ e = .invalidDeclaration id ∨
      ∃ target, e = .targetNotFound id target := by
  unfold ofDocuments at h
  rcases bind_eq_error_iff.mp h with hobjects | ⟨⟨⟩, -, h⟩
  · obtain ⟨⟨id, body⟩, -, h⟩ := exists_of_forM_eq_error hobjects
    dsimp only at h
    split at h <;> cases h
    exact ⟨id, .inl rfl⟩
  rcases bind_eq_error_iff.mp h with hdeclared | ⟨declared, -, hlinked⟩
  · obtain ⟨⟨id, body⟩, -, h⟩ := exists_of_mapM_eq_error hdeclared
    rcases bind_eq_error_iff.mp h with h | ⟨declaration, -, h⟩
    · unfold Declaration.of at h
      split at h
      · cases h
      · split at h <;> cases h
        exact ⟨id, .inr (.inl rfl)⟩
    · cases h
  · obtain ⟨⟨id, body, declaration⟩, -, h⟩ := exists_of_mapM_eq_error hlinked
    cases declaration with
    | none => cases h
    | some declaration =>
      simp only [linkResource] at h
      split at h <;> cases h
      exact ⟨id, .inr (.inr ⟨_, rfl⟩)⟩

/-- The walk to the root fails for a cycle. -/
lemma error_of_rootFrom (h : links.rootFrom passed id = .error e) : ∃ walk, e = .cycle walk := by
  induction passed, id using rootFrom.induct links with
  | case1 passed id hmem =>
    rw [rootFrom_of_mem hmem] at h
    cases h
    exact ⟨passed, rfl⟩
  | case2 passed id hfresh htarget =>
    rw [rootFrom_of_none hfresh htarget] at h
    cases h
  | case3 passed id hfresh target htarget ih =>
    rw [rootFrom_of_some hfresh htarget] at h
    exact ih h

end Links

namespace Family

variable {links : Links} {root member : Link} {id : ResourceId} {e : FamilyError}

lemma error_of_checkType (h : checkType root member = .error e) :
    ∃ type rootType, member.body.field? "Type" = some type ∧
      root.body.field? "Type" = some rootType ∧ type.same rootType = false ∧
      e = .typeMismatch member.id type.typeName root.id rootType.typeName := by
  unfold checkType at h
  split at h
  · rename_i type rootType htype hrootType
    split_ifs at h with hsame
    cases h
    exact ⟨type, rootType, htype, hrootType, Bool.eq_false_iff.mpr hsame, rfl⟩
  · cases h

/-- Where there is a root, its family fails for a member that is not of its type or can
not be merged. -/
lemma error_of_ofRoot (h : ofRoot links id = .error e) :
    e = .malformedResource id ∨ ∃ root, links.find? id = some root ∧
      ∃ member ∈ links.members id,
      checkType root member = .error e ∨ ∃ cause, e = .merge member.id cause := by
  rw [ofRoot_eq] at h
  split at h
  · cases h
    exact .inl rfl
  rename_i root hroot
  refine .inr ⟨root, hroot, ?_⟩
  rcases bind_eq_error_iff.mp h with h | ⟨merged, -, h⟩
  · obtain ⟨before, member, after, sofar, hsplit, -, h⟩ := exists_of_foldlM_eq_error h
    refine ⟨member, hsplit ▸ List.mem_append_right before List.mem_cons_self, ?_⟩
    rcases bind_eq_error_iff.mp h with h | ⟨⟨⟩, -, h⟩
    · exact .inl h
    · split at h <;> cases h
      exact .inr ⟨_, rfl⟩
  · cases h

end Family

namespace Families

variable {documents : Documents} {e : FamilyError}

/-- Where linking succeeds, what is reported is found at one of the resources, and those before it
lead to roots. -/
theorem error_of_ofDocuments (h : ofDocuments documents = .error e) :
    Links.ofDocuments documents = .error e ∨ ∃ links before start after,
      Links.ofDocuments documents = .ok links ∧ documents.ids = before ++ start :: after ∧
      (∀ id ∈ before, ∃ root, links.root id = .ok root) ∧
      (links.root start = .error e ∨
        ∃ root, links.root start = .ok root ∧ Family.ofRoot links root = .error e) := by
  rcases bind_eq_error_iff.mp h with h | ⟨links, hlinks, h⟩
  · exact .inl h
  rcases bind_eq_error_iff.mp h with h | ⟨found, -, h⟩
  · obtain ⟨before, link, after, found, hsplit, hbefore, h⟩ := exists_of_foldlM_eq_error h
    have hids : documents.ids = links.map Link.id := by
      rw [(Links.of_ofDocuments hlinks).1, List.map_map]
      rfl
    refine .inr ⟨links, before.map Link.id, link.id, after.map Link.id, hlinks, ?_, ?_, ?_⟩
    · rw [hids, hsplit, List.map_append, List.map_cons]
    · intro id hid
      obtain ⟨other, hother, rfl⟩ := List.mem_map.mp hid
      obtain ⟨family, -, hroot⟩ := (exists_family_of_foldlM hbefore).2 other hother
      exact ⟨family.root, hroot⟩
    · rcases bind_eq_error_iff.mp h with h | ⟨root, hroot, h⟩
      · exact .inl h
      · split_ifs at h
        · cases h
        · rcases bind_eq_error_iff.mp h with h | ⟨family, -, h⟩
          · exact .inr ⟨root, hroot, h⟩
          · cases h
  · cases h

end Families

end ModularTemplates
