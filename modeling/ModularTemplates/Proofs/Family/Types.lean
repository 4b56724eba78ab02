import Mathlib.Tactic.Lemma
import ModularTemplates.Proofs.Family.Acceptance
import ModularTemplates.Proofs.Family.Rounds
import ModularTemplates.Proofs.Same

/-!
# Types within a family

Every member that declares a type is compared with the root, and with nothing but the root.
So the types of a family agree if its root declares one. If it does not, its members may
declare what they like.
-/

namespace ModularTemplates

namespace Documents

/-- The type that a resource declares. -/
def type? (documents : Documents) (id : ResourceId) : Option Json :=
  (documents.resource? id).bind fun body => body.field? "Type"

variable {documents : Documents} {id : ResourceId} {type : Json}

lemma wellFormed_of_type? (hdocuments : documents.WellFormed) (h : documents.type? id = some type) :
    type.WellFormed := by
  obtain ⟨body, hbody, htype⟩ := Option.bind_eq_some_iff.mp h
  exact (wellFormed_of_mem hdocuments ((resource?_eq_some_iff hdocuments).mp hbody)).field? htype

end Documents

namespace Family

lemma same_of_checkType {root member : Link} {type rootType : Json}
    (h : checkType root member = .ok ()) (htype : member.body.field? "Type" = some type)
    (hroot : root.body.field? "Type" = some rootType) :
    type.same rootType = true := by
  simpa [checkType, htype, hroot] using h

end Family

namespace Families

variable {documents : Documents} {families : Families} {family : Family} {id : ResourceId}
  {type rootType : Json}

/-- A member of a family declares the type of the root, if both declare one. -/
lemma same_type_of_mem (hdocuments : documents.WellFormed)
    (h : ofDocuments documents = .ok families) (hfamily : family ∈ families.families)
    (hid : id ∈ family.members) (htype : documents.type? id = some type)
    (hrootType : documents.type? family.root = some rootType) :
    type.same rootType = true := by
  obtain ⟨-, hlinks, hfound⟩ := of_ofDocuments h
  have hofRoot := ofRoot_of_mem hfound family hfamily
  rw [Family.members_of_ofRoot hofRoot] at hid
  rcases List.mem_cons.mp hid with rfl | hid
  · rw [htype] at hrootType
    cases hrootType
    exact (Documents.wellFormed_of_type? hdocuments htype).same_self
  obtain ⟨link, hlink, rfl⟩ := List.mem_map.mp hid
  obtain ⟨rootBody, hrootBody, hrootField⟩ := Option.bind_eq_some_iff.mp hrootType
  obtain ⟨body, hbody, hfield⟩ := Option.bind_eq_some_iff.mp htype
  obtain ⟨body', hbody', heq⟩ := Links.exists_resource_of_mem_members hdocuments hlinks hlink
  rw [hbody] at hbody'
  cases hbody'
  have hcheck :=
    ((Family.exists_ofRoot_iff hdocuments hlinks hrootBody).mp ⟨family, hofRoot⟩).1 link hlink
  rw [heq] at hcheck
  exact Family.same_of_checkType hcheck hfield hrootField

/-- Types agree within a family whose root declares one: all members that declare a type declare the
same. The types of other families are not compared. A mismatch is reported only for a member whose
type is not that of its root, where both declare one. -/
theorem types_agree_with_root (hdocuments : documents.WellFormed) :
    (∀ families, ofDocuments documents = .ok families → ∀ family ∈ families.families,
      documents.type? family.root ≠ none →
        ∀ a ∈ family.members, ∀ b ∈ family.members, ∀ type type',
        documents.type? a = some type → documents.type? b = some type' →
          type.same type' = true) ∧
    ∀ id text root rootText,
      ofDocuments documents = .error (.typeMismatch id text root rootText) →
      ∃ type rootType n, documents.Chain root (n + 1) id ∧ documents.extended? root = none ∧
        documents.type? id = some type ∧ documents.type? root = some rootType ∧
        type.same rootType = false ∧ text = type.typeName ∧ rootText = rootType.typeName := by
  constructor
  · intro families h family hfamily hroot a ha b hb type type' htype htype'
    obtain ⟨rootType, hrootType⟩ := Option.ne_none_iff_exists'.mp hroot
    have hwell : ∀ {id type}, documents.type? id = some type → type.WellFormed :=
      Documents.wellFormed_of_type? hdocuments
    exact (hwell htype).same_of_same (hwell htype') (hwell hrootType)
      (same_type_of_mem hdocuments h hfamily ha htype hrootType)
      (same_type_of_mem hdocuments h hfamily hb htype' hrootType)
  · intro id text root rootText h
    rcases error_of_ofDocuments h
      with h | ⟨links, before, start, after, hlinks, hids, -, h | ⟨end', hend, h⟩⟩
    · obtain ⟨id, h | h | ⟨target, h⟩⟩ := Links.error_of_ofDocuments h <;> cases h
    · obtain ⟨walk, h⟩ := Links.error_of_rootFrom h
      cases h
    rcases Family.error_of_ofRoot h
      with h | ⟨rootLink, hrootLink, member, hmember, h | ⟨cause, h⟩⟩
    · cases h
    · obtain ⟨type, rootType, htype, hrootType, hsame, h⟩ := Family.error_of_checkType h
      cases h
      obtain ⟨⟨n, hchain⟩, hextends⟩ := (Links.root_eq_ok_iff hdocuments hlinks).mp hend
      have hstart : start ∈ documents.ids :=
        hids ▸ List.mem_append_right before List.mem_cons_self
      have hmem := Links.mem_ids_of_chain hdocuments hlinks hstart hchain
      have hrootId : rootLink.id = end' := by simpa using List.find?_some hrootLink
      rw [Links.find?_of_ofDocuments hdocuments hlinks, Option.map_eq_some_iff] at hrootLink
      obtain ⟨rootBody, hrootBody, rfl⟩ := hrootLink
      obtain ⟨body, hbody, heq⟩ :=
        Links.exists_resource_of_mem_members hdocuments hlinks hmember
      rw [heq] at htype
      obtain ⟨k, hk⟩ := (Links.mem_map_id_members_iff hdocuments hlinks hextends hmem).mp
        (List.mem_map_of_mem hmember)
      refine ⟨type, rootType, k, hk, hextends, ?_, ?_, hsame, rfl, rfl⟩
      · rw [Documents.type?, hbody]
        exact htype
      · change documents.type? end' = some rootType
        rw [Documents.type?, hrootBody]
        exact hrootType
    · cases h

/-- Two members of a family of three declare the type of the root, with the keys in another order,
and the third none. -/
theorem types_agree_with_root_objects :
    let documents : Documents :=
      [("app", ⟨.object [("Resources", .object
        [("base", .object [("Type", .object [("a", .null), ("b", .bool true)])]),
          ("plain", .object [("Extend", .object [("resource", .string "base")])]),
          ("typed", .object [("Type", .object [("b", .bool true), ("a", .null)]),
            ("Extend", .object [("resource", .string "plain")])])])], none⟩)]
    let base : ResourceId := ⟨"app", "base"⟩
    let typed : ResourceId := ⟨"app", "typed"⟩
    documents.WellFormed ∧ ∃ families, ofDocuments documents = .ok families ∧
      ∃ family ∈ families.families,
      documents.type? family.root ≠ none ∧ base ∈ family.members ∧
      typed ∈ family.members ∧
      ∃ type type', documents.type? base = some type ∧ documents.type? typed = some type' ∧
        type.same type' = true := by
  intro documents base typed
  have hdocuments : documents.WellFormed := by decide
  have hresult : (ofDocuments documents).map (fun families => families.families.map fun family =>
      (family.root, family.members)) = .ok [(base, [base, ⟨"app", "plain"⟩, typed])] := by cbv
  obtain ⟨families, h, hshape⟩ := map_eq_ok_iff.mp hresult
  obtain ⟨family, hfamilies, hfamily⟩ := List.map_eq_singleton_iff.mp hshape
  obtain ⟨hroot, hmembers⟩ := Prod.mk.inj hfamily
  have hmem : family ∈ families.families := by simp [hfamilies]
  have hbase : base ∈ family.members := by simp [hmembers]
  have htyped : typed ∈ family.members := by simp [hmembers]
  have htype : documents.type? base = some (.object [("a", .null), ("b", .bool true)]) := by cbv
  have htype' : documents.type? typed = some (.object [("b", .bool true), ("a", .null)]) := by cbv
  have hne : documents.type? family.root ≠ none := by simp [hroot, htype]
  exact ⟨hdocuments, families, h, family, hmem, hne, hbase, htyped, _, _, htype, htype',
    (types_agree_with_root hdocuments).1 families h family hmem hne base hbase typed htyped _ _
      htype htype'⟩

/-- Two resources of different types extend one without a type. -/
theorem types_differ_below_untyped_root :
    let documents : Documents :=
      [("app", ⟨.object [("Resources", .object
        [("base", .object []),
          ("one", .object [("Type", .string "A"),
            ("Extend", .object [("resource", .string "base")])]),
          ("other", .object [("Type", .string "B"),
            ("Extend", .object [("resource", .string "base")])])])],
          none⟩)]
    let one : ResourceId := ⟨"app", "one"⟩
    let other : ResourceId := ⟨"app", "other"⟩
    documents.WellFormed ∧ ∃ families, ofDocuments documents = .ok families ∧
      ∃ family ∈ families.families, documents.extended? one = some family.root ∧
      documents.extended? other = some family.root ∧
      one ∈ family.members ∧ other ∈ family.members ∧ documents.type? family.root = none ∧
      ∃ type type', documents.type? one = some type ∧ documents.type? other = some type' ∧
        type.same type' = false := by
  intro documents one other
  have hresult : (ofDocuments documents).map
      (fun families => families.families.map fun family => (family.root, family.members)) =
        .ok [(⟨"app", "base"⟩, [⟨"app", "base"⟩, one, other])] := by cbv
  obtain ⟨families, h, hshape⟩ := map_eq_ok_iff.mp hresult
  obtain ⟨family, hfamilies, hfamily⟩ := List.map_eq_singleton_iff.mp hshape
  obtain ⟨hroot, hmembers⟩ := Prod.mk.inj hfamily
  refine ⟨by decide, families, h, family, by simp [hfamilies], ?_⟩
  rw [hroot, hmembers]
  exact ⟨by cbv, by cbv, by simp, by simp, by cbv, .string "A",
    .string "B", by cbv, by cbv, by cbv⟩

end Families

end ModularTemplates
