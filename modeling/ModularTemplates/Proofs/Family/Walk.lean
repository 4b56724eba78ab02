import Mathlib.Tactic.Lemma
import ModularTemplates.Family.Link
import ModularTemplates.Proofs.Family.Chain

/-!
# Walking over the links

Following the links from a resource ends at one that extends nothing. The walk back from there takes
the generations of the root one after the other, and each of them whole.
-/

namespace ModularTemplates

namespace Links

variable {links : Links} {documents : Documents} {root : ResourceId}

/-! ### Following the links -/

section Following

variable {passed : List ResourceId} {id target : ResourceId}

lemma rootFrom_of_mem (h : id ∈ passed) : links.rootFrom passed id = .error (.cycle passed) := by
  rw [rootFrom, dif_pos h]

lemma rootFrom_of_none (hfresh : id ∉ passed) (h : links.target? id = none) :
    links.rootFrom passed id = .ok id := by
  rw [rootFrom, dif_neg hfresh]
  split <;> simp_all

lemma rootFrom_of_some (hfresh : id ∉ passed) (h : links.target? id = some target) :
    links.rootFrom passed id = links.rootFrom (passed ++ [id]) target := by
  rw [rootFrom, dif_neg hfresh]
  split <;> simp_all

lemma target?_of_rootFrom (h : links.rootFrom passed id = .ok root) :
    links.target? root = none := by
  induction passed, id using rootFrom.induct links with
  | case1 passed id hmem =>
    rw [rootFrom_of_mem hmem] at h
    cases h
  | case2 passed id hfresh htarget =>
    rw [rootFrom_of_none hfresh htarget] at h
    cases h
    exact htarget
  | case3 passed id hfresh target htarget ih =>
    rw [rootFrom_of_some hfresh htarget] at h
    exact ih h

/-- Only the targets matter for where the links lead to. -/
lemma rootFrom_congr {links' : Links} (h : ∀ id, links'.target? id = links.target? id) :
    links'.rootFrom passed id = links.rootFrom passed id := by
  induction passed, id using rootFrom.induct links with
  | case1 passed id hmem => rw [rootFrom_of_mem hmem, rootFrom_of_mem hmem]
  | case2 passed id hfresh htarget =>
    rw [rootFrom_of_none hfresh htarget, rootFrom_of_none hfresh ((h id).trans htarget)]
  | case3 passed id hfresh target htarget ih =>
    rw [rootFrom_of_some hfresh htarget, rootFrom_of_some hfresh ((h id).trans htarget), ih]

end Following

/-! ### Members -/

section Visiting

variable {seen queue : List ResourceId} {id : ResourceId} {link : Link}

@[simp] lemma visit_nil : links.visit seen [] = [] := by
  rw [visit]

lemma visit_of_mem (h : id ∈ seen) : links.visit seen (id :: queue) = links.visit seen queue := by
  rw [visit, dif_pos h]

lemma visit_of_none (hfresh : id ∉ seen) (h : links.find? id = none) :
    links.visit seen (id :: queue) = [.error (.malformedResource id)] := by
  rw [visit, dif_neg hfresh]
  split <;> simp_all

lemma visit_of_some (hfresh : id ∉ seen) (h : links.find? id = some link) :
    links.visit seen (id :: queue) =
      .ok link :: links.visit (seen ++ [id]) (queue ++ (links.extenders id).map Link.id) := by
  rw [visit, dif_neg hfresh]
  split <;> simp_all

@[simp] lemma collect_nil : links.collect seen [] = [] := by
  simp [collect]

lemma collect_of_mem (h : id ∈ seen) :
    links.collect seen (id :: queue) = links.collect seen queue := by
  rw [collect, visit_of_mem h, collect]

lemma collect_of_none (hfresh : id ∉ seen) (h : links.find? id = none) :
    links.collect seen (id :: queue) = [] := by
  rw [collect, visit_of_none hfresh h]
  rfl

lemma collect_of_some (hfresh : id ∉ seen) (h : links.find? id = some link) :
    links.collect seen (id :: queue) =
      link :: links.collect (seen ++ [id]) (queue ++ (links.extenders id).map Link.id) := by
  rw [collect, visit_of_some hfresh h]
  rfl

/-- What is collected are links of the resources that they are found for. -/
lemma find?_of_mem_collect (h : link ∈ links.collect seen queue) :
    links.find? link.id = some link := by
  induction seen, queue using visit.induct links with
  | case1 seen => simp at h
  | case2 seen id queue hmem ih =>
    rw [collect_of_mem hmem] at h
    exact ih h
  | case3 seen id queue hmem hfind =>
    simp [collect_of_none hmem hfind] at h
  | case4 seen id queue hmem found hfind ih =>
    rw [collect_of_some hmem hfind] at h
    rcases List.mem_cons.mp h with rfl | h
    · rwa [show link.id = id by simpa using List.find?_some hfind]
    · exact ih h

/-- What extends a resource is linked. -/
lemma exists_find?_of_mem_extenders {extender : ResourceId}
    (h : extender ∈ (links.extenders id).map Link.id) :
    ∃ link, links.find? extender = some link := by
  obtain ⟨link, hlink, rfl⟩ := List.mem_map.mp h
  refine Option.isSome_iff_exists.mp (List.find?_isSome.mpr ⟨link, ?_, beq_self_eq_true _⟩)
  exact List.mem_of_mem_filter hlink

/-- Only what extends something joins the queue, so nothing is missing later that is not missing at
first. -/
lemma exists_find?_of_mem_append (id : ResourceId)
    (h : ∀ id ∈ queue, ∃ link, links.find? id = some link) :
    ∀ other ∈ queue ++ (links.extenders id).map Link.id,
      ∃ link, links.find? other = some link := by
  intro other hother
  rcases List.mem_append.mp hother with hother | hother
  · exact h other hother
  · exact exists_find?_of_mem_extenders hother

lemma visit_eq_map_collect (h : ∀ id ∈ queue, ∃ link, links.find? id = some link) :
    links.visit seen queue = (links.collect seen queue).map .ok := by
  induction seen, queue using visit.induct links with
  | case1 seen => simp
  | case2 seen id queue hmem ih =>
    rw [visit_of_mem hmem, collect_of_mem hmem, ih (List.forall_mem_cons.mp h).2]
  | case3 seen id queue hmem hfind =>
    obtain ⟨link, hlink⟩ := h id List.mem_cons_self
    simp [hfind] at hlink
  | case4 seen id queue hmem link hfind ih =>
    rw [visit_of_some hmem hfind, collect_of_some hmem hfind, List.map_cons,
      ih (exists_find?_of_mem_append id (List.forall_mem_cons.mp h).2)]

/-- The walk back from a resource comes to all that it leads to. -/
theorem walk_eq_map_members (links : Links) (root : ResourceId) :
    links.walk root = (links.members root).map .ok :=
  visit_eq_map_collect fun _ => exists_find?_of_mem_extenders

end Visiting

/-- Members are linked resources. -/
lemma exists_resource_of_mem_members (hdocuments : documents.WellFormed)
    (hlinks : ofDocuments documents = .ok links) {link : Link} (h : link ∈ links.members root) :
    ∃ body, documents.resource? link.id = some body ∧ link = Link.ofResource link.id body := by
  have hfind := find?_of_mem_collect h
  rw [find?_of_ofDocuments hdocuments hlinks, Option.map_eq_some_iff] at hfind
  obtain ⟨body, hbody, heq⟩ := hfind
  exact ⟨body, hbody, heq.symm⟩

/-- New resources at the front of the queue are taken in their order, and their extenders join the
queue in that order too. -/
lemma map_id_collect_append {seen todo queue : List ResourceId} (hnodup : todo.Nodup)
    (hfresh : ∀ id ∈ todo, id ∉ seen)
    (hfound : ∀ id ∈ todo, ∃ link, links.find? id = some link) :
    (links.collect seen (todo ++ queue)).map Link.id =
      todo ++ (links.collect (seen ++ todo)
        (queue ++ todo.flatMap fun id => (links.extenders id).map Link.id)).map Link.id := by
  induction todo generalizing seen queue with
  | nil => simp
  | cons id todo ih =>
    rw [List.nodup_cons] at hnodup
    obtain ⟨link, hlink⟩ := hfound id List.mem_cons_self
    have hid : link.id = id := by simpa using List.find?_some hlink
    have hrest : ∀ other ∈ todo, other ∉ seen ++ [id] := by
      intro other hother
      rw [List.mem_append, List.mem_singleton, not_or]
      refine ⟨hfresh other (List.mem_cons_of_mem id hother), ?_⟩
      rintro rfl
      exact hnodup.1 hother
    rw [List.cons_append, collect_of_some (hfresh id List.mem_cons_self) hlink, List.map_cons,
      hid, List.append_assoc, ih hnodup.2 hrest fun other hother =>
        hfound other (List.mem_cons_of_mem id hother)]
    simp

/-- The walk from a root takes its generations one after the other. -/
lemma cons_map_id_members (hdocuments : documents.WellFormed)
    (h : ofDocuments documents = .ok links) (hroot : documents.extended? root = none)
    (hmem : root ∈ documents.ids) (n : Nat) :
    root :: (links.members root).map Link.id = documents.generations root (n + 1) ++
      (links.collect (documents.generations root (n + 1))
        (documents.generation root (n + 1))).map Link.id := by
  have hchildren : (fun id => (links.extenders id).map Link.id) = documents.extenders :=
    funext (extenders_of_ofDocuments hdocuments h)
  induction n with
  | zero =>
    simp [Documents.generations, Documents.generation, members,
      extenders_of_ofDocuments hdocuments h]
  | succ n ih =>
    have hnodup := Documents.nodup_generations hdocuments hroot (n + 2)
    rw [Documents.generations_succ, List.nodup_append'] at hnodup
    have hfound : ∀ id ∈ documents.generation root (n + 1), ∃ link,
        links.find? id = some link := by
      intro id hid
      have hsubset := Documents.generations_subset_ids hdocuments hmem (n + 2)
      rw [Documents.generations_succ] at hsubset
      obtain ⟨body, hbody⟩ := (Documents.mem_ids_iff hdocuments).mp
        (hsubset (List.mem_append_right _ hid))
      exact ⟨_, by rw [find?_of_ofDocuments hdocuments h, hbody, Option.map_some]⟩
    have hstep := @map_id_collect_append links _ _ [] hnodup.2.1
      (fun id hid hseen => hnodup.2.2 hseen hid) hfound
    rw [List.append_nil, List.nil_append, hchildren] at hstep
    rw [ih, hstep, ← List.append_assoc, ← Documents.generations_succ]
    rfl

/-- A root and its members are all generations. -/
theorem exists_cons_map_id_members (hdocuments : documents.WellFormed)
    (h : ofDocuments documents = .ok links) (hroot : documents.extended? root = none)
    (hmem : root ∈ documents.ids) :
    ∃ n, root :: (links.members root).map Link.id = documents.generations root n ∧
      ∀ m id, documents.Chain root m id → m < n := by
  obtain ⟨n, hn⟩ := Documents.exists_generation_eq_nil hdocuments hroot hmem
  refine ⟨n + 1, ?_, ?_⟩
  · rw [cons_map_id_members hdocuments h hroot hmem n, hn, collect_nil, List.map_nil,
      List.append_nil]
  · intro m id hchain
    by_contra hle
    -- every later generation is empty too
    have hempty : ∀ k, documents.generation root (n + 1 + k) = [] := by
      intro k
      induction k with
      | zero => exact hn
      | succ k ih => rw [← Nat.add_assoc, Documents.generation, ih, List.flatMap_nil]
    have hid := (Documents.mem_generation_iff hdocuments).mpr hchain
    rw [← Nat.add_sub_cancel' (Nat.le_of_not_lt hle), hempty] at hid
    exact List.not_mem_nil hid

end Links

end ModularTemplates
