import Mathlib.Tactic.Lemma
import ModularTemplates.Proofs.Family.Cycles
import ModularTemplates.Proofs.Family.Locality

/-!
# How many rounds the walks take

Both walks over the links are loops: the one to the root goes on to the next target, the one back to
the members takes the next resource from a queue. Here they are given up after a number of rounds.
The first one needs at most one round more than there are resources, whether it finds a root or a
circle. The second one takes one round for each member of a root, and one to see that the queue is
empty: nothing is queued twice.
-/

namespace ModularTemplates

namespace Links

variable {documents : Documents} {links : Links} {root id : ResourceId}
  {seen queue passed : List ResourceId}

/-! ### To the root -/

/-- The walk to the root, given up after a number of rounds. -/
def rootWithin (links : Links) :
    (rounds : Nat) → (passed : List ResourceId) → (id : ResourceId) →
    Option (Except FamilyError ResourceId)
  | 0, _, _ => none
  | rounds + 1, passed, id =>
    if id ∈ passed then some (.error (.cycle passed))
    else
      match links.target? id with
      | none => some (.ok id)
      | some target => links.rootWithin rounds (passed ++ [id]) target

/-- One round for each resource that was not passed, and one, is enough. -/
lemma rootWithin_eq {rounds : Nat} (h : (links.without passed).length < rounds) :
    links.rootWithin rounds passed id = some (links.rootFrom passed id) := by
  induction rounds generalizing passed id with
  | zero => exact absurd h (Nat.not_lt_zero _)
  | succ rounds ih =>
    rw [rootWithin]
    by_cases hmem : id ∈ passed
    · rw [if_pos hmem, rootFrom_of_mem hmem]
    rw [if_neg hmem]
    cases htarget : links.target? id with
    | none => rw [rootFrom_of_none hmem htarget]
    | some target =>
      obtain ⟨link, hlink, -⟩ := Option.bind_eq_some_iff.mp htarget
      have hless := length_without_lt hlink hmem
      rw [rootFrom_of_some hmem htarget]
      exact ih (by omega)

/-! ### Back to the members -/

/-- The walk to what a queue leads to, given up after a number of rounds. -/
def collectWithin (links : Links) :
    (rounds : Nat) → (seen queue : List ResourceId) → Option Links
  | 0, _, _ => none
  | _ + 1, _, [] => some []
  | rounds + 1, seen, id :: queue =>
    if id ∈ seen then links.collectWithin rounds seen queue
    else
      match links.find? id with
      | none => some []
      | some link =>
        (links.collectWithin rounds (seen ++ [id])
          (queue ++ (links.extenders id).map Link.id)).map (link :: ·)

/-- The members of a root, given up after a number of rounds. -/
def membersWithin (links : Links) (rounds : Nat) (root : ResourceId) : Option Links :=
  links.collectWithin rounds [root] ((links.extenders root).map Link.id)

/-- There is a round for each resource in the queue, one for each that joins it later, and the last
one. -/
lemma collectWithin_eq (hfound : ∀ id ∈ queue, ∃ link, links.find? id = some link)
    (rounds : Nat) :
    links.collectWithin rounds seen queue =
      if queue.length + ((links.collect seen queue).flatMap fun link =>
          links.extenders link.id).length < rounds then
        some (links.collect seen queue)
      else none := by
  induction seen, queue using visit.induct links generalizing rounds with
  | case1 seen =>
    cases rounds with
    | zero => rfl
    | succ rounds => simp [collectWithin]
  | case2 seen id queue hmem ih =>
    cases rounds with
    | zero => rfl
    | succ rounds =>
      rw [collectWithin, if_pos hmem, ih (List.forall_mem_cons.mp hfound).2, collect_of_mem hmem]
      simp only [List.length_cons, Nat.add_right_comm _ 1, Nat.add_lt_add_iff_right]
  | case3 seen id queue hmem hfind =>
    obtain ⟨link, hlink⟩ := hfound id List.mem_cons_self
    simp [hfind] at hlink
  | case4 seen id queue hmem link hfind ih =>
    cases rounds with
    | zero => rfl
    | succ rounds =>
      have hid : link.id = id := by simpa using List.find?_some hfind
      have hnext := exists_find?_of_mem_append id (List.forall_mem_cons.mp hfound).2
      rw [collectWithin, if_neg hmem, hfind, collect_of_some hmem hfind]
      simp only [ih hnext, List.flatMap_cons, List.length_append, List.length_map, List.length_cons,
        hid]
      split_ifs with hless hless' hless'
      · rfl
      · omega
      · omega
      · rfl

/-- Links lead from resources to resources. -/
lemma mem_ids_of_chain (hdocuments : documents.WellFormed)
    (hlinks : ofDocuments documents = .ok links) {n : Nat} (hid : id ∈ documents.ids)
    (hchain : documents.Chain root n id) : root ∈ documents.ids := by
  induction hchain with
  | root => exact hid
  | link hextended _ ih =>
    rw [← target?_of_ofDocuments hdocuments hlinks] at hextended
    obtain ⟨link, hlink, htarget⟩ := Option.bind_eq_some_iff.mp hextended
    exact ih ((of_ofDocuments hlinks).2.2 link (List.mem_of_find?_eq_some hlink) _ htarget)

/-- What joins the queue, one after the other, are the members. -/
lemma map_id_members_eq_flatMap (hdocuments : documents.WellFormed)
    (hlinks : ofDocuments documents = .ok links) (hroot : documents.extended? root = none)
    (hmem : root ∈ documents.ids) :
    (links.members root).map Link.id =
      (root :: (links.members root).map Link.id).flatMap documents.extenders := by
  obtain ⟨n, hall, hbound⟩ := exists_cons_map_id_members hdocuments hlinks hroot hmem
  have hnext : documents.generations root (n + 1) =
      root :: (documents.generations root n).flatMap documents.extenders := by
    rw [Documents.generations, List.range_succ_eq_map, List.flatMap_cons, List.flatMap_map,
      Documents.generations, List.flatMap_assoc]
    rfl
  rw [Documents.generations_eq_of_bound hdocuments hbound 1, ← hall] at hnext
  exact (List.cons_inj_right root).mp hnext

/-- A round for each member and one for the empty queue are just enough. -/
theorem membersWithin_eq_some_iff (hdocuments : documents.WellFormed)
    (hlinks : ofDocuments documents = .ok links) (hroot : documents.extended? root = none)
    (hmem : root ∈ documents.ids) {rounds : Nat} :
    links.membersWithin rounds root = some (links.members root) ↔
      (links.members root).length < rounds := by
  have hqueued : (links.extenders root).length +
      ((links.members root).flatMap fun link => links.extenders link.id).length =
        (links.members root).length := by
    have hlength := congrArg List.length (map_id_members_eq_flatMap hdocuments hlinks hroot hmem)
    simp only [List.length_map, List.flatMap_cons, List.flatMap_map, List.length_append,
      List.length_flatMap, ← extenders_of_ofDocuments hdocuments hlinks] at hlength ⊢
    exact hlength.symm
  rw [membersWithin, collectWithin_eq fun _ => exists_find?_of_mem_extenders, List.length_map,
    ← members, hqueued]
  split_ifs with hless
  · exact iff_of_true rfl hless
  · exact iff_of_false (by simp) hless

end Links

lemma Family.members_of_ofRoot {links : Links} {root : ResourceId} {family : Family}
    (h : ofRoot links root = .ok family) :
    family.members = root :: (links.members root).map Link.id := by
  rw [ofRoot_eq] at h
  split at h
  · cases h
  · obtain ⟨⟨properties, provenance⟩, -, h⟩ := bind_eq_ok_iff.mp h
    cases h
    rfl

namespace Families

variable {documents : Documents}

/-- The links of documents are followed to an end. From every resource the walk to the root is over
after at most one round more than there are resources; it finds the end of the chain if there is
one, and fails exactly if the chain is endless. So documents with an endless chain are refused, and
no others are refused for a cycle. From a root that was found, all members are collected, in one
round each: whatever is queued is merged, and nothing is queued or merged twice. -/
theorem endless_chains_refused (hdocuments : documents.WellFormed) :
    (∀ links, Links.ofDocuments documents = .ok links →
      (∀ id rounds, documents.ids.length < rounds →
        links.rootWithin rounds [] id = some (links.root id)) ∧
      (∀ id root, links.root id = .ok root ↔
        (∃ n, documents.Chain root n id) ∧ documents.extended? root = none) ∧
      (∀ id, (∃ e, links.root id = .error e) ↔ documents.Endless id) ∧
      ∀ id ∈ documents.ids, ∀ root, links.root id = .ok root →
        (∀ rounds, links.membersWithin rounds root = some (links.members root) ↔
          (links.members root).length < rounds) ∧
        (links.members root).map Link.id =
          (root :: (links.members root).map Link.id).flatMap documents.extenders ∧
        (root :: (links.members root).map Link.id).Nodup ∧
        ∀ family, Family.ofRoot links root = .ok family →
          family.members = root :: (links.members root).map Link.id) ∧
    (∀ id, documents.Endless id → ∃ e, ofDocuments documents = .error e) ∧
    ∀ passed, ofDocuments documents = .error (.cycle passed) →
      ∃ id, documents.Endless id := by
  refine ⟨fun links hlinks => ⟨?_, ?_, ?_, ?_⟩, ?_, ?_⟩
  · intro id rounds hrounds
    refine Links.rootWithin_eq (Nat.lt_of_le_of_lt (List.length_filter_le _ links) ?_)
    rwa [(Links.of_ofDocuments hlinks).1, List.length_map, ← List.length_map Prod.fst]
  · exact fun id root => Links.root_eq_ok_iff hdocuments hlinks
  · exact fun id => Links.root_eq_error_iff hdocuments hlinks
  · intro id hid root hroot
    obtain ⟨⟨n, hchain⟩, hextends⟩ := (Links.root_eq_ok_iff hdocuments hlinks).mp hroot
    have hmem := Links.mem_ids_of_chain hdocuments hlinks hid hchain
    refine ⟨fun rounds => Links.membersWithin_eq_some_iff hdocuments hlinks hextends hmem,
      Links.map_id_members_eq_flatMap hdocuments hlinks hextends hmem, ?_,
      fun family => Family.members_of_ofRoot⟩
    obtain ⟨k, hall, -⟩ := Links.exists_cons_map_id_members hdocuments hlinks hextends hmem
    rw [hall]
    exact Documents.nodup_generations hdocuments hextends k
  · intro id hendless
    cases h : ofDocuments documents with
    | error e => exact ⟨e, rfl⟩
    | ok families =>
      obtain ⟨target, hextended⟩ :=
        Option.ne_none_iff_exists'.mp (hendless.extended?_ne_none .root)
      have hid := List.mem_of_mem_filter ((Documents.mem_extenders_iff hdocuments).mpr hextended)
      obtain ⟨family, -, hleads⟩ := exists_get? hdocuments h hid
      obtain ⟨⟨n, hchain⟩, hends⟩ := (leadsTo_iff hdocuments h).mp hleads
      exact absurd hends (hendless.extended?_ne_none hchain)
  · intro passed h
    obtain ⟨links, -, start, -, hlinks, -, -, hstart⟩ := exists_root_eq_cycle h
    exact ⟨start, (Links.root_eq_error_iff hdocuments hlinks).mp ⟨_, hstart⟩⟩

/-- A chain into a resource that extends itself, beside a family of three. -/
theorem endless_chains_refused_beside_family :
    let documents : Documents :=
      [("app", ⟨.object [("Resources", .object
        [("far", .object [("Extend", .object [("resource", .string "near")])]),
          ("near", .object [("Extend", .object [("resource", .string "base")])]),
          ("base", .object []),
          ("outside", .object [("Extend", .object [("resource", .string "loop")])]),
          ("loop", .object [("Extend", .object [("resource", .string "loop")])])])], none⟩)]
    let base : ResourceId := ⟨"app", "base"⟩
    let far : ResourceId := ⟨"app", "far"⟩
    let outside : ResourceId := ⟨"app", "outside"⟩
    documents.WellFormed ∧ documents.Endless outside ∧
      (∃ e, ofDocuments documents = .error e) ∧
      ∃ links, Links.ofDocuments documents = .ok links ∧
        links.rootWithin 6 [] far = some (.ok base) ∧
        links.membersWithin 3 base = some (links.members base) ∧
        links.membersWithin 2 base ≠ some (links.members base) := by
  intro documents base far outside
  have hdocuments : documents.WellFormed := by decide
  have hresult : (Links.ofDocuments documents).map (fun links =>
      (links.root far, links.root outside, (links.members base).length)) =
      .ok (.ok base, .error (.cycle [outside, ⟨"app", "loop"⟩]), 2) := by cbv
  obtain ⟨links, hlinks, hshape⟩ := map_eq_ok_iff.mp hresult
  simp only [Prod.mk.injEq] at hshape
  obtain ⟨hfar, houtside, hlength⟩ := hshape
  obtain ⟨hwalks, hrefused, -⟩ := endless_chains_refused hdocuments
  obtain ⟨hrounds, -, herror, hmembers⟩ := hwalks links hlinks
  have hendless := (herror outside).mp ⟨_, houtside⟩
  have hwithin := (hmembers far (by decide) base hfar).1
  rw [hlength] at hwithin
  refine ⟨hdocuments, hendless, hrefused outside hendless, links, hlinks, ?_,
    (hwithin 3).mpr (by decide), fun h => absurd ((hwithin 2).mp h) (by decide)⟩
  rw [hrounds far 6 (by decide), hfar]

end Families

end ModularTemplates
