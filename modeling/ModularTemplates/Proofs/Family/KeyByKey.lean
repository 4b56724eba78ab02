import Mathlib.Tactic.Lemma
import ModularTemplates.Proofs.Family.Partition
import ModularTemplates.Proofs.Provenance.Keyed

/-!
# Merging key by key

As long as no rule is about the properties as a whole, what a resource contributes under one key
depends on nothing but what stands under this key, and changes nothing else. So merging the members
of a family one after the other is the same as doing so for each key on its own.
-/

namespace ModularTemplates

/-- The same change as seen from one step further down. -/
def Change.tail (c : Change) : Change :=
  ⟨c.path.tail, c.kind⟩

/-- What stands under one key of merged properties, and what is recorded for it. -/
structure Part where
  value? : Option Json
  record? : Option Provenance

/-- The part of merged properties under a key. -/
def Part.of (key : String) (sofar : Json × Provenance) : Part :=
  ⟨sofar.1.child? (.key key), sofar.2.child? (.key key)⟩

/-- Merged properties are an object, and their provenance has records of properties. -/
structure Open (sofar : Json × Provenance) : Prop where
  properties : ∃ fs, sofar.1 = .object fs ∧ Fields.Distinct fs
  records : sofar.2.Keyed

namespace Documents

/-- Merge what a resource has under a key into what its predecessors made of the key. -/
def contributeAt (documents : Documents) (owner : ResourceId) (key : String) (part : Part)
    (id : ResourceId) : Except MergeError Part :=
  match (documents.ownProperties id).child? (.key key) with
  | none => .ok part
  | some source => do
    let (value, changes) ←
      (mergeAt (documents.rulesOf id) [.key key] (part.value?.getD .null) source).result
    return ⟨some value, Provenance.entered id owner part.record?
      (changes.map Change.tail) value⟩

variable {documents : Documents} {id : ResourceId} {sofar next : Json × Provenance}

lemma contributeAt_of_none {key : String}
    (h : (documents.ownProperties id).child? (.key key) = none) (owner : ResourceId) (part : Part) :
    documents.contributeAt owner key part id = .ok part := by
  rw [contributeAt, h]

lemma contributeAt_of_some {key : String} {source : Json}
    (h : (documents.ownProperties id).child? (.key key) = some source) {part : Part}
    {m : Merged Json}
    (hm : mergeAt (documents.rulesOf id) [.key key] (part.value?.getD .null) source = m)
    (herror : m.error = none) (owner : ResourceId) :
    documents.contributeAt owner key part id =
      .ok ⟨some m.target, Provenance.entered id owner part.record?
        (m.changes.map Change.tail) m.target⟩ := by
  simp only [contributeAt, h, hm, Merged.result_of_error herror]
  rfl

lemma error_of_contributeAt {key : String} {source : Json}
    (h : (documents.ownProperties id).child? (.key key) = some source) {owner : ResourceId}
    {part part' : Part} (hok : documents.contributeAt owner key part id = .ok part') :
    (mergeAt (documents.rulesOf id) [.key key] (part.value?.getD .null) source).error = none := by
  rw [contributeAt, h] at hok
  obtain ⟨⟨value, changes⟩, hresult, -⟩ := bind_eq_ok_iff.mp hok
  exact congrArg Merged.error (Merged.result_eq_ok_iff.mp hresult)

lemma find?_nil_of_rules {rules : Rules} (h : ∀ rule ∈ rules, rule.1 ≠ []) :
    rules.find? [] = none := by
  rw [Rules.find?, Option.map_eq_none_iff, List.find?_eq_none]
  rintro ⟨path, operation⟩ hrule hmatches
  exact h _ hrule (List.length_eq_zero_iff.mp (Path.length_eq_of_matches hmatches))

/-! ### One resource -/

lemma open_root (hdocuments : documents.WellFormed) (root : ResourceId) :
    Open (documents.ownProperties root, .leaf root) :=
  ⟨exists_object_ownProperties hdocuments root, .leaf root⟩

lemma exists_key_of_mem_segments (hdocuments : documents.WellFormed) {seg : Segment}
    (hseg : seg ∈ (documents.ownProperties id).segments) : ∃ k, seg = .key k := by
  obtain ⟨ss, hss, -⟩ := exists_object_ownProperties hdocuments id
  rw [hss, Json.segments] at hseg
  obtain ⟨k, -, rfl⟩ := List.mem_map.mp hseg
  exact ⟨k, rfl⟩

/-- What a merge does under a key is seen from the key. -/
lemma changes_mergePart (hdocuments : documents.WellFormed) {t : Json} {seg : Segment}
    (hseg : seg ∈ (documents.ownProperties id).segments)
    (herror : (mergePart (documents.rulesOf id) [] t (documents.ownProperties id) seg).error =
      none) :
    (mergePart (documents.rulesOf id) [] t (documents.ownProperties id) seg).changes =
      ((mergePart (documents.rulesOf id) [] t (documents.ownProperties id) seg).changes.map
        Change.tail).map (Change.below [seg]) := by
  obtain ⟨s, hs⟩ := Json.mem_segments_iff.mp hseg
  have hwell := (wellFormed_ownProperties hdocuments id).child? hs
  rw [mergePart, hs, Option.getD_some] at herror ⊢
  obtain ⟨changes, hchanges, -⟩ := Merges.of_mergeAt _ _ _ _ hwell herror
  rw [hchanges, List.map_map, List.map_map]
  rfl

/-- The properties of a resource are merged one beside the other, and the changes are
those of the keys. -/
lemma merge_parts (hdocuments : documents.WellFormed)
    (hrules : ∀ rule ∈ documents.rulesOf id, rule.1 ≠ []) {ts : Fields Json} {v : Json}
    {changes : List Change}
    (h : merge (documents.rulesOf id) (.object ts) (documents.ownProperties id) =
      ⟨v, changes, none⟩) :
    let part := mergePart (documents.rulesOf id) [] (.object ts) (documents.ownProperties id)
    (∀ seg ∈ (documents.ownProperties id).segments, (part seg).error = none) ∧
    (∀ seg, v.child? seg =
      if seg ∈ (documents.ownProperties id).segments then some (part seg).target
      else (Json.object ts).child? seg) ∧
    changes = (documents.ownProperties id).segments.flatMap fun seg =>
      ((part seg).changes.map Change.tail).map (Change.below [seg]) := by
  intro part
  rw [merge] at h
  have hdescend :
    (documents.rulesOf id).descend [] (.object ts) (documents.ownProperties id) = true := by
    obtain ⟨ss, hss, -⟩ := exists_object_ownProperties hdocuments id
    rw [hss]
    rfl
  obtain ⟨herrors, htarget, hchanges⟩ := mergeAt_of_descend (find?_nil_of_rules hrules) hdescend
    (Json.nodup_segments (wellFormed_ownProperties hdocuments id)) (congrArg Merged.error h)
  rw [h] at htarget hchanges
  refine ⟨herrors, fun seg => ?_, hchanges.trans (List.flatMap_congr fun seg hseg => ?_)⟩
  · change v = _ at htarget
    rw [htarget, Json.child?_withParts hdescend]
  · exact changes_mergePart hdocuments hseg (herrors seg hseg)

/-- A resource contributes under each key on its own. -/
theorem contribute_parts (hdocuments : documents.WellFormed)
    (hrules : ∀ rule ∈ documents.rulesOf id, rule.1 ≠ []) (hopen : Open sofar)
    (h : documents.contribute sofar id = .ok next) :
    Open next ∧ next.2.owner = sofar.2.owner ∧
      ∀ key, documents.contributeAt sofar.2.owner key (.of key sofar) id =
        .ok (.of key next) := by
  obtain ⟨t, P⟩ := sofar
  obtain ⟨⟨ts, rfl, hts⟩, hkeyed⟩ := hopen
  obtain ⟨⟨v, changes⟩, hresult, h⟩ := bind_eq_ok_iff.mp h
  cases h
  obtain ⟨ss, hss, hdistinct⟩ := exists_object_ownProperties hdocuments id
  have hobject := exists_object_of_merge hts hdistinct (hss ▸ hresult)
  obtain ⟨herrors, hchild, hchanges⟩ :=
    merge_parts hdocuments hrules (Merged.result_eq_ok_iff.mp hresult)
  obtain ⟨hrecords, howner, hown, hbeside⟩ := hkeyed.enterAll_parts id
    (fun seg hseg => exists_key_of_mem_segments hdocuments hseg)
    (Json.nodup_segments (wellFormed_ownProperties hdocuments id))
    (fun seg hseg => (hchild seg).trans (if_pos hseg)) (congrArg (P.enterAll · id v) hchanges)
  refine ⟨⟨hobject, hrecords⟩, howner, fun key => ?_⟩
  cases hsource : (documents.ownProperties id).child? (.key key) with
  | none =>
    have hmem : Segment.key key ∉ (documents.ownProperties id).segments := by
      simp [Json.mem_segments_iff, hsource]
    rw [contributeAt_of_none hsource, Part.of, Part.of, hchild, if_neg hmem, hbeside _ hmem]
  | some source =>
    have hmem := Json.mem_segments_iff.mpr ⟨source, hsource⟩
    have hpart : mergeAt (documents.rulesOf id) [.key key]
        ((Part.of key (.object ts, P)).value?.getD .null) source =
          mergePart (documents.rulesOf id) [] (.object ts) (documents.ownProperties id)
              (.key key) := by
      rw [mergePart, hsource]
      rfl
    rw [contributeAt_of_some hsource hpart (herrors _ hmem)]
    simp only [Part.of, hchild, if_pos hmem, hown _ hmem]

/-- If every key can be merged on its own then so can the resource. -/
lemma exists_contribute (hdocuments : documents.WellFormed)
    (hrules : ∀ rule ∈ documents.rulesOf id, rule.1 ≠ []) (hopen : Open sofar)
    {owner : ResourceId}
    (h : ∀ key, ∃ part, documents.contributeAt owner key (.of key sofar) id = .ok part) :
    ∃ next, documents.contribute sofar id = .ok next := by
  obtain ⟨t, P⟩ := sofar
  obtain ⟨⟨ts, rfl, -⟩, -⟩ := hopen
  obtain ⟨ss, hss, hdistinct⟩ := exists_object_ownProperties hdocuments id
  have herror : (mergeFields (documents.rulesOf id) [] ts ss).error = none := by
    refine error_mergeFields hdistinct fun k s hs => ?_
    obtain ⟨part, hpart⟩ := h k
    refine error_of_contributeAt ?_ hpart
    rw [hss]
    exact hdistinct.get?_of_mem hs
  have herror :
      (merge (documents.rulesOf id) (.object ts) (documents.ownProperties id)).error = none := by
    rw [hss, merge, mergeAt, find?_nil_of_rules hrules]
    exact herror
  exact ⟨_, bind_eq_ok_iff.mpr ⟨_, Merged.result_of_error herror, rfl⟩⟩

/-! ### All members -/

variable {members : List ResourceId} {last : Json × Provenance}

/-- Members contribute under each key on its own. -/
theorem foldlM_contribute_parts (hdocuments : documents.WellFormed)
    (hrules : ∀ id ∈ members, ∀ rule ∈ documents.rulesOf id, rule.1 ≠ [])
    (hopen : Open sofar) (h : members.foldlM documents.contribute sofar = .ok last) :
    Open last ∧ last.2.owner = sofar.2.owner ∧ ∀ key,
      members.foldlM (documents.contributeAt sofar.2.owner key) (.of key sofar) =
        .ok (.of key last) := by
  induction members generalizing sofar with
  | nil =>
    cases h
    exact ⟨hopen, rfl, fun _ => rfl⟩
  | cons id members ih =>
    rw [List.forall_mem_cons] at hrules
    rw [List.foldlM_cons] at h
    obtain ⟨next, hnext, h⟩ := bind_eq_ok_iff.mp h
    obtain ⟨hopen, howner, hparts⟩ := contribute_parts hdocuments hrules.1 hopen hnext
    obtain ⟨hopen, howner', hrest⟩ := ih hrules.2 hopen h
    refine ⟨hopen, howner'.trans howner, fun key => ?_⟩
    rw [List.foldlM_cons]
    exact bind_eq_ok_iff.mpr ⟨_, hparts key, howner ▸ hrest key⟩

/-- Members can be merged if they can be merged under each key. -/
theorem exists_foldlM_contribute (hdocuments : documents.WellFormed)
    (hrules : ∀ id ∈ members, ∀ rule ∈ documents.rulesOf id, rule.1 ≠ [])
    (hopen : Open sofar)
    (h : ∀ key, ∃ part,
      members.foldlM (documents.contributeAt sofar.2.owner key) (.of key sofar) = .ok part) :
    ∃ last, members.foldlM documents.contribute sofar = .ok last := by
  induction members generalizing sofar with
  | nil => exact ⟨sofar, rfl⟩
  | cons id members ih =>
    rw [List.forall_mem_cons] at hrules
    simp only [List.foldlM_cons, bind_eq_ok_iff] at h ⊢
    obtain ⟨next, hnext⟩ := exists_contribute hdocuments hrules.1 hopen fun key => by
      obtain ⟨part, between, hbetween, -⟩ := h key
      exact ⟨between, hbetween⟩
    obtain ⟨hopen, howner, hparts⟩ := contribute_parts hdocuments hrules.1 hopen hnext
    obtain ⟨last, hlast⟩ := ih hrules.2 hopen fun key => by
      obtain ⟨part, between, hbetween, hrest⟩ := h key
      cases (hparts key).symm.trans hbetween
      exact ⟨part, howner ▸ hrest⟩
    exact ⟨last, next, hnext, hlast⟩

end Documents

end ModularTemplates
