import Mathlib.Tactic.Lemma
import ModularTemplates.Proofs.Provenance.Authors

/-!
# Whom a value below objects is attributed to

A scalar that stands below objects can be overwritten, and it can be taken over. Who has something
of their own at its place overwrites it. Who combines something of their own with what stands there
or around it takes it over, also without a word about the scalar itself. Nothing else happens to it,
whatever the rules.
-/

namespace ModularTemplates

/-- The path along some keys. -/
def Path.ofKeys (keys : List String) : Path :=
  keys.map .key

@[simp] lemma Path.ofKeys_nil : Path.ofKeys [] = [] := rfl

@[simp] lemma Path.ofKeys_cons (key : String) (keys : List String) :
    Path.ofKeys (key :: keys) = .key key :: Path.ofKeys keys := rfl

/-- Rules combine something that a source holds at a place or around it. `path` is the place
of the merge. -/
def Rules.Combine (rules : Rules) (path : Path) (s : Json) (p : Path) : Prop :=
  ∃ q, q <+: p ∧ rules.find? (path ++ q) = some .combine ∧ Path.lookup q s ≠ none

namespace Marked

variable {contributor : ResourceId} {m : Mark} {x : Scalar} {keys : List String}

lemma marked_eq_scalar {m' : Mark} {v : Json} (h : v.marked m' = .scalar m x) :
    m = m' ∧ v = x.val := by
  have hmark := congrArg mark h
  have herase := congrArg erase h
  rw [Json.mark_marked] at hmark
  rw [Json.erase_marked] at herase
  exact ⟨hmark.symm, herase⟩

lemma at?_marked_eq_scalar {m' : Mark} {v : Json} {p : Path}
    (h : (v.marked m').at? p = some (.scalar m x)) :
    m = m' ∧ p.lookup v = some x.val := by
  rw [Json.at?_marked, Option.map_eq_some_iff] at h
  obtain ⟨w, hw, h⟩ := h
  obtain ⟨rfl, rfl⟩ := marked_eq_scalar h
  exact ⟨rfl, hw⟩

/-- A scalar is not a container, and keys lead to nothing below an array. -/
lemma not_scalar_of_erase_array {M : Marked} {xs : List Json} (h : M.erase = .array xs) :
    M.at? (.ofKeys keys) ≠ some (.scalar m x) := by
  cases M with
  | scalar m v => exact absurd v.property (by rw [show v.val = .array xs from h]; simp [Json.shape])
  | array m Ms => cases keys <;> simp [child?]
  | object m fs => cases h

/-! ### Combining -/

lemma get?_combineFields {ts : Fields Marked} {ss : List (String × Json)}
    (hss : Fields.Distinct ss) (key : String) :
    (combineFields contributor ts ss).get? key =
      match Fields.get? ss key, ts.get? key with
      | none, t => t
      | some s, none => some (s.marked (.by contributor))
      | some s, some t => some (combine contributor t s) := by
  induction ss generalizing ts with
  | nil => rfl
  | cons field ss ih =>
    obtain ⟨k, s⟩ := field
    rw [Fields.Distinct, Fields.keys_cons, List.nodup_cons] at hss
    rw [combineFields, ih hss.2, Fields.get?_cons, Fields.get?_set]
    by_cases hk : k = key
    · subst hk
      rw [Fields.get?_eq_none_iff.mpr hss.1]
      cases ts.get? k <;> simp
    · simp [hk, Ne.symm hk]

/-- Where not two containers of one kind are combined, the source is put in place. -/
lemma combine_cases (contributor : ResourceId) (T : Marked) (s : Json) :
    (∃ m ts ss, T = .object m ts ∧ s = .object ss) ∨
      (∃ m ts ss, T = .array m ts ∧ s = .array ss) ∨
      combine contributor T s = s.marked (.by contributor) := by
  cases T <;> cases s <;> simp [combine]

/-- A scalar among combined values comes from the source where the source has something, and is the
old one elsewhere. -/
lemma at?_combine {T : Marked} {s : Json} (hs : s.WellFormed)
    (h : (combine contributor T s).at? (.ofKeys keys) = some (.scalar m x)) :
    (m = .by contributor ∧ (Path.ofKeys keys).lookup s = some x.val) ∨
      ((Path.ofKeys keys).lookup s = none ∧ T.at? (.ofKeys keys) = some (.scalar m x)) := by
  induction keys generalizing T s with
  | nil =>
    rw [Path.ofKeys_nil, at?_nil, Option.some.injEq] at h
    obtain ⟨m', ts, ss, rfl, rfl⟩ | ⟨m', ts, ss, rfl, rfl⟩ | hmarked :=
      combine_cases contributor T s
    · rw [combine] at h
      cases h
    · rw [combine] at h
      cases h
    · rw [hmarked] at h
      obtain ⟨rfl, rfl⟩ := marked_eq_scalar h
      exact .inl ⟨rfl, rfl⟩
  | cons key keys ih =>
    obtain ⟨m', ts, ss, rfl, rfl⟩ | ⟨m', ts, ss, rfl, rfl⟩ | hmarked :=
      combine_cases contributor T s
    · rw [combine, Path.ofKeys_cons, at?_cons, child?, get?_combineFields hs.distinct] at h
      rw [Path.ofKeys_cons, Path.lookup_cons, at?_cons, Json.child?, child?]
      cases hs' : Fields.get? ss key with
      | none =>
        rw [hs'] at h
        exact .inr ⟨rfl, h⟩
      | some s' =>
        rw [hs'] at h
        cases ht : Fields.get? ts key with
        | none =>
          rw [ht] at h
          exact .inl (at?_marked_eq_scalar h)
        | some t =>
          rw [ht] at h
          exact ih (hs.get? hs') h
    · rw [combine] at h
      cases h
    · rw [hmarked] at h
      exact .inl (at?_marked_eq_scalar h)

/-! ### Merging -/

section Merging

variable {rules : Rules} {path : Path}

lemma combine_iff_of_child? {s s' : Json} {seg : Segment} {p : Path}
    (hfind : rules.find? path = none) (hs : s.child? seg = some s') :
    rules.Combine path s (seg :: p) ↔ rules.Combine (path ++ [seg]) s' p := by
  constructor
  · rintro ⟨q, hq, hrule, hlookup⟩
    cases q with
    | nil =>
      rw [List.append_nil, hfind] at hrule
      cases hrule
    | cons other q =>
      obtain ⟨rfl, hrest⟩ := List.cons_prefix_cons.mp hq
      rw [Path.lookup_cons, hs] at hlookup
      exact ⟨q, hrest, by rwa [List.append_assoc], hlookup⟩
  · rintro ⟨q, hq, hrule, hlookup⟩
    refine ⟨seg :: q, List.cons_prefix_cons.mpr
      ⟨rfl, hq⟩, by rwa [List.append_assoc] at hrule, ?_⟩
    rwa [Path.lookup_cons, hs]

lemma not_combine_of_child? {s : Json} {seg : Segment} {p : Path} (hfind : rules.find? path = none)
    (hs : s.child? seg = none) : ¬ rules.Combine path s (seg :: p) := by
  rintro ⟨q, hq, hrule, hlookup⟩
  cases q with
  | nil =>
    rw [List.append_nil, hfind] at hrule
    cases hrule
  | cons other q =>
    obtain ⟨rfl, -⟩ := List.cons_prefix_cons.mp hq
    rw [Path.lookup_cons, hs] at hlookup
    exact hlookup rfl

/-- The null that stands for a missing part has nothing below it. -/
lemma at?_of_childD {T : Marked} {seg : Segment} (hkeys : keys ≠ [])
    (h : (T.childD seg).at? (.ofKeys keys) = some (.scalar m x)) :
    (T.child? seg).bind (at? (.ofKeys keys)) = some (.scalar m x) := by
  rw [childD] at h
  cases hchild : T.child? seg with
  | some T' => rwa [hchild] at h
  | none =>
    rw [hchild] at h
    cases keys with
    | nil => exact absurd rfl hkeys
    | cons key keys => cases h

/-- A merged scalar has been overwritten, taken over or kept. -/
theorem at?_mergeAt {t s v : Json} {changes : List Change} {T : Marked}
    (h : Merges rules path t s v changes) (hT : T.erase = t) (hs : s.WellFormed)
    (hN : (mergeAt rules contributor path T s).at? (.ofKeys keys) = some (.scalar m x)) :
    (m = .by contributor ∧ (Path.ofKeys keys).lookup s = some x.val) ∨
      ((Path.ofKeys keys).lookup s = none ∧ rules.Combine path s (.ofKeys keys) ∧
        ∃ old, T.at? (.ofKeys keys) = some (.scalar old x) ∧
          m = ⟨contributor, old.writer⟩) ∨
      ((Path.ofKeys keys).lookup s = none ∧ ¬ rules.Combine path s (.ofKeys keys) ∧
        T.at? (.ofKeys keys) = some (.scalar m x)) := by
  have herase : (mergeAt rules contributor path T s).erase = v := erase_mergeAt h hT
  induction h generalizing T keys with
  | @replaced path t s h =>
    have hmarked : mergeAt rules contributor path T s = s.marked (.by contributor) := by
      rcases h with h | ⟨hfind, hdescend⟩
      · exact mergeAt_of_rule h
      · exact mergeAt_of_not_descend hfind (hT ▸ hdescend)
    rw [hmarked] at hN
    exact .inl (at?_marked_eq_scalar hN)
  | combined h =>
    rw [mergeAt_of_rule h, applyOperation, at?_reauthor, Option.map_eq_some_iff] at hN
    obtain ⟨N, hN, heq⟩ := hN
    cases N with
    | scalar old x' =>
      cases heq
      rcases at?_combine hs hN with ⟨rfl, hlookup⟩ | ⟨hlookup, hold⟩
      · exact .inl ⟨rfl, hlookup⟩
      · exact .inr (.inl ⟨hlookup, ⟨[], List.nil_prefix, by simpa using h, by simp⟩, old,
          hold, rfl⟩)
    | _ => cases heq
  | appended h ht | prepended h ht => exact absurd hN (not_scalar_of_erase_array herase)
  | @entered path t s part changes hfind hdescend hnodup parts ih =>
    subst hT
    cases keys with
    | nil =>
      rw [Path.ofKeys_nil, at?_nil, Option.some.injEq] at hN
      have hshape := x.property
      rw [hN, erase] at herase
      rw [herase] at hshape
      obtain ⟨ts, ss, hts, rfl⟩ | ⟨ts, ss, hts, rfl⟩ := Rules.containers_of_descend hdescend
      all_goals
        rw [hts] at hshape
        cases hshape
    | cons key keys =>
      rw [Path.ofKeys_cons, at?_cons, child?_mergeAt contributor hfind hdescend hnodup] at hN
      rw [Path.ofKeys_cons, Path.lookup_cons, at?_cons]
      cases hs' : s.child? (.key key) with
      | none =>
        rw [hs'] at hN
        exact .inr (.inr ⟨rfl, not_combine_of_child? hfind hs', hN⟩)
      | some s' =>
        rw [hs'] at hN
        rw [combine_iff_of_child? hfind hs']
        have hpart := ih (.key key) s' hs' (erase_childD T (.key key)) (hs.child? hs') hN
          (erase_mergeAt (parts (.key key) s' hs') (erase_childD T (.key key)))
        have hkeys : (Path.ofKeys keys).lookup s' = none → keys ≠ [] := by
          rintro hlookup rfl
          cases hlookup
        rcases hpart with hnew | ⟨hlookup, hcombine, old, hold, hm⟩ | ⟨hlookup,
          hcombine, hold⟩
        · exact .inl hnew
        · exact .inr (.inl ⟨hlookup, hcombine, old, at?_of_childD (hkeys hlookup) hold, hm⟩)
        · exact .inr (.inr ⟨hlookup, hcombine, at?_of_childD (hkeys hlookup) hold⟩)

end Merging

end Marked

/-! ### The members of a family -/

/-- An element is the last one of a list with a property. -/
def LastOf {α : Type} (P : α → Prop) (l : List α) (a : α) : Prop :=
  P a ∧ ∃ before after, l = before ++ a :: after ∧ ∀ b ∈ after, ¬ P b

section LastOf

variable {α : Type} {P : α → Prop} {l : List α} {a b : α}

lemma LastOf.concat_self (h : P a) : LastOf P (l ++ [a]) a :=
  ⟨h, l, [], rfl, by simp⟩

lemma LastOf.concat (h : LastOf P l a) (hb : ¬ P b) : LastOf P (l ++ [b]) a := by
  obtain ⟨ha, before, after, rfl, hafter⟩ := h
  refine ⟨ha, before, after ++ [b], by simp, fun a' ha' => ?_⟩
  rcases List.mem_append.mp ha' with ha' | ha'
  · exact hafter a' ha'
  · rwa [List.mem_singleton.mp ha']

end LastOf

namespace Documents

variable {documents : Documents} {family : Family} {keys : List String}

/-- A resource writes a value: its own properties have something at the place. -/
def Writes (documents : Documents) (p : Path) (id : ResourceId) : Prop :=
  p.lookup (documents.ownProperties id) ≠ none

/-- A resource supplies a value: it writes it, or it combines something of its own at the place
or around it. -/
def Supplies (documents : Documents) (p : Path) (id : ResourceId) : Prop :=
  documents.Writes p id ∨ (documents.rulesOf id).Combine [] (documents.ownProperties id) p

/-- In a marked value every scalar at a place goes back to the resources that wrote and
supplied it last. -/
def Attributed (documents : Documents) (keys : List String) (merged : List ResourceId)
    (M : Marked) : Prop :=
  ∀ m x, M.at? (.ofKeys keys) = some (.scalar m x) →
    LastOf (documents.Writes (.ofKeys keys)) merged m.writer ∧
      LastOf (documents.Supplies (.ofKeys keys)) merged m.author ∧
      (Path.ofKeys keys).lookup (documents.ownProperties m.writer) = some x.val

lemma attributed_root (documents : Documents) (keys : List String) (root : ResourceId) :
    documents.Attributed keys [root] ((documents.ownProperties root).marked (.by root)) := by
  intro m x hx
  obtain ⟨rfl, hlookup⟩ := Marked.at?_marked_eq_scalar hx
  have hwrites : documents.Writes (.ofKeys keys) root := by
    rw [Writes, hlookup]
    exact Option.some_ne_none _
  exact ⟨.concat_self (l := []) hwrites, .concat_self (l := []) (.inl hwrites), hlookup⟩

lemma Attributed.contribute (hdocuments : documents.WellFormed) {merged : List ResourceId}
    {M : Marked} (h : documents.Attributed keys merged M) {sofar next : Json × Provenance}
    {id : ResourceId} (herase : M.erase = sofar.1)
    (hnext : documents.contribute sofar id = .ok next) :
    documents.Attributed keys (merged ++ [id]) (documents.contributeMarked M id) := by
  intro m x hx
  have hwell := wellFormed_ownProperties hdocuments id
  obtain ⟨⟨properties, changes⟩, hresult, -⟩ := bind_eq_ok_iff.mp hnext
  rcases Marked.at?_mergeAt (Merges.of_merge hwell hresult) herase hwell hx with
    ⟨rfl, hlookup⟩ | ⟨hlookup, hcombine, old, hold, rfl⟩ | ⟨hlookup, hcombine, hold⟩
  · have hwrites : documents.Writes (.ofKeys keys) id := by
      rw [Writes, hlookup]
      exact Option.some_ne_none _
    exact ⟨.concat_self hwrites, .concat_self (.inl hwrites), hlookup⟩
  · obtain ⟨hwriter, -, hvalue⟩ := h old x hold
    exact ⟨hwriter.concat (not_not_intro hlookup), .concat_self (.inr hcombine), hvalue⟩
  · obtain ⟨hwriter, hauthor, hvalue⟩ := h m x hold
    refine ⟨hwriter.concat (not_not_intro hlookup), hauthor.concat ?_, hvalue⟩
    rintro (hwrites | hcombines)
    · exact hwrites hlookup
    · exact hcombine hcombines

lemma Attributed.foldlM_contribute (hdocuments : documents.WellFormed)
    {members merged : List ResourceId} {M : Marked} (h : documents.Attributed keys merged M)
    {sofar last : Json × Provenance} (herase : M.erase = sofar.1) (htracks : sofar.2.Tracks M)
    (hlast : members.foldlM documents.contribute sofar = .ok last) :
    documents.Attributed keys (merged ++ members) (members.foldl documents.contributeMarked M) := by
  induction members generalizing merged M sofar with
  | nil => rwa [List.append_nil]
  | cons id members ih =>
    rw [List.foldlM_cons] at hlast
    obtain ⟨next, hnext, hlast⟩ := bind_eq_ok_iff.mp hlast
    obtain ⟨herase', htracks'⟩ := contribute_tracks hdocuments herase htracks hnext
    rw [List.append_cons]
    exact ih (h.contribute hdocuments herase hnext) herase' htracks' hlast

/-- What a family has at a place below objects is what the last member wrote there, and it is
attributed to the last member that supplied it. -/
theorem Resolves.exists_supplier (hdocuments : documents.WellFormed) (h : documents.Resolves family)
    {x : Scalar} (hx : (Path.ofKeys keys).lookup family.properties = some x.val) :
    ∃ writer supplier, LastOf (documents.Writes (.ofKeys keys)) family.members writer ∧
      (Path.ofKeys keys).lookup (documents.ownProperties writer) = some x.val ∧
      LastOf (documents.Supplies (.ofKeys keys)) family.members supplier ∧
      (family.provenance.source (.ofKeys keys)).owner = supplier := by
  obtain ⟨herase, htracks⟩ := h.tracks hdocuments
  rw [← herase, Marked.lookup_erase, Option.map_eq_some_iff] at hx
  obtain ⟨M, hM, hMx⟩ := hx
  have hscalar := Marked.eq_scalar_of_erase hMx x.property
  have hattributed := (documents.attributed_root keys family.root).foldlM_contribute hdocuments
    (Json.erase_marked _ _) (.leaf_marked (.by family.root) _) h.merged
  rw [List.singleton_append, ← h.members_eq_cons] at hattributed
  obtain ⟨hwriter, hauthor, hvalue⟩ := hattributed M.mark x (hM.trans (congrArg some hscalar))
  exact ⟨M.mark.writer, M.mark.author, hwriter, hvalue, hauthor, htracks.owner _ _ hM⟩

end Documents

end ModularTemplates
