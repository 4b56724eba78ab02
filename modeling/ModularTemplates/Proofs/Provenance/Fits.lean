import Mathlib.Tactic.Lemma
import ModularTemplates.Proofs.Provenance.Tracks

/-!
# Provenance fits its value

A provenance fits a value if all its records are about places of the value: records of properties
below objects only, and records of items below arrays that have at least as many items. Where a
provenance fits the target of a merge, its records never have to give way to ones of another kind
when the changes of the merge are entered, and afterwards it fits the merged value.
-/

namespace ModularTemplates

/-- The segments that lead to parts of one value are of one kind. -/
lemma Json.alike_of_child? {v w u : Json} {seg other : Segment} (hw : v.child? seg = some w)
    (hu : v.child? other = some u) : other.Alike seg := by
  cases v <;> cases seg <;> cases other <;> trivial

namespace Provenance

variable {P Q : Provenance} {v w : Json} {seg : Segment} {contributor : ResourceId}

/-! ### Records and places -/

/-- What is recorded below a record is of the kind of its value and does not go beyond it. -/
def Suits : Provenance → Json → Prop
  | .leaf _, _ => True
  | .fields _ _, v => ∃ fs, v = .object fs
  | .items _ slots, v => ∃ xs, v = .array xs ∧ slots.length ≤ xs.length

/-- Every record is about a place of the value and suits what stands there. -/
def Fits (P : Provenance) (v : Json) : Prop :=
  ∀ p Q, P.at? p = some Q → ∃ w, p.lookup v = some w ∧ Q.Suits w

lemma fits_iff : P.Fits v ↔
    P.Suits v ∧ ∀ seg Q, P.child? seg = some Q →
      ∃ w, v.child? seg = some w ∧ Q.Fits w := by
  constructor
  · intro h
    refine ⟨?_, fun seg Q hQ => ?_⟩
    · obtain ⟨w, hw, hsuits⟩ := h [] P rfl
      cases hw
      exact hsuits
    · have hbelow : ∀ p R, Q.at? p = some R →
          ∃ u, Path.lookup (seg :: p) v = some u ∧ R.Suits u :=
        fun p R hR => h (seg :: p) R (by rw [at?, hQ, Option.bind_some, hR])
      obtain ⟨w, hw, -⟩ := hbelow [] Q rfl
      obtain ⟨w, hchild, -⟩ := Option.bind_eq_some_iff.mp hw
      refine ⟨w, hchild, fun p R hR => ?_⟩
      rw [← Path.lookup_of_child hchild]
      exact hbelow p R hR
  · rintro ⟨hsuits, hchildren⟩ p Q hQ
    cases p with
    | nil =>
      cases hQ
      exact ⟨v, rfl, hsuits⟩
    | cons seg p =>
      obtain ⟨R, hR, hQ⟩ := Option.bind_eq_some_iff.mp hQ
      obtain ⟨w, hw, hfits⟩ := hchildren seg R hR
      rw [Path.lookup_of_child hw]
      exact hfits p Q hQ

lemma fits_leaf (owner : ResourceId) (v : Json) : (leaf owner).Fits v :=
  fits_iff.mpr ⟨trivial, fun seg Q hQ => by cases hQ⟩

/-- A missing part fits the null that stands for it. -/
lemma Fits.childD (h : P.Fits v) (seg : Segment) :
    (P.childD seg).Fits ((v.child? seg).getD .null) := by
  rw [Provenance.childD]
  cases hchild : P.child? seg with
  | none => exact fits_leaf P.owner _
  | some Q =>
    obtain ⟨w, hw, hQ⟩ := (fits_iff.mp h).2 seg Q hchild
    rwa [hw]

/-! ### Records of one kind -/

/-- A record under a segment is of the kind of the records that there are. -/
def Takes : Provenance → Segment → Prop
  | .fields _ _, .index _ => False
  | .items _ _, .key _ => False
  | _, _ => True

lemma Takes.alike (h : P.Takes seg) {other : Segment} (hother : P.child? other ≠ none) :
    other.Alike seg := by
  cases P <;> cases seg <;> cases other <;> trivial

lemma Suits.takes (h : P.Suits v) (hv : v.child? seg = some w) : P.Takes seg := by
  cases P with
  | leaf owner => trivial
  | fields owner fs =>
    obtain ⟨fs, rfl⟩ := h
    cases seg with
    | key k => trivial
    | index i => cases hv
  | items owner slots =>
    obtain ⟨xs, rfl, -⟩ := h
    cases seg with
    | key k => cases hv
    | index i => trivial

lemma Suits.length_itemsBelow {xs : List Json} (h : P.Suits (.array xs)) :
    P.itemsBelow.length ≤ xs.length := by
  cases P with
  | leaf owner => exact Nat.zero_le _
  | fields owner fs =>
    obtain ⟨fs, hfs⟩ := h
    cases hfs
  | items owner slots =>
    obtain ⟨ys, hys, hlength⟩ := h
    cases hys
    exact hlength

/-- Entering a change of a part takes no more room than the part itself. -/
lemma Suits.enter_below (h : P.Suits v) (hv : v.child? seg = some w) (c : Change) :
    (P.enter (c.below [seg]) contributor v).Suits v := by
  cases seg with
  | key k => exact Json.exists_object_of_child? hv
  | index i =>
    cases v with
    | array xs =>
      obtain ⟨hi, -⟩ := List.getElem?_eq_some_iff.mp hv
      have hlength := h.length_itemsBelow
      refine ⟨xs, rfl, ?_⟩
      rw [List.length_set, length_pad]
      omega
    | _ => cases hv

end Provenance

/-! ### Changes that keep all records -/

/-- On the way from a place to a record, where the record is after a change of the place. Nothing is
left of the records of what is replaced or combined, and records of items move behind the items that
are put before them. -/
def ChangeKind.moved (kind : ChangeKind) : (place record : Path) → Option Path
  | [], r =>
    match kind, r with
    | .replace, _ | .combine, _ => none
    | .prepend count, .index i :: r => some (.index (i + count) :: r)
    | _, r => some r
  | _ :: _, [] => some []
  | seg :: p, other :: r =>
    if other = seg then (kind.moved p r).map (seg :: ·) else some (other :: r)

namespace Provenance

variable {P Q : Provenance} {v w : Json} {seg : Segment} {contributor : ResourceId}

/-- What is recorded on the way to the place of a change, and at it, is of the kind that the
change needs. -/
def Admits (kind : ChangeKind) : Path → Provenance → Prop
  | [], P =>
    match kind with
    | .replace | .combine => True
    | .append _ | .prepend _ => P.Takes (.index 0)
  | seg :: p, P => P.Takes seg ∧ Admits kind p (P.childD seg)

/-- A change drops no record but those of the value that it replaces or combines. -/
structure Gentle (contributor : ResourceId) (v : Json) (P : Provenance) (c : Change) : Prop where
  admits : P.Admits c.kind c.path
  keeps : ∀ r r' Q, P.at? r = some Q → c.kind.moved c.path r = some r' →
    ∃ Q', (P.enter c contributor v).at? r' = some Q' ∧ Q'.owner = Q.owner

/-- Changes that are entered one after the other, each of them without dropping records. -/
def Gently (contributor : ResourceId) (v : Json) : List Change → Provenance → Prop
  | [], _ => True
  | c :: changes, P =>
    Gentle contributor v P c ∧ Gently contributor v changes (P.enter c contributor v)

lemma gently_append {changes rest : List Change} :
    Gently contributor v (changes ++ rest) P ↔
      Gently contributor v changes P ∧
      Gently contributor v rest (P.enterAll changes contributor v) := by
  induction changes generalizing P with
  | nil => simp [Gently]
  | cons c changes ih => rw [List.cons_append, Gently, Gently, ih, enterAll_cons, and_assoc]

/-- A change that covers everything has no record to keep. -/
lemma gentle_whole {kind : ChangeKind} (h : kind = .replace ∨ kind = .combine) :
    Gentle contributor v P ⟨[], kind⟩ := by
  rcases h with rfl | rfl
  · exact ⟨trivial, fun r r' Q hQ hr => by cases hr⟩
  · exact ⟨trivial, fun r r' Q hQ hr => by cases hr⟩

lemma Gentle.below (hP : P.Suits v) (hv : v.child? seg = some w) {c : Change}
    (h : Gentle contributor w (P.childD seg) c) : Gentle contributor v P (c.below [seg]) := by
  have hchild := child?_enter_below contributor (fun _ => (hP.takes hv).alike) hv c
  refine ⟨⟨hP.takes hv, h.admits⟩, fun r r' Q hQ hr => ?_⟩
  cases r with
  | nil =>
    cases hQ
    cases hr
    exact ⟨_, rfl, owner_enter_below contributor c seg P⟩
  | cons other r =>
    obtain ⟨R, hR, hQ⟩ := Option.bind_eq_some_iff.mp hQ
    rw [Change.path_below, List.singleton_append, ChangeKind.moved] at hr
    split_ifs at hr with heq
    · subst heq
      obtain ⟨rest, hrest, rfl⟩ := Option.map_eq_some_iff.mp hr
      have hchildD : P.childD other = R := by rw [Provenance.childD, hR, Option.getD_some]
      obtain ⟨Q', hQ', howner⟩ := h.keeps r rest Q (hchildD ▸ hQ) hrest
      exact ⟨Q', by rw [at?, hchild, if_pos rfl, Option.bind_some, hQ'], howner⟩
    · cases hr
      exact ⟨Q, by rw [at?, hchild, if_neg heq, hR, Option.bind_some, hQ], rfl⟩

/-- Changes of one part are entered gently if they are so in the record of the part. -/
lemma Gently.below (hP : P.Suits v) (hv : v.child? seg = some w) {changes : List Change}
    (h : Gently contributor w changes (P.childD seg)) :
    Gently contributor v (changes.map (Change.below [seg])) P ∧
      (P.enterAll (changes.map (Change.below [seg])) contributor v).Suits v := by
  induction changes generalizing P with
  | nil => exact ⟨trivial, hP⟩
  | cons c changes ih =>
    obtain ⟨hc, hchanges⟩ := h
    have hchild : (P.enter (c.below [seg]) contributor v).childD seg =
        (P.childD seg).enter c contributor w := by
      rw [Provenance.childD, child?_enter_below contributor (fun _ => (hP.takes hv).alike) hv,
        if_pos rfl, Option.getD_some]
    obtain ⟨hgently, hsuits⟩ := ih (hP.enter_below hv c) (hchild ▸ hchanges)
    exact ⟨⟨hc.below hP hv, hgently⟩, hsuits⟩

/-- Changes of several parts are entered gently if those of each part are. -/
lemma Gently.parts {segs : List Segment} {part : Segment → Json}
    {changes : Segment → List Change} (hnodup : segs.Nodup) (hP : P.Suits v)
    (hv : ∀ seg ∈ segs, v.child? seg = some (part seg))
    (h : ∀ seg ∈ segs, Gently contributor (part seg) (changes seg) (P.childD seg)) :
    Gently contributor v (segs.flatMap fun seg => (changes seg).map (Change.below [seg])) P ∧
      (P.enterAll (segs.flatMap fun seg => (changes seg).map (Change.below [seg])) contributor
        v).Suits v := by
  induction segs generalizing P with
  | nil => exact ⟨trivial, hP⟩
  | cons seg segs ih =>
    obtain ⟨hseg, hsegs⟩ := List.nodup_cons.mp hnodup
    obtain ⟨hvseg, hvsegs⟩ := List.forall_mem_cons.mp hv
    obtain ⟨hhere, hrest⟩ := List.forall_mem_cons.mp h
    obtain ⟨hgently, hsuits⟩ := hhere.below hP hvseg
    obtain ⟨howner, -, hbeside⟩ :=
      enterAll_below contributor (fun _ => (hP.takes hvseg).alike) hvseg (changes seg)
    obtain ⟨hgently', hsuits'⟩ := ih hsegs hsuits hvsegs fun other hother => by
      have hne : other ≠ seg := fun heq => hseg (heq ▸ hother)
      rw [Provenance.childD, hbeside other hne, howner]
      exact hrest other hother
    rw [List.flatMap_cons, enterAll_append]
    exact ⟨gently_append.mpr ⟨hgently, hgently'⟩, hsuits'⟩

/-! ### Items that are added -/

section Items

variable {t : Json} {ts : List Json}

/-- Where items can be added, nothing but items of the target is recorded. -/
lemma Fits.of_itemsOrNull? (h : P.Fits t) (ht : t.itemsOrNull? = some ts) :
    P.Takes (.index 0) ∧ P.itemsBelow.length ≤ ts.length ∧
      ∀ (i : Nat) (Q : Provenance), P.itemsBelow[i]?.join = some Q →
        ∃ w, ts[i]? = some w ∧ Q.Fits w := by
  obtain ⟨hsuits, hchildren⟩ := fits_iff.mp h
  cases t with
  | array xs =>
    cases ht
    refine ⟨?_, hsuits.length_itemsBelow, fun i Q hQ => hchildren (.index i) Q ?_⟩
    · cases P with
      | fields owner fs =>
        obtain ⟨gs, hgs⟩ := hsuits
        cases hgs
      | leaf | items => trivial
    · rw [child?_index, hQ]
  | null =>
    cases ht
    cases P with
    | leaf owner => exact ⟨trivial, Nat.le_refl 0, fun i Q hQ => by simp [itemsBelow] at hQ⟩
    | fields owner fs =>
      obtain ⟨gs, hgs⟩ := hsuits
      cases hgs
    | items owner slots =>
      obtain ⟨xs, hxs, -⟩ := hsuits
      cases hxs
  | _ => cases ht

lemma fits_array {owner : ResourceId} {slots : List (Option Provenance)} {xs : List Json}
    (hlength : slots.length ≤ xs.length)
    (h : ∀ (i : Nat) (Q : Provenance), slots[i]?.join = some Q →
      ∃ w, xs[i]? = some w ∧ Q.Fits w) :
    (items owner slots).Fits (.array xs) := by
  refine fits_iff.mpr ⟨⟨xs, rfl, hlength⟩, fun seg Q hQ => ?_⟩
  cases seg with
  | key k => cases hQ
  | index i => exact h i Q hQ

lemma length_appended {count old : Nat} {slots : List (Option Provenance)}
    (h : slots.length ≤ old) :
    (appended contributor count (old + count) slots).length = old + count := by
  have hpad := length_pad slots (old + count)
  simp only [appended, List.length_append, List.length_take, List.length_replicate,
    List.length_drop]
  omega

/-- Only items are recorded where items are, so a record below is one of an item or
there is none. -/
lemma exists_index_of_child? (htakes : P.Takes (.index 0)) (h : P.child? seg = some Q) :
    ∃ i, seg = .index i ∧ P.itemsBelow[i]?.join = some Q := by
  cases seg with
  | key k =>
    have halike : (Segment.key k).Alike (.index 0) := htakes.alike (by simp [h])
    exact False.elim halike
  | index i => exact ⟨i, rfl, by rw [← child?_index, h]⟩

lemma Fits.enterAll_append (h : P.Fits t) (ht : t.itemsOrNull? = some ts) (ss : List Json) :
    (P.enterAll [⟨[], .append ss.length⟩] contributor (.array (ts ++ ss))).Fits
      (.array (ts ++ ss)) ∧
      Gently contributor (.array (ts ++ ss)) [⟨[], .append ss.length⟩] P := by
  obtain ⟨htakes, hlength, hchildren⟩ := h.of_itemsOrNull? ht
  have henter : P.enter ⟨[], .append ss.length⟩ contributor (.array (ts ++ ss)) =
      items P.owner (appended contributor ss.length (ts.length + ss.length) P.itemsBelow) := by
    simp [enter, alter, Json.asArray?]
  have hroom : (appended contributor ss.length (ts.length + ss.length) P.itemsBelow).length =
      (ts ++ ss).length := by
    rw [length_appended hlength, List.length_append]
  rw [enterAll_cons, enterAll_nil, henter]
  refine ⟨fits_array (Nat.le_of_eq hroom) fun i Q hQ => ?_,
    ⟨htakes, fun r r' Q hQ hr => ?_⟩, trivial⟩
  · rw [join_getElem?_appended] at hQ
    split_ifs at hQ with hi
    · obtain ⟨w, hw, hfits⟩ := hchildren i Q hQ
      obtain ⟨hlt, -⟩ := List.getElem?_eq_some_iff.mp hw
      exact ⟨w, by rw [List.getElem?_append_left hlt, hw], hfits⟩
    · cases hQ
      have hlt : i < (ts ++ ss).length := by
        rw [List.length_append]
        omega
      exact ⟨_, List.getElem?_eq_getElem hlt, fits_leaf contributor _⟩
  · cases r with
    | nil =>
      cases hQ
      cases hr
      exact ⟨_, rfl, by rw [henter]; rfl⟩
    | cons seg r =>
      cases hr
      obtain ⟨R, hR, hbelow⟩ := Option.bind_eq_some_iff.mp hQ
      obtain ⟨i, rfl, hitem⟩ := exists_index_of_child? htakes hR
      obtain ⟨w, hw, -⟩ := hchildren i R hitem
      obtain ⟨hlt, -⟩ := List.getElem?_eq_some_iff.mp hw
      refine ⟨Q, ?_, rfl⟩
      rw [henter, at?, child?_index, itemsBelow_items, join_getElem?_appended,
        if_pos (.inl hlt), hitem, Option.bind_some, hbelow]

lemma Fits.enterAll_prepend (h : P.Fits t) (ht : t.itemsOrNull? = some ts) (ss : List Json) :
    (P.enterAll [⟨[], .prepend ss.length⟩] contributor (.array (ss ++ ts))).Fits
      (.array (ss ++ ts)) ∧
      Gently contributor (.array (ss ++ ts)) [⟨[], .prepend ss.length⟩] P := by
  obtain ⟨htakes, hlength, hchildren⟩ := h.of_itemsOrNull? ht
  have henter : P.enter ⟨[], .prepend ss.length⟩ contributor (.array (ss ++ ts)) =
      items P.owner (List.replicate ss.length (some (leaf contributor)) ++ P.itemsBelow) := rfl
  rw [enterAll_cons, enterAll_nil, henter]
  refine ⟨fits_array (by simpa using hlength) fun i Q hQ => ?_,
    ⟨htakes, fun r r' Q hQ hr => ?_⟩, trivial⟩
  · rcases Nat.lt_or_ge i ss.length with hlt | hge
    · rw [List.getElem?_append_left (by simpa using hlt), List.getElem?_replicate,
        if_pos hlt] at hQ
      cases hQ
      exact ⟨_, List.getElem?_append_left hlt |>.trans (List.getElem?_eq_getElem hlt),
        fits_leaf contributor _⟩
    · rw [List.getElem?_append_right (by simpa using hge), List.length_replicate] at hQ
      rw [List.getElem?_append_right hge]
      exact hchildren _ Q hQ
  · cases r with
    | nil =>
      cases hQ
      cases hr
      exact ⟨_, rfl, by rw [henter]; rfl⟩
    | cons seg r =>
      obtain ⟨R, hR, hbelow⟩ := Option.bind_eq_some_iff.mp hQ
      obtain ⟨i, rfl, hitem⟩ := exists_index_of_child? htakes hR
      cases hr
      refine ⟨Q, ?_, rfl⟩
      rw [henter, at?, child?_index, itemsBelow_items, List.getElem?_append_right (by simp),
        List.length_replicate, Nat.add_sub_cancel, hitem, Option.bind_some, hbelow]

end Items

/-! ### Keeping up with a merge -/

lemma Suits.withParts {rules : Rules} {path : Path} {t s : Json} (h : P.Suits t)
    (hdescend : rules.descend path t s = true) (part : Segment → Json) :
    P.Suits (t.withParts s part) := by
  obtain ⟨ts, ss, rfl, rfl⟩ | ⟨ts, ss, rfl, rfl⟩ := Rules.containers_of_descend hdescend
  · cases P with
    | leaf owner => trivial
    | fields owner fs => exact ⟨_, rfl⟩
    | items owner slots =>
      obtain ⟨xs, hxs, -⟩ := h
      cases hxs
  · cases P with
    | leaf owner => trivial
    | fields owner fs =>
      obtain ⟨fs, hfs⟩ := h
      cases hfs
    | items owner slots =>
      have hlength : slots.length ≤ ts.length := h.length_itemsBelow
      refine ⟨_, rfl, ?_⟩
      rw [List.length_append, List.length_map, List.length_range, List.length_drop]
      omega

/-- Where a provenance fits the target of a merge, the changes are entered gently, and it fits
what comes out. -/
theorem Fits.enterAll {rules : Rules} {path : Path} {t s : Json} {changes : List Change}
    (contributor : ResourceId) (h : Merges rules path t s v changes) (hP : P.Fits t) :
    (P.enterAll changes contributor v).Fits v ∧ Gently contributor v changes P := by
  induction h generalizing P with
  | replaced => exact ⟨fits_leaf contributor _, gentle_whole (.inl rfl), trivial⟩
  | combined => exact ⟨fits_leaf contributor _, gentle_whole (.inr rfl), trivial⟩
  | appended _ ht => exact hP.enterAll_append ht _
  | prepended _ ht => exact hP.enterAll_prepend ht _
  | @entered path t s part changes hfind hdescend hnodup parts ih =>
    obtain ⟨hsuits, hchildren⟩ := fits_iff.mp hP
    have hchild := Json.child?_withParts hdescend part
    have hpart : ∀ seg ∈ s.segments, (t.withParts s part).child? seg = some (part seg) := by
      intro seg hseg
      rw [hchild, if_pos hseg]
    have hfits : ∀ seg ∈ s.segments,
        ((P.childD seg).enterAll (changes seg) contributor (part seg)).Fits (part seg) ∧
          Gently contributor (part seg) (changes seg) (P.childD seg) := by
      intro seg hseg
      obtain ⟨s', hs'⟩ := Json.mem_segments_iff.mp hseg
      exact ih seg s' hs' (hP.childD seg)
    have hsuits' := hsuits.withParts hdescend part
    obtain ⟨hgently, hafter⟩ :=
      Gently.parts hnodup hsuits' hpart fun seg hseg => (hfits seg hseg).2
    have halike : ∀ seg ∈ s.segments, ∀ other,
        other ∈ s.segments ∨ P.child? other ≠ none → other.Alike seg := by
      intro seg hseg other hother
      rcases hother with hother | hother
      · exact Json.alike_of_child? (hpart seg hseg) (hpart other hother)
      · exact (hsuits'.takes (hpart seg hseg)).alike hother
    obtain ⟨howner, hhere, hbeside⟩ :=
      enterAll_flatMap_below contributor hnodup halike hpart rfl
    refine ⟨fits_iff.mpr ⟨hafter, fun seg Q hQ => ?_⟩, hgently⟩
    by_cases hseg : seg ∈ s.segments
    · refine ⟨part seg, hpart seg hseg, ?_⟩
      have hentered := getD_entered contributor P.owner (P.child? seg) (changes seg) (part seg)
      rw [← hhere seg hseg, hQ, Option.getD_some] at hentered
      rw [hentered]
      exact (hfits seg hseg).1
    · rw [hbeside seg hseg] at hQ
      rw [hchild, if_neg hseg]
      exact hchildren seg Q hQ

end Provenance

end ModularTemplates
