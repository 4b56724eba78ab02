import Mathlib.Tactic.Lemma
import ModularTemplates.Family.Declaration
import ModularTemplates.Proofs.Merge.Report
import ModularTemplates.Proofs.WrittenPaths

/-!
# Places of rules

Whether a rule reaches below a path is asked without the values there, and it does so exactly if
some path that extends this one has a rule. A rule is for one place of a document only, unless an
object has two keys that spell the same number: `1` and `01` are the same to a rule.
-/

namespace ModularTemplates

/-! ### Matching -/

@[simp] lemma Segment.matches_self (seg : Segment) : seg.matches seg = true := by
  cases seg <;> simp [«matches»]

namespace Path

@[simp] lemma matches_self (p : Path) : Path.matches p p = true := by
  induction p with
  | nil => rfl
  | cons seg p ih => simp [ih]

lemma eq_nil_of_matches {p : Path} (h : Path.matches [] p = true) : p = [] :=
  List.eq_nil_of_length_eq_zero (length_eq_of_matches h).symm

lemma matches_append {r r' p p' : Path} (h : Path.matches r p = true)
    (h' : Path.matches r' p' = true) :
    Path.matches (r ++ r') (p ++ p') = true := by
  induction r generalizing p with
  | nil => rwa [eq_nil_of_matches h]
  | cons a r ih =>
    cases p with
    | nil => simp [Path.matches] at h
    | cons b p =>
      rw [matches_cons, Bool.and_eq_true] at h
      simp [h.1, ih h.2]

/-- What reaches below a path is for some path that extends it. -/
lemma reachesBelow_iff {r p : Path} :
    reachesBelow r p = true ↔ ∃ q, p <+: q ∧ q ≠ p ∧ Path.matches r q = true := by
  induction r generalizing p with
  | nil =>
    refine iff_of_false (by simp [reachesBelow]) ?_
    rintro ⟨q, hprefix, hne, hmatches⟩
    obtain rfl := eq_nil_of_matches hmatches
    exact hne (List.prefix_nil.mp hprefix).symm
  | cons a r ih =>
    cases p with
    | nil =>
      exact iff_of_true rfl ⟨a :: r, List.nil_prefix, List.cons_ne_nil a r,
        matches_self (a :: r)⟩
    | cons b p =>
      rw [reachesBelow, Bool.and_eq_true, ih]
      constructor
      · rintro ⟨hab, q, hprefix, hne, hmatches⟩
        exact ⟨b :: q, List.cons_prefix_cons.mpr
          ⟨rfl, hprefix⟩, by simpa using hne, by simp [hab, hmatches]⟩
      · rintro ⟨_ | ⟨c, q⟩, hprefix, hne, hmatches⟩
        · exact absurd (List.prefix_nil.mp hprefix) (List.cons_ne_nil b p)
        · obtain ⟨rfl, hrest⟩ := List.cons_prefix_cons.mp hprefix
          rw [matches_cons, Bool.and_eq_true] at hmatches
          exact ⟨hmatches.1, q, hrest, by simpa using hne, hmatches.2⟩

end Path

/-! ### Rules below a path -/

namespace Rules

variable {rules : Rules} {p : Path}

lemma find?_ne_none_iff :
    rules.find? p ≠ none ↔ ∃ rule ∈ rules, Path.matches rule.1 p = true := by
  rw [find?, ne_eq, Option.map_eq_none_iff, List.find?_eq_none]
  push Not
  rfl

lemma reachBelow_iff :
    rules.reachBelow p = true ↔ ∃ q, p <+: q ∧ q ≠ p ∧ rules.find? q ≠ none := by
  simp only [reachBelow, List.any_eq_true, Path.reachesBelow_iff, find?_ne_none_iff]
  constructor
  · rintro ⟨rule, hrule, q, hprefix, hne, hmatches⟩
    exact ⟨q, hprefix, hne, rule, hrule, hmatches⟩
  · rintro ⟨q, hprefix, hne, rule, hrule, hmatches⟩
    exact ⟨rule, hrule, q, hprefix, hne, hmatches⟩

end Rules

/-- Rules reach below a path exactly if some longer path has a rule. So, where no rule is for an
array itself, it is merged index by index if there is a rule for a path below it, and replaced as a
whole otherwise. -/
theorem reachBelow_agrees_with_find? (rules : Rules) (p : Path) :
    (rules.reachBelow p = true ↔ ∃ q, p <+: q ∧ q ≠ p ∧ rules.find? q ≠ none) ∧
    ∀ ts ss, rules.find? p = none →
      ((∃ q, p <+: q ∧ q ≠ p ∧ rules.find? q ≠ none) →
        mergeAt rules p (.array ts) (.array ss) = (mergeItems rules p 0 ts ss).map .array) ∧
      ((∀ q, p <+: q → q ≠ p → rules.find? q = none) →
        mergeAt rules p (.array ts) (.array ss) = .changed (.array ss) p .replace) := by
  refine ⟨Rules.reachBelow_iff, fun ts ss hfind => ⟨fun hbelow => ?_, fun hnone => ?_⟩⟩
  · rw [mergeAt, hfind]
    simp only [Rules.reachBelow_iff.mpr hbelow, if_true]
  · refine mergeAt_of_not_descend hfind (Bool.eq_false_iff.mpr fun hdescend => ?_)
    obtain ⟨q, hprefix, hne, hrule⟩ := Rules.reachBelow_iff.mp hdescend
    exact hrule (hnone q hprefix hne)

/-- The rule says the key `01` where an array has the index 1. -/
theorem reachBelow_agrees_with_find?_numeric_key :
    let rules : Rules := [([.key "Tags", .key "01", .key "list"], .append)]
    let p : Path := [.key "Tags"]
    rules.find? p = none ∧ rules.find? (p ++ [.index 1, .key "list"]) = some .append ∧
      ∀ ts ss, mergeAt rules p (.array ts) (.array ss) =
        (mergeItems rules p 0 ts ss).map .array := by
  intro rules p
  have hfind : rules.find? p = none := by rfl
  have hbelow : rules.find? (p ++ [.index 1, .key "list"]) = some .append := by rfl
  refine ⟨hfind, hbelow, fun ts ss =>
    ((reachBelow_agrees_with_find? rules p).2 ts ss hfind).1 ?_⟩
  refine ⟨p ++ [.index 1, .key "list"], List.prefix_append p _, by decide, ?_⟩
  rw [hbelow]
  exact Option.some_ne_none _

/-! ### Two places for one rule -/

/-- Two keys of the object at a path that spell the same number. -/
structure Json.Twins (v : Json) (p : Path) (k l : String) : Prop where
  object : ∃ fs, p.lookup v = some (.object fs) ∧ k ∈ Fields.keys fs ∧ l ∈ Fields.keys fs
  ne : k ≠ l
  number : ∃ i, readIndex? k.toList = some i ∧ readIndex? l.toList = some i

namespace Segment

variable {a seg : Segment}

/-- A written segment matches itself, and an index also the keys that spell it. -/
lemma eq_or_of_matches (hplain : a.Plain) (h : a.matches seg = true) :
    seg = a ∨ ∃ k i, a = .index i ∧ seg = .key k ∧ readIndex? k.toList = some i := by
  cases a with
  | key n =>
    cases seg with
    | key k => exact .inl (congrArg key (beq_iff_eq.mp h).symm)
    | index i => simp [«matches», hplain n rfl] at h
  | index i =>
    cases seg with
    | key k => exact .inr ⟨k, i, rfl, rfl, beq_iff_eq.mp h⟩
    | index j => exact .inl (congrArg index (beq_iff_eq.mp h).symm)

/-- What a written segment matches can be written. -/
lemma writable_of_matches (ha : a.Writable) (hplain : a.Plain) (h : a.matches seg = true) :
    seg.Writable := by
  rcases eq_or_of_matches hplain h with rfl | ⟨k, i, -, rfl, hk⟩
  · exact ha
  · exact (readable_of_readIndex? hk).2.2

/-- A written segment matches two parts of one value only if they have keys that spell
the same number. -/
lemma twins_of_matches {seg other : Segment} {v w u : Json} (hplain : a.Plain) (hne : seg ≠ other)
    (hw : v.child? seg = some w) (hu : v.child? other = some u) (h : a.matches seg = true)
    (h' : a.matches other = true) :
    ∃ k l, seg = .key k ∧ other = .key l ∧ v.Twins [] k l := by
  rcases eq_or_of_matches hplain h with rfl | ⟨k, i, rfl, rfl, hk⟩
  · rcases eq_or_of_matches hplain h' with rfl | ⟨l, i, rfl, rfl, -⟩
    · exact absurd rfl hne
    · cases v with
      | array xs => cases hu
      | _ => cases hw
  · rcases eq_or_of_matches hplain h' with rfl | ⟨l, j, hij, rfl, hl⟩
    · cases v with
      | array xs => cases hw
      | _ => cases hu
    · cases hij
      cases v with
      | object fs =>
        have hkfs : k ∈ Fields.keys fs := Fields.mem_keys_iff.mpr ⟨w, hw⟩
        have hlfs : l ∈ Fields.keys fs := Fields.mem_keys_iff.mpr ⟨u, hu⟩
        exact ⟨k, l, rfl, rfl, ⟨fs, rfl, hkfs, hlfs⟩, fun heq => hne (congrArg key heq),
          i, hk, hl⟩
      | _ => cases hw

end Segment

namespace Path

variable {r p q : Path} {v : Json}

lemma writable_of_matches (hr : r.Writable) (hplain : ∀ seg ∈ r, seg.Plain)
    (h : Path.matches r p = true) :
    p.Writable := by
  induction r generalizing p with
  | nil =>
    obtain rfl := eq_nil_of_matches h
    exact hr
  | cons a r ih =>
    cases p with
    | nil => simp [Path.matches] at h
    | cons seg p =>
      rw [matches_cons, Bool.and_eq_true] at h
      obtain ⟨ha, hr⟩ := List.forall_mem_cons.mp hr
      obtain ⟨haplain, hplain⟩ := List.forall_mem_cons.mp hplain
      exact List.forall_mem_cons.mpr ⟨Segment.writable_of_matches ha haplain h.1,
        ih hr hplain h.2⟩

/-- Two places that a written path matches part at two keys that spell the same number. -/
lemma exists_twins_of_matches (hplain : ∀ seg ∈ r, seg.Plain) (hp : p.lookup v ≠ none)
    (hq : q.lookup v ≠ none) (hpr : Path.matches r p = true) (hqr : Path.matches r q = true)
    (hne : p ≠ q) :
    ∃ a k l, v.Twins a k l ∧ a ++ [.key k] <+: p ∧ a ++ [.key l] <+: q := by
  induction r generalizing p q v with
  | nil =>
    exact absurd ((eq_nil_of_matches hpr).trans (eq_nil_of_matches hqr).symm) hne
  | cons a r ih =>
    match p, q with
    | [], _ => simp [Path.matches] at hpr
    | _ :: _, [] => simp [Path.matches] at hqr
    | seg :: p, other :: q =>
      obtain ⟨ha, hplain⟩ := List.forall_mem_cons.mp hplain
      rw [matches_cons, Bool.and_eq_true] at hpr hqr
      obtain ⟨w, hw⟩ :=
        Option.ne_none_iff_exists'.mp fun hnone : v.child? seg = none => hp (by simp [hnone])
      obtain ⟨u, hu⟩ :=
        Option.ne_none_iff_exists'.mp fun hnone : v.child? other = none => hq (by simp [hnone])
      by_cases heq : seg = other
      · subst heq
        rw [lookup_of_child hw] at hp hq
        obtain ⟨b, k, l, htwins, hk, hl⟩ := ih hplain hp hq hpr.2 hqr.2 (by simpa using hne)
        refine ⟨seg :: b, k, l, ⟨?_, htwins.ne, htwins.number⟩, ?_, ?_⟩
        · rw [lookup_of_child hw]
          exact htwins.object
        · exact List.cons_prefix_cons.mpr ⟨rfl, hk⟩
        · exact List.cons_prefix_cons.mpr ⟨rfl, hl⟩
      · obtain ⟨k, l, rfl, rfl, htwins⟩ := Segment.twins_of_matches ha heq hw hu hpr.1 hqr.1
        exact ⟨[], k, l, htwins, List.cons_prefix_cons.mpr ⟨rfl, List.nil_prefix⟩,
          List.cons_prefix_cons.mpr ⟨rfl, List.nil_prefix⟩⟩

/-- The text of one of two keys that spell the same number is a rule for both of them. -/
lemma exists_rule_of_twins {a : Path} {k l : String} (ha : a.Writable) (h : v.Twins a k l) :
    ∃ text, Path.matches (parse text) (a ++ [.key k]) = true ∧
      Path.matches (parse text) (a ++ [.key l]) = true := by
  obtain ⟨i, hk, hl⟩ := h.number
  obtain ⟨-, hnil, hdot⟩ := readable_of_readIndex? hk
  have hwritable : (a ++ [.key k] : Path).Writable :=
    List.forall_mem_append.mpr ⟨ha, List.forall_mem_singleton.mpr hdot⟩
  have hempty : (a ++ [.key k] : Path) ≠ [.key ""] := by
    intro heq
    obtain ⟨-, hlast⟩ := List.append_inj' (heq.trans (List.nil_append _).symm) rfl
    have hk : k = "" := by simpa using hlast
    exact hnil (String.toList_eq_nil_iff.mpr hk)
  refine ⟨display (a ++ [.key k]), ?_⟩
  rw [parse_display hwritable (by simp) hempty, List.map_append]
  have hbefore : Path.matches (a.map fun seg => Segment.ofChars seg.chars) a = true :=
    matches_map fun seg hseg => Segment.matches_ofChars_chars (ha seg hseg)
  constructor
  · exact matches_append hbefore (by simp [Segment.ofChars, Segment.chars, hk, Segment.matches])
  · exact matches_append hbefore
      (by simp [Segment.ofChars, Segment.chars, hk, hl, Segment.matches])

end Path

/-! ### Where a merge applies its rules -/

/-- Where a merge stopped. -/
def MergeError.path : MergeError → Path
  | .notAnArray path _ => path

/-- The places of the changes of a merge, and the one where it stopped. -/
def Merged.places {α : Type} (m : Merged α) : List Path :=
  m.changes.map Change.path ++ m.error.toList.map MergeError.path

section Places

variable {rules : Rules} {path p : Path}

lemma Merged.mem_places_next {α β : Type} {m : Merged α} {target : β} {rest : Merged β}
    (h : p ∈ (m.next target rest).places) : p ∈ m.places ∨ p ∈ rest.places := by
  unfold Merged.next at h
  split at h
  · rename_i e he
    left
    simpa [Merged.places, he] using h
  · rename_i he
    simp only [Merged.places, List.map_append, List.mem_append, he, Option.toList_none,
      List.map_nil, List.append_nil] at h ⊢
    tauto

lemma places_applyOperation (operation : Operation) (path : Path) (t s : Json) :
    (applyOperation operation path t s).places = [path] := by
  have hadd : (addItems operation path t s).places = [path] := by
    unfold addItems
    split
    · split_ifs <;> rfl
    · rfl
  cases operation with
  | replace | combine => rfl
  | append | prepend => exact hadd

/-- What is done when fields are merged is done below one of the fields. -/
lemma of_mem_places_mergeFields {ts : Fields Json} {ss : List (String × Json)} {found : Prop}
    (hfound : ∀ k s, (k, s) ∈ ss →
      ∀ t, p ∈ (mergeAt rules (path ++ [.key k]) t s).places → found)
    (h : p ∈ (mergeFields rules path ts ss).places) : found := by
  induction ss generalizing ts with
  | nil => simp [mergeFields, Merged.places] at h
  | cons field ss ih =>
    rw [mergeFields] at h
    rcases Merged.mem_places_next h with h | h
    · exact hfound field.1 field.2 List.mem_cons_self _ h
    · exact ih (fun k s hmem => hfound k s (List.mem_cons_of_mem field hmem)) h

/-- What is done when items are merged is done below one of the items. -/
lemma of_mem_places_mergeItems {i : Nat} {ts ss : List Json} {found : Prop}
    (hfound : ∀ j s, ss[j]? = some s →
      ∀ t, p ∈ (mergeAt rules (path ++ [.index (i + j)]) t s).places → found)
    (h : p ∈ (mergeItems rules path i ts ss).places) : found := by
  induction ss generalizing i ts with
  | nil => simp [mergeItems, Merged.places] at h
  | cons s ss ih =>
    rw [mergeItems] at h
    rcases Merged.mem_places_next h with h | h
    · exact hfound 0 s rfl _ h
    · refine ih (fun j s' hj t ht => hfound (j + 1) s' hj t ?_) h
      rwa [Nat.add_comm j 1, ← Nat.add_assoc]

/-- A merge changes the target, or stops, at places of the source only. -/
lemma lookup_of_mem_places (rules : Rules) (path : Path) (t s : Json) (hs : s.WellFormed)
    (h : p ∈ (mergeAt rules path t s).places) : ∃ q, p = path ++ q ∧ q.lookup s ≠ none := by
  have hhere : p ∈ [path] → ∃ q, p = path ++ q ∧ q.lookup s ≠ none := by
    rintro hp
    exact ⟨[], by rw [List.mem_singleton.mp hp, List.append_nil], by simp⟩
  have hbelow : ∀ seg s', s.child? seg = some s' →
    ∀ t', p ∈ (mergeAt rules (path ++ [seg]) t' s').places →
      ∃ q, p = path ++ q ∧ q.lookup s ≠ none := by
    intro seg s' hs' t' hp
    obtain ⟨q, rfl, hq⟩ := lookup_of_mem_places rules (path ++ [seg]) t' s' (hs.child? hs') hp
    exact ⟨seg :: q, by simp, by rwa [Path.lookup_of_child hs']⟩
  cases hfind : rules.find? path with
  | some operation =>
    rw [mergeAt_of_rule hfind, places_applyOperation] at h
    exact hhere h
  | none =>
    cases hdescend : rules.descend path t s with
    | false =>
      rw [mergeAt_of_not_descend hfind hdescend] at h
      exact hhere h
    | true =>
      obtain ⟨ts, ss, rfl, rfl⟩ | ⟨ts, ss, rfl, rfl⟩ := Rules.containers_of_descend hdescend
      · simp only [mergeAt, hfind] at h
        exact of_mem_places_mergeFields
          (fun k s' hmem => hbelow (.key k) s' (hs.distinct.get?_of_mem hmem)) h
      · have hreach : rules.reachBelow path = true := hdescend
        simp only [mergeAt, hfind, hreach, if_true] at h
        refine of_mem_places_mergeItems (fun i s' hi t' hp => hbelow (.index i) s' hi t' ?_) h
        rwa [Nat.zero_add] at hp
termination_by sizeOf s
decreasing_by exact Json.sizeOf_lt_of_child? hs'

end Places

/-! ### Declared rules -/

lemma exists_of_mapM_eq_some {α β : Type} {f : α → Option β} {l : List α} {r : List β}
    (h : l.mapM f = some r) :
    ∀ b ∈ r, ∃ a ∈ l, f a = some b := by
  induction l generalizing r with
  | nil =>
    cases h
    exact fun b hb => absurd hb List.not_mem_nil
  | cons a l ih =>
    rw [List.mapM_cons] at h
    obtain ⟨b, hb, h⟩ := Option.bind_eq_some_iff.mp h
    obtain ⟨bs, hbs, h⟩ := Option.bind_eq_some_iff.mp h
    cases h
    refine List.forall_mem_cons.mpr ⟨⟨a, List.mem_cons_self, hb⟩, fun b' hb' => ?_⟩
    obtain ⟨a', ha', hf⟩ := ih hbs b' hb'
    exact ⟨a', List.mem_cons_of_mem a ha', hf⟩

/-- A declared rule is written as a text. -/
lemma Rules.exists_text {v : Json} {rules : Rules} (h : Rules.ofJson? v = some rules) :
    ∀ rule ∈ rules, ∃ text, rule.1 = Path.parse text := by
  cases v with
  | object fs =>
    intro rule hrule
    obtain ⟨field, -, hfield⟩ := exists_of_mapM_eq_some h rule hrule
    obtain ⟨operation, -, heq⟩ := Option.bind_eq_some_iff.mp hfield
    cases heq
    exact ⟨field.1, rfl⟩
  | _ => cases h

lemma Declaration.exists_text {v : Json} {d : Declaration} (h : Declaration.ofJson? v = some d) :
    ∀ rule ∈ d.rules, ∃ text, rule.1 = Path.parse text := by
  obtain ⟨fields, -, h⟩ := Option.bind_eq_some_iff.mp h
  split at h
  · obtain ⟨module, -, h⟩ := Option.bind_eq_some_iff.mp h
    obtain ⟨resource, -, h⟩ := Option.bind_eq_some_iff.mp h
    obtain ⟨rules, hrules, h⟩ := Option.bind_eq_some_iff.mp h
    cases h
    unfold DataFormat.withDefault at hrules
    split at hrules
    · exact Rules.exists_text hrules
    · cases hrules
      exact fun rule hrule => absurd hrule List.not_mem_nil
  · cases h

/-! ### One place for one rule -/

namespace Json

variable {v : Json} {p q : Path}

/-- Two paths go on under the one and the other of two keys of an object that spell the same
number. -/
def PartAtTwins (v : Json) (p q : Path) : Prop :=
  ∃ a k l, a.Writable ∧ v.Twins a k l ∧ a ++ [.key k] <+: p ∧ a ++ [.key l] <+: q

/-- No object that a rule can lead to has two keys that spell the same number. -/
def SpellsOnce (v : Json) : Prop :=
  ∀ a k l, a.Writable → ¬ v.Twins a k l

lemma eq_or_partAtTwins {text : String} (hp : p.lookup v ≠ none) (hq : q.lookup v ≠ none)
    (hpr : Path.matches (.parse text) p = true) (hqr : Path.matches (.parse text) q = true) :
    p = q ∨ v.PartAtTwins p q := by
  obtain ⟨hwritable, hplain⟩ := Path.writable_parse text
  by_cases hne : p = q
  · exact .inl hne
  · obtain ⟨a, k, l, htwins, hk, hl⟩ := Path.exists_twins_of_matches hplain hp hq hpr hqr hne
    have ha : a ⊆ p := fun seg hseg => hk.subset (List.mem_append_left _ hseg)
    have hpw := Path.writable_of_matches hwritable hplain hpr
    exact .inr ⟨a, k, l, fun seg hseg => hpw seg (ha hseg), htwins, hk, hl⟩

lemma lookup_of_mem_keys {fs : Fields Json} {k : String} (hfs : p.lookup v = some (.object fs))
    (hk : k ∈ Fields.keys fs) : Path.lookup (p ++ [.key k]) v ≠ none := by
  obtain ⟨w, hw⟩ := Fields.mem_keys_iff.mp hk
  have hchild : (object fs).child? (.key k) = some w := hw
  rw [Path.lookup_append, hfs, Option.bind_some, Path.lookup_of_child hchild]
  exact Option.some_ne_none w

end Json

/-- A rule text is for two places of a document only if these part at two keys of one object that
spell the same number. So among the places of a merge, each declared rule applies at no more than
one path, unless the source has such keys. Every rule text is for one place at most exactly if no
object that a rule can lead to has two of them. -/
theorem rule_governs_one_place (v : Json) :
    (∀ text p q, p.lookup v ≠ none → q.lookup v ≠ none →
      Path.matches (.parse text) p = true →
      Path.matches (.parse text) q = true → p = q ∨ v.PartAtTwins p q) ∧
    (v.WellFormed → ∀ declared d t, Declaration.ofJson? declared = some d →
      ∀ rule ∈ d.rules,
      ∀ p ∈ (merge d.rules t v).places, ∀ q ∈ (merge d.rules t v).places,
        Path.matches rule.1 p = true → Path.matches rule.1 q = true →
          p = q ∨ v.PartAtTwins p q) ∧
    ((∀ text p q, p.lookup v ≠ none → q.lookup v ≠ none →
      Path.matches (.parse text) p = true →
      Path.matches (.parse text) q = true → p = q) ↔ v.SpellsOnce) := by
  refine ⟨fun text p q hp hq => Json.eq_or_partAtTwins hp hq, ?_, fun hone a k l ha htwins => ?_,
    fun honce text p q hp hq hpr hqr => ?_⟩
  · intro hv declared d t hd rule hrule p hp q hq hpr hqr
    obtain ⟨text, htext⟩ := Declaration.exists_text hd rule hrule
    obtain ⟨p', rfl, hp'⟩ := lookup_of_mem_places d.rules [] t v hv hp
    obtain ⟨q', rfl, hq'⟩ := lookup_of_mem_places d.rules [] t v hv hq
    exact Json.eq_or_partAtTwins hp' hq' (htext ▸ hpr) (htext ▸ hqr)
  · obtain ⟨text, hk, hl⟩ := Path.exists_rule_of_twins ha htwins
    obtain ⟨fs, hfs, hkfs, hlfs⟩ := htwins.object
    have heq :=
      hone text _ _ (Json.lookup_of_mem_keys hfs hkfs) (Json.lookup_of_mem_keys hfs hlfs) hk hl
    exact htwins.ne (by simpa using heq)
  · rcases Json.eq_or_partAtTwins hp hq hpr hqr with heq | ⟨a, k, l, ha, htwins, -, -⟩
    · exact heq
    · exact absurd htwins (honce a k l ha)

/-- The rule `list.+1` is for the second item, and nothing else that is merged is a place
of this rule. -/
theorem rule_governs_one_place_item :
    let t : Json := .object [("list", .array [.array [.string "x"], .array [.string "y"]])]
    let v : Json := .object [("list", .array [.array [.string "a"], .array [.string "b"]])]
    let declared : Json :=
      .object [("resource", .string "api"), ("rules", .object [("list.+1", .string "APPEND")])]
    let p : Path := [.key "list", .index 1]
    v.WellFormed ∧ ∃ d, Declaration.ofJson? declared = some d ∧
      (merge d.rules t v).places = [[.key "list", .index 0], p] ∧
      ∀ rule ∈ d.rules, Path.matches rule.1 p = true ∧
        ∀ q ∈ (merge d.rules t v).places, Path.matches rule.1 q = true → p = q := by
  intro t v declared p
  have hv : v.WellFormed := by decide
  obtain ⟨d, hd⟩ : ∃ d, Declaration.ofJson? declared = some d := ⟨_, rfl⟩
  have hrules : d.rules = [(.parse "list.+1", .append)] := by
    cases hd
    rfl
  have hplaces : (merge d.rules t v).places = [[.key "list", .index 0], p] := by
    rw [hrules]
    rfl
  have hmatches : ∀ rule ∈ d.rules, Path.matches rule.1 p = true := by
    rw [hrules]
    decide
  refine ⟨hv, d, hd, hplaces, fun rule hrule => ⟨hmatches rule hrule, fun q hq hqr => ?_⟩⟩
  have hp : p ∈ (merge d.rules t v).places := by
    rw [hplaces]
    decide
  rcases (rule_governs_one_place v).2.1 hv declared d t hd rule hrule p hp q hq
      (hmatches rule hrule) hqr with
    heq | ⟨a, k, l, -, htwins, hk, -⟩
  · exact heq
  · -- the only key of the place spells no number
    have hmem : Segment.key k ∈ p := hk.subset (by simp)
    obtain rfl : k = "list" := by simpa [p] using hmem
    obtain ⟨i, hread, -⟩ := htwins.number
    have hnone : readIndex? "list".toList = none := by decide
    exact absurd (hread.symm.trans hnone) (Option.some_ne_none i)

/-- The rule `1` is for two keys of one object, and its operation is recorded twice. -/
theorem rule_governs_two_places :
    let v : Json := .object [("1", .array [.string "a"]), ("01", .array [.string "b"])]
    let declared : Json :=
      .object [("resource", .string "api"), ("rules", .object [("1", .string "APPEND")])]
    let p : Path := [.key "1"]
    let q : Path := [.key "01"]
    v.WellFormed ∧ p.lookup v ≠ none ∧ q.lookup v ≠ none ∧
      Path.matches (.parse "1") p = true ∧ Path.matches (.parse "1") q = true ∧ p ≠ q ∧
      ∃ d, Declaration.ofJson? declared = some d ∧ d.rules = [(.parse "1", .append)] ∧
        (merge d.rules (.object []) v).result =
          .ok (v, [⟨p, .append 1⟩, ⟨q, .append 1⟩]) := by
  refine ⟨by decide, by decide, by decide, by decide, by decide, by decide, _, rfl, rfl, rfl⟩

end ModularTemplates
