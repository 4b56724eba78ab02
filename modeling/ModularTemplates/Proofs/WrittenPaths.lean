import Mathlib.Tactic.Lemma
import ModularTemplates.Proofs.Merge.Outcome

/-!
# Paths as they are written

Every path whose keys have no dots can be written down, and the text leads back to it up to the
spelling of numbers: a key that spells a number comes back as the index. So a rule that is spelled
like the text of a path is for the values at this path.
-/

namespace ModularTemplates

/-! ### Pieces between dots -/

lemma splitDots_eq (cs : List Char) : splitDots cs = cs.splitOn '.' := by
  induction cs with
  | nil => rfl
  | cons c cs ih =>
    rw [splitDots, List.splitOn_cons_eq_if_modifyHead, ih]
    by_cases hc : c = '.'
    · simp [hc]
    · rw [if_neg hc, if_neg (by simpa using hc)]
      obtain ⟨piece, pieces, heq⟩ := List.exists_cons_of_ne_nil (List.splitOn_ne_nil '.' cs)
      rw [heq]
      rfl

lemma joinDots_eq (pieces : List (List Char)) : joinDots pieces = ['.'].intercalate pieces := by
  induction pieces with
  | nil => rfl
  | cons piece pieces ih =>
    cases pieces with
    | nil => simp [joinDots]
    | cons next pieces => simp [joinDots, ih, List.intercalate_cons_cons]

/-- Pieces without dots are found again between the dots that join them. -/
lemma splitDots_joinDots {pieces : List (List Char)} (hne : pieces ≠ [])
    (h : ∀ piece ∈ pieces, '.' ∉ piece) :
    splitDots (joinDots pieces) = pieces := by
  rw [splitDots_eq, joinDots_eq, List.splitOn_intercalate '.' h hne]

lemma joinDots_splitDots (cs : List Char) : joinDots (splitDots cs) = cs := by
  rw [splitDots_eq, joinDots_eq, List.intercalate_splitOn]

lemma splitDots_ne_nil (cs : List Char) : splitDots cs ≠ [] := by
  rw [splitDots_eq]
  exact List.splitOn_ne_nil '.' cs

lemma not_mem_of_mem_splitDots {piece cs : List Char} (h : piece ∈ splitDots cs) :
    '.' ∉ piece := by
  induction cs generalizing piece with
  | nil =>
    rw [splitDots, List.mem_singleton] at h
    simp [h]
  | cons c cs ih =>
    rw [splitDots] at h
    split_ifs at h with hc
    · rcases List.mem_cons.mp h with rfl | h
      · exact List.not_mem_nil
      · exact ih h
    · obtain ⟨first, rest, heq⟩ := List.exists_cons_of_ne_nil (splitDots_ne_nil cs)
      rw [heq] at h ih
      rcases List.mem_cons.mp h with rfl | h
      · rw [List.mem_cons, not_or]
        exact ⟨Ne.symm hc, ih List.mem_cons_self⟩
      · exact ih (List.mem_cons_of_mem first h)

/-! ### Numbers in text -/

lemma readIndex?_digitChars {i : Nat} (h : i ≤ greatestIndex) :
    readIndex? (Decimal.digitChars i) = some i := by
  have hdigit : ∀ c ∈ Decimal.digitChars i, c.isDigit = true := fun c hc =>
    Nat.isDigit_of_mem_toDigits (by omega) (by omega) hc
  have hall : (Decimal.digitChars i).all Char.isDigit = true := List.all_eq_true.mpr hdigit
  have hvalue : Decimal.ofDigitChars (Decimal.digitChars i) = i := Nat.ofDigitChars_ten_toDigits
  have hne : Decimal.digitChars i ≠ [] := Nat.toDigits_ne_nil
  unfold readIndex?
  split
  · rename_i rest heq
    exact absurd (hdigit '+' (heq ▸ List.mem_cons_self)) (by decide)
  · simp [hne, hall, hvalue, h]

/-- A number is spelled by at least one character; there are digits and perhaps a plus
sign, and no dots. -/
lemma readable_of_readIndex? {cs : List Char} {i : Nat} (h : readIndex? cs = some i) :
    i ≤ greatestIndex ∧ cs ≠ [] ∧ '.' ∉ cs := by
  have hdot : ∀ digits : List Char, digits.all Char.isDigit = true → '.' ∉ digits :=
    fun digits hall hmem =>
    absurd (List.all_eq_true.mp hall '.' hmem) (by decide)
  unfold readIndex? at h
  split at h
  · rename_i rest
    simp only [Option.ite_none_left_eq_some, Option.ite_none_right_eq_some, Option.some.injEq,
      Bool.or_eq_true, Bool.not_eq_true', not_or, Bool.not_eq_false] at h
    obtain ⟨⟨-, hall⟩, hle, rfl⟩ := h
    refine ⟨hle, List.cons_ne_nil _ _, ?_⟩
    rw [List.mem_cons, not_or]
    exact ⟨by decide, hdot rest hall⟩
  · simp only [Option.ite_none_left_eq_some, Option.ite_none_right_eq_some, Option.some.injEq,
      Bool.or_eq_true, Bool.not_eq_true', not_or, Bool.not_eq_false, List.isEmpty_iff] at h
    obtain ⟨⟨hne, hall⟩, hle, rfl⟩ := h
    exact ⟨hle, hne, hdot cs hall⟩

/-! ### Segments -/

namespace Segment

/-- A segment that can stand between dots: a key without dots, or an index that is a
machine word. -/
def Writable : Segment → Prop
  | .key name => '.' ∉ name.toList
  | .index i => i ≤ greatestIndex

instance : DecidablePred Writable
  | .key name => inferInstanceAs (Decidable ('.' ∉ name.toList))
  | .index i => inferInstanceAs (Decidable (i ≤ greatestIndex))

/-- The segment is no key that spells a number. -/
def Plain (seg : Segment) : Prop :=
  ∀ k, seg = .key k → readIndex? k.toList = none

lemma not_mem_chars {seg : Segment} (h : seg.Writable) : '.' ∉ seg.chars := by
  cases seg with
  | key name => exact h
  | index i => exact (readable_of_readIndex? (readIndex?_digitChars h)).2.2

lemma eq_of_chars_eq_nil {seg : Segment} (h : seg.chars = []) : seg = .key "" := by
  cases seg with
  | key name => exact congrArg key (String.toList_eq_nil_iff.mp h)
  | index i => exact absurd h Nat.toDigits_ne_nil

lemma matches_ofChars_chars {seg : Segment} (h : seg.Writable) :
    (ofChars seg.chars).matches seg = true := by
  cases seg with
  | key name =>
    cases hread : readIndex? name.toList with
    | none => simp [ofChars, chars, hread, «matches»]
    | some i => simp [ofChars, chars, hread, «matches»]
  | index i => simp [ofChars, chars, readIndex?_digitChars h, «matches»]

lemma ofChars_chars_eq_iff {seg : Segment} (h : seg.Writable) :
    ofChars seg.chars = seg ↔ seg.Plain := by
  cases seg with
  | key name =>
    cases hread : readIndex? name.toList with
    | none => simp [ofChars, chars, hread, Plain]
    | some i => simp [ofChars, chars, hread, Plain]
  | index i => simp [ofChars, chars, readIndex?_digitChars h, Plain]

lemma writable_ofChars {cs : List Char} (h : '.' ∉ cs) : (ofChars cs).Writable := by
  cases hread : readIndex? cs with
  | none => simpa [ofChars, hread, Writable] using h
  | some i => simpa [ofChars, hread, Writable] using (readable_of_readIndex? hread).1

lemma plain_ofChars (cs : List Char) : (ofChars cs).Plain := by
  cases hread : readIndex? cs with
  | none => simp [ofChars, hread, Plain]
  | some i => simp [ofChars, hread, Plain]

lemma eq_nil_of_ofChars {cs : List Char} (h : ofChars cs = .key "") : cs = [] := by
  cases hread : readIndex? cs with
  | none => simpa [ofChars, hread] using h
  | some i => simp [ofChars, hread] at h

end Segment

/-! ### Paths -/

namespace Path

/-- A path whose segments can stand between dots. -/
def Writable (p : Path) : Prop :=
  ∀ seg ∈ p, seg.Writable

instance : DecidablePred Writable :=
  fun p => inferInstanceAs (Decidable (∀ seg ∈ p, seg.Writable))

lemma parse_of_ne {text : String} (h : text ≠ "") :
    parse text = (splitDots text.toList).map Segment.ofChars := by
  rw [parse, if_neg (by simpa using h)]

/-- What a text denotes can be written, with every number as an index. -/
lemma writable_parse (text : String) :
    (parse text).Writable ∧ ∀ seg ∈ parse text, seg.Plain := by
  by_cases h : text = ""
  · rw [h]
    exact ⟨fun seg hseg => absurd hseg List.not_mem_nil,
      fun seg hseg => absurd hseg List.not_mem_nil⟩
  · rw [parse_of_ne h]
    constructor
    · intro seg hseg
      obtain ⟨cs, hcs, rfl⟩ := List.mem_map.mp hseg
      exact Segment.writable_ofChars (not_mem_of_mem_splitDots hcs)
    · intro seg hseg
      obtain ⟨cs, -, rfl⟩ := List.mem_map.mp hseg
      exact Segment.plain_ofChars cs

/-- The text of a path is read piece by piece. -/
lemma parse_display {p : Path} (h : p.Writable) (hroot : p ≠ []) (hempty : p ≠ [.key ""]) :
    parse p.display = p.map fun seg => Segment.ofChars seg.chars := by
  have hpieces : splitDots (joinDots (p.map Segment.chars)) = p.map Segment.chars := by
    refine splitDots_joinDots (by simpa using hroot) fun piece hpiece => ?_
    obtain ⟨seg, hseg, rfl⟩ := List.mem_map.mp hpiece
    exact Segment.not_mem_chars (h seg hseg)
  have hdisplay : p.display = String.ofList (joinDots (p.map Segment.chars)) := by
    rw [display, if_neg (by simpa using hroot)]
  -- nothing is written for the path of one empty key only
  have hne : p.display ≠ "" := by
    intro heq
    have hjoin : joinDots (p.map Segment.chars) = [] := by
      simpa [hdisplay] using congrArg String.toList heq
    rw [hjoin, splitDots, eq_comm, List.map_eq_singleton_iff] at hpieces
    obtain ⟨seg, rfl, hseg⟩ := hpieces
    exact hempty (congrArg (fun seg => [seg]) (Segment.eq_of_chars_eq_nil hseg))
  rw [parse_of_ne hne, hdisplay, String.toList_ofList, hpieces, List.map_map]
  rfl

lemma matches_map {f : Segment → Segment} {p : Path}
    (h : ∀ seg ∈ p, (f seg).matches seg = true) :
    Path.matches (p.map f) p = true := by
  induction p with
  | nil => rfl
  | cons seg p ih =>
    rw [List.forall_mem_cons] at h
    rw [List.map_cons, matches_cons, h.1, ih h.2]
    rfl

/-- The text of a path is the one of a rule for it. -/
lemma matches_parse_display {p : Path} (h : p.Writable) (hroot : p ≠ [])
    (hempty : p ≠ [.key ""]) :
    Path.matches (parse p.display) p = true := by
  rw [parse_display h hroot hempty]
  exact matches_map fun seg hseg => Segment.matches_ofChars_chars (h seg hseg)

/-- The text of a path stands for the path itself unless a key spells a number. -/
lemma parse_display_eq_iff {p : Path} (h : p.Writable) (hroot : p ≠ [])
    (hempty : p ≠ [.key ""]) :
    parse p.display = p ↔ ∀ seg ∈ p, seg.Plain := by
  rw [parse_display h hroot hempty]
  calc p.map (fun seg => Segment.ofChars seg.chars) = p
      ↔ p.map (fun seg => Segment.ofChars seg.chars) = p.map id := by rw [List.map_id]
    _ ↔ ∀ seg ∈ p, Segment.ofChars seg.chars = seg := List.map_inj_left
    _ ↔ ∀ seg ∈ p, seg.Plain :=
      forall₂_congr fun seg hseg => Segment.ofChars_chars_eq_iff (h seg hseg)

/-- The text of what was read from a text stands for the same. -/
lemma parse_display_parse {text : String} (htext : text ≠ "") :
    parse (parse text).display = parse text := by
  obtain ⟨hwritable, hplain⟩ := writable_parse text
  refine (parse_display_eq_iff hwritable ?_ ?_).mpr hplain
  · rw [parse_of_ne htext]
    simpa using splitDots_ne_nil text.toList
  · intro heq
    obtain ⟨piece, hpiece, hkey⟩ :=
      List.map_eq_singleton_iff.mp ((parse_of_ne htext).symm.trans heq)
    have hjoin := joinDots_splitDots text.toList
    rw [hpiece, joinDots, Segment.eq_nil_of_ofChars hkey] at hjoin
    exact htext (String.toList_eq_nil_iff.mp hjoin.symm)

/-- Every path without dots in its keys, other than the root and the path of one empty key, can be
addressed as it is displayed: its text is the one of a rule for it, and stands for the path itself
unless a key spells a number. The text of what was read from a text stands for the same. -/
theorem addressed_as_displayed :
    (∀ p : Path, p.Writable → p ≠ [] → p ≠ [.key ""] →
      Path.matches (parse p.display) p = true ∧
      (∀ (earlier later : Rules) (operation : Operation), earlier.find? p = none →
        Rules.find? (earlier ++ (parse p.display, operation) :: later) p = some operation ∧
        ∀ t s, mergeAt (earlier ++ (parse p.display, operation) :: later) p t s =
          applyOperation operation p t s) ∧
      (parse p.display = p ↔ ∀ k, .key k ∈ p → readIndex? k.toList = none)) ∧
    ∀ text : String, text ≠ "" → parse (parse text).display = parse text := by
  refine ⟨fun p hp hroot hempty => ?_, fun text => parse_display_parse⟩
  have hmatches := matches_parse_display hp hroot hempty
  refine ⟨hmatches, fun earlier later operation hearlier => ?_, ?_⟩
  · have hfind : Rules.find? (earlier ++ (parse p.display, operation) :: later) p =
        some operation := by
      rw [Rules.find?, Option.map_eq_none_iff] at hearlier
      simp [Rules.find?, hearlier, hmatches]
    exact ⟨hfind, mergeAt_of_rule hfind⟩
  · rw [parse_display_eq_iff hp hroot hempty]
    constructor
    · intro h k hk
      exact h _ hk k rfl
    · rintro h seg hseg k rfl
      exact h k hseg

/-- A rule written `Tags.01.3` is for what stands under the key `01`, though it says the index 1. -/
theorem addressed_as_displayed_numeric_key :
    let p : Path := [.key "Tags", .key "01", .index 3]
    p.Writable ∧ p ≠ [] ∧ p ≠ [.key ""] ∧ p.display = "Tags.01.3" ∧
      Path.matches (parse p.display) p = true ∧
      Rules.find? [(parse p.display, .append)] p = some .append ∧ parse p.display ≠ p := by
  intro p
  have hp : p.Writable := by decide
  have hroot : p ≠ [] := by decide
  have hempty : p ≠ [.key ""] := by decide
  obtain ⟨hmatches, hrule, hsame⟩ := addressed_as_displayed.1 p hp hroot hempty
  refine ⟨hp, hroot, hempty, by rfl, hmatches, (hrule [] [] .append rfl).1, fun heq => ?_⟩
  exact absurd (hsame.mp heq "01" (by decide)) (by decide)

end Path

end ModularTemplates
