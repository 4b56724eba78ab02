import Mathlib.Data.List.Forall2
import Mathlib.Data.List.Induction
import Mathlib.Data.List.Nodup
import Mathlib.Tactic.Lemma
import ModularTemplates.Fields

/-!
# Updating ordered fields

`Fields.update` sets fields one after the other. When the new names are pairwise distinct the order
of the steps does not matter for the values, and the names come out as the old ones followed by the
new ones. When names are repeated the first place and the last value of a name count.
-/

namespace ModularTemplates

/-! ### Options that are related -/

section Options

variable {α β : Type} {R S : α → β → Prop} {a : Option α} {b : Option β}

lemma exists_of_rel (h : Option.Rel R a b) {x : α} (hx : a = some x) :
    ∃ y, b = some y ∧ R x y := by
  subst hx
  cases h with
  | some hxy => exact ⟨_, rfl, hxy⟩

lemma exists_of_rel_right (h : Option.Rel R a b) {y : β} (hy : b = some y) :
    ∃ x, a = some x ∧ R x y := by
  subst hy
  cases h with
  | some hxy => exact ⟨_, rfl, hxy⟩

lemma rel_imp (h : Option.Rel R a b)
    (hRS : ∀ x y, a = some x → b = some y → R x y → S x y) :
    Option.Rel S a b := by
  cases h with
  | none => exact .none
  | some hxy => exact .some (hRS _ _ rfl rfl hxy)

end Options

namespace Fields

universe u v

variable {α : Type u} {β : Type v}

/-! ### Names -/

@[simp] lemma keys_nil : keys ([] : Fields α) = [] := rfl

@[simp] lemma keys_cons (field : String × α) (fs : Fields α) :
    keys (field :: fs) = field.1 :: fs.keys := rfl

@[simp] lemma keys_append (fs gs : Fields α) : keys (fs ++ gs) = fs.keys ++ gs.keys := by
  simp [keys]

lemma mem_keys_iff {fs : Fields α} {key : String} :
    key ∈ fs.keys ↔ ∃ v, fs.get? key = some v := by
  rw [← Option.ne_none_iff_exists', Ne, get?_eq_none_iff, not_not]

lemma mem_keys_of_get? {fs : Fields α} {key : String} {v : α} (h : fs.get? key = some v) :
    key ∈ fs.keys :=
  mem_keys_iff.mpr ⟨v, h⟩

/-- In distinct fields a listed field is the one that is found. -/
lemma Distinct.get?_of_mem {fs : Fields α} (h : fs.Distinct) {key : String} {v : α}
    (hmem : (key, v) ∈ fs) : fs.get? key = some v := by
  induction fs with
  | nil => simp at hmem
  | cons field rest ih =>
    obtain ⟨k, w⟩ := field
    rw [Distinct, keys_cons, List.nodup_cons] at h
    rcases List.mem_cons.mp hmem with heq | hrest
    · cases heq
      exact get?_cons_self key v rest
    · have hne : k ≠ key := by
        rintro rfl
        exact h.1 (List.mem_map.mpr ⟨(k, v), hrest, rfl⟩)
      rw [get?_cons_of_ne hne]
      exact ih h.2 hrest

lemma Distinct.mem_iff {fs : Fields α} (h : fs.Distinct) {key : String} {v : α} :
    (key, v) ∈ fs ↔ fs.get? key = some v :=
  ⟨h.get?_of_mem, mem_of_get?⟩

/-! ### Order -/

/-- The order of distinct fields does not matter for what is found. -/
lemma Distinct.get?_perm {fs gs : Fields α} (hfs : fs.Distinct) (h : fs.Perm gs) (key : String) :
    fs.get? key = gs.get? key := by
  have hgs : gs.Distinct := (h.map Prod.fst).nodup_iff.mp hfs
  apply Option.ext
  intro v
  rw [← hfs.mem_iff, ← hgs.mem_iff, h.mem_iff]

/-- Distinct fields in which the same is found are the same fields in some order. -/
lemma Distinct.perm_of_get? {fs gs : Fields α} (hfs : fs.Distinct) (hgs : gs.Distinct)
    (h : ∀ key, fs.get? key = gs.get? key) : fs.Perm gs := by
  refine (List.perm_ext_iff_of_nodup (.of_map _ hfs) (.of_map _ hgs)).mpr ?_
  rintro ⟨key, v⟩
  rw [hfs.mem_iff, hgs.mem_iff, h]

lemma keys_set (fs : Fields α) (key : String) (v : α) :
    (fs.set key v).keys = if key ∈ fs.keys then fs.keys else fs.keys ++ [key] := by
  split_ifs with h
  · exact keys_set_of_mem h v
  · rw [set_of_not_mem h v, keys_append]
    rfl

lemma get?_set (fs : Fields α) (key other : String) (v : α) :
    (fs.set key v).get? other = if other = key then some v else fs.get? other := by
  split_ifs with h
  · rw [h, get?_set_self]
  · exact get?_set_of_ne h fs v

lemma set_set (fs : Fields α) (key : String) (v w : α) :
    (fs.set key v).set key w = fs.set key w := by
  induction fs with
  | nil => simp [set]
  | cons field rest ih =>
    obtain ⟨k, u⟩ := field
    by_cases hk : k = key
    · simp [set, hk]
    · simp [set, hk, ih]

/-! ### Updating -/

@[simp] lemma update_nil (fs : Fields α) : fs.update [] = fs := rfl

@[simp] lemma update_cons (fs : Fields α) (field : String × α) (new : Fields α) :
    fs.update (field :: new) = (fs.set field.1 field.2).update new := rfl

lemma get?_update_of_not_mem {new : Fields α} {key : String} (h : key ∉ new.keys)
    (fs : Fields α) :
    (fs.update new).get? key = fs.get? key := by
  induction new generalizing fs with
  | nil => rfl
  | cons field rest ih =>
    rw [keys_cons, List.mem_cons, not_or] at h
    rw [update_cons, ih h.2, get?_set_of_ne h.1]

lemma get?_update_of_get? {new : Fields α} (hnew : new.Distinct) {key : String} {v : α}
    (h : new.get? key = some v) (fs : Fields α) : (fs.update new).get? key = some v := by
  induction new generalizing fs with
  | nil => simp at h
  | cons field rest ih =>
    obtain ⟨k, w⟩ := field
    rw [Distinct, keys_cons, List.nodup_cons] at hnew
    rw [update_cons]
    by_cases hk : k = key
    · subst hk
      rw [get?_cons_self] at h
      rw [get?_update_of_not_mem hnew.1, get?_set_self, h]
    · rw [get?_cons_of_ne hk] at h
      exact ih hnew.2 h _

/-- Old names keep their order and new ones follow in theirs. -/
lemma keys_update {new : Fields α} (hnew : new.Distinct) (fs : Fields α) :
    (fs.update new).keys = fs.keys ++ new.keys.filter (· ∉ fs.keys) := by
  induction new generalizing fs with
  | nil => simp
  | cons field rest ih =>
    obtain ⟨k, w⟩ := field
    rw [Distinct, keys_cons, List.nodup_cons] at hnew
    rw [update_cons, ih hnew.2, keys_set, keys_cons]
    by_cases hk : k ∈ fs.keys
    · simp [hk]
    · have hrest : (keys rest).filter (· ∉ fs.keys ++ [k]) =
          (keys rest).filter (· ∉ fs.keys) := by
        apply List.filter_congr
        intro other hother
        have hne : other ≠ k := by
          rintro rfl
          exact hnew.1 hother
        simp [hne]
      simp only [hk, if_false, hrest, not_false_eq_true, decide_true, List.filter_cons_of_pos,
        List.append_assoc, List.singleton_append]

lemma mem_keys_update_iff {fs new : Fields α} {key : String} :
    key ∈ (fs.update new).keys ↔ key ∈ fs.keys ∨ key ∈ new.keys := by
  induction new generalizing fs with
  | nil => simp
  | cons field new ih =>
    rw [update_cons, ih, keys_set, keys_cons, List.mem_cons]
    by_cases hmem : field.1 ∈ fs.keys
    · rw [if_pos hmem]
      constructor
      · tauto
      · rintro (h | rfl | h)
        · exact .inl h
        · exact .inl hmem
        · exact .inr h
    · rw [if_neg hmem, List.mem_append, List.mem_singleton]
      tauto

/-- Setting a field to the value that it has changes nothing. -/
lemma set_of_get? {fs : Fields α} {key : String} {v : α} (h : fs.get? key = some v) :
    fs.set key v = fs := by
  induction fs with
  | nil => simp at h
  | cons field rest ih =>
    obtain ⟨k, w⟩ := field
    by_cases hk : k = key
    · subst hk
      rw [get?_cons_self] at h
      cases h
      simp [set]
    · rw [get?_cons_of_ne hk] at h
      simp [set, hk, ih h]

/-! ### Listed fields -/

lemma mem_set {fs : Fields α} {key : String} {v : α} {field : String × α}
    (h : field ∈ fs.set key v) :
    field ∈ fs ∨ field = (key, v) := by
  induction fs with
  | nil => exact .inr (List.mem_singleton.mp h)
  | cons head rest ih =>
    obtain ⟨k, w⟩ := head
    rw [set] at h
    split_ifs at h with hk
    · rcases List.mem_cons.mp h with rfl | h
      · exact .inr (by rw [hk])
      · exact .inl (List.mem_cons_of_mem _ h)
    · rcases List.mem_cons.mp h with rfl | h
      · exact .inl List.mem_cons_self
      · exact (ih h).imp_left (List.mem_cons_of_mem _)

lemma mem_update {fs new : Fields α} {field : String × α} (h : field ∈ fs.update new) :
    field ∈ fs ∨ field ∈ new := by
  induction new generalizing fs with
  | nil => exact .inl h
  | cons head rest ih =>
    rcases ih h with h | h
    · exact (mem_set h).imp_right fun heq => by simp [heq]
    · exact .inr (List.mem_cons_of_mem _ h)

/-! ### Fields from entries that may repeat a name -/

lemma ofList_concat (entries : List (String × α)) (key : String) (v : α) :
    ofList (entries ++ [(key, v)]) = (ofList entries).set key v := by
  simp [ofList, update]

/-- The last entry of a name is the one that is found. -/
lemma get?_ofList (entries : List (String × α)) (key : String) :
    (ofList entries).get? key = entries.reverse.lookup key := by
  induction entries using List.reverseRecOn with
  | nil => rfl
  | append_singleton entries entry ih =>
    obtain ⟨k, v⟩ := entry
    rw [ofList_concat, get?_set, ih, List.reverse_append, List.reverse_singleton,
      List.singleton_append, List.lookup_cons]
    by_cases hk : key = k
    · simp [hk]
    · have hbeq : (key == k) = false := beq_eq_false_iff_ne.mpr hk
      simp [hk, hbeq]

/-- Names come in the order of their first entries. -/
lemma keys_ofList (entries : List (String × α)) :
    (ofList entries).keys = (entries.map Prod.fst).eraseDups := by
  induction entries using List.reverseRecOn with
  | nil => rfl
  | append_singleton entries entry ih =>
    obtain ⟨k, v⟩ := entry
    rw [ofList_concat, keys_set, ih, List.map_append, List.eraseDups_append]
    by_cases hk : k ∈ entries.map Prod.fst
    · rw [if_pos (List.mem_eraseDups.mpr hk)]
      simp [List.removeAll, hk]
    · rw [if_neg (mt List.mem_eraseDups.mp hk)]
      simp [List.removeAll, hk, List.eraseDups_cons]

lemma ofList_of_distinct {fs : Fields α} (h : fs.Distinct) : ofList fs = fs := by
  induction fs using List.reverseRecOn with
  | nil => rfl
  | append_singleton fs field ih =>
    obtain ⟨k, v⟩ := field
    rw [Distinct, keys_append, List.nodup_append'] at h
    have hk : k ∉ keys fs := by
      intro hmem
      exact h.2.2 hmem (by simp)
    rw [ofList_concat, ih h.1, set_of_not_mem hk]

/-- Distinct fields are gone through by going through their names. -/
lemma Distinct.flatMap_keys {fs : Fields α} (h : fs.Distinct) (f : String → α → List β) :
    (fs.keys.flatMap fun key => (fs.get? key).elim [] (f key)) = fs.flatMap fun field =>
      f field.1 field.2 := by
  rw [keys, List.flatMap_map]
  apply List.flatMap_congr
  intro field hfield
  rw [h.get?_of_mem hfield, Option.elim_some]

/-! ### Applying a function to the values -/

@[simp] lemma mapValues_cons (f : α → β) (field : String × α) (fs : Fields α) :
    mapValues f (field :: fs) = (field.1, f field.2) :: fs.mapValues f := rfl

lemma get?_mapValues (f : α → β) (fs : Fields α) (key : String) :
    (fs.mapValues f).get? key = (fs.get? key).map f := by
  induction fs with
  | nil => rfl
  | cons field rest ih =>
    obtain ⟨k, w⟩ := field
    rw [mapValues_cons, get?_cons, get?_cons, ih]
    split_ifs <;> rfl

lemma mapValues_set (f : α → β) (fs : Fields α) (key : String) (v : α) :
    (fs.set key v).mapValues f = (fs.mapValues f).set key (f v) := by
  induction fs with
  | nil => rfl
  | cons field rest ih =>
    obtain ⟨k, w⟩ := field
    by_cases hk : k = key
    · simp [set, hk]
    · simp [set, hk, ih]

lemma mapValues_update (f : α → β) (fs new : Fields α) :
    (fs.update new).mapValues f = (fs.mapValues f).update (new.mapValues f) := by
  induction new generalizing fs with
  | nil => rfl
  | cons field rest ih => rw [update_cons, ih, mapValues_set, mapValues_cons, update_cons]

/-! ### Updating under a list of names -/

lemma keys_map_pair (names : List String) (f : String → α) :
    keys (names.map fun k => (k, f k)) = names := by
  simp [keys, Function.comp_def]

lemma distinct_map_pair {names : List String} (h : names.Nodup) (f : String → α) :
    Distinct (names.map fun k => (k, f k)) := by
  rwa [Distinct, keys_map_pair]

lemma update_map_of_get? {fs : Fields α} {names : List String} {f : String → α}
    (h : ∀ k ∈ names, fs.get? k = some (f k)) :
    fs.update (names.map fun k => (k, f k)) = fs := by
  induction names with
  | nil => rfl
  | cons k rest ih =>
    rw [List.map_cons, update_cons, set_of_get? (h k List.mem_cons_self)]
    exact ih fun other hother => h other (List.mem_cons_of_mem k hother)

lemma get?_update_map (fs : Fields α) (names : List String) (f : String → α) (key : String) :
    (fs.update (names.map fun k => (k, f k))).get? key =
      if key ∈ names then some (f key) else fs.get? key := by
  induction names generalizing fs with
  | nil => rfl
  | cons k rest ih =>
    rw [List.map_cons, update_cons, ih, get?_set]
    by_cases hrest : key ∈ rest
    · simp [hrest]
    · by_cases hk : key = k <;> simp [hrest, hk]

/-! ### Renaming -/

lemma get?_map_key {f : String → String} (hf : f.Injective) (fs : Fields α) (key : String) :
    get? (fs.map fun field => (f field.1, field.2)) (f key) = fs.get? key := by
  induction fs with
  | nil => rfl
  | cons field fs ih =>
    obtain ⟨k, v⟩ := field
    rw [List.map_cons, get?_cons, get?_cons, ih]
    simp only [hf.eq_iff]

/-! ### Taking a field out -/

lemma erase_sublist (fs : Fields α) (key : String) : (fs.erase key).Sublist fs := by
  induction fs with
  | nil => exact .slnil
  | cons field fs ih =>
    rw [erase]
    split_ifs
    · exact List.sublist_cons_self _ _
    · exact ih.cons_cons field

lemma Distinct.erase {fs : Fields α} (h : fs.Distinct) (key : String) : (fs.erase key).Distinct :=
  h.sublist ((erase_sublist fs key).map Prod.fst)

lemma get?_erase_self {fs : Fields α} (h : fs.Distinct) (key : String) :
    (fs.erase key).get? key = none := by
  induction fs with
  | nil => rfl
  | cons field fs ih =>
    obtain ⟨k, v⟩ := field
    rw [Distinct, keys_cons, List.nodup_cons] at h
    rw [Fields.erase]
    split_ifs with hk
    · subst hk
      exact get?_eq_none_iff.mpr h.1
    · rw [get?_cons_of_ne hk]
      exact ih h.2

lemma get?_erase_of_ne {key other : String} (h : other ≠ key) (fs : Fields α) :
    (fs.erase key).get? other = fs.get? other := by
  induction fs with
  | nil => rfl
  | cons field fs ih =>
    obtain ⟨k, v⟩ := field
    rw [Fields.erase]
    split_ifs with hk
    · rw [get?_cons_of_ne (hk.trans_ne h.symm)]
    · rw [get?_cons, get?_cons, ih]

lemma erase_of_not_mem {fs : Fields α} {key : String} (h : key ∉ fs.keys) :
    fs.erase key = fs := by
  induction fs with
  | nil => rfl
  | cons field fs ih =>
    obtain ⟨k, v⟩ := field
    rw [keys_cons, List.mem_cons, not_or] at h
    rw [Fields.erase, if_neg (Ne.symm h.1), ih h.2]

lemma erase_set_of_not_mem {fs : Fields α} {key : String} (h : key ∉ fs.keys) (v : α) :
    (fs.set key v).erase key = fs := by
  induction fs with
  | nil => exact if_pos rfl
  | cons field fs ih =>
    obtain ⟨k, w⟩ := field
    rw [keys_cons, List.mem_cons, not_or] at h
    rw [Fields.set, if_neg (Ne.symm h.1), Fields.erase, if_neg (Ne.symm h.1), ih h.2]

/-! ### Some of the names -/

section Only

variable {p : String → Bool} {fs : Fields α} {key : String}

/-- The fields whose names meet a condition. -/
def only (p : String → Bool) (fs : Fields α) : Fields α :=
  fs.filter fun field => p field.1

lemma only_cons (p : String → Bool) (field : String × α) (fs : Fields α) :
    only p (field :: fs) = if p field.1 then field :: fs.only p else fs.only p :=
  List.filter_cons

lemma get?_only (h : p key = true) : (fs.only p).get? key = fs.get? key := by
  induction fs with
  | nil => rfl
  | cons field fs ih =>
    obtain ⟨k, v⟩ := field
    rw [only_cons]
    by_cases hk : k = key
    · rw [hk, h, if_pos rfl, get?_cons_self, get?_cons_self]
    · rw [get?_cons_of_ne hk, ← ih]
      split_ifs
      · rw [get?_cons_of_ne hk]
      · rfl

lemma get?_of_get?_only {v : α} (h : (fs.only p).get? key = some v) : fs.get? key = some v := by
  obtain ⟨-, hkey⟩ := List.mem_filter.mp (mem_of_get? h)
  rwa [get?_only hkey] at h

lemma only_set_of_true (h : p key = true) (v : α) :
    (fs.set key v).only p = (fs.only p).set key v := by
  induction fs with
  | nil => simp [only, set, h]
  | cons field fs ih =>
    obtain ⟨k, w⟩ := field
    by_cases hk : k = key
    · subst hk
      simp [set, only_cons, h]
    · rw [set, if_neg hk, only_cons, only_cons, ih]
      split_ifs
      · rw [set, if_neg hk]
      · rfl

lemma only_set_of_false (h : p key = false) (v : α) : (fs.set key v).only p = fs.only p := by
  induction fs with
  | nil => simp [only, set, h]
  | cons field fs ih =>
    obtain ⟨k, w⟩ := field
    by_cases hk : k = key
    · subst hk
      simp [set, only_cons, h]
    · rw [set, if_neg hk, only_cons, only_cons, ih]

lemma only_erase (h : p key = false) : (fs.erase key).only p = fs.only p := by
  induction fs with
  | nil => rfl
  | cons field fs ih =>
    obtain ⟨k, w⟩ := field
    rw [erase]
    split_ifs with hk
    · rw [only_cons, hk, h, if_neg Bool.false_ne_true]
    · rw [only_cons, only_cons, ih]

lemma Distinct.only (h : fs.Distinct) (p : String → Bool) : (fs.only p).Distinct :=
  h.sublist (List.filter_sublist.map Prod.fst)

end Only

/-! ### Fields that are related one by one -/

section Rel

variable {α β : Type} {fs : Fields α} {gs : Fields β} {R : α → β → Prop}

lemma keys_perm_of_rel (hfs : fs.Distinct) (hgs : gs.Distinct)
    (h : ∀ key, Option.Rel R (fs.get? key) (gs.get? key)) : fs.keys.Perm gs.keys := by
  refine (List.perm_ext_iff_of_nodup hfs hgs).mpr fun key => ?_
  rw [mem_keys_iff, mem_keys_iff]
  constructor
  · rintro ⟨v, hv⟩
    obtain ⟨w, hw, -⟩ := exists_of_rel (h key) hv
    exact ⟨w, hw⟩
  · rintro ⟨w, hw⟩
    obtain ⟨v, hv, -⟩ := exists_of_rel_right (h key) hw
    exact ⟨v, hv⟩

lemma keys_eq_of_forall₂
    (h : List.Forall₂ (fun field field' => field.1 = field'.1 ∧ R field.2 field'.2) fs gs) :
    fs.keys = gs.keys := by
  have hkeys : List.Forall₂ Eq fs.keys gs.keys :=
    List.forall₂_map_left_iff.mpr
      (List.forall₂_map_right_iff.mpr (h.imp fun _ _ hfield => hfield.1))
  rwa [List.forall₂_eq_eq_eq] at hkeys

lemma rel_get?_of_forall₂
    (h : List.Forall₂ (fun field field' => field.1 = field'.1 ∧ R field.2 field'.2) fs gs)
    (key : String) : Option.Rel R (fs.get? key) (gs.get? key) := by
  induction h with
  | nil => exact .none
  | @cons field field' _ _ hfield _ ih =>
    obtain ⟨k, v⟩ := field
    obtain ⟨k', w⟩ := field'
    obtain ⟨rfl, hvw⟩ := hfield
    rw [get?_cons, get?_cons]
    split_ifs
    · exact .some hvw
    · exact ih

end Rel

end Fields

/-! ### Lists that are related item by item -/

lemma exists_mem_of_forall₂ {α β : Type} {R : α → β → Prop} {xs : List α} {ys : List β}
    (h : List.Forall₂ R xs ys) : ∀ x ∈ xs, ∃ y ∈ ys, R x y := by
  induction h with
  | nil => simp
  | cons hxy _ ih =>
    refine List.forall_mem_cons.mpr ⟨⟨_, List.mem_cons_self, hxy⟩, fun x hx => ?_⟩
    obtain ⟨y, hy, hxy⟩ := ih x hx
    exact ⟨y, List.mem_cons_of_mem _ hy, hxy⟩

end ModularTemplates
