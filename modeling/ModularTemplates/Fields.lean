/-!
# Ordered fields

A list of named values that remembers the order in which the names first came. Setting a name that
is already present changes its value and keeps its place; a new name goes to the end. Objects of a
document, the modules of a project and the keywords of a run are all such lists.
-/

namespace ModularTemplates

universe u v

/-- Named values in the order of their names. -/
abbrev Fields (α : Type u) := List (String × α)

namespace Fields

variable {α : Type u} {β : Type v}

/-- The value under a name. -/
def get? : Fields α → String → Option α
  | [], _ => none
  | (k, v) :: rest, key => if k = key then some v else get? rest key

/-- The names, in order. -/
def keys (fs : Fields α) : List String :=
  fs.map Prod.fst

/-- Whether a name is present. -/
def has (fs : Fields α) (key : String) : Bool :=
  (fs.get? key).isSome

/-- Put a value under a name, in place if the name is present and at the end if not. -/
def set : Fields α → String → α → Fields α
  | [], key, value => [(key, value)]
  | (k, v) :: rest, key, value =>
    if k = key then (k, value) :: rest else (k, v) :: set rest key value

/-- Take a name out and keep the order of the others. -/
def erase : Fields α → String → Fields α
  | [], _ => []
  | (k, v) :: rest, key => if k = key then rest else (k, v) :: erase rest key

/-- Set every field of the second list, one after the other. -/
def update (fs new : Fields α) : Fields α :=
  new.foldl (fun acc field => acc.set field.1 field.2) fs

/-- Fields from a list that may repeat a name: the first place and the last value of a name
count. -/
def ofList (entries : List (String × α)) : Fields α :=
  update [] entries

/-- Apply a function to every value. -/
def mapValues (f : α → β) (fs : Fields α) : Fields β :=
  fs.map fun field => (field.1, f field.2)

/-- No name is listed twice. -/
def Distinct (fs : Fields α) : Prop :=
  fs.keys.Nodup

instance (fs : Fields α) : Decidable fs.Distinct :=
  inferInstanceAs (Decidable fs.keys.Nodup)

/-! ### Looking up -/

@[simp] theorem get?_nil (key : String) : get? ([] : Fields α) key = none := rfl

theorem get?_cons (k key : String) (v : α) (rest : Fields α) :
    get? ((k, v) :: rest) key = if k = key then some v else get? rest key := rfl

@[simp] theorem get?_cons_self (k : String) (v : α) (rest : Fields α) :
    get? ((k, v) :: rest) k = some v := by
  simp [get?]

theorem get?_cons_of_ne {k key : String} (h : k ≠ key) (v : α) (rest : Fields α) :
    get? ((k, v) :: rest) key = get? rest key := by
  simp [get?, h]

theorem get?_eq_none_iff {fs : Fields α} {key : String} :
    fs.get? key = none ↔ key ∉ fs.keys := by
  induction fs with
  | nil => simp [keys]
  | cons field rest ih =>
    obtain ⟨k, v⟩ := field
    by_cases h : k = key
    · subst h
      simp [keys]
    · simp only [get?_cons_of_ne h, ih]
      simp [keys, Ne.symm h]

theorem mem_of_get? {fs : Fields α} {key : String} {v : α} (h : fs.get? key = some v) :
    (key, v) ∈ fs := by
  induction fs with
  | nil => simp at h
  | cons field rest ih =>
    obtain ⟨k, w⟩ := field
    by_cases hk : k = key
    · subst hk
      simp_all
    · rw [get?_cons_of_ne hk] at h
      exact List.mem_cons_of_mem _ (ih h)

/-! ### Setting -/

@[simp] theorem get?_set_self (fs : Fields α) (key : String) (v : α) :
    (fs.set key v).get? key = some v := by
  induction fs with
  | nil => simp [set]
  | cons field rest ih =>
    obtain ⟨k, w⟩ := field
    by_cases h : k = key
    · simp [set, h]
    · simp [set, h, get?_cons_of_ne, ih]

theorem get?_set_of_ne {key other : String} (h : other ≠ key) (fs : Fields α) (v : α) :
    (fs.set key v).get? other = fs.get? other := by
  induction fs with
  | nil => simp [set, get?_cons_of_ne (Ne.symm h)]
  | cons field rest ih =>
    obtain ⟨k, w⟩ := field
    by_cases hk : k = key
    · subst hk
      simp [set, get?_cons_of_ne (Ne.symm h)]
    · simp only [set, hk, if_false, get?_cons, ih]

theorem keys_set_of_mem {fs : Fields α} {key : String} (h : key ∈ fs.keys) (v : α) :
    (fs.set key v).keys = fs.keys := by
  induction fs with
  | nil => simp [keys] at h
  | cons field rest ih =>
    obtain ⟨k, w⟩ := field
    by_cases hk : k = key
    · simp [set, keys, hk]
    · have hr : key ∈ keys rest := by
        simpa [keys, Ne.symm hk] using h
      have hrest := ih hr
      simp only [keys] at hrest ⊢
      simp [set, hk, hrest]

theorem set_of_not_mem {fs : Fields α} {key : String} (h : key ∉ fs.keys) (v : α) :
    fs.set key v = fs ++ [(key, v)] := by
  induction fs with
  | nil => rfl
  | cons field rest ih =>
    obtain ⟨k, w⟩ := field
    simp only [keys, List.map_cons, List.mem_cons, not_or] at h
    simp [set, Ne.symm h.1, ih h.2]

theorem Distinct.set {fs : Fields α} (h : fs.Distinct) (key : String) (v : α) :
    (fs.set key v).Distinct := by
  by_cases hk : key ∈ fs.keys
  · simpa [Distinct, keys_set_of_mem hk] using h
  · rw [Distinct, set_of_not_mem hk, keys, List.map_append]
    refine List.nodup_append.2 ⟨h, by simp, ?_⟩
    intro a ha b hb hab
    simp only [List.map_cons, List.map_nil, List.mem_singleton] at hb
    exact hk (by rw [← hb, ← hab]; exact ha)

theorem Distinct.update {fs : Fields α} (h : fs.Distinct) (new : Fields α) :
    (fs.update new).Distinct := by
  induction new generalizing fs with
  | nil => exact h
  | cons field rest ih => exact ih (h.set field.1 field.2)

@[simp] theorem distinct_nil : Distinct ([] : Fields α) :=
  List.nodup_nil

theorem distinct_ofList (entries : List (String × α)) : (ofList entries).Distinct :=
  distinct_nil.update entries

end Fields

end ModularTemplates
