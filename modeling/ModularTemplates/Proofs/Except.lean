import Mathlib.Data.List.Forall2
import Mathlib.Data.List.Perm.Basic
import Mathlib.Tactic.Lemma

/-!
# Computations that may fail

How a run of steps in `Except` is taken apart once it is known to have succeeded.
-/

namespace ModularTemplates

variable {ε α β : Type}

lemma bind_eq_ok_iff {x : Except ε α} {f : α → Except ε β} {b : β} :
    x >>= f = .ok b ↔ ∃ a, x = .ok a ∧ f a = .ok b := by
  cases x with
  | error e => simp [bind, Except.bind]
  | ok a => simp [bind, Except.bind]

lemma bind_eq_error_iff {x : Except ε α} {f : α → Except ε β} {e : ε} :
    x >>= f = .error e ↔ x = .error e ∨ ∃ a, x = .ok a ∧ f a = .error e := by
  cases x with
  | error e' => simp [bind, Except.bind]
  | ok a => simp [bind, Except.bind]

/-- What follows a computation matters for its results only. -/
lemma bind_congr_of_ok {x : Except ε α} {f g : α → Except ε β}
    (h : ∀ a, x = .ok a → f a = g a) :
    x >>= f = x >>= g := by
  cases x with
  | error e => rfl
  | ok a => exact h a rfl

lemma map_eq_ok_iff {x : Except ε α} {f : α → β} {b : β} :
    x.map f = .ok b ↔ ∃ a, x = .ok a ∧ f a = b := by
  cases x with
  | error e => simp [Except.map]
  | ok a => simp [Except.map]

lemma toOption_eq_some_iff {x : Except ε α} {a : α} : x.toOption = some a ↔ x = .ok a := by
  cases x <;> simp [Except.toOption]

/-- When the step on every element can only give one result, the results of a run are known. -/
lemma eq_map_of_mapM {f : α → Except ε β} {g : α → β} {l : List α} {r : List β}
    (h : l.mapM f = .ok r) (hg : ∀ a ∈ l, ∀ b, f a = .ok b → b = g a) :
    r = l.map g ∧ ∀ a ∈ l, f a = .ok (g a) := by
  induction l generalizing r with
  | nil =>
    rw [List.mapM_nil] at h
    cases h
    simp
  | cons a l ih =>
    rw [List.mapM_cons] at h
    obtain ⟨b, hb, h⟩ := bind_eq_ok_iff.mp h
    obtain ⟨bs, hbs, h⟩ := bind_eq_ok_iff.mp h
    cases h
    obtain ⟨rfl, hall⟩ := ih hbs fun a' ha' => hg a' (List.mem_cons_of_mem a ha')
    have hbg := hg a List.mem_cons_self b hb
    subst hbg
    refine ⟨rfl, fun a' ha' => ?_⟩
    rcases List.mem_cons.mp ha' with rfl | ha'
    · exact hb
    · exact hall a' ha'

/-- Every element has its result among the results of a run. -/
lemma exists_of_mapM {f : α → Except ε β} {l : List α} {r : List β} (h : l.mapM f = .ok r) :
    ∀ a ∈ l, ∃ b ∈ r, f a = .ok b := by
  induction l generalizing r with
  | nil => simp
  | cons a l ih =>
    rw [List.mapM_cons] at h
    obtain ⟨b, hb, h⟩ := bind_eq_ok_iff.mp h
    obtain ⟨bs, hbs, h⟩ := bind_eq_ok_iff.mp h
    cases h
    refine List.forall_mem_cons.mpr ⟨⟨b, List.mem_cons_self, hb⟩, fun a' ha' => ?_⟩
    obtain ⟨b', hb', hf⟩ := ih hbs a' ha'
    exact ⟨b', List.mem_cons_of_mem b hb', hf⟩

/-- A run succeeds with one result for every element, in the same order. -/
lemma mapM_eq_ok_iff {f : α → Except ε β} {l : List α} {r : List β} :
    l.mapM f = .ok r ↔ List.Forall₂ (fun a b => f a = .ok b) l r := by
  induction l generalizing r with
  | nil =>
    rw [List.mapM_nil, List.forall₂_nil_left_iff]
    exact ⟨fun h => (Except.ok.inj h).symm, fun h => h ▸ rfl⟩
  | cons a l ih =>
    rw [List.mapM_cons, bind_eq_ok_iff]
    constructor
    · rintro ⟨b, hb, h⟩
      obtain ⟨bs, hbs, h⟩ := bind_eq_ok_iff.mp h
      cases h
      exact .cons hb (ih.mp hbs)
    · rintro (_ | ⟨hb, hbs⟩)
      exact ⟨_, hb, bind_eq_ok_iff.mpr ⟨_, ih.mpr hbs, rfl⟩⟩

lemma forM_eq_ok {f : α → Except ε Unit} {l : List α} (h : l.forM f = .ok ()) :
    ∀ a ∈ l, f a = .ok () := by
  induction l with
  | nil => simp
  | cons a l ih =>
    rw [List.forM_eq_forM, List.forM_cons] at h
    obtain ⟨⟨⟩, ha, h⟩ := bind_eq_ok_iff.mp h
    intro a' ha'
    rcases List.mem_cons.mp ha' with rfl | ha'
    · exact ha
    · exact ih h a' ha'

lemma mapM_eq_ok {f : α → Except ε β} {g : α → β} {l : List α}
    (h : ∀ a ∈ l, f a = .ok (g a)) :
    l.mapM f = .ok (l.map g) := by
  induction l with
  | nil => rfl
  | cons a l ih =>
    obtain ⟨ha, hl⟩ := List.forall_mem_cons.mp h
    rw [List.mapM_cons, ha, ih hl]
    rfl

lemma forM_ok {f : α → Except ε Unit} {l : List α} (h : ∀ a ∈ l, f a = .ok ()) :
    l.forM f = .ok () := by
  induction l with
  | nil => rfl
  | cons a l ih =>
    obtain ⟨ha, hl⟩ := List.forall_mem_cons.mp h
    rw [List.forM_eq_forM, List.forM_cons, ha]
    exact ih hl

/-! ### Runs that fail -/

lemma exists_of_mapM_eq_error {f : α → Except ε β} {l : List α} {e : ε}
    (h : l.mapM f = .error e) :
    ∃ a ∈ l, f a = .error e := by
  induction l with
  | nil => cases h
  | cons a l ih =>
    rw [List.mapM_cons, bind_eq_error_iff] at h
    rcases h with ha | ⟨b, -, h⟩
    · exact ⟨a, List.mem_cons_self, ha⟩
    · rcases bind_eq_error_iff.mp h with hl | ⟨bs, -, h⟩
      · obtain ⟨a', ha', hf⟩ := ih hl
        exact ⟨a', List.mem_cons_of_mem a ha', hf⟩
      · cases h

lemma exists_of_forM_eq_error {f : α → Except ε Unit} {l : List α} {e : ε}
    (h : l.forM f = .error e) :
    ∃ a ∈ l, f a = .error e := by
  induction l with
  | nil => cases h
  | cons a l ih =>
    rw [List.forM_eq_forM, List.forM_cons] at h
    rcases bind_eq_error_iff.mp h with ha | ⟨⟨⟩, -, hl⟩
    · exact ⟨a, List.mem_cons_self, ha⟩
    · obtain ⟨a', ha', hf⟩ := ih hl
      exact ⟨a', List.mem_cons_of_mem a ha', hf⟩

/-- A run fails at one of its steps, and all steps before it succeed. -/
lemma exists_of_foldlM_eq_error {f : β → α → Except ε β} {l : List α} {b : β} {e : ε}
    (h : l.foldlM f b = .error e) :
    ∃ before a after b', l = before ++ a :: after ∧ before.foldlM f b = .ok b' ∧
      f b' a = .error e := by
  induction l generalizing b with
  | nil => cases h
  | cons a l ih =>
    rw [List.foldlM_cons] at h
    rcases bind_eq_error_iff.mp h with ha | ⟨next, hnext, h⟩
    · exact ⟨[], a, l, b, rfl, rfl, ha⟩
    · obtain ⟨before, a', after, b', rfl, hbefore, ha'⟩ := ih h
      refine ⟨a :: before, a', after, b', rfl, ?_, ha'⟩
      rw [List.foldlM_cons]
      exact bind_eq_ok_iff.mpr ⟨next, hnext, hbefore⟩

/-! ### Runs step by step -/

/-- A run succeeds if every step does, whatever has come before. -/
lemma exists_foldlM {f : β → α → Except ε β} {l : List α}
    (h : ∀ a ∈ l, ∀ b, ∃ b', f b a = .ok b') (b : β) :
    ∃ b', l.foldlM f b = .ok b' := by
  induction l generalizing b with
  | nil => exact ⟨b, rfl⟩
  | cons a l ih =>
    obtain ⟨ha, hl⟩ := List.forall_mem_cons.mp h
    obtain ⟨next, hnext⟩ := ha b
    obtain ⟨last, hlast⟩ := ih hl next
    exact ⟨last, by rw [List.foldlM_cons]; exact bind_eq_ok_iff.mpr ⟨next, hnext, hlast⟩⟩

/-- The order of the steps of a run does not matter if of any two of them one does nothing. -/
lemma foldlM_perm {f : β → α → Except ε β} {l l' : List α} (h : l.Perm l')
    (hidle : l.Pairwise fun a a' => (∀ b, f b a = .ok b) ∨ ∀ b, f b a' = .ok b) (b : β) :
    l.foldlM f b = l'.foldlM f b := by
  induction h generalizing b with
  | nil => rfl
  | cons a _ ih =>
    rw [List.foldlM_cons, List.foldlM_cons]
    exact congrArg _ (funext fun next => ih hidle.tail next)
  | swap a a' l =>
    simp only [List.foldlM_cons]
    rcases List.rel_of_pairwise_cons hidle List.mem_cons_self with hidle | hidle
    · simp only [hidle]
      rfl
    · simp only [hidle]
      rfl
  | trans h _ ih ih' =>
    exact (ih hidle b).trans (ih' ((h.pairwise_iff Or.symm).mp hidle) b)

/-- What holds at the start and is kept by every step holds at the end of a run. -/
lemma foldlM_invariant {f : β → α → Except ε β} {l : List α} {b b' : β} (P : β → Prop)
    (hb : P b) (hstep : ∀ b a b', a ∈ l → P b → f b a = .ok b' → P b')
    (h : l.foldlM f b = .ok b') : P b' := by
  induction l generalizing b with
  | nil =>
    cases h
    exact hb
  | cons a l ih =>
    rw [List.foldlM_cons] at h
    obtain ⟨b₁, hb₁, h⟩ := bind_eq_ok_iff.mp h
    exact ih (hstep b a b₁ List.mem_cons_self hb hb₁)
      (fun b a b' ha => hstep b a b' (List.mem_cons_of_mem _ ha)) h

/-! ### Two runs that end alike -/

/-- Two computations both fail, or they have results that are related. -/
inductive Alike {ε' : Type} (R : α → β → Prop) :
    Except ε α → Except ε' β → Prop where
  | ok {a : α} {b : β} (h : R a b) : Alike R (.ok a) (.ok b)
  | error (e : ε) (e' : ε') : Alike R (.error e) (.error e')

namespace Alike

variable {ε' γ δ : Type} {R : α → β → Prop} {S : γ → δ → Prop} {x : Except ε α}
  {y : Except ε' β}

lemma refl {R : α → α → Prop} (hR : ∀ a, R a a) (x : Except ε α) : Alike R x x := by
  cases x with
  | error e => exact .error e e
  | ok a => exact .ok (hR a)

/-- Computations that have the same results end alike. -/
lemma of_eq_ok_iff {x : Except ε α} {y : Except ε' α} (h : ∀ a, x = .ok a ↔ y = .ok a) :
    Alike (fun a b => b = a) x y := by
  cases x with
  | ok a =>
    rw [(h a).mp rfl]
    exact .ok rfl
  | error e =>
    cases y with
    | ok a => cases (h a).mpr rfl
    | error e' => exact .error e e'

lemma bind {f : α → Except ε γ} {g : β → Except ε' δ} (h : Alike R x y)
    (hfg : ∀ a b, x = .ok a → y = .ok b → R a b → Alike S (f a) (g b)) :
    Alike S (x >>= f) (y >>= g) := by
  cases h with
  | ok hab => exact hfg _ _ rfl rfl hab
  | error e e' => exact .error e e'

lemma imp {S : α → β → Prop} (h : Alike R x y)
    (hRS : ∀ a b, x = .ok a → y = .ok b → R a b → S a b) :
    Alike S x y := by
  cases h with
  | ok hab => exact .ok (hRS _ _ rfl rfl hab)
  | error e e' => exact .error e e'

lemma trans {ε'' : Type} {T : β → γ → Prop} {z : Except ε'' γ} (h : Alike R x y)
    (h' : Alike T y z) :
    Alike (Relation.Comp R T) x z := by
  cases h with
  | ok hab =>
    cases h' with
    | ok hbc => exact .ok ⟨_, hab, hbc⟩
  | error e e' =>
    cases h' with
    | error _ e'' => exact .error e e''

lemma map {f : α → γ} {g : β → δ} (h : Alike R x y)
    (hfg : ∀ a b, R a b → S (f a) (g b)) :
    Alike S (x.map f) (y.map g) := by
  cases h with
  | ok hab => exact .ok (hfg _ _ hab)
  | error e e' => exact .error e e'

lemma mapError (h : Alike R x y) (f : ε → γ) (g : ε' → δ) :
    Alike R (x.mapError f) (y.mapError g) := by
  cases h with
  | ok hab => exact .ok hab
  | error e e' => exact .error _ _

/-- Runs whose steps end alike end alike. -/
lemma mapM {T : β → γ → Prop} {f : α → Except ε β} {g : α → Except ε' γ}
    {l : List α} (h : ∀ a ∈ l, Alike T (f a) (g a)) :
    Alike (List.Forall₂ T) (l.mapM f) (l.mapM g) := by
  induction l with
  | nil => exact .ok .nil
  | cons a l ih =>
    obtain ⟨ha, hl⟩ := List.forall_mem_cons.mp h
    rw [List.mapM_cons, List.mapM_cons]
    exact ha.bind fun b c _ _ hbc => (ih hl).bind fun bs cs _ _ hbcs => .ok (.cons hbc hbcs)

/-- The same steps in another order succeed with the same results, in another order. -/
lemma mapM_perm {l l' : List α} (h : l.Perm l') (f : α → Except ε β) :
    Alike List.Perm (l.mapM f) (l'.mapM f) := by
  cases hl : l.mapM f with
  | ok r =>
    obtain ⟨r', hr', hperm⟩ := List.perm_comp_forall₂ h.symm (mapM_eq_ok_iff.mp hl)
    rw [mapM_eq_ok_iff.mpr hr']
    exact .ok hperm.symm
  | error e =>
    obtain ⟨a, ha, hf⟩ := exists_of_mapM_eq_error hl
    cases hl' : l'.mapM f with
    | ok r' =>
      obtain ⟨b, -, hb⟩ := exists_of_mapM hl' a (h.subset ha)
      rw [hf] at hb
      cases hb
    | error e' => exact .error e e'

end Alike

end ModularTemplates
