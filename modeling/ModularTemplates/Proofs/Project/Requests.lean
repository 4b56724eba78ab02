import Mathlib.Data.List.Dedup
import Mathlib.Tactic.Lemma
import ModularTemplates.Project

/-!
# Computations that ask for functions

Composed functions are kept in a cache, and the cache only saves work. A computation that uses it
just to ask for functions gives one answer from every cache that holds what composing would give,
and it leaves behind the functions that it asked for.
-/

namespace ModularTemplates

namespace Composer

variable (c : Composer)

/-- `c.Asks x ids a`: the computation `x` asks for the functions `ids`, one after the other, and
does nothing else with the cache. If each of them is composed anew, `x` answers `a`. -/
inductive Asks {α : Type} : Composing α → List ResourceId → α → Prop
  | answer (a : α) : Asks (pure a) [] a
  | ask {id : ResourceId} {next : Except FunctionError ComposedFunction → Composing α}
      {ids : List ResourceId} {a : α} (rest : Asks (next (c.compose id)) ids a) :
      Asks ((c.function id).run >>= next) (id :: ids) a

/-- The cache holds what composing gives, and no function twice. -/
structure Sound (cache : FunctionCache) : Prop where
  compose_eq : ∀ id f, (id, f) ∈ cache → c.compose id = .ok f
  nodup : (cache.map Prod.fst).Nodup

/-- The cache after a request for a function. -/
def remember (cache : FunctionCache) (id : ResourceId) : FunctionCache :=
  match cache.lookup id, c.compose id with
  | none, .ok f => cache ++ [(id, f)]
  | _, _ => cache

variable {c} {cache : FunctionCache} {id : ResourceId}

/-! ### One request -/

lemma mem_of_lookup {f : ComposedFunction} (h : cache.lookup id = some f) : (id, f) ∈ cache := by
  induction cache with
  | nil => simp at h
  | cons entry cache ih =>
    obtain ⟨other, g⟩ := entry
    rw [List.lookup_cons] at h
    split at h
    · simp_all
    · exact List.mem_cons_of_mem _ (ih h)

lemma lookup_eq_none_iff : cache.lookup id = none ↔ id ∉ cache.map Prod.fst := by
  induction cache with
  | nil => simp
  | cons entry cache ih =>
    obtain ⟨other, g⟩ := entry
    rw [List.lookup_cons, List.map_cons, List.mem_cons, not_or]
    split
    · simp_all
    · simp_all

lemma sound_nil : c.Sound [] :=
  ⟨by simp, List.nodup_nil⟩

lemma Sound.remember (h : c.Sound cache) (id : ResourceId) : c.Sound (c.remember cache id) := by
  unfold Composer.remember
  split
  · rename_i f hlookup hcompose
    constructor
    · intro other g hmem
      rcases List.mem_append.mp hmem with hmem | hmem
      · exact h.compose_eq other g hmem
      · simp_all
    · rw [List.map_append, List.nodup_append']
      refine ⟨h.nodup, List.nodup_singleton _, ?_⟩
      simpa using lookup_eq_none_iff.mp hlookup
  · exact h

lemma run_get_bind {α : Type}
    (f : FunctionCache → ExceptT FunctionError (StateM FunctionCache) α)
    (cache : FunctionCache) : (get >>= f).run.run cache = (f cache).run.run cache :=
  rfl

lemma run_function_of_some {f : ComposedFunction} (h : cache.lookup id = some f) :
    (c.function id).run.run cache = (.ok f, cache) := by
  rw [function, run_get_bind, h]
  rfl

lemma run_function_of_none (h : cache.lookup id = none) :
    (c.function id).run.run cache = (c.compose id, c.remember cache id) := by
  rw [function, remember, run_get_bind, h]
  cases c.compose id <;> rfl

lemma remember_of_lookup {f : ComposedFunction} (h : cache.lookup id = some f) :
    c.remember cache id = cache := by
  rw [remember, h]

/-- What can not be composed is not remembered. -/
lemma remember_of_error {e : FunctionError} (h : c.compose id = .error e) (cache : FunctionCache) :
    c.remember cache id = cache := by
  rw [remember, h]
  cases cache.lookup id <;> rfl

/-- A request is answered as composing anew would answer it. -/
theorem Sound.run_function (h : c.Sound cache) (id : ResourceId) :
    (c.function id).run.run cache = (c.compose id, c.remember cache id) := by
  cases hlookup : cache.lookup id with
  | some f =>
    rw [run_function_of_some hlookup, remember_of_lookup hlookup,
      h.compose_eq id f (mem_of_lookup hlookup)]
  | none => exact run_function_of_none hlookup

/-! ### Several requests -/

/-- Whether a function can be composed. -/
def composes (c : Composer) (id : ResourceId) : Bool :=
  (c.compose id).isOk

lemma mem_keys_remember_iff {other : ResourceId} :
    other ∈ (c.remember cache id).map Prod.fst ↔
      other ∈ cache.map Prod.fst ∨ other = id ∧ c.composes other = true := by
  cases hlookup : cache.lookup id with
  | some f =>
    have hmem : id ∈ cache.map Prod.fst := List.mem_map_of_mem (mem_of_lookup hlookup)
    rw [remember_of_lookup hlookup, iff_self_or]
    rintro ⟨rfl, -⟩
    exact hmem
  | none =>
    cases hcompose : c.compose id with
    | error e =>
      rw [remember_of_error hcompose, iff_self_or]
      rintro ⟨rfl, hcomposes⟩
      simp [composes, hcompose, Except.isOk, Except.toBool] at hcomposes
    | ok f =>
      have hcomposes : other = id → c.composes other = true := by
        rintro rfl
        rw [composes, hcompose]
        rfl
      rw [remember, hlookup, hcompose, List.map_append, List.mem_append,
        and_iff_left_of_imp hcomposes]
      simp

lemma mem_keys_foldl_remember_iff {ids : List ResourceId} {other : ResourceId} :
    other ∈ (ids.foldl c.remember cache).map Prod.fst ↔
      other ∈ cache.map Prod.fst ∨ other ∈ ids ∧ c.composes other = true := by
  induction ids generalizing cache with
  | nil => simp
  | cons id ids ih =>
    rw [List.foldl_cons, ih, mem_keys_remember_iff, List.mem_cons]
    tauto

lemma Sound.foldl_remember (h : c.Sound cache) (ids : List ResourceId) :
    c.Sound (ids.foldl c.remember cache) := by
  induction ids generalizing cache with
  | nil => exact h
  | cons id ids ih => exact ih (h.remember id)

/-- From the empty cache on every function that was asked for and could be composed has been
composed once. -/
theorem length_foldl_remember (c : Composer) (ids : List ResourceId) :
    (ids.foldl c.remember []).length = (ids.filter c.composes).dedup.length := by
  have hkeys : ((ids.foldl c.remember []).map Prod.fst).Perm (ids.filter c.composes).dedup := by
    refine (List.perm_ext_iff_of_nodup (sound_nil.foldl_remember ids).nodup
      (List.nodup_dedup _)).mpr fun id => ?_
    rw [mem_keys_foldl_remember_iff, List.mem_dedup, List.mem_filter]
    simp
  rw [← hkeys.length_eq, List.length_map]

/-- What has been asked for already changes nothing. -/
lemma foldl_remember_of_forall {ids : List ResourceId}
    (h : ∀ id ∈ ids, c.composes id = true → id ∈ cache.map Prod.fst) :
    ids.foldl c.remember cache = cache := by
  induction ids with
  | nil => rfl
  | cons id ids ih =>
    have hid : c.remember cache id = cache := by
      cases hcompose : c.compose id with
      | error e => exact remember_of_error hcompose cache
      | ok f =>
        have hmem := h id List.mem_cons_self (by rw [composes, hcompose]; rfl)
        cases hlookup : cache.lookup id with
        | some g => exact remember_of_lookup hlookup
        | none => exact absurd hmem (lookup_eq_none_iff.mp hlookup)
    rw [List.foldl_cons, hid]
    exact ih fun other hother => h other (List.mem_cons_of_mem id hother)

/-! ### Computations -/

section Asks

variable {α β : Type} {x : Composing α} {ids ids' : List ResourceId} {a : α} {b : β}

/-- A computation that asks for functions works the same with and without the cache. -/
theorem Asks.run_eq (h : c.Asks x ids a) (hcache : c.Sound cache) :
    x.run cache = (a, ids.foldl c.remember cache) := by
  induction h generalizing cache with
  | answer a => rfl
  | ask rest ih =>
    rw [StateT.run_bind, hcache.run_function]
    exact ih (hcache.remember _)

lemma Asks.bind {f : α → Composing β} (hx : c.Asks x ids a) (hf : c.Asks (f a) ids' b) :
    c.Asks (x >>= f) (ids ++ ids') b := by
  induction hx with
  | answer a => rwa [pure_bind]
  | ask rest ih =>
    rw [bind_assoc]
    exact .ask (ih hf)

end Asks

/-! ### Computations that may fail -/

section Asking

variable {ε ε' α β : Type} {x : ExceptT ε Composing α} {f : α → ExceptT ε Composing β}
  {ids ids' : List ResourceId} {a : α} {e : ε}

/-- What the computation does with the cache is to ask for functions. -/
def Asking (c : Composer) (x : ExceptT ε Composing α) : Prop :=
  ∃ ids r, c.Asks x.run ids r

lemma Asks.bind_ok (hx : c.Asks x.run ids (.ok a)) {r : Except ε β}
    (hf : c.Asks (f a).run ids' r) :
    c.Asks (x >>= f).run (ids ++ ids') r := by
  rw [ExceptT.run_bind]
  exact hx.bind hf

lemma Asks.bind_error (hx : c.Asks x.run ids (.error e)) : c.Asks (x >>= f).run ids (.error e) := by
  rw [ExceptT.run_bind, ← List.append_nil ids]
  exact hx.bind (.answer _)

lemma asks_function (c : Composer) (id : ResourceId) :
    c.Asks (c.function id).run [id] (c.compose id) := by
  rw [← bind_pure (c.function id).run]
  exact .ask (.answer _)

lemma Asks.map_run {r : Except ε α} (h : c.Asks x.run ids r)
    (g : Except ε α → Except ε' β) :
    c.Asks (g <$> x.run) ids (g r) := by
  rw [map_eq_pure_bind, ← List.append_nil ids]
  exact h.bind (.answer _)

lemma asking_mk_pure (c : Composer) (r : Except ε α) :
    c.Asking (ExceptT.mk (pure r) : ExceptT ε Composing α) :=
  ⟨[], r, .answer r⟩

lemma asking_pure (c : Composer) (a : α) : c.Asking (pure a : ExceptT ε Composing α) :=
  c.asking_mk_pure (.ok a)

lemma asking_throw (c : Composer) (e : ε) : c.Asking (throw e : ExceptT ε Composing α) :=
  c.asking_mk_pure (.error e)

lemma asking_function (c : Composer) (id : ResourceId) : c.Asking (c.function id) :=
  ⟨_, _, c.asks_function id⟩

lemma Asking.bind (hx : c.Asking x) (hf : ∀ a, c.Asking (f a)) : c.Asking (x >>= f) := by
  obtain ⟨ids, r, hx⟩ := hx
  cases r with
  | error e => exact ⟨ids, _, hx.bind_error⟩
  | ok a =>
    obtain ⟨ids', r, hf⟩ := hf a
    exact ⟨_, r, hx.bind_ok hf⟩

lemma Asks.adapt {r : Except ε α} (h : c.Asks x.run ids r) (g : ε → ε') :
    c.Asks (ExceptT.adapt g x).run ids (r.mapError g) :=
  h.map_run (Except.mapError g)

lemma Asking.adapt (hx : c.Asking x) (g : ε → ε') : c.Asking (ExceptT.adapt g x) := by
  obtain ⟨ids, r, hx⟩ := hx
  exact ⟨ids, _, hx.adapt g⟩

lemma Asking.tryCatch (hx : c.Asking x) {handle : ε → ExceptT ε Composing α}
    (hhandle : ∀ e, c.Asking (handle e)) : c.Asking (MonadExcept.tryCatch x handle) := by
  have hrun : (MonadExcept.tryCatch x handle).run = x.run >>= fun r =>
      match r with
      | .ok a => pure (.ok a)
      | .error e => (handle e).run := rfl
  obtain ⟨ids, r, hx⟩ := hx
  rw [Asking, hrun]
  cases r with
  | ok a => exact ⟨_, _, hx.bind (.answer _)⟩
  | error e =>
    obtain ⟨ids', r, hhandle⟩ := hhandle e
    exact ⟨_, _, hx.bind hhandle⟩

end Asking

end Composer

end ModularTemplates
