import Mathlib.Tactic.Lemma
import ModularTemplates.Proofs.Json
import ModularTemplates.Proofs.Merge.Report

/-!
# Adding modules at places of a value

An object that names a resource and no module can be given one. Done at all places of a value for
which there is a module, this is an operation of its own. Doing it twice is doing it once with both,
a place of the result can be traced to the value, and what was added can be taken out again.
-/

namespace ModularTemplates

/-! ### Adding a module to an object -/

namespace Fields

variable {fs : Fields Json} {module : Option String} {key : String}

/-- The object with a module, if there is one to add and the object names a resource and no
module. -/
def addModule (module : Option String) (fs : Fields Json) : Fields Json :=
  match module with
  | some name =>
    if fs.has "module" || !fs.has "resource" then fs else fs.set "module" (.string name)
  | none => fs

@[simp] lemma addModule_none (fs : Fields Json) : addModule none fs = fs := rfl

lemma addModule_of_has (module : Option String) (h : fs.has "module" = true) :
    fs.addModule module = fs := by
  cases module <;> simp [addModule, h]

/-- Adding twice is adding once. The first module counts. -/
lemma addModule_addModule (first second : Option String) (fs : Fields Json) :
    (fs.addModule first).addModule second = fs.addModule (first.or second) := by
  cases first with
  | none => rfl
  | some name =>
    rw [Option.some_or]
    by_cases hadd : (fs.has "module" || !fs.has "resource") = true
    · cases second <;> simp only [addModule, hadd, if_true]
    · have hadded : fs.addModule (some name) = fs.set "module" (.string name) := if_neg hadd
      rw [hadded]
      exact addModule_of_has second (by simp [has])

/-- What is found in an object with a module was there before, or it is the module. -/
lemma get?_addModule {v : Json} (h : (fs.addModule module).get? key = some v) :
    fs.get? key = some v ∨
      key = "module" ∧ fs.get? "module" = none ∧ fs.has "resource" = true ∧
        ∃ name, module = some name ∧ v = .string name := by
  cases module with
  | none => exact .inl h
  | some name =>
    rw [addModule] at h
    split_ifs at h with hadd
    · exact .inl h
    · rw [get?_set] at h
      split_ifs at h with hkey
      · cases h
        obtain ⟨hmodule, hresource⟩ : fs.has "module" = false ∧ fs.has "resource" = true := by
          simpa using hadd
        exact .inr ⟨hkey, Option.isNone_iff_eq_none.mp (Option.isSome_eq_false_iff.mp hmodule),
          hresource, name, rfl, rfl⟩
      · exact .inl h

/-- An object that names a resource names a module when there was one to add. -/
lemma has_module_addModule {name : String} (h : (fs.addModule (some name)).has "resource" = true) :
    (fs.addModule (some name)).has "module" = true := by
  rw [addModule] at h ⊢
  split_ifs at h ⊢ with hadd
  · simpa [h] using hadd
  · simp [has]

end Fields

namespace Json

/-! ### Adding modules at places -/

mutual
/-- Add modules to the objects of a value, to each the one for its place. -/
def addModules (modules : Path → Option String) : Json → Json
  | .object fs => .object (Fields.addModule (modules []) (addModulesFields modules fs))
  | .array xs => .array (addModulesItems modules 0 xs)
  | v => v

/-- Add modules below the properties of an object. -/
def addModulesFields (modules : Path → Option String) :
    List (String × Json) → List (String × Json)
  | [] => []
  | (k, v) :: fs =>
    (k, addModules (fun p => modules (.key k :: p)) v) :: addModulesFields modules fs

/-- Add modules below the items of an array from an index on. -/
def addModulesItems (modules : Path → Option String) : Nat → List Json → List Json
  | _, [] => []
  | i, x :: xs =>
    addModules (fun p => modules (.index i :: p)) x :: addModulesItems modules (i + 1) xs
end

variable {modules : Path → Option String} {v w : Json} {seg : Segment} {p : Path}

lemma get?_addModulesFields (modules : Path → Option String) (fs : Fields Json) (key : String) :
    Fields.get? (addModulesFields modules fs) key =
      (fs.get? key).map (addModules fun p => modules (.key key :: p)) := by
  induction fs with
  | nil => rfl
  | cons field fs ih =>
    obtain ⟨k, v⟩ := field
    rw [addModulesFields, Fields.get?_cons, Fields.get?_cons, ih]
    split_ifs with hk
    · rw [hk, Option.map_some]
    · rfl

lemma getElem?_addModulesItems (modules : Path → Option String) (i j : Nat) (xs : List Json) :
    (addModulesItems modules i xs)[j]? =
      xs[j]?.map (addModules fun p => modules (.index (i + j) :: p)) := by
  induction xs generalizing i j with
  | nil => rfl
  | cons x xs ih =>
    rw [addModulesItems]
    cases j with
    | zero => simp
    | succ j => simp [ih, Nat.add_assoc, Nat.add_comm 1 j]

lemma has_addModulesFields (modules : Path → Option String) (fs : Fields Json) (key : String) :
    Fields.has (addModulesFields modules fs) key = fs.has key := by
  rw [Fields.has, get?_addModulesFields, Option.isSome_map, Fields.has]

/-- There are no places inside of an added module. -/
lemma addModulesFields_addModule (modules : Path → Option String) (module : Option String)
    (fs : Fields Json) :
    addModulesFields modules (fs.addModule module) =
      Fields.addModule module (addModulesFields modules fs) := by
  have hset : ∀ (fs : Fields Json) (name : String),
    addModulesFields modules (fs.set "module" (.string name)) =
      Fields.set (addModulesFields modules fs) "module" (.string name) := by
    intro fs name
    induction fs with
    | nil => rfl
    | cons field fs ih =>
      obtain ⟨k, v⟩ := field
      rw [Fields.set, addModulesFields, Fields.set]
      split_ifs
      · rfl
      · rw [addModulesFields, ih]
  cases module with
  | none => rfl
  | some name =>
    simp only [Fields.addModule, has_addModulesFields]
    split_ifs
    · rfl
    · exact hset fs name

mutual
/-- Adding modules to a value twice is adding once. Where both have one the first counts. -/
theorem addModules_addModules (first second : Path → Option String) (v : Json) :
    addModules second (addModules first v) = addModules (fun p => (first p).or (second p)) v := by
  match v with
  | .object fs =>
    rw [addModules, addModules, addModules, addModulesFields_addModule,
      addModulesFields_addModulesFields, Fields.addModule_addModule]
  | .array xs => rw [addModules, addModules, addModules, addModulesItems_addModulesItems]
  | .null | .bool _ | .number _ | .string _ => rfl

theorem addModulesFields_addModulesFields (first second : Path → Option String)
    (fs : List (String × Json)) :
    addModulesFields second (addModulesFields first fs) =
      addModulesFields (fun p => (first p).or (second p)) fs := by
  match fs with
  | [] => rfl
  | (k, v) :: fs =>
    rw [addModulesFields, addModulesFields, addModulesFields, addModules_addModules,
      addModulesFields_addModulesFields first second fs]

theorem addModulesItems_addModulesItems (first second : Path → Option String) (i : Nat)
    (xs : List Json) :
    addModulesItems second i (addModulesItems first i xs) =
      addModulesItems (fun p => (first p).or (second p)) i xs := by
  match xs with
  | [] => rfl
  | x :: xs =>
    rw [addModulesItems, addModulesItems, addModulesItems, addModules_addModules,
      addModulesItems_addModulesItems first second (i + 1) xs]
end

mutual
lemma addModules_none (v : Json) : addModules (fun _ => none) v = v := by
  match v with
  | .object fs => rw [addModules, addModulesFields_none, Fields.addModule_none]
  | .array xs => rw [addModules, addModulesItems_none]
  | .null | .bool _ | .number _ | .string _ => rfl

lemma addModulesFields_none (fs : List (String × Json)) :
    addModulesFields (fun _ => none) fs = fs := by
  match fs with
  | [] => rfl
  | (k, v) :: fs => rw [addModulesFields, addModules_none v, addModulesFields_none fs]

lemma addModulesItems_none (i : Nat) (xs : List Json) :
    addModulesItems (fun _ => none) i xs = xs := by
  match xs with
  | [] => rfl
  | x :: xs => rw [addModulesItems, addModules_none x, addModulesItems_none (i + 1) xs]
end

lemma addModulesFields_congr {f g : Path → Option String} {fs : Fields Json}
    (h : ∀ key ∈ fs.keys, ∀ p, f (.key key :: p) = g (.key key :: p)) :
    addModulesFields f fs = addModulesFields g fs := by
  induction fs with
  | nil => rfl
  | cons field fs ih =>
    obtain ⟨k, v⟩ := field
    rw [Fields.keys_cons, List.forall_mem_cons] at h
    rw [addModulesFields, addModulesFields, ih h.2, funext h.1]

lemma addModulesItems_congr {f g : Path → Option String}
    (h : ∀ i p, f (.index i :: p) = g (.index i :: p)) (i : Nat) (xs : List Json) :
    addModulesItems f i xs = addModulesItems g i xs := by
  induction xs generalizing i with
  | nil => rfl
  | cons x xs ih => rw [addModulesItems, addModulesItems, ih, funext (h i)]

lemma addModulesFields_eq_self {fs : Fields Json}
    (h : ∀ key ∈ fs.keys, ∀ p, modules (.key key :: p) = none) :
    addModulesFields modules fs = fs :=
  (addModulesFields_congr (g := fun _ => none) h).trans (addModulesFields_none fs)

lemma addModulesItems_eq_self (h : ∀ i p, modules (.index i :: p) = none) (i : Nat)
    (xs : List Json) :
    addModulesItems modules i xs = xs :=
  (addModulesItems_congr (g := fun _ => none) h i xs).trans (addModulesItems_none i xs)

/-! ### What stands at a place -/

/-- A value at a place with modules added. It was there before without those below it, or it is the
module that was added to the object around it. -/
inductive Added (modules : Path → Option String) (v : Json) : Path → Json → Prop
  | kept {p : Path} {w : Json} (h : p.lookup v = some w) :
      Added modules v p (addModules (fun q => modules (p ++ q)) w)
  | new {p : Path} {fs : Fields Json} {name : String} (h : p.lookup v = some (.object fs))
      (hmodule : fs.get? "module" = none) (hresource : fs.has "resource" = true)
      (hname : modules p = some name) :
      Added modules v (p ++ [.key "module"]) (.string name)

lemma Added.inside (hw : v.child? seg = some w) {u : Json}
    (h : Added (fun q => modules (seg :: q)) w p u) : Added modules v (seg :: p) u := by
  cases h with
  | kept h => exact .kept (p := seg :: p) ((Path.lookup_of_child hw p).trans h)
  | @new p _ _ h hmodule hresource hname =>
    have hlookup := Path.lookup_of_child hw p
    exact .new (p := seg :: p) (hlookup.trans h) hmodule hresource hname

/-- One step below an object with modules is a part with modules, or the module that was added
to the object. -/
lemma child?_addModules (h : (addModules modules v).child? seg = some w) :
    (∃ u, v.child? seg = some u ∧ w = addModules (fun p => modules (seg :: p)) u) ∨
      ∃ (fs : Fields Json) (name : String),
        v = .object fs ∧ fs.get? "module" = none ∧ fs.has "resource" = true ∧
        modules [] = some name ∧ seg = .key "module" ∧ w = .string name := by
  cases v with
  | object fs =>
    cases seg with
    | index i => cases h
    | key k =>
      rcases Fields.get?_addModule h with hfield | ⟨rfl, hmodule, hresource, name, hname, rfl⟩
      · rw [get?_addModulesFields] at hfield
        obtain ⟨u, hu, rfl⟩ := Option.map_eq_some_iff.mp hfield
        exact .inl ⟨u, hu, rfl⟩
      · rw [get?_addModulesFields, Option.map_eq_none_iff] at hmodule
        rw [has_addModulesFields] at hresource
        exact .inr ⟨fs, name, rfl, hmodule, hresource, hname, rfl, rfl⟩
  | array xs =>
    cases seg with
    | key k => cases h
    | index i =>
      rw [addModules, child?, getElem?_addModulesItems, Nat.zero_add] at h
      obtain ⟨u, hu, rfl⟩ := Option.map_eq_some_iff.mp h
      exact .inl ⟨u, hu, rfl⟩
  | _ => cases h

theorem added_of_lookup (h : p.lookup (addModules modules v) = some w) : Added modules v p w := by
  induction p generalizing modules v with
  | nil =>
    cases h
    exact .kept rfl
  | cons seg p ih =>
    obtain ⟨u, hu, hw⟩ := Option.bind_eq_some_iff.mp h
    rcases child?_addModules hu
      with ⟨x, hx, rfl⟩ | ⟨fs, name, rfl, hmodule, hresource, hname, rfl, rfl⟩
    · exact (ih hw).inside hx
    · -- nothing stands below the module, so the place ends here
      cases p with
      | nil =>
        cases hw
        exact .new (p := []) rfl hmodule hresource hname
      | cons seg p => cases hw

/-- An object that names a resource names a module if there was one to add at its place. -/
theorem has_module_of_lookup {fs : Fields Json} {name : String} (hname : modules p = some name)
    (h : p.lookup (addModules modules v) = some (.object fs))
    (hresource : fs.has "resource" = true) :
    fs.has "module" = true := by
  generalize hw : object fs = w at h
  cases added_of_lookup h with
  | @kept _ u _ =>
    cases u with
    | object gs =>
      rw [addModules, List.append_nil, hname] at hw
      cases hw
      exact Fields.has_module_addModule hresource
    | _ => cases hw
  | new => cases hw

/-- A module where there was none is the one for its place, and the object names a resource. -/
theorem module_of_lookup (h : Path.lookup (p ++ [.key "module"]) (addModules modules v) = some w)
    (hnone : Path.lookup (p ++ [.key "module"]) v = none) :
    Path.lookup (p ++ [.key "resource"]) v ≠ none ∧ ∃ name, modules p = some name ∧
      w = .string name := by
  generalize hplace : p ++ [Segment.key "module"] = place at h
  cases added_of_lookup h with
  | kept hbefore =>
    rw [hplace, hbefore] at hnone
    cases hnone
  | @new _ fs name hbefore _ hresource hname =>
    obtain rfl := List.append_inj_left' hplace rfl
    obtain ⟨resource, hresource⟩ := Option.isSome_iff_exists.mp hresource
    have hchild : (object fs).child? (.key "resource") = some resource := hresource
    rw [Path.lookup_append, hbefore, Option.bind_some, Path.lookup_of_child hchild]
    exact ⟨Option.some_ne_none _, name, hname, rfl⟩

/-! ### Taking modules out -/

mutual
/-- Take the modules out of the objects at some places of a value. -/
def removeModules (places : Path → Bool) : Json → Json
  | .object fs =>
    .object (if places [] then Fields.erase (removeModulesFields places fs) "module"
      else removeModulesFields places fs)
  | .array xs => .array (removeModulesItems places 0 xs)
  | v => v

/-- Take modules out below the properties of an object. -/
def removeModulesFields (places : Path → Bool) : List (String × Json) → List (String × Json)
  | [] => []
  | (k, v) :: fs =>
    (k, removeModules (fun p => places (.key k :: p)) v) :: removeModulesFields places fs

/-- Take modules out below the items of an array from an index on. -/
def removeModulesItems (places : Path → Bool) : Nat → List Json → List Json
  | _, [] => []
  | i, x :: xs =>
    removeModules (fun p => places (.index i :: p)) x :: removeModulesItems places (i + 1) xs
end

/-- Whether a place of a value has no module. -/
def lacksModule (v : Json) (p : Path) : Bool :=
  (Path.lookup (p ++ [.key "module"]) v).isNone

lemma lacksModule_cons (hw : v.child? seg = some w) (p : Path) :
    v.lacksModule (seg :: p) = w.lacksModule p := by
  rw [lacksModule, List.cons_append, Path.lookup_of_child hw, lacksModule]

lemma lacksModule_object (fs : Fields Json) : (object fs).lacksModule [] = !fs.has "module" := by
  rw [lacksModule, List.nil_append, Path.lookup_cons, child?, Fields.has]
  cases fs.get? "module" <;> rfl

lemma removeModulesFields_set (places : Path → Bool) (fs : Fields Json) (key text : String) :
    removeModulesFields places (fs.set key (.string text)) =
      Fields.set (removeModulesFields places fs) key (.string text) := by
  induction fs with
  | nil => rfl
  | cons field fs ih =>
    obtain ⟨k, v⟩ := field
    rw [Fields.set, removeModulesFields, Fields.set]
    split_ifs
    · rfl
    · rw [removeModulesFields, ih]

/-- The module that an object lacks is taken out after it was added. -/
lemma erase_removeModulesFields_addModule {places : Path → Bool} {fs gs : Fields Json}
    (module : Option String) (h : removeModulesFields places gs = fs)
    (hfs : fs.has "module" = false) :
    Fields.erase (removeModulesFields places (Fields.addModule module gs)) "module" = fs := by
  have hkey : "module" ∉ fs.keys := by
    rwa [← Fields.get?_eq_none_iff, ← Option.isNone_iff_eq_none, ← Option.isSome_eq_false_iff]
  cases module with
  | none => rw [Fields.addModule_none, h, Fields.erase_of_not_mem hkey]
  | some name =>
    rw [Fields.addModule]
    split_ifs
    · rw [h, Fields.erase_of_not_mem hkey]
    · rw [removeModulesFields_set, h, Fields.erase_set_of_not_mem hkey]

mutual
/-- What was added is taken out again, and nothing else. -/
theorem removeModules_addModules (modules : Path → Option String) (v : Json) (hv : v.WellFormed)
    {places : Path → Bool} (hplaces : ∀ p, places p = v.lacksModule p) :
    removeModules places (addModules modules v) = v := by
  match v with
  | .object fs =>
    have hfields : removeModulesFields places (addModulesFields modules fs) = fs := by
      refine removeModulesFields_addModulesFields modules fs
        (fun key w hw => ?_) fun key w hw p => ?_
      · exact hv.get? (hv.distinct.get?_of_mem hw)
      · have hchild : (object fs).child? (.key key) = some w := hv.distinct.get?_of_mem hw
        rw [hplaces, lacksModule_cons hchild]
    rw [addModules, removeModules, hplaces, lacksModule_object]
    cases hmodule : Fields.has fs "module" with
    | true =>
      rw [Fields.addModule_of_has _ (by rwa [has_addModulesFields]), hfields]
      rfl
    | false =>
      rw [Bool.not_false, if_pos rfl, erase_removeModulesFields_addModule _ hfields hmodule]
  | .array xs =>
    rw [wellFormed_array_iff] at hv
    rw [addModules, removeModules,
      removeModulesItems_addModulesItems modules 0 xs hv fun i x hx p => ?_]
    have hchild : (array xs).child? (.index i) = some x := hx
    rw [hplaces, Nat.zero_add, lacksModule_cons hchild]
  | .null | .bool _ | .number _ | .string _ => rfl

theorem removeModulesFields_addModulesFields (modules : Path → Option String)
    (fs : List (String × Json)) (hfs : ∀ key w, (key, w) ∈ fs → w.WellFormed)
    {places : Path → Bool}
    (hplaces : ∀ key w, (key, w) ∈ fs → ∀ p, places (.key key :: p) = w.lacksModule p) :
    removeModulesFields places (addModulesFields modules fs) = fs := by
  match fs with
  | [] => rfl
  | (k, v) :: fs =>
    rw [addModulesFields, removeModulesFields,
      removeModules_addModules _ v (hfs k v List.mem_cons_self) (hplaces k v List.mem_cons_self),
      removeModulesFields_addModulesFields modules fs
        (fun key w hw => hfs key w (List.mem_cons_of_mem _ hw))
        fun key w hw => hplaces key w (List.mem_cons_of_mem _ hw)]

theorem removeModulesItems_addModulesItems (modules : Path → Option String) (i : Nat)
    (xs : List Json) (hxs : ∀ x ∈ xs, x.WellFormed) {places : Path → Bool}
    (hplaces : ∀ j x, xs[j]? = some x → ∀ p, places (.index (i + j) :: p) = x.lacksModule p) :
    removeModulesItems places i (addModulesItems modules i xs) = xs := by
  match xs with
  | [] => rfl
  | x :: xs =>
    rw [List.forall_mem_cons] at hxs
    have hx : ∀ p, places (.index i :: p) = x.lacksModule p := hplaces 0 x rfl
    rw [addModulesItems, removeModulesItems, removeModules_addModules _ x hxs.1 hx,
      removeModulesItems_addModulesItems modules (i + 1) xs hxs.2 fun j y hy p => ?_]
    rw [Nat.add_assoc, Nat.add_comm 1 j]
    exact hplaces (j + 1) y hy p
end

end Json

end ModularTemplates
