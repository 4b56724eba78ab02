import ModularTemplates.Path.Basic

/-!
# Merge rules

A rule says how values at one path are merged. Of several rules that match a path the
first one counts.
-/

namespace ModularTemplates

/-- What a rule does to the target. -/
inductive Operation where
  /-- the target becomes the source -/
  | replace
  /-- objects are merged key by key, arrays index by index, anything else is replaced -/
  | combine
  /-- source items come after the target items -/
  | append
  /-- source items come before the target items -/
  | prepend
deriving DecidableEq, Repr

/-- The operation in merge rules. -/
def Operation.keyword : Operation → String
  | .replace => "REPLACE"
  | .combine => "COMBINE"
  | .append => "APPEND"
  | .prepend => "PREPEND"

/-- The operation in messages. -/
def Operation.title : Operation → String
  | .replace => "Replace"
  | .combine => "Combine"
  | .append => "Append"
  | .prepend => "Prepend"

/-- The operation that a keyword names. -/
def Operation.ofKeyword? (word : String) : Option Operation :=
  [Operation.replace, .combine, .append, .prepend].find? fun op => op.keyword == word

/-- Rules in the order of their registration. -/
abbrev Rules := List (Path × Operation)

namespace Rules

/-- The operation of the first rule for a path. -/
def find? (rules : Rules) (path : Path) : Option Operation :=
  (List.find? (fun rule => Path.matches rule.1 path) rules).map Prod.snd

/-- Whether some rule applies strictly below a path. -/
def reachBelow (rules : Rules) (path : Path) : Bool :=
  rules.any fun rule => Path.reachesBelow rule.1 path

@[simp] theorem find?_nil (path : Path) : find? [] path = none := rfl

@[simp] theorem reachBelow_nil (path : Path) : reachBelow [] path = false := rfl

end Rules

end ModularTemplates
