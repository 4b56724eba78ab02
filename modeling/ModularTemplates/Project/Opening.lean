import ModularTemplates.Manifest
import ModularTemplates.Project

/-!
# Opening projects

A project is opened by its manifest: the documents of its modules are loaded, and its
extensions are resolved.
-/

namespace ModularTemplates

/-- Why a project can not be opened. -/
inductive OpenError where
  | manifest (cause : ManifestError)
  | load (cause : LoadError)
  | project (cause : ProjectError)

namespace OpenError

/-- The text of an error. -/
def message : OpenError → String
  | .manifest _ => "failed to read manifest"
  | .load _ => "failed to load module"
  | .project cause => cause.message

/-- The texts of an error and of what caused it, outermost first. -/
def chain : OpenError → List String
  | e@(.manifest cause) => e.message :: cause.chain
  | e@(.load cause) => e.message :: cause.chain
  | .project cause => cause.chain

end OpenError

/-- The project of a manifest. Its root directory is that of the manifest. -/
def Project.ofManifest {m : Type → Type} [Monad m] (files : FileAccess m) (directory : Location)
    (path : String) : ExceptT OpenError m Project := do
  let (manifest, l) ← ExceptT.adapt .manifest (Manifest.load files directory path)
  let documents ← ExceptT.adapt .load (manifest.documents files l.parent)
  let p ← ExceptT.adapt .project
    (ExceptT.mk (pure (Project.ofDocuments documents manifest.schema manifest.extensions)))
  return { p with parameters := manifest.parameters, rootDir := l.parent.display }

end ModularTemplates
