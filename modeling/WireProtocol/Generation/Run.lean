import WireProtocol.Target.Basic
import WireProtocol.Text.Json

namespace WireProtocol.Generation

open Files (Path)
open Text (Json)

structure RunLanguage where
  name : String
  enabled : Bool := true
  namespaceName : String := ""
  deriving DecidableEq, Repr

structure Run where
  schema : Path
  outputRoot : Path
  languages : List RunLanguage
  deriving DecidableEq, Repr

def RunLanguage.ofJson? (j : Json) : Option RunLanguage := do
  match ← j.fields? ["name", "enabled", "namespace"] with
  | [some name, enabled, namespaceName] =>
    return {
      name := ← name.text?
      enabled := ← enabled.elim (some true) Json.bool?
      namespaceName := ← namespaceName.elim (some "") Json.text? }
  | _ => none

namespace Run

def ofJson? (j : Json) : Option Run := do
  match ← j.fields? ["schema_path", "output_root", "languages"] with
  | [some schema, some outputRoot, some languages] =>
    return {
      schema := ⟨← schema.text?⟩
      outputRoot := ⟨← outputRoot.text?⟩
      languages := ← (← languages.items?).mapM RunLanguage.ofJson? }
  | _ => none

def within (r : Run) (file : Path) : Run :=
  match file.parent? with
  | some directory =>
    { r with schema := directory.join r.schema, outputRoot := directory.join r.outputRoot }
  | none => r

def enabled (r : Run) : List RunLanguage := r.languages.filter (·.enabled)

def options (r : Run) (l : RunLanguage) : Target.Options where
  outputDir := r.outputRoot.join ⟨l.name⟩
  namespaceName := l.namespaceName

end Run

end WireProtocol.Generation
