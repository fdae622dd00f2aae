import ParamTwin.Files.Tree
import ParamTwin.Settings.Document
import ParamTwin.Yaml.Reader
import ParamTwin.Yaml.Writer

/-!
# Settings files

Settings as YAML documents, and reading and writing them in files.
-/

namespace ParamTwin

/-- The reading of YAML documents. -/
def Yaml.format : Format Yaml where
  fields := Yaml.fields
  text := Yaml.text?
  count := Yaml.count?
  flag := Yaml.flag?
  items := Yaml.items?
  choice := Yaml.choice?
  isNull := Yaml.isNull

namespace Settings

/-- The settings of a YAML text. -/
def ofYaml? (t : Text) : Option Settings := do
  read Yaml.format (← Yaml.read? t)

/-- All settings as a YAML text. -/
def toYaml (s : Settings) : Text :=
  Yaml.write s.toJson

/-- The settings in a file. -/
def load (files : FileTree) (path : String) : Except Error Settings :=
  match files.find path with
  | .ok (_, .file bytes) =>
    if Text.isUtf8 bytes then
      match ofYaml? (Text.decode bytes) with
      | some s => .ok s
      | none => .error (.config ("Invalid config file " ++ path) none)
    else .error (.io ("Failed to read config file: " ++ path))
  | _ => .error (.io ("Failed to read config file: " ++ path))

/-- Writes settings to a file in a directory that is there. -/
def save (s : Settings) (files : FileTree) (path : String) : FileTree × Except Error Unit :=
  match files.writeBytes? path (Text.encode s.toYaml) with
  | some files => (files, .ok ())
  | none => (files, .error (.io ("Failed to write config file: " ++ path)))

end Settings
end ParamTwin
