import ParamTwin.Error
import ParamTwin.Files.Path
import ParamTwin.Text.Blank

/-!
# Languages

The languages whose sources can be handled, found by the extension of a path or by a name that a
user gives. There is one, C#.
-/

namespace ParamTwin

/-- A language of sources. -/
structure Language where
  key : String
  displayName : String
  /-- The extensions of its files, in lower case. -/
  extensions : List String
  /-- The names by which it can be asked for, in lower case. -/
  names : List String
deriving Repr, DecidableEq, Inhabited

namespace Language

/-- C#. -/
def cSharp : Language where
  key := "cs"
  displayName := "C#"
  extensions := ["cs"]
  names := ["cs", "c#", "csharp", "c_sharp"]

/-- All languages. -/
def all : List Language :=
  [cSharp]

/-- A string with ASCII letters in lower case. -/
def lowered (s : String) : String :=
  String.ofList (Text.lower s.toList)

/-- Whether an extension is one of a list, in any letter case. -/
def hasExtension (extensions : List String) (path : String) : Bool :=
  match Path.extension? path with
  | some ext => extensions.any fun e => lowered e == lowered ext
  | none => false

/-- The language of the files with the extension of a path. -/
def ofPath? (path : String) : Option Language :=
  all.find? fun l => hasExtension l.extensions path

/-- The language of the given name, with blanks around it or not. -/
def ofName (name : String) : Except Error Language :=
  match all.find? fun l => l.names.contains (lowered (Text.trimString name)) with
  | some l => .ok l
  | none => .error (.unsupported ("No tree-sitter grammar for: " ++ name))

end Language
end ParamTwin
