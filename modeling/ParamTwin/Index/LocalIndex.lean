import ParamTwin.Files.Tree
import ParamTwin.Index.Store

/-!
# Indexes in files

A store that may have a file behind it. Opening reads the file, and only flushing or saving writes
one.
-/

namespace ParamTwin

/-- A store with the path of its file, if it has one. -/
structure LocalIndex where
  store : Store
  path : Option String
deriving Inhabited

namespace LocalIndex

/-- An empty index without a file. -/
def new : LocalIndex :=
  { store := .empty, path := none }

/-- The index of a file, empty if nothing is there. -/
def «open» (files : FileTree) (path : String) : Except Error LocalIndex :=
  if files.exists path then do
    let text ← files.readText path
    return { store := ← Store.ofText text, path := some path }
  else .ok { store := .empty, path := some path }

/-- The index with more records. -/
def upsert (i : LocalIndex) (rs : List IndexRecord) : LocalIndex :=
  { i with store := i.store.upsert rs }

/-- Writes the records to a file. -/
def save (i : LocalIndex) (files : FileTree) (path : String) : FileTree × Except Error Unit :=
  files.writeText path i.store.text

/-- Writes the records to the file behind the index, if there is one. -/
def flush (i : LocalIndex) (files : FileTree) : FileTree × Except Error Unit :=
  match i.path with
  | some path => i.save files path
  | none => (files, .ok ())

end LocalIndex
end ParamTwin
