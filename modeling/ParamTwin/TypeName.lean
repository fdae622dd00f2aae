import ParamTwin.Text.Blank
import ParamTwin.Text.Letter

/-!
# Canonical type names

One display form for the spellings of a type: blanks are normalised, `global::` is dropped, the
names of the runtime types are shown as keywords, and `Nullable<T>` as `T?`. An empty text and `var`
name no type.
-/

namespace ParamTwin.TypeName

/-- The runtime types that have a keyword. -/
def keywords : List (String × String) :=
  [("Boolean", "bool"), ("Byte", "byte"), ("SByte", "sbyte"), ("Char", "char"),
   ("Decimal", "decimal"), ("Double", "double"), ("Single", "float"), ("Int16", "short"),
   ("UInt16", "ushort"), ("Int32", "int"), ("UInt32", "uint"), ("Int64", "long"),
   ("UInt64", "ulong"), ("IntPtr", "nint"), ("UIntPtr", "nuint"), ("Object", "object"),
   ("String", "string")]

/-- Whether a character can stand in a name. -/
def isNameChar (c : Char) : Bool :=
  Text.isLetterOrNumber c || c == '_' || c == '@'

/-- The text without blanks, except one between two name characters that blanks part and one after
each comma. `last` is the character written last and `gap` tells whether blanks were passed since.
-/
def squeezeFrom (last : Option Char) (gap : Bool) : Text → Text
  | [] => []
  | c :: cs =>
    if Text.isBlank c then squeezeFrom last true cs
    else
      let between : Text := if gap && last.any isNameChar && isNameChar c then [' '] else []
      if c = ',' then between ++ [',', ' '] ++ squeezeFrom (some ' ') false cs
      else between ++ c :: squeezeFrom (some c) false cs

/-- The text with its blanks normalised. -/
def squeeze (t : Text) : Text :=
  Text.trimEnd (squeezeFrom none false t)

/-- A piece of a type's text. -/
inductive Token where
  /-- A dotted path of names. -/
  | path (name : Text)
  /-- A single other character. -/
  | mark (c : Char)
deriving Repr, DecidableEq, Inhabited

/-- The tokens of a text; `path` is the path read so far. -/
def tokensFrom (path : Text) : Text → List Token
  | [] => if path.isEmpty then [] else [.path path]
  | c :: cs =>
    if isNameChar c || (c == '.' && !path.isEmpty) then tokensFrom (path ++ [c]) cs
    else if path.isEmpty then .mark c :: tokensFrom [] cs
    else .path path :: .mark c :: tokensFrom [] cs

/-- The tokens of a text. -/
def tokens (t : Text) : List Token :=
  tokensFrom [] t

/-- A path as it is shown: a runtime type with or without its namespace by its keyword. -/
def pathText (path : Text) : Text :=
  let simple := if "System.".toList.isPrefixOf path then path.drop 7 else path
  match keywords.lookup (String.ofList simple) with
  | some keyword => keyword.toList
  | none => path

/-- Whether a path names the type of nullable values. -/
def isNullable (path : Text) : Bool :=
  path == "Nullable".toList || path == "System.Nullable".toList

/-- The tokens inside an open bracket and those after the bracket that closes it, where `depth` more
brackets are open inside. -/
def closing? (depth : Nat) : List Token → Option (List Token × List Token)
  | [] => none
  | t :: ts =>
    if t = .mark '>' then
      match depth with
      | 0 => some ([], ts)
      | depth + 1 => (closing? depth ts).map fun (inner, rest) => (t :: inner, rest)
    else if t = .mark '<' then
      (closing? (depth + 1) ts).map fun (inner, rest) => (t :: inner, rest)
    else (closing? depth ts).map fun (inner, rest) => (t :: inner, rest)

/-- The two parts around a closing bracket are shorter than the whole. -/
theorem length_of_closing? {depth : Nat} {ts inner rest : List Token}
    (h : closing? depth ts = some (inner, rest)) :
    inner.length < ts.length ∧ rest.length < ts.length := by
  induction ts generalizing depth inner rest with
  | nil => simp [closing?] at h
  | cons t ts ih =>
    simp only [closing?] at h
    split at h
    · cases depth with
      | zero =>
        simp only [Option.some.injEq, Prod.mk.injEq] at h
        obtain ⟨rfl, rfl⟩ := h
        simp
      | succ depth =>
        obtain ⟨⟨i, r⟩, h1, h2⟩ := Option.map_eq_some_iff.1 h
        simp only [Prod.mk.injEq] at h2
        obtain ⟨rfl, rfl⟩ := h2
        have := ih h1
        simp; omega
    · split at h
      all_goals
        obtain ⟨⟨i, r⟩, h1, h2⟩ := Option.map_eq_some_iff.1 h
        simp only [Prod.mk.injEq] at h2
        obtain ⟨rfl, rfl⟩ := h2
        have := ih h1
        simp; omega

/-- The display form of a list of tokens. -/
def render (ts : List Token) : Text :=
  match ts with
  | [] => []
  | .mark c :: ts => c :: render ts
  | .path name :: .mark '<' :: ts =>
    if isNullable name then
      match h : closing? 0 ts with
      | some (inner, rest) =>
        have := length_of_closing? h
        render inner ++ '?' :: render rest
      | none => name ++ render (.mark '<' :: ts)
    else pathText name ++ render (.mark '<' :: ts)
  | .path name :: ts => pathText name ++ render ts
termination_by ts.length
decreasing_by all_goals (simp_all; try omega)

/-- The display form of a type as written, none for an empty text and for `var`. -/
def canonical (t : Text) : Option String :=
  let t := Text.erase "global::".toList (squeeze t)
  if t.isEmpty || t == "var".toList then none
  else some (String.ofList (render (tokens t)))

end ParamTwin.TypeName
