import ParamTwin.Text.Letter

/-!
# Identifiers

When a string is an identifier of C#, and the comparison of names without the mark `@` that lets a
keyword stand as a name.
-/

namespace ParamTwin

namespace Identifier

/-- The name without a leading `@`. -/
def bare (name : String) : String :=
  match name.toList with
  | '@' :: rest => String.ofList rest
  | _ => name

/-- The reserved words. Contextual keywords are identifiers and are not listed. -/
def keywords : List String :=
  ["abstract", "as", "base", "bool", "break", "byte", "case", "catch", "char", "checked",
   "class", "const", "continue", "decimal", "default", "delegate", "do", "double", "else",
   "enum", "event", "explicit", "extern", "false", "finally", "fixed", "float", "for",
   "foreach", "goto", "if", "implicit", "in", "int", "interface", "internal", "is", "lock",
   "long", "namespace", "new", "null", "object", "operator", "out", "override", "params",
   "private", "protected", "public", "readonly", "ref", "return", "sbyte", "sealed", "short",
   "sizeof", "stackalloc", "static", "string", "struct", "switch", "this", "throw", "true",
   "try", "typeof", "uint", "ulong", "unchecked", "unsafe", "ushort", "using", "virtual",
   "void", "volatile", "while"]

/-- Whether a text starts with a letter or an underscore and goes on with letters, numbers and
underscores. -/
def isWord : List Char → Bool
  | [] => false
  | c :: cs =>
    (Text.isLetter c || c == '_') && cs.all fun c => Text.isLetterOrNumber c || c == '_'

/-- Whether a string is an identifier; after a leading `@` a keyword is one too. -/
def isValid (name : String) : Bool :=
  match name.toList with
  | '@' :: rest => isWord rest
  | cs => isWord cs && !keywords.contains name

end Identifier
end ParamTwin
