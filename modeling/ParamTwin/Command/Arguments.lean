import ParamTwin.Corpus.Batch
import ParamTwin.Settings.Basic

/-!
# Command lines

The commands and how they are read from the words of a command line. Options have long names after
two dashes and letters after one; their values follow an equals sign or are the next word, and
letters can be joined. After two dashes alone all words are operands.
-/

namespace ParamTwin

/-- What the program is asked to do. -/
inductive Command where
  /-- Transforms a file, in place if there is no output. -/
  | transform (input : String) (output : Option String) (strategy : Option Strategy)
      (config : Option String)
  /-- Harvests the source files below a directory. -/
  | harvest (root : String) (out : Option String) (batchSize : Option Nat) (config : Option String)
  /-- Fills the index from a directory of batch files. -/
  | populate (dir : String) (config : Option String)
  /-- Shows the default settings. -/
  | printDefaultConfig
deriving Repr, DecidableEq, Inhabited

/-- Why a command line names no command to run. -/
inductive Refusal where
  /-- It cannot be understood. -/
  | invalid
  /-- It asks for the version. -/
  | version
  /-- It asks how the program is used. -/
  | help
deriving Repr, DecidableEq, Inhabited

/-- What an option takes. -/
inductive OptionKind where
  /-- No value. -/
  | flag
  /-- A value that satisfies a condition. -/
  | value (accepts : String → Bool)
  /-- It ends the reading of the command line. -/
  | stop (r : Refusal)

/-- An option of a command. -/
structure OptionSpec where
  name : String
  letter : Option Char
  kind : OptionKind

/-- The words of a command line by their role. -/
structure Arguments where
  /-- The options with their values, which are empty for flags. -/
  options : List (String × String)
  operands : List String
deriving Repr, DecidableEq, Inhabited

namespace Arguments

/-- No words. -/
def empty : Arguments :=
  { options := [], operands := [] }

/-- The value of an option. -/
def get? (a : Arguments) (name : String) : Option String :=
  a.options.lookup name

/-- One more option, which may be given once. -/
def addOption (a : Arguments) (name value : String) : Except Refusal Arguments :=
  if (a.get? name).isSome then .error .invalid
  else .ok { a with options := (name, value) :: a.options }

/-- One more operand, of which there are at most `limit`; it must not be empty. -/
def addOperand (limit : Nat) (a : Arguments) (word : String) : Except Refusal Arguments :=
  if a.operands.length < limit && word != "" then .ok { a with operands := a.operands ++ [word] }
  else .error .invalid

/-- One more option with a value that it must accept. -/
def addValue (a : Arguments) (spec : OptionSpec) (value : String) : Except Refusal Arguments :=
  match spec.kind with
  | .value accepts => if accepts value then a.addOption spec.name value else .error .invalid
  | .flag | .stop _ => .error .invalid

/-- Whether a word starts like an option. -/
def isOption (word : String) : Bool :=
  word.toList.head? == some '-' && word != "-"

/-- A long option after its dashes. An option whose value is the next word is given back. -/
def addLong (specs : List OptionSpec) (a : Arguments) (t : Text) :
    Except Refusal (Arguments × Option OptionSpec) :=
  let (name, rest) := t.span (· ≠ '=')
  match specs.find? (·.name == String.ofList name), rest with
  | none, _ => .error .invalid
  | some spec, [] =>
    match spec.kind with
    | .flag => (a.addOption spec.name "").map fun a => (a, none)
    | .stop r => .error r
    | .value _ => .ok (a, some spec)
  | some spec, _ :: value => (a.addValue spec (String.ofList value)).map fun a => (a, none)

/-- The value joined to a letter, without an equals sign before it. -/
def joinedValue : Text → String
  | '=' :: value => String.ofList value
  | value => String.ofList value

/-- Letters after a dash. An option whose value is the next word is given back. -/
def addLetters (specs : List OptionSpec) (a : Arguments) :
    Text → Except Refusal (Arguments × Option OptionSpec)
  | [] => .ok (a, none)
  | c :: cs =>
    match specs.find? (·.letter == some c) with
    | none => .error .invalid
    | some spec =>
      match spec.kind with
      | .flag =>
        match a.addOption spec.name "" with
        | .ok a => addLetters specs a cs
        | .error r => .error r
      | .stop r => .error r
      | .value _ =>
        if cs.isEmpty then .ok (a, some spec)
        else (a.addValue spec (joinedValue cs)).map fun a => (a, none)

/-- Reads the words of a command with at most `limit` operands. `waiting` is the option whose value
is the next word, and `plain` tells that all words are operands. -/
def read (specs : List OptionSpec) (limit : Nat) :
    (waiting : Option OptionSpec) → (plain : Bool) → List String → Arguments →
      Except Refusal Arguments
  | none, _, [], a => .ok a
  | some _, _, [], _ => .error .invalid
  | some spec, plain, w :: ws, a =>
    if isOption w then .error .invalid
    else
      match a.addValue spec w with
      | .ok a => read specs limit none plain ws a
      | .error r => .error r
  | none, true, w :: ws, a =>
    match a.addOperand limit w with
    | .ok a => read specs limit none true ws a
    | .error r => .error r
  | none, false, w :: ws, a =>
    if w == "--" then read specs limit none true ws a
    else
      let step := match w.toList with
        | '-' :: '-' :: t => a.addLong specs t
        | '-' :: c :: t => a.addLetters specs (c :: t)
        | _ => (a.addOperand limit w).map fun a => (a, none)
      match step with
      | .ok (a, waiting) => read specs limit waiting false ws a
      | .error r => .error r

end Arguments

namespace Command

/-! ## Options -/

/-- The option to see more messages, known to every command. -/
def verbose : OptionSpec :=
  { name := "verbose", letter := some 'v', kind := .flag }

/-- The option to see how the program is used, known to every command. -/
def help : OptionSpec :=
  { name := "help", letter := some 'h', kind := .stop .help }

/-- The option to see the version. -/
def version : OptionSpec :=
  { name := "version", letter := some 'V', kind := .stop .version }

/-- An option whose value is a path. -/
def pathOption (name : String) (letter : Char) : OptionSpec :=
  { name, letter := some letter, kind := .value (· != "") }

/-- The option for the settings file. -/
def config : OptionSpec :=
  pathOption "config" 'c'

/-- The option for the strategy. -/
def strategy : OptionSpec :=
  { name := "strategy", letter := some 's', kind := .value fun s => (Strategy.ofName? s).isSome }

/-- The option for the size of batches. -/
def batchSize : OptionSpec :=
  { name := "batch-size", letter := none, kind := .value fun s => (Batch.count? s.toList).isSome }

/-! ## Commands -/

/-- The words of a command with its own options. -/
def arguments (specs : List OptionSpec) (limit : Nat) (words : List String) :
    Except Refusal Arguments :=
  Arguments.read (specs ++ [verbose, help]) limit none false words .empty

/-- The command of a name with the words after it. -/
def ofWords (name : String) (words : List String) : Except Refusal Command :=
  match name with
  | "transform" => do
    let a ← arguments [strategy, config] 2 words
    match a.operands with
    | input :: output =>
      return .transform input output.head? ((a.get? "strategy").bind Strategy.ofName?)
        (a.get? "config")
    | [] => .error .invalid
  | "harvest" => do
    let a ← arguments [pathOption "out" 'o', batchSize, config] 1 words
    match a.operands with
    | root :: _ =>
      return .harvest root (a.get? "out")
        ((a.get? "batch-size").bind fun s => Batch.count? s.toList) (a.get? "config")
    | [] => .error .invalid
  | "populate" => do
    let a ← arguments [config] 1 words
    match a.operands with
    | dir :: _ => return .populate dir (a.get? "config")
    | [] => .error .invalid
  | "print-default-config" => do
    let _ ← arguments [] 0 words
    return .printDefaultConfig
  | "help" => .error .help
  | _ => .error .invalid

/-- The words before the name of the command, which must be options, and those from there on. -/
def splitName (words : List String) : List String × List String :=
  words.span Arguments.isOption

/-- The command of a command line. -/
def parse (words : List String) : Except Refusal Command := do
  let (before, rest) := splitName words
  let options := before.takeWhile (· != "--")
  let _ ← Arguments.read [verbose, help, version] 0 none false options .empty
  match rest with
  | name :: words => if before.contains "--" then .error .invalid else ofWords name words
  | [] => .error .invalid

end Command
end ParamTwin
