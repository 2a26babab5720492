import SchemaLang.Compile
import SchemaLang.Data.Json
import SchemaLang.Data.OfSchema
import SchemaLang.Data.Yaml
import SchemaLang.Options.OfYaml
import SchemaLang.Rendering.SchemaText

/-!
# The command line

The tool checks a schema file, writes it in canonical form, dumps the compiled
schema, or reads a single type.  `Request.ofWords?` reads what is asked for from
the words of a command line, and `Invocation.run` does it, for any way to read
files.

Options come first, then the command with its one operand.  A word that starts with
a dash and is longer than that is an option.  `--reserved` without an equals sign
takes all words up to the next option; `--config` takes one.  An option that is given
has a value, be it from one of several times that it is given.  Asking for the version
is answered on the spot, whatever else is wrong with the words after it, with the
number of times that an option is given, or with an option without a value.
-/

namespace SchemaLang

inductive Command where
  | check (file : String)
  | format (file : String)
  | dump (yaml : Bool) (file : String)
  | type (word : String)
deriving DecidableEq

structure Invocation where
  config : Option String
  /-- Names reserved in addition to those of the configuration. -/
  reserved : List String
  command : Command
deriving DecidableEq

inductive Request where
  /-- The version of the tool under a name. -/
  | version (name : String)
  | run (invocation : Invocation)
deriving DecidableEq

/-! ### Words -/

inductive Word where
  | operand (text : String)
  | terminator
  /-- An option with a long name, and what follows its equals sign. -/
  | long (name : String) (value : Option String)
  /-- An option with one-letter names. -/
  | short (letter : Char)

/-- Reads a word.  All leading dashes of a long name count as one mark, and so do
all equals signs after it. -/
def Word.ofText (text : String) : Word :=
  match text.toList with
  | ['-'] => .operand text
  | ['-', '-'] => .terminator
  | '-' :: '-' :: r =>
    let body := r.dropWhile (· == '-')
    let name := String.ofList (body.takeWhile (· != '='))
    match body.dropWhile (· != '=') with
    | [] => .long name none
    | value => .long name (some (String.ofList (value.dropWhile (· == '='))))
  | '-' :: c :: _ => .short c
  | _ => .operand text

def toolName : String := "keratinctl"

def toolVersion : String := "0.1.0"

/-! ### After the command -/

inductive CommandName where
  | check
  | format
  | dump
  | type
deriving DecidableEq

namespace CommandName

def text : CommandName → String
  | check => "check"
  | format => "fmt"
  | dump => "dump"
  | type => "type"

def ofText? (word : String) : Option CommandName :=
  [check, format, dump, type].find? fun c => c.text = word

def command (yaml : Bool) (operand : String) : CommandName → Command
  | check => .check operand
  | format => .format operand
  | dump => .dump yaml operand
  | type => .type operand

end CommandName

structure GlobalOptions where
  config : Option String := none
  /-- How often a configuration file was asked for. -/
  configCount : Nat := 0
  /-- Whether names were to be reserved. -/
  reserves : Bool := false
  reserved : List String := []

/-- Whether the options can stand: a configuration file is asked for once at most, and
what is asked for is given. -/
def GlobalOptions.stand (g : GlobalOptions) : Bool :=
  g.configCount ≤ 1 && (g.configCount == 0 || g.config.isSome) &&
    !(g.reserves && g.reserved.isEmpty)

structure CommandWords where
  operand : Option String := none
  yamlCount : Nat := 0

def CommandWords.request? (g : GlobalOptions) (name : CommandName) (w : CommandWords) :
    Option Request :=
  if g.stand ∧ w.yamlCount ≤ 1 then
    w.operand.map fun operand =>
      .run ⟨g.config, g.reserved, name.command (w.yamlCount == 1) operand⟩
  else none

/-- Takes an operand, of which there is one. -/
def CommandWords.take? (w : CommandWords) (text : String) : Option CommandWords :=
  if w.operand.isNone then some { w with operand := some text } else none

/-- Reads the words after a command; `ended` says that options are over. -/
def readCommand (g : GlobalOptions) (name : CommandName) :
    Bool → CommandWords → List String → Option Request
  | _, w, [] => w.request? g name
  | true, w, text :: rest => (w.take? text).bind fun w => readCommand g name true w rest
  | false, w, text :: rest =>
    match Word.ofText text with
    | .operand text => (w.take? text).bind fun w => readCommand g name false w rest
    | .terminator => readCommand g name true w rest
    | .long option _ =>
      if option = "version" then some (.version (toolName ++ "-" ++ name.text))
      else if option = "yaml" ∧ name = .dump then
        readCommand g name false { w with yamlCount := w.yamlCount + 1 } rest
      else none
    | .short letter =>
      if letter = 'V' then some (.version (toolName ++ "-" ++ name.text)) else none

/-! ### Before the command -/

/-- The option that the next word may belong to. -/
inductive Awaiting where
  | nothing
  | config
  | reserved

/-- Reads the words from the first on. -/
def readGlobal (g : GlobalOptions) : Awaiting → List String → Option Request
  | _, [] => none
  | awaiting, text :: rest =>
    match Word.ofText text with
    | .operand text =>
      match awaiting with
      | .config => readGlobal { g with config := some text } .nothing rest
      | .reserved => readGlobal { g with reserved := g.reserved ++ [text] } .reserved rest
      | .nothing =>
        (CommandName.ofText? text).bind fun name => readCommand g name false {} rest
    | .terminator => none
    | .long option value =>
      if option = "config" then
        let g := { g with configCount := g.configCount + 1 }
        match value with
        | some v => readGlobal { g with config := some v } .nothing rest
        | none => readGlobal g .config rest
      else if option = "reserved" then
        let g := { g with reserves := true }
        match value with
        | some v => readGlobal { g with reserved := g.reserved ++ [v] } .nothing rest
        | none => readGlobal g .reserved rest
      else if option = "version" then some (.version toolName)
      else none
    | .short letter => if letter = 'V' then some (.version toolName) else none

/-- **What the words of a command line ask for.**  There is no request in words that
cannot be understood. -/
def Request.ofWords? (words : List String) : Option Request := readGlobal {} .nothing words

/-! ### Running -/

inductive Failure where
  /-- A file could not be read, for the given reason. -/
  | unreadable (reason : String)
  | badConfig (file : String)
  | compile (cause : CompileError)

def Failure.message : Failure → String
  | unreadable reason => reason
  | badConfig file => s!"cannot read config `{file}`"
  | compile cause => cause.message

/-- How many objects and own properties a schema has, as a line of JSON. -/
def Schema.summary (s : Schema) : String :=
  Data.compact
    (.mapping [Data.field "objects" (.integer s.size),
      Data.field "properties" (.integer s.propertyCount)]) ++ "\n"

def Schema.dump (yaml : Bool) (s : Schema) : String :=
  if yaml then s.toData.yaml else s.toData.pretty ++ "\n"

def TypeExpr.summary (t : TypeExpr) : String :=
  Data.compact
    (Data.sortFields
      (.mapping [Data.field "parsed" t.toData, Data.field "rendered" (.text t.text)])) ++ "\n"

namespace Invocation

variable {m : Type → Type} [Monad m]

/-- A way to read files: the text of a file, or the reason why there is none. -/
abbrev FileReader (m : Type → Type) := String → m (Except String String)

def readText (reader : FileReader m) (file : String) : ExceptT Failure m String := do
  match ← reader file with
  | .ok text => return text
  | .error reason => throw (.unreadable reason)

/-- The options of an invocation: those of the configuration file, with more names
reserved. -/
def options (reader : FileReader m) (i : Invocation) : ExceptT Failure m Options := do
  let base ←
    match i.config with
    | none => pure {}
    | some file =>
      let text ← readText reader file
      match Options.ofYaml? text with
      | some options => pure options
      | none => throw (.badConfig file)
  return { base with reservedNames := base.reservedNames ++ i.reserved }

def schemaOf (reader : FileReader m) (options : Options) (file : String) :
    ExceptT Failure m Schema := do
  let source ← readText reader file
  match (compileText options source).result with
  | .ok s => return s
  | .error e => throw (.compile e)

/-- **Runs an invocation**: the text that it writes, or the reason why it fails.  The
options are read first, also for a command that does not use them. -/
def run (reader : FileReader m) (i : Invocation) : ExceptT Failure m String := do
  let options ← i.options reader
  match i.command with
  | .check file => return (← schemaOf reader options file).summary
  | .format file => return (← schemaOf reader options file).text
  | .dump yaml file => return (← schemaOf reader options file).dump yaml
  | .type word => return (TypeExpr.ofText word).summary

end Invocation
end SchemaLang
