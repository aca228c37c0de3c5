/-
  The command line: a configuration is read, converted, and written as a script
  or as a document.

  * `Arguments.parse` reads the arguments from left to right; the first that is
    wrong, or that asks for the version, decides;
  * `Invocation.run` is what comes of an invocation, given the content of its
    source: reading, converting and writing, up to the first stage that fails;
  * `Stage.message` is the text of a failure;
  * `execute` is the whole program, on any way to get the content of a source.

  Three things are left out: the text of help, with the options that ask for it
  (`Refusal`); what the system and the reader of documents say of the cause of a
  failure (`Stage.message`); and levels of events that the environment sets
  (`Invocation.shown`).
-/
import Tickscript.Alert.Conversion
import Tickscript.Alert.Document
import Tickscript.Chain.Document
import Tickscript.Chain.Render

namespace Tickscript

/-! ## Arguments -/

/-- The form of the output. -/
inductive Form where
  | script
  | document
deriving DecidableEq

/-- Where the configuration comes from. -/
inductive Source where
  | input
  | file (path : String)
deriving DecidableEq

/-- What is asked for. -/
structure Invocation where
  source : Source
  parent : String
  form : Form
  verbose : Bool

/-- Why there is nothing to do.  Help is left out: `--help` and `-h` count as options that nobody
    knows, and are refused like these. -/
inductive Refusal where
  /-- The version is asked for. -/
  | version
  /-- The arguments make no sense. -/
  | usage

/-- The arguments read so far; nothing may be given twice. -/
structure Arguments where
  path : Option String := none
  parent : Option String := none
  form : Option Form := none
  verbose : Bool := false

namespace Arguments

/-- A path; the empty one is none. -/
def setPath (a : Arguments) (path : String) : Except Refusal Arguments :=
  if a.path.isSome || path.isEmpty then .error .usage else .ok { a with path := some path }

def setParent (a : Arguments) (name : String) : Except Refusal Arguments :=
  if a.parent.isSome then .error .usage else .ok { a with parent := some name }

def setForm (a : Arguments) (name : String) : Except Refusal Arguments :=
  if a.form.isSome then .error .usage
  else match name with
    | "tick" => .ok { a with form := some .script }
    | "ast" => .ok { a with form := some .document }
    | _ => .error .usage

def setVerbose (a : Arguments) : Except Refusal Arguments :=
  if a.verbose then .error .usage else .ok { a with verbose := true }

/-- A long option: its name and the value behind the equals sign, if there is one. -/
def long? (arg : String) : Option (String × Option String) :=
  match arg.toList with
  | '-' :: '-' :: cs =>
    let name := String.ofList (cs.takeWhile (· != '='))
    match cs.dropWhile (· != '=') with
    | [] => some (name, none)
    | _ :: value => some (name, some (String.ofList value))
  | _ => none

/-- The letters of short options. -/
def short? (arg : String) : Option (List Char) :=
  match arg.toList with
  | '-' :: c :: cs => some (c :: cs)
  | _ => none

/-- Short options in one argument. -/
def setLetters (a : Arguments) : List Char → Except Refusal Arguments
  | [] => .ok a
  | 'v' :: cs => do (← a.setVerbose).setLetters cs
  | 'V' :: _ => .error .version
  | _ => .error .usage

/-- Arguments behind the end of the options. -/
def setPaths (a : Arguments) : List String → Except Refusal Arguments
  | [] => .ok a
  | path :: rest => do (← a.setPath path).setPaths rest

/-- A long option that is complete in itself. -/
def setLong (a : Arguments) : String → Option String → Except Refusal Arguments
  | "parent", some name => a.setParent name
  | "emit", some name => a.setForm name
  | "verbose", none => a.setVerbose
  | "version", none => .error .version
  | _, _ => .error .usage

/-- An option may take the next argument as its value if that is no option. -/
def isValue (arg : String) : Bool := (short? arg).isNone

/-- Arguments in order. -/
def set (a : Arguments) : List String → Except Refusal Arguments
  | [] => .ok a
  | "--" :: rest => a.setPaths rest
  | "--parent" :: rest =>
    match rest with
    | value :: rest => do
      if isValue value then (← a.setParent value).set rest else .error .usage
    | [] => .error .usage
  | "--emit" :: rest =>
    match rest with
    | value :: rest => do
      if isValue value then (← a.setForm value).set rest else .error .usage
    | [] => .error .usage
  | arg :: rest => do
    match long? arg with
    | some (name, value) => (← a.setLong name value).set rest
    | none =>
      match short? arg with
      | some letters => (← a.setLetters letters).set rest
      | none => (← a.setPath arg).set rest

/-- A path that is a hyphen stands for the input. -/
def sourceOf (path : String) : Source := if path = "-" then .input else .file path

/-- The invocation that the arguments ask for.  Without further options the parent is `stream` and
    the output a script. -/
def parse (args : List String) : Except Refusal Invocation := do
  let a ← Arguments.set {} args
  match a.path with
  | none => .error .usage
  | some path =>
    .ok ⟨sourceOf path, a.parent.getD "stream", a.form.getD .script, a.verbose⟩

end Arguments

/-! ## Runs -/

/-- The stage at which a run fails. -/
inductive Stage where
  /-- The source cannot be read, or is no text. -/
  | reading (source : Source)
  /-- The text is no configuration. -/
  | parsing (source : Source)
  /-- The alert has no script. -/
  | converting (e : BuildError)

/-- What is reported of a failure: the stage, and of an alert without a script the cause.  Of a
    source that cannot be read, or a text that is no configuration, the cause is left out.  It
    would stand behind these words, as below, in the words of the system or of the reader of
    documents. -/
def Stage.message : Stage → List Char
  | reading .input => "failed to read stdin".toList
  | reading (.file path) => "failed to read ".toList ++ path.toList
  | parsing .input => "invalid alert configuration in -".toList
  | parsing (.file path) => "invalid alert configuration in ".toList ++ path.toList
  | converting e =>
    "failed to convert alert\n\nCaused by:\n    0: ".toList ++ e.message ++ "\n    1: ".toList
      ++ e.cause.message

/-- The text that is written for a chain. -/
def Form.render : Form → Chain → List Char
  | script, c => c.render
  | document, c => c.json.pretty ++ ['\n']

/-- What a run leaves behind: its exit code, what it writes, the failure if there is one, and the
    events. -/
structure Outcome where
  exit : Nat
  output : List Char
  failure : Option (List Char)
  log : List Event

namespace Outcome

def succeeded (output : List Char) (log : List Event) : Outcome := ⟨0, output, none, log⟩

def failed (s : Stage) (log : List Event) : Outcome :=
  ⟨1, [], some ("Error: ".toList ++ s.message), log⟩

/-- What a refusal leaves behind. -/
def refused : Refusal → Outcome
  | .version => ⟨0, "tickgen 0.1.0\n".toList, none, []⟩
  | .usage => ⟨2, [], none, []⟩

end Outcome

namespace Invocation

/-- The events that a run shows: warnings, and the numbers of handlers if it is verbose.  Other
    levels that the environment may set are left out. -/
def shown (i : Invocation) (log : List Event) : List Event :=
  log.filter fun e => e.level == .warn || (i.verbose && e.level == .debug)

/-- The run of an invocation whose source has the given content, if it can be read. -/
def run (i : Invocation) (content : Option ByteArray) : Outcome :=
  match content.bind String.fromUTF8? with
  | none => .failed (.reading i.source) []
  | some text =>
    match Alert.codec.parse text.toList with
    | .error _ => .failed (.parsing i.source) []
    | .ok alert =>
      let conversion := alert.convert (.identifier i.parent)
      let log := i.shown (.loaded alert.handlers.length :: conversion.log)
      match conversion.result with
      | .error e => .failed (.converting e) log
      | .ok chain => .succeeded (i.form.render chain) log

end Invocation

/-- What comes of a command line; no source is looked at if it is refused. -/
def execute {m : Type → Type} [Monad m] (content : Source → m (Option ByteArray))
    (args : List String) : m Outcome :=
  match Arguments.parse args with
  | .error refusal => return .refused refusal
  | .ok invocation => return invocation.run (← content invocation.source)

end Tickscript
