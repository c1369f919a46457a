import Retrace.Text.Basic

/-!
# Command line arguments

The first word of the command line that is not an option names the command; the words behind it
belong to the command. Options that concern all commands may stand on either side of it. A value
stands behind its option, joined to it or as the next argument; an argument that begins with a
hyphen is no value. Behind a double hyphen there are no options.
-/

namespace Retrace

/-- What the command line asks for. -/
inductive Command where
  /-- Map a model and write it to a file or print it. -/
  | map (model : String) (output : Option String)
  /-- Map a model, and move diagnostics about the result back to it. -/
  | backMap (model diagnostics : String)
  /-- Map a query and print it. -/
  | query (text : String)
  deriving DecidableEq, Repr

/-- The command line. -/
structure Arguments where
  /-- What is to be done. -/
  command : Command
  /-- The configuration file. -/
  config : Option String := none
  /-- How much is logged. -/
  logLevel : String := "warn"
  deriving DecidableEq, Repr

/-- What is said in place of doing anything. -/
inductive Usage where
  /-- How the program is used. -/
  | help
  /-- The version of the program. -/
  | version
  /-- That the arguments are wrong. -/
  | wrong
  deriving DecidableEq, Repr

/-- The exit code. -/
def Usage.exitCode : Usage → Nat
  | help | version => 0
  | wrong => 2

namespace Arguments

/-- An option with a value. -/
inductive Setting where
  /-- The configuration file. -/
  | config
  /-- How much is logged. -/
  | logLevel
  /-- The file that is written. -/
  | output
  deriving DecidableEq, Repr

namespace Setting

/-- The long name of an option. -/
def longName : Setting → String
  | config => "config"
  | logLevel => "log-level"
  | output => "output"

/-- The letter that an option may be shortened to. -/
def letter? : Setting → Option Char
  | config => some 'c'
  | logLevel => none
  | output => some 'o'

/-- The value is a path, which must not be empty. -/
def isPath : Setting → Bool
  | config | output => true
  | logLevel => false

end Setting

/-- What may stand in a part of the command line. -/
structure Level where
  /-- The options with a value. -/
  settings : List Setting
  /-- There is an option for the version. -/
  hasVersion : Bool
  /-- What the words that are not options stand for: paths or anything. -/
  wordsArePaths : List Bool

/-- The options that may stand anywhere. -/
def globals : List Setting := [.config, .logLevel]

/-- The part up to the name of the command. -/
def outer : Level := ⟨globals, true, []⟩

/-- The names of the commands and what may stand behind them. -/
def commands : List (String × Level) := [
  ("map", ⟨.output :: globals, false, [true]⟩),
  ("back-map", ⟨globals, false, [true, true]⟩),
  ("query", ⟨globals, false, [false]⟩)]

/-- An argument by its form. -/
inductive Form where
  /-- A word. -/
  | word (text : Text)
  /-- The mark behind which there are no options. -/
  | stop
  /-- The long name of an option, with a value that may be joined to it. -/
  | long (name : Text) (value? : Option Text)
  /-- The letter of an option and what is joined to it. -/
  | short (letter : Char) (joined : Text)
  deriving DecidableEq, Repr

/-- The form of an argument. -/
def Form.ofText (text : Text) : Form :=
  match text with
  | ['-', '-'] => .stop
  | '-' :: '-' :: rest =>
    match rest.dropWhile (· ≠ '=') with
    | _ :: value => .long (rest.takeWhile (· ≠ '=')) (some value)
    | [] => .long rest none
  | '-' :: letter :: joined => .short letter joined
  | text => .word text

/-- The value that is joined to the letter of an option. -/
def joinedValue? : Text → Option Text
  | [] => none
  | '=' :: value => some value
  | value => some value

namespace Level

/-- The option with a long name, and the value that is joined to it. -/
def ofLong (level : Level) (name : Text) (value? : Option Text) :
    Except Usage (Setting × Option Text) :=
  match level.settings.find? fun setting => setting.longName.toList = name with
  | some setting => .ok (setting, value?)
  | none =>
    if value?.isSome then .error .wrong
    else if name = "help".toList then .error .help
    else if level.hasVersion && name = "version".toList then .error .version
    else .error .wrong

/-- The option with a letter, and the value that is joined to it. -/
def ofShort (level : Level) (letter : Char) (joined : Text) :
    Except Usage (Setting × Option Text) :=
  match level.settings.find? fun setting => setting.letter? = some letter with
  | some setting => .ok (setting, joinedValue? joined)
  | none =>
    if letter = 'h' then .error .help
    else if level.hasVersion && letter = 'V' then .error .version
    else .error .wrong

/-- The option that an argument gives, and the value that is joined to it; words are no options. -/
def option? (level : Level) (argument : Text) : Option (Except Usage (Setting × Option Text)) :=
  match Form.ofText argument with
  | .long name value? => some (level.ofLong name value?)
  | .short letter joined => some (level.ofShort letter joined)
  | .word _ | .stop => none

end Level

/-- The options with their values, and the words. -/
structure Parsed where
  /-- Values of options. -/
  values : List (Setting × Text) := []
  /-- The words. -/
  words : List Text := []
  deriving Repr

namespace Parsed

/-- Note the value of an option, which is given at most once. -/
def setValue (parsed : Parsed) (setting : Setting) (value : Text) : Except Usage Parsed :=
  if (parsed.values.lookup setting).isSome || (setting.isPath && value.isEmpty) then .error .wrong
  else .ok { parsed with values := (setting, value) :: parsed.values }

/-- Note a word, if one more is expected. -/
def addWord (parsed : Parsed) (level : Level) (word : Text) : Except Usage Parsed :=
  match level.wordsArePaths[parsed.words.length]? with
  | none => .error .wrong
  | some isPath =>
    if isPath && word.isEmpty then .error .wrong
    else .ok { parsed with words := parsed.words ++ [word] }

end Parsed

/-- Read options and their values up to the first word, and give that word and what follows it, if
there is one. -/
def readOptions (level : Level) (parsed : Parsed) : List Text → Except Usage (Parsed × List Text)
  | [] => .ok (parsed, [])
  | argument :: rest =>
    match level.option? argument with
    | none => .ok (parsed, argument :: rest)
    | some (.error usage) => .error usage
    | some (.ok (setting, some value)) =>
      match parsed.setValue setting value with
      | .error usage => .error usage
      | .ok parsed => readOptions level parsed rest
    | some (.ok (setting, none)) =>
      match rest with
      | [] => .error .wrong
      | value :: rest =>
        if Form.ofText value = .word value then
          match parsed.setValue setting value with
          | .error usage => .error usage
          | .ok parsed => readOptions level parsed rest
        else .error .wrong

/-- Note words behind which there are no options. -/
def readWords (level : Level) (parsed : Parsed) (words : List Text) : Except Usage Parsed :=
  words.foldlM (fun parsed word => parsed.addWord level word) parsed

/-- Read the arguments of a command, in at most `bound` steps. -/
def readLevel (level : Level) : (bound : Nat) → Parsed → List Text → Except Usage Parsed
  | 0, parsed, _ => .ok parsed
  | bound + 1, parsed, arguments =>
    match readOptions level parsed arguments with
    | .error usage => .error usage
    | .ok (parsed, []) => .ok parsed
    | .ok (parsed, argument :: rest) =>
      if Form.ofText argument = .stop then readWords level parsed rest
      else match parsed.addWord level argument with
        | .error usage => .error usage
        | .ok parsed => readLevel level bound parsed rest

/-- The request for help on a command. -/
def help (words : List Text) : Usage :=
  match words with
  | [] => .help
  | [name] => if name ∈ "help".toList :: commands.map (·.1.toList) then .help else .wrong
  | _ => .wrong

/-- The value of an option; the one behind the name of the command counts more. -/
def value? (before behind : Parsed) (setting : Setting) : Option String :=
  ((behind.values.lookup setting).or (before.values.lookup setting)).map String.ofList

/-- The command with a name and these arguments. -/
def command? (name : Text) (parsed : Parsed) : Option Command :=
  match parsed.words with
  | [word] =>
    if name = "map".toList then
      some (.map (String.ofList word) ((parsed.values.lookup .output).map String.ofList))
    else if name = "query".toList then some (.query (String.ofList word))
    else none
  | [model, diagnostics] =>
    if name = "back-map".toList then
      some (.backMap (String.ofList model) (String.ofList diagnostics))
    else none
  | _ => none

/-- Read the arguments. -/
def read (arguments : List Text) : Except Usage Arguments := do
  let (before, rest) ← readOptions outer {} arguments
  match rest with
  | [] => throw .wrong
  | name :: rest =>
    if name = "help".toList then throw (help rest)
    match commands.find? fun entry => entry.1.toList = name with
    | none => throw .wrong
    | some (_, level) =>
      let behind ← readLevel level rest.length {} rest
      match command? name behind with
      | none => throw .wrong
      | some command =>
        return {
          command
          config := value? before behind .config
          logLevel := (value? before behind .logLevel).getD "warn" }

end Arguments

end Retrace
