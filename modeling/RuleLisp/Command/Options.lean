import RuleLisp.Expr.Reader
import RuleLisp.Text.Similarity

/-! # Options of the command line

Arguments are read from left to right. An option's value is only looked at when the argument after
it is taken up, so an argument that is not known is reported before a bad value right before it.
-/

namespace RuleLisp.Command

/-! ## What can be said -/

inductive ColorChoice where
  | auto
  | always
  | never
deriving DecidableEq, Repr

namespace ColorChoice

def word : ColorChoice → String
  | auto => "auto"
  | always => "always"
  | never => "never"

/-- The choice that a word stands for, in upper or lower case. -/
def ofWord? (word : String) : Option ColorChoice :=
  let lower := String.ofList (word.toList.map Char.toLower)
  [auto, always, never].find? fun choice => choice.word = lower

def invalidMessage (word : String) : String :=
  "Invalid color choice: " ++ word ++ ". Must be 'auto', 'always', or 'never'"

end ColorChoice

inductive Shell where
  | bash
  | elvish
  | fish
  | powershell
  | zsh
deriving DecidableEq, Repr

def Shell.ofName? (name : String) : Option Shell :=
  [("bash", bash), ("elvish", elvish), ("fish", fish), ("powershell", powershell),
    ("zsh", zsh)].lookup name

structure Options where
  /-- The source itself. Without it and without a file, an interactive session starts. -/
  source : Option String := none
  file : Option String := none
  input : Option String := none
  inputFile : Option String := none
  /-- Where the result is written instead of standard output. -/
  out : Option String := none
  color : ColorChoice := .auto
  compact : Bool := false
  verbose : Bool := false
  maxDepth : Option Nat := none
  completions : Option Shell := none

namespace Options

def limit (options : Options) : Nat :=
  options.maxDepth.getD Expr.defaultLimit

def colorEnabled? (options : Options) : Option Bool :=
  match options.color with
  | .always => some true
  | .never => some false
  | .auto => none

def logLevel (options : Options) : String :=
  if options.verbose then "debug" else "warn"

end Options

inductive UsageError where
  | unknownArgument
  | argumentConflict
  /-- A value is missing, empty, or none of the possible ones. -/
  | invalidValue
  | malformedValue
  | missingArgument
  | unneededValue
  | unknownCommand
  | help
  | version
deriving DecidableEq, Repr

/-! ## Commands -/

def completeWord : String :=
  "complete"

def helpWord : String :=
  "help"

def commandWords : List String :=
  [completeWord, helpWord]

/-- How alike a word and the name of a command are at most if the word is no slip for the name. -/
def slipBound : Float :=
  Number.ofRatio false 7 10

def isSlip (word : String) : Bool :=
  commandWords.any fun name => slipBound < Text.similarity word.toList name.toList

/-- What is wrong with an argument for which there is no room. The name of a command is only left
over after two dashes, where it is no command. -/
def surplusError (arg : String) : UsageError :=
  if arg ∉ commandWords ∧ isSlip arg then .unknownCommand else .unknownArgument

/-! ## Settings -/

inductive Setting where
  | source
  | file
  | input
  | inputFile
  | out
  | color
  | maxDepth
  | compact
  | verbose
  | help
  | version
deriving DecidableEq, Repr

namespace Setting

def ofLong? (name : String) : Option Setting :=
  [("file", file), ("input", input), ("input-file", inputFile), ("out", out), ("color", color),
    ("max-depth", maxDepth), ("compact", compact), ("verbose", verbose), ("help", help),
    ("version", version)].lookup name

def ofShort? (letter : Char) : Option Setting :=
  [('f', file), ('i', input), ('o', out), ('v', verbose), ('h', help), ('V', version)].lookup letter

def isFlag : Setting → Bool
  | compact | verbose | help | version => true
  | _ => false

end Setting

/-- Reads a whole number, which may have a plus sign and fits a word of sixty-four bits. -/
def readDepth? (text : String) : Option Nat :=
  let digits :=
    match text.toList with
    | '+' :: digits => digits
    | digits => digits
  if Number.Literal.isDigits digits ∧ Number.digitsValue digits < Nat.pow 2 64 then
    some (Number.digitsValue digits)
  else none

def Options.put (options : Options) (setting : Setting) (value : String) :
    Except UsageError Options :=
  let path : Except UsageError (Option String) :=
    if value.isEmpty then .error .invalidValue else .ok (some value)
  match setting with
  | .source => .ok { options with source := some value }
  | .input => .ok { options with input := some value }
  | .file => path.map fun file => { options with file }
  | .inputFile => path.map fun inputFile => { options with inputFile }
  | .out => path.map fun out => { options with out }
  | .color =>
      match ColorChoice.ofWord? value with
      | some color => .ok { options with color }
      | none => .error .malformedValue
  | .maxDepth =>
      match readDepth? value with
      | some depth => .ok { options with maxDepth := some depth }
      | none => .error .malformedValue
  | .compact => .ok { options with compact := true }
  | .verbose => .ok { options with verbose := true }
  | .help => .error .help
  | .version => .error .version

/-! ## Reading arguments -/

structure Reading where
  options : Options := {}
  /-- The settings that have their values. -/
  given : List Setting := []
  /-- The last setting, with its value if that has been seen. -/
  waiting : Option (Setting × Option String) := none

namespace Reading

def accept (reading : Reading) (setting : Setting) (value : String) :
    Except UsageError Reading :=
  if setting ∈ reading.given then .error .argumentConflict
  else
    (reading.options.put setting value).map fun options =>
      ⟨options, setting :: reading.given, none⟩

def settle (reading : Reading) : Except UsageError Reading :=
  match reading.waiting with
  | none => .ok reading
  | some (_, none) => .error .invalidValue
  | some (setting, some value) => { reading with waiting := none }.accept setting value

/-- Takes up a flag, or an option with the value that is attached to it. -/
def take (reading : Reading) (setting : Setting) (value : String) : Except UsageError Reading := do
  (← reading.settle).accept setting value

def wait (reading : Reading) (setting : Setting) (value : Option String) :
    Except UsageError Reading := do
  return { (← reading.settle) with waiting := some (setting, value) }

def long (reading : Reading) (name : String) (value : Option String) :
    Except UsageError Reading :=
  match Setting.ofLong? name with
  | none => .error .unknownArgument
  | some setting =>
      match setting.isFlag, value with
      | true, none => reading.take setting ""
      | true, some _ => .error .unneededValue
      | false, some value => reading.take setting value
      | false, none => reading.wait setting none

/-- Takes up a row of short options. The first that is no flag has the rest as its value. -/
def short (reading : Reading) : List Char → Except UsageError Reading
  | [] => .ok reading
  | letter :: rest =>
      match Setting.ofShort? letter with
      | none => .error .unknownArgument
      | some setting =>
          if setting.isFlag then
            match reading.take setting "" with
            | .ok reading => short reading rest
            | .error error => .error error
          else
            match rest with
            | [] => reading.wait setting none
            | '=' :: value => reading.take setting (String.ofList value)
            | value => reading.take setting (String.ofList value)

def positional (reading : Reading) (arg : String) : Except UsageError Reading :=
  if .source ∈ reading.given ∨ reading.waiting.map Prod.fst = some .source then
    .error (surplusError arg)
  else reading.wait .source (some arg)

/-- Ends the reading. A source comes either as an argument or from a file, and so do inputs. -/
def finish (reading : Reading) : Except UsageError Options := do
  let reading ← reading.settle
  let both (left right : Setting) : Bool := left ∈ reading.given && right ∈ reading.given
  if both .source .file || both .input .inputFile then .error .argumentConflict
  else .ok reading.options

end Reading

inductive Form where
  /-- Two dashes, after which nothing is an option. -/
  | escape
  | long (name : String) (value : Option String)
  | short (letters : List Char)
  | plain

/-- The form of an argument. A single dash is plain. -/
def Form.of (arg : String) : Form :=
  match arg.toList with
  | ['-', '-'] => .escape
  | '-' :: '-' :: text =>
      let name := String.ofList (text.takeWhile (· ≠ '='))
      match text.dropWhile (· ≠ '=') with
      | [] => .long name none
      | _ :: value => .long name (some (String.ofList value))
  | '-' :: letter :: rest => .short (letter :: rest)
  | _ => .plain

def readShell (name : Option String) (escaped : Bool) : List String → Except UsageError Shell
  | [] =>
      match name with
      | none => .error .missingArgument
      | some name =>
          match Shell.ofName? name with
          | some shell => .ok shell
          | none => .error .invalidValue
  | arg :: rest =>
      let help : Except UsageError Shell :=
        match name with
        | some name => if (Shell.ofName? name).isSome then .error .help else .error .invalidValue
        | none => .error .help
      match if escaped then .plain else Form.of arg with
      | .escape => readShell name true rest
      | .long name value =>
          if name ≠ "help" then .error .unknownArgument
          else if value.isSome then .error .unneededValue
          else help
      | .short letters => if letters.head? = some 'h' then help else .error .unknownArgument
      | .plain => if name.isSome then .error .unknownArgument else readShell (some arg) escaped rest

def readHelp : List String → UsageError
  | [] => .help
  | [topic] => if topic ∈ commandWords then .help else .unknownCommand
  | _ => .unknownCommand

def readEscaped (reading : Reading) : List String → Except UsageError Options
  | [] => reading.finish
  | arg :: rest =>
      match reading.positional arg with
      | .ok reading => readEscaped reading rest
      | .error error => .error error

def readOn (reading : Reading) : List String → Except UsageError Options
  | [] => reading.finish
  | arg :: rest =>
      match Form.of arg with
      | .escape => readEscaped reading rest
      | .long name value =>
          match reading.long name value with
          | .ok reading => readOn reading rest
          | .error error => .error error
      | .short letters =>
          match reading.short letters with
          | .ok reading => readOn reading rest
          | .error error => .error error
      | .plain =>
          match reading.waiting with
          | some (setting, none) => readOn { reading with waiting := some (setting, some arg) } rest
          | _ =>
              if arg = completeWord then
                match readShell none false rest with
                | .ok shell =>
                    reading.finish.map fun options => { options with completions := some shell }
                | .error error => .error error
              else if arg = helpWord then .error (readHelp rest)
              else
                match reading.positional arg with
                | .ok reading => readOn reading rest
                | .error error => .error error

def Options.parse (args : List String) : Except UsageError Options :=
  readOn {} args

end RuleLisp.Command
