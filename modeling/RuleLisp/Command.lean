import RuleLisp.Command.Console
import RuleLisp.Inputs

/-! # The command line

A run binds its inputs, finds its source, evaluates it and writes the result as JSON. Without a
source it is an interactive session.
-/

namespace RuleLisp.Command

def versionText : String :=
  "zen-lisp 0.1.0"

def helpText : String :=
  "Lisp-like rule expression evaluator\n\nUsage: zen-lisp [OPTIONS] [SOURCE] [COMMAND]\n\n" ++
    "Options:\n" ++
    "  -f, --file <FILE>        Read the source from a file\n" ++
    "  -i, --input <JSON>       JSON object whose keys are bound as `$key` inputs\n" ++
    "      --input-file <PATH>  Read the inputs from a file\n" ++
    "  -o, --out <OUTPUT_FILE>  Write the result to a file\n" ++
    "      --color <WHEN>       auto, always or never\n" ++
    "      --compact            Write the result on one line\n" ++
    "  -v, --verbose            Log what is done\n" ++
    "      --max-depth <N>      Limit nesting and the depth of evaluation\n" ++
    "  -h, --help               Print help\n" ++
    "  -V, --version            Print version\n"

def completionWords : List String :=
  ["--file", "--input", "--input-file", "--out", "--color", "--compact", "--verbose",
    "--max-depth", "--help", "--version", completeWord, helpWord]

abbrev Files :=
  String → Except FileFault String

structure Source where
  text : String
  origin : String
deriving DecidableEq, Repr

def bindInputs (files : Files) (options : Options) (store : Store) : Except String Store :=
  let bind (text : String) : Except String Store :=
    match (Inputs.bindText .root text).run store with
    | (.ok _, store) => .ok store
    | (.error error, _) => .error error.message
  match options.inputFile, options.input with
  | some path, _ =>
      match files path with
      | .ok text => bind text
      | .error fault => .error ("failed to read " ++ path ++ ": " ++ fault.message)
  | none, some text => bind text
  | none, none => .ok store

def findSource (files : Files) (options : Options) : Except String (Option Source) :=
  match options.file, options.source with
  | some path, _ =>
      match files path with
      | .ok text => .ok (some ⟨text, path⟩)
      | .error fault => .error ("Failed to read " ++ path ++ ": " ++ fault.message)
  | none, some text => .ok (some ⟨text, "<source>"⟩)
  | none, none => .ok none

inductive Plan where
  | finished (written : Written) (code : Nat)
  | save (path text : String) (written : Written)
  | interact (console : Console)

def evaluate (options : Options) (color : Bool) (store : Store) (source : Source) : Plan :=
  let (outcome, store) := (Program.run options.limit .root source.text).run store
  let printed := printedSince store 0
  match outcome with
  | .error failure =>
      let errors := Diagnostic.renderAll color source.text source.origin [failure.toDiagnostic]
      .finished ⟨printed, errors⟩ 1
  | .ok value =>
      let result := (if options.compact then value.compactJson else value.prettyJson) ++ "\n"
      match options.out with
      | some path => .save path result ⟨printed, ""⟩
      | none => .finished ⟨printed ++ result, ""⟩ 0

/-- Carries a run out up to the point where it writes a file or waits for a line. -/
def start (files : Files) (options : Options) (color : Bool) : Plan :=
  let refused (message : String) : Plan := .finished ⟨"", errorLine color message⟩ 1
  match options.completions with
  | some _ => .finished ⟨String.join (completionWords.map (· ++ "\n")), ""⟩ 0
  | none =>
      match bindInputs files options .initial with
      | .error message => refused message
      | .ok store =>
          match findSource files options with
          | .error message => refused message
          | .ok none => .interact ⟨options.limit, color, store⟩
          | .ok (some source) => evaluate options color store source

def saveFault (color : Bool) (fault : FileFault) : String :=
  errorLine color ("Error writing to output file: " ++ fault.message)

def refuse : UsageError → Written × Nat
  | .help => (⟨helpText, ""⟩, 0)
  | .version => (⟨versionText ++ "\n", ""⟩, 0)
  | _ => (⟨"", "error: the arguments are not valid\n\n" ++ helpText⟩, 2)

end RuleLisp.Command
