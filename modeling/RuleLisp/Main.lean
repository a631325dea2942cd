import RuleLisp.Command

/-! # The program

The thin layer between the command line and the system: it reads and writes files and streams, and
leaves every decision to `RuleLisp.Command`.
-/

namespace RuleLisp.Main

open RuleLisp.Command

def faultOf : IO.Error → FileFault
  | .noFileOrDirectory .. => .missing
  | .inappropriateType _ _ details =>
      if details = "Not a directory" then .notFolder else .isFolder
  | .invalidArgument _ _ details =>
      if details = "File name too long" then .nameTooLong else .other details
  | error => .other (toString error)

def readFile (path : String) : IO (Except FileFault String) := do
  try
    return decode (← IO.FS.readBinFile path)
  catch error => return .error (faultOf error)

def emit (written : Written) : IO Unit := do
  let out ← IO.getStdout
  out.putStr written.out
  out.flush
  (← IO.getStderr).putStr written.err

/-- The bytes up to and without the next line end, or none at the end of the input. -/
partial def readLine? (input : IO.FS.Stream) (before : ByteArray) : IO (Option ByteArray) := do
  let byte ← input.read 1
  if byte.isEmpty then return if before.isEmpty then none else some before
  else if byte[0]! = 10 then return some before
  else readLine? input (before ++ byte)

partial def interact (console : Console) : IO Unit := do
  emit ⟨Console.prompt, ""⟩
  match ← readLine? (← IO.getStdin) .empty with
  | none => return
  | some bytes =>
      let (written, next) := console.turn (decode bytes)
      emit written
      if let some console := next then interact console

/-- Fetches the files that the options name, so that the run itself needs no system. -/
def fetch (options : Options) : IO Files := do
  let paths := options.inputFile.toList ++ options.file.toList
  let texts ← paths.mapM fun path => do return (path, ← readFile path)
  return fun path => (texts.lookup path).getD (.error .missing)

def carryOut (color : Bool) : Plan → IO Nat
  | .finished written code => do
      emit written
      return code
  | .save path text written => do
      emit written
      try
        IO.FS.writeFile path text
        return 0
      catch error =>
        emit ⟨"", saveFault color (faultOf error)⟩
        return 1
  | .interact console => do
      interact console
      return 0

def run (args : List String) : IO Nat := do
  match Options.parse args with
  | .error error =>
      let (written, code) := refuse error
      emit written
      return code
  | .ok options =>
      let terminal := (← (← IO.getStdout).isTty) && (← (← IO.getStderr).isTty)
      let color := options.colorEnabled?.getD terminal
      carryOut color (start (← fetch options) options color)

end RuleLisp.Main

def main (args : List String) : IO UInt32 := do
  return UInt32.ofNat (← RuleLisp.Main.run args)
