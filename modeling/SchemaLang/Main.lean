import SchemaLang.CommandLine

/-!
# The tool

The command line program: its words are read as a request, files are read from the
file system, what a command writes goes to the standard output, and what is reported
about a failure to the standard error.
-/

namespace SchemaLang

/-- Why a file could not be read, in the words of the system.  A number of the system may
come with its sign changed. -/
def reasonOf (e : IO.Error) : String :=
  let isNumber (n code : UInt32) : Bool := code == n || code + n == 0
  match e with
  | .noFileOrDirectory _ _ _ => "No such file or directory (os error 2)"
  | .permissionDenied _ _ _ => "Permission denied (os error 13)"
  | .inappropriateType _ code _ =>
    if isNumber 20 code then "Not a directory (os error 20)" else "Is a directory (os error 21)"
  | .invalidArgument _ code _ =>
    if isNumber 36 code then "File name too long (os error 36)" else e.toString
  | e => e.toString

def readFile : Invocation.FileReader IO := fun file => do
  try
    return .ok (← IO.FS.readFile file)
  catch e =>
    return .error (reasonOf e)

def answer (words : List String) : IO UInt32 := do
  match Request.ofWords? words with
  | none =>
    IO.eprintln "error: the arguments were not understood"
    return 1
  | some (.version name) =>
    IO.println s!"{name} {toolVersion}"
    return 0
  | some (.run invocation) =>
    match ← (invocation.run readFile).run with
    | .ok text =>
      IO.print text
      return 0
    | .error failure =>
      IO.eprintln s!"Error: {failure.message}"
      return 1

end SchemaLang

def main (words : List String) : IO UInt32 := SchemaLang.answer words
