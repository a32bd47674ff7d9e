import Workflow.CommandLine.Program
/-!
# The executable

Acts scripts out on real files.  The executable has no network, so every request goes unanswered.
-/
namespace Workflow.CommandLine

/-- What a failed operation on a file tells. -/
def FileFault.ofError : IO.Error → FileFault
  | .noFileOrDirectory .. => .notFound
  | .permissionDenied _ number details | .inappropriateType _ number details
  | .resourceExhausted _ number details | .alreadyExists _ number details
  | .noSuchThing _ number details => .system details number.toNat
  | e => .system (toString e) 5

def readText (path : String) : IO (Except FileFault String) := do
  try
    match String.fromUTF8? (← IO.FS.readBinFile path) with
    | some text => pure (.ok text)
    | none => pure (.error .notText)
  catch e => pure (.error (.ofError e))

def writeText (path text : String) : IO (Except FileFault Unit) := do
  try
    IO.FS.writeFile path text
    pure (.ok ())
  catch e => pure (.error (.ofError e))

/-- Acts a script out and gives the exit code. -/
def Script.act : Script → IO UInt32
  | .print line next => do
    IO.println line
    next.act
  | .read path next => do (next (← readText path)).act
  | .write path text next => do (next (← writeText path text)).act
  | .pause millis next => do
    IO.sleep (UInt32.ofNat millis)
    next.act
  | .finish none => pure 0
  | .finish (some c) => do
    IO.eprintln ("\n".intercalate c.lines)
    pure 1

/-- A name for a run: random but for the two digits that mark it as such. -/
def randomRun : IO RunId := do
  let digits (n : Nat) : IO (List Char) :=
    (List.replicate n ()).mapM (fun _ => do pure (Nat.digitChar (← IO.rand 0 15)))
  let mark := Nat.digitChar (← IO.rand 8 11)
  pure ⟨(← digits 12) ++ ['4'] ++ (← digits 3) ++ [mark] ++ (← digits 15)⟩

end Workflow.CommandLine

open Workflow.CommandLine

def main (args : List String) : IO UInt32 := do
  match Invocation.ofArguments args with
  | .error e =>
    IO.eprintln ("error: " ++ e.message)
    pure 2
  | .ok i => (i.script ⟨← randomRun, fun _ => .unreachable⟩).act
