import JobOperator.CommandLine.Launch
import JobOperator.CommandLine.Reader
import JobOperator.Controller.Run
import JobOperator.Crd.Resources
import JobOperator.Yaml.Printer

/-! The program. -/

namespace JobOperator

/-- The bytes of a file that can be read. -/
def readBytes (path : String) : IO (Option ByteArray) := do
  try return some (← IO.FS.readBinFile path)
  catch _ => return none

/-- The text of a file that can be read. -/
def readText (path : String) : IO (Option String) := do
  return (← readBytes path).bind String.fromUTF8?

/-- The configuration of clients: in a file that the environment names, else in the usual place. -/
def clientConfiguration : IO (Option String) := do
  match ← IO.getEnv "KUBECONFIG" with
  | some path => readText path
  | none =>
    match ← IO.getEnv "HOME" with
    | some home => readText (home ++ "/.kube/config")
    | none => return none

/-- A program without a network, all of whose connections fail. -/
def noNetwork : Transport Unit := fun _ s => (.dropped, s)

/-- Runs the controller. -/
def runController (path : String) : IO UInt32 := do
  match CommandLine.prepare path (← readBytes path) (← clientConfiguration) with
  | .error failure =>
    IO.eprintln failure.message
    return 1
  | .ok (config, _) =>
    match (Controller.start noNetwork config.namespace ()).1 with
    | .error cause =>
      IO.eprintln (CommandLine.Failure.controller cause).message
      return 1
    | .ok _ => return 0

end JobOperator

open JobOperator in
/-- Does what the arguments ask for. -/
def main (arguments : List String) : IO UInt32 := do
  match CommandLine.read arguments with
  | .error e =>
    IO.eprintln e.message
    return 2
  | .ok (.help topic) =>
    IO.print topic.text
    return 0
  | .ok (.start .crd _) =>
    IO.print (Yaml.print Crd.job.encode)
    return 0
  | .ok (.start .run path) => runController path
