import HomeSync.Daemon.Run

/-
The daemon as a program: the command line, the configuration file and the clock
of the outside world.
-/
namespace HomeSync
namespace Daemon

/-- What there is under a path.  A path through something that is no directory
leads nowhere; whatever is there but cannot be read counts as a directory. -/
def look (path : String) : IO ConfigFile := do
  try
    return .content (← IO.FS.readBinFile path).toList
  catch e =>
    match e with
    | .noFileOrDirectory .. => return .missing
    | .inappropriateType (some _) .. => return .missing
    | _ => return .directory

def store (path : String) (before after : ConfigFile) : IO Unit :=
  match after with
  | .content bytes =>
    if before = after then pure () else IO.FS.writeBinFile path ⟨bytes.toArray⟩
  | _ => pure ()

partial def stay : IO Unit := do
  IO.sleep 1000
  stay

def run (args : List String) : IO UInt32 := do
  let request := Options.parse? args
  let path := (request.map Request.path).getD ({} : Options).path
  let before ← look path
  let outcome := (request.map fun r => r.serve before).getD (Outcome.misuse before)
  store path before outcome.file
  IO.print outcome.output
  match outcome.complaint with
  | some complaint => IO.eprintln ("Error: " ++ complaint)
  | none => pure ()
  match outcome.exit with
  | some code => return UInt32.ofNat code
  | none =>
    stay
    return 0

end Daemon
end HomeSync

def main (args : List String) : IO UInt32 := HomeSync.Daemon.run args
