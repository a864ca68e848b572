import MarketFeed.Json.Printer
import MarketFeed.Service.Rehearsal

/-!
# The command line

The program takes its settings from the environment and the files of the working directory, and a
recording from standard input. It launches the service with them, and prints what the service tells
of itself: its health and the lines of its counters. If the service cannot be launched, the reason
goes to standard error.

## Main definitions

* `main`: the program
-/

namespace MarketFeed

/-- The variables of the environment that set something. -/
def readVariables : IO Variables :=
  settingNames.filterMapM fun (name : String) => do
    let key := Layer.variableName name
    return (← IO.getEnv key).map (key, ·)

/-- The files of the working directory that may hold settings. -/
def readFiles : IO Files := do
  let names := Settings.variableFile :: Settings.usualFile ::
    Format.endings.map fun e => s!"{Settings.usualFile}.{e.1}"
  let found ← names.filterMapM fun (name : String) => do
    try return some (name, ← IO.FS.readFile name)
    catch _ => return none
  return ⟨found⟩

/-- Tells why there is no service. -/
def giveUp (reason : String) : IO UInt32 := do
  IO.eprintln s!"Error: {reason}"
  return 1

/-- Launches the service with a recording and prints what it tells of itself. -/
def replayRecording (r : Recording) : IO UInt32 := do
  match Settings.load (← readFiles) (← readVariables) with
  | .error f => giveUp f.toFault.text
  | .ok s =>
    let authority := match Url.ofText s.restEndpoint with
      | .ok u => u.authority
      | .error _ => ""
    match (Service.replay s r authority s.wsEndpoint).1 with
    | .error o => giveUp o.message
    | .ok (.error f) => giveUp f.text
    | .ok (.ok service) => do
      IO.println service.health.toJson.text
      service.counters.page.forM fun line => IO.println line
      return 0

end MarketFeed

open MarketFeed

/-- The program. -/
def main : IO UInt32 := do
  let input ← (← IO.getStdin).readToEnd
  match (Json.readText input).toOption.bind Recording.ofJson? with
  | some r => replayRecording r
  | none => giveUp "the recording cannot be read"
