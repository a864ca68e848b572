import MarketFeed.Settings.Basic

/-!
# Loading settings

## Main definitions

* `Files`: the files of a directory
* `Files.layer`: the layer that a file gives
* `Settings.loadFrom`: the settings with a file on top
* `Settings.load`: the settings with the usual file and the environment on top
-/

namespace MarketFeed

/-- The files of a directory by name. -/
abbrev Files := Table String

/-- How a file of settings is written. -/
inductive Format
  | toml
  | json
  /-- a format that is known but not read -/
  | other
  deriving DecidableEq

namespace Format

/-- The endings of names and the formats they stand for. No order among them is promised: of files
that differ in their endings only, any one may be found first, and here it is the first in this
list. -/
def endings : List (String × Format) := [("toml", .toml), ("json", .json), ("yaml", .other),
  ("yml", .other), ("ini", .other), ("ron", .other), ("json5", .other)]

/-- The layer of a text. -/
def read (f : Format) (origin text : String) : Option Layer :=
  match f with
  | .toml => Layer.ofToml origin text
  | .json => Layer.ofJson origin text
  | .other => none

end Format

/-- The parts of a path that lead somewhere. -/
def pathParts (path : List Char) : (part : List Char) → List (List Char)
  | part =>
    match path with
    | [] => if part = [] ∨ part = ['.'] then [] else [part]
    | c :: cs =>
      if c = '/' then
        if part = [] ∨ part = ['.'] then pathParts cs [] else part :: pathParts cs []
      else pathParts cs (part ++ [c])

/-- A path without parts that lead nowhere. -/
def plainPath (path : String) : String :=
  String.ofList (List.intercalate ['/'] (pathParts path.toList []))

/-- What stands behind the last point of a name, if something stands before it. -/
def ending? (name : String) : Option String :=
  let back := (name.toList.reverse).takeWhile (· ≠ '/')
  match back.span (· ≠ '.') with
  | (e, '.' :: _ :: _) => some (String.ofList e.reverse)
  | _ => none

namespace Files

/-- The file that a path names, as it stands or with an ending, and its format. -/
def locate (files : Files) (path : String) : Except SettingsFault (String × String × Format) :=
  let name := plainPath path
  match files.find? name with
  | some text =>
    match (ending? name).bind fun e => Format.endings.lookup e with
    | some format => .ok (name, text, format)
    | none => .error (.unknownFormat path)
  | none =>
    let found := Format.endings.findSome? fun (e, format) =>
      let name := s!"{name}.{e}"
      (files.find? name).map fun text => (name, text, format)
    match found with
    | some r => .ok r
    | none => .error (.missingFile path)

/-- The layer that the file at a path gives. -/
def layer (files : Files) (path : String) : Except SettingsFault Layer := do
  let (name, text, format) ← files.locate path
  match format.read name text with
  | some l => .ok l
  | none => .error (.malformed name)

/-- The layers of a file that need not be there: none if it cannot be found, or not be told how to
read it. -/
def optionalLayers (files : Files) (path : String) : Except SettingsFault (List Layer) :=
  match files.layer path with
  | .ok l => .ok [l]
  | .error (.missingFile _) | .error (.unknownFormat _) => .ok []
  | .error f => .error f

end Files

namespace Settings

/-- the usual file of settings -/
def usualFile : String := "market-data"

/-- the usual file of variables -/
def variableFile : String := ".env"

/-- The settings with a file on top of what holds anyway. -/
def loadFrom (files : Files) (path : String) : Except SettingsFault Settings := do
  ofLayers [← files.layer path]

/-- The settings with the usual file, and on it the environment, on top of what holds anyway. The
usual file of variables sets those that are not set yet. -/
def load (files : Files) (vs : Variables) : Except SettingsFault Settings := do
  let vs := match files.find? variableFile with
    | some text => vs.withFile text
    | none => vs
  ofLayers ((← files.optionalLayers usualFile) ++ [Layer.ofVariables vs])

end Settings

end MarketFeed
