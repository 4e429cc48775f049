/-
# The file of settings

`config/io` (`config_file_path`, `load_config`, `write_config`) and `config/lib`
(`load_and_prepare`).

| step | does |
| --- | --- |
| `load` | reads the settings in a file; without a file nothing is set |
| `prepare` | loads, completes and checks |
| `store` | writes to a temporary file beside the file, and puts that in its place |

The file that was there stays as it is unless the last step of `store` succeeds.

How a text is parsed and written is not said here: that is up to a `Layer`, with which every step is
made.  In the program it is `serde_yaml`.
-/

import Arbor.Action
import Arbor.Event
import Arbor.FileTree
import Arbor.Settings.Document
import Arbor.Settings.Findings

namespace Arbor
namespace Settings

/-! ## Text -/

/-- What lies between settings and texts: a parser, what can be read from what it has parsed, and a
writer, which may fail. -/
structure Layer (ν : Type) where
  form : Form ν
  parse? : String → Option ν
  write? : Outline → Option String

variable {ν : Type}

/-- The settings in a text. -/
def Layer.read? (layer : Layer ν) (text : String) : Option Settings := do
  layer.form.settings (← layer.parse? text)

/-! ## Files -/

/-- A file tree, and what has happened, the latest first. -/
structure Disk where
  tree : FileTree
  events : List Event

/-- Why the file of settings cannot be used. -/
inductive FileFault
  | read (location : Location)
  | parse (location : Location)
  | serialize
  | folder (location : Location)
  | temporary (location : Location)
  | rename (location : Location)
  | invalid (location : Location) (first : Finding)
deriving DecidableEq

/-- The location of a tree in words, given the root's. -/
def shownLocation (root : String) (location : Location) : String :=
  "/".intercalate (root :: location)

/-- The wording of a fault. -/
def FileFault.message (root : String) : FileFault → String
  | .read l => "Failed to read config file: " ++ shownLocation root l
  | .parse l => "Failed to parse config YAML at: " ++ shownLocation root l
  | .serialize => "Failed to serialize config to YAML"
  | .folder l => "Failed to create config directory: " ++ shownLocation root l
  | .temporary l => "Failed to write temp config: " ++ shownLocation root l
  | .rename l => "Failed to rename temp config to: " ++ shownLocation root l
  | .invalid l first => "invalid config at " ++ shownLocation root l ++ ": " ++ first.text

/-- What is done with files. -/
abbrev Filing (α : Type) : Type := Action FileFault Disk α

/-- Reports an event. -/
def note (e : Event) : Filing Unit := Action.modify fun d => { d with events := e :: d.events }

/-- Changes the tree, unless that fails. -/
def change (fault : FileFault) (f : FileTree → Option FileTree) : Filing Unit := do
  match f (← Action.get).tree with
  | some tree => Action.modify fun d => { d with tree := tree }
  | none => Action.fail fault

/-- The settings in a file. -/
def load (layer : Layer ν) (root : String) (location : Location) : Filing Settings := do
  let path := shownLocation root location
  let tree := (← Action.get).tree
  if tree.exists? location then
    match tree.text? location with
    | none => Action.fail (.read location)
    | some text =>
      match layer.read? text with
      | none => Action.fail (.parse location)
      | some c =>
        note ⟨.info, "Loaded config", [("path", path)]⟩
        return c
  else
    note ⟨.debug, "Config file does not exist; using defaults", [("path", path)]⟩
    return empty

/-- A finding as an event. -/
def findingEvent (level : Level) (f : Finding) : Event :=
  ⟨level, f.message, [("path", f.path)]⟩

/-- The settings in a file, complete and without errors. -/
def prepare (layer : Layer ν) (root : String) (location : Location) : Filing Settings := do
  let c := (← load layer root location).complete
  c.findings.warnings.forM fun f => note (findingEvent .warn f)
  c.findings.errors.forM fun f => note (findingEvent .error f)
  match c.findings.errors with
  | first :: _ => Action.fail (.invalid location first)
  | [] => return c

/-- A file name without what stands after its last point, if a point stands after its first
character. -/
def stem (name : String) : String :=
  let beforePoint := ((name.toList.reverse.dropWhile (· != '.')).drop 1).reverse
  if beforePoint.isEmpty then name else String.ofList beforePoint

/-- The temporary file beside a file. -/
def temporary (location : Location) : Location :=
  match location.getLast? with
  | some name => location.dropLast ++ [stem name ++ ".yaml.tmp"]
  | none => []

/-- Writes settings to a file. -/
def store (layer : Layer ν) (root : String) (c : Settings) (location : Location) : Filing Unit := do
  change (.folder location.dropLast) fun t => t.makeFolders location.dropLast
  match layer.write? c.outline with
  | none => Action.fail .serialize
  | some text =>
    change (.temporary (temporary location)) fun t => t.write (temporary location) text
    change (.rename location) fun t => t.rename (temporary location) location
    note ⟨.info, "Wrote config", [("path", shownLocation root location)]⟩

/-- Where the file is: as told, or in the folder of settings, which stands in the home folder unless
an absolute path is given for it. -/
def path (told configHome : Option String) (home : String) : String :=
  match told with
  | some path => path
  | none =>
    let folder := match configHome with
      | some folder =>
        if folder.toList.head? = some '/' then folder else join home ".config"
      | none => join home ".config"
    join (join folder "treeprobe") "config.yaml"
where
  /-- One path after another, a slash between them. -/
  join (a b : String) : String :=
    if a.isEmpty ∨ a.toList.getLast? = some '/' then a ++ b else a ++ "/" ++ b

end Settings
end Arbor
