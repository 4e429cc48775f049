/-
# Files and folders

What `load_config` and `write_config` in `config/io` ask of a file system: whether something exists,
`read_to_string`, `create_dir_all`, `write` and `rename`.

A file tree says what stands at each location: a file with its text, a folder, or nothing.  A
location is the list of names on the way down to it.  The root is always a folder.  What stands at
some locations may be protected from every change.

Three operations change a tree or fail and leave it as it is: `makeFolders`, `write`, `rename`;
`text?` reads.
-/

namespace Arbor

/-- The names on the way down to a file or folder. -/
abbrev Location := List String

/-- What stands at a location. -/
inductive FileEntry
  | file (text : String)
  | folder
deriving DecidableEq

/-- What stands at each location. -/
structure FileTree where
  get? : Location → Option FileEntry
  /-- Nothing can be put at the location or taken away from it. -/
  isLocked : Location → Bool

namespace FileTree

/-- Nothing but the root. -/
def empty : FileTree := ⟨fun l => if l = [] then some .folder else none, fun _ => false⟩

/-- Changes what stands at a location. -/
def set (t : FileTree) (location : Location) (entry : Option FileEntry) : FileTree :=
  { t with get? := fun l => if l = location then entry else t.get? l }

theorem get?_set_self (t : FileTree) (location : Location) (entry : Option FileEntry) :
    (t.set location entry).get? location = entry := by
  simp [set]

theorem get?_set_of_ne (t : FileTree) {l location : Location} (entry : Option FileEntry)
    (h : l ≠ location) : (t.set location entry).get? l = t.get? l := by
  simp [set, h]

/-- Whether anything stands at a location. -/
def exists? (t : FileTree) (location : Location) : Bool := (t.get? location).isSome

/-- The text of the file at a location. -/
def text? (t : FileTree) (location : Location) : Option String :=
  match t.get? location with
  | some (.file text) => some text
  | _ => none

/-- The locations on the way down to a location, itself included, the uppermost first. -/
def upTo (above : Location) : Location → List Location
  | [] => [above]
  | name :: rest => above :: upTo (above ++ [name]) rest

/-- Makes folders at the locations given where there is nothing, unless a file stands at one of
them. -/
def makeEach (t : FileTree) : List Location → Option FileTree
  | [] => some t
  | l :: rest =>
    match t.get? l with
    | some .folder => makeEach t rest
    | some (.file _) => none
    | none => if t.isLocked l then none else makeEach (t.set l (some .folder)) rest

/-- Makes a folder, and those above it, where they are missing. -/
def makeFolders (t : FileTree) (location : Location) : Option FileTree :=
  t.makeEach (upTo [] location)

/-- Whether a file can be put at a location: there is no folder, and one above it. -/
def isVacant (t : FileTree) (location : Location) : Bool :=
  location != [] && t.get? location != some .folder &&
    t.get? location.dropLast == some .folder && !t.isLocked location

/-- Writes a file, over another one if there is one. -/
def write (t : FileTree) (location : Location) (text : String) : Option FileTree :=
  if t.isVacant location then some (t.set location (some (.file text))) else none

/-- Moves a file, over another one if there is one. -/
def rename (t : FileTree) (source target : Location) : Option FileTree :=
  match t.get? source with
  | some (.file text) =>
    if t.isVacant target ∧ !t.isLocked source then
      some ((t.set source none).set target (some (.file text)))
    else none
  | _ => none

end FileTree
end Arbor
