/-
# The layer of YAML

A `Settings.Layer` to run with, in the place of `serde_yaml` in `config/io`.  It reads less of YAML:
block and flow collections, comments, and scalars of every style but the folded one, but no anchors,
aliases, tags, directives or explicit keys and no more than one document.  It writes every section
and every field on lines of its own, two columns further right than what it belongs to.

Nothing about settings or their files rests on this layer: what is proved of them is proved for
every layer.  Of this one it is proved that it reads back what it writes (`Yaml.layer_readsBack`).
-/

import Arbor.Settings.File
import Arbor.Yaml.Reader

namespace Arbor
namespace Yaml

/-- Settings in YAML.  A field that the schema knows occurs once. -/
def form : Form Yaml where
  isNull
    | .scalar true s => isNull s
    | _ => false
  text?
    | .scalar _ s => some s
    | _ => none
  number?
    | .scalar true s => (number? s).bind Settings.word?
    | _ => none
  flag?
    | .scalar true s => flag? s
    | _ => none
  fields? names
    | .map entries =>
      if ((entries.map Prod.fst).filter names.contains).Nodup then some entries else none
    | _ => none

/-- A field on a line of its own, or more than one if its text is a block. -/
def writeField (f : String × Setting) : String :=
  let value := match f.2 with
    | .text s => write 4 s
    | .number n => toString n
    | .flag b => if b then "true" else "false"
  "  " ++ f.1 ++ ": " ++ value ++ if value.toList.getLast? = some '\n' then "" else "\n"

/-- A section with its fields. -/
def writeSection (s : String × SectionOutline) : String :=
  if s.2.isEmpty then s.1 ++ ": \x7b\x7d\n"
  else s.1 ++ ":\n" ++ String.join (s.2.map writeField)

/-- The text of what is set. -/
def writeOutline (o : Outline) : String :=
  if o.isEmpty then "\x7b\x7d\n" else String.join (o.map writeSection)

/-- Where there is no document nothing is set. -/
def layer : Settings.Layer Yaml where
  form := form
  parse? text := (read? text).map (·.getD (.map []))
  write? o := some (writeOutline o)

end Yaml
end Arbor
