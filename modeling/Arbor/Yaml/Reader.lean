/-
# YAML documents

Part of `Yaml.layer`, a layer to run with.

```text
block   = scalar | flow | mapping | sequence
mapping = (key ":" value)+      keys at one column, values further right or on the same line
sequence = ("-" value)+         dashes at one column
flow    = "{" (key (":" flow)?),* "}" | "[" flow,* "]" | scalar
```

A value that is missing is an empty scalar.  A sequence that is the value of a key may stand at the
column of the key.  Mappings keep their entries in order, repeated keys included.
-/

import Arbor.Yaml.Token

namespace Arbor

/-- The content of a document. -/
inductive Yaml
  /-- A text, without quotes or with them. -/
  | scalar (plain : Bool) (text : String)
  | seq (items : List Yaml)
  | map (entries : List (String × Yaml))

namespace Yaml

/-- What stands where there is nothing. -/
def missing : Yaml := .scalar true ""

/-- A key and its colon, and what follows. -/
def key? : List Token → Option (String × List Token)
  | ⟨.scalar _ true text, _, _⟩ :: ⟨.colon, _, false⟩ :: rest => some (text, rest)
  | _ => none

mutual

/-- A flow collection or a scalar. -/
def readFlow : Nat → List Token → Option (Yaml × List Token)
  | _ + 1, ⟨.scalar plain _ text, _, _⟩ :: rest => some (.scalar plain text, rest)
  | n + 1, ⟨.openMap, _, _⟩ :: rest => do
    let (entries, rest) ← readFlowEntries n rest
    return (.map entries, rest)
  | n + 1, ⟨.openSeq, _, _⟩ :: rest => do
    let (items, rest) ← readFlowItems n rest
    return (.seq items, rest)
  | _, _ => none

/-- The items of a flow sequence after its opening bracket. -/
def readFlowItems : Nat → List Token → Option (List Yaml × List Token)
  | n + 1, tokens =>
    match tokens with
    | ⟨.closeSeq, _, _⟩ :: rest => some ([], rest)
    | _ => do
      let (item, rest) ← readFlow n tokens
      match rest with
      | ⟨.comma, _, _⟩ :: rest =>
        let (items, rest) ← readFlowItems n rest
        return (item :: items, rest)
      | ⟨.closeSeq, _, _⟩ :: rest => return ([item], rest)
      | _ => none
  | 0, _ => none

/-- The entries of a flow mapping after its opening bracket. -/
def readFlowEntries : Nat → List Token → Option (List (String × Yaml) × List Token)
  | n + 1, tokens =>
    match tokens with
    | ⟨.closeMap, _, _⟩ :: rest => some ([], rest)
    | ⟨.scalar _ _ key, _, _⟩ :: rest => do
      let (value, rest) ← readFlowValue n rest
      match rest with
      | ⟨.comma, _, _⟩ :: rest =>
        let (entries, rest) ← readFlowEntries n rest
        return ((key, value) :: entries, rest)
      | ⟨.closeMap, _, _⟩ :: rest => return ([(key, value)], rest)
      | _ => none
    | _ => none
  | 0, _ => none

/-- The value of a key in a flow mapping, after the key. -/
def readFlowValue : Nat → List Token → Option (Yaml × List Token)
  | n + 1, tokens =>
    match tokens with
    | ⟨.colon, _, _⟩ :: ⟨.comma, column, first⟩ :: rest =>
      some (missing, ⟨.comma, column, first⟩ :: rest)
    | ⟨.colon, _, _⟩ :: ⟨.closeMap, column, first⟩ :: rest =>
      some (missing, ⟨.closeMap, column, first⟩ :: rest)
    | ⟨.colon, _, _⟩ :: rest => readFlow n rest
    | rest => some (missing, rest)
  | 0, _ => none

end

mutual

/-- A value that starts with the first of the tokens. -/
def readBlock? : Nat → List Token → Option (Yaml × List Token)
  | n + 1, tokens =>
    match tokens with
    | [] => none
    | t :: _ =>
      if t.kind = .dash then do
        let (items, rest) ← readItems n t.column tokens
        return (.seq items, rest)
      else if (key? tokens).isSome then do
        let (entries, rest) ← readEntries n t.column tokens
        return (.map entries, rest)
      else readFlow (n + 1) tokens
  | 0, _ => none

/-- The items of a sequence whose dashes stand at a column. -/
def readItems : Nat → Nat → List Token → Option (List Yaml × List Token)
  | n + 1, column, tokens =>
    match tokens with
    | ⟨.dash, _, _⟩ :: rest => do
      let (item, rest) ← readItem n column rest
      match rest with
      | ⟨.dash, c, true⟩ :: _ =>
        if c = column then
          let (items, rest) ← readItems n column rest
          return (item :: items, rest)
        else return ([item], rest)
      | _ => return ([item], rest)
    | _ => none
  | 0, _, _ => none

/-- The item after a dash at a column. -/
def readItem : Nat → Nat → List Token → Option (Yaml × List Token)
  | n + 1, column, tokens =>
    match tokens with
    | t :: _ =>
      if t.first ∧ t.column ≤ column then some (missing, tokens) else readBlock? n tokens
    | [] => some (missing, [])
  | 0, _, _ => none

/-- The entries of a mapping whose keys stand at a column. -/
def readEntries : Nat → Nat → List Token → Option (List (String × Yaml) × List Token)
  | n + 1, column, tokens => do
    let (key, rest) ← key? tokens
    let (value, rest) ← readValue n column rest
    match rest with
    | t :: _ =>
      if t.first ∧ t.column = column ∧ (key? rest).isSome then
        let (entries, rest) ← readEntries n column rest
        return ((key, value) :: entries, rest)
      else return ([(key, value)], rest)
    | [] => return ([(key, value)], [])
  | 0, _, _ => none

/-- The value of a key at a column. -/
def readValue : Nat → Nat → List Token → Option (Yaml × List Token)
  | n + 1, column, tokens =>
    match tokens with
    | t :: _ =>
      if !t.first then readFlow (n + 1) tokens
      else if column < t.column then readBlock? n tokens
      else if t.column = column ∧ t.kind = .dash then do
        let (items, rest) ← readItems n column tokens
        return (.seq items, rest)
      else some (missing, tokens)
    | [] => some (missing, [])
  | 0, _, _ => none

end

/-- The content of a document, none where there is not even a marker. -/
def read? (s : String) : Option (Option Yaml) := do
  let tokens ← tokens? s
  if tokens.isEmpty then return none
  else
    match ← readBlock? (3 * tokens.length + 1) tokens with
    | (content, []) => return some content
    | _ => none

end Yaml
end Arbor
