/-
# Literals in JSON and back

A boolean, an integer or a text is written as it is, any other value by name.  So a value by name is
an object, which no other literal is, and literals are read as they were written if the doubles in
them are finite (`Literal.ofJson?_toJson`).  With a double that is not finite they are not read at
all, rather than as something else.
-/

import Arbor.Literal.Basic
import Arbor.Proofs.Value.Tagged

namespace Arbor
namespace Literal

/-- The doubles in a literal, at any depth. -/
def doubles : Literal → List Binary64
  | .value v => v.doubles
  | _ => []

/-- The variants of a literal, each with what it takes: an integer only if it has 64 bits. -/
def variants : List (Json → Option Literal) :=
  [fun
    | .bool b => some (.bool b)
    | _ => none,
  fun json => json.int64?.map .int,
  fun
    | .str s => some (.text s)
    | _ => none,
  fun json => (Value.ofTagged? json).map .value]

/-- **A literal is read as the first variant that fits.** -/
theorem ofJson?_eq_findSome? (json : Json) :
    ofJson? json = variants.findSome? fun variant => variant json := by
  cases json with
  | int i =>
    cases hi : (Json.int i).int64? with
    | some j => simp [variants, ofJson?, hi]
    | none => simp [variants, ofJson?, hi]
  | arr items => cases hvalue : Value.ofTagged? (.arr items) <;>
      simp [variants, ofJson?, Json.int64?, hvalue]
  | obj entries => cases hvalue : Value.ofTagged? (.obj entries) <;>
      simp [variants, ofJson?, Json.int64?, hvalue]
  | _ => rfl

/-- **A literal is read as what was written, if its doubles are finite, and otherwise not at
all.** -/
theorem ofJson?_toJson (l : Literal) :
    ofJson? l.toJson = if l.doubles.all Binary64.isFinite then some l else none := by
  cases l with
  | bool b => rfl
  | text s => rfl
  | int i =>
    simp only [toJson, ofJson?, Value.int64?_toInt]
    rfl
  | value v =>
    show (Value.ofTagged? v.toTagged).map Literal.value = _
    rw [Value.ofTagged?_toTagged, doubles]
    split <;> rfl

/-- **The JSON form is unambiguous.**  A literal, and a value by name, is read back from its JSON
form, with the variant that it has at every depth, exactly if all doubles in it are finite; if one
is not, nothing is read.  What is read, from whatever JSON, is the first variant that fits, of a
literal and of a plain value at every depth. -/
theorem json_unambiguous :
    (∀ l : Literal,
      (ofJson? l.toJson = some l ↔ ∀ d ∈ l.doubles, d.isFinite = true) ∧
      ((∃ d ∈ l.doubles, ¬d.isFinite = true) → ofJson? l.toJson = none)) ∧
    (∀ v : Value,
      (Value.ofTagged? v.toTagged = some v ↔ ∀ d ∈ v.doubles, d.isFinite = true) ∧
      ((∃ d ∈ v.doubles, ¬d.isFinite = true) → Value.ofTagged? v.toTagged = none)) ∧
    (∀ json, ofJson? json = variants.findSome? fun variant => variant json) ∧
    ∀ json, Value.readPlain? json = Value.plainVariants.findSome? fun variant => variant json := by
  -- both forms are read under the same condition
  have hread : ∀ {α : Type} {doubles : List Binary64} {x : Option α} {a : α},
      x = (if doubles.all Binary64.isFinite then some a else none) →
      (x = some a ↔ ∀ d ∈ doubles, d.isFinite = true) ∧
        ((∃ d ∈ doubles, ¬d.isFinite = true) → x = none) := by
    rintro α doubles _ a rfl
    rw [← List.all_eq_true]
    refine ⟨by simp, fun ⟨d, hd, hinfinite⟩ => if_neg fun hall => ?_⟩
    exact hinfinite (List.all_eq_true.1 hall d hd)
  exact ⟨fun l => hread (ofJson?_toJson l), fun v => hread (Value.ofTagged?_toTagged v),
    ofJson?_eq_findSome?, Value.readPlain?_eq_findSome?⟩

/-- A map that looks like a point, with a whole double in it. -/
def lookalike : Value :=
  .plain (.map [("kind", .text "point"), ("value", .list [.int 1, .double (Binary64.ofInt 2)])])

/-- The map is read as the map that it is.  A list with a double that is no number is not read. -/
theorem json_unambiguous_lookalike :
    ofJson? (Literal.value lookalike).toJson = some (.value lookalike) ∧
      Value.ofTagged? (Value.plain (.list [.double ⟨0x7ff8000000000000⟩])).toTagged = none := by
  obtain ⟨hliteral, hvalue, -, -⟩ := json_unambiguous
  refine ⟨(hliteral _).1.2 ?_, (hvalue _).2 ⟨⟨0x7ff8000000000000⟩, List.mem_cons_self, ?_⟩⟩
  · show ∀ d ∈ [Binary64.ofInt 2], d.isFinite = true
    decide
  · decide

end Literal
end Arbor
