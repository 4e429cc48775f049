/-
# Queries, read

`query/parser`: `read` is `parse_query`, `readPredicates` is `parse_predicate_list`, and
`splitLiteral?` cuts where `literal_len` says.

The reader of query texts.  Key and literal of a predicate are found by looking ahead: the key is
all that stands before the next equals sign, a literal in quotes ends at the first quote that no
backslash precedes, any other before the next comma or bracket.  The segments then pass the same
checks as any others.
-/

import Arbor.Query.Basic

namespace Arbor

/-- What stands before the first occurrence of a character, and what after it. -/
def cut? (c : Char) : List Char → Option (List Char × List Char)
  | [] => none
  | d :: rest =>
    if d = c then some ([], rest)
    else (cut? c rest).map fun r => (d :: r.1, r.2)

theorem cut?_eq_append {c : Char} {s a b : List Char} (h : cut? c s = some (a, b)) :
    s = a ++ c :: b := by
  induction s generalizing a b with
  | nil => simp [cut?] at h
  | cons d rest ih =>
    simp only [cut?] at h
    split at h
    · next hd => simp at h; simp [← h.1, ← h.2, hd]
    · obtain ⟨⟨a', b'⟩, hr, he⟩ := Option.map_eq_some_iff.1 h
      simp only [Prod.mk.injEq] at he
      rw [ih hr, ← he.1, ← he.2]; rfl

namespace Literal

/-- The rest of a literal after its opening quote, closing quote included, and what follows it.
`escaped` says that a backslash stands before. -/
def scanQuoted? : Bool → List Char → Option (List Char × List Char)
  | _, [] => none
  | true, c :: rest => (scanQuoted? false rest).map fun r => (c :: r.1, r.2)
  | false, c :: rest =>
    if c = '"' then some (['"'], rest)
    else (scanQuoted? (c == '\\') rest).map fun r => (c :: r.1, r.2)

/-- What stands before the next comma or closing bracket, and the text from there. -/
def scanBare? : List Char → Option (List Char × List Char)
  | [] => none
  | c :: rest =>
    if c = ',' ∨ c = ']' then some ([], c :: rest)
    else (scanBare? rest).map fun r => (c :: r.1, r.2)

/-- The literal at the start of a text, and what follows it. -/
def scan? : List Char → Option (List Char × List Char)
  | '"' :: rest => (scanQuoted? false rest).map fun r => ('"' :: r.1, r.2)
  | rest => scanBare? rest

theorem scanQuoted?_eq_append {e : Bool} {s a b : List Char} (h : scanQuoted? e s = some (a, b)) :
    s = a ++ b := by
  induction s generalizing e a b with
  | nil => simp [scanQuoted?] at h
  | cons c rest ih =>
    cases e
    · simp only [scanQuoted?] at h
      split at h
      · next hc => simp at h; simp [← h.1, ← h.2, hc]
      · obtain ⟨⟨a', b'⟩, hr, he⟩ := Option.map_eq_some_iff.1 h
        simp only [Prod.mk.injEq] at he
        rw [ih hr, ← he.1, ← he.2]; rfl
    · obtain ⟨⟨a', b'⟩, hr, he⟩ := Option.map_eq_some_iff.1 h
      simp only [Prod.mk.injEq] at he
      rw [ih hr, ← he.1, ← he.2]; rfl

theorem scanBare?_eq_append {s a b : List Char} (h : scanBare? s = some (a, b)) : s = a ++ b := by
  induction s generalizing a b with
  | nil => simp [scanBare?] at h
  | cons c rest ih =>
    simp only [scanBare?] at h
    split at h
    · simp at h; simp [← h.1, ← h.2]
    · obtain ⟨⟨a', b'⟩, hr, he⟩ := Option.map_eq_some_iff.1 h
      simp only [Prod.mk.injEq] at he
      rw [ih hr, ← he.1, ← he.2]; rfl

/-- Scanning splits the text. -/
theorem scan?_eq_append {s a b : List Char} (h : scan? s = some (a, b)) : s = a ++ b := by
  unfold scan? at h
  split at h
  · obtain ⟨⟨a', b'⟩, hr, he⟩ := Option.map_eq_some_iff.1 h
    simp only [Prod.mk.injEq] at he
    rw [scanQuoted?_eq_append hr, ← he.1, ← he.2]; rfl
  · exact scanBare?_eq_append h

end Literal

namespace Query

/-- What is left of a text once something at its start is read. -/
abbrev Rest (text : List Char) : Type := { rest : List Char // rest.length < text.length }

/-- The key at the start of a text, and the text after its equals sign. -/
def splitKey? (text : List Char) : Option (List Char × Rest text) :=
  match h : cut? '=' text with
  | none => none
  | some (key, after) => some (key, ⟨after, by rw [cut?_eq_append h]; simp; omega⟩)

/-- The literal at the start of a text, and the text after it. -/
def splitLiteral? (text : List Char) :
    Option (List Char × { rest : List Char // rest.length ≤ text.length }) :=
  match h : Literal.scan? text with
  | none => none
  | some (literal, after) => some (literal, ⟨after, by rw [Literal.scan?_eq_append h]; simp⟩)

/-- What separates predicates from one another and ends a list of them: true for a comma, false for
a closing bracket.  With it, the text after it. -/
def splitMark? : (text : List Char) → Option (Bool × Rest text)
  | ',' :: rest => some (true, ⟨rest, Nat.lt_succ_self _⟩)
  | ']' :: rest => some (false, ⟨rest, Nat.lt_succ_self _⟩)
  | _ => none

/-- The predicates after an opening bracket or a comma, added to `filters`, and the text after the
closing bracket. -/
def readPredicates (whole : String) (filters : Filters) (text : List Char) :
    Except Fault (Filters × Rest text) :=
  match splitKey? text with
  | none => .error (.noEquals whole)
  | some (key, afterKey) =>
    if key.isEmpty then .error (.emptyKey whole)
    else
      match splitLiteral? afterKey.1 with
      | none => .error (.unterminated whole)
      | some (literal, afterLiteral) =>
        match Literal.read (String.ofList literal) with
        | .error fault => .error (.badLiteral (String.ofList key) fault)
        | .ok value =>
          if (filters.get? (String.ofList key)).isSome then
            .error (.duplicateKey (String.ofList key) whole)
          else
            let filters := filters.insert (String.ofList key) value
            match splitMark? afterLiteral.1 with
            | none => .error (.unterminated whole)
            | some (more, rest) =>
              have shorter : rest.1.length < text.length :=
                Nat.lt_trans (Nat.lt_of_lt_of_le rest.2 afterLiteral.2) afterKey.2
              if more then
                match readPredicates whole filters rest.1 with
                | .error fault => .error fault
                | .ok (filters, after) => .ok (filters, ⟨after.1, Nat.lt_trans after.2 shorter⟩)
              else .ok (filters, ⟨rest.1, shorter⟩)
termination_by text.length

/-- A name: what stands before the next slash or opening bracket, and the text from there. -/
def takeName : List Char → List Char × List Char
  | [] => ([], [])
  | c :: rest =>
    if c = '/' ∨ c = '[' then ([], c :: rest)
    else
      let r := takeName rest
      (c :: r.1, r.2)

theorem takeName_append (s : List Char) : (takeName s).1 ++ (takeName s).2 = s := by
  induction s with
  | nil => rfl
  | cons c rest ih =>
    simp only [takeName]
    split
    · rfl
    · simpa using ih

/-- A separator, true for `//`, and the text after it. -/
def readSeparator? : (text : List Char) → Option (Bool × Rest text)
  | '/' :: '/' :: rest => some (true, ⟨rest, by simp only [List.length_cons]; omega⟩)
  | '/' :: rest => some (false, ⟨rest, by simp only [List.length_cons]; omega⟩)
  | _ => none

/-- The predicate list at the start of a text, if there is one, and the text after it. -/
def readList (whole : String) (text : List Char) :
    Except Fault (Filters × { rest : List Char // rest.length ≤ text.length }) :=
  match text with
  | '[' :: rest =>
    match readPredicates whole .empty rest with
    | .error fault => .error fault
    | .ok (filters, after) =>
      .ok (filters, ⟨after.1, by have := after.2; rw [List.length_cons]; omega⟩)
  | text => .ok (.empty, ⟨text, Nat.le_refl _⟩)

/-- The segment at the start of a text, and the text after it. -/
def readSegment (whole : String) (text : List Char) : Except Fault (Segment × Rest text) :=
  match readSeparator? text with
  | none => .error (.noSeparator (String.ofList text) whole)
  | some (relative, after) =>
    match readList whole (takeName after.1).2 with
    | .error fault => .error fault
    | .ok (predicates, rest) =>
      .ok (⟨String.ofList (takeName after.1).1, relative, predicates⟩, ⟨rest.1, by
        have h₁ := after.2
        have h₂ := rest.2
        have h₃ := congrArg List.length (takeName_append after.1)
        simp only [List.length_append] at h₃
        omega⟩)

/-- Segments up to the end of a text. -/
def readSegments (whole : String) (text : List Char) : Except Fault (List Segment) :=
  if text.isEmpty then .ok []
  else
    match readSegment whole text with
    | .error fault => .error fault
    | .ok (s, after) =>
      have := after.2
      match readSegments whole after.1 with
      | .error fault => .error fault
      | .ok rest => .ok (s :: rest)
termination_by text.length

/-- The query that a text stands for. -/
def read (text : String) : Except Fault Query :=
  if text = "/" then .ok pseudoRoot
  else if text.toList.head? = some '/' then
    match readSegments text text.toList with
    | .error fault => .error fault
    | .ok segments => ofSegments segments
  else .error (.noSlash text)

end Query
end Arbor
