/-
# The grammar of query texts

```text
query      = "/" | segment+
segment    = ("/" | "//") name predicates?
predicates = "[" key "=" literal ("," key "=" literal)* "]"
```

A `Spelling` is a segment as it stands in a text.  Names are `IsName`: printable, and free of the
characters that the grammar uses elsewhere; `*` and `..` are among them.  Keys are `IsKey`, which is
what the test for keys tests (`isServerKey_iff`).

A spelling and the segment it is read as go together by `Spelling.Spells`, those that the writer puts
for a segment by `Spelling.Writes`.  The two differ in the literals: one integer or text is read from
many.
-/

import Arbor.Query.Text
import Mathlib.Data.List.Forall2
import Mathlib.Tactic.SplitIfs

namespace Arbor

/-! ## Keys -/

/-- Characters, each after a blank. -/
def afterBlanks (singles : List Char) : List Char := singles.flatMap fun c => [' ', c]

/-- A key of the grammar: a word, then any number of single characters, each after a blank. -/
def IsKey (key : List Char) : Prop :=
  ∃ word singles, word ≠ [] ∧ (∀ c ∈ word, isKeyChar c = true) ∧
    (∀ c ∈ singles, isKeyChar c = true) ∧ key = word ++ afterBlanks singles

theorem isKeyTail_iff {chars : List Char} :
    isKeyTail chars = true ↔
      ∃ singles, (∀ c ∈ singles, isKeyChar c = true) ∧ chars = afterBlanks singles := by
  constructor
  · intro h
    fun_induction isKeyTail chars with
    | case1 => exact ⟨[], by simp, rfl⟩
    | case2 c rest ih =>
      rw [Bool.and_eq_true] at h
      obtain ⟨singles, hsingles, rfl⟩ := ih h.2
      exact ⟨c :: singles, List.forall_mem_cons.2 ⟨h.1, hsingles⟩, rfl⟩
    | case3 => exact absurd h (by simp)
  · rintro ⟨singles, hsingles, rfl⟩
    induction singles with
    | nil => rfl
    | cons c rest ih =>
      obtain ⟨hc, hrest⟩ := List.forall_mem_cons.1 hsingles
      show (isKeyChar c && isKeyTail (afterBlanks rest)) = true
      rw [hc, ih hrest]
      rfl

theorem isKeyRest_iff {chars : List Char} :
    isKeyRest chars = true ↔
      ∃ word singles, (∀ c ∈ word, isKeyChar c = true) ∧ (∀ c ∈ singles, isKeyChar c = true) ∧
        chars = word ++ afterBlanks singles := by
  constructor
  · intro h
    induction chars with
    | nil => exact ⟨[], [], by simp, by simp, rfl⟩
    | cons c rest ih =>
      rw [isKeyRest] at h
      split at h
      · next hc =>
        obtain ⟨word, singles, hword, hsingles, rfl⟩ := ih h
        exact ⟨c :: word, singles, List.forall_mem_cons.2 ⟨hc, hword⟩, hsingles, rfl⟩
      · obtain ⟨singles, hsingles, hchars⟩ := isKeyTail_iff.1 h
        exact ⟨[], singles, by simp, hsingles, hchars⟩
  · rintro ⟨word, singles, hword, hsingles, rfl⟩
    induction word with
    | nil =>
      -- what follows the word begins with a blank, if anything does
      have htail := isKeyTail_iff.2 ⟨singles, hsingles, rfl⟩
      cases singles with
      | nil => rfl
      | cons c rest =>
        show isKeyRest (' ' :: c :: afterBlanks rest) = true
        rw [isKeyRest, if_neg (by decide)]
        exact htail
    | cons c rest ih =>
      obtain ⟨hc, hrest⟩ := List.forall_mem_cons.1 hword
      rw [List.cons_append, isKeyRest, if_pos hc]
      exact ih hrest

/-- **What can be written as a key are the keys of the grammar.** -/
theorem isServerKey_iff {key : String} : isServerKey key = true ↔ IsKey key.toList := by
  unfold isServerKey
  constructor
  · intro h
    split at h
    · exact absurd h (by simp)
    · next c rest hkey =>
      rw [Bool.and_eq_true] at h
      obtain ⟨word, singles, hword, hsingles, rfl⟩ := isKeyRest_iff.1 h.2
      exact ⟨c :: word, singles, List.cons_ne_nil _ _, List.forall_mem_cons.2 ⟨h.1, hword⟩,
        hsingles, hkey⟩
  · rintro ⟨word, singles, hne, hword, hsingles, hkey⟩
    obtain ⟨c, rest, rfl⟩ := List.exists_cons_of_ne_nil hne
    obtain ⟨hc, hrest⟩ := List.forall_mem_cons.1 hword
    rw [hkey, List.cons_append]
    show (isKeyChar c && isKeyRest _) = true
    rw [hc, isKeyRest_iff.2 ⟨rest, singles, hrest, hsingles, rfl⟩]
    rfl

/-- A key is not empty and made of key characters and blanks. -/
theorem IsKey.chars {key : List Char} (h : IsKey key) :
    key ≠ [] ∧ ∀ c ∈ key, isKeyChar c = true ∨ c = ' ' := by
  obtain ⟨word, singles, hne, hword, hsingles, rfl⟩ := h
  refine ⟨List.append_ne_nil_of_left_ne_nil hne _, fun c hc => ?_⟩
  rcases List.mem_append.1 hc with hc | hc
  · exact Or.inl (hword c hc)
  · obtain ⟨d, hd, hc⟩ := List.mem_flatMap.1 hc
    rcases List.mem_cons.1 hc with rfl | hc
    · exact Or.inr rfl
    · obtain rfl := List.mem_singleton.1 hc
      exact Or.inl (hsingles c hd)

namespace Query

/-! ## Names -/

/-- A name: printable, without blanks and the characters that stand between names, keys and
literals. -/
def IsName (name : List Char) : Prop :=
  name ≠ [] ∧ ∀ c ∈ name, '!' ≤ c ∧ c ≤ '~' ∧ c ∉ ['/', '[', ']', ',', '=', '"']

/-- What stands in a name is ASCII and not reserved. -/
theorem of_not_isReserved {c : Char} (hascii : c.toNat < 128) (h : ¬isReserved c = true) :
    '!' ≤ c ∧ c ≤ '~' ∧ c ∉ ['/', '[', ']', ',', '=', '"'] := by
  unfold isReserved at h
  simp only [Bool.or_eq_true, decide_eq_true_eq, beq_iff_eq, not_or] at h
  obtain ⟨⟨⟨⟨⟨⟨⟨hblank, hdelete⟩, h₁⟩, h₂⟩, h₃⟩, h₄⟩, h₅⟩, h₆⟩ := h
  have hdelete : c.toNat ≠ 127 := fun e => hdelete (Char.toNat_inj.1 e)
  have hblank : ¬c.toNat ≤ 32 := fun e => hblank e
  refine ⟨?_, ?_, by simp [*]⟩
  · show 33 ≤ c.toNat
    omega
  · show c.toNat ≤ 126
    omega

/-- The reader does not stop in a name. -/
theorem IsName.chars {name : List Char} (h : IsName name) : ∀ c ∈ name, c ≠ '/' ∧ c ≠ '[' := by
  intro c hc
  constructor <;> rintro rfl <;> exact (h.2 _ hc).2.2 (by simp)

theorem isName_of_checkName {name : String} (hne : name.toList ≠ [])
    (h : checkName name = .ok ()) : IsName name.toList := by
  unfold checkName at h
  split_ifs at h with hascii
  split at h
  · exact absurd h (by simp)
  · next hfind =>
    refine ⟨hne, fun c hc => of_not_isReserved ?_ (List.find?_eq_none.1 hfind c hc)⟩
    exact of_decide_eq_true (List.all_eq_true.1 hascii c hc)

/-- What can stand in a name is not reserved. -/
theorem isReserved_eq_false {c : Char} (hlow : '!' ≤ c) (hhigh : c ≤ '~')
    (hmem : c ∉ ['/', '[', ']', ',', '=', '"']) : isReserved c = false := by
  have hlow : 33 ≤ c.toNat := hlow
  have hblank : ¬c ≤ ' ' := fun hle => absurd (show c.toNat ≤ 32 from hle) (by omega)
  have hdelete : c ≠ '\x7f' := by
    rintro rfl
    exact absurd hhigh (by decide)
  simp only [List.mem_cons, List.not_mem_nil, or_false, not_or] at hmem
  simp [isReserved, hblank, hdelete, hmem]

/-- A name passes the check of type names. -/
theorem checkName_of_isName {name : String} (h : IsName name.toList) : checkName name = .ok () := by
  have hascii : isAscii name = true := by
    refine List.all_eq_true.2 fun c hc => decide_eq_true ?_
    have hhigh : c.toNat ≤ 126 := (h.2 c hc).2.1
    omega
  have hfind : name.toList.find? isReserved = none := by
    refine List.find?_eq_none.2 fun c hc => ?_
    obtain ⟨hlow, hhigh, hmem⟩ := h.2 c hc
    rw [isReserved_eq_false hlow hhigh hmem]
    exact Bool.false_ne_true
  rw [checkName, if_pos hascii, hfind]

/-- A segment that passes the checks has a name. -/
theorem isName_of_checkSegment {index : Nat} {s : Segment} (h : checkSegment index s = .ok ()) :
    IsName s.name.toList := by
  unfold checkSegment at h
  split at h
  · exact absurd h (by simp)
  · next hroot =>
    split at h
    · next hparent =>
      rw [show s.name = Segment.parentName from eq_of_beq hparent]
      refine ⟨by decide, fun c hc => ?_⟩
      obtain rfl : c = '.' := by simpa [Segment.parentName] using hc
      decide
    · split at h
      · next hwild =>
        rw [show s.name = Segment.wildcard from eq_of_beq hwild]
        refine ⟨by decide, fun c hc => ?_⟩
        obtain rfl : c = '*' := by simpa [Segment.wildcard] using hc
        decide
      · refine isName_of_checkName (fun hnil => hroot ?_) h
        rw [Segment.isTreeRoot, show s.name = "" from String.toList_injective hnil]
        rfl

/-! ## Spellings -/

/-- What stands before a name. -/
def separator (relative : Bool) : String := if relative then "//" else "/"

/-- A segment as it stands in a text. -/
structure Spelling where
  /-- Two slashes before the name instead of one. -/
  relative : Bool
  name : List Char
  /-- Keys and literals.  Without any there are no brackets. -/
  predicates : List (List Char × List Char)

namespace Spelling

/-- A key, an equals sign, and a literal. -/
def predicateChars (p : List Char × List Char) : List Char := p.1 ++ '=' :: p.2

/-- Predicates apart by commas, in brackets. -/
def listChars (predicates : List (List Char × List Char)) : List Char :=
  '[' :: [','].intercalate (predicates.map predicateChars) ++ [']']

/-- The characters of a segment. -/
def chars (sp : Spelling) : List Char :=
  (separator sp.relative).toList ++ sp.name ++
    if sp.predicates.isEmpty then [] else listChars sp.predicates

end Spelling

/-! ## What is spelled -/

theorem exists_of_mem_forall₂ {α β : Type} {R : α → β → Prop} {as : List α} {bs : List β}
    (h : List.Forall₂ R as bs) {a : α} (ha : a ∈ as) : ∃ b ∈ bs, R a b := by
  induction h with
  | nil => exact absurd ha List.not_mem_nil
  | cons hab _ ih =>
    rcases List.mem_cons.1 ha with rfl | ha
    · exact ⟨_, List.mem_cons_self, hab⟩
    · obtain ⟨b, hb, hab⟩ := ih ha
      exact ⟨b, List.mem_cons_of_mem _ hb, hab⟩

/-- A key and a literal as they stand in a text, and the predicate they are read as. -/
structure SpellsPredicate (p : List Char × List Char) (e : String × Literal) : Prop where
  key : p.1 = e.1.toList
  ne_nil : p.1 ≠ []
  no_equals : '=' ∉ p.1
  literal : Literal.read (String.ofList p.2) = .ok e.2

/-- A segment as it stands in a text, and the segment it is read as. -/
structure Spelling.Spells (sp : Spelling) (s : Segment) : Prop where
  relative : sp.relative = s.relative
  name : sp.name = s.name.toList
  predicates : List.Forall₂ SpellsPredicate sp.predicates s.predicates.toList

/-- A key and a literal as the writer puts them for a predicate. -/
structure WritesPredicate (p : List Char × List Char) (e : String × Literal) : Prop where
  key : p.1 = e.1.toList
  isServerSide : isServerSide e.1 e.2 = true
  literal : e.2.write = .ok (String.ofList p.2)

/-- A segment as the writer puts it. -/
structure Spelling.Writes (sp : Spelling) (s : Segment) : Prop where
  relative : sp.relative = s.relative
  name : sp.name = s.name.toList
  predicates : List.Forall₂ WritesPredicate sp.predicates s.predicates.toList

end Query
end Arbor
