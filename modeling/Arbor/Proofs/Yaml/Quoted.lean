/-
# Texts in quotes

Between single quotes a text stands as it is, each single quote twice.  Between double quotes it
comes in pieces, one for each character (`Piece`): the character itself, or a backslash with a
letter and perhaps hexadecimal digits.  In neither form is there a line break, so that folding lines
does nothing, and the reader takes the text back (`spanSingle_doubled`, `spanDouble_inPieces`,
`unescape_foldLines_inPieces`).

Hexadecimal digits are padded with zeros to the width that goes with the letter, which is enough for
every character the letter is used for (`numbered?_paddedHex`).
-/

import Arbor.Proofs.Yaml.Line
import Arbor.Proofs.Yaml.Number
import Mathlib.Algebra.Order.Ring.Nat

namespace Arbor
namespace Yaml

/-! ## Single quotes -/

/-- A text with each single quote written twice. -/
def doubled (s : List Char) : List Char := s.flatMap fun c => if c = '\'' then ['\'', '\''] else [c]

theorem mem_of_mem_doubled {s : List Char} {c : Char} (h : c ∈ doubled s) : c ∈ s := by
  obtain ⟨d, hd, hc⟩ := List.mem_flatMap.1 h
  split at hc
  · next hquote =>
    have heq : c = '\'' := by simpa using hc
    rwa [heq, ← hquote]
  · rwa [List.mem_singleton.1 hc]

theorem spanSingle_cons_of_ne {c : Char} (h : c ≠ '\'') (rest : List Char) :
    spanSingle (c :: rest) = (spanSingle rest).map fun r => (c :: r.1, r.2) := by
  rw [spanSingle]
  · exact fun _ e => absurd e h
  · exact fun e => absurd e h

/-- **A text in single quotes is taken back**, where no quote follows the last. -/
theorem spanSingle_doubled (s : List Char) {rest : List Char} (h : rest.head? ≠ some '\'') :
    spanSingle (doubled s ++ '\'' :: rest) = some (s, rest) := by
  induction s with
  | nil =>
    show spanSingle ('\'' :: rest) = _
    rw [spanSingle]
    rintro after rfl
    exact h rfl
  | cons c s ih =>
    rw [doubled, List.flatMap_cons, List.append_assoc]
    by_cases hc : c = '\''
    · subst hc
      rw [if_pos rfl]
      show spanSingle ('\'' :: '\'' :: (doubled s ++ '\'' :: rest)) = _
      rw [spanSingle, ih]
      rfl
    · rw [if_neg hc]
      show spanSingle (c :: (doubled s ++ '\'' :: rest)) = _
      rw [spanSingle_cons_of_ne hc, ih]
      rfl

/-! ## Pieces between double quotes -/

/-- A character that stands for itself between double quotes. -/
structure IsBare (c : Char) : Prop where
  shown : isShown c = true
  ne_break : c ≠ '\n'
  ne_quote : c ≠ '"'
  ne_backslash : c ≠ '\\'

instance (c : Char) : Decidable (IsBare c) :=
  decidable_of_iff (isShown c = true ∧ c ≠ '\n' ∧ c ≠ '"' ∧ c ≠ '\\')
    ⟨fun h => ⟨h.1, h.2.1, h.2.2.1, h.2.2.2⟩,
      fun h => ⟨h.shown, h.ne_break, h.ne_quote, h.ne_backslash⟩⟩

/-- The digits of a number in base sixteen, upper case, in at least so many places. -/
def paddedHex (width code : Nat) : List Char :=
  (Text.padZeros width (String.ofList (Nat.toDigits 16 code))).toUpper.toList

/-- The letters that announce hexadecimal digits, and how many. -/
def hexLetters : List (Char × Nat) := [('x', 2), ('u', 4), ('U', 8)]

/-- A piece of text between double quotes, and the character that it stands for. -/
inductive Piece : List Char → Char → Prop
  | bare {c : Char} : IsBare c → Piece [c] c
  | letter {l c : Char} : isShown l = true → l ≠ '\n' → l ∉ hexLetters.map Prod.fst →
      escape? l = some c → Piece ['\\', l] c
  | hex {l c : Char} {width : Nat} : (l, width) ∈ hexLetters → c.toNat < 16 ^ width →
      Piece ('\\' :: l :: paddedHex width c.toNat) c

theorem paddedHex_eq (width code : Nat) :
    paddedHex width code =
      (List.replicate (width - (Nat.toDigits 16 code).length) '0' ++ Nat.toDigits 16 code).map
        Char.toUpper := by
  rw [paddedHex, Text.padZeros, String.toUpper, String.toList_map, String.toList_append,
    String.toList_ofList, String.toList_ofList, String.length_ofList]

theorem isBare_toUpper_digitChar : ∀ d < 16, IsBare (Nat.digitChar d).toUpper := by
  decide

theorem isBare_of_mem_paddedHex {width code : Nat} {c : Char} (h : c ∈ paddedHex width code) :
    IsBare c := by
  rw [paddedHex_eq] at h
  obtain ⟨d, hd, rfl⟩ := List.mem_map.1 h
  rcases List.mem_append.1 hd with hd | hd
  · rw [List.eq_of_mem_replicate hd]
    decide
  · obtain ⟨n, hn, rfl⟩ := exists_of_mem_toDigits (by decide) hd
    exact isBare_toUpper_digitChar n hn

theorem length_paddedHex {width code : Nat} (hwidth : 0 < width) (h : code < 16 ^ width) :
    (paddedHex width code).length = width := by
  have hle := (Nat.length_toDigits_le_iff (b := 16) (by decide) hwidth).2 h
  rw [paddedHex_eq, List.length_map, List.length_append, List.length_replicate]
  omega

/-- **The padded digits of a character's number stand for the character.** -/
theorem numbered?_paddedHex {width : Nat} {c : Char} (hwidth : 0 < width)
    (h : c.toNat < 16 ^ width) (rest : List Char) :
    numbered? width (paddedHex width c.toNat ++ rest) = some c := by
  have hlength := length_paddedHex hwidth h
  have hdigits : digits? 16 (paddedHex width c.toNat) = some c.toNat := by
    rw [paddedHex_eq]
    exact digits?_zeros_toDigits (by decide) (by decide) _ _
  have hvalid : c.toNat.isValidChar := c.valid
  simp only [numbered?, List.take_left' hlength, hlength, if_true, hdigits]
  show (if c.toNat.isValidChar then some (Char.ofNat c.toNat) else none) = some c
  rw [if_pos hvalid, Char.ofNat_toNat]

/-- **What is written for a character stands for it.** -/
theorem piece_escaped (c : Char) : Piece (escaped c) c := by
  have hletter {l : Char} {code : Nat} (hcode : c.toNat = code)
      (hl : isShown l = true ∧ l ≠ '\n' ∧ l ∉ hexLetters.map Prod.fst ∧
        escape? l = some (Char.ofNat code)) : Piece ['\\', l] c := by
    refine .letter hl.1 hl.2.1 hl.2.2.1 ?_
    rw [hl.2.2.2, ← hcode, Char.ofNat_toNat]
  have hhex {l : Char} {width : Nat} (hl : (l, width) ∈ hexLetters) (hcode : c.toNat < 16 ^ width) :
      Piece ('\\' :: l :: paddedHex width c.toNat) c := .hex hl hcode
  unfold escaped
  by_cases hquote : c = '"' ∨ c = '\\'
  · rw [if_pos hquote]
    rcases hquote with rfl | rfl
    · exact .letter (by decide) (by decide) (by decide) (by decide)
    · exact .letter (by decide) (by decide) (by decide) (by decide)
  by_cases hbreak : c = '\n'
  · subst hbreak
    exact .letter (by decide) (by decide) (by decide) (by decide)
  rw [if_neg hquote, if_neg hbreak]
  by_cases hshown : isShown c = true
  · rw [not_or] at hquote
    rw [if_pos hshown]
    exact .bare ⟨hshown, hbreak, hquote.1, hquote.2⟩
  rw [if_neg hshown]
  -- from here on it is the number of the character that decides
  have hcase {p : Prop} [Decidable p] {a b : List Char} (ha : p → Piece a c) (hb : Piece b c) :
      Piece (if p then a else b) c := iteInduction (motive := (Piece · c)) ha fun _ => hb
  refine hcase (hletter · (by decide)) <| hcase (hletter · (by decide)) <|
    hcase (hletter · (by decide)) <| hcase (hletter · (by decide)) <|
    hcase (hletter · (by decide)) <| hcase (hletter · (by decide)) <|
    hcase (hletter · (by decide)) <| hcase (hletter · (by decide)) <|
    hcase (hletter · (by decide)) <| hcase (hletter · (by decide)) <|
    hcase (hletter · (by decide)) <| hcase (hhex (by decide) ·) <| hcase (hhex (by decide) ·) <|
    hhex (by decide) ?_
  rcases c.valid with h | h
  · exact Nat.lt_trans h (by decide)
  · exact Nat.lt_trans h.2 (by decide)

namespace Piece

/-- A piece is on one line and shows. -/
theorem shown {piece : List Char} {c : Char} (h : Piece piece c) :
    ∀ d ∈ piece, isShown d = true ∧ d ≠ '\n' := by
  cases h with
  | bare h => exact List.forall_mem_singleton.2 ⟨h.shown, h.ne_break⟩
  | letter hshown hbreak _ _ =>
    exact List.forall_mem_cons.2 ⟨by decide, List.forall_mem_singleton.2 ⟨hshown, hbreak⟩⟩
  | hex hl _ =>
    refine List.forall_mem_cons.2 ⟨by decide, List.forall_mem_cons.2 ⟨?_, fun d hd => ?_⟩⟩
    · have hletters : ∀ e ∈ hexLetters, isShown e.1 = true ∧ e.1 ≠ '\n' := by decide
      exact hletters _ hl
    · exact ⟨(isBare_of_mem_paddedHex hd).shown, (isBare_of_mem_paddedHex hd).ne_break⟩

/-- A piece is one character that stands for itself, or a backslash and a letter with more such
characters. -/
theorem eq_singleton_or {piece : List Char} {c : Char} (h : Piece piece c) :
    (∃ d, piece = [d] ∧ IsBare d) ∨
      ∃ l digits, piece = '\\' :: l :: digits ∧ l ≠ '\n' ∧ ∀ d ∈ digits, IsBare d := by
  have hbreak := h.shown
  cases h with
  | bare h => exact Or.inl ⟨_, rfl, h⟩
  | letter _ hl _ _ => exact Or.inr ⟨_, [], rfl, hl, by simp⟩
  | hex _ _ => exact Or.inr ⟨_, _, rfl, (hbreak _ (by simp)).2, fun d => isBare_of_mem_paddedHex⟩

end Piece

/-! ## Double quotes -/

/-- A text in pieces. -/
def inPieces (s : List Char) : List Char := s.flatMap escaped

theorem shown_of_mem_inPieces {s : List Char} {c : Char} (h : c ∈ inPieces s) :
    isShown c = true ∧ c ≠ '\n' := by
  obtain ⟨d, -, hc⟩ := List.mem_flatMap.1 h
  exact (piece_escaped d).shown c hc

theorem spanDouble_bare {bare : List Char} (h : ∀ c ∈ bare, IsBare c) (rest : List Char) :
    spanDouble (bare ++ rest) = (spanDouble rest).map fun r => (bare ++ r.1, r.2) := by
  induction bare with
  | nil =>
    rw [List.nil_append]
    cases spanDouble rest <;> rfl
  | cons c bare ih =>
    have hc := h c List.mem_cons_self
    rw [List.cons_append, spanDouble, ih fun d hd => h d (List.mem_cons_of_mem _ hd)]
    · cases spanDouble rest <;> rfl
    · exact fun _ _ e => absurd e hc.ne_backslash
    · exact fun e => absurd e hc.ne_quote

/-- The closing quote is found behind any pieces. -/
theorem spanDouble_piece {piece : List Char} {c : Char} (h : Piece piece c) (rest : List Char) :
    spanDouble (piece ++ rest) = (spanDouble rest).map fun r => (piece ++ r.1, r.2) := by
  rcases h.eq_singleton_or with ⟨d, rfl, hd⟩ | ⟨l, digits, rfl, -, hdigits⟩
  · exact spanDouble_bare (List.forall_mem_singleton.2 hd) rest
  · rw [List.cons_append, List.cons_append, spanDouble, spanDouble_bare hdigits]
    cases spanDouble rest <;> rfl

theorem joinEscaped_bare {bare : List Char} (h : ∀ c ∈ bare, IsBare c) (rest : List Char) :
    joinEscaped false (bare ++ rest) = bare ++ joinEscaped false rest := by
  induction bare with
  | nil => rfl
  | cons c bare ih =>
    have hc := h c List.mem_cons_self
    rw [List.cons_append, joinEscaped, ih fun d hd => h d (List.mem_cons_of_mem _ hd)]
    · rfl
    · exact fun _ e => absurd e hc.ne_backslash
    · exact fun _ _ e => absurd e hc.ne_backslash

/-- There is no line break to take out. -/
theorem joinEscaped_piece {piece : List Char} {c : Char} (h : Piece piece c) (rest : List Char) :
    joinEscaped false (piece ++ rest) = piece ++ joinEscaped false rest := by
  rcases h.eq_singleton_or with ⟨d, rfl, hd⟩ | ⟨l, digits, rfl, hl, hdigits⟩
  · exact joinEscaped_bare (List.forall_mem_singleton.2 hd) rest
  · rw [List.cons_append, List.cons_append, joinEscaped, joinEscaped_bare hdigits]
    · rfl
    · exact fun e => absurd e hl

/-- One piece gives one character. -/
theorem unescape_piece {piece : List Char} {c : Char} (h : Piece piece c) (n : Nat)
    (rest : List Char) : unescape (n + 1) (piece ++ rest) = (unescape n rest).map (c :: ·) := by
  cases h with
  | bare h =>
    rw [List.singleton_append, unescape]
    exact fun _ _ e => absurd e h.ne_backslash
  | @letter l _ _ _ hl hc =>
    have hne : l ≠ 'x' ∧ l ≠ 'u' ∧ l ≠ 'U' := by
      refine ⟨?_, ?_, ?_⟩ <;> rintro rfl <;> exact hl (by decide)
    show unescape (n + 1) ('\\' :: l :: rest) = _
    rw [unescape, if_neg hne.1, if_neg hne.2.1, if_neg hne.2.2, hc]
    cases unescape n rest <;> rfl
  | @hex l _ width hl hc =>
    have hwidth : 0 < width := by
      have hall : ∀ e ∈ hexLetters, 0 < e.2 := by decide
      exact hall _ hl
    have hnumber := numbered?_paddedHex hwidth hc rest
    have hdrop : (paddedHex width c.toNat ++ rest).drop width = rest :=
      List.drop_left' (length_paddedHex hwidth hc)
    have hcounted : unescape (n + 1) ('\\' :: l :: (paddedHex width c.toNat ++ rest)) =
        (numbered? width (paddedHex width c.toNat ++ rest)).bind fun d =>
          (unescape n ((paddedHex width c.toNat ++ rest).drop width)).bind fun ds =>
            some (d :: ds) := by
      rw [unescape]
      simp only [hexLetters, List.mem_cons, Prod.mk.injEq, List.not_mem_nil, or_false] at hl
      rcases hl with ⟨rfl, rfl⟩ | ⟨rfl, rfl⟩ | ⟨rfl, rfl⟩ <;> rfl
    show unescape (n + 1) ('\\' :: l :: (paddedHex width c.toNat ++ rest)) = _
    rw [hcounted, hnumber, hdrop]
    cases unescape n rest <;> rfl

theorem spanDouble_inPieces (s rest : List Char) :
    spanDouble (inPieces s ++ '"' :: rest) = some (inPieces s, rest) := by
  induction s with
  | nil => rfl
  | cons c s ih =>
    rw [inPieces, List.flatMap_cons, List.append_assoc, spanDouble_piece (piece_escaped c),
      ← inPieces, ih]
    rfl

theorem joinEscaped_inPieces (s : List Char) : joinEscaped false (inPieces s) = inPieces s := by
  induction s with
  | nil => rfl
  | cons c s ih =>
    rw [inPieces, List.flatMap_cons, joinEscaped_piece (piece_escaped c), ← inPieces, ih]

theorem unescape_inPieces (s : List Char) {n : Nat} (h : s.length ≤ n) :
    unescape n (inPieces s) = some s := by
  induction s generalizing n with
  | nil => cases n <;> rfl
  | cons c s ih =>
    obtain ⟨n, rfl⟩ : ∃ k, n = k + 1 := ⟨n - 1, by have := List.length_cons ▸ h; omega⟩
    rw [inPieces, List.flatMap_cons, unescape_piece (piece_escaped c), ← inPieces,
      ih (Nat.le_of_succ_le_succ h)]
    rfl

/-- There are at least as many characters in the pieces as in the text. -/
theorem length_le_length_inPieces (s : List Char) : s.length ≤ (inPieces s).length := by
  induction s with
  | nil => exact Nat.zero_le _
  | cons c s ih =>
    have hne : 1 ≤ (escaped c).length := by
      rcases (piece_escaped c).eq_singleton_or with ⟨d, h, -⟩ | ⟨l, digits, h, -, -⟩
      · exact h ▸ Nat.le_refl 1
      · rw [h, List.length_cons]
        omega
    rw [inPieces, List.flatMap_cons, ← inPieces, List.length_append, List.length_cons]
    omega

/-- **A text in double quotes is taken back.** -/
theorem unescape_foldLines_inPieces (s : List Char) :
    let text := foldLines (lines (joinEscaped false (inPieces s)))
    unescape text.length text = some s := by
  have hbreak : '\n' ∉ inPieces s := fun h => (shown_of_mem_inPieces h).2 rfl
  simp only [joinEscaped_inPieces, foldLines_lines hbreak]
  exact unescape_inPieces s (length_le_length_inPieces s)

end Yaml
end Arbor
