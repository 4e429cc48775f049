/-
# Cutting what was written

Outside flow collections a text is cut from left to right, and what is left over depends on where it
starts: on its column, on whether a token stands before it on its line, and on the columns of the
open block collections.  `Yields` says into which tokens a text is cut from such a place; what the
last scalar was does not matter.

| at the place | tokens | the rest is | |
| --- | --- | --- | --- |
| blanks | none | further right | `yields_blanks_iff` |
| a line break | none | on the next line | `yields_break` |
| a key | its name and the colon | within the collection at its column | `yields_key` |
| a text as it is written | the scalar | on the next line | `yields_write` |
| braces | both | on the next line | `yields_braces` |

Behind a scalar without quotes the next line has been entered already, and behind a block it has not
been, so that what follows a value is always taken from the start of its line.
-/

import Arbor.Proofs.Yaml.Block
import Arbor.Proofs.Yaml.Plain

namespace Arbor
namespace Yaml

/-- Outside flow collections a text is cut into such tokens: at a column, with the line begun or
not, and within block collections at such columns. -/
def Yields (rest : List Char) (column : Nat) (first : Bool) (blocks : List Nat)
    (ts : List Token) : Prop :=
  ∀ (keyColumn : Nat) (begun : Bool) (n : Nat), rest.length < n →
    Cut.tokens n ⟨rest, column, first, 0, blocks, keyColumn, begun, false⟩ = some ts

variable {rest : List Char} {column : Nat} {first : Bool} {blocks : List Nat} {ts : List Token}

/-! ## Columns -/

theorem advance_of_not_mem {s : List Char} (h : '\n' ∉ s) (column : Nat) :
    advance column s = column + s.length := by
  induction s generalizing column with
  | nil => rfl
  | cons c s ih =>
    rw [List.mem_cons, not_or] at h
    rw [advance, if_neg (Ne.symm h.1), ih h.2, List.length_cons]
    omega

theorem advance_append (column : Nat) (s t : List Char) :
    advance column (s ++ t) = advance (advance column s) t := by
  induction s generalizing column with
  | nil => rfl
  | cons c s ih => exact ih _

namespace Cut

variable {c : Cut} {s : List Char}

/-- What a cut has consumed. -/
theorem consumed_eq (h : c.rest = s ++ rest) : c.rest.take (c.rest.length - rest.length) = s := by
  rw [h, List.length_append, Nat.add_sub_cancel, List.take_left' rfl]

theorem skip_eq (h : c.rest = s ++ rest) :
    c.skip rest = { c with rest := rest, column := advance c.column s } := by
  simp only [skip, consumed_eq h]

/-- A token of one character. -/
theorem token_singleton {d : Char} (hd : d ≠ '\n') (kind : TokenKind) (depth keyColumn : Nat)
    (begun ended : Bool) :
    token ⟨d :: rest, column, first, depth, blocks, keyColumn, begun, ended⟩ kind rest =
      (⟨kind, column, first⟩,
        ⟨rest, column + 1, false, depth, blocks, keyColumn, true, ended⟩) := by
  rw [token, skip_eq (s := [d]) rfl, advance, if_neg hd]
  rfl

/-- One token is cut off, unless a blank, a line break, a comment or a marker stands there. -/
theorem tokens_token {d : Char} {t : Token} {after : Cut} (n : Nat) (hrest : c.rest = d :: rest)
    (hd : d ∉ ['\n', ' ', '\t', '#']) (hmarker : c.first → c.column = 0 → isMarker c.rest = false)
    (hnext : c.next? = some (t, after)) :
    tokens (n + 1) c = (tokens n after).map (t :: ·) := by
  simp only [List.mem_cons, List.not_mem_nil, or_false, not_or] at hd
  obtain ⟨hbreak, hblank, htab, hcomment⟩ := hd
  have hmarker : ¬(c.first = true ∧ c.column = 0 ∧ isMarker (d :: rest) = true) := by
    rintro ⟨hfirst, hcolumn, h⟩
    rw [← hrest, hmarker hfirst hcolumn] at h
    cases h
  rw [tokens, hrest]
  simp only [hbreak, hblank, htab, hcomment, hmarker, if_false, false_and, or_false, hnext]

end Cut

/-! ## Blanks and line breaks -/

/-- Nothing is left. -/
theorem yields_nil_iff : Yields [] column first blocks ts ↔ ts = [] := by
  refine ⟨fun h => ?_, ?_⟩
  · exact (Option.some.inj (h 0 false 1 (by simp))).symm
  · rintro rfl keyColumn begun n hn
    obtain ⟨n, rfl⟩ := Nat.exists_eq_succ_of_ne_zero (Nat.ne_zero_of_lt hn)
    rfl

theorem yields_blank_iff :
    Yields (' ' :: rest) column first blocks ts ↔ Yields rest (column + 1) first blocks ts := by
  have hstep (keyColumn : Nat) (begun : Bool) (n : Nat) :
      Cut.tokens (n + 1) ⟨' ' :: rest, column, first, 0, blocks, keyColumn, begun, false⟩ =
        Cut.tokens n ⟨rest, column + 1, first, 0, blocks, keyColumn, begun, false⟩ := by
    have hskip := Cut.skip_eq
      (c := ⟨' ' :: rest, column, first, 0, blocks, keyColumn, begun, false⟩)
      (List.singleton_append (x := ' ') (l := rest)).symm
    rw [Cut.tokens]
    simp only [if_neg (show ¬(' ' = '\n') by decide), true_or, if_true, hskip]
    rfl
  refine ⟨fun h keyColumn begun n hn => ?_, fun h keyColumn begun n hn => ?_⟩
  · rw [← hstep]
    exact h keyColumn begun (n + 1) (Nat.succ_lt_succ hn)
  · obtain ⟨n, rfl⟩ := Nat.exists_eq_succ_of_ne_zero (Nat.ne_zero_of_lt hn)
    rw [hstep]
    exact h keyColumn begun n (Nat.lt_of_succ_lt_succ hn)

/-- Blanks only move what follows to the right. -/
theorem yields_blanks_iff (width : Nat) :
    Yields (List.replicate width ' ' ++ rest) column first blocks ts ↔
      Yields rest (column + width) first blocks ts := by
  induction width generalizing column with
  | zero => rfl
  | succ width ih =>
    rw [List.replicate_succ, List.cons_append, yields_blank_iff, ih, Nat.add_right_comm]
    rfl

/-- Behind a line break a line begins. -/
theorem yields_break (h : Yields rest 0 true blocks ts) :
    Yields ('\n' :: rest) column first blocks ts := by
  intro keyColumn begun n hn
  obtain ⟨n, rfl⟩ := Nat.exists_eq_succ_of_ne_zero (Nat.ne_zero_of_lt hn)
  have hskip := Cut.skip_eq
    (c := ⟨'\n' :: rest, column, first, 0, blocks, keyColumn, begun, false⟩)
    (List.singleton_append (x := '\n') (l := rest)).symm
  rw [Cut.tokens]
  simp only [if_true, hskip]
  exact h keyColumn begun n (Nat.lt_of_succ_lt_succ hn)

/-! ## Scalars without quotes -/

/-- The blanks and line breaks before the next line of a document are no part of a scalar. -/
theorem plainLines_outdented {indent : Nat} (h : Outdented indent rest) (n : Nat) :
    ∃ width after, rest = List.replicate width ' ' ++ after ∧
      plainLines false indent (n + 1) ('\n' :: rest) = some ([], after) := by
  have htab (width column : Nat) (c : Char) (r : List Char) (hc : c ≠ '\n')
      (hblank : isBlank c = false) :
      hasEarlyTab indent column (List.replicate width ' ' ++ c :: r) = false := by
    induction width generalizing column with
    | zero =>
      show hasEarlyTab indent column (c :: r) = false
      rw [hasEarlyTab, if_neg hc, if_neg (by rw [hblank]; exact Bool.false_ne_true)]
    | succ width ih => exact ih (column + 1)
  have hnext (width column : Nat) (c : Char) (r : List Char) (hc : c ≠ '\n')
      (hblank : isBlank c = false) :
      nextLine 1 column (List.replicate width ' ' ++ c :: r) =
        some (1, column + width, c :: r) := by
    induction width generalizing column with
    | zero =>
      show nextLine 1 column (c :: r) = _
      rw [nextLine, if_neg hc, if_neg (by rw [hblank]; exact Bool.false_ne_true)]
      rfl
    | succ width ih =>
      show nextLine 1 (column + 1) (List.replicate width ' ' ++ c :: r) = _
      rw [ih, Nat.add_right_comm]
      rfl
  cases h with
  | nil => exact ⟨0, [], rfl, rfl⟩
  | @line width c r hwidth hc hblank =>
    refine ⟨width, c :: r, rfl, ?_⟩
    rw [plainLines, htab width 0 c r hc hblank, hnext width 0 c r hc hblank]
    simp only [Nat.zero_add, hwidth, decide_true, Bool.not_false, Bool.and_self, Bool.true_or,
      if_true, Bool.false_eq_true, if_false]

namespace Cut

variable {c : Cut} {s gap : List Char}

/-- A scalar without quotes, and the gap behind it. -/
theorem plain_eq (hs : IsUnquoted s) (hdepth : c.depth = 0) {next : List Char}
    (hrest : c.rest = s ++ next) (hends : ∀ after, endsPlain false after next = true)
    (hmore : plainLines false ((c.blocks.head?.map (· + 1)).getD 0) next.length next =
      some ([], rest))
    (hnext : next = gap ++ rest) (hgap : ∀ d ∈ gap, isBlank d = true ∨ d = '\n') :
    c.plain = some (⟨.scalar true true (String.ofList s), c.column, c.first⟩,
      { c with rest := rest, column := advance c.column (s ++ gap), first := gap.contains '\n'
               begun := true, keyColumn := c.column }) := by
  have hconsumed : c.rest = (s ++ gap) ++ rest := by rw [hrest, hnext, List.append_assoc]
  have hlast : ((s ++ gap).reverse.takeWhile fun d => isBlank d || d == '\n') = gap.reverse := by
    obtain ⟨init, d, rfl⟩ := (List.eq_nil_or_concat' s).resolve_left hs.ne_nil
    have hd : (isBlank d || d == '\n') = false := by
      have hshown := hs.shown d (by simp)
      rw [beq_eq_false_iff_ne.2 hshown.2, Bool.or_false]
      refine Bool.eq_false_iff.2 fun hblank => hs.getLast? ?_
      rw [List.getLast?_concat, eq_blank_of_isBlank hshown.1 hblank]
    rw [List.reverse_append, List.takeWhile_append_of_pos, List.reverse_append,
      List.reverse_singleton, List.singleton_append, List.takeWhile_cons_of_neg, List.append_nil]
    · rw [hd]
      exact Bool.false_ne_true
    · intro e he
      rcases hgap e (List.mem_reverse.1 he) with h | rfl
      · rw [h, Bool.true_or]
      · rfl
  have hspan : spanPlain false false c.rest = (s, next) := by rw [hrest, hs.spanPlain hends]
  have hflow : decide (0 < c.depth) = false := by rw [hdepth]; rfl
  have hcontains : gap.reverse.contains '\n' = gap.contains '\n' := by
    rw [Bool.eq_iff_iff, List.contains_iff_mem, List.contains_iff_mem, List.mem_reverse]
  simp only [plain, hflow, hspan, hmore, hs.trimRight, Option.bind_eq_bind, Option.bind_some,
    List.flatMap_nil, List.append_nil, List.isEmpty_nil, token, skip_eq hconsumed,
    consumed_eq hconsumed, hlast, hcontains]
  rfl

theorem close_rest (c : Cut) : c.close.rest = c.rest := by
  unfold close
  split <;> rfl

theorem close_depth (c : Cut) : c.close.depth = c.depth := by
  unfold close
  split <;> rfl

theorem close_ended (c : Cut) : c.close.ended = c.ended := by
  unfold close
  split <;> rfl

/-- A text that needs no quotes is cut off as a scalar without quotes. -/
theorem next?_unquoted (hs : IsUnquoted s) (hdepth : c.depth = 0) (hended : c.ended = false)
    {next : List Char} (hrest : c.rest = s ++ next) : c.next? = c.close.plain := by
  obtain ⟨d, t, rfl⟩ := List.exists_cons_of_ne_nil hs.ne_nil
  have hrest : c.close.rest = d :: (t ++ next) := by rw [close_rest, hrest, List.cons_append]
  obtain ⟨hindicator, hquote, hmark⟩ := hs.head_tail
  have hgap (h : d = '-' ∨ d = '?' ∨ d = ':') : isGap (t ++ next) = false := by
    have hgap := hmark h
    have hne : t ≠ [] := by
      rintro rfl
      cases hgap
    rw [isGap_append hne, hgap]
  have hne {e : Char} (he : e ∈ indicators) : d ≠ e := fun h => hindicator (h ▸ he)
  have hbarred : isBarred d = false := by
    refine Bool.eq_false_iff.2 fun h => ?_
    rw [isBarred, Bool.or_eq_true, List.contains_iff_mem, beq_iff_eq] at h
    have htab : "&*!|>%@\t".toList.all (fun e => indicators.contains e || !isShown e) = true := by
      decide
    have hd := List.all_eq_true.1 htab d (h.resolve_right hquote)
    rw [Bool.or_eq_true, List.contains_iff_mem, Bool.not_eq_true'] at hd
    rcases hd with h | h
    · exact hindicator h
    · rw [(hs.shown d List.mem_cons_self).1] at h
      cases h
  have hmarks (h : d = '-' ∨ d = '?' ∨ d = ':') :
      ¬(isGap (t ++ next) = true ∨ 0 < c.close.depth) := by
    rw [hgap h, close_depth, hdepth]
    simp
  have hdash : ¬(d = '-' ∧ isGap (t ++ next) = true) := fun h => hmarks (.inl h.1) (.inl h.2)
  have hcolon : ¬(d = ':' ∧ (isGap (t ++ next) = true ∨ 0 < c.close.depth)) :=
    fun h => hmarks (.inr (.inr h.1)) h.2
  have hquestion : ¬(d = '?' ∧ (isGap (t ++ next) = true ∨ 0 < c.close.depth)) :=
    fun h => hmarks (.inr (.inl h.1)) h.2
  simp only [next?, hrest, close_ended, hended, Bool.false_eq_true, hne (e := '\x7b') (by decide),
    hne (e := '[') (by decide), hne (e := '\x7d') (by decide), hne (e := ']') (by decide),
    hne (e := ',') (by decide), hne (e := '\'') (by decide), hne (e := '"') (by decide),
    hne (e := '|') (by decide), hdash, hcolon, hquestion, hbarred, false_and, if_false]

/-- Within a line no collection is closed. -/
theorem close_of_begun (h : c.first = false) : c.close = c := by
  rw [close, if_neg (by simp [h])]

end Cut

namespace IsUnquoted

variable {s : List Char}

/-- It begins with a character that is passed over nowhere. -/
theorem head_not_mem {c : Char} {t : List Char} (h : IsUnquoted (c :: t)) :
    c ∉ ['\n', ' ', '\t', '#'] := by
  have hshown := h.shown c List.mem_cons_self
  intro hc
  simp only [List.mem_cons, List.not_mem_nil, or_false] at hc
  rcases hc with rfl | rfl | rfl | rfl
  · exact hshown.2 rfl
  · exact h.head? rfl
  · exact absurd hshown.1 (by decide)
  · exact h.head_tail.1 (by decide)

theorem not_mem_break (h : IsUnquoted s) : '\n' ∉ s := fun hmem => (h.shown _ hmem).2 rfl

end IsUnquoted

/-- Where a value has begun, its token is cut off, and then what follows it. -/
theorem yields_value {d : Char} {s after : List Char} {t : Token} {column' : Nat} {first' : Bool}
    (hd : d ∉ ['\n', ' ', '\t', '#']) (hafter : after <:+ s)
    (hnext : ∀ keyColumn begun, ∃ keyColumn',
      Cut.next? ⟨d :: s, column, false, 0, blocks, keyColumn, begun, false⟩ =
        some (t, ⟨after, column', first', 0, blocks, keyColumn', true, false⟩))
    (h : Yields after column' first' blocks ts) :
    Yields (d :: s) column false blocks (t :: ts) := by
  intro keyColumn begun n hn
  obtain ⟨n, rfl⟩ := Nat.exists_eq_succ_of_ne_zero (Nat.ne_zero_of_lt hn)
  obtain ⟨keyColumn', hnext⟩ := hnext keyColumn begun
  rw [Cut.tokens_token n rfl hd (fun e => absurd e Bool.false_ne_true) hnext,
    h keyColumn' true n (Nat.lt_of_le_of_lt hafter.length_le (Nat.lt_of_succ_lt_succ hn))]
  rfl

/-- **A text without quotes is a scalar up to the end of its line.** -/
theorem yields_unquoted {s : List Char} {parent : Nat} (hs : IsUnquoted s)
    (hrest : Outdented (parent + 1) rest) (h : Yields rest 0 true (parent :: blocks) ts) :
    Yields (s ++ '\n' :: rest) column false (parent :: blocks)
      (⟨.scalar true true (String.ofList s), column, false⟩ :: ts) := by
  obtain ⟨width, after, hafter, hmore⟩ := plainLines_outdented hrest rest.length
  rw [hafter, yields_blanks_iff, Nat.zero_add] at h
  have hcolumn : advance column (s ++ '\n' :: List.replicate width ' ') = width := by
    rw [advance_append, advance, if_pos rfl, advance_of_not_mem (by simp), Nat.zero_add,
      List.length_replicate]
  have hgap : ∀ d ∈ '\n' :: List.replicate width ' ', isBlank d = true ∨ d = '\n' := by
    refine List.forall_mem_cons.2 ⟨Or.inr rfl, fun d hd => Or.inl ?_⟩
    rw [List.eq_of_mem_replicate hd]
    rfl
  have hnext (keyColumn : Nat) (begun : Bool) :
      Cut.next? ⟨s ++ '\n' :: rest, column, false, 0, parent :: blocks, keyColumn, begun, false⟩ =
        some (⟨.scalar true true (String.ofList s), column, false⟩,
          ⟨after, width, true, 0, parent :: blocks, column, true, false⟩) := by
    rw [Cut.next?_unquoted hs rfl rfl rfl, Cut.close_of_begun rfl]
    have hplain := Cut.plain_eq
      (c := ⟨s ++ '\n' :: rest, column, false, 0, parent :: blocks, keyColumn, begun, false⟩)
      hs rfl rfl (fun _ => endsPlain_break _ rest) hmore (by rw [hafter, List.cons_append]) hgap
    rw [hplain, hcolumn]
    rfl
  obtain ⟨d, t, rfl⟩ := List.exists_cons_of_ne_nil hs.ne_nil
  refine yields_value hs.head_not_mem ?_ (fun keyColumn begun => ⟨column, hnext keyColumn begun⟩) h
  exact ⟨t ++ '\n' :: List.replicate width ' ', by rw [hafter]; simp⟩

/-! ## Scalars with quotes -/

/-- A scalar with quotes. -/
theorem Cut.quoted_eq {c : Cut} {s : List Char} (h : c.rest = s ++ rest) (hbreak : '\n' ∉ s)
    (text : List Char) :
    c.quoted text rest = (⟨.scalar false true (String.ofList text), c.column, c.first⟩,
      { c with rest := rest, column := advance c.column s, first := false, begun := true
               keyColumn := c.column }) := by
  have hcontains : s.contains '\n' = false :=
    Bool.eq_false_iff.2 fun e => hbreak (List.contains_iff_mem.1 e)
  simp only [quoted, token, skip_eq h, consumed_eq h, hcontains]
  rfl

theorem not_mem_quoted {mark : Char} {inner : List Char} (hmark : mark = '\'' ∨ mark = '"')
    (hinner : '\n' ∉ inner) : '\n' ∉ mark :: (inner ++ [mark]) := by
  rcases hmark with rfl | rfl <;> simp [hinner]

theorem terminated_quoted {mark : Char} {inner : List Char} (hmark : mark = '\'' ∨ mark = '"')
    (hinner : '\n' ∉ inner) :
    terminated (mark :: (inner ++ [mark])) ++ rest = mark :: (inner ++ mark :: '\n' :: rest) := by
  rw [terminated_of_not_mem (not_mem_quoted hmark hinner)]
  simp

/-- **A text in quotes is a scalar**, up to its closing quote. -/
theorem yields_quoted {mark : Char} {inner text : List Char} (hmark : mark = '\'' ∨ mark = '"')
    (hinner : '\n' ∉ inner)
    (hnext : ∀ c : Cut, c.close.rest = mark :: (inner ++ mark :: '\n' :: rest) → c.ended = false →
      c.next? = some (c.close.quoted text ('\n' :: rest)))
    (h : Yields rest 0 true blocks ts) :
    Yields (mark :: (inner ++ mark :: '\n' :: rest)) column false blocks
      (⟨.scalar false true (String.ofList text), column, false⟩ :: ts) := by
  have hbreak := not_mem_quoted hmark hinner
  have hd : mark ∉ ['\n', ' ', '\t', '#'] := by
    rcases hmark with rfl | rfl <;> decide
  have hbehind : Yields ('\n' :: rest) (advance column (mark :: (inner ++ [mark]))) false blocks
      ts := yields_break h
  refine yields_value hd ⟨inner ++ [mark], by simp⟩ (fun keyColumn begun => ⟨column, ?_⟩) hbehind
  rw [hnext _ (congrArg Cut.rest (Cut.close_of_begun rfl)) rfl, Cut.close_of_begun rfl,
    Cut.quoted_eq (s := mark :: (inner ++ [mark])) (by simp) hbreak]

theorem yields_single (s : List Char) (hs : '\n' ∉ s) (h : Yields rest 0 true blocks ts) :
    Yields ('\'' :: (doubled s ++ '\'' :: '\n' :: rest)) column false blocks
      (⟨.scalar false true (String.ofList s), column, false⟩ :: ts) := by
  refine yields_quoted (.inl rfl) (fun hmem => hs (mem_of_mem_doubled hmem))
    (fun c hc hended => ?_) h
  have hspan : spanSingle (doubled s ++ '\'' :: '\n' :: rest) = some (s, '\n' :: rest) :=
    spanSingle_doubled s (by simp)
  simp only [Cut.next?, hc, Cut.close_ended, hended]
  simp [hspan, foldLines_lines hs]

theorem yields_double (s : List Char) (h : Yields rest 0 true blocks ts) :
    Yields ('"' :: (inPieces s ++ '"' :: '\n' :: rest)) column false blocks
      (⟨.scalar false true (String.ofList s), column, false⟩ :: ts) := by
  refine yields_quoted (.inr rfl) (fun hmem => (shown_of_mem_inPieces hmem).2 rfl)
    (fun c hc hended => ?_) h
  have hspan := spanDouble_inPieces s ('\n' :: rest)
  have htext := unescape_foldLines_inPieces s
  simp only [Cut.next?, hc, Cut.close_ended, hended]
  simp [hspan, htext]

/-! ## Blocks -/

/-- **A block is a scalar**, up to the first line that is further left. -/
theorem yields_block {s : String} {parent : Nat} (hbreak : '\n' ∈ s.toList)
    (hblank : hasTrailingBlank s.toList = false) (hrest : Outdented (parent + 2) rest)
    (h : Yields rest 0 true (parent :: blocks) ts) :
    Yields (terminated (writeBlock (parent + 2) s.toList) ++ rest) column false (parent :: blocks)
      (⟨.scalar false false s, column, false⟩ :: ts) := by
  obtain ⟨body, hwrite, text, hhead, hread⟩ := readBlock_writeBlock hbreak hblank hrest
  rw [hwrite, List.cons_append]
  refine yields_value (by decide) (List.suffix_append body rest)
    (fun keyColumn begun => ⟨keyColumn, ?_⟩) h
  rw [Cut.next?, Cut.close_of_begun rfl]
  simp [hhead, hread, Cut.token, Cut.skip]

/-! ## Values -/

/-- **A text is cut off as it is written**, as the value of a key. -/
theorem yields_write {parent : Nat} (s : String) (hrest : Outdented (parent + 1) rest)
    (h : Yields rest 0 true (parent :: blocks) ts) :
    Yields (terminated (write (parent + 2) s).toList ++ rest) column false (parent :: blocks)
      (⟨.scalar (styleOf s == .plain) (styleOf s != .block) s, column, false⟩ :: ts) := by
  have hspec := styleOf_spec s
  have hs : String.ofList s.toList = s := String.ofList_toList
  rw [write]
  cases hstyle : styleOf s with
  | plain =>
    rw [hstyle] at hspec
    have hyields : Yields _ column _ _ _ := yields_unquoted hspec.1 hrest h
    rw [hs] at hyields
    rw [terminated_of_not_mem hspec.1.not_mem_break, List.append_assoc]
    exact hyields
  | single =>
    rw [hstyle] at hspec
    have hbreak : '\n' ∉ s.toList := fun hmem => (hspec _ hmem).2 rfl
    have hyields : Yields _ column _ _ _ := yields_single s.toList hbreak h
    rw [hs] at hyields
    rw [String.toList_ofList]
    show Yields (terminated ('\'' :: (doubled s.toList ++ ['\''])) ++ rest) _ _ _ _
    rw [terminated_quoted (.inl rfl) fun hmem => hbreak (mem_of_mem_doubled hmem)]
    exact hyields
  | double =>
    have hyields : Yields _ column _ _ _ := yields_double s.toList h
    rw [hs] at hyields
    rw [String.toList_ofList]
    show Yields (terminated ('"' :: (inPieces s.toList ++ ['"'])) ++ rest) _ _ _ _
    rw [terminated_quoted (.inr rfl) fun e => (shown_of_mem_inPieces e).2 rfl]
    exact hyields
  | block =>
    rw [hstyle] at hspec
    rw [String.toList_ofList]
    exact yields_block hspec.2.1 hspec.2.2 (hrest.mono (Nat.le_succ _)) h

/-! ## Keys -/

/-- The columns of the open block collections once one has been opened at a column. -/
def opened (column : Nat) (blocks : List Nat) : List Nat :=
  let enclosing := blocks.dropWhile (column < ·)
  if enclosing.all (· < column) then column :: enclosing else enclosing

/-- A colon before a gap opens a collection at the column of the last scalar. -/
theorem Cut.next?_colon (hgap : isGap rest = true) (keyColumn : Nat) :
    Cut.next? ⟨':' :: rest, column, false, 0, blocks, keyColumn, true, false⟩ =
      some (⟨.colon, column, false⟩,
        ⟨rest, column + 1, false, 0,
          if blocks.all (· < keyColumn) then keyColumn :: blocks else blocks, keyColumn, true,
          false⟩) := by
  rw [next?, close_of_begun rfl]
  simp [hgap, token_singleton, openBlock]
  split <;> rfl

/-- **A key is cut off with its colon**, and opens the collection at its column or goes on with
it. -/
theorem yields_key {name : List Char} (hne : name ≠ []) (hname : ∀ c ∈ name, c.isAlphanum = true)
    (hgap : isGap rest = true)
    (h : Yields rest (column + name.length + 1) false (opened column blocks) ts) :
    Yields (name ++ ':' :: rest) column true blocks
      (⟨.scalar true true (String.ofList name), column, true⟩ ::
        ⟨.colon, column + name.length, false⟩ :: ts) := by
  have hs := isUnquoted_of_isAlphanum hne hname
  intro keyColumn begun n hn
  obtain ⟨n, rfl⟩ : ∃ m, n = m + 2 := ⟨n - 2, by simp at hn; omega⟩
  have hkey : Cut.next? ⟨name ++ ':' :: rest, column, true, 0, blocks, keyColumn, begun, false⟩ =
      some (⟨.scalar true true (String.ofList name), column, true⟩,
        ⟨':' :: rest, column + name.length, false, 0, blocks.dropWhile (column < ·), column, true,
          false⟩) := by
    have hplain := Cut.plain_eq
      (c := ⟨name ++ ':' :: rest, column, true, 0, blocks.dropWhile (column < ·), keyColumn, begun,
        false⟩) hs rfl rfl (fun _ => endsPlain_colon _ hgap) rfl (List.nil_append _).symm (by simp)
    rw [List.append_nil, advance_of_not_mem hs.not_mem_break] at hplain
    exact (Cut.next?_unquoted hs rfl rfl rfl).trans hplain
  simp only [opened] at h
  obtain ⟨d, t, rfl⟩ := List.exists_cons_of_ne_nil hne
  have hmarker : isMarker (d :: t ++ ':' :: rest) = false := by
    have hne {e : Char} (he : e.isAlphanum = false) : d ≠ e :=
      ne_of_isAlphanum (hname d List.mem_cons_self) he
    simp [isMarker, hne (e := '-') (by decide), hne (e := '.') (by decide)]
  rw [Cut.tokens_token (n + 1) rfl hs.head_not_mem (fun _ _ => hmarker) hkey,
    Cut.tokens_token n rfl (by decide) (fun e => absurd e Bool.false_ne_true)
      (Cut.next?_colon hgap column), h column true n (by simp at hn; omega)]
  rfl

/-! ## Mappings without entries -/

/-- **Braces without anything between them** are cut off behind a key. -/
theorem yields_braces (h : Yields rest 0 true blocks ts) :
    Yields ('\x7b' :: '\x7d' :: '\n' :: rest) column false blocks
      (⟨.openMap, column, false⟩ :: ⟨.closeMap, column + 1, false⟩ :: ts) := by
  intro keyColumn begun n hn
  obtain ⟨n, rfl⟩ : ∃ m, n = m + 2 := ⟨n - 2, by simp at hn; omega⟩
  have hopen :
      Cut.next? ⟨'\x7b' :: '\x7d' :: '\n' :: rest, column, false, 0, blocks, keyColumn, begun,
        false⟩ = some (⟨.openMap, column, false⟩,
          ⟨'\x7d' :: '\n' :: rest, column + 1, false, 1, blocks, keyColumn, true, false⟩) := by
    rw [Cut.next?, Cut.close_of_begun rfl]
    simp [Cut.token_singleton]
  have hclose :
      Cut.next? ⟨'\x7d' :: '\n' :: rest, column + 1, false, 1, blocks, keyColumn, true, false⟩ =
        some (⟨.closeMap, column + 1, false⟩,
          ⟨'\n' :: rest, column + 2, false, 0, blocks, keyColumn, true, false⟩) := by
    rw [Cut.next?, Cut.close_of_begun rfl]
    simp [Cut.token_singleton]
  rw [Cut.tokens_token (n + 1) rfl (by decide) (fun e => absurd e Bool.false_ne_true) hopen,
    Cut.tokens_token n rfl (by decide) (fun e => absurd e Bool.false_ne_true) hclose,
    yields_break h keyColumn true n (by simp at hn ⊢; omega)]
  rfl

/-! ## Whole texts -/

/-- Everything that is written for a text shows. -/
theorem isShown_of_mem_write {indent : Nat} {s : String} {c : Char}
    (h : c ∈ (write indent s).toList) : isShown c = true := by
  have hspec := styleOf_spec s
  rw [write] at h
  cases hstyle : styleOf s with
  | plain =>
    rw [hstyle] at hspec h
    exact (hspec.1.shown c h).1
  | single =>
    rw [hstyle] at hspec h
    rw [String.toList_ofList] at h
    change c ∈ '\'' :: doubled s.toList ++ ['\''] at h
    rcases List.mem_append.1 h with h | h
    · rcases List.mem_cons.1 h with rfl | h
      · rfl
      · exact (hspec c (mem_of_mem_doubled h)).1
    · rw [List.mem_singleton.1 h]
      rfl
  | double =>
    rw [hstyle] at h
    rw [String.toList_ofList] at h
    change c ∈ '"' :: inPieces s.toList ++ ['"'] at h
    rcases List.mem_append.1 h with h | h
    · rcases List.mem_cons.1 h with rfl | h
      · rfl
      · exact (shown_of_mem_inPieces h).1
    · rw [List.mem_singleton.1 h]
      rfl
  | block =>
    rw [hstyle] at hspec h
    rw [String.toList_ofList] at h
    rcases mem_writeBlock h with h | h
    · exact hspec.1 c h
    · have hmarks : ['|', '2', '+', '-', '\n', ' '].all isShown = true := by decide
      exact List.all_eq_true.1 hmarks c h

/-- What shows may stand in a document, and is no line break but the one. -/
theorem isAllowed_of_isShown {c : Char} (h : isShown c = true) :
    isAllowed c = true ∧ c ≠ '\r' ∧ c.toNat ≠ 0xFEFF := by
  have hreturn : c ≠ '\r' := by
    rintro rfl
    exact absurd h (by decide)
  have hranges : c.toNat = 10 ∨ (32 ≤ c.toNat ∧ c.toNat ≤ 126) ∨
      160 ≤ c.toNat ∧ c.toNat ≤ 0xFFFD ∧ c.toNat ≠ 0xFEFF := by
    simp only [isShown, Bool.or_eq_true, Bool.and_eq_true, beq_iff_eq, bne_iff_ne,
      decide_eq_true_eq] at h
    rcases h with (rfl | h) | h
    · exact Or.inl rfl
    · rw [Char.le_def, Char.le_def, UInt32.le_iff_toNat_le, UInt32.le_iff_toNat_le] at h
      exact Or.inr (Or.inl h)
    · exact Or.inr (Or.inr ⟨h.1.1.1.1, h.1.1.1.2, h.1.1.2⟩)
  refine ⟨?_, hreturn, by omega⟩
  simp only [isAllowed, Bool.or_eq_true, Bool.and_eq_true, beq_iff_eq, bne_iff_ne,
    decide_eq_true_eq]
  omega

theorem unifyBreaks_eq {s : List Char} (h : '\r' ∉ s) : unifyBreaks s = s := by
  induction s with
  | nil => rfl
  | cons c s ih =>
    rw [List.mem_cons, not_or] at h
    rw [unifyBreaks, ih h.2]
    · exact fun _ e => absurd e.symm h.1
    · exact fun e => absurd e.symm h.1

/-- **A text in which everything shows is cut from its start.** -/
theorem tokens?_of_yields {s : String} (hshown : ∀ c ∈ s.toList, isShown c = true)
    (h : Yields s.toList 0 true [] ts) : tokens? s = some ts := by
  have hbreaks : unifyBreaks s.toList = s.toList :=
    unifyBreaks_eq fun hmem => (isAllowed_of_isShown (hshown _ hmem)).2.1 rfl
  have hallowed : s.toList.all isAllowed = true :=
    List.all_eq_true.2 fun c hc => (isAllowed_of_isShown (hshown c hc)).1
  simp only [tokens?, hbreaks]
  cases hs : s.toList with
  | nil =>
    rw [hs] at h
    exact h 0 false 1 (Nat.lt_succ_self 0)
  | cons c rest =>
    rw [hs] at h hallowed hshown
    have hmark := (isAllowed_of_isShown (hshown c List.mem_cons_self)).2.2
    simp only [hmark, if_false, hallowed, if_true]
    exact h 0 false _ (Nat.lt_succ_self _)

end Yaml
end Arbor
