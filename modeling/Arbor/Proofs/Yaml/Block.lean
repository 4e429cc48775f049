/-
# Blocks

A text on several lines is written as a block: a head, and the lines further right than what
encloses them.  The head says how far if the first line does not show it, and what is to become of
the line breaks at the end:

| the text ends in | head | of the last line break and empty lines before it |
| --- | --- | --- |
| no line break | `-` | all are dropped |
| one | | the one is kept |
| several, or is one | `+` | all are kept |

A block reaches up to the first line that starts further left (`blockLines_append`), and what the
head says makes the text of its lines again (`readBlock_eq`, `chomped_chomping`).  So a text is read
back from its block, whatever follows further left (`readBlock_writeBlock`).
-/

import Arbor.Proofs.Yaml.Line
import Mathlib.Data.List.DropRight

namespace Arbor
namespace Yaml

/-! ## Lines further right -/

/-- A line moved to the right; an empty one stays empty. -/
def indented (width : Nat) (l : List Char) : List Char :=
  if l.isEmpty then l else List.replicate width ' ' ++ l

/-- A line that is empty or shows something. -/
inductive IsSolid : List Char → Prop
  | empty : IsSolid []
  | shows (width : Nat) {c : Char} (rest : List Char) : c ≠ ' ' →
      IsSolid (List.replicate width ' ' ++ c :: rest)

theorem indented_shows (indent width : Nat) (c : Char) (rest : List Char) :
    indented indent (List.replicate width ' ' ++ c :: rest) =
      List.replicate (indent + width) ' ' ++ c :: rest := by
  rw [indented, if_neg (by simp), ← List.append_assoc, List.replicate_append_replicate]

theorem not_mem_indented {width : Nat} {l : List Char} (h : '\n' ∉ l) :
    '\n' ∉ indented width l := by
  rw [indented]
  split
  · exact h
  · simp [h]

theorem length_takeWhile_blanks {width : Nat} {c : Char} (hc : c ≠ ' ') (rest : List Char) :
    ((List.replicate width ' ' ++ c :: rest).takeWhile (· == ' ')).length = width := by
  rw [List.takeWhile_append_of_pos fun d hd => by rw [List.eq_of_mem_replicate hd]; rfl,
    List.takeWhile_cons_of_neg (by simpa using hc), List.append_nil, List.length_replicate]

/-- A line that shows something belongs to a block exactly if it is as far right as the block. -/
theorem blockLines_shows (indent : Nat) {width : Nat} {c : Char} (hc : c ≠ ' ')
    (rest : List Char) (ls : List (List Char)) :
    blockLines indent ((List.replicate width ' ' ++ c :: rest) :: ls) =
      if indent ≤ width then
        (List.replicate (width - indent) ' ' ++ c :: rest) :: blockLines indent ls
      else [] := by
  have hdrop : (List.replicate width ' ' ++ c :: rest).drop width = c :: rest :=
    List.drop_left' List.length_replicate
  rw [blockLines]
  simp only [length_takeWhile_blanks hc, hdrop, List.isEmpty_cons, Bool.false_eq_true, false_and,
    if_false]
  by_cases h : indent ≤ width
  · rw [if_pos h, if_pos h]
    congr 1
    conv_lhs => rw [← Nat.add_sub_cancel' h, ← List.replicate_append_replicate, List.append_assoc]
    exact List.drop_left' List.length_replicate
  · rw [if_neg h, if_neg h]

/-- **A block is all the lines that were moved to the right**, up to one that was not. -/
theorem blockLines_append {indent : Nat} {ls rest : List (List Char)} (h : ∀ l ∈ ls, IsSolid l)
    (hrest : blockLines indent rest = []) :
    blockLines indent (ls.map (indented indent) ++ rest) = ls := by
  induction ls with
  | nil => exact hrest
  | cons l ls ih =>
    obtain ⟨hl, hls⟩ := List.forall_mem_cons.1 h
    rw [List.map_cons, List.cons_append]
    cases hl with
    | empty =>
      show blockLines indent ([] :: (ls.map (indented indent) ++ rest)) = _
      rw [blockLines, if_pos ⟨rfl, Nat.zero_le _⟩, ih hls]
    | @shows width c r hc =>
      rw [indented_shows, blockLines_shows indent hc, if_pos (Nat.le_add_right _ _), ih hls,
        Nat.add_sub_cancel_left]

/-! ## Line breaks at the end -/

/-- What the lines of a block become, by what its head says about line breaks at the end. -/
def chomped (chomp : Option Char) (ls : List (List Char)) : List Char :=
  let body := ls.rdropWhile List.isEmpty
  let blankLines := ls.length - body.length
  match chomp with
  | some '-' => ['\n'].intercalate body
  | some _ =>
    if body.isEmpty then List.replicate blankLines '\n'
    else ['\n'].intercalate body ++ List.replicate (blankLines + 1) '\n'
  | none => if body.isEmpty then ['\n'].intercalate body else ['\n'].intercalate body ++ ['\n']

/-- Lines end in so many empty ones. -/
theorem exists_rdropWhile_append (ls : List (List Char)) :
    ∃ n, ls = ls.rdropWhile List.isEmpty ++ List.replicate n [] := by
  induction ls using List.reverseRecOn with
  | nil => exact ⟨0, rfl⟩
  | append_singleton ls l ih =>
    by_cases hl : l.isEmpty = true
    · obtain ⟨n, hn⟩ := ih
      refine ⟨n + 1, ?_⟩
      rw [List.rdropWhile_concat_pos _ _ _ hl, List.isEmpty_iff.1 hl, List.replicate_succ',
        ← List.append_assoc, ← hn]
    · exact ⟨0, by rw [List.rdropWhile_concat_neg _ _ _ hl]; simp⟩

/-- All line breaks are kept. -/
theorem chomped_keep (ls : List (List Char)) : chomped (some '+') ls = unlines ls := by
  obtain ⟨n, hn⟩ := exists_rdropWhile_append ls
  have hlength : ls.length - (ls.rdropWhile List.isEmpty).length = n := by
    have h := congrArg List.length hn
    rw [List.length_append, List.length_replicate] at h
    omega
  have hunlines : unlines ls = unlines (ls.rdropWhile List.isEmpty) ++ List.replicate n '\n' := by
    conv_lhs => rw [hn]
    rw [unlines_append, unlines_replicate]
  show (if (ls.rdropWhile List.isEmpty).isEmpty = true then
      List.replicate (ls.length - (ls.rdropWhile List.isEmpty).length) '\n'
    else ['\n'].intercalate (ls.rdropWhile List.isEmpty) ++
      List.replicate (ls.length - (ls.rdropWhile List.isEmpty).length + 1) '\n') = unlines ls
  rw [hlength, hunlines]
  by_cases hbody : ls.rdropWhile List.isEmpty = []
  · rw [hbody]
    rfl
  · rw [if_neg (by simpa using hbody), ← intercalate_append_break hbody, List.append_assoc]
    rfl

/-- The one line break at the end is kept. -/
theorem chomped_clip (ls : List (List Char)) {l : List Char} (h : l ≠ []) :
    chomped none (ls ++ [l]) = unlines (ls ++ [l]) := by
  have hbody : (ls ++ [l]).rdropWhile List.isEmpty = ls ++ [l] :=
    List.rdropWhile_concat_neg _ _ _ (by simpa using h)
  rw [chomped, hbody]
  show (if (ls ++ [l]).isEmpty = true then _ else _) = _
  rw [if_neg (by simp), intercalate_append_break (by simp)]

/-- There is no line break at the end to keep. -/
theorem chomped_strip (ls : List (List Char)) {l : List Char} (h : l ≠ []) :
    chomped (some '-') (ls ++ [l]) = unlines ls ++ l := by
  have hbody : (ls ++ [l]).rdropWhile List.isEmpty = ls ++ [l] :=
    List.rdropWhile_concat_neg _ _ _ (by simpa using h)
  rw [chomped, hbody]
  exact intercalate_concat ls l

/-! ## Reading -/

/-- How far right a block is, by its head and its lines. -/
def blockIndent (parent : Nat) (h : BlockHead) (all : List (List Char)) : Nat :=
  match h.indent with
  | some n => parent + n
  | none => max (detectIndent 0 all) (parent + 1)

/-- Of what follows further left at most an empty last line is left out, and none of it is taken. -/
theorem exists_untaken {indent : Nat} (ls : List (List Char)) {rest : List Char}
    (hrest : Outdented indent rest) : ∃ more, blockLines indent more = [] ∧
      (if (ls ++ lines rest).getLast? == some [] then (ls ++ lines rest).dropLast
      else ls ++ lines rest) = ls ++ more := by
  cases hrest with
  | nil =>
    refine ⟨[], rfl, ?_⟩
    rw [lines, List.getLast?_concat, if_pos (by simp), List.dropLast_concat, List.append_nil]
  | @line width c r hwidth hc hblank =>
    have hne : c ≠ ' ' := by
      rintro rfl
      cases hblank
    obtain ⟨l, more, hlines⟩ := lines_outdented width hc r
    have hfirst (more : List (List Char)) :
        blockLines indent ((List.replicate width ' ' ++ c :: l) :: more) = [] := by
      rw [blockLines_shows indent hne, if_neg (Nat.not_le.2 hwidth)]
    rw [hlines]
    split
    · cases more with
      | nil => next hlast => simp at hlast
      | cons m more =>
        refine ⟨_ :: (m :: more).dropLast, hfirst _, ?_⟩
        rw [List.dropLast_append_of_ne_nil (by simp), List.dropLast_cons_of_ne_nil (by simp)]
    · exact ⟨_, hfirst _, rfl⟩

/-- **A block is read up to what starts further left**, which is left as it is. -/
theorem readBlock_eq {parent indent : Nat} {h : BlockHead} {ls : List (List Char)}
    {rest : List Char} (hsolid : ∀ l ∈ ls, IsSolid l) (hbreak : ∀ l ∈ ls, '\n' ∉ l)
    (hindent : blockIndent parent h (ls.map (indented indent) ++ lines rest) = indent)
    (hrest : Outdented indent rest) :
    readBlock (some parent) h (unlines (ls.map (indented indent)) ++ rest) =
      (chomped h.chomp ls, rest) := by
  have hall : lines (unlines (ls.map (indented indent)) ++ rest) =
      ls.map (indented indent) ++ lines rest := by
    refine lines_unlines_append (fun l hl => ?_) rest
    obtain ⟨k, hk, rfl⟩ := List.mem_map.1 hl
    exact not_mem_indented (hbreak k hk)
  obtain ⟨more, hmore, hwhole⟩ := exists_untaken (ls.map (indented indent)) hrest
  have htaken : blockLines indent (ls.map (indented indent) ++ more) = ls :=
    blockLines_append hsolid hmore
  have hended : ls.length < (ls.map (indented indent) ++ lines rest).length := by
    have hne := List.length_pos_of_ne_nil (lines_ne_nil rest)
    rw [List.length_append, List.length_map]
    omega
  have hdrop : (ls.map (indented indent) ++ lines rest).drop ls.length = lines rest :=
    List.drop_left' (List.length_map _)
  rcases h with ⟨_ | n, chomp⟩
  all_goals
    simp only [blockIndent] at hindent
    simp only [readBlock, hall, Option.getD_some, Option.map_some, hindent, hwhole, htaken, hdrop,
      intercalate_lines, hended, if_true, decide_true, Bool.not_true, Bool.false_eq_true, false_and,
      or_false]
    rfl

/-! ## Writing -/

/-- A text with a line break at its end. -/
def terminated (s : List Char) : List Char := if s.getLast? = some '\n' then s else s ++ ['\n']

theorem terminated_of_not_mem {s : List Char} (h : '\n' ∉ s) : terminated s = s ++ ['\n'] :=
  if_neg fun e => h (List.mem_of_getLast? e)

/-- The lines of a text without the empty one behind its last line break. -/
def bodyLines (s : List Char) : List (List Char) :=
  if (lines s).getLast? = some [] then (lines s).dropLast else lines s

/-- The indentation that the head of a block gives, for a text whose first line does not show it. -/
def indentHint (s : List Char) : List Char :=
  match s with
  | ' ' :: _ | '\n' :: _ => ['2']
  | _ => []

theorem writeBlock_eq (indent : Nat) (s : List Char) :
    writeBlock indent s = '|' :: (indentHint s ++ chomping s ++
      '\n' :: ['\n'].intercalate ((lines s).map (indented indent))) := by
  rw [← List.cons_append, ← List.cons_append]
  rfl

theorem hint_or (s : List Char) : indentHint s = [] ∨ indentHint s = ['2'] := by
  unfold indentHint
  split <;> simp

theorem chomping_or (s : List Char) :
    chomping s = [] ∨ chomping s = ['+'] ∨ chomping s = ['-'] := by
  unfold chomping
  split
  · split <;> simp
  · simp
  · simp

/-- A block consists of the characters of its text, of blanks and line breaks, and of its head. -/
theorem mem_writeBlock {indent : Nat} {s : List Char} {c : Char} (h : c ∈ writeBlock indent s) :
    c ∈ s ∨ c ∈ ['|', '2', '+', '-', '\n', ' '] := by
  have hbody {l : List Char} (hl : l ∈ lines s) (hc : c ∈ indented indent l) :
      c ∈ s ∨ c ∈ ['|', '2', '+', '-', '\n', ' '] := by
    rw [indented] at hc
    split at hc
    · exact Or.inl (mem_of_mem_lines hl hc)
    · rcases List.mem_append.1 hc with hc | hc
      · rw [List.eq_of_mem_replicate hc]
        exact Or.inr (by decide)
      · exact Or.inl (mem_of_mem_lines hl hc)
  obtain ⟨ls, last, hlines, -⟩ := exists_lines s
  rw [writeBlock_eq, hlines, List.map_append, List.map_singleton, intercalate_concat] at h
  rw [hlines] at hbody
  simp only [List.mem_cons, List.mem_append, mem_unlines, List.mem_map] at h
  rcases h with rfl | (h | h) | rfl | ⟨l, ⟨k, hk, rfl⟩, h | rfl⟩ | h
  · exact Or.inr (by decide)
  · rcases hint_or s with hhint | hhint <;> rw [hhint] at h <;> simp_all
  · rcases chomping_or s with hchomping | hchomping | hchomping <;> rw [hchomping] at h <;> simp_all
  · exact Or.inr (by decide)
  · exact hbody (List.mem_append_left _ hk) h
  · exact Or.inr (by decide)
  · exact hbody (List.mem_append_right _ (List.mem_singleton_self last)) h

theorem bodyLines_of_break {s : List Char} {ls : List (List Char)} (h : lines s = ls ++ [[]]) :
    bodyLines s = ls := by
  rw [bodyLines, h, List.getLast?_concat, if_pos rfl, List.dropLast_concat]

theorem bodyLines_of_ne {s last : List Char} {ls : List (List Char)} (h : lines s = ls ++ [last])
    (hlast : last ≠ []) : bodyLines s = ls ++ [last] := by
  rw [bodyLines, h, List.getLast?_concat, if_neg fun e => hlast (Option.some.inj e)]

theorem getLast?_append_indented (width : Nat) (before : List Char) {l : List Char} (h : l ≠ []) :
    (before ++ indented width l).getLast? = l.getLast? := by
  obtain ⟨init, c, rfl⟩ := (List.eq_nil_or_concat' l).resolve_left h
  rw [indented, if_neg (by simp), ← List.append_assoc, ← List.append_assoc, List.getLast?_concat,
    List.getLast?_concat]

/-- **A block as it is written**, with a line break at its end: the head, and the lines. -/
theorem terminated_writeBlock {indent : Nat} {s : List Char} (h : '\n' ∈ s) :
    terminated (writeBlock indent s) =
      '|' :: (indentHint s ++ chomping s ++
        '\n' :: unlines ((bodyLines s).map (indented indent))) := by
  obtain ⟨ls, last, hlines, hs, -, hlast⟩ := exists_lines s
  have hwrite : writeBlock indent s = '|' :: (indentHint s ++ chomping s ++
      '\n' :: (unlines (ls.map (indented indent)) ++ indented indent last)) := by
    rw [writeBlock_eq, hlines, List.map_append, List.map_singleton, intercalate_concat]
  have happend : writeBlock indent s = ('|' :: (indentHint s ++ chomping s ++
      '\n' :: unlines (ls.map (indented indent)))) ++ indented indent last := by
    simp [hwrite]
  rw [terminated]
  by_cases hempty : last = []
  · subst hempty
    have hls : ls ≠ [] := by
      rintro rfl
      rw [hs] at h
      exact absurd h (by simp [unlines])
    obtain ⟨init, l, rfl⟩ := (List.eq_nil_or_concat' ls).resolve_left hls
    have hends : (writeBlock indent s).getLast? = some '\n' := by
      rw [happend, List.map_append, unlines_append, List.map_singleton, unlines_singleton]
      show (('|' :: (indentHint s ++ chomping s ++ '\n' :: (unlines (init.map (indented indent)) ++
        (indented indent l ++ ['\n'])))) ++ []).getLast? = some '\n'
      simp only [List.append_nil, ← List.append_assoc, ← List.cons_append, List.getLast?_concat]
    rw [if_pos hends, happend, bodyLines_of_break hlines]
    exact List.append_nil _
  · have hends : (writeBlock indent s).getLast? ≠ some '\n' := by
      rw [happend, getLast?_append_indented indent _ hempty]
      exact fun e => hlast (List.mem_of_getLast? e)
    rw [if_neg hends, happend, bodyLines_of_ne hlines hempty, List.map_append, unlines_append,
      List.map_singleton, unlines_singleton]
    simp

/-- Without a line break at the end. -/
theorem chomping_concat (s : List Char) {c : Char} (h : c ≠ '\n') :
    chomping (s ++ [c]) = ['-'] := by
  rw [chomping, List.reverse_append, List.reverse_singleton, List.singleton_append]
  split
  · next heq => exact absurd (List.cons.inj heq).1 h
  · next heq => exact absurd (List.cons.inj heq).1 h
  · rfl

/-- With one line break at the end. -/
theorem chomping_break (s : List Char) {c : Char} (h : c ≠ '\n') :
    chomping (s ++ [c] ++ ['\n']) = [] := by
  rw [chomping, List.reverse_append, List.reverse_append]
  exact if_neg h

/-- With an empty line at the end. -/
theorem chomping_empty (ls : List (List Char)) : chomping (unlines (ls ++ [[]])) = ['+'] := by
  rcases List.eq_nil_or_concat' ls with rfl | ⟨ls, l, rfl⟩
  · rfl
  · rw [chomping, unlines_append, unlines_append, unlines_singleton, unlines_singleton,
      List.nil_append, ← List.append_assoc, List.reverse_concat, List.reverse_concat]
    rfl

/-- **The head says what the text ends in.** -/
theorem chomped_chomping {s : List Char} (h : '\n' ∈ s) :
    chomped (chomping s).head? (bodyLines s) = s := by
  obtain ⟨ls, last, hlines, hs, hbreaks, hlast⟩ := exists_lines s
  rcases List.eq_nil_or_concat' last with rfl | ⟨init, c, rfl⟩
  · rw [List.append_nil] at hs
    rw [bodyLines_of_break hlines]
    subst hs
    rcases List.eq_nil_or_concat' ls with rfl | ⟨front, l, rfl⟩
    · exact absurd h (by simp [unlines])
    rcases List.eq_nil_or_concat' l with rfl | ⟨init, c, rfl⟩
    · rw [chomping_empty]
      exact chomped_keep _
    · have hc : c ≠ '\n' := by
        rintro rfl
        exact hbreaks (init ++ ['\n']) (by simp) (by simp)
      have hchomping : chomping (unlines (front ++ [init ++ [c]])) = [] := by
        rw [unlines_append, unlines_singleton, ← List.append_assoc, ← List.append_assoc]
        exact chomping_break _ hc
      rw [hchomping]
      exact chomped_clip front (by simp)
  · have hc : c ≠ '\n' := by
      rintro rfl
      exact hlast (by simp)
    rw [bodyLines_of_ne hlines (by simp), hs, ← List.append_assoc, chomping_concat _ hc]
    refine (chomped_strip ls (by simp)).trans ?_
    rw [List.append_assoc]

/-! ## Lines of a text without blanks at their ends -/

theorem hasTrailingBlank_tail {c : Char} {s : List Char} (h : hasTrailingBlank (c :: s) = false) :
    hasTrailingBlank s = false := by
  unfold hasTrailingBlank at h
  split at h
  · next heq => cases heq
  · next heq =>
    obtain ⟨-, rfl⟩ := List.cons.inj heq
    exact (Bool.or_eq_false_iff.1 h).2
  · next heq =>
    obtain ⟨-, rfl⟩ := List.cons.inj heq
    exact h

theorem hasTrailingBlank_append {before s : List Char}
    (h : hasTrailingBlank (before ++ s) = false) : hasTrailingBlank s = false := by
  induction before with
  | nil => exact h
  | cons c before ih => exact ih (hasTrailingBlank_tail h)

/-- Blanks at the end of a line. -/
theorem hasTrailingBlank_replicate (n : Nat) {rest : List Char} (hgap : isGap rest = true)
    (hrest : rest.head? ≠ some ' ') :
    hasTrailingBlank (List.replicate (n + 1) ' ' ++ rest) = true := by
  induction n with
  | zero =>
    show (isGap rest && rest.head? != some ' ' || hasTrailingBlank rest) = true
    rw [hgap, bne_iff_ne.2 hrest]
    rfl
  | succ n ih =>
    show (_ || hasTrailingBlank (List.replicate (n + 1) ' ' ++ rest)) = true
    rw [ih, Bool.or_true]

/-- A line is empty, shows something, or is all blanks. -/
theorem isSolid_or (l : List Char) : IsSolid l ∨ ∃ n, l = List.replicate (n + 1) ' ' := by
  induction l with
  | nil => exact Or.inl .empty
  | cons c l ih =>
    by_cases hc : c = ' '
    · subst hc
      rcases ih with h | ⟨n, rfl⟩
      · cases h with
        | empty => exact Or.inr ⟨0, rfl⟩
        | @shows width d rest hd => exact Or.inl (.shows (width + 1) rest hd)
      · exact Or.inr ⟨n + 1, rfl⟩
    · exact Or.inl (.shows 0 l hc)

/-- **Without blanks at the ends of lines**, every line is empty or shows something. -/
theorem isSolid_of_mem_lines {s l : List Char} (h : hasTrailingBlank s = false)
    (hl : l ∈ lines s) : IsSolid l := by
  obtain ⟨ls, last, hlines, hs, -⟩ := exists_lines s
  have hplace : ∃ before rest, s = before ++ (l ++ rest) ∧ isGap rest = true ∧
      rest.head? ≠ some ' ' := by
    rw [hlines, List.mem_append, List.mem_singleton] at hl
    rcases hl with hl | rfl
    · obtain ⟨front, back, rfl⟩ := List.append_of_mem hl
      refine ⟨unlines front, '\n' :: (unlines back ++ last), ?_, rfl, by simp⟩
      rw [hs, unlines_append, unlines_cons]
      simp
    · exact ⟨unlines ls, [], by rw [hs, List.append_nil], rfl, by simp⟩
  obtain ⟨before, rest, rfl, hgap, hrest⟩ := hplace
  refine (isSolid_or l).resolve_right ?_
  rintro ⟨n, rfl⟩
  have h := hasTrailingBlank_append h
  rw [hasTrailingBlank_replicate n hgap hrest] at h
  cases h

/-! ## Round trip -/

theorem mem_lines_of_mem_bodyLines {s l : List Char} (h : l ∈ bodyLines s) : l ∈ lines s := by
  rw [bodyLines] at h
  split at h
  · exact List.dropLast_subset _ h
  · exact h

theorem not_mem_of_mem_lines {s l : List Char} (h : l ∈ lines s) : '\n' ∉ l := by
  obtain ⟨ls, last, hlines, -, hls, hlast⟩ := exists_lines s
  rw [hlines, List.mem_append, List.mem_singleton] at h
  rcases h with h | rfl
  · exact hls l h
  · exact hlast

/-- What the head of a text says. -/
def headOf (s : List Char) : BlockHead :=
  ⟨if indentHint s = [] then none else some 2, (chomping s).head?⟩

theorem readHead_written (s rest : List Char) :
    readHead ⟨none, none⟩ (indentHint s ++ chomping s ++ '\n' :: rest) =
      some (headOf s, rest) := by
  rw [headOf]
  rcases hint_or s with hhint | hhint <;>
    rcases chomping_or s with hchomping | hchomping | hchomping <;> rw [hhint, hchomping] <;> rfl

/-- A block has its first line. -/
theorem exists_bodyLines {s l : List Char} {ls : List (List Char)} (h : lines s = l :: ls)
    (hl : l ≠ []) : ∃ ls', bodyLines s = l :: ls' := by
  rw [bodyLines, h]
  cases ls with
  | nil => exact ⟨[], if_neg fun e => hl (Option.some.inj e)⟩
  | cons m ls =>
    split
    · exact ⟨(m :: ls).dropLast, List.dropLast_cons_of_ne_nil (by simp)⟩
    · exact ⟨m :: ls, rfl⟩

/-- The first line that shows something says how far right a block is. -/
theorem detectIndent_shows (width : Nat) {c : Char} (hc : c ≠ ' ') (l : List Char)
    (ls : List (List Char)) :
    detectIndent 0 ((List.replicate width ' ' ++ c :: l) :: ls) = width := by
  rw [detectIndent]
  simp only [length_takeWhile_blanks hc, List.drop_left' List.length_replicate, List.isEmpty_cons,
    Bool.false_eq_true, if_false, Nat.zero_max]

/-- **A block is as far right as it was written**: its first line shows that, or its head says
it. -/
theorem blockIndent_written {parent : Nat} {s : List Char} (h : s ≠ [])
    (rest : List (List Char)) :
    blockIndent parent (headOf s) ((bodyLines s).map (indented (parent + 2)) ++ rest) =
      parent + 2 := by
  obtain ⟨c, t, rfl⟩ := List.exists_cons_of_ne_nil h
  by_cases hhint : c = ' ' ∨ c = '\n'
  · rcases hhint with rfl | rfl <;> rfl
  · rw [not_or] at hhint
    have hhead : (headOf (c :: t)).indent = none := by
      rw [headOf, indentHint]
      · rfl
      · exact fun _ e => hhint.1 (List.cons.inj e).1
      · exact fun _ e => hhint.2 (List.cons.inj e).1
    obtain ⟨l, ls, hlines⟩ := List.exists_cons_of_ne_nil (lines_ne_nil t)
    obtain ⟨ls', hbody⟩ := exists_bodyLines (lines_cons_of_ne hhint.2 hlines) (by simp)
    have hfirst : indented (parent + 2) (c :: l) = List.replicate (parent + 2) ' ' ++ c :: l :=
      indented_shows (parent + 2) 0 c l
    rw [blockIndent, hhead, hbody, List.map_cons, List.cons_append, hfirst]
    show max (detectIndent 0 _) (parent + 1) = parent + 2
    rw [detectIndent_shows _ hhint.1]
    omega

/-- **A text on several lines is read back from its block**, up to what starts further left. -/
theorem readBlock_writeBlock {parent : Nat} {s rest : List Char} (h : '\n' ∈ s)
    (hblank : hasTrailingBlank s = false) (hrest : Outdented (parent + 2) rest) :
    ∃ body, terminated (writeBlock (parent + 2) s) = '|' :: body ∧
      ∃ text, readHead ⟨none, none⟩ (body ++ rest) = some (headOf s, text) ∧
        readBlock (some parent) (headOf s) text = (s, rest) := by
  refine ⟨_, terminated_writeBlock h, unlines ((bodyLines s).map (indented (parent + 2))) ++ rest,
    ?_, ?_⟩
  · rw [List.append_assoc, List.cons_append, readHead_written]
  · refine (readBlock_eq (fun l hl => ?_) (fun l hl => ?_)
      (blockIndent_written (List.ne_nil_of_mem h) (lines rest)) hrest).trans ?_
    · exact isSolid_of_mem_lines hblank (mem_lines_of_mem_bodyLines hl)
    · exact not_mem_of_mem_lines (mem_lines_of_mem_bodyLines hl)
    · exact congrArg (·, rest) (chomped_chomping h)

end Yaml
end Arbor
