/-
# Scalars without quotes

A scalar without quotes goes on until something ends it: a line break, a colon before a gap, a
number sign after a blank.  A text in which there is none of these is taken as a whole, up to where
something behind it ends it (`spanPlain_append`), and if it has no blank at its end, nothing is
trimmed off.

Texts are written without quotes if they have that form and begin with no indicator (`IsUnquoted`).
Letters and digits always have it (`isUnquoted_of_isAlphanum`), so do names of fields, numbers and
flags.
-/

import Arbor.Proofs.Yaml.Quoted

namespace Arbor
namespace Yaml

/-- A text that can stand without quotes on one line. -/
structure IsUnquoted (s : List Char) : Prop where
  shown : ∀ c ∈ s, isShown c = true ∧ c ≠ '\n'
  isPlain : isPlain s = true

/-- A tab does not show. -/
theorem eq_blank_of_isBlank {c : Char} (hshown : isShown c = true) (h : isBlank c = true) :
    c = ' ' := by
  rw [isBlank, Bool.or_eq_true, beq_iff_eq, beq_iff_eq] at h
  rcases h with rfl | rfl
  · rfl
  · exact absurd hshown (by decide)

theorem isGap_append {s : List Char} (h : s ≠ []) (rest : List Char) :
    isGap (s ++ rest) = isGap s := by
  obtain ⟨c, s, rfl⟩ := List.exists_cons_of_ne_nil h
  rfl

/-! ## Where a scalar ends -/

theorem hasIndicator_tail {c : Char} {s : List Char} (h : hasIndicator (c :: s) = false) :
    hasIndicator s = false := by
  unfold hasIndicator at h
  split at h
  · next heq => cases heq
  · next heq =>
    obtain ⟨-, rfl⟩ := List.cons.inj heq
    exact (Bool.or_eq_false_iff.1 h).2
  · cases h
  · next heq =>
    obtain ⟨-, rfl⟩ := List.cons.inj heq
    exact h

/-- A colon inside stands before something that is no gap. -/
theorem isGap_of_hasIndicator_colon {s : List Char} (h : hasIndicator (':' :: s) = false) :
    isGap s = false := by
  rw [hasIndicator] at h
  exact (Bool.or_eq_false_iff.1 h).1

/-- No number sign stands after a blank. -/
theorem head?_of_hasIndicator_blank {s : List Char} (h : hasIndicator (' ' :: s) = false) :
    s.head? ≠ some '#' := by
  intro hhead
  obtain ⟨rest, rfl⟩ := List.head?_eq_some_iff.1 hhead
  exact absurd h (by simp [hasIndicator])

/-- **A text without indicators is taken as a whole**, up to what ends it. -/
theorem spanPlain_append {s rest : List Char} (hshown : ∀ c ∈ s, isShown c = true ∧ c ≠ '\n')
    (hindicator : hasIndicator s = false) (hrest : ∀ after, endsPlain false after rest = true)
    {after : Bool} (hafter : after = true → s.head? ≠ some '#') :
    spanPlain false after (s ++ rest) = (s, rest) := by
  induction s generalizing after with
  | nil =>
    cases rest with
    | nil => rfl
    | cons d rest => rw [List.nil_append, spanPlain, if_pos (hrest after)]
  | cons c s ih =>
    obtain ⟨hc, hs⟩ := List.forall_mem_cons.1 hshown
    have hends : endsPlain false after (c :: (s ++ rest)) = false := by
      have hcomment : (c == '#' && after) = false := by
        by_cases h : after = true
        · rw [Bool.and_eq_false_iff]
          refine Or.inl (beq_eq_false_iff_ne.2 ?_)
          rintro rfl
          exact hafter h rfl
        · rw [Bool.not_eq_true] at h
          rw [h, Bool.and_false]
      have hcolon : (c == ':' && isGap (s ++ rest)) = false := by
        by_cases h : c = ':'
        · subst h
          have hgap := isGap_of_hasIndicator_colon hindicator
          have hne : s ≠ [] := by
            rintro rfl
            cases hgap
          rw [isGap_append hne, hgap, Bool.and_false]
        · rw [beq_eq_false_iff_ne.2 h, Bool.false_and]
      simp only [endsPlain, beq_eq_false_iff_ne.2 hc.2, hcomment, Bool.false_and, Bool.or_false,
        hcolon]
    have hblank : isBlank c = true → s.head? ≠ some '#' := by
      intro h
      obtain rfl := eq_blank_of_isBlank hc.1 h
      exact head?_of_hasIndicator_blank hindicator
    rw [List.cons_append, spanPlain, hends, if_neg Bool.false_ne_true,
      ih hs (hasIndicator_tail hindicator) hblank]

/-- A line break ends a scalar. -/
theorem endsPlain_break (after : Bool) (rest : List Char) :
    endsPlain false after ('\n' :: rest) = true := rfl

/-- A colon before a gap ends a scalar. -/
theorem endsPlain_colon (after : Bool) {rest : List Char} (h : isGap rest = true) :
    endsPlain false after (':' :: rest) = true := by
  simp [endsPlain, h]

/-- Nothing is trimmed off a text that does not end in a blank. -/
theorem trimRight_of_getLast? {s : List Char} (hshown : ∀ c ∈ s, isShown c = true ∧ c ≠ '\n')
    (h : s.getLast? ≠ some ' ') : trimRight s = s := by
  rcases List.eq_nil_or_concat' s with rfl | ⟨s, c, rfl⟩
  · rfl
  · have hc : isBlank c = false := by
      refine Bool.eq_false_iff.2 fun hblank => h ?_
      rw [List.getLast?_concat, eq_blank_of_isBlank (hshown c (by simp)).1 hblank]
    rw [trimRight, List.reverse_append, List.reverse_singleton, List.singleton_append,
      List.dropWhile_cons_of_neg (by rw [hc]; exact Bool.false_ne_true), List.reverse_cons,
      List.reverse_reverse]

/-- The characters that begin no scalar without quotes. -/
def indicators : List Char := "#,[]\x7b\x7d&*!|>'\"%@".toList

namespace IsUnquoted

variable {s : List Char}

theorem getLast? (h : IsUnquoted s) : s.getLast? ≠ some ' ' := by
  have h := h.isPlain
  simp only [Yaml.isPlain, Bool.and_eq_true, bne_iff_ne] at h
  exact h.1.1.2

theorem startsWithIndicator (h : IsUnquoted s) : Yaml.startsWithIndicator s = false := by
  have h := h.isPlain
  simp only [Yaml.isPlain, Bool.and_eq_true, Bool.not_eq_true'] at h
  exact h.1.2

theorem hasIndicator (h : IsUnquoted s) : Yaml.hasIndicator s = false := by
  have h := h.isPlain
  simp only [Yaml.isPlain, Bool.and_eq_true, Bool.not_eq_true'] at h
  exact h.2

theorem head? (h : IsUnquoted s) : s.head? ≠ some ' ' := by
  have h := h.isPlain
  simp only [Yaml.isPlain, Bool.and_eq_true, bne_iff_ne] at h
  exact h.1.1.1

theorem ne_nil (h : IsUnquoted s) : s ≠ [] := by
  rintro rfl
  exact absurd h.isPlain (by decide)

theorem spanPlain {rest : List Char} (h : IsUnquoted s)
    (hrest : ∀ after, endsPlain false after rest = true) :
    Yaml.spanPlain false false (s ++ rest) = (s, rest) :=
  spanPlain_append h.shown h.hasIndicator hrest fun e => absurd e Bool.false_ne_true

theorem trimRight (h : IsUnquoted s) : Yaml.trimRight s = s :=
  trimRight_of_getLast? h.shown h.getLast?

/-- It begins with no indicator, and with a dash, a question mark or a colon only before more. -/
theorem head_tail {c : Char} {t : List Char} (h : IsUnquoted (c :: t)) :
    c ∉ indicators ∧ c.toNat ≠ 0x60 ∧ (c = '-' ∨ c = '?' ∨ c = ':' → isGap t = false) := by
  have hstart := h.startsWithIndicator
  unfold Yaml.startsWithIndicator at hstart
  split at hstart
  · next heq => cases heq
  · cases hstart
  · cases hstart
  · next heq =>
    obtain ⟨rfl, rfl⟩ := List.cons.inj heq
    change (indicators.contains _ || _ || _) = false at hstart
    simp only [Bool.or_eq_false_iff, Bool.and_eq_false_iff, beq_eq_false_iff_ne] at hstart
    obtain ⟨⟨hindicator, hquote⟩, hmark⟩ := hstart
    refine ⟨fun hmem => ?_, hquote, fun hc => hmark.resolve_left ?_⟩
    · rw [List.contains_iff_mem.2 hmem] at hindicator
      cases hindicator
    · rintro ⟨⟨hdash, hquestion⟩, hcolon⟩
      exact hc.elim hdash fun hc => hc.elim hquestion hcolon

end IsUnquoted

/-- What a text is like that is written in a style. -/
theorem styleOf_spec (s : String) :
    match styleOf s with
    | .plain => IsUnquoted s.toList ∧ isAmbiguous s = false
    | .single => ∀ c ∈ s.toList, isShown c = true ∧ c ≠ '\n'
    | .double => True
    | .block => (∀ c ∈ s.toList, isShown c = true) ∧ '\n' ∈ s.toList ∧
        hasTrailingBlank s.toList = false := by
  unfold styleOf
  by_cases hshown : s.toList.all isShown = true
  · have hall := List.all_eq_true.1 hshown
    by_cases hbreak : '\n' ∈ s.toList
    · have hcontains : s.toList.contains '\n' = true := List.contains_iff_mem.2 hbreak
      by_cases hblank : hasTrailingBlank s.toList = true
      · simp [hshown, hbreak, hblank]
      · simpa [hshown, hbreak, hblank] using hall
    · have hline : ∀ c ∈ s.toList, isShown c = true ∧ c ≠ '\n' := by
        refine fun c hc => ⟨hall c hc, ?_⟩
        rintro rfl
        exact hbreak hc
      by_cases hambiguous : isAmbiguous s = true
      · simpa [hshown, hbreak, hambiguous] using hline
      · by_cases hplain : isPlain s.toList = true
        · simpa [hshown, hbreak, hambiguous, hplain] using (⟨hline, hplain⟩ : IsUnquoted s.toList)
        · simpa [hshown, hbreak, hambiguous, hplain] using hline
  · simp [hshown]

/-! ## Letters and digits -/

/-- Neither letters nor digits mean anything in a document. -/
theorem not_isAlphanum_of_mem : ∀ c ∈ '-' :: '.' :: '?' :: ':' :: ' ' :: '\t' :: '\n' :: indicators,
    c.isAlphanum = false := by
  have hall : ('-' :: '.' :: '?' :: ':' :: ' ' :: '\t' :: '\n' :: indicators).all
      (fun c => !c.isAlphanum) = true := by decide
  intro c hc
  have hc := List.all_eq_true.1 hall c hc
  rwa [Bool.not_eq_true'] at hc

theorem ne_of_isAlphanum {c d : Char} (h : c.isAlphanum = true) (hd : d.isAlphanum = false) :
    c ≠ d := by
  rintro rfl
  rw [hd] at h
  cases h

theorem toNat_of_isAlphanum {c : Char} (h : c.isAlphanum = true) :
    48 ≤ c.toNat ∧ c.toNat ≤ 122 ∧ c.toNat ≠ 0x60 := by
  delta Char.isAlphanum Char.isAlpha Char.isUpper Char.isLower Char.isDigit at h
  simp only [ge_iff_le, Bool.or_eq_true, Bool.and_eq_true, decide_eq_true_eq,
    UInt32.le_iff_toNat_le] at h
  change ((65 ≤ c.toNat ∧ c.toNat ≤ 90) ∨ 97 ≤ c.toNat ∧ c.toNat ≤ 122) ∨
    48 ≤ c.toNat ∧ c.toNat ≤ 57 at h
  omega

theorem isShown_of_isAlphanum {c : Char} (h : c.isAlphanum = true) : isShown c = true := by
  obtain ⟨hlow, hhigh, -⟩ := toNat_of_isAlphanum h
  have hrange : (' ' ≤ c && c ≤ '~') = true := by
    rw [Bool.and_eq_true, decide_eq_true_eq, decide_eq_true_eq, Char.le_def, Char.le_def,
      UInt32.le_iff_toNat_le, UInt32.le_iff_toNat_le]
    exact ⟨Nat.le_trans (by decide) hlow, Nat.le_trans hhigh (by decide)⟩
  rw [isShown, hrange, Bool.or_true, Bool.true_or]

theorem hasIndicator_of_isAlphanum {s : List Char} (h : ∀ c ∈ s, c.isAlphanum = true) :
    hasIndicator s = false := by
  induction s with
  | nil => rfl
  | cons c s ih =>
    obtain ⟨hc, hs⟩ := List.forall_mem_cons.1 h
    rw [hasIndicator]
    · exact ih hs
    · exact fun e => absurd e (ne_of_isAlphanum hc (by decide))
    · exact fun _ e => absurd e (ne_of_isAlphanum hc (by decide))

/-- **Letters and digits need no quotes.** -/
theorem isUnquoted_of_isAlphanum {s : List Char} (hne : s ≠ []) (h : ∀ c ∈ s, c.isAlphanum = true) :
    IsUnquoted s := by
  have hblank {c : Char} (hc : c ∈ s) : c ≠ ' ' := ne_of_isAlphanum (h c hc) (by decide)
  refine ⟨fun c hc => ⟨isShown_of_isAlphanum (h c hc), ne_of_isAlphanum (h c hc) (by decide)⟩, ?_⟩
  have hhead : s.head? ≠ some ' ' := fun e => hblank (List.mem_of_head? e) rfl
  have hlast : s.getLast? ≠ some ' ' := fun e => hblank (List.mem_of_getLast? e) rfl
  have hstart : startsWithIndicator s = false := by
    obtain ⟨c, s, rfl⟩ := List.exists_cons_of_ne_nil hne
    have hc := h c List.mem_cons_self
    have hne {d : Char} (hd : d ∈ '-' :: '.' :: '?' :: ':' :: ' ' :: '\t' :: '\n' :: indicators) :
        c ≠ d := ne_of_isAlphanum hc (not_isAlphanum_of_mem d hd)
    have hcontains : indicators.contains c = false :=
      Bool.eq_false_iff.2 fun e => hne (d := c)
        (by simp [List.contains_iff_mem.1 e]) rfl
    have hquote : (c.toNat == 0x60) = false :=
      beq_eq_false_iff_ne.2 (toNat_of_isAlphanum hc).2.2
    rw [startsWithIndicator]
    · show (indicators.contains c || c.toNat == 0x60 ||
        ((c == '-' || c == '?' || c == ':') && isGap s)) = false
      rw [hcontains, hquote, beq_eq_false_iff_ne.2 (hne (d := '-') (by simp)),
        beq_eq_false_iff_ne.2 (hne (d := '?') (by simp)),
        beq_eq_false_iff_ne.2 (hne (d := ':') (by simp))]
      rfl
    · exact fun _ e => absurd e (hne (by simp))
    · exact fun _ e => absurd e (hne (by simp))
  simp only [isPlain, bne_iff_ne.2 hhead, bne_iff_ne.2 hlast, hstart,
    hasIndicator_of_isAlphanum h, Bool.not_false, Bool.and_self]

end Yaml
end Arbor
