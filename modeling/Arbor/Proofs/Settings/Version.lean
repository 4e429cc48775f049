/-
# The form of versions

A version is right if a pattern is found in it: at the beginning one digit or more, a point, one
digit or more, and then the end.  `Pattern.Takes` says what a pattern takes of a text, and what
stands before and after decides where a text begins and ends.

| pattern | takes | where |
| --- | --- | --- |
| `start`, `finish` | nothing | at the beginning, at the very end |
| `one` | a character of a class | anywhere |
| `seq` | what the first takes, then what the second takes | |
| `many` | what is taken once or more | |

With both ends in it, the pattern of versions leaves nothing out
(`isFoundIn_versionPattern_iff`), and the check for versions looks for just this pattern
(`isVersion_iff`).

Its digits are those of all scripts.  Among ASCII characters they are `0` to `9` and no others
(`isDigit_iff`), so a version in ASCII is right exactly if it is one in the digits `0` to `9`; but
versions in the digits of other scripts are right as well (`exists_version_of_other_digits`).
-/

import Arbor.Proofs.Settings.Findings

namespace Arbor

/-! ## Patterns -/

/-- What is looked for in a text. -/
inductive Pattern
  /-- The beginning of the text. -/
  | start
  /-- The end of the text.  A line break before it is part of the text. -/
  | finish
  /-- A character of a class. -/
  | one (inClass : Char → Bool)
  /-- One thing after another. -/
  | seq (first second : Pattern)
  /-- The same thing once or more. -/
  | many (repeated : Pattern)

namespace Pattern

variable {p q : Pattern} {inClass : Char → Bool} {before taken after : List Char}

/-- `p.Takes before taken after`: of the text `before ++ taken ++ after` the pattern takes the
middle part. -/
inductive Takes : Pattern → List Char → List Char → List Char → Prop
  | start {after : List Char} : Takes .start [] [] after
  | finish {before : List Char} : Takes .finish before [] []
  | one {inClass : Char → Bool} {before after : List Char} {c : Char} (h : inClass c = true) :
    Takes (.one inClass) before [c] after
  | seq {p q : Pattern} {before s t after : List Char} (hp : Takes p before s (t ++ after))
    (hq : Takes q (before ++ s) t after) : Takes (.seq p q) before (s ++ t) after
  | once {p : Pattern} {before s after : List Char} (h : Takes p before s after) :
    Takes (.many p) before s after
  | again {p : Pattern} {before s t after : List Char} (hp : Takes p before s (t ++ after))
    (hmany : Takes (.many p) (before ++ s) t after) : Takes (.many p) before (s ++ t) after

/-- A pattern is found in a text if it takes some part of it. -/
def IsFoundIn (p : Pattern) (text : List Char) : Prop :=
  ∃ before taken after, text = before ++ taken ++ after ∧ p.Takes before taken after

theorem takes_start_iff : Takes .start before taken after ↔ before = [] ∧ taken = [] := by
  constructor
  · rintro ⟨⟩
    exact ⟨rfl, rfl⟩
  · rintro ⟨rfl, rfl⟩
    exact .start

theorem takes_finish_iff : Takes .finish before taken after ↔ taken = [] ∧ after = [] := by
  constructor
  · rintro ⟨⟩
    exact ⟨rfl, rfl⟩
  · rintro ⟨rfl, rfl⟩
    exact .finish

theorem takes_one_iff :
    Takes (.one inClass) before taken after ↔ ∃ c, inClass c = true ∧ taken = [c] := by
  constructor
  · rintro ⟨⟩
    exact ⟨_, ‹_›, rfl⟩
  · rintro ⟨c, hc, rfl⟩
    exact .one hc

theorem takes_seq_iff :
    Takes (.seq p q) before taken after ↔
      ∃ s t, taken = s ++ t ∧ Takes p before s (t ++ after) ∧ Takes q (before ++ s) t after := by
  constructor
  · rintro ⟨⟩
    exact ⟨_, _, rfl, ‹_›, ‹_›⟩
  · rintro ⟨s, t, rfl, hp, hq⟩
    exact .seq hp hq

end Pattern

/-- One character of a class or more, and nothing else. -/
structure IsRun (inClass : Char → Bool) (chars : List Char) : Prop where
  ne_nil : chars ≠ []
  all : ∀ c ∈ chars, inClass c = true

/-- **A class that is taken once or more takes the runs of the class**, wherever they stand. -/
theorem Pattern.takes_many_one_iff {inClass : Char → Bool} {before taken after : List Char} :
    Takes (.many (.one inClass)) before taken after ↔ IsRun inClass taken := by
  constructor
  · intro h
    generalize hp : Pattern.many (.one inClass) = p at h
    induction h with
    | start | finish | one | seq => cases hp
    | once h =>
      cases hp
      obtain ⟨c, hc, rfl⟩ := takes_one_iff.1 h
      exact ⟨List.cons_ne_nil _ _, List.forall_mem_singleton.2 hc⟩
    | again h _ _ ih =>
      cases hp
      obtain ⟨c, hc, rfl⟩ := takes_one_iff.1 h
      exact ⟨List.cons_ne_nil _ _, List.forall_mem_cons.2 ⟨hc, (ih rfl).all⟩⟩
  · rintro ⟨hne, hclass⟩
    induction taken generalizing before with
    | nil => exact absurd rfl hne
    | cons c rest ih =>
      obtain ⟨hc, hrest⟩ := List.forall_mem_cons.1 hclass
      cases rest with
      | nil => exact .once (.one hc)
      | cons d rest => exact .again (s := [c]) (.one hc) (ih (List.cons_ne_nil _ _) hrest)

/-! ## Digits -/

namespace Text

/-- Apart from those from `0` to `9` no decimal digit is ASCII. -/
theorem le_of_mem_decimalDigitRuns :
    ∀ r ∈ decimalDigitRuns, r = (0x30, 10) ∨ 128 ≤ r.1 := by
  decide

/-- **The decimal digits in ASCII are those from `0` to `9`.** -/
theorem isDigit_iff {c : Char} :
    c.isDigit = true ↔ isDecimalDigit c = true ∧ c.toNat < 128 := by
  rw [Char.isDigit_iff_toNat, isDecimalDigit, List.any_eq_true]
  show 48 ≤ c.toNat ∧ c.toNat ≤ 57 ↔ _
  constructor
  · rintro ⟨hlow, hhigh⟩
    exact ⟨⟨(0x30, 10), List.mem_cons_self, by simp; omega⟩, by omega⟩
  · rintro ⟨⟨r, hr, hc⟩, hascii⟩
    rw [Bool.and_eq_true, decide_eq_true_eq, decide_eq_true_eq] at hc
    rcases le_of_mem_decimalDigitRuns r hr with rfl | hforeign
    · omega
    · omega

end Text

/-- A run of digits, a point and a run of digits. -/
def IsVersionOf (digit : Char → Bool) (chars : List Char) : Prop :=
  ∃ major minor, chars = major ++ '.' :: minor ∧ IsRun digit major ∧ IsRun digit minor

/-- A version whose digits are of another class too is a version of that class. -/
theorem IsVersionOf.imp {digit digit' : Char → Bool} {chars : List Char}
    (h : IsVersionOf digit chars) (himp : ∀ d ∈ chars, digit d = true → digit' d = true) :
    IsVersionOf digit' chars := by
  obtain ⟨major, minor, rfl, hmajor, hminor⟩ := h
  obtain ⟨himpMajor, htail⟩ := List.forall_mem_append.1 himp
  obtain ⟨-, himpMinor⟩ := List.forall_mem_cons.1 htail
  exact ⟨major, minor, rfl,
    ⟨hmajor.ne_nil, fun d hd => himpMajor d hd (hmajor.all d hd)⟩,
    hminor.ne_nil, fun d hd => himpMinor d hd (hminor.all d hd)⟩

/-- **Versions in the digits from `0` to `9` are the versions in ASCII.** -/
theorem isVersionOf_isDigit_iff {chars : List Char} :
    IsVersionOf Char.isDigit chars ↔
      IsVersionOf Text.isDecimalDigit chars ∧ ∀ c ∈ chars, c.toNat < 128 := by
  constructor
  · intro h
    refine ⟨h.imp fun d _ hd => (Text.isDigit_iff.1 hd).1, ?_⟩
    obtain ⟨major, minor, rfl, hmajor, hminor⟩ := h
    exact List.forall_mem_append.2 ⟨fun d hd => (Text.isDigit_iff.1 (hmajor.all d hd)).2,
      List.forall_mem_cons.2 ⟨by decide,
        fun d hd => (Text.isDigit_iff.1 (hminor.all d hd)).2⟩⟩
  · rintro ⟨h, hascii⟩
    exact h.imp fun d hd hdigit => Text.isDigit_iff.2 ⟨hdigit, hascii d hd⟩

/-! ## The pattern of versions -/

/-- From the beginning digits, a point, and digits up to the end. -/
def versionPattern : Pattern :=
  .seq .start (.seq (.many (.one Text.isDecimalDigit)) (.seq (.one (· == '.'))
    (.seq (.many (.one Text.isDecimalDigit)) .finish)))

/-- **The pattern is found in versions**, with nothing before, between or after. -/
theorem isFoundIn_versionPattern_iff {text : List Char} :
    versionPattern.IsFoundIn text ↔ IsVersionOf Text.isDecimalDigit text := by
  simp only [versionPattern, Pattern.IsFoundIn, Pattern.takes_seq_iff, Pattern.takes_start_iff,
    Pattern.takes_finish_iff, Pattern.takes_one_iff, Pattern.takes_many_one_iff]
  constructor
  · rintro ⟨_, _, _, rfl, _, _, rfl, ⟨rfl, rfl⟩, major, _, rfl, hmajor, _, _, rfl,
      ⟨point, hpoint, rfl⟩, minor, _, rfl, hminor, rfl, rfl⟩
    obtain rfl := eq_of_beq hpoint
    exact ⟨major, minor, by simp, hmajor, hminor⟩
  · rintro ⟨major, minor, rfl, hmajor, hminor⟩
    exact ⟨[], major ++ '.' :: minor, [], by simp, [], _, rfl, ⟨rfl, rfl⟩, major, _, rfl, hmajor,
      ['.'], minor, rfl, ⟨'.', rfl, rfl⟩, minor, [], by simp, hminor, rfl, rfl⟩

namespace Settings

theorem isDigits_iff {chars : List Char} :
    isDigits chars = true ↔ IsRun Text.isDecimalDigit chars := by
  rw [isDigits, Bool.and_eq_true, Bool.not_eq_true', List.isEmpty_eq_false_iff, List.all_eq_true]
  exact ⟨fun h => ⟨h.1, h.2⟩, fun h => ⟨h.ne_nil, h.all⟩⟩

/-- **The check for versions looks for the pattern.** -/
theorem isVersion_iff {version : String} :
    isVersion version = true ↔ versionPattern.IsFoundIn version.toList := by
  rw [isFoundIn_versionPattern_iff, isVersion]
  simp only [Bool.and_eq_true, isDigits_iff]
  constructor
  · rintro ⟨hmajor, hrest⟩
    split at hrest
    · next minor hminor =>
      refine ⟨_, minor, ?_, hmajor, isDigits_iff.1 hrest⟩
      rw [← hminor, List.takeWhile_append_dropWhile]
    · exact absurd hrest (by simp)
  · rintro ⟨major, minor, hversion, hmajor, hminor⟩
    have hpoint : Text.isDecimalDigit '.' = false := by decide
    rw [hversion, List.takeWhile_append_of_pos hmajor.all,
      List.dropWhile_append_of_pos hmajor.all, List.takeWhile_cons_of_neg (by simp [hpoint]),
      List.dropWhile_cons_of_neg (by simp [hpoint]), List.append_nil]
    exact ⟨hmajor, isDigits_iff.2 hminor⟩

/-! ## Errors -/

/-- The path of the version. -/
def versionPath : String := "protocol.expectedVersion"

/-- The errors about the field with a path. -/
def errorsAt (c : Settings) (path : String) : List Finding :=
  c.findings.errors.filter fun f => f.path = path

theorem filter_ifSet_eq_nil {α : Type} {x : Option α} {g : α → List Finding} {path : String}
    (h : ∀ a, ∀ f ∈ g a, f.path ≠ path) : ((ifSet x g).filter fun f => f.path = path) = [] := by
  rw [List.filter_eq_nil_iff]
  cases x with
  | none => exact fun f hf => absurd hf List.not_mem_nil
  | some a => exact fun f hf => by simpa using h a f hf

/-- Errors about other fields have other paths. -/
theorem path_ne_versionPath :
    (∀ interval, ∀ f ∈ intervalErrors interval, f.path ≠ versionPath) ∧
      ∀ level, ∀ f ∈ levelErrors level, f.path ≠ versionPath := by
  constructor
  · intro interval f hf
    unfold intervalErrors at hf
    split at hf
    · rw [List.mem_singleton.1 hf]
      decide
    · exact absurd hf List.not_mem_nil
  · intro level f hf
    unfold levelErrors at hf
    split at hf
    · exact absurd hf List.not_mem_nil
    · rw [List.mem_singleton.1 hf]
      show "logging.level" ≠ versionPath
      decide

/-- **Errors about the version come from the check for versions.** -/
theorem errorsAt_version {c : Settings} {version : String}
    (h : c.field? .version = some version) : c.errorsAt versionPath = versionErrors version := by
  have hversion : ((versionErrors version).filter fun f => f.path = versionPath) =
      versionErrors version := by
    unfold versionErrors
    split <;> rfl
  obtain ⟨hinterval, hlevel⟩ := path_ne_versionPath
  rw [errorsAt, findings_eq, List.filter_append, List.filter_append,
    filter_ifSet_eq_nil hinterval, filter_ifSet_eq_nil hlevel, h, ifSet, hversion,
    List.append_nil, List.append_nil]

theorem versionErrors_ne_nil_iff {version : String} :
    versionErrors version ≠ [] ↔ ¬versionPattern.IsFoundIn version.toList := by
  rw [← isVersion_iff, versionErrors]
  split
  · next h => simp [h]
  · next h => simp [h]

theorem message_of_mem_versionErrors {version : String} {f : Finding}
    (h : f ∈ versionErrors version) :
    f.message = s!"'{version}' is not of the form <major>.<minor>" := by
  unfold versionErrors at h
  split at h
  · exact absurd h List.not_mem_nil
  · rw [List.mem_singleton.1 h]

/-- **Which versions are refused.**  There is an error about the version exactly if the pattern of
versions is not found in it, that is, if it is not two runs of decimal digits of any script with a
point between them; the error quotes the version.  A version in ASCII digits is such a version in
ASCII.  So a version that has no digits of other scripts is refused exactly if it is not two runs of
the digits `0` to `9` with a point between them. -/
theorem version_refused_iff {c : Settings} {version : String}
    (h : c.field? .version = some version) :
    (c.errorsAt versionPath ≠ [] ↔ ¬versionPattern.IsFoundIn version.toList) ∧
      (versionPattern.IsFoundIn version.toList ↔
        IsVersionOf Text.isDecimalDigit version.toList) ∧
      (∀ f ∈ c.errorsAt versionPath,
        f.message = s!"'{version}' is not of the form <major>.<minor>") ∧
      (IsVersionOf Char.isDigit version.toList ↔
        IsVersionOf Text.isDecimalDigit version.toList ∧ ∀ d ∈ version.toList, d.toNat < 128) ∧
      ((∀ d ∈ version.toList, Text.isDecimalDigit d = true → d.isDigit = true) →
        (c.errorsAt versionPath ≠ [] ↔ ¬IsVersionOf Char.isDigit version.toList)) := by
  rw [errorsAt_version h]
  refine ⟨versionErrors_ne_nil_iff, isFoundIn_versionPattern_iff,
    fun f => message_of_mem_versionErrors, isVersionOf_isDigit_iff, fun hdigits => ?_⟩
  rw [versionErrors_ne_nil_iff, isFoundIn_versionPattern_iff, not_iff_not]
  exact ⟨fun hversion => hversion.imp hdigits,
    fun hversion => (isVersionOf_isDigit_iff.1 hversion).1⟩

/-- Settings that expect a version, with nothing else set. -/
def expecting (version : String) : Settings := ⟨some ⟨some version⟩, none, none, none⟩

theorem not_isVersionOf_arabic : ¬IsVersionOf Char.isDigit "\u0661.\u0664".toList := fun h =>
  absurd ((isVersionOf_isDigit_iff.1 h).2 '\u0661' (by decide)) (by decide)

/-- A line break after a version is an error, and the error quotes it.  Arabic digits are found by
the pattern. -/
theorem version_refused_trailingBreak :
    ¬versionPattern.IsFoundIn "1.4\n".toList ∧ ¬IsVersionOf Char.isDigit "1.4\n".toList ∧
      (expecting "1.4\n").errorsAt versionPath =
        [⟨versionPath, "'1.4\n' is not of the form <major>.<minor>"⟩] ∧
      (expecting "1.4").errorsAt versionPath = [] ∧
      versionPattern.IsFoundIn "\u0661.\u0664".toList := by
  obtain ⟨hpattern, -, -, -, hversion⟩ := version_refused_iff (c := expecting "1.4\n") rfl
  obtain ⟨-, -, -, -, hplain⟩ := version_refused_iff (c := expecting "1.4") rfl
  obtain ⟨harabic, -, -, -, -⟩ := version_refused_iff (c := expecting "\u0661.\u0664") rfl
  have hascii {version : String} (h : version.toList.all (·.toNat < 128) = true) :
      ∀ d ∈ version.toList, Text.isDecimalDigit d = true → d.isDigit = true := fun d hd hdecimal =>
    Text.isDigit_iff.2 ⟨hdecimal, of_decide_eq_true (List.all_eq_true.1 h d hd)⟩
  have hrefused : (expecting "1.4\n").errorsAt versionPath =
      [⟨versionPath, "'1.4\n' is not of the form <major>.<minor>"⟩] := by decide +kernel
  have hne : (expecting "1.4\n").errorsAt versionPath ≠ [] := by rw [hrefused]; simp
  have hright : IsVersionOf Char.isDigit "1.4".toList :=
    ⟨['1'], ['4'], rfl, ⟨List.cons_ne_nil _ _, List.forall_mem_singleton.2 rfl⟩,
      List.cons_ne_nil _ _, List.forall_mem_singleton.2 rfl⟩
  refine ⟨hpattern.1 hne, (hversion (hascii rfl)).1 hne, hrefused, ?_, ?_⟩
  · exact not_not.1 fun h => (hplain (hascii rfl)).1 h hright
  · exact not_not.1 fun h => harabic.2 h (by decide +kernel)

/-- **A version in the digits of another script is not refused.** -/
theorem exists_version_of_other_digits :
    ¬∀ (c : Settings) (version : String), c.field? .version = some version →
      (c.errorsAt versionPath ≠ [] ↔ ¬IsVersionOf Char.isDigit version.toList) := by
  intro hall
  have hrefused := (hall (expecting "\u0661.\u0664") _ rfl).2 not_isVersionOf_arabic
  exact absurd (by decide +kernel) hrefused

end Settings
end Arbor
