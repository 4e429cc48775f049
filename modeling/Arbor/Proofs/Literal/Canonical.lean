/-
# The form of literals

What the writer of literals writes, without the writer:

| literal | text |
| --- | --- |
| boolean | `True`, `False` |
| integer | a decimal of 32 bits with a sign: no leading zeros, a minus sign before a negative one |
| text | items in quotes |

An item is a printable character other than a quote and a backslash, one of five escapes of a
backslash and a letter, or `\x` and two hexadecimal digits (`IsItem`).  Whatever bytes a text has,
each gives one item (`isItem_escapeByte`), so that no quote but the last stands without a backslash,
and all that is written is printable (`canonical_of_write`, `Canonical.printable`).
-/

import Arbor.Proofs.Literal.RoundTrip

namespace Arbor

/-- A character that ASCII has and that can be seen, or a blank. -/
def IsPrintable (c : Char) : Prop := ' ' ≤ c ∧ c ≤ '~'

instance (c : Char) : Decidable (IsPrintable c) := inferInstanceAs (Decidable (_ ∧ _))

theorem isPrintable_iff {c : Char} : IsPrintable c ↔ 32 ≤ c.toNat ∧ c.toNat ≤ 126 := Iff.rfl

theorem forall_isPrintable_of_all {chars : List Char}
    (h : chars.all (fun c => IsPrintable c) = true) : ∀ c ∈ chars, IsPrintable c :=
  fun c hc => of_decide_eq_true (List.all_eq_true.1 h c hc)

theorem IsPrintable.of_isDigit {c : Char} (h : c.isDigit = true) : IsPrintable c := by
  have hdigit : 48 ≤ c.toNat ∧ c.toNat ≤ 57 := Char.isDigit_iff_toNat.1 h
  exact isPrintable_iff.2 (by omega)

namespace Literal

/-! ## Integers -/

/-- Decimal digits without leading zeros. -/
structure IsDecimal (chars : List Char) : Prop where
  ne_nil : chars ≠ []
  isDigit : ∀ c ∈ chars, c.isDigit = true
  leading : chars.head? = some '0' → chars = ['0']

/-- An integer of 32 bits with a sign. -/
inductive IsInt32 : List Char → Prop
  | nonneg {digits : List Char} : IsDecimal digits → Text.natOfDigits digits < 0x80000000 →
      IsInt32 digits
  | neg {digits : List Char} : IsDecimal digits → 0 < Text.natOfDigits digits →
      Text.natOfDigits digits ≤ 0x80000000 → IsInt32 ('-' :: digits)

theorem digitChar_ne_zero : ∀ n < 10, 0 < n → Nat.digitChar n ≠ '0' := by
  decide

/-- The digits of a positive number do not begin with a zero. -/
theorem head?_toDigits_ne {n : Nat} (h : 0 < n) : (Nat.toDigits 10 n).head? ≠ some '0' := by
  induction n using Nat.strongRecOn with
  | ind n ih =>
    by_cases hn : n < 10
    · rw [Nat.toDigits_of_lt_base hn]
      exact fun e => digitChar_ne_zero n hn h (Option.some.inj e)
    · have hbefore := ih (n / 10) (by omega) (by omega)
      have hne : Nat.toDigits 10 (n / 10) ≠ [] := Nat.toDigits_ne_nil
      obtain ⟨c, rest, hcons⟩ := List.exists_cons_of_ne_nil hne
      rw [Nat.toDigits_of_base_le (by decide) (by omega)]
      rw [hcons] at hbefore ⊢
      exact hbefore

theorem isDecimal_toDigits (n : Nat) : IsDecimal (Nat.toDigits 10 n) where
  ne_nil := Nat.toDigits_ne_nil
  isDigit _ := isDigit_of_mem_toDigits
  leading h := by
    rcases Nat.eq_zero_or_pos n with rfl | hn
    · rfl
    · exact absurd h (head?_toDigits_ne hn)

theorem isInt32_toString {i : Int} (h : Json.inInt32 i = true) :
    IsInt32 (toString i).toList := by
  have hrange : -0x80000000 ≤ i ∧ i < 0x80000000 := by
    simpa [Json.inInt32] using h
  have hvalue := natOfDigits_toDigits i.natAbs
  rw [toList_toString]
  split
  · exact .nonneg (isDecimal_toDigits _) (by omega)
  · exact .neg (isDecimal_toDigits _) (by omega) (by omega)

/-! ## Texts -/

/-- A hexadecimal digit in lower case. -/
def IsHexDigit (c : Char) : Prop := '0' ≤ c ∧ c ≤ '9' ∨ 'a' ≤ c ∧ c ≤ 'f'

instance (c : Char) : Decidable (IsHexDigit c) := inferInstanceAs (Decidable (_ ∨ _))

/-- What stands between quotes comes in items. -/
inductive IsItem : List Char → Prop
  | plain {c : Char} : IsPrintable c → c ≠ '"' → c ≠ '\\' → IsItem [c]
  | letter {c : Char} : c ∈ ['"', '\\', 'n', 'r', 't'] → IsItem ['\\', c]
  | hex {high low : Char} : IsHexDigit high → IsHexDigit low → IsItem ['\\', 'x', high, low]

theorem isHexDigit_hexByte : ∀ n < 16, IsHexDigit (asciiChar (hexByte n)) := by
  decide

/-- **Every byte of a text is written as one item.** -/
theorem isItem_escapeByte (b : UInt8) : IsItem ((escapeByte b).map asciiChar) := by
  have hb := b.toNat_lt
  unfold escapeByte
  split_ifs with hquote hbackslash _ _ _ hplain
  · exact IsItem.letter (c := '"') (by decide)
  · exact IsItem.letter (c := '\\') (by decide)
  · exact IsItem.letter (c := 'n') (by decide)
  · exact IsItem.letter (c := 'r') (by decide)
  · exact IsItem.letter (c := 't') (by decide)
  · have hlow : 0x20 ≤ b.toNat := UInt8.le_iff_toNat_le.1 hplain.1
    have hhigh : b.toNat ≤ 0x7E := UInt8.le_iff_toNat_le.1 hplain.2
    have hchar : (asciiChar b).toNat = b.toNat := toNat_asciiChar (by omega)
    refine .plain (isPrintable_iff.2 (by omega)) (fun e => hquote ?_) (fun e => hbackslash ?_)
    · exact UInt8.toNat_inj.1 (hchar.symm.trans (congrArg Char.toNat e))
    · exact UInt8.toNat_inj.1 (hchar.symm.trans (congrArg Char.toNat e))
  · exact .hex (isHexDigit_hexByte _ (by omega)) (isHexDigit_hexByte _ (by omega))

/-- A text in quotes. -/
def IsQuoted (chars : List Char) : Prop :=
  ∃ items : List (List Char), (∀ item ∈ items, IsItem item) ∧ chars = '"' :: items.flatten ++ ['"']

theorem isQuoted_quote (s : String) : IsQuoted (quote s).toList := by
  refine ⟨(Text.Utf8.encode s.toList).map fun b => (escapeByte b).map asciiChar, ?_, ?_⟩
  · intro item hitem
    obtain ⟨b, -, rfl⟩ := List.mem_map.1 hitem
    exact isItem_escapeByte b
  · rw [quote, String.toList_ofList, List.map_flatMap, List.flatMap_def]

/-! ## All literals -/

/-- The form of a literal. -/
def Canonical (chars : List Char) : Prop :=
  chars = "True".toList ∨ chars = "False".toList ∨ IsInt32 chars ∨ IsQuoted chars

/-- **What is written of a literal has the form of one.** -/
theorem canonical_of_write {l : Literal} {t : String} (h : l.write = .ok t) :
    Canonical t.toList := by
  cases l with
  | bool b =>
    obtain rfl := Except.ok.inj h
    cases b
    · exact Or.inr (Or.inl rfl)
    · exact Or.inl rfl
  | int i =>
    rw [write] at h
    split at h
    · next hi =>
      obtain rfl := Except.ok.inj h
      exact Or.inr (Or.inr (Or.inl (isInt32_toString hi)))
    · exact absurd h (by simp)
  | text s =>
    obtain rfl := Except.ok.inj h
    exact Or.inr (Or.inr (Or.inr (isQuoted_quote s)))
  | value v => exact absurd h (by simp [write])

theorem IsItem.printable {item : List Char} (h : IsItem item) : ∀ c ∈ item, IsPrintable c := by
  have hhex : ∀ {c : Char}, IsHexDigit c → IsPrintable c := by
    rintro c (⟨hlow, hhigh⟩ | ⟨hlow, hhigh⟩)
    · exact ⟨Nat.le_trans (by decide) hlow, Nat.le_trans hhigh (by decide)⟩
    · exact ⟨Nat.le_trans (by decide) hlow, Nat.le_trans hhigh (by decide)⟩
  cases h with
  | plain hc _ _ => simpa using hc
  | letter hc =>
    have hletters : ['"', '\\', 'n', 'r', 't'].all (fun d => IsPrintable d) = true := by decide
    exact List.forall_mem_cons.2 ⟨by decide,
      List.forall_mem_singleton.2 (forall_isPrintable_of_all hletters _ hc)⟩
  | hex hhigh hlow =>
    exact List.forall_mem_cons.2 ⟨by decide, List.forall_mem_cons.2 ⟨by decide,
      List.forall_mem_cons.2 ⟨hhex hhigh, List.forall_mem_singleton.2 (hhex hlow)⟩⟩⟩

theorem IsInt32.printable {chars : List Char} (h : IsInt32 chars) :
    ∀ c ∈ chars, IsPrintable c := by
  cases h with
  | nonneg hdigits _ => exact fun c hc => .of_isDigit (hdigits.isDigit c hc)
  | neg hdigits _ _ =>
    exact List.forall_mem_cons.2 ⟨by decide, fun c hc => .of_isDigit (hdigits.isDigit c hc)⟩

/-- Literals are printable. -/
theorem Canonical.printable {chars : List Char} (h : Canonical chars) :
    ∀ c ∈ chars, IsPrintable c := by
  rcases h with rfl | rfl | h | ⟨items, hitems, rfl⟩
  · exact forall_isPrintable_of_all (by decide)
  · exact forall_isPrintable_of_all (by decide)
  · exact h.printable
  · intro c hc
    rcases List.mem_append.1 hc with hc | hc
    · rcases List.mem_cons.1 hc with rfl | hc
      · decide
      · obtain ⟨item, hitem, hc⟩ := List.mem_flatten.1 hc
        exact (hitems item hitem).printable c hc
    · obtain rfl := List.mem_singleton.1 hc
      decide

end Literal
end Arbor
