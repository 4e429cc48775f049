/-
# Escapes in quoted literals

Between the quotes the reader takes one of three items at a time: a byte that stands for itself, a
backslash with a letter, or `\x` with two hexadecimal digits.  `unescape_plain`, `unescape_letter`
and `unescape_hex` are these steps, and `unescape_cons_eq_ok` says that there are no others.  What
the writer puts for a byte is one such item for that byte (`unescape_escapeByte`).
-/

import Arbor.Literal.Text
import Arbor.Proofs.Result
import Mathlib.Tactic.SplitIfs

namespace Arbor
namespace Literal

/-! ## One item -/

variable {b e high low byte : UInt8} {rest bytes : List UInt8}

theorem unescape_plain (hb : b ≠ 0x5C) (hq : b ≠ 0x22) :
    unescape (b :: rest) = (unescape rest).map (b :: ·) := by
  rw [unescape.eq_def]
  simp only [if_neg hb, if_neg hq]

theorem unescape_letter (he : e ≠ 0x78) (h : simpleEscape? e = some byte) :
    unescape (0x5C :: e :: rest) = (unescape rest).map (byte :: ·) := by
  rw [unescape.eq_def]
  simp only [if_pos, if_neg he, h]

theorem unescape_hex (h : hexPair? high low = some byte) :
    unescape (0x5C :: 0x78 :: high :: low :: rest) = (unescape rest).map (byte :: ·) := by
  rw [unescape.eq_def]
  simp only [if_pos, h]

/-- What stands between the quotes of a literal begins with one of the three items. -/
theorem unescape_cons_eq_ok (h : unescape (b :: rest) = .ok bytes) :
    (b ≠ 0x5C ∧ b ≠ 0x22 ∧ ∃ bs, unescape rest = .ok bs ∧ bytes = b :: bs) ∨
    (∃ e byte rest' bs, b = 0x5C ∧ rest = e :: rest' ∧ e ≠ 0x78 ∧ simpleEscape? e = some byte ∧
      unescape rest' = .ok bs ∧ bytes = byte :: bs) ∨
    (∃ high low byte rest' bs, b = 0x5C ∧ rest = 0x78 :: high :: low :: rest' ∧
      hexPair? high low = some byte ∧ unescape rest' = .ok bs ∧ bytes = byte :: bs) := by
  rw [unescape.eq_def] at h
  dsimp only at h
  split_ifs at h with hb hq
  · split at h
    · exact absurd h (by simp)
    · next e rest' =>
      split_ifs at h with he
      · split at h
        · next high low rest'' =>
          split at h
          · next byte hx =>
            obtain ⟨bs, hbs, rfl⟩ := map_eq_ok_iff.1 h
            exact Or.inr (Or.inr ⟨high, low, byte, rest'', bs, hb, by rw [he], hx, hbs, rfl⟩)
          · exact absurd h (by simp)
        · exact absurd h (by simp)
      · split at h
        · next byte hx =>
          obtain ⟨bs, hbs, rfl⟩ := map_eq_ok_iff.1 h
          exact Or.inr (Or.inl ⟨e, byte, rest', bs, hb, rfl, he, hx, hbs, rfl⟩)
        · exact absurd h (by simp)
  · obtain ⟨bs, hbs, rfl⟩ := map_eq_ok_iff.1 h
    exact Or.inl ⟨hb, hq, bs, hbs, rfl⟩

/-! ## What the writer puts for a byte -/

theorem hexValue?_hexByte : ∀ n < 16, Text.hexValue? (hexByte n).toNat = some n := by
  decide

theorem hexByte_lt : ∀ n < 16, (hexByte n).toNat < 128 := by
  decide

theorem hexPair?_hexByte (b : UInt8) :
    hexPair? (hexByte (b.toNat / 16)) (hexByte (b.toNat % 16)) = some b := by
  have hb := b.toNat_lt
  rw [hexPair?, hexValue?_hexByte _ (by omega), hexValue?_hexByte _ (by omega)]
  simp only [show b.toNat / 16 * 16 + b.toNat % 16 = b.toNat by omega, UInt8.ofNat_toNat]

/-- **An escaped byte is read as that byte.** -/
theorem unescape_escapeByte (b : UInt8) (rest : List UInt8) :
    unescape (escapeByte b ++ rest) = (unescape rest).map (b :: ·) := by
  unfold escapeByte
  split_ifs with h₁ h₂ h₃ h₄ h₅ h₆
  · exact unescape_letter (by decide) (by rw [h₁]; decide)
  · exact unescape_letter (by decide) (by rw [h₂]; decide)
  · exact unescape_letter (by decide) (by rw [h₃]; decide)
  · exact unescape_letter (by decide) (by rw [h₄]; decide)
  · exact unescape_letter (by decide) (by rw [h₅]; decide)
  · exact unescape_plain h₂ h₁
  · exact unescape_hex (hexPair?_hexByte b)

theorem unescape_flatMap_escapeByte (bytes : List UInt8) :
    unescape (bytes.flatMap escapeByte) = .ok bytes := by
  induction bytes with
  | nil => rw [List.flatMap_nil, unescape]
  | cons b rest ih =>
    rw [List.flatMap_cons, unescape_escapeByte, ih]
    rfl

/-- Escapes are ASCII. -/
theorem toNat_lt_of_mem_escapeByte (h : e ∈ escapeByte b) : e.toNat < 128 := by
  have hb := b.toNat_lt
  unfold escapeByte at h
  split_ifs at h with h₁ h₂ h₃ h₄ h₅ h₆ <;>
    simp only [List.mem_cons, List.not_mem_nil, or_false] at h
  · rcases h with rfl | rfl <;> decide
  · rcases h with rfl | rfl <;> decide
  · rcases h with rfl | rfl <;> decide
  · rcases h with rfl | rfl <;> decide
  · rcases h with rfl | rfl <;> decide
  · subst h
    exact Nat.lt_of_le_of_lt (UInt8.le_iff_toNat_le.1 h₆.2) (by decide)
  · rcases h with rfl | rfl | rfl | rfl
    · decide
    · decide
    · exact hexByte_lt _ (by omega)
    · exact hexByte_lt _ (by omega)

end Literal
end Arbor
