/-
# Literals that have a text

| literal | has a text | the remote side can compare with it |
| --- | --- | --- |
| boolean | yes | yes |
| integer | within 32 bits | within 32 bits |
| text | yes | if it is ASCII |
| value | no | no |

`HasText` is the second column; it has nothing to do with the writer, which writes just these
literals (`exists_write_iff`).  The reader reads no others (`hasText_of_read`), so whatever text a
literal is read from, it can be written, and what is written then is written again as it is
(`rewritten?_of_read`).
-/

import Arbor.Proofs.Literal.Canonical

namespace Arbor
namespace Literal

/-- A boolean, a text, or an integer of 32 bits. -/
def HasText : Literal → Prop
  | .bool _ | .text _ => True
  | .int i => -2147483648 ≤ i.toInt ∧ i.toInt ≤ 2147483647
  | .value _ => False

theorem hasText_int_iff {i : Int64} : HasText (.int i) ↔ Json.inInt32 i.toInt = true := by
  rw [HasText, Json.inInt32, Bool.and_eq_true, decide_eq_true_eq, decide_eq_true_eq]
  omega

/-! ## Writing -/

/-- **These literals are written, and no others.** -/
theorem exists_write_iff {l : Literal} : (∃ t, l.write = .ok t) ↔ l.HasText := by
  cases l with
  | bool b => exact iff_of_true ⟨_, rfl⟩ trivial
  | text s => exact iff_of_true ⟨_, rfl⟩ trivial
  | value v => exact iff_of_false (fun ⟨t, h⟩ => absurd h (by simp [write])) id
  | int i =>
    rw [hasText_int_iff, write]
    constructor
    · rintro ⟨t, h⟩
      split at h
      · next hi => exact hi
      · exact absurd h (by simp)
    · intro hi
      exact ⟨_, if_pos hi⟩

/-- What the remote side can compare with has a text. -/
theorem hasText_of_isSendable {l : Literal} (h : l.isSendable = true) : l.HasText := by
  cases l with
  | bool b => trivial
  | text s => trivial
  | int i => exact hasText_int_iff.2 h
  | value v => exact absurd h (by simp [isSendable])

/-! ## Reading -/

/-- Integers that are read have 32 bits. -/
theorem inInt32_of_readInt {t : String} {i : Int64} (h : readInt t = .ok i) :
    Json.inInt32 i.toInt = true := by
  unfold readInt at h
  dsimp only at h
  -- the number with its sign, whatever the digits are
  generalize (if (splitSign t.toList).1 = true then -(Text.natOfDigits (splitSign t.toList).2 : Int)
    else Text.natOfDigits (splitSign t.toList).2) = j at h
  split_ifs at h with hdigits hrange hj
  obtain rfl := Except.ok.inj h
  rw [not_or] at hrange
  rw [Int64.toInt_ofInt_of_le (by omega) (by omega)]
  exact hj

/-- **No other literals are read.** -/
theorem hasText_of_read {t : String} {l : Literal} (h : read t = .ok l) : l.HasText := by
  unfold read at h
  split_ifs at h
  · obtain rfl := Except.ok.inj h
    trivial
  · obtain rfl := Except.ok.inj h
    trivial
  · obtain ⟨s, -, rfl⟩ := map_eq_ok_iff.1 h
    trivial
  · obtain ⟨i, hi, rfl⟩ := map_eq_ok_iff.1 h
    exact hasText_int_iff.2 (inInt32_of_readInt hi)

/-! ## Writing what was read -/

/-- The text that is written for what a text stands for. -/
def rewritten? (t : String) : Option String :=
  (read t).toOption.bind fun l => l.write.toOption

theorem rewritten?_of_read {t u : String} {l : Literal} (hread : read t = .ok l)
    (hwrite : l.write = .ok u) : rewritten? t = some u := by
  rw [rewritten?, toOption_eq_some_iff.2 hread, Option.bind_some, toOption_eq_some_iff.2 hwrite]

/-- **Literals and their texts.**  A literal has a text exactly if it is a boolean, a text or an
integer of 32 bits.  All that is written is printable and read as the literal it was written for;
what the remote side can compare with can be written; and from whatever text a literal is read, it
can be written, and what is written then does not change when it is read and written again. -/
theorem hasText_iff_and_rewritten (l : Literal) :
    ((∃ t, l.write = .ok t) ↔ l.HasText) ∧
      (∀ t, l.write = .ok t → (∀ c ∈ t.toList, IsPrintable c) ∧ read t = .ok l) ∧
      (l.isSendable = true → ∃ t, l.write = .ok t) ∧
      ∀ u, read u = .ok l →
        ∃ t, l.write = .ok t ∧ rewritten? u = some t ∧ rewritten? t = some t := by
  refine ⟨exists_write_iff, fun t ht => ?_, fun h => ?_, fun u hu => ?_⟩
  · exact ⟨(canonical_of_write ht).printable, read_write ht⟩
  · exact exists_write_iff.2 (hasText_of_isSendable h)
  · obtain ⟨t, ht⟩ := exists_write_iff.2 (hasText_of_read hu)
    exact ⟨t, ht, rewritten?_of_read hu ht, rewritten?_of_read (read_write ht) ht⟩

/-- A text may be written in many ways and is rewritten in one: the escapes of a newline and of the
letter `A` by hexadecimal digits become the short escape and the letter.  An integer beyond 32 bits
has no text. -/
theorem rewritten_hexNewline :
    (∃ t, (text "A\nß").write = .ok t) ∧ (text "A\nß").isSendable = false ∧
      rewritten? "\"\\x41\\x0aß\"" = some "\"A\\n\\xc3\\x9f\"" ∧
      rewritten? "\"A\\n\\xc3\\x9f\"" = some "\"A\\n\\xc3\\x9f\"" ∧
      ¬∃ t, (int 2147483648).write = .ok t := by
  have htext := hasText_iff_and_rewritten (text "A\nß")
  have hread : read "\"\\x41\\x0aß\"" = .ok (text "A\nß") :=
    toOption_eq_some_iff.1 (by decide +kernel)
  obtain ⟨t, ht, hrewritten, hagain⟩ := htext.2.2.2 _ hread
  obtain rfl : t = "\"A\\n\\xc3\\x9f\"" :=
    Option.some.inj (hrewritten.symm.trans (by decide +kernel))
  refine ⟨htext.1.2 trivial, by decide +kernel, hrewritten, hagain, fun hwide => ?_⟩
  exact absurd ((hasText_iff_and_rewritten (int 2147483648)).1.1 hwide).2 (by decide)

end Literal
end Arbor
