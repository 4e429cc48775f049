/-
# Literals, written and read

`read_write`: the reader takes back what the writer writes, for booleans, integers of 32 bits and
texts of any characters.

Escapes are ASCII, so that their bytes stand for themselves as characters
(`encode_map_asciiChar`), and a quoted text is read as that text (`readText_quote`).  The digits of
a number denote that number (`readInt_toString`).
-/

import Arbor.Proofs.Literal.Escape
import Arbor.Proofs.Text.Utf8

namespace Arbor
namespace Literal

/-! ## Texts -/

theorem toNat_asciiChar {b : UInt8} (h : b.toNat < 128) : (asciiChar b).toNat = b.toNat :=
  Text.Utf8.toNat_ofNat_of_isValidChar (Or.inl (by omega))

/-- Bytes below 128 stand for themselves as characters. -/
theorem encode_map_asciiChar {bytes : List UInt8} (h : ∀ b ∈ bytes, b.toNat < 128) :
    Text.Utf8.encode (bytes.map asciiChar) = bytes := by
  induction bytes with
  | nil => rfl
  | cons b rest ih =>
    have hb := h b List.mem_cons_self
    rw [List.map_cons, Text.Utf8.encode_cons, ih fun e he => h e (List.mem_cons_of_mem _ he),
      Text.Utf8.utf8EncodeChar_of_lt (by rw [toNat_asciiChar hb]; exact hb), toNat_asciiChar hb,
      UInt8.ofNat_toNat]
    rfl

theorem unquoted?_quoted (inner : List Char) :
    unquoted? ('"' :: inner ++ ['"']) = some inner := by
  rw [List.cons_append, unquoted?, List.getLast?_concat, if_pos rfl, List.dropLast_concat]

/-- **A quoted text is read as that text.** -/
theorem readText_quote (s : String) : readText (quote s) = .ok s := by
  have hascii : ∀ b ∈ (Text.Utf8.encode s.toList).flatMap escapeByte, b.toNat < 128 := by
    intro b hb
    obtain ⟨a, -, ha⟩ := List.mem_flatMap.1 hb
    exact toNat_lt_of_mem_escapeByte ha
  rw [readText, quote, String.toList_ofList, unquoted?_quoted]
  simp only [encode_map_asciiChar hascii, unescape_flatMap_escapeByte, Text.Utf8.decode_encode,
    String.ofList_toList]

/-! ## Integers -/

theorem natOfDigits_toDigits (n : Nat) : Text.natOfDigits (Nat.toDigits 10 n) = n := by
  have h := Nat.ofDigitChars_ten_toDigits (n := n)
  rw [Nat.ofDigitChars_eq_foldl] at h
  simp only [Nat.mul_comm 10] at h
  exact h

/-- The decimal digits of an integer, after a minus sign if it is negative. -/
theorem toList_toString (i : Int) :
    (toString i).toList =
      if 0 ≤ i then Nat.toDigits 10 i.natAbs else '-' :: Nat.toDigits 10 i.natAbs := by
  rw [Int.toString_eq_repr, Int.repr_eq_if]
  split
  · next h => rw [Nat.toList_repr, show i.toNat = i.natAbs by omega]
  · next h =>
    rw [String.toList_append, Nat.toList_repr, show (-i).toNat = i.natAbs by omega]
    rfl

theorem isDigit_of_mem_toDigits {n : Nat} {c : Char} (h : c ∈ Nat.toDigits 10 n) :
    c.isDigit = true :=
  Nat.isDigit_of_mem_toDigits (by decide) (by decide) h

/-- Digits begin with no sign. -/
theorem splitSign_of_isDigit {digits : List Char} (h : ∀ c ∈ digits, c.isDigit = true) :
    splitSign digits = (false, digits) := by
  unfold splitSign
  split
  · exact absurd (h '+' List.mem_cons_self) (by decide)
  · exact absurd (h '-' List.mem_cons_self) (by decide)
  · rfl

theorem splitSign_toString (i : Int) :
    splitSign (toString i).toList = (decide (i < 0), Nat.toDigits 10 i.natAbs) := by
  rw [toList_toString]
  split
  · next h =>
    rw [splitSign_of_isDigit fun c => isDigit_of_mem_toDigits, decide_eq_false (by omega)]
  · next h =>
    rw [splitSign, decide_eq_true (by omega)]

/-- **The digits of an integer of 32 bits are read as that integer.** -/
theorem readInt_toString {i : Int64} (h : Json.inInt32 i.toInt = true) :
    readInt (toString i.toInt) = .ok i := by
  have hlow := i.le_toInt
  have hhigh := i.toInt_lt
  have hvalue : (if decide (i.toInt < 0) then -(i.toInt.natAbs : Int) else i.toInt.natAbs) =
      i.toInt := by
    split
    · next hneg =>
      rw [decide_eq_true_eq] at hneg
      omega
    · next hneg =>
      rw [decide_eq_true_eq] at hneg
      omega
  have hdigits : ((Nat.toDigits 10 i.toInt.natAbs).isEmpty ||
      !(Nat.toDigits 10 i.toInt.natAbs).all Char.isDigit) = false := by
    rw [Bool.or_eq_false_iff, List.isEmpty_eq_false_iff]
    refine ⟨Nat.toDigits_ne_nil, ?_⟩
    rw [Bool.not_eq_false', List.all_eq_true]
    exact fun c => isDigit_of_mem_toDigits
  unfold readInt
  simp only [splitSign_toString, hdigits, natOfDigits_toDigits, hvalue]
  rw [if_neg (by simp), if_neg (by omega), if_pos h, Int64.ofInt_toInt]

/-! ## All literals -/

theorem head?_toList_quote (s : String) : (quote s).toList.head? = some '"' := by
  rw [quote, String.toList_ofList]
  rfl

/-- An integer begins with a digit or a minus sign. -/
theorem head?_toList_toString (i : Int) :
    ∃ c, (toString i).toList.head? = some c ∧ (c.isDigit = true ∨ c = '-') := by
  rw [toList_toString]
  split
  · have hne : Nat.toDigits 10 i.natAbs ≠ [] := Nat.toDigits_ne_nil
    obtain ⟨c, rest, hc⟩ := List.exists_cons_of_ne_nil hne
    refine ⟨c, by rw [hc]; rfl, Or.inl (isDigit_of_mem_toDigits (n := i.natAbs) ?_)⟩
    rw [hc]
    exact List.mem_cons_self
  · exact ⟨'-', rfl, Or.inr rfl⟩

theorem ne_of_head?_ne {s t : String} (h : s.toList.head? ≠ t.toList.head?) : s ≠ t := by
  rintro rfl
  exact h rfl

/-- **Reading takes back what writing made.** -/
theorem read_write {l : Literal} {t : String} (h : l.write = .ok t) : read t = .ok l := by
  cases l with
  | bool b =>
    obtain rfl := Except.ok.inj h
    cases b
    · rw [if_neg (by decide), read, if_neg (by decide), if_pos rfl]
    · rw [if_pos rfl, read, if_pos rfl]
  | int i =>
    simp only [write] at h
    split at h
    · next hi =>
      obtain rfl := Except.ok.inj h
      obtain ⟨c, hhead, hc⟩ := head?_toList_toString i.toInt
      have hne : c ≠ 'T' ∧ c ≠ 'F' ∧ c ≠ '"' := by
        rcases hc with hc | rfl
        · refine ⟨?_, ?_, ?_⟩ <;> rintro rfl <;> exact absurd hc (by decide)
        · decide
      have htrue : toString i.toInt ≠ "True" :=
        ne_of_head?_ne (by rw [hhead]; exact fun e => hne.1 (Option.some.inj e))
      have hfalse : toString i.toInt ≠ "False" :=
        ne_of_head?_ne (by rw [hhead]; exact fun e => hne.2.1 (Option.some.inj e))
      rw [read, if_neg htrue, if_neg hfalse, hhead, if_neg fun e => hne.2.2 (Option.some.inj e),
        readInt_toString hi]
      rfl
    · exact absurd h (by simp)
  | text s =>
    obtain rfl := Except.ok.inj h
    have hhead := head?_toList_quote s
    have htrue : quote s ≠ "True" := ne_of_head?_ne (by rw [hhead]; decide)
    have hfalse : quote s ≠ "False" := ne_of_head?_ne (by rw [hhead]; decide)
    rw [read, if_neg htrue, if_neg hfalse, if_pos hhead, readText_quote]
    rfl
  | value v => exact absurd h (by simp [write])

end Literal
end Arbor
