/-
# Integers, exactly

A run of digits denotes the sum of its digits, each times its power of ten (`positional`); with a
sign or without one it denotes an integer without any bounds (`Denotes`).  `readInt` answers

| text | with |
| --- | --- |
| denotes nothing | `notInteger` |
| denotes an integer beyond 64 bits | `outOfRange` |
| denotes one of 64 bits beyond 32 | `outsideInt32` and the integer |
| denotes one of 32 bits | that integer |

so no text of any length is wrapped or cut short (`readInt_eq_ok_iff`, `readInt_eq_error_iff`).

Reading needs no more than 64 bits: taking one digit after another, and giving up at the first
product or sum that has no room (`accumulate?`), comes to the same.  A number that has once left the
range does not come back, because every further digit leads away from zero (`accumulate?_eq`).
-/

import Arbor.Proofs.Literal.Writable
import Mathlib.Data.List.Induction
import Mathlib.Data.Nat.Digits.Defs

namespace Arbor
namespace Literal

/-! ## What a text denotes -/

/-- What a decimal digit stands for. -/
def digitValue (c : Char) : Nat := c.toNat - '0'.toNat

/-- The number that a run of digits denotes: the last digit counts once, the one before it ten
times, and so on. -/
def positional (digits : List Char) : Nat := Nat.ofDigits 10 (digits.reverse.map digitValue)

/-- The number with its sign. -/
def signed (negative : Bool) (n : Nat) : Int := if negative then -n else n

/-- At least one digit, and nothing else. -/
structure IsDigitRun (chars : List Char) : Prop where
  ne_nil : chars ≠ []
  isDigit : ∀ c ∈ chars, c.isDigit = true

/-- A text denotes an integer: digits, perhaps after one sign. -/
inductive Denotes : List Char → Int → Prop
  | unsigned {digits : List Char} : IsDigitRun digits → Denotes digits (positional digits)
  | plus {digits : List Char} : IsDigitRun digits → Denotes ('+' :: digits) (positional digits)
  | minus {digits : List Char} : IsDigitRun digits →
      Denotes ('-' :: digits) (-(positional digits : Int))

/-- A digit at the end makes ten times as much of what stands before it. -/
theorem positional_concat (digits : List Char) (c : Char) :
    positional (digits ++ [c]) = positional digits * 10 + digitValue c := by
  rw [positional, List.reverse_append, List.reverse_singleton, List.singleton_append, List.map_cons,
    Nat.ofDigits_cons, positional]
  omega

/-- Reading digits from left to right gives the number that they denote. -/
theorem natOfDigits_eq_positional (digits : List Char) :
    Text.natOfDigits digits = positional digits := by
  induction digits using List.reverseRecOn with
  | nil => rfl
  | append_singleton digits c ih =>
    rw [positional_concat, ← ih, Text.natOfDigits, List.foldl_append]
    rfl

theorem isDigitRun_iff {chars : List Char} :
    IsDigitRun chars ↔ (chars.isEmpty || !chars.all Char.isDigit) = false := by
  rw [Bool.or_eq_false_iff, List.isEmpty_eq_false_iff, Bool.not_eq_false', List.all_eq_true]
  exact ⟨fun h => ⟨h.ne_nil, h.isDigit⟩, fun h => ⟨h.1, h.2⟩⟩

/-- **What a text denotes**, by its sign and what follows it. -/
theorem denotes_iff {chars : List Char} {i : Int} :
    Denotes chars i ↔ IsDigitRun (splitSign chars).2 ∧
      i = signed (splitSign chars).1 (positional (splitSign chars).2) := by
  constructor
  · rintro (h | h | h)
    · rw [splitSign_of_isDigit h.isDigit]
      exact ⟨h, rfl⟩
    · exact ⟨h, rfl⟩
    · exact ⟨h, rfl⟩
  · rintro ⟨h, rfl⟩
    revert h
    unfold splitSign
    split
    · exact .plus
    · exact .minus
    · exact .unsigned

/-! ## Ranges -/

/-- There is room for an integer in 64 bits. -/
def InInt64 (i : Int) : Prop := -0x8000000000000000 ≤ i ∧ i ≤ 0x7FFFFFFFFFFFFFFF

/-- There is room for an integer in 32 bits. -/
def InInt32 (i : Int) : Prop := -0x80000000 ≤ i ∧ i ≤ 0x7FFFFFFF

instance (i : Int) : Decidable (InInt64 i) := inferInstanceAs (Decidable (_ ∧ _))

instance (i : Int) : Decidable (InInt32 i) := inferInstanceAs (Decidable (_ ∧ _))

theorem inInt32_iff {i : Int} : Json.inInt32 i = true ↔ InInt32 i := by
  simp only [Json.inInt32, InInt32, Bool.and_eq_true, decide_eq_true_eq]
  omega

theorem InInt32.inInt64 {i : Int} (h : InInt32 i) : InInt64 i :=
  ⟨Int.le_trans (by decide) h.1, Int.le_trans h.2 (by decide)⟩

theorem toInt_ofInt {i : Int} (h : InInt64 i) : (Int64.ofInt i).toInt = i :=
  Int64.toInt_ofInt_of_le h.1 (by have := h.2; omega)

/-- A number further away from zero has no room either. -/
theorem not_inInt64_signed {negative : Bool} {m n : Nat} (hmn : m ≤ n)
    (h : ¬InInt64 (signed negative m)) : ¬InInt64 (signed negative n) := by
  unfold InInt64 at h ⊢
  cases negative
  · simp only [signed, Bool.false_eq_true, if_false] at h ⊢
    omega
  · simp only [signed, if_true] at h ⊢
    omega

/-! ## Reading -/

/-- A text that denotes nothing is no integer. -/
theorem readInt_of_not_denotes {text : String} (h : ∀ i, ¬Denotes text.toList i) :
    readInt text = .error (.notInteger text) := by
  have hrun : ¬IsDigitRun (splitSign text.toList).2 := fun hrun => h _ (denotes_iff.2 ⟨hrun, rfl⟩)
  unfold readInt
  rw [isDigitRun_iff, Bool.not_eq_false] at hrun
  simp only [hrun, if_true]

/-- **A text that denotes an integer is answered by where the integer lies.** -/
theorem readInt_of_denotes {text : String} {i : Int} (h : Denotes text.toList i) :
    readInt text =
      if InInt64 i then if InInt32 i then .ok (Int64.ofInt i) else .error (.outsideInt32 i)
      else .error (.outOfRange text) := by
  obtain ⟨hrun, rfl⟩ := denotes_iff.1 h
  have hvalue : (if (splitSign text.toList).1 = true
      then -(Text.natOfDigits (splitSign text.toList).2 : Int)
      else Text.natOfDigits (splitSign text.toList).2) =
      signed (splitSign text.toList).1 (positional (splitSign text.toList).2) := by
    rw [natOfDigits_eq_positional, signed]
  unfold readInt
  simp only [isDigitRun_iff.1 hrun, Bool.false_eq_true, if_false, hvalue, inInt32_iff]
  generalize signed (splitSign text.toList).1 (positional (splitSign text.toList).2) = j
  by_cases hj : InInt64 j
  · rw [if_neg (by have := hj.1; have := hj.2; omega), if_pos hj]
  · rw [if_pos (by unfold InInt64 at hj; omega), if_neg hj]

/-- The integers that are read are those denoted that have room in 32 bits. -/
theorem readInt_eq_ok_iff {text : String} {v : Int64} :
    readInt text = .ok v ↔ Denotes text.toList v.toInt ∧ InInt32 v.toInt := by
  constructor
  · intro h
    by_cases hd : ∃ i, Denotes text.toList i
    · obtain ⟨i, hi⟩ := hd
      rw [readInt_of_denotes hi] at h
      split_ifs at h with h64 h32
      obtain rfl := Except.ok.inj h
      rw [toInt_ofInt h64]
      exact ⟨hi, h32⟩
    · rw [readInt_of_not_denotes (not_exists.1 hd)] at h
      cases h
  · rintro ⟨hd, h32⟩
    rw [readInt_of_denotes hd, if_pos h32.inInt64, if_pos h32, Int64.ofInt_toInt]

/-- Why a text is not read as an integer. -/
inductive Refused (text : String) : ReadFault → Prop
  | notInteger : (∀ i, ¬Denotes text.toList i) → Refused text (.notInteger text)
  | outOfRange {i : Int} : Denotes text.toList i → ¬InInt64 i → Refused text (.outOfRange text)
  | outsideInt32 {i : Int} : Denotes text.toList i → InInt64 i → ¬InInt32 i →
      Refused text (.outsideInt32 i)

theorem readInt_eq_error_iff {text : String} {fault : ReadFault} :
    readInt text = .error fault ↔ Refused text fault := by
  constructor
  · intro h
    by_cases hd : ∃ i, Denotes text.toList i
    · obtain ⟨i, hi⟩ := hd
      rw [readInt_of_denotes hi] at h
      split_ifs at h with h64 h32
      · obtain rfl := Except.error.inj h
        exact .outsideInt32 hi h64 h32
      · obtain rfl := Except.error.inj h
        exact .outOfRange hi h64
    · rw [readInt_of_not_denotes (not_exists.1 hd)] at h
      obtain rfl := Except.error.inj h
      exact .notInteger (not_exists.1 hd)
  · rintro (hd | ⟨hi, h64⟩ | ⟨hi, h64, h32⟩)
    · exact readInt_of_not_denotes hd
    · rw [readInt_of_denotes hi, if_neg h64]
    · rw [readInt_of_denotes hi, if_pos h64, if_neg h32]

/-! ## One digit after another -/

/-- An integer of 64 bits, nothing if there is no room for it. -/
def checked? (i : Int) : Option Int64 := if InInt64 i then some (Int64.ofInt i) else none

/-- One digit more: ten times the number, then the digit, both within 64 bits.  Below zero the digit
is taken away. -/
def pushDigit? (negative : Bool) (n : Int64) (c : Char) : Option Int64 := do
  let tenfold ← checked? (n.toInt * 10)
  checked? (if negative then tenfold.toInt - digitValue c else tenfold.toInt + digitValue c)

/-- The number that digits denote, one digit after another. -/
def accumulate? (negative : Bool) (digits : List Char) : Option Int64 :=
  digits.foldlM (pushDigit? negative) 0

/-- Reading that never has more than 64 bits in hand. -/
def readIntWithin64 (text : String) : Except ReadFault Int64 :=
  let (negative, digits) := splitSign text.toList
  if digits.isEmpty || !digits.all Char.isDigit then .error (.notInteger text)
  else
    match accumulate? negative digits with
    | none => .error (.outOfRange text)
    | some i => if Json.inInt32 i.toInt then .ok i else .error (.outsideInt32 i.toInt)

/-- From a number of 64 bits, one digit more is refused exactly if there is no room for the
result. -/
theorem pushDigit?_ofInt (negative : Bool) {n : Nat} (c : Char) (h : InInt64 (signed negative n)) :
    pushDigit? negative (Int64.ofInt (signed negative n)) c =
      checked? (signed negative (n * 10 + digitValue c)) := by
  have htenfold : signed negative n * 10 = signed negative (n * 10) := by
    cases negative <;> simp [signed]
  have hsum : (if negative then signed negative (n * 10) - digitValue c
      else signed negative (n * 10) + digitValue c) = signed negative (n * 10 + digitValue c) := by
    cases negative
    · simp [signed]
    · simp only [signed, if_true]
      omega
  rw [pushDigit?, toInt_ofInt h, htenfold]
  by_cases hroom : InInt64 (signed negative (n * 10))
  · rw [checked?, if_pos hroom, ← hsum]
    show checked? _ = checked? _
    rw [toInt_ofInt hroom]
  · have hresult := not_inInt64_signed (Nat.le_add_right (n * 10) (digitValue c)) hroom
    rw [checked?, if_neg hroom, checked?, if_neg hresult]
    rfl

/-- **Taking one digit after another within 64 bits** gives the number that the digits denote, and
nothing exactly if there is no room for that number. -/
theorem accumulate?_eq (negative : Bool) (digits : List Char) :
    accumulate? negative digits = checked? (signed negative (positional digits)) := by
  induction digits using List.reverseRecOn with
  | nil => cases negative <;> rfl
  | append_singleton digits c ih =>
    have hstep : accumulate? negative (digits ++ [c]) =
        (accumulate? negative digits).bind fun n => pushDigit? negative n c := by
      rw [accumulate?, List.foldlM_append, accumulate?]
      simp only [List.foldlM_cons, List.foldlM_nil, bind_pure]
      rfl
    rw [hstep, ih, positional_concat]
    by_cases h : InInt64 (signed negative (positional digits))
    · rw [checked?, if_pos h, Option.bind_some, pushDigit?_ofInt negative c h]
    · have hresult : ¬InInt64 (signed negative (positional digits * 10 + digitValue c)) :=
        not_inInt64_signed (by omega) h
      rw [checked?, if_neg h, checked?, if_neg hresult, Option.bind_none]

theorem readIntWithin64_eq (text : String) : readIntWithin64 text = readInt text := by
  by_cases hd : ∃ i, Denotes text.toList i
  · obtain ⟨i, hi⟩ := hd
    obtain ⟨hrun, rfl⟩ := denotes_iff.1 hi
    rw [readInt_of_denotes hi, readIntWithin64]
    simp only [isDigitRun_iff.1 hrun, Bool.false_eq_true, if_false, accumulate?_eq, inInt32_iff]
    generalize signed (splitSign text.toList).1 (positional (splitSign text.toList).2) = j
    by_cases h64 : InInt64 j
    · simp only [checked?, if_pos h64, toInt_ofInt h64]
    · simp only [checked?, if_neg h64]
  · rw [readInt_of_not_denotes (not_exists.1 hd), readIntWithin64]
    have hrun : ¬IsDigitRun (splitSign text.toList).2 := fun hrun =>
      hd ⟨_, denotes_iff.2 ⟨hrun, rfl⟩⟩
    rw [isDigitRun_iff, Bool.not_eq_false] at hrun
    simp only [hrun, if_true]

/-- **Integer literals are the signed decimals of 32 bits.**  An integer is read from a text exactly
if the text denotes that integer, digits after one sign or none, and it has room in 32 bits.  Every
other text is refused as no value, for the one reason that applies to it.  The reader that keeps to
64 bits at every digit gives the same answers. -/
theorem readInt_decimals (text : String) :
    (∀ v : Int64, readInt text = .ok v ↔ Denotes text.toList v.toInt ∧ InInt32 v.toInt) ∧
      (∀ fault, readInt text = .error fault ↔ Refused text fault) ∧
      ((∃ i, Denotes text.toList i ∧ InInt32 i) ∧ (∃ v, readInt text = .ok v) ∨
        (¬∃ i, Denotes text.toList i ∧ InInt32 i) ∧ ∃ fault message,
          readInt text = .error fault ∧ fault.failure = .valueDecode none message) ∧
      readIntWithin64 text = readInt text := by
  refine ⟨fun v => readInt_eq_ok_iff, fun fault => readInt_eq_error_iff, ?_,
    readIntWithin64_eq text⟩
  cases h : readInt text with
  | ok v =>
    obtain ⟨hdenotes, hrange⟩ := readInt_eq_ok_iff.1 h
    exact Or.inl ⟨⟨v.toInt, hdenotes, hrange⟩, v, rfl⟩
  | error fault =>
    refine Or.inr ⟨?_, fault, fault.message, rfl, rfl⟩
    rintro ⟨i, hdenotes, hrange⟩
    rw [readInt_of_denotes hdenotes, if_pos hrange.inInt64, if_pos hrange] at h
    cases h

/-- Leading zeros do not count, and a sign may be a plus; the lower end of the range is read and the
number below it is not. -/
example : (readInt "+00017").toOption = some 17 ∧
    (readInt "-2147483648").toOption = some (-2147483648) ∧
    (readInt "-2147483649").toOption = none := by
  decide +kernel

end Literal
end Arbor
