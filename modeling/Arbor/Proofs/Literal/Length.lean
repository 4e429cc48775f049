/-
# How long a literal is, in bytes

The end of a literal can be found in its bytes without knowing where the characters are:

| the first byte is | the literal goes up to |
| --- | --- |
| a quote | the next quote that no backslash hides, with it (`closing?`) |
| any other | the next comma or closing bracket, without it (`ending?`) |

A backslash hides one byte, and the character behind it may have four; the rest of such a character
is neither quote nor backslash, so that after it all is as if the whole character had been hidden.
So the length in bytes is that of what the scanner of characters takes, and lies between characters
(`length?_encode`).

The reader of quoted literals takes more than one byte after a backslash when it takes `\x`.  If two
hexadecimal digits follow, none of them is a quote or a backslash, and the scanner goes over them as
over any other byte; if not, the reader stops.  So as long as the reader goes on, both have the same
bytes before them, and when it stops it is not for want of a quote, nor for one too many
(`isInner_of_unescape`).
-/

import Arbor.Proofs.Literal.RoundTrip
import Arbor.Proofs.Literal.Scan

namespace Arbor
namespace Literal

open Text (Utf8.encode)

/-- How many bytes there are up to the closing quote, with it.  `escaped` says that a backslash
stands before. -/
def closing? : Bool → List UInt8 → Option Nat
  | _, [] => none
  | true, _ :: rest => (closing? false rest).map (· + 1)
  | false, b :: rest =>
    if b = 0x22 then some 1 else (closing? (b == 0x5C) rest).map (· + 1)

/-- How many bytes there are before the next comma or closing bracket. -/
def ending? : List UInt8 → Option Nat
  | [] => none
  | b :: rest => if b = 0x2C ∨ b = 0x5D then some 0 else (ending? rest).map (· + 1)

/-- The length in bytes of the literal at the start of bytes. -/
def length? : List UInt8 → Option Nat
  | [] => none
  | b :: rest =>
    if b = 0x22 then (closing? false rest).map (· + 1) else ending? (b :: rest)

/-! ## One byte -/

variable {b e : UInt8} {bytes rest : List UInt8}

theorem closing?_quote (rest : List UInt8) : closing? false (0x22 :: rest) = some 1 := if_pos rfl

theorem closing?_plain (hb : b ≠ 0x5C) (hq : b ≠ 0x22) (rest : List UInt8) :
    closing? false (b :: rest) = (closing? false rest).map (· + 1) := by
  rw [closing?, if_neg hq, beq_false_of_ne hb]

/-- A backslash hides the byte after it. -/
theorem closing?_escape (e : UInt8) (rest : List UInt8) :
    closing? false (0x5C :: e :: rest) = (closing? false rest).map (· + 2) := by
  rw [closing?, if_neg (by decide), beq_self_eq_true, closing?, Option.map_map]
  rfl

theorem closing?_pos {escaped : Bool} {n : Nat} (h : closing? escaped bytes = some n) : 0 < n := by
  cases bytes with
  | nil => cases escaped <;> exact absurd h (by simp [closing?])
  | cons b rest =>
    cases escaped
    · rw [closing?] at h
      split at h
      · rw [← Option.some.inj h]
        exact Nat.one_pos
      · obtain ⟨m, -, rfl⟩ := Option.map_eq_some_iff.1 h
        exact Nat.succ_pos m
    · obtain ⟨m, -, rfl⟩ := Option.map_eq_some_iff.1 h
      exact Nat.succ_pos m

/-- Bytes that are not ASCII are none of those that are looked for. -/
theorem ne_of_le_toNat (h : 128 ≤ b.toNat) (he : e.toNat < 128) : b ≠ e := by
  rintro rfl
  omega

theorem closing?_append_of_le (h : ∀ b ∈ bytes, 128 ≤ b.toNat) (rest : List UInt8) :
    closing? false (bytes ++ rest) = (closing? false rest).map (· + bytes.length) := by
  induction bytes with
  | nil => exact Option.map_id'.symm
  | cons b bytes ih =>
    obtain ⟨hb, hbytes⟩ := List.forall_mem_cons.1 h
    rw [List.cons_append, closing?_plain (ne_of_le_toNat hb (by decide))
      (ne_of_le_toNat hb (by decide)), ih hbytes, Option.map_map]
    rfl

theorem ending?_append_of_le (h : ∀ b ∈ bytes, 128 ≤ b.toNat) (rest : List UInt8) :
    ending? (bytes ++ rest) = (ending? rest).map (· + bytes.length) := by
  induction bytes with
  | nil => exact Option.map_id'.symm
  | cons b bytes ih =>
    obtain ⟨hb, hbytes⟩ := List.forall_mem_cons.1 h
    have hmark : ¬(b = 0x2C ∨ b = 0x5D) :=
      not_or.2 ⟨ne_of_le_toNat hb (by decide), ne_of_le_toNat hb (by decide)⟩
    rw [List.cons_append, ending?, if_neg hmark, ih hbytes, Option.map_map]
    rfl

/-! ## One character -/

variable {c d : Char}

theorem encode_append (s t : List Char) : Utf8.encode (s ++ t) = Utf8.encode s ++ Utf8.encode t :=
  List.flatMap_append

theorem length_encode_cons (c : Char) (s : List Char) :
    (Utf8.encode (c :: s)).length = (Utf8.encode s).length + (String.utf8EncodeChar c).length := by
  rw [Text.Utf8.encode_cons, List.length_append, Nat.add_comm]

/-- An ASCII byte stands for one character only. -/
theorem ofNat_toNat_eq_iff (hc : c.toNat < 128) (hd : d.toNat < 128) :
    UInt8.ofNat c.toNat = UInt8.ofNat d.toNat ↔ c = d := by
  rw [← UInt8.toNat_inj, UInt8.toNat_ofNat', UInt8.toNat_ofNat', Nat.mod_eq_of_lt (by omega),
    Nat.mod_eq_of_lt (by omega), Char.toNat_inj]

/-- What follows the first byte of a character is not ASCII. -/
theorem exists_utf8EncodeChar_eq_cons (c : Char) :
    ∃ first others, String.utf8EncodeChar c = first :: others ∧ ∀ b ∈ others, 128 ≤ b.toNat := by
  by_cases hc : c.toNat < 128
  · exact ⟨_, [], Text.Utf8.utf8EncodeChar_of_lt hc, by simp⟩
  · have hbytes := fun b => Text.Utf8.le_toNat_of_mem_utf8EncodeChar (b := b) (Nat.not_lt.1 hc)
    obtain ⟨first, others, hcons⟩ :=
      List.exists_cons_of_ne_nil (String.utf8EncodeChar_ne_nil (c := c))
    exact ⟨first, others, hcons, fun b hb => hbytes b (hcons ▸ List.mem_cons_of_mem _ hb)⟩

/-- If the first byte of a character is hidden, it is as if all of it were. -/
theorem closing?_hidden (c : Char) (rest : List UInt8) :
    closing? true (String.utf8EncodeChar c ++ rest) =
      (closing? false rest).map (· + (String.utf8EncodeChar c).length) := by
  obtain ⟨first, others, hcons, hothers⟩ := exists_utf8EncodeChar_eq_cons c
  rw [hcons, List.cons_append, closing?, closing?_append_of_le hothers, Option.map_map]
  rfl

theorem closing?_character (hq : c ≠ '"') (rest : List UInt8) :
    closing? false (String.utf8EncodeChar c ++ rest) =
      (closing? (c == '\\') rest).map (· + (String.utf8EncodeChar c).length) := by
  by_cases hc : c.toNat < 128
  · have hquote : UInt8.ofNat c.toNat ≠ 0x22 :=
      mt (ofNat_toNat_eq_iff (d := '"') hc (by decide)).1 hq
    have hbackslash : (UInt8.ofNat c.toNat == 0x5C) = (c == '\\') := by
      rw [Bool.eq_iff_iff, beq_iff_eq, beq_iff_eq]
      exact ofNat_toNat_eq_iff (d := '\\') hc (by decide)
    rw [Text.Utf8.utf8EncodeChar_of_lt hc, List.singleton_append, closing?, if_neg hquote,
      hbackslash]
    rfl
  · have hbackslash : c ≠ '\\' := by
      rintro rfl
      exact hc (by decide)
    rw [beq_false_of_ne hbackslash]
    exact closing?_append_of_le
      (fun b => Text.Utf8.le_toNat_of_mem_utf8EncodeChar (Nat.not_lt.1 hc)) rest

theorem ending?_character (hm : ¬(c = ',' ∨ c = ']')) (rest : List UInt8) :
    ending? (String.utf8EncodeChar c ++ rest) =
      (ending? rest).map (· + (String.utf8EncodeChar c).length) := by
  by_cases hc : c.toNat < 128
  · have hmark : ¬(UInt8.ofNat c.toNat = 0x2C ∨ UInt8.ofNat c.toNat = 0x5D) :=
      mt (Or.imp (ofNat_toNat_eq_iff (d := ',') hc (by decide)).1
        (ofNat_toNat_eq_iff (d := ']') hc (by decide)).1) hm
    rw [Text.Utf8.utf8EncodeChar_of_lt hc, List.singleton_append, ending?, if_neg hmark]
    rfl
  · exact ending?_append_of_le
      (fun b => Text.Utf8.le_toNat_of_mem_utf8EncodeChar (Nat.not_lt.1 hc)) rest

/-! ## All characters -/

/-- **The quote that closes a literal is the same in bytes and in characters.** -/
theorem closing?_encode (escaped : Bool) (s : List Char) :
    closing? escaped (Utf8.encode s) =
      (scanQuoted? escaped s).map fun r => (Utf8.encode r.1).length := by
  induction s generalizing escaped with
  | nil => cases escaped <;> rfl
  | cons c s ih =>
    rw [Text.Utf8.encode_cons]
    cases escaped with
    | true =>
      rw [closing?_hidden, scanQuoted?, ih, Option.map_map, Option.map_map]
      simp only [Function.comp_def, length_encode_cons]
    | false =>
      rw [scanQuoted?]
      by_cases hq : c = '"'
      · subst hq
        rfl
      · rw [if_neg hq, closing?_character hq, ih, Option.map_map, Option.map_map]
        simp only [Function.comp_def, length_encode_cons]

/-- **The comma or bracket after a literal is the same in bytes and in characters.** -/
theorem ending?_encode (s : List Char) :
    ending? (Utf8.encode s) = (scanBare? s).map fun r => (Utf8.encode r.1).length := by
  induction s with
  | nil => rfl
  | cons c s ih =>
    rw [Text.Utf8.encode_cons, scanBare?]
    by_cases hm : c = ',' ∨ c = ']'
    · rw [if_pos hm]
      rcases hm with rfl | rfl <;> rfl
    · rw [if_neg hm, ending?_character hm, ih, Option.map_map, Option.map_map]
      simp only [Function.comp_def, length_encode_cons]

/-- **The length in bytes is that of what the scanner takes.** -/
theorem length?_encode (s : List Char) :
    length? (Utf8.encode s) = (scan? s).map fun r => (Utf8.encode r.1).length := by
  by_cases hs : s.head? = some '"'
  · obtain ⟨rest, rfl⟩ := List.head?_eq_some_iff.1 hs
    have hquote : Utf8.encode ('"' :: rest) = 0x22 :: Utf8.encode rest := rfl
    rw [hquote, length?, if_pos rfl, closing?_encode, scan?, Option.map_map, Option.map_map]
    simp only [Function.comp_def, length_encode_cons]
    rfl
  · rw [scan?_eq_scanBare? hs, ← ending?_encode]
    cases hbytes : Utf8.encode s with
    | nil => rfl
    | cons b bytes =>
      have hb : b ≠ 0x22 := by
        rintro rfl
        obtain ⟨c, rest, rfl, hc, -⟩ := Text.Utf8.exists_cons_of_encode_eq (by decide) hbytes
        exact hs (congrArg some (Char.toNat_inj.1 hc))
      rw [length?, if_neg hb]

/-! ## What the reader takes -/

/-- What reads as a literal is scanned whole, if it is quoted or something ends it. -/
theorem length?_of_read {t : String} {l : Literal} (h : read t = .ok l) {u : List Char}
    (hu : t.toList.head? = some '"' ∨ EndsPredicate u) :
    length? (Utf8.encode (t.toList ++ u)) = some (Utf8.encode t.toList).length := by
  have hscan : scan? (t.toList ++ u) = some (t.toList, u) := by
    rcases hu with hquote | hu
    · unfold read at h
      split_ifs at h with htrue hfalse
      · subst htrue
        exact absurd hquote (by decide)
      · subst hfalse
        exact absurd hquote (by decide)
      · obtain ⟨s, hs, -⟩ := map_eq_ok_iff.1 h
        exact scan?_append_of_readText hs u
    · exact scan?_append_of_read h hu
  rw [length?_encode, hscan]
  rfl

/-! ## What the scanner takes -/

/-- What can be wrong with a text that is well quoted: an escape, or the bytes that are meant. -/
inductive ReadFault.IsInner : ReadFault → Prop
  | shortHex : IsInner .shortHex
  | unknownEscape (e : UInt8) : IsInner (.unknownEscape e)
  | notUtf8 (fault : Text.Utf8.Fault) : IsInner (.notUtf8 fault)

theorem eq_some_of_map_add {o : Option Nat} {n k : Nat} (h : o.map (· + k) = some (n + k)) :
    o = some n := by
  obtain ⟨m, hm, hadd⟩ := Option.map_eq_some_iff.1 h
  rw [hm, Nat.add_right_cancel hadd]

/-- **Before the quote that the scanner finds, the reader stops at an escape or nowhere.** -/
theorem isInner_of_unescape {bytes rest : List UInt8} {fault : ReadFault}
    (hclosing : closing? false (bytes ++ 0x22 :: rest) = some (bytes.length + 1))
    (h : unescape bytes = .error fault) : fault.IsInner := by
  -- at every step of the reader the scanner stands at the same byte, and no backslash is before it
  fun_induction unescape bytes with
  | case1 => cases h
  | case2 =>
    -- the backslash would hide the closing quote
    have hnone : closing? false rest = some 0 :=
      eq_some_of_map_add ((closing?_escape 0x22 rest).symm.trans hclosing)
    exact absurd (closing?_pos hnone) (Nat.lt_irrefl 0)
  | case3 high low after byte hpair ih =>
    obtain ⟨⟨m, hm⟩, n, hn⟩ := of_hexPair?_eq_some hpair
    have hplain {b : UInt8} {n : Nat} (hn : Text.hexValue? b.toNat = some n) :
        b ≠ 0x5C ∧ b ≠ 0x22 := by
      obtain ⟨-, hq, hb⟩ := of_hexValue?_eq_some hn
      constructor
      · rintro rfl
        exact hb rfl
      · rintro rfl
        exact hq rfl
    refine ih (eq_some_of_map_add (k := 4) (Eq.trans ?_ hclosing)) (map_eq_error_iff.1 h)
    rw [List.cons_append, List.cons_append, List.cons_append, List.cons_append, closing?_escape,
      closing?_plain (hplain hm).1 (hplain hm).2, closing?_plain (hplain hn).1 (hplain hn).2,
      Option.map_map, Option.map_map]
    rfl
  | case4 =>
    obtain rfl := Except.error.inj h
    exact .shortHex
  | case5 =>
    obtain rfl := Except.error.inj h
    exact .shortHex
  | case6 e after _ byte _ ih =>
    exact ih (eq_some_of_map_add (k := 2) ((closing?_escape e _).symm.trans hclosing))
      (map_eq_error_iff.1 h)
  | case7 e =>
    obtain rfl := Except.error.inj h
    exact .unknownEscape e
  | case8 after =>
    -- the scanner would have stopped here
    rw [List.cons_append, closing?_quote, List.length_cons] at hclosing
    have hlength := Option.some.inj hclosing
    omega
  | case9 b after hb hq ih =>
    exact ih (eq_some_of_map_add (k := 1) ((closing?_plain hb hq _).symm.trans hclosing))
      (map_eq_error_iff.1 h)

/-- What the scanner takes of a quoted literal ends with a quote. -/
theorem exists_of_scanQuoted? {escaped : Bool} {s a u : List Char}
    (h : scanQuoted? escaped s = some (a, u)) : ∃ inner, a = inner ++ ['"'] := by
  induction s generalizing escaped a with
  | nil => cases escaped <;> exact absurd h (by simp [scanQuoted?])
  | cons c s ih =>
    have hrest {escaped : Bool}
        (h : ((scanQuoted? escaped s).map fun r => (c :: r.1, r.2)) = some (a, u)) :
        ∃ inner, a = inner ++ ['"'] := by
      obtain ⟨⟨a', u'⟩, hscan, heq⟩ := Option.map_eq_some_iff.1 h
      obtain ⟨rfl, rfl⟩ := Prod.mk.inj heq
      obtain ⟨inner, rfl⟩ := ih hscan
      exact ⟨c :: inner, rfl⟩
    cases escaped with
    | true => exact hrest h
    | false =>
      rw [scanQuoted?] at h
      split at h
      · obtain ⟨rfl, -⟩ := Prod.mk.inj (Option.some.inj h)
        exact ⟨[], rfl⟩
      · exact hrest h

theorem readText_of_quoted {t : String} {inner : List Char}
    (ht : t.toList = '"' :: inner ++ ['"']) {fault : ReadFault} (h : readText t = .error fault) :
    unescape (Utf8.encode inner) = .error fault ∨ ∃ f, fault = .notUtf8 f := by
  rw [readText, ht, unquoted?_quoted] at h
  dsimp only at h
  split at h
  · next fault' hfault =>
    obtain rfl := Except.error.inj h
    exact Or.inl hfault
  · split at h
    · cases h
    · next f _ =>
      obtain rfl := Except.error.inj h
      exact Or.inr ⟨f, rfl⟩

/-- **What the scanner takes of a quoted literal is well quoted.** -/
theorem isInner_of_length? {input : List Char} {n : Nat} (hquote : input.head? = some '"')
    (hlength : length? (Utf8.encode input) = some n) :
    2 ≤ n ∧ ∃ (t : String) (u : List Char), input = t.toList ++ u ∧
      (Utf8.encode t.toList).length = n ∧ scan? input = some (t.toList, u) ∧
        ∀ fault, readText t = .error fault → fault.IsInner := by
  obtain ⟨s, rfl⟩ := List.head?_eq_some_iff.1 hquote
  obtain ⟨m, hclosing, rfl⟩ := Option.map_eq_some_iff.1
    (show (closing? false (Utf8.encode s)).map (· + 1) = some n from hlength)
  refine ⟨Nat.succ_le_succ (closing?_pos hclosing), ?_⟩
  rw [closing?_encode] at hclosing
  obtain ⟨⟨a, u⟩, hscan, rfl⟩ := Option.map_eq_some_iff.1 hclosing
  obtain ⟨inner, rfl⟩ := exists_of_scanQuoted? hscan
  obtain rfl := scanQuoted?_eq_append hscan
  refine ⟨String.ofList ('"' :: inner ++ ['"']), u, by simp, ?_, ?_, fun fault hfault => ?_⟩
  · rw [String.toList_ofList]
    rfl
  · rw [scan?, hscan, String.toList_ofList]
    rfl
  · rcases readText_of_quoted (String.toList_ofList) hfault with hunescape | ⟨f, rfl⟩
    · have hbytes : Utf8.encode inner ++ 0x22 :: Utf8.encode u =
          Utf8.encode (inner ++ ['"'] ++ u) := by
        rw [encode_append, encode_append, List.append_assoc]
        rfl
      have hend : closing? false (Utf8.encode inner ++ 0x22 :: Utf8.encode u) =
          some ((Utf8.encode inner).length + 1) := by
        rw [hbytes, closing?_encode, hscan, Option.map_some, encode_append, List.length_append]
        rfl
      exact isInner_of_unescape hend hunescape
    · exact .notUtf8 f

/-- **The scanner and the reader agree on where a literal ends.**  The length of a literal, looked
for byte by byte, is that of what the scanner of characters takes.  It is the length of every text
that reads as a literal, before any other text if the literal is quoted, and before a comma or a
closing bracket if it is not.  And what is found for a text that begins with a quote is at least two
bytes long, is made of whole characters, and, if it does not read as a text, has a wrong escape in
it or stands for bytes that are not UTF-8: it lacks no quote, no backslash stands at its end, and no
quote stands inside. -/
theorem agrees_with_reader_on_length :
    (∀ s, length? (Utf8.encode s) = (scan? s).map fun r => (Utf8.encode r.1).length) ∧
      (∀ (t : String) (l : Literal) (u : List Char), read t = .ok l →
        t.toList.head? = some '"' ∨ EndsPredicate u →
          length? (Utf8.encode (t.toList ++ u)) = some (Utf8.encode t.toList).length) ∧
      ∀ (input : List Char) (n : Nat), input.head? = some '"' →
        length? (Utf8.encode input) = some n →
          2 ≤ n ∧ ∃ (t : String) (u : List Char), input = t.toList ++ u ∧
            (Utf8.encode t.toList).length = n ∧ scan? input = some (t.toList, u) ∧
              ∀ fault, readText t = .error fault → fault.IsInner :=
  ⟨length?_encode, fun _ _ _ h hu => length?_of_read h hu,
    fun _ _ hquote hlength => isInner_of_length? hquote hlength⟩

/-- A quoted literal in which an escape means a quote, before another quote; an integer before a
bracket; and a backslash before a character of two bytes, of which it hides one. -/
theorem agrees_with_reader_hiddenCharacter :
    length? (Utf8.encode ("\"\\x22,]\"".toList ++ ['"'])) = some 8 ∧
      length? (Utf8.encode ("+17".toList ++ [']'])) = some 3 ∧
      ∃ (t : String) (u : List Char), "\"\\é\"=1]".toList = t.toList ++ u ∧
        (Utf8.encode t.toList).length = 5 ∧
          ∀ fault, readText t = .error fault → fault.IsInner := by
  obtain ⟨-, hforth, hback⟩ := agrees_with_reader_on_length
  have hquoted : read "\"\\x22,]\"" = .ok (.text "\",]") :=
    toOption_eq_some_iff.1 (by decide +kernel)
  have hbare : read "+17" = .ok (.int 17) := toOption_eq_some_iff.1 (by decide +kernel)
  obtain ⟨-, t, u, hinput, hlength, -, hfault⟩ :=
    hback "\"\\é\"=1]".toList 5 (by decide +kernel) (by decide +kernel)
  exact ⟨hforth _ _ ['"'] hquoted (Or.inl (by decide +kernel)),
    hforth _ _ [']'] hbare (Or.inr (Or.inr rfl)), t, u, hinput, hlength, hfault⟩

end Literal
end Arbor
