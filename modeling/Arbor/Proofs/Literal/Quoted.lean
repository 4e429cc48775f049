/-
# What a quoted literal may be

The grammar of quoted literals, said without the reader.  Between the quotes stand items one after
another, and each stands for one byte (`StandsFor`):

| item | stands for |
| --- | --- |
| a byte other than a quote and a backslash | itself |
| a backslash and one of `letters` | the character beside the letter |
| `\x` and two hexadecimal digits | the byte with these digits |

The bytes that the items stand for are those of the text that is meant (`Quotes`).  The reader takes
exactly these texts, for what they mean, and fails on every other (`readText_eq_ok_iff_quotes`).

An item of the grammar is one step of the reader (`Item.unescape_append`), and every step of the
reader is an item (`exists_item_of_unescape`), so that both take a body apart at the same places
(`unescape_eq_ok_iff`).
-/

import Arbor.Proofs.Literal.RoundTrip
import Arbor.Proofs.Literal.Scan

namespace Arbor
namespace Literal

open Text (Utf8.encode)

/-! ## The grammar -/

/-- What may follow a backslash, `\x` aside, and the characters that are meant. -/
def letters : List (Char × Char) :=
  [('"', '"'), ('\x27', '\x27'), ('\\', '\\'), ('n', '\n'), ('r', '\r'), ('t', '\t'),
    ('0', '\x00')]

/-- A hexadecimal digit of either case, and its value. -/
def IsHexOf (c : Char) (n : Nat) : Prop :=
  n < 16 ∧ (c = n.digitChar ∨ c = n.digitChar.toUpper)

instance {c : Char} {n : Nat} : Decidable (IsHexOf c n) :=
  inferInstanceAs (Decidable (_ ∧ _))

/-- What an item may be, and the byte it stands for. -/
inductive StandsFor : List UInt8 → UInt8 → Prop
  | plain {b : UInt8} (hquote : b ≠ '"'.toUInt8) (hbackslash : b ≠ '\\'.toUInt8) :
    StandsFor [b] b
  | letter {c d : Char} (h : (c, d) ∈ letters) :
    StandsFor ['\\'.toUInt8, c.toUInt8] d.toUInt8
  | hex {c d : Char} {m n : Nat} (hc : IsHexOf c m) (hd : IsHexOf d n) :
    StandsFor ['\\'.toUInt8, 'x'.toUInt8, c.toUInt8, d.toUInt8] (UInt8.ofNat (m * 16 + n))

/-- An item of what stands between the quotes. -/
structure Item where
  bytes : List UInt8
  byte : UInt8
  standsFor : StandsFor bytes byte

/-- A text means another: it is a quote, a body and a quote, and the body is made of items that
stand for the bytes of the other. -/
def Quotes (text s : String) : Prop :=
  ∃ (body : List Char) (items : List Item), text.toList = '"' :: body ++ ['"'] ∧
    Utf8.encode body = items.flatMap Item.bytes ∧ items.map Item.byte = Utf8.encode s.toList

/-! ## Letters and digits -/

theorem simpleEscape?_of_mem_letters {c d : Char} (h : (c, d) ∈ letters) :
    c.toUInt8 ≠ 0x78 ∧ simpleEscape? c.toUInt8 = some d.toUInt8 := by
  have hall : ∀ p ∈ letters, p.1.toUInt8 ≠ 0x78 ∧
      simpleEscape? p.1.toUInt8 = some p.2.toUInt8 := by
    decide
  exact hall _ h

theorem exists_mem_letters {e byte : UInt8} (h : simpleEscape? e = some byte) :
    ∃ c d, (c, d) ∈ letters ∧ e = c.toUInt8 ∧ byte = d.toUInt8 := by
  unfold simpleEscape? at h
  split_ifs at h with h₁ h₂ h₃ h₄ h₅ <;> obtain rfl := Option.some.inj h
  · rcases h₁ with rfl | rfl | rfl
    · exact ⟨'"', '"', by decide, rfl, rfl⟩
    · exact ⟨'\x27', '\x27', by decide, rfl, rfl⟩
    · exact ⟨'\\', '\\', by decide, rfl, rfl⟩
  · exact ⟨'n', '\n', by decide, h₂, rfl⟩
  · exact ⟨'r', '\r', by decide, h₃, rfl⟩
  · exact ⟨'t', '\t', by decide, h₄, rfl⟩
  · exact ⟨'0', '\x00', by decide, h₅, rfl⟩

theorem hexValue?_of_isHexOf {c : Char} {n : Nat} (h : IsHexOf c n) :
    Text.hexValue? c.toUInt8.toNat = some n := by
  have hall : ∀ n < 16, Text.hexValue? n.digitChar.toUInt8.toNat = some n ∧
      Text.hexValue? n.digitChar.toUpper.toUInt8.toNat = some n := by
    decide
  obtain ⟨hn, rfl | rfl⟩ := h
  · exact (hall n hn).1
  · exact (hall n hn).2

theorem exists_isHexOf {b : UInt8} {n : Nat} (h : Text.hexValue? b.toNat = some n) :
    ∃ c, IsHexOf c n ∧ b = c.toUInt8 := by
  have hall : ∀ k < 128, ∀ n ∈ Text.hexValue? k, IsHexOf (Char.ofNat k) n ∧
      UInt8.ofNat k = (Char.ofNat k).toUInt8 := by
    decide
  obtain ⟨hdigit, hbyte⟩ := hall _ (of_hexValue?_eq_some h).1 n h
  exact ⟨Char.ofNat b.toNat, hdigit, by rw [← hbyte, UInt8.ofNat_toNat]⟩

/-! ## One item -/

theorem Item.length_bytes_pos (item : Item) : 0 < item.bytes.length := by
  obtain ⟨bytes, byte, h⟩ := item
  cases h <;> exact Nat.succ_pos _

/-- The reader takes an item for the byte it stands for. -/
theorem Item.unescape_append (item : Item) (rest : List UInt8) :
    unescape (item.bytes ++ rest) = (unescape rest).map (item.byte :: ·) := by
  obtain ⟨bytes, byte, h⟩ := item
  cases h with
  | plain hquote hbackslash => exact unescape_plain hbackslash hquote
  | letter h =>
    obtain ⟨hx, hbyte⟩ := simpleEscape?_of_mem_letters h
    exact unescape_letter hx hbyte
  | hex hc hd =>
    refine unescape_hex ?_
    rw [hexPair?, hexValue?_of_isHexOf hc, hexValue?_of_isHexOf hd]

/-- What the reader takes begins with an item. -/
theorem exists_item_of_unescape {b : UInt8} {rest bytes : List UInt8}
    (h : unescape (b :: rest) = .ok bytes) :
    ∃ (item : Item) (after bs : List UInt8), b :: rest = item.bytes ++ after ∧
      unescape after = .ok bs ∧ bytes = item.byte :: bs := by
  rcases unescape_cons_eq_ok h with ⟨hb, hq, bs, hbs, rfl⟩ |
    ⟨e, byte, after, bs, rfl, rfl, -, hbyte, hbs, rfl⟩ |
    ⟨high, low, byte, after, bs, rfl, rfl, hbyte, hbs, rfl⟩
  · exact ⟨⟨_, _, .plain hq hb⟩, rest, bs, rfl, hbs, rfl⟩
  · obtain ⟨c, d, hmem, rfl, rfl⟩ := exists_mem_letters hbyte
    exact ⟨⟨_, _, .letter hmem⟩, after, bs, rfl, hbs, rfl⟩
  · obtain ⟨⟨m, hm⟩, n, hn⟩ := of_hexPair?_eq_some hbyte
    rw [hexPair?, hm, hn] at hbyte
    obtain rfl := Option.some.inj hbyte
    obtain ⟨c, hc, rfl⟩ := exists_isHexOf hm
    obtain ⟨d, hd, rfl⟩ := exists_isHexOf hn
    exact ⟨⟨_, _, .hex hc hd⟩, after, bs, rfl, hbs, rfl⟩

/-! ## All items -/

theorem unescape_items (items : List Item) :
    unescape (items.flatMap Item.bytes) = .ok (items.map Item.byte) := by
  induction items with
  | nil => rw [List.flatMap_nil, unescape, List.map_nil]
  | cons item rest ih =>
    rw [List.flatMap_cons, Item.unescape_append, ih]
    rfl

theorem exists_items_of_unescape {body bytes : List UInt8} (h : unescape body = .ok bytes) :
    ∃ items : List Item, body = items.flatMap Item.bytes ∧ items.map Item.byte = bytes := by
  -- an item has one, two or four bytes, so the recursion is on the length
  match body with
  | [] =>
    rw [unescape] at h
    exact ⟨[], rfl, Except.ok.inj h⟩
  | b :: rest =>
    obtain ⟨item, after, bs, hbody, hafter, rfl⟩ := exists_item_of_unescape h
    have hshorter : after.length < (b :: rest).length := by
      have hpos := item.length_bytes_pos
      rw [hbody, List.length_append]
      omega
    obtain ⟨items, rfl, rfl⟩ := exists_items_of_unescape hafter
    exact ⟨item :: items, hbody, rfl⟩
termination_by body.length
decreasing_by exact hshorter

/-- **The reader takes exactly rows of items**, for the bytes they stand for. -/
theorem unescape_eq_ok_iff {body bytes : List UInt8} :
    unescape body = .ok bytes ↔
      ∃ items : List Item, body = items.flatMap Item.bytes ∧ items.map Item.byte = bytes := by
  constructor
  · exact exists_items_of_unescape
  · rintro ⟨items, rfl, rfl⟩
    exact unescape_items items

/-! ## Quoted texts -/

theorem readText_eq_ok_iff {text s : String} :
    readText text = .ok s ↔ ∃ body, text.toList = '"' :: body ++ ['"'] ∧
      unescape (Utf8.encode body) = .ok (Utf8.encode s.toList) := by
  constructor
  · intro h
    unfold readText at h
    split at h
    · exact absurd h (by simp)
    · next body hbody =>
      refine ⟨body, eq_quoted_of_unquoted? hbody, ?_⟩
      split at h
      · exact absurd h (by simp)
      · next bytes hbytes =>
        split at h
        · next chars hchars =>
          obtain rfl := Except.ok.inj h
          rw [hbytes, String.toList_ofList, Text.Utf8.decode_eq_ok_iff.1 hchars]
        · exact absurd h (by simp)
  · rintro ⟨body, htext, hbytes⟩
    simp only [readText, htext, unquoted?_quoted, hbytes, Text.Utf8.decode_encode,
      String.ofList_toList]

/-- **What is read as a text is what the grammar gives, for every text**, and whatever the grammar
does not give is a value that does not decode. -/
theorem readText_eq_ok_iff_quotes (text : String) :
    (∀ s, readText text = .ok s ↔ Quotes text s) ∧
      ((∃ fault message, readText text = .error fault ∧
          fault.failure = .valueDecode none message) ↔ ¬∃ s, Quotes text s) := by
  have hok : ∀ s, readText text = .ok s ↔ Quotes text s := fun s => by
    simp only [readText_eq_ok_iff, unescape_eq_ok_iff, Quotes, exists_and_left]
  refine ⟨hok, ?_⟩
  simp only [← hok]
  cases h : readText text with
  | ok s => simp
  | error fault => simp [ReadFault.failure]

/-- Escapes of every form in one text, two of them the bytes of one character; an escape that is
cut short; and a backslash before the closing quote, which has no quote left to end with. -/
example :
    (readText "\"\\x53\\x75\\x6D'\\'\\n\\0\\xC3\\x9f\\\\\"").toOption = some "Sum''\n\x00ß\\" ∧
      (readText "\"\\x4\"").toOption = none ∧ (readText "\"\\\"").toOption = none := by
  decide +kernel

end Literal
end Arbor
