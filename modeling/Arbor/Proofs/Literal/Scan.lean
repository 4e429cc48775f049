/-
# Where a literal ends

The reader of queries finds the end of a literal by looking ahead, without reading it.
`scan?_append_of_read` says that it finds the right one: a text that reads as a literal, before a
comma or a closing bracket, is what the scanner takes.  After a quoted literal any text may follow
(`scan?_append_of_readText`).

Between the quotes the two go in step: no item that the reader takes makes the scanner stop or
leaves it in the middle of an escape (`scansOver_of_unescape`).
-/

import Arbor.Proofs.Literal.Escape
import Arbor.Proofs.Text.Utf8
import Arbor.Query.Reader

namespace Arbor
namespace Literal

open Text (Utf8.encode)

/-! ## Quoted literals -/

/-- The scanner of quoted literals takes these characters and goes on as before. -/
def ScansOver (chars : List Char) : Prop :=
  ∀ s, scanQuoted? false (chars ++ s) = (scanQuoted? false s).map fun r => (chars ++ r.1, r.2)

theorem ScansOver.nil : ScansOver [] := fun s => by
  cases h : scanQuoted? false s <;> simp [h]

theorem ScansOver.append {a b : List Char} (ha : ScansOver a) (hb : ScansOver b) :
    ScansOver (a ++ b) := fun s => by
  rw [List.append_assoc, ha, hb, Option.map_map]
  simp [Function.comp_def]

theorem ScansOver.plain {c : Char} (hq : c ≠ '"') (hb : c ≠ '\\') : ScansOver [c] := fun s => by
  rw [List.singleton_append, scanQuoted?, if_neg hq, beq_false_of_ne hb]
  rfl

theorem ScansOver.escape (c : Char) : ScansOver ['\\', c] := fun s => by
  simp only [List.cons_append, List.nil_append]
  rw [scanQuoted?, if_neg (by decide), beq_self_eq_true, scanQuoted?, Option.map_map]
  rfl

/-- The scanner takes a closing quote and stops. -/
theorem ScansOver.quote {chars : List Char} (h : ScansOver chars) (u : List Char) :
    scanQuoted? false (chars ++ '"' :: u) = some (chars ++ ['"'], u) := by
  rw [h, scanQuoted?, if_pos rfl]
  rfl

theorem toNat_lt_of_simpleEscape? {e byte : UInt8} (h : simpleEscape? e = some byte) :
    e.toNat < 128 := by
  unfold simpleEscape? at h
  split_ifs at h with h₁ h₂ h₃ h₄ h₅
  · rcases h₁ with rfl | rfl | rfl <;> decide
  · subst h₂; decide
  · subst h₃; decide
  · subst h₄; decide
  · subst h₅; decide

/-- A hexadecimal digit is ASCII, and neither a quote nor a backslash. -/
theorem of_hexValue?_eq_some {code n : Nat} (h : Text.hexValue? code = some n) :
    code < 128 ∧ code ≠ 0x22 ∧ code ≠ 0x5C := by
  unfold Text.hexValue? at h
  split_ifs at h <;> omega

theorem of_hexPair?_eq_some {high low byte : UInt8} (h : hexPair? high low = some byte) :
    (∃ n, Text.hexValue? high.toNat = some n) ∧ ∃ n, Text.hexValue? low.toNat = some n := by
  unfold hexPair? at h
  split at h
  · next m n hm hn => exact ⟨⟨m, hm⟩, n, hn⟩
  · exact absurd h (by simp)

theorem ScansOver.of_hexValue? {c : Char} {n : Nat} (h : Text.hexValue? c.toNat = some n) :
    ScansOver [c] := by
  obtain ⟨-, hq, hb⟩ := of_hexValue?_eq_some h
  refine ScansOver.plain ?_ ?_
  · rintro rfl; exact hq rfl
  · rintro rfl; exact hb rfl

theorem unescape_append_of_le {bytes rest : List UInt8} (h : ∀ b ∈ bytes, 128 ≤ b.toNat) :
    unescape (bytes ++ rest) = (unescape rest).map (bytes ++ ·) := by
  induction bytes with
  | nil => cases h : unescape rest <;> simp [h, Except.map]
  | cons b bytes ih =>
    have hb := h b List.mem_cons_self
    have hplain : b ≠ 0x5C ∧ b ≠ 0x22 := by
      constructor <;> rintro rfl <;> exact absurd hb (by decide)
    rw [List.cons_append, unescape_plain hplain.1 hplain.2,
      ih fun e he => h e (List.mem_cons_of_mem _ he)]
    cases unescape rest <;> rfl

/-- **The scanner goes over what the reader takes.** -/
theorem scansOver_of_unescape (chars : List Char) {bytes : List UInt8}
    (h : unescape (Utf8.encode chars) = .ok bytes) : ScansOver chars := by
  -- an item has one, two or four characters, so the recursion is on the length
  match chars with
  | [] => exact ScansOver.nil
  | c :: rest =>
    rw [Text.Utf8.encode_cons] at h
    by_cases hc : c.toNat < 128
    · rw [Text.Utf8.utf8EncodeChar_of_lt hc, List.singleton_append] at h
      have hcode : (UInt8.ofNat c.toNat).toNat = c.toNat := by
        rw [UInt8.toNat_ofNat']; omega
      rcases unescape_cons_eq_ok h with ⟨hb, hq, bs, hbs, -⟩ |
        ⟨e, x, l, bs, hb, hl, -, hx, hbs, -⟩ | ⟨high, low, x, l, bs, hb, hl, hx, hbs, -⟩
      · have hplain : ScansOver [c] := by
          refine ScansOver.plain ?_ ?_
          · rintro rfl; exact hq rfl
          · rintro rfl; exact hb rfl
        exact hplain.append (scansOver_of_unescape rest hbs)
      · obtain rfl : c = '\\' := by
          rw [← Char.toNat_inj, ← hcode, hb]; rfl
        obtain ⟨d, rest', rfl, -, rfl⟩ :=
          Text.Utf8.exists_cons_of_encode_eq (toNat_lt_of_simpleEscape? hx) hl
        exact (ScansOver.escape d).append (scansOver_of_unescape rest' hbs)
      · obtain rfl : c = '\\' := by
          rw [← Char.toNat_inj, ← hcode, hb]; rfl
        obtain ⟨⟨m, hm⟩, n, hn⟩ := of_hexPair?_eq_some hx
        obtain ⟨d, rest₁, rfl, -, hl₁⟩ := Text.Utf8.exists_cons_of_encode_eq (by decide) hl
        obtain ⟨d₁, rest₂, rfl, hd₁, hl₂⟩ :=
          Text.Utf8.exists_cons_of_encode_eq (of_hexValue?_eq_some hm).1 hl₁.symm
        obtain ⟨d₂, rest₃, rfl, hd₂, rfl⟩ :=
          Text.Utf8.exists_cons_of_encode_eq (of_hexValue?_eq_some hn).1 hl₂.symm
        have h₁ : ScansOver [d₁] := ScansOver.of_hexValue? (hd₁ ▸ hm)
        have h₂ : ScansOver [d₂] := ScansOver.of_hexValue? (hd₂ ▸ hn)
        exact (ScansOver.escape d).append (h₁.append (h₂.append (scansOver_of_unescape rest₃ hbs)))
    · have hbytes := fun b => Text.Utf8.le_toNat_of_mem_utf8EncodeChar (b := b) (Nat.not_lt.1 hc)
      rw [unescape_append_of_le hbytes] at h
      obtain ⟨bs, hbs, -⟩ := map_eq_ok_iff.1 h
      have hplain : ScansOver [c] := by
        refine ScansOver.plain ?_ ?_ <;> rintro rfl <;> exact hc (by decide)
      exact hplain.append (scansOver_of_unescape rest hbs)
termination_by chars.length

/-- A text between quotes, and what stands there. -/
theorem eq_quoted_of_unquoted? {t inner : List Char} (h : unquoted? t = some inner) :
    t = '"' :: inner ++ ['"'] := by
  unfold unquoted? at h
  split at h
  · next rest =>
    split_ifs at h with hlast
    obtain rfl := Option.some.inj h
    have hne : rest ≠ [] := by rintro rfl; exact absurd hlast (by simp)
    rw [List.getLast?_eq_some_getLast hne, Option.some.injEq] at hlast
    rw [List.cons_append, ← hlast, List.dropLast_concat_getLast]
  · exact absurd h (by simp)

/-- **The scanner takes a quoted literal whole, whatever follows.** -/
theorem scan?_append_of_readText {t s : String} (h : readText t = .ok s) (u : List Char) :
    scan? (t.toList ++ u) = some (t.toList, u) := by
  unfold readText at h
  split at h
  · exact absurd h (by simp)
  · next inner hinner =>
    split at h
    · exact absurd h (by simp)
    · next bytes hbytes =>
      rw [eq_quoted_of_unquoted? hinner, List.cons_append, List.cons_append, List.append_assoc,
        scan?, List.singleton_append, (scansOver_of_unescape inner hbytes).quote u]
      rfl

/-! ## Other literals -/

/-- A text that can end a predicate. -/
def EndsPredicate (u : List Char) : Prop := u.head? = some ',' ∨ u.head? = some ']'

theorem scanBare?_append {t u : List Char} (ht : ∀ c ∈ t, c ≠ ',' ∧ c ≠ ']')
    (hu : EndsPredicate u) : scanBare? (t ++ u) = some (t, u) := by
  induction t with
  | nil =>
    obtain ⟨c, rest, rfl, hc⟩ : ∃ c rest, u = c :: rest ∧ (c = ',' ∨ c = ']') := by
      cases u with
      | nil => rcases hu with hu | hu <;> exact absurd hu (by simp)
      | cons c rest => exact ⟨c, rest, rfl, hu.imp Option.some.inj Option.some.inj⟩
    rw [List.nil_append, scanBare?, if_pos hc]
  | cons c rest ih =>
    have hc := ht c List.mem_cons_self
    rw [List.cons_append, scanBare?, if_neg (not_or.2 hc),
      ih fun d hd => ht d (List.mem_cons_of_mem _ hd)]
    rfl

theorem scan?_eq_scanBare? {s : List Char} (h : s.head? ≠ some '"') : scan? s = scanBare? s := by
  unfold scan?
  split
  · exact absurd rfl h
  · rfl

theorem scan?_append_of_bare {t u : List Char} (ht : t ≠ []) (hq : t.head? ≠ some '"')
    (hbare : ∀ c ∈ t, c ≠ ',' ∧ c ≠ ']') (hu : EndsPredicate u) :
    scan? (t ++ u) = some (t, u) := by
  obtain ⟨c, rest, rfl⟩ := List.exists_cons_of_ne_nil ht
  rw [scan?_eq_scanBare? (s := c :: rest ++ u) hq, scanBare?_append hbare hu]

theorem exists_sign_append (t : List Char) :
    ∃ sign, t = sign ++ (splitSign t).2 ∧ ∀ c ∈ sign, c = '+' ∨ c = '-' := by
  unfold splitSign
  split
  · exact ⟨['+'], rfl, by simp⟩
  · exact ⟨['-'], rfl, by simp⟩
  · exact ⟨[], rfl, by simp⟩

/-- An integer is a sign, if there is one, and digits. -/
theorem of_readInt_eq_ok {t : String} {i : Int64} (h : readInt t = .ok i) :
    t.toList ≠ [] ∧ ∀ c ∈ t.toList, c.isDigit = true ∨ c = '+' ∨ c = '-' := by
  obtain ⟨sign, ht, hsign⟩ := exists_sign_append t.toList
  unfold readInt at h
  dsimp only at h
  split at h
  · exact absurd h (by simp)
  · next hdigits =>
    rw [Bool.or_eq_true, not_or, List.isEmpty_iff, Bool.not_eq_true, Bool.not_eq_false',
      List.all_eq_true] at hdigits
    rw [ht]
    refine ⟨List.append_ne_nil_of_right_ne_nil _ hdigits.1, fun c hc => ?_⟩
    rcases List.mem_append.1 hc with hc | hc
    · exact Or.inr (hsign c hc)
    · exact Or.inl (hdigits.2 c hc)

/-- **Before a comma or a closing bracket the scanner takes what reads as a literal.** -/
theorem scan?_append_of_read {t : String} {l : Literal} (h : read t = .ok l) {u : List Char}
    (hu : EndsPredicate u) : scan? (t.toList ++ u) = some (t.toList, u) := by
  unfold read at h
  split_ifs at h with htrue hfalse hquote
  · subst htrue
    exact scan?_append_of_bare (t := ['T', 'r', 'u', 'e']) (by simp) (by simp) (by simp) hu
  · subst hfalse
    exact scan?_append_of_bare (t := ['F', 'a', 'l', 's', 'e']) (by simp) (by simp) (by simp) hu
  · obtain ⟨s, hs, -⟩ := map_eq_ok_iff.1 h
    exact scan?_append_of_readText hs u
  · obtain ⟨i, hi, -⟩ := map_eq_ok_iff.1 h
    obtain ⟨hne, hchars⟩ := of_readInt_eq_ok hi
    refine scan?_append_of_bare hne hquote (fun c hc => ?_) hu
    rcases hchars c hc with hd | rfl | rfl
    · constructor <;> rintro rfl <;> exact absurd hd (by decide)
    · decide
    · decide

end Literal
end Arbor
