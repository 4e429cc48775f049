/-
# UTF-8, written and read

`Utf8.decode` takes back what `Utf8.encode` writes (`decode_encode`) and takes nothing else
(`decode_eq_ok_iff`): no character has a second form.  Bytes below 128 are characters of their own
(`exists_cons_of_encode_eq`).

The reader is followed character by character.  `lead?` announces how many bytes follow the first
one (`lead?_two`, `lead?_three`, `lead?_four`), and each of these adds six bits
(`decodeFrom_tail`, `decodeFrom_lastTail`).  A code point that takes three bytes and starts with
`E0` is at least `0x800`, and one that starts with `ED` lies below the surrogates, so the tighter
bounds on the second byte hold; likewise for four bytes.  The other way round, a first byte announces
no more than these cases (`lead?_eq_some`), and by its bounds the code point is one that is written
with as many bytes as were read (`utf8EncodeChar_two`, `utf8EncodeChar_three`,
`utf8EncodeChar_four`).

Texts have the order of their bytes (`encode_lt_encode_iff`).
-/

import Arbor.Proofs.Result
import Arbor.Text.Utf8
import Mathlib.Tactic.SplitIfs

namespace Arbor
namespace Text
namespace Utf8

theorem lead?_one : ∀ n < 128, lead? (UInt8.ofNat n) = some ⟨0, 0x80, 0xBF, n, 1⟩ := by
  decide

theorem lead?_two :
    ∀ n < 32, 2 ≤ n → lead? (UInt8.ofNat (n + 0xC0)) = some ⟨1, 0x80, 0xBF, n, 1⟩ := by
  decide

theorem lead?_three :
    ∀ n < 16, lead? (UInt8.ofNat (n + 0xE0)) =
      some ⟨2, if n = 0 then 0xA0 else 0x80, if n = 13 then 0x9F else 0xBF, n, 1⟩ := by
  decide

theorem lead?_four :
    ∀ n < 5, lead? (UInt8.ofNat (n + 0xF0)) =
      some ⟨3, if n = 0 then 0x90 else 0x80, if n = 4 then 0x8F else 0xBF, n, 1⟩ := by
  decide

section Tail

variable {index m value seen : Nat} {low high : UInt8} {rest : List UInt8}

/-- A byte with six bits `m` is taken between bounds that admit it. -/
theorem tail_mem (hm : m < 64) (hlow : low.toNat ≤ m + 0x80) (hhigh : m + 0x80 ≤ high.toNat) :
    (low ≤ UInt8.ofNat (m + 0x80) ∧ UInt8.ofNat (m + 0x80) ≤ high) ∧
      (UInt8.ofNat (m + 0x80)).toNat = m + 0x80 := by
  have hb : (UInt8.ofNat (m + 0x80)).toNat = m + 0x80 := by
    rw [UInt8.toNat_ofNat']; omega
  rw [UInt8.le_iff_toNat_le, UInt8.le_iff_toNat_le, hb]
  exact ⟨⟨hlow, hhigh⟩, rfl⟩

/-- A byte inside a character adds six bits to it. -/
theorem decodeFrom_tail (owed : Nat) (hm : m < 64) (hlow : low.toNat ≤ m + 0x80)
    (hhigh : m + 0x80 ≤ high.toNat) :
    decodeFrom index (some ⟨owed + 2, low, high, value, seen⟩) (UInt8.ofNat (m + 0x80) :: rest) =
      decodeFrom index (some ⟨owed + 1, 0x80, 0xBF, value * 64 + m, seen + 1⟩) rest := by
  obtain ⟨hin, hb⟩ := tail_mem hm hlow hhigh
  rw [decodeFrom, if_pos hin, if_neg (show ¬owed + 2 = 1 by omega), Pending.push, hb,
    Nat.add_sub_cancel]
  rfl

/-- The last byte of a character completes it. -/
theorem decodeFrom_lastTail (hm : m < 64) (hlow : low.toNat ≤ m + 0x80)
    (hhigh : m + 0x80 ≤ high.toNat) :
    decodeFrom index (some ⟨1, low, high, value, seen⟩) (UInt8.ofNat (m + 0x80) :: rest) =
      (decodeFrom (index + seen + 1) none rest).map (Char.ofNat (value * 64 + m) :: ·) := by
  obtain ⟨hin, hb⟩ := tail_mem hm hlow hhigh
  rw [decodeFrom, if_pos hin, if_pos rfl, Pending.push, hb, Nat.add_sub_cancel]

end Tail

/-- The byte of a character below 128 is read as that character. -/
theorem decodeFrom_lead_one {v : Nat} (h : v < 128) (index : Nat) (rest : List UInt8) :
    decodeFrom index none (UInt8.ofNat v :: rest) =
      (decodeFrom (index + 1) none rest).map (Char.ofNat v :: ·) := by
  rw [decodeFrom, lead?_one v h]
  rfl

/-- After a first byte that announces others, the character is pending. -/
theorem decodeFrom_lead {b : UInt8} {owed value : Nat} {low high : UInt8}
    (h : lead? b = some ⟨owed + 1, low, high, value, 1⟩) (index : Nat) (rest : List UInt8) :
    decodeFrom index none (b :: rest) =
      decodeFrom index (some ⟨owed + 1, low, high, value, 1⟩) rest := by
  rw [decodeFrom, h]
  rfl

/-- **The bytes of a character are read as that character.** -/
theorem decodeFrom_utf8EncodeChar (c : Char) (index : Nat) (rest : List UInt8) :
    ∃ n, decodeFrom index none (String.utf8EncodeChar c ++ rest) =
      (decodeFrom (index + n) none rest).map (c :: ·) := by
  have hc : c.toNat < 0xD800 ∨ (0xDFFF < c.toNat ∧ c.toNat < 0x110000) := c.valid
  have hofNat : Char.ofNat c.toNat = c := Char.ofNat_toNat c
  unfold String.utf8EncodeChar
  simp only [← Char.toNat_val] at hc hofNat ⊢
  generalize c.val.toNat = v at hc hofNat ⊢
  split
  · refine ⟨1, ?_⟩
    rw [List.singleton_append, decodeFrom_lead_one (by omega), hofNat]
  · split
    · refine ⟨2, ?_⟩
      rw [Nat.mod_eq_of_lt (show v / 64 < 32 by omega)]
      simp only [List.cons_append, List.nil_append]
      rw [decodeFrom_lead (lead?_two (v / 64) (by omega) (by omega)),
        decodeFrom_lastTail (by omega) (by simp) (by simp; omega),
        show v / 64 * 64 + v % 64 = v by omega, hofNat]
    · split
      · refine ⟨3, ?_⟩
        rw [Nat.mod_eq_of_lt (show v / 4096 < 16 by omega)]
        simp only [List.cons_append, List.nil_append]
        rw [decodeFrom_lead (lead?_three (v / 4096) (by omega)),
          decodeFrom_tail 0 (by omega) (by split <;> simp; omega) (by split <;> simp <;> omega),
          decodeFrom_lastTail (by omega) (by simp) (by simp; omega),
          show (v / 4096 * 64 + v / 64 % 64) * 64 + v % 64 = v by omega, hofNat]
      · refine ⟨4, ?_⟩
        rw [Nat.mod_eq_of_lt (show v / 262144 < 8 by omega)]
        simp only [List.cons_append, List.nil_append]
        rw [decodeFrom_lead (lead?_four (v / 262144) (by omega)),
          decodeFrom_tail 1 (by omega) (by split <;> simp; omega) (by split <;> simp <;> omega),
          decodeFrom_tail 0 (by omega) (by simp) (by simp; omega),
          decodeFrom_lastTail (by omega) (by simp) (by simp; omega),
          show ((v / 262144 * 64 + v / 4096 % 64) * 64 + v / 64 % 64) * 64 + v % 64 = v by omega,
          hofNat]

theorem encode_cons (c : Char) (cs : List Char) :
    encode (c :: cs) = String.utf8EncodeChar c ++ encode cs := List.flatMap_cons

theorem decodeFrom_encode (cs : List Char) (index : Nat) :
    decodeFrom index none (encode cs) = .ok cs := by
  induction cs generalizing index with
  | nil => rfl
  | cons c rest ih =>
    obtain ⟨n, hn⟩ := decodeFrom_utf8EncodeChar c index (encode rest)
    rw [encode_cons, hn, ih]
    rfl

/-- **Reading takes back what writing made.** -/
theorem decode_encode (cs : List Char) : decode (encode cs) = .ok cs := decodeFrom_encode cs 0

/-! ## Reading, then writing -/

/-- A character below 128 is one byte. -/
theorem utf8EncodeChar_of_lt {c : Char} (h : c.toNat < 128) :
    String.utf8EncodeChar c = [UInt8.ofNat c.toNat] := by
  rw [String.utf8EncodeChar, if_pos (show c.val.toNat ≤ 0x7f from Nat.le_of_lt_succ h)]
  rfl

theorem toNat_ofNat_of_isValidChar {v : Nat} (h : v.isValidChar) : (Char.ofNat v).toNat = v := by
  rw [Char.ofNat, dif_pos h]
  rfl

section Scalar

variable {n m k l : Nat}

theorem utf8EncodeChar_two (hn : 2 ≤ n) (hn' : n < 32) (hm : m < 64) :
    String.utf8EncodeChar (Char.ofNat (n * 64 + m)) =
      [UInt8.ofNat (n + 0xC0), UInt8.ofNat (m + 0x80)] := by
  have hv : (Char.ofNat (n * 64 + m)).toNat = n * 64 + m :=
    toNat_ofNat_of_isValidChar (Or.inl (by omega))
  have h₀ : (n * 64 + m) / 64 % 32 = n := by omega
  have h₁ : (n * 64 + m) % 64 = m := by omega
  rw [String.utf8EncodeChar]
  simp only [Char.toNat_val, hv]
  rw [if_neg (by omega), if_pos (by omega), h₀, h₁]

theorem utf8EncodeChar_three (hn : n < 16) (hm : m < 64) (hk : k < 64) (hlow : n = 0 → 32 ≤ m)
    (hhigh : n = 13 → m < 32) :
    String.utf8EncodeChar (Char.ofNat ((n * 64 + m) * 64 + k)) =
      [UInt8.ofNat (n + 0xE0), UInt8.ofNat (m + 0x80), UInt8.ofNat (k + 0x80)] := by
  have hv : (Char.ofNat ((n * 64 + m) * 64 + k)).toNat = (n * 64 + m) * 64 + k :=
    toNat_ofNat_of_isValidChar (by
      show _ < 0xD800 ∨ 0xDFFF < _ ∧ _ < 0x110000
      omega)
  have h₀ : ((n * 64 + m) * 64 + k) / 4096 % 16 = n := by omega
  have h₁ : ((n * 64 + m) * 64 + k) / 64 % 64 = m := by omega
  have h₂ : ((n * 64 + m) * 64 + k) % 64 = k := by omega
  rw [String.utf8EncodeChar]
  simp only [Char.toNat_val, hv]
  rw [if_neg (by omega), if_neg (by omega), if_pos (by omega), h₀, h₁, h₂]

theorem utf8EncodeChar_four (hn : n < 5) (hm : m < 64) (hk : k < 64) (hl : l < 64)
    (hlow : n = 0 → 16 ≤ m) (hhigh : n = 4 → m < 16) :
    String.utf8EncodeChar (Char.ofNat (((n * 64 + m) * 64 + k) * 64 + l)) =
      [UInt8.ofNat (n + 0xF0), UInt8.ofNat (m + 0x80), UInt8.ofNat (k + 0x80),
        UInt8.ofNat (l + 0x80)] := by
  have hv : (Char.ofNat (((n * 64 + m) * 64 + k) * 64 + l)).toNat =
      ((n * 64 + m) * 64 + k) * 64 + l :=
    toNat_ofNat_of_isValidChar (Or.inr (by omega))
  have h₀ : (((n * 64 + m) * 64 + k) * 64 + l) / 262144 % 8 = n := by omega
  have h₁ : (((n * 64 + m) * 64 + k) * 64 + l) / 4096 % 64 = m := by omega
  have h₂ : (((n * 64 + m) * 64 + k) * 64 + l) / 64 % 64 = k := by omega
  have h₃ : (((n * 64 + m) * 64 + k) * 64 + l) % 64 = l := by omega
  rw [String.utf8EncodeChar]
  simp only [Char.toNat_val, hv]
  rw [if_neg (by omega), if_neg (by omega), if_neg (by omega), h₀, h₁, h₂, h₃]

end Scalar

/-- What a byte that begins a character announces: how many bytes follow, and bounds for the next
one that leave out what has a shorter form, the surrogates, and what is no code point. -/
theorem lead?_eq_some {b : UInt8} {p : Pending} (h : lead? b = some p) :
    (∃ n < 128, b = UInt8.ofNat n ∧ p = ⟨0, 0x80, 0xBF, n, 1⟩) ∨
    (∃ n < 32, 2 ≤ n ∧ b = UInt8.ofNat (n + 0xC0) ∧ p = ⟨1, 0x80, 0xBF, n, 1⟩) ∨
    (∃ n < 16, b = UInt8.ofNat (n + 0xE0) ∧ p =
      ⟨2, if n = 0 then 0xA0 else 0x80, if n = 13 then 0x9F else 0xBF, n, 1⟩) ∨
    ∃ n < 5, b = UInt8.ofNat (n + 0xF0) ∧ p =
      ⟨3, if n = 0 then 0x90 else 0x80, if n = 4 then 0x8F else 0xBF, n, 1⟩ := by
  have hof : ∀ {n}, b.toNat = n → b = UInt8.ofNat n := fun e => by rw [← e, UInt8.ofNat_toNat]
  unfold lead? at h
  simp only [UInt8.le_iff_toNat_le, UInt8.reduceToNat] at h
  split_ifs at h with h₁ h₂ h₃ h₄ h₅ h₆ h₇ h₈ <;> obtain rfl := Option.some.inj h
  · exact Or.inl ⟨b.toNat, by omega, hof rfl, rfl⟩
  · exact Or.inr (Or.inl ⟨b.toNat - 0xC0, by omega, by omega, hof (by omega), rfl⟩)
  · exact Or.inr (Or.inr (Or.inl ⟨0, by decide, h₃, rfl⟩))
  · exact Or.inr (Or.inr (Or.inl ⟨13, by decide, h₄, rfl⟩))
  · have h₃' : b.toNat ≠ 0xE0 := fun e => h₃ (hof e)
    have h₄' : b.toNat ≠ 0xED := fun e => h₄ (hof e)
    refine Or.inr (Or.inr (Or.inl ⟨b.toNat - 0xE0, by omega, hof (by omega), ?_⟩))
    rw [if_neg (by omega), if_neg (by omega)]
  · exact Or.inr (Or.inr (Or.inr ⟨0, by decide, h₆, rfl⟩))
  · refine Or.inr (Or.inr (Or.inr ⟨b.toNat - 0xF0, by omega, hof (by omega), ?_⟩))
    rw [if_neg (by omega), if_neg (by omega)]
  · exact Or.inr (Or.inr (Or.inr ⟨4, by decide, h₈, rfl⟩))

section Tail

variable {index value seen owed : Nat} {low high : UInt8} {bytes : List UInt8} {cs : List Char}

/-- A byte between bounds that admit only bytes with six bits. -/
theorem exists_of_between {b : UInt8} (hlow : 0x80 ≤ low.toNat) (hhigh : high.toNat ≤ 0xBF)
    (h : low ≤ b ∧ b ≤ high) :
    ∃ m < 64, b = UInt8.ofNat (m + 0x80) ∧ b.toNat - 0x80 = m ∧ low.toNat ≤ m + 0x80 ∧
      m + 0x80 ≤ high.toNat := by
  rw [UInt8.le_iff_toNat_le, UInt8.le_iff_toNat_le] at h
  refine ⟨b.toNat - 0x80, by omega, ?_, rfl, by omega, by omega⟩
  rw [Nat.sub_add_cancel (by omega), UInt8.ofNat_toNat]

/-- A byte inside a character holds six bits of it. -/
theorem of_decodeFrom_tail (hlow : 0x80 ≤ low.toNat) (hhigh : high.toNat ≤ 0xBF)
    (h : decodeFrom index (some ⟨owed + 2, low, high, value, seen⟩) bytes = .ok cs) :
    ∃ m < 64, ∃ rest, bytes = UInt8.ofNat (m + 0x80) :: rest ∧
      low.toNat ≤ m + 0x80 ∧ m + 0x80 ≤ high.toNat ∧
      decodeFrom index (some ⟨owed + 1, 0x80, 0xBF, value * 64 + m, seen + 1⟩) rest = .ok cs := by
  cases bytes with
  | nil => exact absurd h (by simp [decodeFrom])
  | cons b rest =>
    rw [decodeFrom] at h
    split at h
    · next hb =>
      obtain ⟨m, hm, rfl, hbits, hl, hh⟩ := exists_of_between hlow hhigh hb
      rw [if_neg (show ¬owed + 2 = 1 by omega), Pending.push, hbits] at h
      exact ⟨m, hm, rest, rfl, hl, hh, h⟩
    · exact absurd h (by simp)

/-- With the last byte of a character it is complete. -/
theorem of_decodeFrom_lastTail (hlow : 0x80 ≤ low.toNat) (hhigh : high.toNat ≤ 0xBF)
    (h : decodeFrom index (some ⟨1, low, high, value, seen⟩) bytes = .ok cs) :
    ∃ m < 64, ∃ rest cs', bytes = UInt8.ofNat (m + 0x80) :: rest ∧
      low.toNat ≤ m + 0x80 ∧ m + 0x80 ≤ high.toNat ∧ cs = Char.ofNat (value * 64 + m) :: cs' ∧
      ∃ i, decodeFrom i none rest = .ok cs' := by
  cases bytes with
  | nil => exact absurd h (by simp [decodeFrom])
  | cons b rest =>
    rw [decodeFrom] at h
    split at h
    · next hb =>
      obtain ⟨m, hm, rfl, hbits, hl, hh⟩ := exists_of_between hlow hhigh hb
      rw [if_pos rfl, Pending.push, hbits] at h
      obtain ⟨cs', hrest, rfl⟩ := map_eq_ok_iff.1 h
      exact ⟨m, hm, rest, cs', rfl, hl, hh, rfl, _, hrest⟩
    · exact absurd h (by simp)

end Tail

/-- **What is read first are the bytes of a character.** -/
theorem exists_of_decodeFrom {b : UInt8} {rest : List UInt8} {cs : List Char} {index : Nat}
    (h : decodeFrom index none (b :: rest) = .ok cs) :
    ∃ c after cs' i, b :: rest = String.utf8EncodeChar c ++ after ∧ cs = c :: cs' ∧
      decodeFrom i none after = .ok cs' := by
  rw [decodeFrom] at h
  split at h
  · exact absurd h (by simp)
  · next p hp =>
    rcases lead?_eq_some hp with ⟨n, hn, rfl, rfl⟩ | ⟨n, hn, hn', rfl, rfl⟩ | ⟨n, hn, rfl, rfl⟩ |
      ⟨n, hn, rfl, rfl⟩
    · rw [if_pos rfl] at h
      obtain ⟨cs', hrest, rfl⟩ := map_eq_ok_iff.1 h
      have hv : (Char.ofNat n).toNat = n := toNat_ofNat_of_isValidChar (Or.inl (by omega))
      refine ⟨_, rest, cs', _, ?_, rfl, hrest⟩
      rw [utf8EncodeChar_of_lt (by rw [hv]; exact hn), hv]
      rfl
    · rw [if_neg (Nat.succ_ne_zero 0)] at h
      obtain ⟨m, hm, after, cs', rfl, -, -, rfl, i, hrest⟩ :=
        of_decodeFrom_lastTail (by decide) (by decide) h
      exact ⟨_, after, cs', i, by rw [utf8EncodeChar_two hn' hn hm]; rfl, rfl, hrest⟩
    · rw [if_neg (Nat.succ_ne_zero 1)] at h
      obtain ⟨m, hm, rest, rfl, hlow, hhigh, h⟩ :=
        of_decodeFrom_tail (by split <;> decide) (by split <;> decide) h
      obtain ⟨k, hk, after, cs', rfl, -, -, rfl, i, hrest⟩ :=
        of_decodeFrom_lastTail (by decide) (by decide) h
      have hzero : n = 0 → 32 ≤ m := fun e => by
        rw [if_pos e] at hlow
        have hlow : 160 ≤ m + 128 := hlow
        omega
      have hthirteen : n = 13 → m < 32 := fun e => by
        rw [if_pos e] at hhigh
        have hhigh : m + 128 ≤ 159 := hhigh
        omega
      exact ⟨_, after, cs', i, by rw [utf8EncodeChar_three hn hm hk hzero hthirteen]; rfl, rfl,
        hrest⟩
    · rw [if_neg (Nat.succ_ne_zero 2)] at h
      obtain ⟨m, hm, rest, rfl, hlow, hhigh, h⟩ :=
        of_decodeFrom_tail (by split <;> decide) (by split <;> decide) h
      obtain ⟨k, hk, rest, rfl, -, -, h⟩ := of_decodeFrom_tail (by decide) (by decide) h
      obtain ⟨l, hl, after, cs', rfl, -, -, rfl, i, hrest⟩ :=
        of_decodeFrom_lastTail (by decide) (by decide) h
      have hzero : n = 0 → 16 ≤ m := fun e => by
        rw [if_pos e] at hlow
        have hlow : 144 ≤ m + 128 := hlow
        omega
      have hfour : n = 4 → m < 16 := fun e => by
        rw [if_pos e] at hhigh
        have hhigh : m + 128 ≤ 143 := hhigh
        omega
      exact ⟨_, after, cs', i, by rw [utf8EncodeChar_four hn hm hk hl hzero hfour]; rfl, rfl,
        hrest⟩

theorem encode_of_decodeFrom {bytes : List UInt8} {cs : List Char} {index : Nat}
    (h : decodeFrom index none bytes = .ok cs) : encode cs = bytes := by
  -- a character takes one to four bytes, so the recursion is on the length
  match bytes with
  | [] =>
    obtain rfl := Except.ok.inj h
    rfl
  | b :: rest =>
    obtain ⟨c, after, cs', i, hbytes, rfl, hrest⟩ := exists_of_decodeFrom h
    have hshorter : after.length < (b :: rest).length := by
      have hpos := List.length_pos_iff.2 (String.utf8EncodeChar_ne_nil (c := c))
      rw [hbytes, List.length_append]
      omega
    rw [encode_cons, encode_of_decodeFrom hrest, hbytes]
termination_by bytes.length
decreasing_by exact hshorter

/-- **Bytes are read as a text exactly if they are those of the text.** -/
theorem decode_eq_ok_iff {bytes : List UInt8} {cs : List Char} :
    decode bytes = .ok cs ↔ bytes = encode cs := by
  constructor
  · intro h
    exact (encode_of_decodeFrom h).symm
  · rintro rfl
    exact decode_encode cs

/-! ## ASCII -/

/-- The bytes of other characters are not ASCII. -/
theorem le_toNat_of_mem_utf8EncodeChar {c : Char} (h : 128 ≤ c.toNat) {b : UInt8}
    (hb : b ∈ String.utf8EncodeChar c) : 128 ≤ b.toNat := by
  have hc : ¬c.val.toNat ≤ 0x7f := Nat.not_le.2 h
  rw [String.utf8EncodeChar, if_neg hc] at hb
  split at hb
  · simp only [List.mem_cons, List.not_mem_nil, or_false] at hb
    rcases hb with rfl | rfl <;> rw [UInt8.toNat_ofNat'] <;> omega
  · split at hb <;> simp only [List.mem_cons, List.not_mem_nil, or_false] at hb
    · rcases hb with rfl | rfl | rfl <;> rw [UInt8.toNat_ofNat'] <;> omega
    · rcases hb with rfl | rfl | rfl | rfl <;> rw [UInt8.toNat_ofNat'] <;> omega

/-- An ASCII byte at the start of a text is its first character. -/
theorem exists_cons_of_encode_eq {cs : List Char} {b : UInt8} {bytes : List UInt8}
    (hb : b.toNat < 128) (h : encode cs = b :: bytes) :
    ∃ c rest, cs = c :: rest ∧ c.toNat = b.toNat ∧ bytes = encode rest := by
  cases cs with
  | nil => exact absurd h (by simp [encode])
  | cons c rest =>
    rw [encode_cons] at h
    by_cases hc : c.toNat < 128
    · rw [utf8EncodeChar_of_lt hc, List.singleton_append, List.cons.injEq] at h
      refine ⟨c, rest, rfl, ?_, h.2.symm⟩
      rw [← h.1, UInt8.toNat_ofNat']
      omega
    · obtain ⟨a, l, hl⟩ := List.exists_cons_of_ne_nil (String.utf8EncodeChar_ne_nil (c := c))
      rw [hl, List.cons_append, List.cons.injEq] at h
      have ha := le_toNat_of_mem_utf8EncodeChar (Nat.not_lt.1 hc) (hl ▸ List.mem_cons_self)
      rw [h.1] at ha
      omega

/-! ## Order -/

theorem ofNat_cons_lt_iff {m n : Nat} (hm : m < 256) (hn : n < 256) {r s : List UInt8} :
    UInt8.ofNat m :: r < UInt8.ofNat n :: s ↔ m < n ∨ m = n ∧ r < s := by
  rw [List.cons_lt_cons_iff, UInt8.lt_iff_toNat_lt, ← UInt8.toNat_inj, UInt8.toNat_ofNat',
    UInt8.toNat_ofNat', Nat.mod_eq_of_lt hm, Nat.mod_eq_of_lt hn]

/-- The bytes of a character come before those of a later one, whatever follows. -/
theorem utf8EncodeChar_append_lt {c d : Char} (h : c.toNat < d.toNat) (r s : List UInt8) :
    String.utf8EncodeChar c ++ r < String.utf8EncodeChar d ++ s := by
  have hd : d.toNat < 0x110000 := by
    have hvalid : d.toNat < 0xD800 ∨ 0xDFFF < d.toNat ∧ d.toNat < 0x110000 := d.valid
    omega
  have htwo : ∀ n : Nat, n / 4096 = n / 64 / 64 := fun n => by rw [Nat.div_div_eq_div_mul]
  have hthree : ∀ n : Nat, n / 262144 = n / 64 / 64 / 64 := fun n => by
    rw [Nat.div_div_eq_div_mul, Nat.div_div_eq_div_mul]
  unfold String.utf8EncodeChar
  simp only [Char.toNat_val, htwo, hthree]
  -- the first byte grows with the number of bytes, and as many bytes are digits in base 64
  split_ifs <;> simp only [List.cons_append, List.nil_append] <;>
    simp (disch := omega) only [ofNat_cons_lt_iff] <;> omega

theorem encode_lt_encode {a b : List Char} (h : a < b) : encode a < encode b := by
  induction h with
  | @nil c cs =>
    obtain ⟨b, l, hl⟩ := List.exists_cons_of_ne_nil (String.utf8EncodeChar_ne_nil (c := c))
    rw [encode_cons, hl]
    exact List.nil_lt_cons _ _
  | rel h => exact utf8EncodeChar_append_lt h _ _
  | cons _ ih =>
    rw [encode_cons, encode_cons]
    exact List.append_left_lt ih

/-- **Texts have the order of their bytes.** -/
theorem encode_lt_encode_iff {a b : List Char} : encode a < encode b ↔ a < b := by
  refine ⟨fun h => Classical.byContradiction fun hle => ?_, encode_lt_encode⟩
  rcases List.le_iff_lt_or_eq.1 (List.not_lt.1 hle) with hlt | rfl
  · exact List.lt_asymm h (encode_lt_encode hlt)
  · exact List.lt_irrefl _ h

end Utf8
end Text
end Arbor
