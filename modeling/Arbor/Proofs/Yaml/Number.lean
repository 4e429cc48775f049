/-
# Numbers, written and read

The digits of a number in a base are the characters of digits below the base, and read from left to
right they make the number again (`exists_digits`).  So a number is read back from its digits in any
base up to sixteen, in letters of either case and after any zeros (`digits?_zeros_toDigits`), and a
decimal without a sign stands for a number and for nothing else (`number?_toString`).
-/

import Arbor.Proofs.Literal.Canonical
import Arbor.Yaml.Scalar

namespace Arbor
namespace Yaml

/-- The number that the values of digits make, the first digit counting most. -/
def ofValues (base : Nat) (values : List Nat) : Nat := values.foldl (fun n d => n * base + d) 0

/-- Zeros before the digits of a number change nothing. -/
theorem ofValues_zeros (base zeros : Nat) (values : List Nat) :
    ofValues base (List.replicate zeros 0 ++ values) = ofValues base values := by
  rw [ofValues, ofValues, List.foldl_append]
  congr 1
  induction zeros with
  | zero => rfl
  | succ k ih => rw [List.replicate_succ, List.foldl_cons, Nat.zero_mul, Nat.zero_add, ih]

/-- **The digits of a number.**  By strong induction, because the last digit is what is left over
and the digits before it are those of the quotient. -/
theorem exists_digits {base : Nat} (h : 1 < base) (n : Nat) :
    ∃ values : List Nat, Nat.toDigits base n = values.map Nat.digitChar ∧ (∀ d ∈ values, d < base) ∧
      ofValues base values = n := by
  induction n using Nat.strongRecOn with
  | ind n ih =>
    by_cases hn : n < base
    · refine ⟨[n], ?_, ?_, ?_⟩
      · rw [Nat.toDigits_of_lt_base hn, List.map_singleton]
      · exact List.forall_mem_singleton.2 hn
      · simp [ofValues]
    · obtain ⟨values, hdigits, hlt, hvalue⟩ := ih (n / base) (Nat.div_lt_self (by omega) h)
      refine ⟨values ++ [n % base], ?_, ?_, ?_⟩
      · rw [Nat.toDigits_of_base_le h (Nat.le_of_not_lt hn), hdigits, List.map_append,
          List.map_singleton]
      · exact List.forall_mem_append.2
          ⟨hlt, List.forall_mem_singleton.2 (Nat.mod_lt _ (by omega))⟩
      · rw [ofValues, List.foldl_append, List.foldl_cons, List.foldl_nil]
        rw [ofValues] at hvalue
        rw [hvalue, Nat.mul_comm, Nat.div_add_mod]

/-- Every digit of a number is the character of a value below the base. -/
theorem exists_of_mem_toDigits {base : Nat} (h : 1 < base) {n : Nat} {c : Char}
    (hc : c ∈ Nat.toDigits base n) : ∃ d < base, c = Nat.digitChar d := by
  obtain ⟨values, hdigits, hlt, -⟩ := exists_digits h n
  rw [hdigits] at hc
  obtain ⟨d, hd, rfl⟩ := List.mem_map.1 hc
  exact ⟨d, hlt d hd, rfl⟩

theorem mapM_digit? {base : Nat} {f : Char → Char} {values : List Nat}
    (h : ∀ d ∈ values, digit? base (f (Nat.digitChar d)) = some d) :
    ((values.map Nat.digitChar).map f).mapM (digit? base) = some values := by
  induction values with
  | nil => rfl
  | cons d rest ih =>
    rw [List.map_cons, List.map_cons, List.mapM_cons, h d List.mem_cons_self,
      ih fun e he => h e (List.mem_cons_of_mem _ he)]
    rfl

/-- **A number is read back from its digits**, zeros before them or not.  `f` is what is done to
every digit that a reader undoes, such as writing it in upper case. -/
theorem digits?_zeros_toDigits {base : Nat} (hbase : 1 < base) {f : Char → Char}
    (hf : ∀ d < base, digit? base (f (Nat.digitChar d)) = some d) (zeros n : Nat) :
    digits? base ((List.replicate zeros '0' ++ Nat.toDigits base n).map f) = some n := by
  obtain ⟨values, hdigits, hlt, hvalue⟩ := exists_digits hbase n
  have hchars : List.replicate zeros '0' ++ Nat.toDigits base n =
      (List.replicate zeros 0 ++ values).map Nat.digitChar := by
    rw [List.map_append, List.map_replicate, hdigits]
    rfl
  have hne : ((List.replicate zeros '0' ++ Nat.toDigits base n).map f).isEmpty = false := by
    rw [List.isEmpty_eq_false_iff, Ne, List.map_eq_nil_iff, List.append_eq_nil_iff, not_and]
    exact fun _ => Nat.toDigits_ne_nil
  rw [digits?, hne, hchars, mapM_digit?]
  · show some (ofValues base _) = _
    rw [ofValues_zeros, hvalue]
  · intro d hd
    refine hf d ?_
    rcases List.mem_append.1 hd with hd | hd
    · rw [List.eq_of_mem_replicate hd]
      omega
    · exact hlt d hd

theorem digits?_toDigits_ten (n : Nat) : digits? 10 (Nat.toDigits 10 n) = some n := by
  have h : digits? 10 ((List.replicate 0 '0' ++ Nat.toDigits 10 n).map id) = some n :=
    digits?_zeros_toDigits (by decide) (by decide) 0 n
  rwa [List.map_id] at h

theorem hasLeadingZero_toDigits (n : Nat) : hasLeadingZero (Nat.toDigits 10 n) = false := by
  have hleading := (Literal.isDecimal_toDigits n).leading
  unfold hasLeadingZero
  split
  · next c rest h =>
    rw [h] at hleading
    exact absurd (hleading rfl) (by simp)
  · rfl

/-- **A decimal stands for its number.** -/
theorem number?_toString (n : Nat) : number? (toString n) = some n := by
  have hdigit {c : Char} (hc : c ∈ Nat.toDigits 10 n) : c.isDigit = true :=
    Literal.isDigit_of_mem_toDigits hc
  have hchars : (toString n).toList = Nat.toDigits 10 n := Nat.toList_repr
  -- neither a sign nor the letter of another base is a digit
  have hsign {rest : List Char} (h : Nat.toDigits 10 n = '+' :: rest) : False :=
    absurd (hdigit (h ▸ List.mem_cons_self)) (by decide)
  have hbase {c : Char} {rest : List Char} (h : Nat.toDigits 10 n = '0' :: c :: rest) :
      c.isDigit = true :=
    hdigit (h ▸ List.mem_cons_of_mem _ List.mem_cons_self)
  have hunsigned : unsigned? (Nat.toDigits 10 n) = some n := by
    unfold unsigned?
    split
    · next h => exact absurd (hbase h) (by decide)
    · next h => exact absurd (hbase h) (by decide)
    · next h => exact absurd (hbase h) (by decide)
    · rw [hasLeadingZero_toDigits, digits?_toDigits_ten]
      rfl
  rw [number?, hchars]
  split
  · next h => exact absurd h fun h => hsign h
  · exact hunsigned

end Yaml
end Arbor
