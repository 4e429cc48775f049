/-
# The form of query texts

What the writer of queries writes, without the writer: the root of the tree, or segments whose
names are names, whose keys are keys, once each, and whose literals have the form of literals.  A
parent is not first and stands after one slash, without predicates; a wildcard after two slashes has
some.

Every query that can be built has a text of this form, whatever names, keys and texts it was built
from (`Reachable.canonical_text`), and such a text is printable (`Canonical.printable`).
-/

import Arbor.Proofs.Literal.Canonical
import Arbor.Proofs.Query.Reachable

namespace Arbor

theorem isPrintable_of_isKeyChar {c : Char} (h : isKeyChar c = true) : IsPrintable c := by
  have h : (((c.isUpper || c.isLower) || c.isDigit) || c == '_' || c == '-') = true := h
  simp only [Bool.or_eq_true, beq_iff_eq] at h
  rcases h with (((hupper | hlower) | hdigit) | rfl) | rfl
  · obtain ⟨hlow, hhigh⟩ : 65 ≤ c.toNat ∧ c.toNat ≤ 90 := of_decide_eq_true hupper
    exact isPrintable_iff.2 (by omega)
  · obtain ⟨hlow, hhigh⟩ := Bool.and_eq_true_iff.1 hlower
    have hlow : 97 ≤ c.toNat := of_decide_eq_true hlow
    have hhigh : c.toNat ≤ 122 := of_decide_eq_true hhigh
    exact isPrintable_iff.2 (by omega)
  · exact .of_isDigit hdigit
  · decide
  · decide

theorem IsKey.printable {key : List Char} (h : IsKey key) : ∀ c ∈ key, IsPrintable c := by
  intro c hc
  rcases h.chars.2 c hc with hkey | rfl
  · exact isPrintable_of_isKeyChar hkey
  · decide

namespace Query

theorem IsName.printable {name : List Char} (h : IsName name) : ∀ c ∈ name, IsPrintable c :=
  fun c hc => ⟨Nat.le_trans (by decide) (h.2 c hc).1, (h.2 c hc).2.1⟩

/-! ## Canonical texts -/

namespace Spelling

/-- A segment as the writer spells it. -/
structure Canonical (sp : Spelling) : Prop where
  name : IsName sp.name
  parent : sp.name = ['.', '.'] → sp.relative = false ∧ sp.predicates = []
  wildcard : sp.name = ['*'] → sp.relative = true → sp.predicates ≠ []
  keys : ∀ p ∈ sp.predicates, IsKey p.1
  nodup : (sp.predicates.map Prod.fst).Nodup
  literals : ∀ p ∈ sp.predicates, Literal.Canonical p.2

end Spelling

/-- The text of the root of the tree, or of segments of which the first is no parent. -/
def Canonical (text : String) : Prop :=
  text = "/" ∨ ∃ (first : Spelling) (rest : List Spelling),
    text.toList = (first :: rest).flatMap Spelling.chars ∧ first.name ≠ ['.', '.'] ∧
      ∀ sp ∈ first :: rest, sp.Canonical

/-! ## Canonical texts are printable -/

/-- Lists apart by commas have no other characters than their own and commas. -/
theorem mem_of_mem_intercalate {c : Char} {parts : List (List Char)}
    (h : c ∈ [','].intercalate parts) : c = ',' ∨ ∃ part ∈ parts, c ∈ part := by
  induction parts with
  | nil => exact absurd h (by simp)
  | cons part rest ih =>
    by_cases hrest : rest = []
    · rw [hrest, List.intercalate_singleton] at h
      exact Or.inr ⟨part, List.mem_cons_self, h⟩
    · rw [List.intercalate_cons_of_ne_nil hrest, List.mem_append, List.mem_append,
        List.mem_singleton] at h
      rcases h with (h | h) | h
      · exact Or.inr ⟨part, List.mem_cons_self, h⟩
      · exact Or.inl h
      · refine (ih h).imp_right fun ⟨other, hother, hc⟩ => ?_
        exact ⟨other, List.mem_cons_of_mem _ hother, hc⟩

theorem Spelling.Canonical.printable {sp : Spelling} (h : sp.Canonical) :
    ∀ c ∈ sp.chars, IsPrintable c := by
  have hpredicate : ∀ p ∈ sp.predicates, ∀ c ∈ predicateChars p, IsPrintable c := by
    intro p hp c hc
    rcases List.mem_append.1 hc with hc | hc
    · exact (h.keys p hp).printable c hc
    · rcases List.mem_cons.1 hc with rfl | hc
      · decide
      · exact (h.literals p hp).printable c hc
  have hlist : ∀ c ∈ listChars sp.predicates, IsPrintable c := by
    intro c hc
    rw [listChars, List.mem_append, List.mem_cons, List.mem_singleton] at hc
    rcases hc with (rfl | hc) | rfl
    · decide
    · rcases mem_of_mem_intercalate hc with rfl | ⟨part, hpart, hc⟩
      · decide
      · obtain ⟨p, hp, rfl⟩ := List.mem_map.1 hpart
        exact hpredicate p hp c hc
    · decide
  intro c hc
  rw [chars, List.mem_append, List.mem_append] at hc
  rcases hc with (hc | hc) | hc
  · have hslash : ∀ b, (separator b).toList.all (fun d => IsPrintable d) = true := by decide
    exact forall_isPrintable_of_all (hslash _) c hc
  · exact h.name.printable c hc
  · split at hc
    · exact absurd hc List.not_mem_nil
    · exact hlist c hc

theorem Canonical.printable {text : String} (h : Canonical text) :
    ∀ c ∈ text.toList, IsPrintable c := by
  rcases h with rfl | ⟨first, rest, htext, -, hall⟩
  · exact forall_isPrintable_of_all (by decide)
  · intro c hc
    rw [htext] at hc
    obtain ⟨sp, hsp, hc⟩ := List.mem_flatMap.1 hc
    exact (hall sp hsp).printable c hc

/-! ## What is written is canonical -/

theorem map_fst_of_writes {ps : List (List Char × List Char)} {es : List (String × Literal)}
    (h : List.Forall₂ WritesPredicate ps es) : ps.map Prod.fst = es.map fun e => e.1.toList := by
  induction h with
  | nil => rfl
  | cons hp _ ih => rw [List.map_cons, List.map_cons, hp.key, ih]

/-- **A segment that is written is spelled canonically.** -/
theorem exists_canonical_of_writeSegment {index : Nat} {s : Segment} {t : String}
    (h : writeSegment index s = .ok t) :
    ∃ sp : Spelling, sp.Canonical ∧ t.toList = sp.chars ∧
      (index = 0 → sp.name ≠ ['.', '.']) := by
  have hrules := admissible_of_checkSegment (writeSegment_eq_ok h).1
  obtain ⟨sp, hwrites, htext⟩ := exists_writes_of_writeSegment h
  have hparent : sp.name = ['.', '.'] → s.isParent = true := fun hname =>
    beq_iff_eq.2 (String.toList_injective (hwrites.name.symm.trans hname))
  have hwild : sp.name = ['*'] → s.isWildcard = true := fun hname =>
    beq_iff_eq.2 (String.toList_injective (hwrites.name.symm.trans hname))
  have hkeys := map_fst_of_writes hwrites.predicates
  have hempty : sp.predicates = [] ↔ s.predicates = .empty := by
    rw [← List.map_eq_nil_iff (f := Prod.fst), hkeys, List.map_eq_nil_iff, ← List.isEmpty_iff,
      ← Filters.isEmpty_iff]
    rfl
  have hpredicate : ∀ p ∈ sp.predicates, IsKey p.1 ∧ Literal.Canonical p.2 := by
    intro p hp
    obtain ⟨e, -, he⟩ := exists_of_mem_forall₂ hwrites.predicates hp
    have hcanonical := Literal.canonical_of_write he.literal
    rw [String.toList_ofList] at hcanonical
    exact ⟨he.key ▸ isServerKey_iff.1 (Bool.and_eq_true_iff.1 he.isServerSide).1, hcanonical⟩
  refine ⟨sp, ?_, htext, fun hfirst hname => (hrules.parent (hparent hname)).1 hfirst⟩
  exact {
    name := hwrites.name ▸ hrules.name
    parent := fun hname => by
      obtain ⟨-, hrelative, hnone⟩ := hrules.parent (hparent hname)
      exact ⟨hwrites.relative.trans hrelative, hempty.2 hnone⟩
    wildcard := fun hname hrelative hnil =>
      hrules.wildcard (hwild hname) (hwrites.relative.symm.trans hrelative) (hempty.1 hnil)
    keys := fun p hp => (hpredicate p hp).1
    nodup := by
      rw [hkeys, ← Function.comp_def String.toList Prod.fst, ← List.map_map]
      exact List.Pairwise.map _ (fun _ _ hne heq => hne (String.toList_injective heq))
        s.predicates.nodup
    literals := fun p hp => (hpredicate p hp).2 }

theorem exists_canonical_of_writeFrom {index : Nat} {segments : List Segment} {t : String}
    (h : writeFrom index segments = .ok t) :
    ∃ spellings : List Spelling, spellings.length = segments.length ∧
      t.toList = spellings.flatMap Spelling.chars ∧ (∀ sp ∈ spellings, sp.Canonical) ∧
      (index = 0 → ∀ sp ∈ spellings.head?, sp.name ≠ ['.', '.']) := by
  induction segments generalizing index t with
  | nil =>
    obtain rfl := Except.ok.inj h
    exact ⟨[], rfl, rfl, by simp, by simp⟩
  | cons s rest ih =>
    obtain ⟨first, others, hfirst, hothers, rfl⟩ := writeFrom_cons_eq_ok h
    obtain ⟨sp, hsp, htext, hname⟩ := exists_canonical_of_writeSegment hfirst
    obtain ⟨spellings, hlength, hrest, hall, -⟩ := ih hothers
    refine ⟨sp :: spellings, by simp [hlength], ?_, List.forall_mem_cons.2 ⟨hsp, hall⟩,
      by simpa using hname⟩
    rw [String.toList_append, List.flatMap_cons, htext, hrest]

theorem canonical_of_write {segments : List Segment} {t : String} (h : write segments = .ok t) :
    Canonical t := by
  rcases write_eq_ok h with ⟨-, rfl⟩ | ⟨hne, hwrite⟩
  · exact Or.inl rfl
  · obtain ⟨spellings, hlength, htext, hall, hfirst⟩ := exists_canonical_of_writeFrom hwrite
    cases spellings with
    | nil => exact absurd (List.length_eq_zero_iff.1 hlength.symm) hne
    | cons first rest => exact Or.inr ⟨first, rest, htext, hfirst rfl first rfl, hall⟩

/-- **Every query has a canonical text**, whichever way it was built. -/
theorem Reachable.canonical_text {q : Query} (h : q.Reachable) : Canonical q.text := by
  obtain ⟨inner, last, t, -, ht, rfl⟩ := h.exists_parts
  exact canonical_of_write ht

end Query
end Arbor
