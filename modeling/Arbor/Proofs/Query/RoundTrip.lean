/-
# Queries, written and read

The reader takes apart what the writer put together: `read_of_write`.  The text of a list of
segments reads as the query made of the same segments, whatever names, keys and texts they hold.

How the literals are spelled does not matter (`read_of_spells`), and what the writer puts is one
spelling of the segments (`Spelling.Writes.spells`).

Each part is followed up to where the reader has to stop: a name before a slash or bracket
(`takeName_append_of_ne`), a key before its equals sign (`cut?_append_of_ne`), a literal before a
comma or bracket (`Literal.scan?_append_of_read`).  A predicate is one step of the reader
(`readPredicates_last`, `readPredicates_more`), a list of them a run of such steps
(`readPredicates_of_spells`), and so on for segments.
-/

import Arbor.Proofs.Literal.RoundTrip
import Arbor.Proofs.Literal.Scan
import Arbor.Proofs.Query.Written

namespace Arbor

theorem cut?_append_of_ne {c : Char} {a : List Char} (h : ∀ d ∈ a, d ≠ c) (b : List Char) :
    cut? c (a ++ c :: b) = some (a, b) := by
  induction a with
  | nil => rw [List.nil_append, cut?, if_pos rfl]
  | cons d rest ih =>
    rw [List.cons_append, cut?, if_neg (h d List.mem_cons_self),
      ih fun e he => h e (List.mem_cons_of_mem _ he)]
    rfl

namespace Query

/-! ## Lookahead -/

theorem splitKey?_eq_some {text key after : List Char} (h : cut? '=' text = some (key, after)) :
    ∃ hlt, splitKey? text = some (key, ⟨after, hlt⟩) := by
  have hlt : after.length < text.length := by
    rw [cut?_eq_append h, List.length_append, List.length_cons]
    omega
  refine ⟨hlt, ?_⟩
  unfold splitKey?
  split
  · next hnone => rw [h] at hnone; exact absurd hnone (by simp)
  · next key' after' hsome =>
    rw [h] at hsome
    cases hsome
    rfl

theorem splitLiteral?_eq_some {text literal after : List Char}
    (h : Literal.scan? text = some (literal, after)) :
    ∃ hle, splitLiteral? text = some (literal, ⟨after, hle⟩) := by
  have hle : after.length ≤ text.length := by
    rw [Literal.scan?_eq_append h, List.length_append]
    omega
  refine ⟨hle, ?_⟩
  unfold splitLiteral?
  split
  · next hnone => rw [h] at hnone; exact absurd hnone (by simp)
  · next literal' after' hsome =>
    rw [h] at hsome
    cases hsome
    rfl

open Spelling (predicateChars listChars)

/-- Before a comma or a closing bracket the reader finds the key and the literal of a predicate. -/
theorem split_predicate {p : List Char × List Char} {e : String × Literal}
    (h : SpellsPredicate p e) {u : List Char} (hu : Literal.EndsPredicate u) :
    ∃ h₁ h₂, splitKey? (predicateChars p ++ u) = some (p.1, ⟨p.2 ++ u, h₁⟩) ∧
      splitLiteral? (p.2 ++ u) = some (p.2, ⟨u, h₂⟩) := by
  have htext : predicateChars p ++ u = p.1 ++ '=' :: (p.2 ++ u) := by
    rw [predicateChars, List.append_assoc, List.cons_append]
  have hkey : ∀ c ∈ p.1, c ≠ '=' := by
    rintro c hc rfl
    exact h.no_equals hc
  have hscan := Literal.scan?_append_of_read h.literal hu
  rw [String.toList_ofList] at hscan
  rw [htext]
  obtain ⟨h₁, hsplit⟩ := splitKey?_eq_some (cut?_append_of_ne hkey (p.2 ++ u))
  obtain ⟨h₂, hliteral⟩ := splitLiteral?_eq_some hscan
  exact ⟨h₁, h₂, hsplit, hliteral⟩

/-- A name ends before a slash or an opening bracket, or with the text. -/
theorem takeName_append_of_ne {name u : List Char} (hname : ∀ c ∈ name, c ≠ '/' ∧ c ≠ '[')
    (hu : u = [] ∨ u.head? = some '/' ∨ u.head? = some '[') : takeName (name ++ u) = (name, u) := by
  induction name with
  | nil =>
    cases u with
    | nil => rfl
    | cons c rest =>
      have hc : c = '/' ∨ c = '[' := by simpa using hu
      rw [List.nil_append, takeName, if_pos hc]
  | cons c rest ih =>
    rw [List.cons_append, takeName, if_neg (not_or.2 (hname c List.mem_cons_self)),
      ih fun d hd => hname d (List.mem_cons_of_mem _ hd)]

/-! ## Predicates -/

section Predicates

variable {whole : String} {filters result : Filters} {p : List Char × List Char}
  {e : String × Literal} {u after : List Char}

/-- The last predicate of a list. -/
theorem readPredicates_last (h : SpellsPredicate p e) (hnew : e.1 ∉ filters.keys)
    (u : List Char) :
    ∃ hlt, readPredicates whole filters (predicateChars p ++ ']' :: u) =
      .ok (filters.insert e.1 e.2, ⟨u, hlt⟩) := by
  obtain ⟨h₁, h₂, hsplit, hliteral⟩ := split_predicate h (u := ']' :: u) (Or.inr rfl)
  have hkey : String.ofList p.1 = e.1 := by rw [h.key, String.ofList_toList]
  have hold : ¬(filters.get? e.1).isSome = true := fun h => hnew (Filters.get?_isSome_iff.1 h)
  refine ⟨Nat.lt_of_lt_of_le (Nat.lt_succ_self _) (Nat.le_trans h₂ (Nat.le_of_lt h₁)), ?_⟩
  rw [readPredicates, hsplit]
  simp only [List.isEmpty_iff, h.ne_nil, if_false, hliteral, hkey, h.literal, if_neg hold,
    splitMark?, Bool.false_eq_true]

/-- A predicate before others. -/
theorem readPredicates_more (h : SpellsPredicate p e) (hnew : e.1 ∉ filters.keys)
    (hrest : ∃ hlt, readPredicates whole (filters.insert e.1 e.2) u =
      .ok (result, ⟨after, hlt⟩)) :
    ∃ hlt, readPredicates whole filters (predicateChars p ++ ',' :: u) =
      .ok (result, ⟨after, hlt⟩) := by
  obtain ⟨h₁, h₂, hsplit, hliteral⟩ := split_predicate h (u := ',' :: u) (Or.inl rfl)
  obtain ⟨h₃, hrest⟩ := hrest
  have hkey : String.ofList p.1 = e.1 := by rw [h.key, String.ofList_toList]
  have hold : ¬(filters.get? e.1).isSome = true := fun h => hnew (Filters.get?_isSome_iff.1 h)
  refine ⟨Nat.lt_trans h₃ (Nat.lt_of_lt_of_le (Nat.lt_succ_self _)
    (Nat.le_trans h₂ (Nat.le_of_lt h₁))), ?_⟩
  rw [readPredicates, hsplit]
  simp only [List.isEmpty_iff, h.ne_nil, if_false, hliteral, hkey, h.literal, if_neg hold,
    splitMark?, if_true, hrest]

end Predicates

/-- **Predicates that are spelled one after another are read one after another.** -/
theorem readPredicates_of_spells (whole : String) (filters : Filters)
    {ps : List (List Char × List Char)} {es : List (String × Literal)} (hne : ps ≠ [])
    (h : List.Forall₂ SpellsPredicate ps es) (u : List Char)
    (hkeys : ((filters.toList ++ es).map Prod.fst).Nodup) :
    ∃ hlt, readPredicates whole filters
        ([','].intercalate (ps.map predicateChars) ++ ']' :: u) =
      .ok (⟨filters.toList ++ es, hkeys⟩, ⟨u, hlt⟩) := by
  -- the filters that are read so far take over what the list loses
  induction h generalizing filters with
  | nil => exact absurd rfl hne
  | @cons p e ps es hp hps ih =>
    have hnew : e.1 ∉ filters.keys := by
      rw [List.map_append, List.nodup_append] at hkeys
      intro hmem
      exact hkeys.2.2 e.1 hmem e.1 (by simp) rfl
    have hinsert : (filters.insert e.1 e.2).toList = filters.toList ++ [e] :=
      Filters.toList_insert_of_not_mem hnew
    cases hps with
    | nil =>
      have hfilters : filters.insert e.1 e.2 = ⟨filters.toList ++ [e], hkeys⟩ :=
        Filters.ext_toList hinsert
      rw [List.map_singleton, List.intercalate_singleton, ← hfilters]
      exact readPredicates_last hp hnew u
    | @cons q e' qs es' hq hqs =>
      have htext : [','].intercalate ((p :: q :: qs).map predicateChars) ++ ']' :: u =
          predicateChars p ++
            ',' :: ([','].intercalate ((q :: qs).map predicateChars) ++ ']' :: u) := by
        simp [List.intercalate_cons_cons]
      have hlist : (filters.insert e.1 e.2).toList ++ e' :: es' =
          filters.toList ++ e :: e' :: es' := by
        rw [hinsert, List.append_assoc, List.singleton_append]
      have hrest := ih (filters.insert e.1 e.2) (List.cons_ne_nil _ _) (hlist ▸ hkeys)
      rw [htext]
      refine readPredicates_more hp hnew ?_
      simpa only [hlist] using hrest

/-! ## Segments -/

/-- What follows a segment: the next one, or nothing. -/
def EndsSegment (u : List Char) : Prop := u = [] ∨ u.head? = some '/'

theorem readSeparator?_separator (relative : Bool) {rest : List Char} (hne : rest ≠ [])
    (hrest : rest.head? ≠ some '/') :
    ∃ hlt, readSeparator? ((separator relative).toList ++ rest) = some (relative, ⟨rest, hlt⟩) := by
  obtain ⟨c, tail, rfl⟩ := List.exists_cons_of_ne_nil hne
  have hc : c ≠ '/' := fun h => hrest (by rw [h]; rfl)
  cases relative with
  | true => exact ⟨by simp [separator], rfl⟩
  | false =>
    refine ⟨by simp [separator], ?_⟩
    show readSeparator? ('/' :: c :: tail) = _
    rw [readSeparator?]
    · rfl
    · intro _ heq
      exact hc (List.cons.inj heq).1

theorem readList_nil {whole : String} {u : List Char} (hu : EndsSegment u) :
    readList whole u = .ok (.empty, ⟨u, Nat.le_refl _⟩) := by
  unfold readList
  split
  · rcases hu with hu | hu <;> exact absurd hu (by simp)
  · rfl

/-- The predicate list of a segment, if there is one. -/
theorem readList_of_spells (whole : String) {ps : List (List Char × List Char)}
    {filters : Filters} (h : List.Forall₂ SpellsPredicate ps filters.toList) {u : List Char}
    (hu : EndsSegment u) :
    ∃ hle, readList whole ((if ps.isEmpty then [] else listChars ps) ++ u) =
      .ok (filters, ⟨u, hle⟩) := by
  by_cases hps : ps = []
  · have hnil : filters.toList = [] := List.forall₂_nil_left_iff.1 (hps ▸ h)
    rw [hps, Filters.ext_toList (f := filters) (g := .empty) hnil]
    exact ⟨Nat.le_refl _, readList_nil hu⟩
  · obtain ⟨hlt, hread⟩ := readPredicates_of_spells whole .empty hps h u filters.nodup
    have htext : (if ps.isEmpty then [] else listChars ps) ++ u =
        '[' :: ([','].intercalate (ps.map predicateChars) ++ ']' :: u) := by
      rw [if_neg fun hempty => hps (List.isEmpty_iff.1 hempty), listChars]
      simp
    rw [htext]
    refine ⟨by simp; omega, ?_⟩
    rw [readList, hread]
    rfl

/-- **A segment that is spelled is read as that segment.** -/
theorem readSegment_of_spells (whole : String) {sp : Spelling} {s : Segment} (h : sp.Spells s)
    (hname : IsName s.name.toList) {u : List Char} (hu : EndsSegment u) :
    ∃ hlt, readSegment whole (sp.chars ++ u) = .ok (s, ⟨u, hlt⟩) := by
  -- the text after the name, and what the reader makes of it
  obtain ⟨tail, htext, htail, hle, hlist⟩ : ∃ tail : List Char,
      sp.chars ++ u = (separator s.relative).toList ++ (s.name.toList ++ tail) ∧
      (tail = [] ∨ tail.head? = some '/' ∨ tail.head? = some '[') ∧
      ∃ hle, readList whole tail = .ok (s.predicates, ⟨u, hle⟩) := by
    refine ⟨(if sp.predicates.isEmpty then [] else listChars sp.predicates) ++ u, ?_, ?_,
      readList_of_spells whole h.predicates hu⟩
    · rw [Spelling.chars, h.relative, h.name, List.append_assoc, List.append_assoc]
    · split
      · exact hu.imp_right Or.inl
      · exact Or.inr (Or.inr rfl)
  obtain ⟨c, rest, hcons⟩ := List.exists_cons_of_ne_nil hname.1
  have hhead : (s.name.toList ++ tail).head? ≠ some '/' := by
    have hc := (hname.chars c (hcons ▸ List.mem_cons_self)).1
    rw [hcons]
    exact fun e => hc (Option.some.inj e)
  obtain ⟨hlt, hseparator⟩ := readSeparator?_separator s.relative
    (List.append_ne_nil_of_left_ne_nil hname.1 tail) hhead
  have htake := takeName_append_of_ne hname.chars htail
  obtain ⟨_, hlist⟩ : ∃ hle, readList whole (takeName (s.name.toList ++ tail)).2 =
      .ok (s.predicates, ⟨u, hle⟩) := by
    rw [htake]
    exact ⟨hle, hlist⟩
  rw [htext]
  refine ⟨by simp only [List.length_append] at hlt ⊢; omega, ?_⟩
  rw [readSegment, hseparator]
  simp only [hlist, htake, String.ofList_toList]

/-! ## Lists of segments -/

/-- A segment begins with a slash. -/
theorem Spelling.exists_chars_eq (sp : Spelling) :
    ∃ rest, sp.chars = '/' :: rest ∧ (sp.name ≠ [] → rest ≠ []) := by
  have hslash : (separator sp.relative).toList = '/' :: if sp.relative then ['/'] else [] := by
    cases sp.relative <;> rfl
  rw [Spelling.chars, List.append_assoc, hslash, List.cons_append]
  exact ⟨_, rfl, fun hname => List.append_ne_nil_of_right_ne_nil _
    (List.append_ne_nil_of_left_ne_nil hname _)⟩

theorem endsSegment_flatMap_chars (spellings : List Spelling) :
    EndsSegment (spellings.flatMap Spelling.chars) := by
  cases spellings with
  | nil => exact Or.inl rfl
  | cons sp rest =>
    obtain ⟨tail, hchars, -⟩ := sp.exists_chars_eq
    rw [List.flatMap_cons, hchars]
    exact Or.inr rfl

theorem readSegments_of_spells (whole : String) {spellings : List Spelling}
    {segments : List Segment} (h : List.Forall₂ Spelling.Spells spellings segments)
    (hnames : ∀ s ∈ segments, IsName s.name.toList) :
    readSegments whole (spellings.flatMap Spelling.chars) = .ok segments := by
  induction h with
  | nil =>
    rw [List.flatMap_nil, readSegments]
    rfl
  | @cons sp s spellings segments hsp hrest ih =>
    obtain ⟨hname, hnames⟩ := List.forall_mem_cons.1 hnames
    obtain ⟨hlt, hread⟩ := readSegment_of_spells whole hsp hname
      (endsSegment_flatMap_chars spellings)
    have hne : ¬(sp.chars ++ spellings.flatMap Spelling.chars).isEmpty = true := by
      rw [List.isEmpty_iff]
      intro hnil
      rw [hnil] at hlt
      exact Nat.not_lt_zero _ hlt
    rw [List.flatMap_cons, readSegments, if_neg hne, hread]
    simp only [ih hnames]

/-! ## Queries -/

theorem ofSegments_treeRoot : ofSegments [.treeRoot] = .ok pseudoRoot := by
  rfl

/-- What spells segments that can be written is read as these segments. -/
theorem read_of_spells {segments : List Segment} {t text : String} {spellings : List Spelling}
    (h : write segments = .ok t) (hspells : List.Forall₂ Spelling.Spells spellings segments)
    (htext : text.toList = spellings.flatMap Spelling.chars) :
    read text = ofSegments segments := by
  rcases write_eq_ok h with ⟨rfl, -⟩ | ⟨hne, hwrite⟩
  · obtain ⟨sp, _, hsp, hnone, rfl⟩ := List.forall₂_cons_right_iff.1 hspells
    obtain rfl := List.forall₂_nil_right_iff.1 hnone
    obtain ⟨relative, name, predicates⟩ := sp
    obtain ⟨rfl, rfl, hpredicates⟩ := hsp
    obtain rfl := List.forall₂_nil_right_iff.1 hpredicates
    obtain rfl : text = "/" := String.toList_injective htext
    rw [ofSegments_treeRoot, read, if_pos rfl]
  · have hnames : ∀ s ∈ segments, IsName s.name.toList := fun s hs =>
      (exists_admissible_of_writeFrom hwrite s hs).elim fun _ hs => hs.name
    obtain ⟨s, rest, rfl⟩ := List.exists_cons_of_ne_nil hne
    obtain ⟨sp, others, hsp, -, hcons⟩ := List.forall₂_cons_right_iff.1 hspells
    obtain ⟨tail, hchars, htail⟩ := sp.exists_chars_eq
    have hlong : text.toList = '/' :: (tail ++ others.flatMap Spelling.chars) := by
      rw [htext, hcons, List.flatMap_cons, hchars, List.cons_append]
    have hslash : text ≠ "/" := by
      rintro rfl
      have hnil := List.append_eq_nil_iff.1 (List.cons.inj hlong).2.symm
      exact htail (hsp.name ▸ (hnames s List.mem_cons_self).1) hnil.1
    have hhead : text.toList.head? = some '/' := by
      rw [hlong]
      rfl
    rw [read, if_neg hslash, if_pos hhead, htext, readSegments_of_spells text hspells hnames]

theorem WritesPredicate.spells {p : List Char × List Char} {e : String × Literal}
    (h : WritesPredicate p e) : SpellsPredicate p e := by
  obtain ⟨hne, hequals⟩ := of_isServerKey (Bool.and_eq_true_iff.1 h.isServerSide).1
  exact ⟨h.key, h.key ▸ hne, fun hmem => hequals '=' (h.key ▸ hmem) rfl,
    Literal.read_write h.literal⟩

/-- What is written is read as what it was written for. -/
theorem Spelling.Writes.spells {sp : Spelling} {s : Segment} (h : sp.Writes s) : sp.Spells s :=
  ⟨h.relative, h.name, h.predicates.imp fun _ _ => WritesPredicate.spells⟩

/-- **Reading takes apart what writing put together.** -/
theorem read_of_write {segments : List Segment} {t : String} (h : write segments = .ok t) :
    read t = ofSegments segments := by
  obtain ⟨spellings, hwrites, htext⟩ := exists_writes_of_write h
  exact read_of_spells h (hwrites.imp fun _ _ => Spelling.Writes.spells) htext

end Query
end Arbor
