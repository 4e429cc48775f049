/-
# Other spellings of literals

A literal has many spellings: integers with a plus sign and leading zeros, texts with escapes for
any of their bytes.  The reader of queries finds the end of a literal by looking ahead and only then
reads it, and still it makes no difference which spelling stands in a query
(`read_eq_ok_iff_respells`): what is read as the query of some segments are the texts that differ
from the written one in the spelling of literals, and no others.

The spelling that is written and another one are spellings of the same segments, whatever the
literals (`Spelling.Spells.respells_iff`), and every spelling of segments that can be written is
read as these (`read_of_spells`).
-/

import Arbor.Proofs.Query.Accepted

namespace Arbor
namespace Query

/-! ## Spellings with the same meaning -/

/-- The same key, and a literal that is read as the same. -/
structure RespellsPredicate (p p' : List Char × List Char) : Prop where
  key : p'.1 = p.1
  literal : Literal.read (String.ofList p'.2) = Literal.read (String.ofList p.2)

/-- The same segment with other spellings of its literals. -/
structure Spelling.Respells (sp sp' : Spelling) : Prop where
  relative : sp'.relative = sp.relative
  name : sp'.name = sp.name
  predicates : List.Forall₂ RespellsPredicate sp.predicates sp'.predicates

/-- Where each `a` goes with a `b`, it is the same to go along with the `a`s and with the `b`s. -/
theorem forall₂_iff_of_forall₂ {α β γ : Type} {R : α → β → Prop} {S : α → γ → Prop}
    {T : γ → β → Prop} (h : ∀ a b c, R a b → (S a c ↔ T c b)) {as : List α} {bs : List β}
    (hR : List.Forall₂ R as bs) (cs : List γ) : List.Forall₂ S as cs ↔ List.Forall₂ T cs bs := by
  induction hR generalizing cs with
  | nil => rw [List.forall₂_nil_left_iff, List.forall₂_nil_right_iff]
  | cons hab _ ih =>
    cases cs with
    | nil => simp
    | cons c rest => rw [List.forall₂_cons, List.forall₂_cons, h _ _ c hab, ih]

theorem SpellsPredicate.respells_iff {p : List Char × List Char} {e : String × Literal}
    (h : SpellsPredicate p e) (p' : List Char × List Char) :
    RespellsPredicate p p' ↔ SpellsPredicate p' e := by
  constructor
  · rintro ⟨hkey, hliteral⟩
    exact ⟨hkey.trans h.key, hkey ▸ h.ne_nil, hkey ▸ h.no_equals, hliteral.trans h.literal⟩
  · intro h'
    exact ⟨h'.key.trans h.key.symm, h'.literal.trans h.literal.symm⟩

/-- The spellings of a segment are those that differ in the spelling of literals from one of
them. -/
theorem Spelling.Spells.respells_iff {sp : Spelling} {s : Segment} (h : sp.Spells s)
    (sp' : Spelling) : sp.Respells sp' ↔ sp'.Spells s := by
  have hpredicates := forall₂_iff_of_forall₂ (fun _ _ p' hp => hp.respells_iff p') h.predicates
    sp'.predicates
  constructor
  · rintro ⟨hrelative, hname, hrespells⟩
    exact ⟨hrelative.trans h.relative, hname.trans h.name, hpredicates.1 hrespells⟩
  · intro h'
    exact ⟨h'.relative.trans h.relative.symm, h'.name.trans h.name.symm,
      hpredicates.2 h'.predicates⟩

theorem forall₂_respells_iff {spellings : List Spelling} {segments : List Segment}
    (h : List.Forall₂ Spelling.Spells spellings segments) (others : List Spelling) :
    List.Forall₂ Spelling.Respells spellings others ↔
      List.Forall₂ Spelling.Spells others segments :=
  forall₂_iff_of_forall₂ (fun _ _ sp' hsp => hsp.respells_iff sp') h others

/-! ## Segments that can be written -/

/-- Nothing of what is written is evaluated here. -/
theorem clientPredicates_of_write {segments : List Segment} {t : String}
    (h : write segments = .ok t) : ∀ s ∈ segments, s.clientPredicates = .empty := by
  obtain ⟨spellings, hwrites, -⟩ := exists_writes_of_write h
  intro s hs
  obtain ⟨sp, -, hsp⟩ := exists_of_mem_forall₂ (R := flip Spelling.Writes) hwrites.flip hs
  refine Filters.filter_not_eq_empty_iff.2 fun e he => ?_
  obtain ⟨p, -, hp⟩ :=
    exists_of_mem_forall₂ (R := flip WritesPredicate) hsp.predicates.flip he
  exact hp.isServerSide

/-- Segments that can be written make a query, with the written text. -/
theorem ofSegments_of_write {segments : List Segment} {t : String} (h : write segments = .ok t) :
    ofSegments segments = .ok ⟨segments, t, .empty⟩ := by
  have hclient := clientPredicates_of_write h
  rcases List.eq_nil_or_concat segments with rfl | ⟨inner, last, rfl⟩
  · exact absurd h (by simp [write])
  · rw [List.concat_eq_append] at h hclient ⊢
    have hlast : last.clientPredicates = .empty := hclient last (by simp)
    refine ofSegments_eq_ok_iff.2 ⟨inner, last, rfl,
      fun s hs => hclient s (List.mem_append_left _ hs), t, ?_, by rw [hlast]⟩
    rw [Segment.sent_eq_self_iff.2 hlast]
    exact h

/-- What is read, the text of the root included, is spelled in the text. -/
theorem exists_spells_of_read {text : String} {q : Query} (h : read text = .ok q) :
    ∃ spellings, List.Forall₂ Spelling.Spells spellings q.segments ∧
      text.toList = spellings.flatMap Spelling.chars := by
  by_cases hroot : text = "/"
  · subst hroot
    rw [read, if_pos rfl] at h
    obtain rfl := Except.ok.inj h
    exact ⟨[⟨false, [], []⟩], .cons ⟨rfl, rfl, .nil⟩ .nil, by decide⟩
  · obtain ⟨spellings, -, hspells, htext⟩ := of_read_eq_ok h hroot
    exact ⟨spellings, hspells, htext⟩

/-- **Reading does not depend on how literals are spelled.**  Segments that can be written make a
query with the written text.  That text is read as the query, and so is every text with other
spellings of any of its literals, and nothing else is. -/
theorem read_eq_ok_iff_respells {segments : List Segment} {t : String}
    (h : write segments = .ok t) :
    ofSegments segments = .ok ⟨segments, t, .empty⟩ ∧
      ∃ spellings, List.Forall₂ Spelling.Writes spellings segments ∧
        t.toList = spellings.flatMap Spelling.chars ∧
        ∀ text, read text = .ok ⟨segments, t, .empty⟩ ↔
          ∃ others, List.Forall₂ Spelling.Respells spellings others ∧
            text.toList = others.flatMap Spelling.chars := by
  have hquery := ofSegments_of_write h
  obtain ⟨spellings, hwrites, htext⟩ := exists_writes_of_write h
  have hspells := hwrites.imp fun _ _ => Spelling.Writes.spells
  refine ⟨hquery, spellings, hwrites, htext, fun text => ?_⟩
  simp only [forall₂_respells_iff hspells]
  constructor
  · intro hread
    exact exists_spells_of_read hread
  · rintro ⟨others, hothers, hchars⟩
    rw [read_of_spells h hothers hchars, hquery]

/-- Buttons with a label that has the characters of the grammar in it and ends with a backslash. -/
def labelledButtons : Query :=
  ⟨[.child "App" (.ofList [("visible", .bool true), ("width", .int (-20))]),
      .descendant "Button" (.ofList [("label", .text "A],='\"\n\x00\\"), ("id", .int 7)])],
    "/App[visible=True,width=-20]//Button[label=\"A],='\\\"\\n\\x00\\\\\",id=7]", .empty⟩

/-- The same with a plus sign, leading zeros, and escapes that the writer does not use. -/
def relabelled : List Spelling :=
  [⟨false, "App".toList, [("visible".toList, "True".toList), ("width".toList, "-0020".toList)]⟩,
    ⟨true, "Button".toList,
      [("label".toList, "\"\\x41\\x5D,=\\'\\x22\\x0a\\0\\\\\"".toList),
        ("id".toList, "+07".toList)]⟩]

/-- The brackets, commas and quotes of the label stand beside those of the grammar, in one text as
they are and in the other escaped, and both are read as the query. -/
theorem read_relabelled :
    write labelledButtons.segments = .ok labelledButtons.text ∧
      read labelledButtons.text = .ok labelledButtons ∧
      read ("/App[visible=True,width=-0020]//" ++
        "Button[label=\"\\x41\\x5D,=\\'\\x22\\x0a\\0\\\\\",id=+07]") = .ok labelledButtons := by
  have hwrite : write labelledButtons.segments = .ok labelledButtons.text :=
    toOption_eq_some_iff.1 (by decide +kernel)
  have hrelabelled : List.Forall₂ Spelling.Spells relabelled labelledButtons.segments := by
    have hread : ∀ {text : String} {l : Literal}, (Literal.read text).toOption = some l →
        Literal.read text = .ok l := toOption_eq_some_iff.1
    refine .cons ⟨rfl, rfl, .cons ?_ (.cons ?_ .nil)⟩
      (.cons ⟨rfl, rfl, .cons ?_ (.cons ?_ .nil)⟩ .nil)
    all_goals exact ⟨rfl, by decide, by decide, hread (by decide +kernel)⟩
  obtain ⟨-, spellings, hwrites, htext, hiff⟩ := read_eq_ok_iff_respells hwrite
  have hspells := hwrites.imp fun _ _ => Spelling.Writes.spells
  refine ⟨hwrite, (hiff _).2 ⟨spellings, ?_, htext⟩, (hiff _).2 ⟨relabelled, ?_, ?_⟩⟩
  · exact (forall₂_respells_iff hspells spellings).2 hspells
  · exact (forall₂_respells_iff hspells relabelled).2 hrelabelled
  · decide +kernel

end Query
end Arbor
