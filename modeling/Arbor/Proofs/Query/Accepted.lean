/-
# What the reader of queries accepts

All that is read stands in the text, segment by segment and predicate by predicate
(`Spelling.Spells`, `exists_spellings_of_readSegments`).  The reader does not look at the keys,
though: it takes for a key whatever stands before the next equals sign.  If that is no key of the
grammar, the predicate cannot be sent, and then the segment must be the last one; there it passes as
a predicate that is evaluated here.  A list of predicates without a name before it passes in the
same way, as one of the root of the tree.

`grammatical_iff_of_read` says which of the texts that are accepted are texts of the grammar: those
of queries without such predicates.
-/

import Arbor.Proofs.Query.Reachable

namespace Arbor

theorem not_mem_of_cut? {c : Char} {s a b : List Char} (h : cut? c s = some (a, b)) : c ∉ a := by
  induction s generalizing a b with
  | nil => exact absurd h (by simp [cut?])
  | cons d rest ih =>
    rw [cut?] at h
    split_ifs at h with hd
    · obtain ⟨rfl, -⟩ := Prod.mk.inj (Option.some.inj h)
      simp
    · obtain ⟨⟨a', b'⟩, hr, he⟩ := Option.map_eq_some_iff.1 h
      obtain ⟨rfl, -⟩ := Prod.mk.inj he
      rw [List.mem_cons, not_or]
      exact ⟨fun e => hd e.symm, ih hr⟩

namespace Query

/-! ## Steps of the reader -/

theorem of_splitKey?_eq_some {text key : List Char} {after : Rest text}
    (h : splitKey? text = some (key, after)) : text = key ++ '=' :: after.1 ∧ '=' ∉ key := by
  unfold splitKey? at h
  split at h
  · exact absurd h (by simp)
  · next key' after' hcut =>
    obtain ⟨rfl, rfl⟩ := Prod.mk.inj (Option.some.inj h)
    exact ⟨cut?_eq_append hcut, not_mem_of_cut? hcut⟩

theorem of_splitLiteral?_eq_some {text literal : List Char}
    {after : { rest : List Char // rest.length ≤ text.length }}
    (h : splitLiteral? text = some (literal, after)) : text = literal ++ after.1 := by
  unfold splitLiteral? at h
  split at h
  · exact absurd h (by simp)
  · next literal' after' hscan =>
    obtain ⟨rfl, rfl⟩ := Prod.mk.inj (Option.some.inj h)
    exact Literal.scan?_eq_append hscan

theorem of_splitMark?_eq_some {text : List Char} {more : Bool} {rest : Rest text}
    (h : splitMark? text = some (more, rest)) :
    text = (if more then ',' else ']') :: rest.1 := by
  unfold splitMark? at h
  split at h
  · obtain ⟨rfl, rfl⟩ := Prod.mk.inj (Option.some.inj h)
    rfl
  · obtain ⟨rfl, rfl⟩ := Prod.mk.inj (Option.some.inj h)
    rfl
  · exact absurd h (by simp)

open Spelling (predicateChars listChars)

/-- One step of the reader of predicates: it takes a predicate with a new key and stops, or goes on
after a comma. -/
theorem readPredicates_eq_ok {whole : String} {filters result : Filters} {text : List Char}
    {after : Rest text} (h : readPredicates whole filters text = .ok (result, after)) :
    ∃ p e, SpellsPredicate p e ∧ e.1 ∉ filters.keys ∧
      ((text = predicateChars p ++ ']' :: after.1 ∧ result = filters.insert e.1 e.2) ∨
        ∃ (rest : List Char) (after' : Rest rest), text = predicateChars p ++ ',' :: rest ∧
          readPredicates whole (filters.insert e.1 e.2) rest = .ok (result, after') ∧
          after'.1 = after.1) := by
  rw [readPredicates] at h
  split at h
  · exact absurd h (by simp)
  · next key afterKey hkey =>
    split at h
    · exact absurd h (by simp)
    · next hempty =>
      split at h
      · exact absurd h (by simp)
      · next literal afterLiteral hliteral =>
        split at h
        · exact absurd h (by simp)
        · next value hvalue =>
          split at h
          · exact absurd h (by simp)
          · next hold =>
            dsimp only at h
            split at h
            · exact absurd h (by simp)
            · next more rest hmark =>
              obtain ⟨hkeyText, hequals⟩ := of_splitKey?_eq_some hkey
              have hafterKey : afterKey.1 = literal ++ (if more then ',' else ']') :: rest.1 :=
                (of_splitLiteral?_eq_some hliteral).trans
                  (congrArg (literal ++ ·) (of_splitMark?_eq_some hmark))
              have htext : text = predicateChars (key, literal) ++
                  (if more then ',' else ']') :: rest.1 := by
                rw [predicateChars, List.append_assoc, List.cons_append, ← hafterKey]
                exact hkeyText
              refine ⟨(key, literal), (String.ofList key, value), ⟨String.toList_ofList.symm,
                fun hnil => hempty (List.isEmpty_iff.2 hnil), hequals, hvalue⟩,
                fun hmem => hold (Filters.get?_isSome_iff.2 hmem), ?_⟩
              split at h
              · next hmore =>
                rw [if_pos hmore] at htext
                split at h
                · exact absurd h (by simp)
                · next result' after' hrest =>
                  obtain ⟨rfl, rfl⟩ := Prod.mk.inj (Except.ok.inj h)
                  exact Or.inr ⟨rest.1, after', htext, hrest, rfl⟩
              · next hlast =>
                rw [if_neg hlast] at htext
                obtain ⟨rfl, rfl⟩ := Prod.mk.inj (Except.ok.inj h)
                exact Or.inl ⟨htext, rfl⟩

/-- The reader of predicates takes a run of them, up to a closing bracket. -/
theorem exists_of_readPredicates {whole : String} {filters result : Filters} {text : List Char}
    {after : Rest text} (h : readPredicates whole filters text = .ok (result, after)) :
    ∃ ps added, ps ≠ [] ∧ List.Forall₂ SpellsPredicate ps added ∧
      text = [','].intercalate (ps.map predicateChars) ++ ']' :: after.1 ∧
      result.toList = filters.toList ++ added := by
  obtain ⟨p, e, hp, hnew, ⟨htext, rfl⟩ | ⟨rest, after', htext, hrest, hafter⟩⟩ :=
    readPredicates_eq_ok h
  · refine ⟨[p], [e], List.cons_ne_nil _ _, .cons hp .nil, ?_,
      Filters.toList_insert_of_not_mem hnew⟩
    rw [List.map_singleton, List.intercalate_singleton]
    exact htext
  · have hshorter : rest.length < text.length := by
      rw [htext, List.length_append, List.length_cons]
      omega
    obtain ⟨ps, added, hne, hps, hrestText, hresult⟩ := exists_of_readPredicates hrest
    obtain ⟨q, qs, rfl⟩ := List.exists_cons_of_ne_nil hne
    refine ⟨p :: q :: qs, e :: added, List.cons_ne_nil _ _, .cons hp hps, ?_, ?_⟩
    · rw [List.map_cons, List.map_cons, List.intercalate_cons_cons, List.append_assoc,
        List.append_assoc, ← hafter, ← List.map_cons, ← hrestText]
      exact htext
    · rw [hresult, Filters.toList_insert_of_not_mem hnew, List.append_assoc]
      rfl
termination_by text.length

theorem of_readSeparator?_eq_some {text : List Char} {relative : Bool} {after : Rest text}
    (h : readSeparator? text = some (relative, after)) :
    text = (separator relative).toList ++ after.1 := by
  unfold readSeparator? at h
  split at h
  · obtain ⟨rfl, rfl⟩ := Prod.mk.inj (Option.some.inj h)
    rfl
  · obtain ⟨rfl, rfl⟩ := Prod.mk.inj (Option.some.inj h)
    rfl
  · exact absurd h (by simp)

/-- A predicate list, or nothing. -/
theorem exists_of_readList {whole : String} {text : List Char} {filters : Filters}
    {rest : { rest : List Char // rest.length ≤ text.length }}
    (h : readList whole text = .ok (filters, rest)) :
    ∃ ps, List.Forall₂ SpellsPredicate ps filters.toList ∧
      text = (if ps.isEmpty then [] else listChars ps) ++ rest.1 := by
  unfold readList at h
  split at h
  · split at h
    · exact absurd h (by simp)
    · next filters' after hread =>
      obtain ⟨rfl, rfl⟩ := Prod.mk.inj (Except.ok.inj h)
      obtain ⟨ps, added, hne, hps, htext, hresult⟩ := exists_of_readPredicates hread
      obtain rfl : filters'.toList = added := hresult
      refine ⟨ps, hps, ?_⟩
      rw [if_neg fun hempty => hne (List.isEmpty_iff.1 hempty), listChars]
      refine (congrArg ('[' :: ·) htext).trans ?_
      simp
  · obtain ⟨rfl, rfl⟩ := Prod.mk.inj (Except.ok.inj h)
    exact ⟨[], .nil, rfl⟩

/-- **A segment that is read stands at the start of the text.** -/
theorem exists_spelling_of_readSegment {whole : String} {text : List Char} {s : Segment}
    {after : Rest text} (h : readSegment whole text = .ok (s, after)) :
    ∃ sp : Spelling, sp.Spells s ∧ text = sp.chars ++ after.1 := by
  unfold readSegment at h
  split at h
  · exact absurd h (by simp)
  · next relative afterSeparator hseparator =>
    split at h
    · exact absurd h (by simp)
    · next filters rest hlist =>
      obtain ⟨rfl, rfl⟩ := Prod.mk.inj (Except.ok.inj h)
      obtain ⟨ps, hps, htext⟩ := exists_of_readList hlist
      refine ⟨⟨relative, (takeName afterSeparator.1).1, ps⟩,
        ⟨rfl, String.toList_ofList.symm, hps⟩, ?_⟩
      have hname : afterSeparator.1 = (takeName afterSeparator.1).1 ++
          ((if ps.isEmpty then [] else listChars ps) ++ rest.1) :=
        (takeName_append afterSeparator.1).symm.trans (congrArg (_ ++ ·) htext)
      rw [Spelling.chars, List.append_assoc, List.append_assoc, ← hname]
      exact of_readSeparator?_eq_some hseparator

/-- All of a text that is read are its segments, one after another. -/
theorem exists_spellings_of_readSegments {whole : String} {text : List Char}
    {segments : List Segment} (h : readSegments whole text = .ok segments) :
    ∃ spellings, List.Forall₂ Spelling.Spells spellings segments ∧
      text = spellings.flatMap Spelling.chars := by
  rw [readSegments] at h
  split at h
  · next hempty =>
    obtain rfl := Except.ok.inj h
    exact ⟨[], .nil, List.isEmpty_iff.1 hempty⟩
  · split at h
    · exact absurd h (by simp)
    · next s after hsegment =>
      dsimp only at h
      split at h
      · exact absurd h (by simp)
      · next rest hrest =>
        obtain rfl := Except.ok.inj h
        obtain ⟨sp, hsp, htext⟩ := exists_spelling_of_readSegment hsegment
        have hshorter := after.2
        obtain ⟨spellings, hspellings, hafter⟩ := exists_spellings_of_readSegments hrest
        refine ⟨sp :: spellings, .cons hsp hspellings, ?_⟩
        rw [List.flatMap_cons, ← hafter]
        exact htext
termination_by text.length

/-! ## Texts of the grammar -/

/-- A segment of the grammar: it has a name, and in the brackets are keys and literals. -/
def Spelling.Grammatical (sp : Spelling) : Prop :=
  IsName sp.name ∧
    ∀ p ∈ sp.predicates, IsKey p.1 ∧ ∃ l, Literal.read (String.ofList p.2) = .ok l

/-- A text of the grammar. -/
def Grammatical (text : String) : Prop :=
  text = "/" ∨ ∃ spellings : List Spelling, spellings ≠ [] ∧
    text.toList = spellings.flatMap Spelling.chars ∧ ∀ sp ∈ spellings, sp.Grammatical

/-- After the first slash of a text of the grammar stands no bracket. -/
theorem Grammatical.head {text : String} (h : Grammatical text) :
    ∀ rest, text.toList ≠ '/' :: '[' :: rest := by
  rcases h with rfl | ⟨spellings, hne, htext, hall⟩
  · simp
  · obtain ⟨sp, others, rfl⟩ := List.exists_cons_of_ne_nil hne
    obtain ⟨⟨hname, hchars⟩, -⟩ := hall sp List.mem_cons_self
    obtain ⟨c, tail, hcons⟩ := List.exists_cons_of_ne_nil hname
    have hc : c ≠ '[' := by
      rintro rfl
      exact (hchars '[' (hcons ▸ List.mem_cons_self)).2.2 (by simp)
    intro rest
    rw [htext, List.flatMap_cons, Spelling.chars, hcons, separator]
    cases sp.relative
    · simp [hc]
    · simp

/-- What is read as a segment with a name and keys is a segment of the grammar. -/
theorem Spelling.Spells.grammatical {sp : Spelling} {s : Segment} (h : sp.Spells s)
    (hname : IsName s.name.toList) (hkeys : ∀ key ∈ s.predicates.keys, isServerKey key = true) :
    sp.Grammatical := by
  refine ⟨h.name ▸ hname, fun p hp => ?_⟩
  obtain ⟨e, he, hspells⟩ := exists_of_mem_forall₂ h.predicates hp
  have hkey : isServerKey e.1 = true := hkeys e.1 (List.mem_map_of_mem he)
  exact ⟨hspells.key ▸ isServerKey_iff.1 hkey, e.2, hspells.literal⟩

/-! ## Names and keys of queries -/

/-- The keys of a segment are keys of the grammar if those are that are evaluated here. -/
theorem isServerKey_of_clientPredicates {s : Segment}
    (h : ∀ key ∈ s.clientPredicates.keys, isServerKey key = true) :
    ∀ key ∈ s.predicates.keys, isServerKey key = true := by
  intro key hkey
  obtain ⟨p, hp, rfl⟩ := List.mem_map.1 hkey
  by_cases hside : isServerSide p.1 p.2 = true
  · exact (Bool.and_eq_true_iff.1 hside).1
  · exact h p.1 (List.mem_map_of_mem (List.mem_filter.2 ⟨hp, by simpa using hside⟩))

theorem clientPredicates_keys_subset (s : Segment) :
    ∀ key ∈ s.clientPredicates.keys, key ∈ s.predicates.keys := by
  intro key hkey
  obtain ⟨p, hp, rfl⟩ := List.mem_map.1 hkey
  exact List.mem_map_of_mem (List.mem_filter.1 hp).1

/-- What is sent of a query is the root of the tree, or has a name in every segment. -/
theorem isName_of_parts {inner : List Segment} {last : Segment} {t : String}
    (ht : write (inner ++ [last.sent]) = .ok t) :
    (inner = [] ∧ last.name = "" ∧ last.relative = false) ∨
      ∀ s ∈ inner ++ [last], IsName s.name.toList := by
  rcases write_eq_ok ht with ⟨hroot, -⟩ | ⟨-, hwrite⟩
  · have hroot : inner ++ [last.sent] = [] ++ [Segment.treeRoot] := hroot
    obtain ⟨rfl, hlast⟩ := List.append_inj' hroot rfl
    have hlast := List.singleton_inj.1 hlast
    exact Or.inl ⟨rfl, congrArg Segment.name hlast, congrArg Segment.relative hlast⟩
  · right
    have hnames : ∀ s ∈ inner ++ [last.sent], IsName s.name.toList := fun s hs =>
      (exists_admissible_of_writeFrom hwrite s hs).elim fun _ hs => hs.name
    intro s hs
    rcases List.mem_append.1 hs with hs | hs
    · exact hnames s (List.mem_append_left _ hs)
    · obtain rfl := List.mem_singleton.1 hs
      exact hnames s.sent (by simp)

/-- What it takes to read a text other than that of the root. -/
theorem of_read_eq_ok {text : String} {q : Query} (h : read text = .ok q) (hroot : text ≠ "/") :
    ∃ spellings : List Spelling, spellings ≠ [] ∧
      List.Forall₂ Spelling.Spells spellings q.segments ∧
      text.toList = spellings.flatMap Spelling.chars := by
  rw [read, if_neg hroot] at h
  split_ifs at h
  split at h
  · exact absurd h (by simp)
  · next segments hsegments =>
    rw [segments_of_ofSegments h]
    obtain ⟨spellings, hspells, htext⟩ := exists_spellings_of_readSegments hsegments
    refine ⟨spellings, ?_, hspells, htext⟩
    rintro rfl
    obtain rfl := List.forall₂_nil_left_iff.1 hspells
    exact absurd h (by simp [ofSegments])

/-- A query without a name is read from the text of the root, or from one that the grammar does not
have. -/
theorem eq_root_of_target_eq {text : String} {q : Query} (h : read text = .ok q)
    (htarget : q.target = "") (hgrammar : Grammatical text) : text = "/" := by
  refine Decidable.byContradiction fun hroot => ?_
  obtain ⟨spellings, -, hspells, htext⟩ := of_read_eq_ok h hroot
  obtain ⟨inner, last, t, -, ht, rfl⟩ := (Reachable.read h).exists_parts
  have hempty : last.name = "" := by
    rwa [target, List.getLast?_concat] at htarget
  have hnameless : ¬IsName last.name.toList := fun hname => hname.1 (by rw [hempty]; rfl)
  obtain ⟨rfl, -, hrelative⟩ := (isName_of_parts ht).resolve_right
    fun hnames => hnameless (hnames last (by simp))
  obtain ⟨sp, _, hsp, hnone, rfl⟩ := List.forall₂_cons_right_iff.1 hspells
  obtain rfl := List.forall₂_nil_right_iff.1 hnone
  -- the text is a slash and at most a list of predicates
  have hchars : text.toList = '/' :: if sp.predicates.isEmpty then [] else
      Spelling.listChars sp.predicates := by
    rw [htext, List.flatMap_singleton, Spelling.chars, hsp.relative, hsp.name, hrelative, hempty]
    rfl
  split at hchars
  · exact hroot (String.toList_injective hchars)
  · exact hgrammar.head _ hchars

/-- **Which texts of the grammar are accepted.**  What is read stands in the text, segment by
segment; in all segments but the last the keys are keys of the grammar.  The text is one of the
grammar and all keys are, exactly if the keys that are evaluated here are and there is a name, or
the text is that of the root. -/
theorem grammatical_iff_of_read {text : String} {q : Query} (h : read text = .ok q) :
    (Grammatical text ∧ (∀ s ∈ q.segments, ∀ key ∈ s.predicates.keys, isServerKey key = true) ↔
        (∀ key ∈ q.clientFilters.keys, isServerKey key = true) ∧
          (q.target = "" → text = "/")) ∧
      (∀ s ∈ q.segments.dropLast, ∀ key ∈ s.predicates.keys, isServerKey key = true) ∧
      (text = "/" ∧ q = pseudoRoot ∨
        ∃ spellings : List Spelling, spellings ≠ [] ∧
          List.Forall₂ Spelling.Spells spellings q.segments ∧
          text.toList = spellings.flatMap Spelling.chars) := by
  have hreachable := Reachable.read h
  obtain ⟨inner, last, t, hinner, ht, hq⟩ := hreachable.exists_parts
  have hbefore : ∀ s ∈ inner, ∀ key ∈ s.predicates.keys, isServerKey key = true := by
    intro s hs
    refine isServerKey_of_clientPredicates ?_
    rw [hinner s hs]
    exact fun key hkey => absurd hkey List.not_mem_nil
  refine ⟨⟨fun ⟨hgrammar, hkeys⟩ => ⟨?_, fun htarget => eq_root_of_target_eq h htarget hgrammar⟩,
    fun ⟨hclient, hname⟩ => ?_⟩, ?_, ?_⟩
  · subst hq
    exact fun key hkey => hkeys last (by simp) key (clientPredicates_keys_subset last key hkey)
  · have hkeys : ∀ s ∈ q.segments, ∀ key ∈ s.predicates.keys, isServerKey key = true := by
      subst hq
      intro s hs
      rcases List.mem_append.1 hs with hs | hs
      · exact hbefore s hs
      · obtain rfl := List.mem_singleton.1 hs
        exact isServerKey_of_clientPredicates hclient
    refine ⟨?_, hkeys⟩
    by_cases hroot : text = "/"
    · exact Or.inl hroot
    · obtain ⟨spellings, hne, hspells, htext⟩ := of_read_eq_ok h hroot
      have hnames : ∀ s ∈ q.segments, IsName s.name.toList := by
        subst hq
        refine (isName_of_parts ht).resolve_left fun ⟨_, hempty, _⟩ => hroot (hname ?_)
        rw [target, List.getLast?_concat]
        exact hempty
      refine Or.inr ⟨spellings, hne, htext, fun sp hsp => ?_⟩
      obtain ⟨s, hs, hspells⟩ := exists_of_mem_forall₂ hspells hsp
      exact hspells.grammatical (hnames s hs) (hkeys s hs)
  · subst hq
    rw [List.dropLast_concat]
    exact hbefore
  · by_cases hroot : text = "/"
    · subst hroot
      rw [read, if_pos rfl] at h
      exact Or.inl ⟨rfl, (Except.ok.inj h).symm⟩
    · exact Or.inr (of_read_eq_ok h hroot)

/-- The text of `quotedButtons` is one of the grammar: a name and nothing that is evaluated here. -/
theorem grammatical_quotedButtons :
    read quotedButtons.text = .ok quotedButtons ∧ Grammatical quotedButtons.text ∧
      (∀ s ∈ quotedButtons.segments, ∀ key ∈ s.predicates.keys, isServerKey key = true) ∧
      ∃ spellings : List Spelling, spellings ≠ [] ∧
        List.Forall₂ Spelling.Spells spellings quotedButtons.segments ∧
        quotedButtons.text.toList = spellings.flatMap Spelling.chars := by
  have hread := reachable_quotedButtons.read_text_eq_self_iff.2 rfl
  obtain ⟨hiff, -, hspelled⟩ := grammatical_iff_of_read hread
  obtain ⟨hgrammar, hkeys⟩ := hiff.2 ⟨by decide, fun h => absurd h (by decide)⟩
  exact ⟨hread, hgrammar, hkeys, hspelled.resolve_left fun h => absurd h.1 (by decide)⟩

/-- An empty list of predicates and, after it, a segment with one: the key of the predicate takes in
all that stands between the first bracket and the equals sign. -/
def bracketedApp : Query :=
  ⟨[.child "App" (.ofList [("]/Foo[x", .int 1)])], "/App", .ofList [("]/Foo[x", .int 1)]⟩

theorem read_bracketedApp : read "/App[]/Foo[x=1]" = .ok bracketedApp :=
  toOption_eq_some_iff.1 (by decide +kernel)

/-- Not all that is accepted has keys of the grammar, then. -/
theorem exists_accepted_not_grammatical :
    ¬∀ text q, read text = .ok q →
      Grammatical text ∧ ∀ s ∈ q.segments, ∀ key ∈ s.predicates.keys, isServerKey key = true := by
  intro hall
  obtain ⟨-, hkeys⟩ := hall _ _ read_bracketedApp
  exact absurd (hkeys _ List.mem_cons_self "]/Foo[x" (by decide)) (by decide)

end Query
end Arbor
