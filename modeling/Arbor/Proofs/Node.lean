/-
# Nodes and their entries

A node has what its entry decodes to, attribute by attribute: `Entry.value?` is the value of the
array under a name, `Entry.id?` the id.

| attribute | among the attributes of the node | compared with a value |
| --- | --- | --- |
| `id` | no | as an integer: equal exactly if the array decodes to the value |
| `Children` | no | never equal |
| any other | if the entry has it | equal exactly if the array decodes to the value |

The first and the last row are `Node.satisfies_value_iff`, the second is `Node.satisfies_children`.

The arrays of an entry are taken one at a time: an array is the id and passed over, or the type
names of the children, or kept as an attribute, or refused.  `Node.Fate` has these four cases and no
others (`Node.fate`), with a step of the reader for each (`Node.decodeState_cons_id` and so on); all
that is said of an entry with many arrays is an induction along these steps.
-/

import Arbor.Node
import Arbor.Proofs.Value.Wire

namespace Arbor

/-! ## Entries -/

/-- What the array of an attribute decodes to. -/
def Entry.value? (e : Entry) (name : String) : Option Value :=
  (Keyed.find? name e.state).bind fun raw => (Value.decode raw).toOption

/-- The id, if there is one that decodes. -/
def Entry.id? (e : Entry) : Option Int64 :=
  (Keyed.find? "id" e.state).bind fun raw => (Value.decodeId raw).toOption

/-- The array of an id that has 32 bits is also that of a plain integer; the others decode to no
value. -/
theorem Value.decode_eq_ok_iff_of_decodeId {raw : Json} {id : Int64} {v : Value}
    (h : decodeId raw = .ok id) :
    decode raw = .ok v ↔ ∃ i : Int32, v = .plain (.int i) ∧ i.toInt = id.toInt := by
  unfold decodeId at h
  split at h
  · next head field =>
    split at h
    · next hhead =>
      obtain rfl := int64_eq_ok_iff.1 h
      have hdecode : decode (.arr [head, .int id.toInt]) =
          (decodePlain (.int id.toInt)).map .plain := by
        rw [decode, hhead]
        rfl
      rw [hdecode, map_eq_ok_iff, decodePlain]
      constructor
      · rintro ⟨p, hp, rfl⟩
        obtain ⟨i, hi, rfl⟩ := map_eq_ok_iff.1 hp
        exact ⟨i, rfl, (Json.int.inj (int32_eq_ok_iff.1 hi)).symm⟩
      · rintro ⟨i, rfl, hi⟩
        refine ⟨.int i, map_eq_ok_iff.2 ⟨i, ?_, rfl⟩, rfl⟩
        rw [← hi]
        exact int32_toInt i
    · exact absurd h (by simp)
  · exact absurd h (by simp)

namespace Node

/-! ## One array -/

theorem textItems_eq_ok_iff {items : List Plain} {names : List String} :
    textItems items = .ok names ↔ items = names.map .text := by
  induction items generalizing names with
  | nil => cases names <;> simp [textItems]
  | cons item rest ih =>
    cases item with
    | text s =>
      rw [textItems, map_eq_ok_iff]
      constructor
      · rintro ⟨names', hrest, rfl⟩
        rw [List.map_cons, ih.1 hrest]
      · intro h
        obtain ⟨s', names', rfl, hs, hrest⟩ := List.map_eq_cons_iff.1 h.symm
        obtain rfl := Plain.text.inj hs
        exact ⟨names', ih.2 hrest.symm, rfl⟩
    | _ => cases names <;> simp [textItems]

/-- The type names of the children are a list of texts. -/
theorem childNames_eq_ok_iff {v : Value} {names : List String} :
    childNames v = .ok names ↔ v = .plain (.list (names.map .text)) := by
  unfold childNames
  split
  · rw [textItems_eq_ok_iff, Value.plain.injEq, Plain.list.injEq]
  · next hlist =>
    constructor
    · intro h
      exact absurd h (by simp)
    · intro h
      exact absurd h (hlist _)

/-- An array under a name is refused, with a message: it does not decode, or it is under `Children`
and not a list of texts.  The id is not looked at in this way. -/
inductive Refused : String → Json → String → Prop
  | value {name : String} {raw : Json} {fault : Value.Fault} (hname : name ≠ "id")
    (h : Value.decode raw = .error fault) : Refused name raw fault.message
  | children {raw : Json} {v : Value} {fault : ChildrenFault} (h : Value.decode raw = .ok v)
    (hnames : childNames v = .error fault) : Refused "Children" raw fault.message

theorem Refused.ne_id {name message : String} {raw : Json} (h : Refused name raw message) :
    name ≠ "id" := by
  cases h with
  | value hname _ => exact hname
  | children _ _ => decide

/-- What becomes of an array under a name. -/
inductive Fate : String → Json → Prop
  | id {raw : Json} : Fate "id" raw
  | children {raw : Json} {names : List String}
    (h : Value.decode raw = .ok (.plain (.list (names.map .text)))) : Fate "Children" raw
  | kept {name : String} {raw : Json} {v : Value} (hid : name ≠ "id")
    (hchildren : name ≠ "Children") (h : Value.decode raw = .ok v) : Fate name raw
  | refused {name : String} {raw : Json} {message : String} (h : Refused name raw message) :
    Fate name raw

theorem fate (name : String) (raw : Json) : Fate name raw := by
  by_cases hid : name = "id"
  · subst hid
    exact .id
  · cases hdecode : Value.decode raw with
    | error fault => exact .refused (.value hid hdecode)
    | ok v =>
      by_cases hchildren : name = "Children"
      · subst hchildren
        cases hnames : childNames v with
        | error fault => exact .refused (.children hdecode hnames)
        | ok names =>
          rw [childNames_eq_ok_iff.1 hnames] at hdecode
          exact .children hdecode
      · exact .kept hid hchildren hdecode

/-- What it takes for an array not to be refused. -/
theorem not_refused_iff {name : String} {raw : Json} :
    (∀ m, ¬Refused name raw m) ↔ name = "id" ∨ ∃ v, Value.decode raw = .ok v ∧
      (name = "Children" → ∃ names : List String, v = .plain (.list (names.map .text))) := by
  constructor
  · intro h
    cases fate name raw with
    | id => exact Or.inl rfl
    | @children _ names hdecode => exact Or.inr ⟨_, hdecode, fun _ => ⟨names, rfl⟩⟩
    | kept hid hchildren hdecode => exact Or.inr ⟨_, hdecode, fun e => absurd e hchildren⟩
    | refused hrefused => exact absurd hrefused (h _)
  · rintro (rfl | ⟨v, hv, hnames⟩) m hrefused
    · exact hrefused.ne_id rfl
    · cases hrefused with
      | value _ hfault => exact absurd (hv.symm.trans hfault) (by simp)
      | children hdecode hfault =>
        obtain rfl := Except.ok.inj (hv.symm.trans hdecode)
        obtain ⟨names, rfl⟩ := hnames rfl
        exact absurd ((childNames_eq_ok_iff.2 rfl).symm.trans hfault) (by simp)

section Step

variable {name message : String} {raw : Json} {rest : List (String × Json)}

theorem decodeState_cons_id : decodeState (("id", raw) :: rest) = decodeState rest := by
  rw [decodeState, if_pos rfl]

theorem decodeState_cons_children {names : List String}
    (h : Value.decode raw = .ok (.plain (.list (names.map .text)))) :
    decodeState (("Children", raw) :: rest) =
      (decodeState rest).map fun r => (r.1, some names) := by
  have hnames : childNames (.plain (.list (names.map .text))) = .ok names :=
    childNames_eq_ok_iff.2 rfl
  rw [decodeState, if_neg (by decide), h]
  simp only [if_true, hnames]

theorem decodeState_cons_kept {v : Value} (hid : name ≠ "id")
    (hchildren : name ≠ "Children") (h : Value.decode raw = .ok v) :
    decodeState ((name, raw) :: rest) =
      (decodeState rest).map fun r => ((name, v) :: r.1, r.2) := by
  rw [decodeState, if_neg hid, h]
  simp only [if_neg hchildren]

theorem decodeState_cons_of_refused (h : Refused name raw message) :
    decodeState ((name, raw) :: rest) = .error (.valueDecode (some name) message) := by
  cases h with
  | value hname hdecode => rw [decodeState, if_neg hname, hdecode]
  | children hdecode hnames =>
    rw [decodeState, if_neg (by decide), hdecode]
    simp only [if_true, hnames]

end Step

/-! ## Decoding -/

/-- **The attributes of a node are what the arrays of its entry decode to**, but for two of them. -/
theorem find?_of_decodeState {state : List (String × Json)} {attributes : Attributes}
    {children : Option (List String)} (h : decodeState state = .ok (attributes, children))
    (name : String) :
    Keyed.find? name attributes =
      if name = "id" ∨ name = "Children" then none
      else (Keyed.find? name state).bind fun raw => (Value.decode raw).toOption := by
  induction state generalizing attributes children with
  | nil =>
    obtain ⟨rfl, -⟩ := Prod.mk.inj (Except.ok.inj h)
    simp [Keyed.find?]
  | cons entry rest ih =>
    obtain ⟨key, raw⟩ := entry
    cases fate key raw with
    | id =>
      rw [decodeState_cons_id] at h
      rw [ih h]
      split
      · rfl
      · next hname => rw [Keyed.find?, if_neg fun e => hname (Or.inl e.symm)]
    | children hdecode =>
      rw [decodeState_cons_children hdecode] at h
      obtain ⟨_, hrest, heq⟩ := map_eq_ok_iff.1 h
      obtain ⟨rfl, -⟩ := Prod.mk.inj heq
      rw [ih hrest]
      split
      · rfl
      · next hname => rw [Keyed.find?, if_neg fun e => hname (Or.inr e.symm)]
    | kept hid hchildren hdecode =>
      rw [decodeState_cons_kept hid hchildren hdecode] at h
      obtain ⟨_, hrest, heq⟩ := map_eq_ok_iff.1 h
      obtain ⟨rfl, -⟩ := Prod.mk.inj heq
      rw [Keyed.find?, Keyed.find?, ih hrest]
      by_cases hkey : key = name
      · subst hkey
        rw [if_pos rfl, if_neg (not_or.2 ⟨hid, hchildren⟩), if_pos rfl, Option.bind_some,
          toOption_eq_some_iff.2 hdecode]
      · rw [if_neg hkey, if_neg hkey]
    | refused hrefused =>
      rw [decodeState_cons_of_refused hrefused] at h
      exact absurd h (by simp)

variable {e : Entry} {n : Node}

theorem of_decode_eq_ok (h : decode e = .ok n) :
    e.id? = some n.id ∧ decodeState e.state = .ok (n.attributes, n.children) := by
  unfold decode at h
  split at h
  · exact absurd h (by simp)
  · next raw hraw =>
    split at h
    · exact absurd h (by simp)
    · next id hid =>
      split at h
      · exact absurd h (by simp)
      · next attributes children hstate =>
        obtain rfl := Except.ok.inj h
        refine ⟨?_, hstate⟩
        rw [Entry.id?, hraw, Option.bind_some, toOption_eq_some_iff.2 hid]

/-- The array of the id of an entry with an id. -/
theorem exists_of_id? {id : Int64} (h : e.id? = some id) :
    ∃ raw, Keyed.find? "id" e.state = some raw ∧ Value.decodeId raw = .ok id := by
  obtain ⟨raw, hraw, hid⟩ := Option.bind_eq_some_iff.1 h
  exact ⟨raw, hraw, toOption_eq_some_iff.1 hid⟩

theorem attribute?_of_decode (h : decode e = .ok n) (name : String) :
    n.attribute? name = if name = "id" ∨ name = "Children" then none else e.value? name :=
  find?_of_decodeState (of_decode_eq_ok h).2 name

/-! ## Comparing -/

theorem satisfies_of_ne_id {n : Node} {name : String} (h : name ≠ "id") (literal : Literal) :
    n.satisfies name literal = (n.attribute? name).any literal.accepts := by
  unfold satisfies
  rw [if_neg h]
  cases n.attribute? name with
  | none => rfl
  | some v => rfl

/-- **An attribute equals a value exactly if its array decodes to it**, unless it is the type names
of the children. -/
theorem satisfies_value_iff (h : decode e = .ok n) {name : String} (hname : name ≠ "Children")
    {v : Value} : n.satisfies name (.value v) = true ↔ e.value? name = some v := by
  by_cases hid : name = "id"
  · subst hid
    obtain ⟨raw, hraw, hid⟩ := exists_of_id? (of_decode_eq_ok h).1
    rw [Entry.value?, hraw, Option.bind_some, toOption_eq_some_iff,
      Value.decode_eq_ok_iff_of_decodeId hid]
    unfold satisfies
    rw [if_pos rfl]
    constructor
    · intro hsatisfies
      split at hsatisfies
      · next heq => exact absurd heq (by simp)
      · next i heq =>
        obtain rfl := Literal.value.inj heq
        exact ⟨i, rfl, eq_of_beq hsatisfies⟩
      · exact absurd hsatisfies (by simp)
    · rintro ⟨i, rfl, hi⟩
      exact beq_iff_eq.2 hi
  · rw [satisfies_of_ne_id hid, attribute?_of_decode h, if_neg (not_or.2 ⟨hid, hname⟩)]
    cases e.value? name with
    | none => simp
    | some w => simp [Literal.accepts, eq_comm]

/-- What is not there equals nothing. -/
theorem satisfies_of_find?_eq_none (h : decode e = .ok n) {name : String}
    (hname : Keyed.find? name e.state = none) (literal : Literal) :
    n.satisfies name literal = false := by
  have hid : name ≠ "id" := by
    rintro rfl
    obtain ⟨raw, hraw, -⟩ := exists_of_id? (of_decode_eq_ok h).1
    exact absurd (hname.symm.trans hraw) (by simp)
  have hnone : n.attribute? name = none := by
    rw [attribute?_of_decode h, Entry.value?, hname]
    simp
  rw [satisfies_of_ne_id hid, hnone]
  rfl

/-- The type names of the children are not among the attributes, so they equal nothing. -/
theorem satisfies_children (h : decode e = .ok n) (literal : Literal) :
    n.satisfies "Children" literal = false := by
  rw [satisfies_of_ne_id (by decide), attribute?_of_decode h, if_pos (Or.inr rfl)]
  rfl

/-- The id is compared as an integer. -/
theorem satisfies_id (n : Node) : n.satisfies "id" (.int n.id) = true := by
  unfold satisfies
  rw [if_pos rfl]
  exact beq_self_eq_true n.id

end Node
end Arbor
