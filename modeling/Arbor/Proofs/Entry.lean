/-
# What becomes of an entry

An entry is decoded as a whole or not at all, and nothing of it is lost (`Node.decode_iff`).

| the entry | the result |
| --- | --- |
| is sound (`Entry.Sound`) | the node that shows all of it (`Node.Shows`) |
| has no id that decodes | a malformed node, whatever else is in the entry |
| has such an id | the fault of the attribute that is refused first, in the order of the bytes of names |

The arrays are taken one at a time, and an array that is not refused does not keep the reader from
the rest (`refused_or_map_decodeState`).  So the reader fails exactly at the first array that is
refused (`decodeState_eq_error_iff`), and otherwise has taken all of them (`keys_of_decodeState`,
`children_of_decodeState`, `find?_of_decodeState`).
-/

import Arbor.Proofs.Keyed
import Arbor.Proofs.Node
import Arbor.Proofs.Text.Utf8

namespace Arbor

namespace Node

/-! ## All arrays -/

/-- What is not refused does not keep the reader from the rest. -/
theorem refused_or_map_decodeState (name : String) (raw : Json) :
    (∃ message, Refused name raw message) ∨
      (∀ message, ¬Refused name raw message) ∧
        ∃ f, ∀ rest, decodeState ((name, raw) :: rest) = (decodeState rest).map f := by
  cases fate name raw with
  | refused h => exact Or.inl ⟨_, h⟩
  | id =>
    refine Or.inr ⟨not_refused_iff.2 (Or.inl rfl), fun r => r, fun rest => ?_⟩
    rw [decodeState_cons_id]
    cases decodeState rest <;> rfl
  | @children _ names h =>
    exact Or.inr ⟨not_refused_iff.2 (Or.inr ⟨_, h, fun _ => ⟨names, rfl⟩⟩), _,
      fun rest => decodeState_cons_children h⟩
  | kept hid hchildren h =>
    exact Or.inr ⟨not_refused_iff.2 (Or.inr ⟨_, h, fun e => absurd e hchildren⟩), _,
      fun rest => decodeState_cons_kept hid hchildren h⟩

section State

variable {state : List (String × Json)} {attributes : Attributes} {children : Option (List String)}

/-- **The reader fails exactly at the first array that is refused.** -/
theorem decodeState_eq_error_iff {failure : Failure} :
    decodeState state = .error failure ↔
      ∃ before name raw after message, state = before ++ (name, raw) :: after ∧
        Refused name raw message ∧ (∀ p ∈ before, ∀ m, ¬Refused p.1 p.2 m) ∧
        failure = .valueDecode (some name) message := by
  constructor
  · intro h
    induction state with
    | nil => exact absurd h (by simp [decodeState])
    | cons p rest ih =>
      obtain ⟨name, raw⟩ := p
      rcases refused_or_map_decodeState name raw with ⟨message, hrefused⟩ | ⟨haccepted, f, hstep⟩
      · rw [decodeState_cons_of_refused hrefused] at h
        exact ⟨[], name, raw, rest, message, rfl, hrefused, by simp, (Except.error.inj h).symm⟩
      · rw [hstep, map_eq_error_iff] at h
        obtain ⟨before, other, raw', after, message, rfl, hrefused, hbefore, hfailure⟩ := ih h
        exact ⟨(name, raw) :: before, other, raw', after, message, rfl, hrefused,
          List.forall_mem_cons.2 ⟨haccepted, hbefore⟩, hfailure⟩
  · rintro ⟨before, name, raw, after, message, rfl, hrefused, hbefore, rfl⟩
    induction before with
    | nil => exact decodeState_cons_of_refused hrefused
    | cons p rest ih =>
      obtain ⟨hp, hrest⟩ := List.forall_mem_cons.1 hbefore
      rcases refused_or_map_decodeState p.1 p.2 with ⟨message, h⟩ | ⟨-, f, hstep⟩
      · exact absurd h (hp message)
      · rw [List.cons_append, hstep, map_eq_error_iff]
        exact ih hrest

/-- It takes all arrays exactly if none is refused. -/
theorem exists_decodeState_iff :
    (∃ r, decodeState state = .ok r) ↔ ∀ p ∈ state, ∀ m, ¬Refused p.1 p.2 m := by
  induction state with
  | nil => simp [decodeState]
  | cons p rest ih =>
    rw [List.forall_mem_cons, ← ih]
    rcases refused_or_map_decodeState p.1 p.2 with ⟨message, hrefused⟩ | ⟨haccepted, f, hstep⟩
    · rw [decodeState_cons_of_refused hrefused]
      constructor
      · rintro ⟨r, h⟩
        exact absurd h (by simp)
      · rintro ⟨haccepted, -⟩
        exact absurd hrefused (haccepted message)
    · rw [hstep]
      constructor
      · rintro ⟨r, h⟩
        obtain ⟨r', hrest, -⟩ := map_eq_ok_iff.1 h
        exact ⟨haccepted, r', hrest⟩
      · rintro ⟨-, r, hrest⟩
        exact ⟨f r, map_eq_ok_iff.2 ⟨r, hrest, rfl⟩⟩

/-- The attributes have the names of the arrays, without the two that are kept apart. -/
theorem keys_of_decodeState (h : decodeState state = .ok (attributes, children)) :
    attributes.map Prod.fst =
      (state.map Prod.fst).filter fun name => name ≠ "id" ∧ name ≠ "Children" := by
  induction state generalizing attributes children with
  | nil =>
    obtain ⟨rfl, -⟩ := Prod.mk.inj (Except.ok.inj h)
    rfl
  | cons p rest ih =>
    obtain ⟨name, raw⟩ := p
    rw [List.map_cons]
    cases fate name raw with
    | id =>
      rw [decodeState_cons_id] at h
      rw [ih h, List.filter_cons_of_neg (by simp)]
    | children hdecode =>
      rw [decodeState_cons_children hdecode] at h
      obtain ⟨r, hrest, heq⟩ := map_eq_ok_iff.1 h
      obtain ⟨rfl, -⟩ := Prod.mk.inj heq
      rw [ih hrest, List.filter_cons_of_neg (by simp)]
    | kept hid hchildren hdecode =>
      rw [decodeState_cons_kept hid hchildren hdecode] at h
      obtain ⟨r, hrest, heq⟩ := map_eq_ok_iff.1 h
      obtain ⟨rfl, -⟩ := Prod.mk.inj heq
      rw [List.map_cons, ih hrest, List.filter_cons_of_pos (by simp [hid, hchildren])]
    | refused hrefused =>
      rw [decodeState_cons_of_refused hrefused] at h
      exact absurd h (by simp)

/-- The type names of the children are there exactly if their array is. -/
theorem children_of_decodeState (h : decodeState state = .ok (attributes, children)) :
    (∀ names, children = some names ↔ ∃ raw, Keyed.find? "Children" state = some raw ∧
        Value.decode raw = .ok (.plain (.list (names.map .text)))) ∧
      (children = none ↔ Keyed.find? "Children" state = none) := by
  induction state generalizing attributes children with
  | nil =>
    obtain ⟨-, rfl⟩ := Prod.mk.inj (Except.ok.inj h)
    simp [Keyed.find?]
  | cons p rest ih =>
    obtain ⟨name, raw⟩ := p
    cases fate name raw with
    | id =>
      rw [decodeState_cons_id] at h
      rw [Keyed.find?, if_neg (by decide)]
      exact ih h
    | @children _ names hdecode =>
      rw [decodeState_cons_children hdecode] at h
      obtain ⟨r, -, heq⟩ := map_eq_ok_iff.1 h
      obtain ⟨-, rfl⟩ := Prod.mk.inj heq
      rw [Keyed.find?, if_pos rfl]
      refine ⟨fun names' => ⟨?_, ?_⟩, by simp⟩
      · rintro h
        obtain rfl := Option.some.inj h
        exact ⟨raw, rfl, hdecode⟩
      · rintro ⟨raw', hraw, hdecode'⟩
        obtain rfl := Option.some.inj hraw
        have hnames := Except.ok.inj (hdecode.symm.trans hdecode')
        have htexts := childNames_eq_ok_iff.2 hnames
        rw [childNames_eq_ok_iff.2 rfl] at htexts
        rw [Except.ok.inj htexts]
    | kept hid hchildren hdecode =>
      rw [decodeState_cons_kept hid hchildren hdecode] at h
      obtain ⟨r, hrest, heq⟩ := map_eq_ok_iff.1 h
      obtain ⟨-, rfl⟩ := Prod.mk.inj heq
      rw [Keyed.find?, if_neg hchildren]
      exact ih hrest
    | refused hrefused =>
      rw [decodeState_cons_of_refused hrefused] at h
      exact absurd h (by simp)

end State

end Node

/-! ## The whole entry -/

open Text (Utf8.encode)

/-- What an entry needs to become a node. -/
structure Entry.Sound (e : Entry) : Prop where
  id : ∃ raw id, Keyed.find? "id" e.state = some raw ∧ Value.decodeId raw = .ok id
  attributes : ∀ name raw, (name, raw) ∈ e.state → name ≠ "id" → ∃ v, Value.decode raw = .ok v
  children : ∀ raw, ("Children", raw) ∈ e.state →
    ∃ names : List String, Value.decode raw = .ok (.plain (.list (names.map .text)))

/-- A node has all that is in an entry, and nothing else. -/
structure Node.Shows (n : Node) (e : Entry) : Prop where
  path : n.path = e.path
  id : e.id? = some n.id
  keys : n.attributes.map Prod.fst =
    (e.state.map Prod.fst).filter fun name => name ≠ "id" ∧ name ≠ "Children"
  attributes : ∀ name, n.attribute? name =
    if name = "id" ∨ name = "Children" then none else e.value? name
  children : ∀ names, n.children = some names ↔
    e.value? "Children" = some (.plain (.list (names.map .text)))
  children_none : n.children = none ↔ Keyed.find? "Children" e.state = none
  globalRect : ∀ r, n.globalRect = some r ↔ e.value? "globalRect" = some (.rectangle r)

/-- How an entry fails: for want of an id that decodes, or else by the attribute that is refused
first in the order of the bytes of names. -/
inductive Entry.Fails (e : Entry) : Failure → Prop
  | noId (h : Keyed.find? "id" e.state = none) :
    e.Fails (.malformedNode e.path "missing required 'id' attribute")
  | badId {raw : Json} {fault : Value.Fault} (hraw : Keyed.find? "id" e.state = some raw)
    (h : Value.decodeId raw = .error fault) :
    e.Fails (.malformedNode e.path (Failure.valueDecode none fault.message).message)
  | refused {id : Int64} {name message : String} {raw : Json} (hid : e.id? = some id)
    (hmem : (name, raw) ∈ e.state) (h : Node.Refused name raw message)
    (hfirst : ∀ other raw' m, (other, raw') ∈ e.state →
      Utf8.encode other.toList < Utf8.encode name.toList → ¬Node.Refused other raw' m) :
    e.Fails (.valueDecode (some name) message)

namespace Node

variable {e : Entry} {n : Node}

/-- With an id that decodes, the rest decides. -/
theorem decode_of_id? {id : Int64} (h : e.id? = some id) :
    decode e = (decodeState e.state).map fun r => ⟨e.path, id, r.1, r.2, rectangleOf r.1⟩ := by
  obtain ⟨raw, hraw, hid⟩ := exists_of_id? h
  rw [decode, hraw]
  simp only [hid]
  cases decodeState e.state <;> rfl

theorem sound_iff : e.Sound ↔
    (∃ id, e.id? = some id) ∧ ∀ p ∈ e.state, ∀ m, ¬Refused p.1 p.2 m := by
  constructor
  · rintro ⟨⟨raw, id, hraw, hid⟩, hattributes, hchildren⟩
    refine ⟨⟨id, ?_⟩, fun ⟨name, raw'⟩ hp => not_refused_iff.2 ?_⟩
    · rw [Entry.id?, hraw, Option.bind_some, toOption_eq_some_iff.2 hid]
    · by_cases hname : name = "id"
      · exact Or.inl hname
      · obtain ⟨v, hv⟩ := hattributes name raw' hp hname
        refine Or.inr ⟨v, hv, ?_⟩
        rintro rfl
        obtain ⟨names, hnames⟩ := hchildren raw' hp
        exact ⟨names, Except.ok.inj (hv.symm.trans hnames)⟩
  · rintro ⟨⟨id, hid⟩, haccepted⟩
    obtain ⟨raw, hraw, hid⟩ := exists_of_id? hid
    refine ⟨⟨raw, id, hraw, hid⟩, fun name raw hp hname => ?_, fun raw hp => ?_⟩
    · obtain ⟨v, hv, -⟩ := (not_refused_iff.1 (haccepted _ hp)).resolve_left hname
      exact ⟨v, hv⟩
    · obtain ⟨v, hv, hnames⟩ := (not_refused_iff.1 (haccepted _ hp)).resolve_left (by simp)
      obtain ⟨names, rfl⟩ := hnames rfl
      exact ⟨names, hv⟩

/-- Exactly sound entries become nodes. -/
theorem exists_decode_iff : (∃ n, decode e = .ok n) ↔ e.Sound := by
  rw [sound_iff, ← exists_decodeState_iff]
  constructor
  · rintro ⟨n, h⟩
    obtain ⟨hid, hstate⟩ := of_decode_eq_ok h
    exact ⟨⟨_, hid⟩, _, hstate⟩
  · rintro ⟨⟨id, hid⟩, r, hstate⟩
    exact ⟨_, (decode_of_id? hid).trans (map_eq_ok_iff.2 ⟨r, hstate, rfl⟩)⟩

theorem rectangleOf_eq_some_iff {attributes : Attributes} {r : Rectangle} :
    rectangleOf attributes = some r ↔
      Keyed.find? "globalRect" attributes = some (.rectangle r) := by
  unfold rectangleOf
  split
  · next r' h => rw [h, Option.some.injEq, Option.some.injEq, Value.rectangle.injEq]
  · next hnone =>
    constructor
    · intro h
      exact absurd h (by simp)
    · intro h
      exact absurd h (hnone r)

theorem shows_of_decode (h : decode e = .ok n) : n.Shows e := by
  obtain ⟨hid, hstate⟩ := of_decode_eq_ok h
  obtain ⟨hchildren, hnone⟩ := children_of_decodeState hstate
  have hattributes := attribute?_of_decode h
  rw [decode_of_id? hid, map_eq_ok_iff] at h
  obtain ⟨r, hr, hn⟩ := h
  obtain rfl := Except.ok.inj (hstate.symm.trans hr)
  refine ⟨hn ▸ rfl, hid, keys_of_decodeState hstate, hattributes, fun names => ?_, hnone,
    fun rectangle => ?_⟩
  · rw [hchildren, Entry.value?, Option.bind_eq_some_iff]
    simp only [toOption_eq_some_iff]
  · have hvalue := hattributes "globalRect"
    rw [if_neg (by decide)] at hvalue
    rw [← hvalue, ← hn]
    exact rectangleOf_eq_some_iff

theorem Shows.nodup (hn : n.Shows e) (h : Keyed.Ascending e.state) :
    (n.attributes.map Prod.fst).Nodup := by
  rw [hn.keys]
  exact h.nodup.filter _

/-- An entry has one node at most. -/
theorem eq_of_shows (h : Keyed.Ascending e.state) {n' : Node} (hn : n.Shows e)
    (hn' : n'.Shows e) : n = n' := by
  have hattributes : n.attributes = n'.attributes :=
    Keyed.eq_of_find?_eq (hn.keys.trans hn'.keys.symm) (hn.nodup h) fun name _ =>
      (hn.attributes name).trans (hn'.attributes name).symm
  have hchildren : n.children = n'.children :=
    Option.ext fun names => (hn.children names).trans (hn'.children names).symm
  have hrectangle : n.globalRect = n'.globalRect :=
    Option.ext fun r => (hn.globalRect r).trans (hn'.globalRect r).symm
  have hid : n.id = n'.id := Option.some.inj (hn.id.symm.trans hn'.id)
  have hpath : n.path = n'.path := hn.path.trans hn'.path.symm
  cases n
  cases n'
  rw [Node.mk.injEq]
  exact ⟨hpath, hid, hattributes, hchildren, hrectangle⟩

/-- Of names that ascend, those before one have the lesser bytes. -/
theorem mem_iff_of_ascending {before after : List (String × Json)} {name : String} {raw : Json}
    (h : Keyed.Ascending (before ++ (name, raw) :: after)) (p : String × Json) :
    p ∈ before ↔ p ∈ before ++ (name, raw) :: after ∧
      Utf8.encode p.1.toList < Utf8.encode name.toList := by
  have hbytes : Utf8.encode p.1.toList < Utf8.encode name.toList ↔ p.1 < name :=
    Text.Utf8.encode_lt_encode_iff
  rw [hbytes]
  rw [Keyed.Ascending, List.pairwise_map, List.pairwise_append, List.pairwise_cons] at h
  obtain ⟨-, ⟨hafter, -⟩, hbefore⟩ := h
  constructor
  · intro hp
    exact ⟨List.mem_append_left _ hp, hbefore p hp _ List.mem_cons_self⟩
  · rintro ⟨hp, hlt⟩
    rcases List.mem_append.1 hp with hp | hp
    · exact hp
    · rcases List.mem_cons.1 hp with rfl | hp
      · exact absurd hlt (String.lt_irrefl _)
      · exact absurd hlt (String.lt_asymm (hafter p hp))

theorem decode_eq_error_iff (h : Keyed.Ascending e.state) {failure : Failure} :
    decode e = .error failure ↔ e.Fails failure := by
  constructor
  · intro hfailure
    cases hid : e.id? with
    | none =>
      rw [decode] at hfailure
      split at hfailure
      · next hraw =>
        obtain rfl := Except.error.inj hfailure
        exact .noId hraw
      · next raw hraw =>
        split at hfailure
        · next fault hfault =>
          obtain rfl := Except.error.inj hfailure
          exact .badId hraw hfault
        · next id hok =>
          rw [Entry.id?, hraw, Option.bind_some, toOption_eq_some_iff.2 hok] at hid
          exact absurd hid (by simp)
    | some id =>
      rw [decode_of_id? hid, map_eq_error_iff, decodeState_eq_error_iff] at hfailure
      obtain ⟨before, name, raw, after, message, hstate, hrefused, hbefore, rfl⟩ := hfailure
      -- the arrays before the refused one are those with the lesser names
      refine .refused hid (hstate ▸ by simp) hrefused fun other raw' m hmem hlt => ?_
      rw [hstate] at h hmem
      exact hbefore _ ((mem_iff_of_ascending h (other, raw')).2 ⟨hmem, hlt⟩) m
  · intro hfails
    cases hfails with
    | noId hnone => rw [decode, hnone]
    | badId hraw hfault =>
      rw [decode, hraw]
      simp only [hfault]
    | refused hid hmem hrefused hfirst =>
      obtain ⟨before, after, hstate⟩ := List.append_of_mem hmem
      rw [decode_of_id? hid, map_eq_error_iff, decodeState_eq_error_iff]
      refine ⟨before, _, _, after, _, hstate, hrefused, fun p hp m => ?_, rfl⟩
      rw [hstate] at h hfirst
      obtain ⟨hmem, hlt⟩ := (mem_iff_of_ascending h p).1 hp
      exact hfirst p.1 p.2 m hmem hlt

/-- **An entry is decoded as a whole or not at all**, and nothing is lost.  A sound entry gives the
one node that shows all of it.  Any other entry fails, for its id before all else, and otherwise at
the first attribute, in the order of the bytes of names, that is refused. -/
theorem decode_iff (h : Keyed.Ascending e.state) :
    (∀ n, decode e = .ok n ↔ e.Sound ∧ n.Shows e) ∧ ((∃ n, decode e = .ok n) ↔ e.Sound) ∧
      ∀ failure, decode e = .error failure ↔ e.Fails failure := by
  refine ⟨fun n => ⟨fun hn => ⟨exists_decode_iff.1 ⟨n, hn⟩, shows_of_decode hn⟩, ?_⟩,
    exists_decode_iff, fun _ => decode_eq_error_iff h⟩
  rintro ⟨hsound, hshows⟩
  obtain ⟨n', hn'⟩ := exists_decode_iff.2 hsound
  rw [hn', eq_of_shows h (shows_of_decode hn') hshows]

/-- A panel with two children and a place on the screen. -/
def panel (size zoom : Json) : Entry :=
  ⟨"/App/Panel", [("Children", .arr [.int 0, .arr [.str "Label", .str "Button"]]),
    ("globalRect", .arr [.int 1, .int 0, .int 0, .int 64, .int 48]),
    ("id", .arr [.int 0, .int 0x10000000000]), ("size", size), ("zoom", zoom)]⟩

theorem sound_panel : (panel (.arr [.int 3, .int 64, .int 48]) (.arr [.int 0, .int 2])).Sound where
  id := ⟨_, _, rfl, rfl⟩
  attributes name raw hmem hid := by
    simp only [panel, List.mem_cons, Prod.mk.injEq, List.not_mem_nil, or_false] at hmem
    rcases hmem with ⟨-, rfl⟩ | ⟨-, rfl⟩ | ⟨rfl, -⟩ | ⟨-, rfl⟩ | ⟨-, rfl⟩
    · exact ⟨_, rfl⟩
    · exact ⟨_, rfl⟩
    · exact absurd rfl hid
    · exact ⟨_, rfl⟩
    · exact ⟨_, rfl⟩
  children raw hmem := by
    have hraw : raw = .arr [.int 0, .arr [.str "Label", .str "Button"]] := by
      simpa [panel] using hmem
    exact ⟨["Label", "Button"], hraw ▸ rfl⟩

/-- With a size and a zoom the panel is decoded, and all of it shows.  Where both are spoiled, the
size is to blame. -/
theorem decode_panel :
    (∃ n, decode (panel (.arr [.int 3, .int 64, .int 48]) (.arr [.int 0, .int 2])) = .ok n ∧
        n.Shows (panel (.arr [.int 3, .int 64, .int 48]) (.arr [.int 0, .int 2]))) ∧
      decode (panel (.arr [.int 3, .int 64]) (.arr [])) =
        .error (.valueDecode (some "size") "Size needs 2 values, got 1") := by
  have hascending : ∀ size zoom, Keyed.Ascending (panel size zoom).state := by
    intro size zoom
    show ["Children", "globalRect", "id", "size", "zoom"].Pairwise (· < ·)
    decide
  constructor
  · obtain ⟨hshows, hexists, -⟩ :=
      decode_iff (hascending (.arr [.int 3, .int 64, .int 48]) (.arr [.int 0, .int 2]))
    obtain ⟨n, hn⟩ := hexists.2 sound_panel
    exact ⟨n, hn, ((hshows n).1 hn).2⟩
  · obtain ⟨-, -, hfails⟩ := decode_iff (hascending (.arr [.int 3, .int 64]) (.arr []))
    have hid : (panel (.arr [.int 3, .int 64]) (.arr [])).id? = some 0x10000000000 := rfl
    have hrefused : Refused "size" (.arr [.int 3, .int 64])
        (Value.Fault.fieldCount .size 1).message := .value (by decide) rfl
    have haccepted := (sound_iff.1 sound_panel).2
    refine (hfails _).2 (.refused hid (by simp [panel]) hrefused fun other raw m hmem hlt => ?_)
    simp only [panel, List.mem_cons, Prod.mk.injEq, List.not_mem_nil, or_false] at hmem
    rcases hmem with ⟨rfl, rfl⟩ | ⟨rfl, rfl⟩ | ⟨rfl, rfl⟩ | ⟨rfl, rfl⟩ | ⟨rfl, rfl⟩
    · exact haccepted (_, _) (by simp [panel]) m
    · exact haccepted (_, _) (by simp [panel]) m
    · exact haccepted (_, _) (by simp [panel]) m
    · exact absurd hlt (by decide)
    · exact absurd hlt (by decide)

end Node
end Arbor
