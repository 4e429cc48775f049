/-
# The properties of an object

The properties of an object are its id as a number and its attributes in tagged form.  For an object
that was found they can always be had, and nothing of the entry is lost in them
(`Proxy.properties_of_decode`):

| in the entry | among the properties |
| --- | --- |
| `id` | as a number, which no attribute replaces |
| `Children` | not at all |
| any other array | in tagged form, which is read as the value that the array decodes to |

What decodes is well formed, so its keys are texts in order and its doubles are finite; that is why
making it JSON does not fail (`Value.toJson_draft`) and reading it from there gives it back
(`Value.ofTagged?_of_wellFormed`).
-/

import Arbor.Proofs.Entry
import Arbor.Proofs.Session.Binding
import Arbor.Proofs.Value.Tagged
import Arbor.Proxy.Basic

namespace Arbor

theorem Json.proper_of_find? {key : String} {entries : List (String × Json)} {raw : Json}
    (h : ProperEntries entries) (hraw : Keyed.find? key entries = some raw) : raw.Proper := by
  induction entries with
  | nil => exact absurd hraw (by simp [Keyed.find?])
  | cons e rest ih =>
    obtain ⟨k, value⟩ := e
    obtain ⟨hvalue, hrest⟩ := h
    rw [Keyed.find?] at hraw
    split_ifs at hraw with hkey
    · exact Option.some.inj hraw ▸ hvalue
    · exact ih hrest hraw

/-! ## Attributes of nodes that were decoded -/

namespace Node

variable {e : Entry} {n : Node} {name : String}

/-- An attribute comes from the array under its name. -/
theorem Shows.attribute?_eq_some_iff (h : n.Shows e) {v : Value} :
    n.attribute? name = some v ↔ name ≠ "id" ∧ name ≠ "Children" ∧
      ∃ raw, Keyed.find? name e.state = some raw ∧ Value.decode raw = .ok v := by
  rw [h.attributes]
  split_ifs with hname
  · exact iff_of_false (by simp) fun ⟨hid, hchildren, _⟩ => hname.elim hid hchildren
  · rw [not_or] at hname
    rw [Entry.value?, Option.bind_eq_some_iff, and_iff_right hname.1, and_iff_right hname.2]
    simp only [toOption_eq_some_iff]

/-- It is well formed if the entry could be in a JSON text. -/
theorem Shows.wellFormed (h : n.Shows e) (hproper : (Json.obj e.state).Proper) :
    ∀ a ∈ n.attributes, a.2.WellFormed := by
  intro a ha
  obtain ⟨-, -, raw, hraw, hdecode⟩ := h.attribute?_eq_some_iff.1
    (Keyed.find?_of_mem (h.nodup hproper.1) ha)
  exact (Value.of_decode_eq_ok (Json.proper_of_find? hproper.2 hraw) hdecode).2

end Node

/-! ## Properties -/

namespace Proxy

/-- The properties, where making them JSON does not fail. -/
def taggedProperties (p : Proxy) : List (String × Json) :=
  ("id", .int p.id.toInt) :: p.node.attributes.map fun a => (a.1, a.2.toTagged)

theorem addProperty_of_wellFormed {a : String × Value} (h : a.2.WellFormed)
    (properties : List (String × Json)) :
    addProperty properties a = .ok (Keyed.insert a.1 a.2.toTagged properties) := by
  rw [addProperty, Value.toJson_draft h]

/-- Attributes are added one after another, and all of them if they are well formed. -/
theorem foldlM_addProperty {attributes : Attributes} (h : ∀ a ∈ attributes, a.2.WellFormed)
    (properties : List (String × Json)) :
    attributes.foldlM addProperty properties = .ok (attributes.foldl
      (fun properties a => Keyed.insert a.1 a.2.toTagged properties) properties) := by
  induction attributes generalizing properties with
  | nil => rfl
  | cons a rest ih =>
    obtain ⟨ha, hrest⟩ := List.forall_mem_cons.1 h
    rw [List.foldlM_cons, addProperty_of_wellFormed ha, List.foldl_cons]
    exact ih hrest _

theorem properties_of_wellFormed {p : Proxy} (h : ∀ a ∈ p.node.attributes, a.2.WellFormed) :
    p.properties = .ok (Keyed.ofList p.taggedProperties) := by
  rw [properties, foldlM_addProperty h, Keyed.ofList, taggedProperties, List.foldl_cons,
    List.foldl_map]

/-- What is found among them: the id, and otherwise the attribute, in tagged form. -/
theorem find?_taggedProperties (p : Proxy) (name : String) :
    Keyed.find? name p.taggedProperties =
      if name = "id" then some (.int p.id.toInt)
      else (p.attribute? name).map Value.toTagged := by
  rw [taggedProperties, Keyed.find?, Keyed.find?_map]
  by_cases hname : name = "id"
  · rw [if_pos hname, if_pos hname.symm]
  · rw [if_neg hname, if_neg fun h => hname h.symm]
    rfl

/-- **The properties of an object that was found are all that its entry says of it.**  Of every
entry that decodes to a node that is bound, the properties can be had.  Their keys are the names in
the entry without `Children`.  Under `id` is the id that the entry has, and under every other name
what is read, by name, as the value that the array decodes to. -/
theorem properties_of_decode {e : Entry} {n : Node} {registry : Registry} {p : Proxy}
    (hproper : (Json.obj e.state).Proper) (hnode : Node.decode e = .ok n)
    (hbind : Session.bind registry n = .ok p) :
    ∃ m, p.properties = .ok m ∧ Keyed.Ascending m ∧
      (∀ name, name ∈ m.map Prod.fst ↔ name ∈ e.state.map Prod.fst ∧ name ≠ "Children") ∧
      (∃ raw id, Keyed.find? "id" e.state = some raw ∧ Value.decodeId raw = .ok id ∧
        Keyed.find? "id" m = some (.int id.toInt)) ∧
      ∀ name raw, name ≠ "id" → name ≠ "Children" → Keyed.find? name e.state = some raw →
        ∃ json v, Keyed.find? name m = some json ∧ Value.decode raw = .ok v ∧
          Value.ofTagged? json = some v := by
  have hshows := Node.shows_of_decode hnode
  obtain ⟨hid, hstate⟩ := Node.of_decode_eq_ok hnode
  obtain ⟨rfl, -⟩ := Session.of_bind_eq_ok hbind
  have hwell := hshows.wellFormed hproper
  have hkeys : p.taggedProperties.map Prod.fst =
      "id" :: (e.state.map Prod.fst).filter fun name => name ≠ "id" ∧ name ≠ "Children" := by
    rw [taggedProperties, List.map_cons, List.map_map, ← hshows.keys]
    rfl
  have hnodup : (p.taggedProperties.map Prod.fst).Nodup := by
    rw [hkeys]
    exact List.nodup_cons.2 ⟨by simp, hproper.1.nodup.filter _⟩
  have hfind : ∀ name, Keyed.find? name (Keyed.ofList p.taggedProperties) =
      if name = "id" then some (.int p.id.toInt)
      else (p.attribute? name).map Value.toTagged := fun name => by
    rw [Keyed.find?_ofList_of_nodup hnodup, find?_taggedProperties]
  obtain ⟨rawId, hrawId, hdecodeId⟩ := Node.exists_of_id? hid
  refine ⟨_, properties_of_wellFormed hwell, Keyed.ascending_ofList _, fun name => ?_,
    ⟨rawId, _, hrawId, hdecodeId, hfind "id"⟩, fun name raw hname hchildren hraw => ?_⟩
  · rw [← Keyed.find?_isSome_iff, Keyed.find?_ofList_of_nodup hnodup, Keyed.find?_isSome_iff,
      hkeys, List.mem_cons, List.mem_filter]
    by_cases hname : name = "id"
    · subst hname
      refine iff_of_true (Or.inl rfl) ⟨?_, by decide⟩
      exact Keyed.mem_keys_iff.2 ⟨rawId, hrawId⟩
    · simp [hname]
  · obtain ⟨v, hv⟩ := (Node.exists_decode_iff.1 ⟨_, hnode⟩).attributes name raw
      (Keyed.mem_of_find? hraw) hname
    have hattribute := hshows.attribute?_eq_some_iff.2 ⟨hname, hchildren, raw, hraw, hv⟩
    refine ⟨v.toTagged, v, ?_, hv, ?_⟩
    · rw [hfind, if_neg hname, attribute?, hattribute]
      rfl
    · exact Value.ofTagged?_of_wellFormed
        (Value.of_decode_eq_ok (Json.proper_of_find? hproper.2 hraw) hv).2

/-- An entry with a wide id, the type names of its children, a position, and a map that looks like a
point and has a whole double in it. -/
def gaugeEntry : Entry :=
  ⟨"/App/Gauge",
    [("Children", .arr [.int 0, .arr [.str "Label"]]),
      ("id", .arr [.int 0, .int 1099511627776]),
      ("pos", .arr [.int 2, .int 3, .int 4]),
      ("state", .arr [.int 0,
        .obj [("kind", .str "point"), ("value", .arr [.double (Binary64.ofInt 2)])]])]⟩

/-- What the map is decoded to. -/
def gaugeState : Value :=
  .plain (.map [("kind", .text "point"), ("value", .list [.double (Binary64.ofInt 2)])])

def gauge : Proxy where
  node := ⟨"/App/Gauge", 1099511627776, [("pos", .point ⟨3, 4⟩), ("state", gaugeState)],
    some ["Label"], none⟩
  className := .generic
  query := ⟨[.child "App" .empty, .child "Gauge" (.ofList [("id", .int 1099511627776)])],
    "/App/Gauge", .ofList [("id", .int 1099511627776)]⟩

theorem proper_gaugeEntry : (Json.obj gaugeEntry.state).Proper := by
  have hfinite : (Binary64.ofInt 2).isFinite = true := by decide
  have hstate : (Json.obj [("kind", .str "point"),
      ("value", .arr [.double (Binary64.ofInt 2)])]).Proper :=
    ⟨show ["kind", "value"].Pairwise (· < ·) by decide, trivial, ⟨hfinite, trivial⟩, trivial⟩
  refine ⟨show ["Children", "id", "pos", "state"].Pairwise (· < ·) by decide, ?_, ?_, ?_, ?_,
    trivial⟩
  · exact ⟨⟨by decide, by decide⟩, ⟨trivial, trivial⟩, trivial⟩
  · exact ⟨⟨by decide, by decide⟩, ⟨by decide, by decide⟩, trivial⟩
  · exact ⟨⟨by decide, by decide⟩, ⟨by decide, by decide⟩, ⟨by decide, by decide⟩, trivial⟩
  · exact ⟨⟨by decide, by decide⟩, hstate, trivial⟩

/-- The properties of the gauge have the whole id and the map as it was, and no `Children`. -/
theorem properties_gauge :
    ∃ m, gauge.properties = .ok m ∧ Keyed.find? "id" m = some (.int 1099511627776) ∧
      "Children" ∉ m.map Prod.fst ∧
      ∃ json, Keyed.find? "state" m = some json ∧ Value.ofTagged? json = some gaugeState := by
  have hnode : Node.decode gaugeEntry = .ok gauge.node := rfl
  have hbind : Session.bind .empty gauge.node = .ok gauge := rfl
  obtain ⟨m, hm, -, hkeys, ⟨raw, id, hraw, hid, hfound⟩, hothers⟩ :=
    properties_of_decode proper_gaugeEntry hnode hbind
  obtain ⟨json, v, hjson, hv, hread⟩ := hothers "state" _ (by decide) (by decide) rfl
  have hstate : Except.ok gaugeState = Except.ok v := hv
  obtain rfl := Option.some.inj hraw
  obtain rfl : 1099511627776 = id := Except.ok.inj hid
  exact ⟨m, hm, hfound, fun hmem => ((hkeys _).1 hmem).2 rfl, json, hjson,
    Except.ok.inj hstate ▸ hread⟩

end Proxy
end Arbor
