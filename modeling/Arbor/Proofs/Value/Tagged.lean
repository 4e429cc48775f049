/-
# Values by name and back

The form of a value in JSON that names the kind is read as this value, with the variant that it has,
if all doubles in it are finite; a double that is not becomes null, and null is no value.

Plain values share the shapes of JSON: a number may be an integer or a double, an object may look
like a value with a kind.  The reader takes the first variant that fits, in the order in which they
are declared (`readPlain?_eq_findSome?`), and no value is taken by a variant that comes before its
own:

| written | variants before | |
| --- | --- | --- |
| an integer of 32 bits | boolean | not a number |
| a finite double | integer of 32 bits | written as a double, even if it is whole |
| a text, a list, a map | those above | of another shape |

A value that came over the wire has only finite doubles, and the keys of its maps are in order.  So
making it JSON does not fail and gives its tagged form (`toJson_draft`), which is read back
(`ofTagged?_of_wellFormed`).
-/

import Arbor.Proofs.Keyed
import Arbor.Proofs.Value.Wire
import Arbor.Value.Tagged

namespace Arbor

/-! ## Doubles -/

namespace Plain

mutual

/-- The doubles in a plain value, at any depth. -/
def doubles : Plain → List Binary64
  | .bool _ | .int _ | .text _ => []
  | .double d => [d]
  | .list items => doublesOfItems items
  | .map entries => doublesOfEntries entries

def doublesOfItems : List Plain → List Binary64
  | [] => []
  | item :: rest => doubles item ++ doublesOfItems rest

def doublesOfEntries : List (String × Plain) → List Binary64
  | [] => []
  | (_, value) :: rest => doubles value ++ doublesOfEntries rest

end

end Plain

namespace Value

/-- The doubles in a value.  Only plain values have any. -/
def doubles : Value → List Binary64
  | .plain p => p.doubles
  | _ => []

/-! ## The first variant that fits -/

theorem readItems?_eq_mapM (items : List Json) : readItems? items = items.mapM readPlain? := by
  induction items with
  | nil => rfl
  | cons item rest ih =>
    rw [readItems?, ih, List.mapM_cons]
    cases readPlain? item with
    | none => rfl
    | some p => cases rest.mapM readPlain? <;> rfl

theorem readEntries?_eq_mapM (entries : List (String × Json)) :
    readEntries? entries = entries.mapM fun e => (readPlain? e.2).map (e.1, ·) := by
  induction entries with
  | nil => rfl
  | cons e rest ih =>
    obtain ⟨key, value⟩ := e
    rw [readEntries?, ih, List.mapM_cons]
    cases readPlain? value with
    | none => rfl
    | some p => cases rest.mapM fun e => (readPlain? e.2).map (e.1, ·) <;> rfl

/-- The variants of a plain value, each with what it takes: an integer only if it has 32 bits, a
double from every number. -/
def plainVariants : List (Json → Option Plain) :=
  [fun
    | .bool b => some (.bool b)
    | _ => none,
  fun json => (readInt32? json).map .int,
  fun
    | .int i => some (.double (Binary64.ofInt i))
    | .double d => some (.double d)
    | _ => none,
  fun
    | .str s => some (.text s)
    | _ => none,
  fun
    | .arr items => (items.mapM readPlain?).map .list
    | _ => none,
  fun
    | .obj entries => (entries.mapM fun e => (readPlain? e.2).map (e.1, ·)).map .map
    | _ => none]

/-- **A plain value is read as the first variant that fits.** -/
theorem readPlain?_eq_findSome? (json : Json) :
    readPlain? json = plainVariants.findSome? fun variant => variant json := by
  cases json with
  | int i =>
    by_cases hi : Json.inInt32 i = true
    · simp [plainVariants, readPlain?, readInt32?, hi]
    · simp [plainVariants, readPlain?, readInt32?, hi]
  | arr items =>
    rw [readPlain?, readItems?_eq_mapM]
    cases hitems : items.mapM readPlain? with
    | none => simp [plainVariants, readInt32?, hitems]
    | some ps => simp [plainVariants, readInt32?, hitems]
  | obj entries =>
    rw [readPlain?, readEntries?_eq_mapM]
    cases hentries : entries.mapM fun e => (readPlain? e.2).map (e.1, ·) with
    | none => simp [plainVariants, readInt32?, hentries]
    | some ps => simp [plainVariants, readInt32?, hentries]
  | _ => rfl

/-! ## Plain values -/

mutual

/-- **A plain value is read as what was written, if its doubles are finite, and otherwise not at
all.** -/
theorem readPlain?_encodePlain : ∀ p : Plain,
    readPlain? (encodePlain p) = if p.doubles.all Binary64.isFinite then some p else none
  | .bool _ => rfl
  | .int i => by
    rw [encodePlain, readPlain?, if_pos (inInt32_toInt i), Int32.ofInt_toInt]
    rfl
  | .double d => by
    rw [encodePlain, Plain.doubles, List.all_cons, List.all_nil, Bool.and_true]
    by_cases hd : d.isFinite = true
    · rw [if_pos hd, if_pos hd, readPlain?]
    · rw [if_neg hd, if_neg hd, readPlain?]
  | .text _ => rfl
  | .list items => by
    rw [encodePlain, readPlain?, readItems?_encodeItems items, Plain.doubles]
    split <;> rfl
  | .map entries => by
    rw [encodePlain, readPlain?, readEntries?_encodeEntries entries, Plain.doubles]
    split <;> rfl

theorem readItems?_encodeItems : ∀ items : List Plain,
    readItems? (encodeItems items) =
      if (Plain.doublesOfItems items).all Binary64.isFinite then some items else none
  | [] => rfl
  | item :: rest => by
    rw [encodeItems, readItems?, readPlain?_encodePlain item, readItems?_encodeItems rest,
      Plain.doublesOfItems, List.all_append]
    cases item.doubles.all Binary64.isFinite with
    | false => rfl
    | true => cases (Plain.doublesOfItems rest).all Binary64.isFinite <;> rfl

theorem readEntries?_encodeEntries : ∀ entries : List (String × Plain),
    readEntries? (encodeEntries entries) =
      if (Plain.doublesOfEntries entries).all Binary64.isFinite then some entries else none
  | [] => rfl
  | (key, value) :: rest => by
    rw [encodeEntries, readEntries?, readPlain?_encodePlain value,
      readEntries?_encodeEntries rest, Plain.doublesOfEntries, List.all_append]
    cases value.doubles.all Binary64.isFinite with
    | false => rfl
    | true => cases (Plain.doublesOfEntries rest).all Binary64.isFinite <;> rfl

end

/-! ## Records -/

/-- Fields that are written by name are read by name, whatever their order. -/
theorem mapM_find?_eq_some {entries : List (String × Json)} {names : List String}
    {values : List Json} (hlength : names.length = values.length)
    (h : ∀ p ∈ names.zip values, Keyed.find? p.1 entries = some p.2) :
    (names.mapM fun name => Keyed.find? name entries) = some values := by
  induction names generalizing values with
  | nil =>
    obtain rfl := List.length_eq_zero_iff.1 hlength.symm
    rfl
  | cons name rest ih =>
    obtain ⟨value, values, rfl⟩ := List.exists_cons_of_length_eq_add_one hlength.symm
    obtain ⟨hvalue, hrest⟩ := List.forall_mem_cons.1 h
    rw [List.mapM_cons, hvalue, ih (Nat.succ.inj hlength) hrest]
    rfl

theorem recordFields?_object {names : List String} {values : List Json} (hnodup : names.Nodup)
    (hlength : names.length = values.length) :
    recordFields? names (Json.object (names.zip values)) = some values := by
  refine mapM_find?_eq_some hlength fun p hp => ?_
  rw [Keyed.find?_ofList]
  refine Keyed.find?_of_mem ?_ (List.mem_reverse.2 hp)
  rw [List.map_reverse, List.map_fst_zip hlength.le]
  exact List.pairwise_reverse.2 (hnodup.imp Ne.symm)

theorem nodup_fieldNames (kind : Kind) : kind.fieldNames.Nodup := by
  cases kind <;> decide

theorem length_fieldNames (v : Value) (h : v.kind ≠ .plain) :
    v.kind.fieldNames.length = (v.fields.map Json.int).length := by
  cases v with
  | plain p => exact absurd rfl h
  | _ => rfl

theorem readInt32?_toInt (i : Int32) : readInt32? (.int i.toInt) = some i := by
  rw [readInt32?, if_pos (inInt32_toInt i), Int32.ofInt_toInt]

theorem int64?_toInt (i : Int64) : (Json.int i.toInt).int64? = some i :=
  Json.int64?_eq_some_iff.2 rfl

/-- A record is read as it was written. -/
theorem readContent?_record {v : Value} (h : v.kind ≠ .plain) :
    readContent? v.kind (Json.object (v.kind.fieldNames.zip (v.fields.map .int))) = some v := by
  have hfields := recordFields?_object (nodup_fieldNames v.kind) (length_fieldNames v h)
  cases v with
  | plain p => exact absurd rfl h
  | dateTime d =>
    simp only [readContent?, kind, fields, List.map_cons, List.map_nil] at hfields ⊢
    simp [hfields, int64?_toInt]
  | _ =>
    simp only [readContent?, kind, fields, List.map_cons, List.map_nil] at hfields ⊢
    simp [hfields, readInt32?_toInt]

/-! ## Values -/

theorem ofTag?_tag (kind : Kind) : Kind.ofTag? kind.tag = some kind := by
  cases kind <;> rfl

theorem ofTagged?_eq_readContent? (kind : Kind) (content : Json) :
    ofTagged? (Json.object [("kind", .str kind.tag), ("value", content)]) =
      readContent? kind content := by
  have hnodup : ["kind", "value"].Nodup := by decide
  have hfields : recordFields? ["kind", "value"]
      (Json.object (["kind", "value"].zip [.str kind.tag, content])) =
        some [.str kind.tag, content] :=
    recordFields?_object hnodup rfl
  rw [List.zip_cons_cons, List.zip_cons_cons, List.zip_nil_right] at hfields
  rw [ofTagged?, hfields]
  show (do readContent? (← Kind.ofTag? kind.tag) content) = _
  rw [ofTag?_tag]
  rfl

/-- **A value is read as what was written, if its doubles are finite, and otherwise not at all.** -/
theorem ofTagged?_toTagged (v : Value) :
    ofTagged? v.toTagged = if v.doubles.all Binary64.isFinite then some v else none := by
  cases v with
  | plain p =>
    refine (ofTagged?_eq_readContent? .plain (encodePlain p)).trans ?_
    show (do return Value.plain (← readPlain? (encodePlain p))) = _
    rw [readPlain?_encodePlain, doubles]
    split <;> rfl
  | _ => exact (ofTagged?_eq_readContent? _ _).trans (readContent?_record nofun)

/-! ## Values that came over the wire -/

mutual

theorem all_doubles_of_wellFormed : ∀ {p : Plain}, p.WellFormed →
    p.doubles.all Binary64.isFinite = true
  | .bool _, _ | .int _, _ | .text _, _ => rfl
  | .double d, h => by
    rw [Plain.doubles, List.all_cons, List.all_nil, Bool.and_true]
    exact h
  | .list _, h => all_doublesOfItems h
  | .map _, h => all_doublesOfEntries h.2

theorem all_doublesOfItems : ∀ {items : List Plain}, Plain.WellFormedItems items →
    (Plain.doublesOfItems items).all Binary64.isFinite = true
  | [], _ => rfl
  | item :: rest, h => by
    rw [Plain.doublesOfItems, List.all_append, all_doubles_of_wellFormed h.1,
      all_doublesOfItems h.2]
    rfl

theorem all_doublesOfEntries : ∀ {entries : List (String × Plain)},
    Plain.WellFormedEntries entries →
    (Plain.doublesOfEntries entries).all Binary64.isFinite = true
  | [], _ => rfl
  | (_, value) :: rest, h => by
    rw [Plain.doublesOfEntries, List.all_append, all_doubles_of_wellFormed h.1,
      all_doublesOfEntries h.2]
    rfl

end

/-- A value that came over the wire is read from its tagged form. -/
theorem ofTagged?_of_wellFormed {v : Value} (h : v.WellFormed) :
    ofTagged? v.toTagged = some v := by
  rw [ofTagged?_toTagged]
  cases v with
  | plain p => exact if_pos (all_doubles_of_wellFormed h)
  | _ => rfl

mutual

/-- A plain value is made JSON without fail: keys are texts, and they are in order already. -/
theorem toJson_draftPlain : ∀ {p : Plain}, p.WellFormed →
    (draftPlain p).toJson = .ok (encodePlain p)
  | .bool _, _ | .int _, _ | .text _, _ => rfl
  | .double d, _ => rfl
  | .list items, h => by
    rw [draftPlain, Json.Draft.toJson, itemsToJson_draftItems h]
    rfl
  | .map entries, h => by
    have hsorted : Keyed.ofList (encodeEntries entries) = encodeEntries entries :=
      Keyed.ofList_of_ascending (ascending_encodeEntries_iff.2 h.1)
    rw [draftPlain, Json.Draft.toJson, entriesToJson_draftEntries h.2, encodePlain]
    exact congrArg (Except.ok ∘ Json.obj) hsorted

theorem itemsToJson_draftItems : ∀ {items : List Plain}, Plain.WellFormedItems items →
    Json.Draft.itemsToJson (draftItems items) = .ok (encodeItems items)
  | [], _ => rfl
  | item :: rest, h => by
    rw [draftItems, Json.Draft.itemsToJson, toJson_draftPlain h.1, itemsToJson_draftItems h.2]
    rfl

theorem entriesToJson_draftEntries : ∀ {entries : List (String × Plain)},
    Plain.WellFormedEntries entries →
    Json.Draft.entriesToJson (draftEntries entries) = .ok (encodeEntries entries)
  | [], _ => rfl
  | (key, value) :: rest, h => by
    rw [draftEntries, Json.Draft.entriesToJson, toJson_draftPlain h.1,
      entriesToJson_draftEntries h.2]
    rfl

end

theorem fieldsToJson_zip_int (names : List String) (is : List Int) :
    Json.Draft.fieldsToJson (names.zip (is.map .int)) = .ok (names.zip (is.map .int)) := by
  induction names generalizing is with
  | nil => rfl
  | cons name rest ih =>
    cases is with
    | nil => rfl
    | cons i is =>
      rw [List.map_cons, List.zip_cons_cons, Json.Draft.fieldsToJson, ih]
      rfl

/-- **A value that came over the wire is made JSON without fail, in tagged form.** -/
theorem toJson_draft {v : Value} (h : v.WellFormed) : v.draft.toJson = .ok v.toTagged := by
  have hrecord : ∀ {content : Json.Draft} {json : Json}, content.toJson = .ok json →
      (Json.Draft.record [("kind", .str v.kind.tag), ("value", content)]).toJson =
        .ok (Json.object [("kind", .str v.kind.tag), ("value", json)]) := by
    intro content json hcontent
    rw [Json.Draft.toJson, Json.Draft.fieldsToJson, Json.Draft.fieldsToJson, hcontent]
    rfl
  have hfields : (Json.Draft.record (v.kind.fieldNames.zip (v.fields.map .int))).toJson =
      .ok (Json.object (v.kind.fieldNames.zip (v.fields.map .int))) := by
    rw [Json.Draft.toJson, fieldsToJson_zip_int]
    rfl
  cases v with
  | plain p => exact hrecord (toJson_draftPlain h)
  | _ => exact hrecord hfields

end Value
end Arbor
