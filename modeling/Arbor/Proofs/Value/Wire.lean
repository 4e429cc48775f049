/-
# Values on the wire and back

Decoding accepts exactly what encoding makes of well-formed values, at any depth of lists and maps.
An integer is accepted only as the number it is (`int64_eq_ok_iff`, `int32_eq_ok_iff`), so none is
taken for a double or cut down to its range.

| | forward | back |
| --- | --- | --- |
| plain values | `encodePlain_of_decodePlain` | `decodePlain_encodePlain` |
| fields of a kind | `of_decodeFields_eq_ok` | `decodeFields_wireFields` |
| arrays | `of_decode_eq_ok` | `decode_encode` |
-/

import Arbor.Proofs.Result
import Arbor.Value.Wire
import Mathlib.Data.Set.Function

namespace Arbor

namespace Json

theorem int64?_eq_some_iff {raw : Json} {i : Int64} :
    raw.int64? = some i ↔ raw = .int i.toInt := by
  constructor
  · intro h
    cases raw with
    | int j =>
      rw [int64?] at h
      split at h
      · next hj =>
        obtain rfl := Option.some.inj h
        rw [Int64.toInt_ofInt_of_le hj.1 hj.2]
      · exact absurd h (by simp)
    | _ => exact absurd h (by simp [int64?])
  · rintro rfl
    rw [int64?, if_pos ⟨i.le_toInt, i.toInt_lt⟩, Int64.ofInt_toInt]

end Json

namespace Value

/-! ## Integers -/

theorem int64_eq_ok_iff {raw : Json} {i : Int64} : int64 raw = .ok i ↔ raw = .int i.toInt := by
  rw [← Json.int64?_eq_some_iff, int64]
  split
  · next j hj => rw [hj, Except.ok.injEq, Option.some.injEq]
  · next hnone => simp [hnone]

theorem inInt32_toInt (i : Int32) : Json.inInt32 i.toInt = true := by
  rw [Json.inInt32, Bool.and_eq_true, decide_eq_true_eq, decide_eq_true_eq]
  exact ⟨i.le_toInt, i.toInt_lt⟩

theorem int32_eq_ok_iff {raw : Json} {i : Int32} : int32 raw = .ok i ↔ raw = .int i.toInt := by
  rw [int32]
  constructor
  · intro h
    split at h
    · next j hj =>
      split at h
      · next hrange =>
        rw [Json.inInt32, Bool.and_eq_true, decide_eq_true_eq, decide_eq_true_eq] at hrange
        obtain rfl := Except.ok.inj h
        rw [int64_eq_ok_iff.1 hj, Int32.toInt_ofInt_of_le hrange.1 hrange.2]
      · exact absurd h (by simp)
    · exact absurd h (by simp)
  · rintro rfl
    have hwide : int64 (.int i.toInt) = .ok i.toInt64 := by
      rw [int64_eq_ok_iff, Int32.toInt_toInt64]
    rw [hwide]
    simp only [Int32.toInt_toInt64, inInt32_toInt, if_true, Int32.ofInt_toInt]

theorem int64_toInt (i : Int64) : int64 (.int i.toInt) = .ok i := int64_eq_ok_iff.2 rfl

theorem int32_toInt (i : Int32) : int32 (.int i.toInt) = .ok i := int32_eq_ok_iff.2 rfl

theorem int32_bounds (i : Int32) :
    -0x8000000000000000 ≤ i.toInt ∧ i.toInt < 0x8000000000000000 := by
  have h₁ := i.le_toInt
  have h₂ := i.toInt_lt
  omega

theorem int64_bounds (i : Int64) :
    -0x8000000000000000 ≤ i.toInt ∧ i.toInt < 0x8000000000000000 :=
  ⟨i.le_toInt, i.toInt_lt⟩

/-! ## Plain values -/

theorem keys_encodeEntries (entries : List (String × Plain)) :
    (encodeEntries entries).map Prod.fst = entries.map Prod.fst := by
  induction entries with
  | nil => rfl
  | cons e rest ih => rw [encodeEntries, List.map_cons, List.map_cons, ih]

theorem ascending_encodeEntries_iff {entries : List (String × Plain)} :
    Keyed.Ascending (encodeEntries entries) ↔ Keyed.Ascending entries := by
  rw [Keyed.Ascending, Keyed.Ascending, keys_encodeEntries]

mutual

/-- A plain value that was decoded is well formed, and it is what was encoded. -/
theorem encodePlain_of_decodePlain : ∀ {raw : Json} {p : Plain}, raw.Proper →
    decodePlain raw = .ok p → encodePlain p = raw ∧ p.WellFormed
  | .null, _, _, h => absurd h (by simp [decodePlain])
  | .bool b, _, _, h => by
    obtain rfl := Except.ok.inj h
    exact ⟨rfl, trivial⟩
  | .int i, _, _, h => by
    rw [decodePlain] at h
    obtain ⟨j, hj, rfl⟩ := map_eq_ok_iff.1 h
    exact ⟨(int32_eq_ok_iff.1 hj).symm, trivial⟩
  | .double d, _, hproper, h => by
    obtain rfl := Except.ok.inj h
    exact ⟨if_pos hproper, hproper⟩
  | .str s, _, _, h => by
    obtain rfl := Except.ok.inj h
    exact ⟨rfl, trivial⟩
  | .arr items, _, hproper, h => by
    rw [decodePlain] at h
    obtain ⟨ps, hps, rfl⟩ := map_eq_ok_iff.1 h
    obtain ⟨hencode, hwell⟩ := encodeItems_of_decodeItems hproper hps
    exact ⟨congrArg Json.arr hencode, hwell⟩
  | .obj entries, _, hproper, h => by
    rw [decodePlain] at h
    obtain ⟨ps, hps, rfl⟩ := map_eq_ok_iff.1 h
    obtain ⟨hencode, hwell⟩ := encodeEntries_of_decodeEntries hproper.2 hps
    refine ⟨congrArg Json.obj hencode, ?_, hwell⟩
    rw [← ascending_encodeEntries_iff, hencode]
    exact hproper.1

theorem encodeItems_of_decodeItems : ∀ {items : List Json} {ps : List Plain},
    Json.ProperItems items → decodeItems items = .ok ps →
      encodeItems ps = items ∧ Plain.WellFormedItems ps
  | [], _, _, h => by
    obtain rfl := Except.ok.inj h
    exact ⟨rfl, trivial⟩
  | item :: rest, _, hproper, h => by
    rw [decodeItems] at h
    split at h
    · next p hp =>
      obtain ⟨ps, hps, rfl⟩ := map_eq_ok_iff.1 h
      obtain ⟨hhead, hwellHead⟩ := encodePlain_of_decodePlain hproper.1 hp
      obtain ⟨htail, hwellTail⟩ := encodeItems_of_decodeItems hproper.2 hps
      exact ⟨congrArg₂ List.cons hhead htail, hwellHead, hwellTail⟩
    · exact absurd h (by simp)

theorem encodeEntries_of_decodeEntries : ∀ {entries : List (String × Json)}
    {ps : List (String × Plain)}, Json.ProperEntries entries → decodeEntries entries = .ok ps →
      encodeEntries ps = entries ∧ Plain.WellFormedEntries ps
  | [], _, _, h => by
    obtain rfl := Except.ok.inj h
    exact ⟨rfl, trivial⟩
  | (key, value) :: rest, _, hproper, h => by
    rw [decodeEntries] at h
    split at h
    · next p hp =>
      obtain ⟨ps, hps, rfl⟩ := map_eq_ok_iff.1 h
      obtain ⟨hhead, hwellHead⟩ := encodePlain_of_decodePlain hproper.1 hp
      obtain ⟨htail, hwellTail⟩ := encodeEntries_of_decodeEntries hproper.2 hps
      refine ⟨?_, hwellHead, hwellTail⟩
      rw [encodeEntries, hhead, htail]
    · exact absurd h (by simp)

end

mutual

theorem decodePlain_encodePlain : ∀ {p : Plain}, p.WellFormed →
    decodePlain (encodePlain p) = .ok p
  | .bool _, _ => rfl
  | .int i, _ => by
    rw [encodePlain, decodePlain, int32_toInt]
    rfl
  | .double d, h => by
    have hfinite : d.isFinite = true := h
    rw [encodePlain, if_pos hfinite, decodePlain]
  | .text _, _ => rfl
  | .list items, h => by
    rw [encodePlain, decodePlain, decodeItems_encodeItems h]
    rfl
  | .map entries, h => by
    rw [encodePlain, decodePlain, decodeEntries_encodeEntries h.2]
    rfl

theorem decodeItems_encodeItems : ∀ {items : List Plain}, Plain.WellFormedItems items →
    decodeItems (encodeItems items) = .ok items
  | [], _ => rfl
  | item :: rest, h => by
    rw [encodeItems, decodeItems, decodePlain_encodePlain h.1, decodeItems_encodeItems h.2]
    rfl

theorem decodeEntries_encodeEntries : ∀ {entries : List (String × Plain)},
    Plain.WellFormedEntries entries → decodeEntries (encodeEntries entries) = .ok entries
  | [], _ => rfl
  | (key, value) :: rest, h => by
    rw [encodeEntries, decodeEntries, decodePlain_encodePlain h.1,
      decodeEntries_encodeEntries h.2]
    rfl

end

mutual

/-- What is encoded is a value that a JSON text can hold. -/
theorem proper_encodePlain : ∀ {p : Plain}, p.WellFormed → (encodePlain p).Proper
  | .bool _, _ => trivial
  | .int i, _ => by
    have hi := int32_bounds i
    exact ⟨hi.1, by omega⟩
  | .double d, h => by
    have hfinite : d.isFinite = true := h
    rw [encodePlain, if_pos hfinite]
    exact hfinite
  | .text _, _ => trivial
  | .list items, h => properItems_encodeItems h
  | .map entries, h => ⟨ascending_encodeEntries_iff.2 h.1, properEntries_encodeEntries h.2⟩

theorem properItems_encodeItems : ∀ {items : List Plain}, Plain.WellFormedItems items →
    Json.ProperItems (encodeItems items)
  | [], _ => trivial
  | _ :: _, h => ⟨proper_encodePlain h.1, properItems_encodeItems h.2⟩

theorem properEntries_encodeEntries : ∀ {entries : List (String × Plain)},
    Plain.WellFormedEntries entries → Json.ProperEntries (encodeEntries entries)
  | [], _ => trivial
  | (_, _) :: _, h => ⟨proper_encodePlain h.1, properEntries_encodeEntries h.2⟩

end

/-! ## Fields -/

/-- What follows the kind in the array of a value. -/
def wireFields : Value → List Json
  | .plain p => [encodePlain p]
  | v => v.fields.map .int

theorem encode_eq (v : Value) : encode v = .arr (.int v.kind.id :: v.wireFields) := by
  cases v <;> rfl

theorem checkColor_eq_ok_iff {c : Color} {v : Value} :
    checkColor c = .ok v ↔ v = .color c ∧ v.WellFormed := by
  rw [checkColor]
  constructor
  · intro h
    split at h
    · exact absurd h (by simp)
    · next hfind =>
      obtain rfl := Except.ok.inj h
      refine ⟨rfl, fun channel hchannel => ?_⟩
      simpa using List.find?_eq_none.1 hfind channel hchannel
  · rintro ⟨rfl, hwell⟩
    have hfind : (c.channels.find? fun channel => !Color.inRange channel.2) = none :=
      List.find?_eq_none.2 fun channel hchannel => by simp [hwell channel hchannel]
    rw [hfind]

theorem checkTime_eq_ok_iff {t : TimeOfDay} {v : Value} :
    checkTime t = .ok v ↔ v = .time t ∧ v.WellFormed := by
  rw [checkTime]
  constructor
  · intro h
    split at h
    · next hvalid =>
      obtain rfl := Except.ok.inj h
      exact ⟨rfl, hvalid⟩
    · exact absurd h (by simp)
  · rintro ⟨rfl, hwell⟩
    exact if_pos hwell

/-- The fields of a kind give a value of this kind, with these fields. -/
theorem of_decodeFields_eq_ok {kind : Kind} {fields : List Json} {v : Value}
    (hproper : Json.ProperItems fields) (h : decodeFields kind fields = .ok v) :
    v.kind = kind ∧ v.wireFields = fields ∧ v.WellFormed := by
  unfold decodeFields at h
  split at h
  · obtain ⟨p, hp, rfl⟩ := map_eq_ok_iff.1 h
    obtain ⟨hencode, hwell⟩ := encodePlain_of_decodePlain hproper.1 hp
    exact ⟨rfl, congrArg (fun raw => [raw]) hencode, hwell⟩
  · simp only [bind_eq_ok_iff, int32_eq_ok_iff, pure_eq_ok_iff] at h
    obtain ⟨x, rfl, y, rfl, w, rfl, e, rfl, rfl⟩ := h
    exact ⟨rfl, rfl, trivial⟩
  · simp only [bind_eq_ok_iff, int32_eq_ok_iff, pure_eq_ok_iff] at h
    obtain ⟨x, rfl, y, rfl, rfl⟩ := h
    exact ⟨rfl, rfl, trivial⟩
  · simp only [bind_eq_ok_iff, int32_eq_ok_iff, pure_eq_ok_iff] at h
    obtain ⟨w, rfl, e, rfl, rfl⟩ := h
    exact ⟨rfl, rfl, trivial⟩
  · simp only [bind_eq_ok_iff, int32_eq_ok_iff, checkColor_eq_ok_iff] at h
    obtain ⟨r, rfl, g, rfl, b, rfl, a, rfl, rfl, hwell⟩ := h
    exact ⟨rfl, rfl, hwell⟩
  · simp only [bind_eq_ok_iff, int64_eq_ok_iff, pure_eq_ok_iff] at h
    obtain ⟨timestamp, rfl, rfl⟩ := h
    exact ⟨rfl, rfl, trivial⟩
  · simp only [bind_eq_ok_iff, int32_eq_ok_iff, checkTime_eq_ok_iff] at h
    obtain ⟨hour, rfl, minute, rfl, second, rfl, millisecond, rfl, rfl, hwell⟩ := h
    exact ⟨rfl, rfl, hwell⟩
  · simp only [bind_eq_ok_iff, int32_eq_ok_iff, pure_eq_ok_iff] at h
    obtain ⟨x, rfl, y, rfl, z, rfl, rfl⟩ := h
    exact ⟨rfl, rfl, trivial⟩
  · exact absurd h (by simp)

theorem decodeFields_wireFields {v : Value} (h : v.WellFormed) :
    decodeFields v.kind v.wireFields = .ok v := by
  cases v with
  | plain p => exact map_eq_ok_iff.2 ⟨p, decodePlain_encodePlain h, rfl⟩
  | color c =>
    simp only [kind, wireFields, fields, List.map_cons, List.map_nil, decodeFields, int32_toInt]
    exact checkColor_eq_ok_iff.2 ⟨rfl, h⟩
  | time t =>
    simp only [kind, wireFields, fields, List.map_cons, List.map_nil, decodeFields, int32_toInt]
    exact checkTime_eq_ok_iff.2 ⟨rfl, h⟩
  | _ =>
    simp only [kind, wireFields, fields, List.map_cons, List.map_nil, decodeFields, int32_toInt,
      int64_toInt]
    rfl

/-- A field is an integer that fits 64 bits. -/
theorem mem_fields_bounds (v : Value) :
    ∀ i ∈ v.fields, -0x8000000000000000 ≤ i ∧ i < 0x8000000000000000 := by
  cases v <;> simp only [fields, List.forall_mem_cons, List.not_mem_nil, false_implies,
    implies_true, and_true, int32_bounds, int64_bounds]

theorem properItems_map_int {is : List Int}
    (h : ∀ i ∈ is, -0x8000000000000000 ≤ i ∧ i < 0x8000000000000000) :
    Json.ProperItems (is.map .int) := by
  induction is with
  | nil => trivial
  | cons i rest ih =>
    have hi := h i List.mem_cons_self
    exact ⟨⟨hi.1, by omega⟩, ih fun j hj => h j (List.mem_cons_of_mem _ hj)⟩

theorem properItems_wireFields {v : Value} (h : v.WellFormed) :
    Json.ProperItems v.wireFields := by
  cases v with
  | plain p => exact ⟨proper_encodePlain h, trivial⟩
  | _ => exact properItems_map_int (mem_fields_bounds _)

/-! ## Values -/

theorem ofId?_eq_some_iff {id : Int} {kind : Kind} : Kind.ofId? id = some kind ↔ id = kind.id := by
  constructor
  · intro h
    have hfound := List.find?_some h
    exact (eq_of_beq hfound).symm
  · rintro rfl
    cases kind <;> rfl

theorem of_decode_eq_ok {raw : Json} {v : Value} (hproper : raw.Proper) (h : decode raw = .ok v) :
    encode v = raw ∧ v.WellFormed := by
  unfold decode at h
  split at h
  · exact absurd h (by simp)
  · next head fields =>
    split at h
    · exact absurd h (by simp)
    · next id hid =>
      split at h
      · exact absurd h (by simp)
      · next kind hkind =>
        obtain ⟨rfl, hfields, hwell⟩ := of_decodeFields_eq_ok hproper.2 h
        rw [encode_eq, hfields, Json.int64?_eq_some_iff.1 hid, ofId?_eq_some_iff.1 hkind]
        exact ⟨rfl, hwell⟩
  · exact absurd h (by simp)

theorem int64?_kind (kind : Kind) :
    ∃ id, (Json.int kind.id).int64? = some id ∧ Kind.ofId? id.toInt = some kind := by
  cases kind <;> exact ⟨_, rfl, rfl⟩

theorem decode_encode {v : Value} (h : v.WellFormed) : decode (encode v) = .ok v := by
  obtain ⟨id, hid, hkind⟩ := int64?_kind v.kind
  rw [encode_eq, decode, hid]
  simp only [hkind]
  exact decodeFields_wireFields h

theorem proper_encode {v : Value} (h : v.WellFormed) : (encode v).Proper := by
  rw [encode_eq]
  refine ⟨?_, properItems_wireFields h⟩
  cases v.kind <;> exact ⟨by decide, by decide⟩

/-- **Decoding undoes encoding and encoding undoes decoding.**  An array is decoded to a value
exactly if it is what the value is encoded as and the value is well formed; so encoding is a
bijection from the well-formed values to the arrays that are accepted, at any depth of lists and
maps. -/
theorem decode_eq_ok_iff_and_bijOn_encode :
    (∀ (raw : Json) (v : Value), raw.Proper →
        (decode raw = .ok v ↔ encode v = raw ∧ v.WellFormed)) ∧
      (∀ v : Value, v.WellFormed → (encode v).Proper ∧ decode (encode v) = .ok v) ∧
      Set.BijOn encode {v | v.WellFormed} {raw | raw.Proper ∧ ∃ v, decode raw = .ok v} := by
  refine ⟨fun raw v hproper => ⟨of_decode_eq_ok hproper, ?_⟩,
    fun v hwell => ⟨proper_encode hwell, decode_encode hwell⟩, ?_, ?_, ?_⟩
  · rintro ⟨rfl, hwell⟩
    exact decode_encode hwell
  · intro v hwell
    exact ⟨proper_encode hwell, v, decode_encode hwell⟩
  · intro v hv w hw heq
    have hdecode := decode_encode hv
    rw [heq, decode_encode hw] at hdecode
    exact (Except.ok.inj hdecode).symm
  · rintro raw ⟨hproper, v, hdecode⟩
    obtain ⟨hencode, hwell⟩ := of_decode_eq_ok hproper hdecode
    exact ⟨v, hwell, hencode⟩

/-- A map with a list in it. -/
def nested : Value :=
  .plain (.map [("items", .list [.int (-1), .double ⟨0x3ff8000000000000⟩, .list []]),
    ("on", .bool true)])

/-- The same on the wire. -/
def nestedRaw : Json :=
  .arr [.int 0, .obj [("items", .arr [.int (-1), .double ⟨0x3ff8000000000000⟩, .arr []]),
    ("on", .bool true)]]

/-- An array is decoded at any depth. -/
theorem decode_nested :
    nestedRaw.Proper ∧ nested.WellFormed ∧ decode nestedRaw = .ok nested := by
  have hwell : nested.WellFormed := by
    refine ⟨?_, ⟨trivial, ?_, trivial, trivial⟩, trivial, trivial⟩
    · show ["items", "on"].Pairwise (· < ·)
      decide
    · show Binary64.isFinite ⟨0x3ff8000000000000⟩ = true
      decide
  obtain ⟨hproper, -⟩ := decode_eq_ok_iff_and_bijOn_encode.2.1 nested hwell
  exact ⟨hproper, hwell, (decode_eq_ok_iff_and_bijOn_encode.1 _ nested hproper).2 ⟨rfl, hwell⟩⟩

end Value
end Arbor
