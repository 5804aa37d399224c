import SlurmManager.Lib.Utf8Text
import SlurmManager.Tracking.EventMessages
import SlurmManager.Worker.Run
import Mathlib.Data.List.Sort

/-!
# Wire — what the worker publishes and what the manager reads

`RedisPublisher.Publish` marshals the map of a message: keys are sorted, the text is compact, and a byte that is not
part of a rune is written as U+FFFD.  The manager decodes the channel and the payload and validates the value.

* `escapes`: the strict reader takes the escape of each rune for its character.
* `Feedback.received`: the message that a publication stands for.
* `wire_round_trip`: **the manager reads that message, on the topic of the job**, for every log text there is.
-/

namespace SlurmManager.Worker

open JsonText (Numeral)

/-! ## Marshalling -/

section Marshal

/-- A rune inside a string, as `json.Marshal` writes it: HTML is escaped too. -/
def escape : Option Char → List Char
  | none => [Utf8.replacement]
  | some c =>
    if c ∈ ['<', '>', '&', Char.ofNat 0x2028, Char.ofNat 0x2029] then JsonText.unit c.toNat
    else match c with
      | '"' => ['\\', '"']
      | '\\' => ['\\', '\\']
      | '\x08' => ['\\', 'b']
      | '\x0c' => ['\\', 'f']
      | '\n' => ['\\', 'n']
      | '\r' => ['\\', 'r']
      | '\t' => ['\\', 't']
      | c => if ' ' ≤ c then [c] else JsonText.unit c.toNat

/-- A Go value whose strings are lists of runes. -/
abbrev Value := JsonText.Tree Numeral (Option Char)

/-- The runes of a constant. -/
def constant (text : String) : List (Option Char) := text.toList.map some

/-- A map with string keys: `json.Marshal` sorts them. -/
def object (fields : List (String × Value)) : Value :=
  .object ((fields.insertionSort fun a b => a.1 ≤ b.1).map fun e => (constant e.1, e.2))

variable (print : ℚ → Numeral)

/-- The map that is handed to `publish`. -/
def Feedback.fields : Feedback → List (String × Value)
  | .status text => [("status", .text (constant text))]
  | .heartbeat timestamp => [("timestamp", .number (print timestamp))]
  | .log x c => [("log", .text (Utf8.runes c.text)), ("metadata", object [("stream", .text (constant x.name))])]

/-- `message["msg_type"] = kind`. -/
def Feedback.message (m : Feedback) : List (String × Value) :=
  m.fields print ++ [("msg_type", .text (constant m.kind.name))]

/-- The text of `json.Marshal`. -/
def payload (m : Feedback) : String := String.ofList (JsonText.write escape (object (m.message print)))

end Marshal

/-! ## Escapes -/

section Escapes

theorem readText_char (c : Char) (hc : c.toNat < 65536) (rest : List Char) :
    JsonText.readText (JsonText.unit c.toNat ++ rest) = (JsonText.readText rest).map fun p => (c :: p.1, p.2) := by
  rw [JsonText.readText_unit hc (JsonText.not_isSurrogate c), Char.ofNat_toNat]

/-- **The escape of a rune is read as its character**; a byte that is no rune is read as U+FFFD. -/
theorem escapes : JsonText.Escapes escape Utf8.glyph := by
  intro x rest
  cases x with
  | none => exact JsonText.readText_plain (by decide) rest
  | some c =>
    show JsonText.readText (escape (some c) ++ rest) = (JsonText.readText rest).map fun p => (c :: p.1, p.2)
    unfold escape
    dsimp only
    split_ifs with hhtml
    · refine readText_char c ?_ rest
      simp only [List.mem_cons, List.not_mem_nil, or_false] at hhtml
      rcases hhtml with rfl | rfl | rfl | rfl | rfl <;> decide
    · split
      · rfl
      · rfl
      · rfl
      · rfl
      · rfl
      · rfl
      · rfl
      · next hq hb _ _ _ _ _ =>
        split_ifs with hlow
        · exact JsonText.readText_plain ⟨hlow, fun h => hq h, fun h => hb h⟩ rest
        · refine readText_char c ?_ rest
          have hlt : c.toNat < ' '.toNat := Nat.lt_of_not_le hlow
          exact Nat.lt_trans hlt (by decide)

end Escapes

/-! ## The message -/

section Message

/-- The message that a publication stands for. -/
def Feedback.received : Feedback → SlurmMessage
  | .status text => .status { status := text }
  | .heartbeat timestamp => .heartbeat { timestamp := timestamp }
  | .log x c => .log { log := String.ofList (Utf8.decode c.text), metadata := Dict.single "stream" x.name }

/-- A log of an encoded text stands for that text. -/
theorem received_encoded (x : Stream) (text : List Char) (ended : Bool) :
    (Feedback.log x ⟨text.flatMap String.utf8EncodeChar, ended⟩).received =
      .log { log := String.ofList text, metadata := Dict.single "stream" x.name } := by
  show SlurmMessage.log { log := String.ofList (Utf8.decode (text.flatMap String.utf8EncodeChar)), metadata := _ } = _
  rw [Utf8.decode_utf8Encode]

/-- A Redis reply that holds this text, decoded or not. -/
def Carries (t : RedisText) (text : String) : Prop := t = .text text ∨ t = .bytes text.toUTF8.data.toList

theorem Carries.decode {t : RedisText} {text : String} (h : Carries t text) : t.decode = some text := by
  rcases h with rfl | rfl
  · rfl
  · show String.fromUTF8? ⟨text.toUTF8.data.toList.toArray⟩ = some text
    rw [Array.toArray_toList, String.fromUTF8?]
    exact dif_pos text.isValidUTF8

variable {print : ℚ → Numeral} {r : Reader}

theorem glyph_constant (text : String) : String.ofList ((constant text).map Utf8.glyph) = text := by
  unfold constant
  rw [List.map_map]
  show String.ofList (text.toList.map id) = text
  rw [List.map_id, String.ofList_toList]

/-- A marshalled value, as the manager loads it. -/
def loaded (r : Reader) (v : Value) : Json := .ofTree r.number (v.map Numeral.text Utf8.glyph)

theorem ofFields_constant (fields : List (String × Value)) :
    Json.ofFields r.number (JsonText.mapFields Numeral.text Utf8.glyph (fields.map fun e => (constant e.1, e.2))) =
      fields.map fun e => (e.1, loaded r e.2) := by
  induction fields with
  | nil => rfl
  | cons e fields ih =>
    rw [List.map_cons, List.map_cons, JsonText.mapFields, Json.ofFields, ih, glyph_constant]
    rfl

/-- A map is loaded with its keys in order. -/
theorem loaded_object {fields : List (String × Value)} (h : (fields.map Prod.fst).Nodup) : loaded r (object fields) =
    .object ((fields.insertionSort fun a b => a.1 ≤ b.1).map fun e => (e.1, loaded r e.2)) := by
  have hperm := (List.perm_insertionSort (fun a b : String × Value => a.1 ≤ b.1) fields).map Prod.fst
  have hnodup := hperm.nodup_iff.mpr h
  unfold object
  generalize fields.insertionSort (fun a b => a.1 ≤ b.1) = sorted at hnodup ⊢
  unfold loaded
  rw [JsonText.Tree.map, Json.ofTree, ofFields_constant, Dict.entries_ofList]
  · rfl
  · rw [List.map_map]
    exact hnodup

theorem loaded_text (runes : List (Option Char)) :
    loaded r (.text runes) = .string (String.ofList (runes.map Utf8.glyph)) := by
  unfold loaded
  rw [JsonText.Tree.map, Json.ofTree]

theorem loaded_constant (text : String) : loaded r (.text (constant text)) = .string text := by
  rw [loaded_text, glyph_constant]

theorem message_nodup (m : Feedback) : ((m.message print).map Prod.fst).Nodup := by
  cases m <;> simp [Feedback.message, Feedback.fields]

/-- The manager reads the numeral of a timestamp as that timestamp. -/
def ReadsBack (print : ℚ → Numeral) (r : Reader) (timestamp : ℚ) : Prop :=
  r.admits (print timestamp).text = true ∧ r.asFloat (loaded r (.number (print timestamp))) = some timestamp

/-- Only a heartbeat has a number. -/
theorem admitted_message {m : Feedback} (hprint : ∀ t, m = .heartbeat t → ReadsBack print r t) :
    (object (m.message print)).All (JsonText.Admitted r.admits) := by
  cases m with
  | heartbeat t =>
    have ht : JsonText.Admitted r.admits (print t) := (hprint t rfl).1
    simp [object, Feedback.message, Feedback.fields, List.insertionSort, List.orderedInsert, JsonText.Tree.All,
      JsonText.AllFields, ht]
  | _ =>
    simp [object, Feedback.message, Feedback.fields, List.insertionSort, List.orderedInsert, JsonText.Tree.All,
      JsonText.AllFields]

/-- A message is an object of texts and numbers, and of an object for the metadata of a log. -/
theorem depth_message (m : Feedback) : (object (m.message print)).depth ≤ 2 := by
  cases m <;> simp [object, Feedback.message, Feedback.fields, List.insertionSort, List.orderedInsert, JsonText.Tree.depth,
    JsonText.depthFields]

theorem metadata_log (x : Stream) :
    (loaded r (object [("stream", .text (constant x.name))])).asMetadata? = some (Dict.single "stream" x.name) := by
  have hone : (([("stream", .text (constant x.name))] : List (String × Value)).map Prod.fst).Nodup :=
    List.nodup_singleton _
  rw [loaded_object hone]
  simp only [List.insertionSort_cons, List.insertionSort_nil, List.orderedInsert_nil, List.map_cons, List.map_nil,
    loaded_constant]
  rfl

/-- **A marshalled message is validated.** -/
theorem validate_message {m : Feedback}
    (hprint : ∀ t, m = .heartbeat t → ReadsBack print r t) :
    r.validate (loaded r (object (m.message print))) = some m.received := by
  rw [loaded_object (message_nodup m)]
  cases m with
  | status text =>
    have hsort : ((Feedback.status text).message print).insertionSort (fun a b => a.1 ≤ b.1) =
        [("msg_type", .text (constant "status")), ("status", .text (constant text))] := by
      simp [Feedback.message, Feedback.fields, Feedback.kind, Event.name, List.orderedInsert]
    rw [hsort]
    simp [Reader.validate, Reader.metadata, loaded_constant, Json.asText?, List.lookup_cons]
    rfl
  | heartbeat t =>
    have ht := (hprint t rfl).2
    have hsort : ((Feedback.heartbeat t).message print).insertionSort (fun a b => a.1 ≤ b.1) =
        [("msg_type", .text (constant "heartbeat")), ("timestamp", .number (print t))] := by
      simp [Feedback.message, Feedback.fields, Feedback.kind, Event.name, List.orderedInsert]
    rw [hsort]
    simp [Reader.validate, Reader.metadata, loaded_constant, Json.asText?, List.lookup_cons, ht]
    rfl
  | log x c =>
    have hx := metadata_log (r := r) x
    have hsort : ((Feedback.log x c).message print).insertionSort (fun a b => a.1 ≤ b.1) =
        [("log", .text (Utf8.runes c.text)), ("metadata", object [("stream", .text (constant x.name))]),
          ("msg_type", .text (constant "log"))] := by
      simp [Feedback.message, Feedback.fields, Feedback.kind, Event.name]
    rw [hsort]
    simp [Reader.validate, Reader.metadata, loaded_text, glyph_constant, Json.asText?, List.lookup_cons, hx]
    rfl

/-- A payload is parsed to the message that it stands for. -/
theorem parseText_payload (m : Feedback) (hlimit : 2 ≤ r.limit)
    (hprint : ∀ t, m = .heartbeat t → ReadsBack print r t) (t : Topic) :
    r.parser.parseText t (payload print m) = .ok t m.received := by
  have hload : r.parser.loads (payload print m) = .value (loaded r (object (m.message print))) :=
    Reader.loads_write escapes (Nat.le_trans (depth_message m) hlimit) (admitted_message hprint)
  have hvalid : r.parser.validate (loaded r (object (m.message print))) = some m.received := validate_message hprint
  unfold MessageParser.parseText
  simp only [hload, hvalid]

/-- **The round trip of a message.**  Whatever is handed to `publish`, with any bytes as the text of a log: what is
published on the channel of the message is normalized to the topic of its job and kind, with the message that it
stands for.  Only for a heartbeat it matters how numbers are written and read. -/
theorem wire_round_trip (jobID : String) (m : Feedback) (hlimit : 2 ≤ r.limit)
    (hprint : ∀ t, m = .heartbeat t → ReadsBack print r t) {channel data : RedisText}
    (hchannel : Carries channel (topic jobID m)) (hdata : Carries data (payload print m)) :
    r.parser.normalize channel (.raw data) = .ok (topicOf jobID m.kind) m.received := by
  unfold MessageParser.normalize
  simp only [hchannel.decode, hdata.decode, topic_eq_topicOf]
  exact parseText_payload m hlimit hprint _

/-- A reader of the numbers that the examples print. -/
def digitReader : Reader where
  limit := 1000
  maxDigits := 4300
  number t := if t = ['1'] then .int 1 else .null
  asFloat
    | .int n => some n
    | _ => none

/-- The numeral `1`. -/
def one : Numeral where
  negative := false
  whole := ['1']
  fraction := []
  exponent := []
  whole_ok := Or.inr ⟨by decide, by decide, fun c hc => by rw [List.mem_singleton.mp hc]; rfl⟩
  fraction_ok := Or.inl rfl
  exponent_ok := Or.inl rfl

/-- A log of `<`, of a byte that begins nothing, and of the first byte of a rune. -/
theorem wire_round_trip_of_bytes :
    digitReader.parser.normalize (.text "info/7/log")
      (.raw (.bytes (payload (fun _ => one) (.log .stderr ⟨[0x3C, 0xFF, 0xE2], true⟩)).toUTF8.data.toList)) =
      .ok "info/7/log" (.log { log := "<��", metadata := Dict.single "stream" "stderr" }) := by
  have hchannel : Carries (.text "info/7/log") (topic "7" (.log .stderr ⟨[0x3C, 0xFF, 0xE2], true⟩)) := Or.inl rfl
  have hdata : Carries (.bytes (payload (fun _ => one) (.log .stderr ⟨[0x3C, 0xFF, 0xE2], true⟩)).toUTF8.data.toList)
      (payload (fun _ => one) (.log .stderr ⟨[0x3C, 0xFF, 0xE2], true⟩)) := Or.inr rfl
  have hread := wire_round_trip (r := digitReader) "7" (.log .stderr ⟨[0x3C, 0xFF, 0xE2], true⟩) (by decide)
    (fun t ht => by contradiction) hchannel hdata
  have htext : String.ofList (Utf8.decode [0x3C, 0xFF, 0xE2]) = "<��" := by
    simp [Utf8.decode, Utf8.runes, Utf8.isRune, Utf8.lead, Utf8.width, Utf8.glyph, Utf8.replacement, Utf8.codePoint]
  rw [hread]
  show Normalized.ok "info/7/log" (.log { log := String.ofList (Utf8.decode [0x3C, 0xFF, 0xE2]), metadata := _ }) = _
  rw [htext]
  rfl

end Message

end SlurmManager.Worker
