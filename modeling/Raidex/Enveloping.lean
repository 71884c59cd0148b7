import Raidex.Base64
import Raidex.MessageClasses

/-!
# Raidex.Enveloping

Messages of all classes in envelopes.

* `envelop`, `openObject`: `Envelope.envelop` and `Envelope.open`.
* `loads_dumpEnvelope`, `openObject_dumpEnvelope`: what is read of an envelope that was written.
* `envelope_round_trip`: every message is read back as it was.
* `signature_bound`: what is signed of a message is signed of no other one.
-/

namespace Raidex

open Json (Text CodePoint Value text chr dumpString joinSurrogates)

/-- RLP with its encoder, which is `none` where the library raises. -/
structure Rlp (K : Codec) where
  encode : Item → Option Bytes
  decode_encode : ∀ item bytes, encode item = some bytes → K.decodeRlp bytes = some item

/-- `json.dumps` of the dictionary of an envelope. -/
def dumpEnvelope (msg data : Text) : Text :=
  chr '\x7b' :: (text "\"version\": 1, \"msg\": " ++ dumpString msg ++ text ", \"data\": " ++
    dumpString data ++ [chr '\x7d'])

section

variable {K : Codec} (R : Rlp K)

/-- `Envelope.encode` -/
def encodeItem (item : Item) : Option Text := (R.encode item).map encodebytes

/-- `Envelope.envelop`, without the assertion that is about other objects than messages. -/
def envelop : PyObject → Option Text
  | .message k attrs => do
    let msg ← typesMsgMap.lookup k
    let item ← k.messageClass.sedes.serialize (.message k attrs)
    let data ← encodeItem R item
    return dumpEnvelope msg data
  | _ => none

/-- The data that is hashed to sign a message. -/
def signedData (m : PyObject) : Option Bytes := do
  let item ← unsignedItem m
  R.encode item

end

section

variable (K : Codec)

def openFields (envelope : List (Text × Value)) : Except OpenError PyObject := do
  let msg ← getItem envelope "msg"
  let k ← msgType msg
  let data ← getItem envelope "data"
  let item ← decodeItem K data
  match k.messageClass.sedes.deserialize item with
  | some m => return m
  | none => throw .rlpException

/-- `Envelope.open`, for the classes as they are declared. -/
def openObject (data : Value) : Except OpenError PyObject := do
  let envelope ← loadEnvelope K data
  let version ← getItem envelope "version"
  if isVersion version then openFields K envelope
  else
    let _ ← getItem envelope "msg"
    throw (.py .valueError)

end

/-! ## Reading an envelope -/

theorem joinSurrogates_of_lt {s : Text} (h : ∀ c ∈ s, c.val < 0xD800) : joinSurrogates s = s := by
  induction s with
  | nil => rfl
  | cons c s ih =>
    obtain ⟨hc, hs⟩ := List.forall_mem_cons.mp h
    have hhigh : Json.isHigh c = false := by simp [Json.isHigh]; omega
    rw [Json.joinSurrogates_cons hhigh, ih hs]

theorem joinSurrogates_encodebytes (s : Bytes) :
    joinSurrogates (encodebytes s) = encodebytes s := by
  refine joinSurrogates_of_lt ?_
  intro c hc
  obtain ⟨b, hb, rfl⟩ := List.mem_map.mp hc
  have hlt := encodeLines_lt s b hb
  rw [Json.val_ofNat (by omega)]
  omega

theorem loads_dumpEnvelope (limit : Nat) (msg data : Text) :
    Json.loads (limit + 1) (dumpEnvelope msg data) =
      .ok (.obj [(text "data", .str (joinSurrogates data)), (text "msg", .str (joinSurrogates msg)),
        (text "version", .int 1)]) := by
  have hopen : (Json.State.between ⟨[], .value⟩).step (limit + 1) (chr '\x7b') =
      .ok (.between ⟨[.obj []], .firstKey⟩) := by
    have hroom : 0 < limit + 1 := Nat.succ_pos limit
    simp [Json.State.step, Json.Place.step, Json.start, Json.openFrame, hroom,
      show Json.isSpace (chr '\x7b') = false by rfl, show chr '\x7b' ≠ chr '"' by decide]
  have hversion : Json.run (limit + 1) (.between ⟨[.obj []], .firstKey⟩)
      (text "\"version\": 1, \"msg\": \"") =
      .ok (.string [.member [(text "version", .int 1)] (text "msg")] false .empty) := rfl
  have hmsg : Json.run (limit + 1)
      (.string [.member [(text "version", .int 1)] (text "msg")] false .empty)
      (msg.flatMap Json.escape ++ [chr '"']) =
      .ok (.between ⟨[.obj [(text "msg", .str (joinSurrogates msg)), (text "version", .int 1)]],
        .next⟩) := Json.run_string msg
  have hkey : Json.run (limit + 1)
      (.between ⟨[.obj [(text "msg", .str (joinSurrogates msg)), (text "version", .int 1)]], .next⟩)
      (text ", \"data\": \"") =
      .ok (.string [.member [(text "msg", .str (joinSurrogates msg)), (text "version", .int 1)]
        (text "data")] false .empty) := rfl
  have hdata : Json.run (limit + 1)
      (.string [.member [(text "msg", .str (joinSurrogates msg)), (text "version", .int 1)]
        (text "data")] false .empty) (data.flatMap Json.escape ++ [chr '"']) =
      .ok (.between ⟨[.obj [(text "data", .str (joinSurrogates data)),
        (text "msg", .str (joinSurrogates msg)), (text "version", .int 1)]], .next⟩) :=
    Json.run_string data
  have hshape : dumpEnvelope msg data = chr '\x7b' :: (text "\"version\": 1, \"msg\": \"" ++
      (msg.flatMap Json.escape ++ [chr '"'] ++ (text ", \"data\": \"" ++
        (data.flatMap Json.escape ++ [chr '"'] ++ [chr '\x7d'])))) := by
    simp [dumpEnvelope, dumpString, text]
  rw [Json.loads, hshape, Json.run_cons hopen, Json.run_append _ hversion, Json.run_append _ hmsg,
    Json.run_append _ hkey, Json.run_append _ hdata]
  rfl

section

variable {K : Codec} {R : Rlp K} {k : MsgType} {m m' : PyObject} {msg data : Text}
  {attrs : List (String × PyObject)}

/-- The two maps are inverse, and JSON keeps the names of the types. -/
theorem msgTypesMap_entry {x : Text × MsgType} (h : x ∈ msgTypesMap) :
    msgTypesMap.lookup x.1 = some x.2 ∧ typesMsgMap.lookup x.2 = some x.1 ∧
      joinSurrogates x.1 = x.1 := by
  revert x
  decide

theorem exists_entry (k : MsgType) : ∃ msg, (msg, k) ∈ msgTypesMap := by
  have hmem : k ∈ msgTypesMap.map Prod.snd := by cases k <;> decide
  obtain ⟨⟨msg, _⟩, hx, rfl⟩ := List.mem_map.mp hmem
  exact ⟨msg, hx⟩

theorem openObject_dumpEnvelope (hdepth : 0 < K.recursionLimit)
    (hmsg : (msg, k) ∈ msgTypesMap) {bytes : Bytes} {item : Item}
    (hitem : K.decodeRlp bytes = some item) :
    openObject K (.str (dumpEnvelope msg (encodebytes bytes))) = .ok m ↔
      k.messageClass.sedes.deserialize item = some m := by
  obtain ⟨limit, hlimit⟩ : ∃ limit, K.recursionLimit = limit + 1 :=
    ⟨K.recursionLimit - 1, by omega⟩
  have hload : loadEnvelope K (.str (dumpEnvelope msg (encodebytes bytes))) =
      .ok [(text "data", .str (encodebytes bytes)), (text "msg", .str msg),
        (text "version", .int 1)] := by
    rw [loadEnvelope, hlimit, loads_dumpEnvelope, joinSurrogates_encodebytes,
      (msgTypesMap_entry hmsg).2.2]
  have hversion : isVersion (.int 1) = true := rfl
  have hdecode : decodeItem K (.str (encodebytes bytes)) = .ok item := by
    rw [decodeItem_eq_ok]
    exact ⟨_, bytes, rfl, decodebytes_encodebytes bytes, hitem⟩
  have hfields : openObject K (.str (dumpEnvelope msg (encodebytes bytes))) =
      openFields K [(text "data", .str (encodebytes bytes)), (text "msg", .str msg),
        (text "version", .int 1)] := by
    rw [openObject, hload]
    rfl
  have htype : msgType (.str msg) = .ok k :=
    msgType_eq_ok.mpr ⟨msg, rfl, (msgTypesMap_entry hmsg).1⟩
  have hget : openFields K [(text "data", .str (encodebytes bytes)), (text "msg", .str msg),
      (text "version", .int 1)] =
      (do
        let k ← msgType (.str msg)
        let item ← decodeItem K (.str (encodebytes bytes))
        match k.messageClass.sedes.deserialize item with
        | some m => return m
        | none => throw .rlpException) := rfl
  rw [hfields, hget, htype, hdecode]
  cases hm : k.messageClass.sedes.deserialize item with
  | none => simp [hm, throw, throwThe, MonadExceptOf.throw, bind, Except.bind]
  | some m' => simp [hm, bind, Except.bind, pure, Except.pure]

theorem envelop_eq_some : envelop R (.message k attrs) = some data ↔
    ∃ msg item bytes, typesMsgMap.lookup k = some msg ∧
      k.messageClass.sedes.serialize (.message k attrs) = some item ∧
      R.encode item = some bytes ∧ data = dumpEnvelope msg (encodebytes bytes) := by
  simp only [envelop, encodeItem, Option.bind_eq_bind, Option.bind_eq_some_iff,
    Option.map_eq_some_iff, Option.pure_def, Option.some.injEq]
  constructor
  · rintro ⟨msg, hmsg, item, hitem, _, ⟨bytes, hbytes, rfl⟩, rfl⟩
    exact ⟨msg, item, bytes, hmsg, hitem, hbytes, rfl⟩
  · rintro ⟨msg, item, bytes, hmsg, hitem, hbytes, rfl⟩
    exact ⟨msg, hmsg, item, hitem, _, ⟨bytes, hbytes, rfl⟩, rfl⟩

/-- What is serialized of a message is read back by its own class. -/
theorem deserialize_serialize (hm : Built (.message k attrs)) {item : Item}
    (hitem : k.messageClass.sedes.serialize (.message k attrs) = some item) :
    k.messageClass.sedes.deserialize item = some (.message k attrs) := by
  obtain ⟨items, hitems, rfl⟩ := Option.map_eq_some_iff.mp hitem
  obtain ⟨values, hinst⟩ := hm.isInstance
  exact hinst.deserialize (Classes.restores_fields k) hitems

end

/-- A message whose fields accept their values is opened as it was enveloped: an equal instance
of its class, of which the same text is made again. -/
theorem envelope_round_trip {K : Codec} (R : Rlp K) (hdepth : 0 < K.recursionLimit) {k : MsgType}
    {attrs : List (String × PyObject)} (hm : Built (.message k attrs)) {item : Item}
    (hitem : k.messageClass.sedes.serialize (.message k attrs) = some item) {bytes : Bytes}
    (hbytes : R.encode item = some bytes) :
    ∃ data m', envelop R (.message k attrs) = some data ∧ openObject K (.str data) = .ok m' ∧
      m' = .message k attrs ∧ envelop R m' = some data := by
  obtain ⟨msg, hmsg⟩ := exists_entry k
  have henvelop : envelop R (.message k attrs) = some (dumpEnvelope msg (encodebytes bytes)) :=
    envelop_eq_some.mpr
      ⟨msg, item, bytes, (msgTypesMap_entry hmsg).2.1, hitem, hbytes, rfl⟩
  have hopen : openObject K (.str (dumpEnvelope msg (encodebytes bytes))) =
      .ok (.message k attrs) :=
    (openObject_dumpEnvelope hdepth hmsg (R.decode_encode item bytes hbytes)).mpr
      (deserialize_serialize hm hitem)
  exact ⟨_, _, henvelop, hopen, rfl, henvelop⟩

/-! An `OfferTaken` for offer 5, and RLP for it. -/

def takenAttrs : List (String × PyObject) :=
  [("offer_id", .int 5), ("signature", .bytes (bigEndian 65 7)), ("cmdid", .int 9)]

def takenItem : Item :=
  .list [.bytes (bigEndian 32 5), .bytes (bigEndian 65 7), .bytes (bigEndian 32 9)]

def takenRlp : Bytes :=
  [0xf8, 0x85, 0xa0] ++ bigEndian 32 5 ++ [0xb8, 0x41] ++ bigEndian 65 7 ++ [0xa0] ++ bigEndian 32 9

def unsignedTakenRlp : Bytes := [0xf8, 0x42, 0xa0] ++ bigEndian 32 5 ++ [0xa0] ++ bigEndian 32 9

def takenCodec : Codec where
  recursionLimit := 1000
  decodeRlp bytes :=
    if bytes = takenRlp then some takenItem
    else if bytes = unsignedTakenRlp then
      some (.list [.bytes (bigEndian 32 5), .bytes (bigEndian 32 9)])
    else none
  deserialize _ _ := none

def takenEncoder : Rlp takenCodec where
  encode
    | .list [.bytes a, .bytes b, .bytes c] =>
      if a = bigEndian 32 5 ∧ b = bigEndian 65 7 ∧ c = bigEndian 32 9 then some takenRlp else none
    | .list [.bytes a, .bytes c] =>
      if a = bigEndian 32 5 ∧ c = bigEndian 32 9 then some unsignedTakenRlp else none
    | _ => none
  decode_encode item bytes h := by
    split at h
    next =>
      split at h <;> cases h
      next hargs =>
        obtain ⟨rfl, rfl, rfl⟩ := hargs
        simp only [takenCodec, takenItem, if_true]
    next =>
      split at h <;> cases h
      next hargs =>
        obtain ⟨rfl, rfl⟩ := hargs
        have hne : unsignedTakenRlp ≠ takenRlp := by decide
        simp only [takenCodec, if_neg hne, if_true]
    next => cases h

theorem built_taken : Built (.message .offerTaken takenAttrs) :=
  .message .offerTaken [.int 5, .bytes (bigEndian 65 7)] [] _
    (by
      intro x hx
      rcases List.mem_pair.mp hx with rfl | rfl
      · exact .int 5
      · exact .bytes _)
    (by simp) rfl

theorem taken_round_trip : ∃ data m',
    envelop takenEncoder (.message .offerTaken takenAttrs) = some data ∧
    openObject takenCodec (.str data) = .ok m' ∧ m' = .message .offerTaken takenAttrs ∧
    envelop takenEncoder m' = some data :=
  envelope_round_trip takenEncoder (by decide) built_taken rfl rfl

/-- The same data is signed only of messages of one class that agree on all fields but the
signature. An envelope of a message under another type name is not opened as a message of which
the same data is signed. -/
theorem signature_bound {K : Codec} (R : Rlp K) (hdepth : 0 < K.recursionLimit) {k : MsgType}
    {attrs : List (String × PyObject)} (hm : Built (.message k attrs)) {signed : Bytes}
    (hsigned : signedData R (.message k attrs) = some signed) :
    (∀ k' attrs', Built (.message k' attrs') → signedData R (.message k' attrs') = some signed →
      k' = k ∧ ∀ name ∈ k.messageClass.fieldNames, name ≠ "signature" →
        attrs'.lookup name = attrs.lookup name) ∧
    ∀ msg item data msg' m', typesMsgMap.lookup k = some msg →
      k.messageClass.sedes.serialize (.message k attrs) = some item →
      encodeItem R item = some data →
      msg' ∈ msgTypesMap.map Prod.fst → msg' ≠ msg →
      openObject K (.str (dumpEnvelope msg' data)) = .ok m' → signedData R m' ≠ some signed := by
  have hbound : ∀ k' attrs', Built (.message k' attrs') →
      signedData R (.message k' attrs') = some signed →
      k' = k ∧ ∀ name ∈ k.messageClass.fieldNames, name ≠ "signature" →
        attrs'.lookup name = attrs.lookup name := by
    intro k' attrs' hm' hsigned'
    obtain ⟨i, hi, hencode⟩ := Option.bind_eq_some_iff.mp hsigned
    obtain ⟨i', hi', hencode'⟩ := Option.bind_eq_some_iff.mp hsigned'
    obtain rfl : i = i' := Option.some.inj
      ((R.decode_encode i signed hencode).symm.trans (R.decode_encode i' signed hencode'))
    obtain ⟨rfl, hfields⟩ := unsignedItem_inj hm hm' hi hi'
    exact ⟨rfl, fun name hname hne => (hfields name hname hne).symm⟩
  refine ⟨hbound, ?_⟩
  intro msg item data msg' m' hmsg hitem hdata hname hne hopen hsigned'
  obtain ⟨bytes, hbytes, rfl⟩ := Option.map_eq_some_iff.mp hdata
  obtain ⟨⟨_, k'⟩, hmem, rfl⟩ := List.mem_map.mp hname
  have hread := (openObject_dumpEnvelope hdepth hmem (R.decode_encode item bytes hbytes)).mp hopen
  obtain ⟨hm', attrs', rfl⟩ := built_of_deserialize (Classes.restores_fields k') hread
  obtain rfl := (hbound k' attrs' hm' hsigned').1
  exact hne (Option.some.inj ((msgTypesMap_entry hmem).2.1.symm.trans hmsg))

/-- The envelope of an `OfferTaken` can be opened as one of a `Cancellation`, but the same is not
signed of it. -/
theorem taken_not_cancelled : ∃ m', openObject takenCodec
    (.str (dumpEnvelope (text "cancellation") (encodebytes takenRlp))) = .ok m' ∧
    signedData takenEncoder m' ≠ some unsignedTakenRlp := by
  have hopen : openObject takenCodec
      (.str (dumpEnvelope (text "cancellation") (encodebytes takenRlp))) =
      .ok (.message .cancellation [("offer_id", .int 5), ("signature", .bytes (bigEndian 65 7)),
        ("cmdid", .int 10)]) :=
    (openObject_dumpEnvelope (by decide)
      (show (text "cancellation", .cancellation) ∈ msgTypesMap by decide)
      (takenEncoder.decode_encode takenItem takenRlp rfl)).mpr rfl
  exact ⟨_, hopen, (signature_bound takenEncoder (by decide) built_taken rfl).2 (text "offer_taken")
    _ _ _ _ rfl rfl rfl (by decide) (by decide) hopen⟩

end Raidex
