import Mathlib.Data.Sigma.Basic
import Raidex.Lib.Json
import Raidex.Messages

/-!
# Raidex.Envelope

The JSON envelope of a message, and what opening one can raise.

* `openEnvelope`: `Envelope.open`. The decoder and the fields of RLP are the parameters of `Codec`.
* `Carries`: the text is an envelope of the message.
* `Tolerated`: the texts that are opened, or refused with a `ValueError`.
* `openEnvelope_ok_iff`, `openEnvelope_refuses_iff`: opening returns the message that the text
  carries, and refuses the other tolerated texts.
-/

namespace Raidex

open Json (Text Value text)

structure ProvenCommitment where
  commitment : Commitment
  commitmentProof : CommitmentProof
  signature : Option Signature
  deriving DecidableEq, Repr

structure CommitmentServiceAdvertisement where
  address : Address
  commitmentAsset : Address
  feeRate : Nat
  signature : Option Signature
  deriving DecidableEq, Repr

inductive MsgType where
  | offer
  | provenOffer
  | provenCommitment
  | commitment
  | commitmentProof
  | commitmentService
  | swapExecuted
  | swapCompleted
  | offerTaken
  | cancellation
  | cancellationProof
  deriving DecidableEq, Repr

/-- The class of a message type. -/
abbrev MsgType.Class : MsgType → Type
  | .offer => SwapOffer
  | .provenOffer => ProvenOffer
  | .provenCommitment => ProvenCommitment
  | .commitment => Commitment
  | .commitmentProof => CommitmentProof
  | .commitmentService => CommitmentServiceAdvertisement
  | .swapExecuted => SwapExecution
  | .swapCompleted => SwapCompleted
  | .offerTaken => OfferTaken
  | .cancellation => Cancellation
  | .cancellationProof => CancellationProof

abbrev Message := (k : MsgType) × k.Class

def msgTypesMap : List (Text × MsgType) :=
  [(text "offer", .offer), (text "proven_offer", .provenOffer),
    (text "proven_commitment", .provenCommitment), (text "commitment", .commitment),
    (text "commitment_proof", .commitmentProof), (text "commitment_service", .commitmentService),
    (text "swap_executed", .swapExecuted), (text "swap_completed", .swapCompleted),
    (text "offer_taken", .offerTaken), (text "cancellation", .cancellation),
    (text "cancellation_proof", .cancellationProof)]

inductive OpenError where
  | py (e : PyError)
  | assertionError
  | recursionError
  | rlpException
  deriving DecidableEq, Repr

/-- A `JSONDecodeError`, a `binascii.Error` and a `UnicodeEncodeError` are `ValueError`s. -/
def OpenError.isValueError (e : OpenError) : Bool := e = .py .valueError

/-- RLP, and how deep JSON may be nested when an envelope is opened. Both functions are `none`
where the library raises, which is never a `ValueError`. -/
structure Codec where
  recursionLimit : Nat
  decodeRlp : Bytes → Option Item
  deserialize : (k : MsgType) → Item → Option k.Class

/-! ## Base64 -/

/-- `none` for a surrogate, which has no encoding. -/
def encodeUtf8 (c : Json.CodePoint) : Option Bytes :=
  let n := c.val
  if Json.isSurrogate c then none
  else if n < 0x80 then some [UInt8.ofNat n]
  else if n < 0x800 then some [UInt8.ofNat (0xC0 + n / 64), UInt8.ofNat (0x80 + n % 64)]
  else if n < 0x10000 then
    some [UInt8.ofNat (0xE0 + n / 4096), UInt8.ofNat (0x80 + n / 64 % 64),
      UInt8.ofNat (0x80 + n % 64)]
  else
    some [UInt8.ofNat (0xF0 + n / 262144), UInt8.ofNat (0x80 + n / 4096 % 64),
      UInt8.ofNat (0x80 + n / 64 % 64), UInt8.ofNat (0x80 + n % 64)]

def base64Value? (c : UInt8) : Option Nat :=
  let n := c.toNat
  if 65 ≤ n ∧ n ≤ 90 then some (n - 65)
  else if 97 ≤ n ∧ n ≤ 122 then some (n - 71)
  else if 48 ≤ n ∧ n ≤ 57 then some (n + 4)
  else if n = 43 then some 62
  else if n = 47 then some 63
  else none

/-- `=` -/
def base64Pad : UInt8 := 61

/-- `a2b_base64` skips what is not in the alphabet, stops at a pad that completes a quad and
raises when bits are left over. -/
def a2bBase64 (quadPos leftChar leftBits : Nat) : Bytes → Option Bytes
  | [] => if leftBits = 0 then some [] else none
  | c :: cs =>
    if c = base64Pad then
      let next := cs.find? fun d => d = base64Pad || (base64Value? d).isSome
      if quadPos = 3 ∨ (quadPos = 2 ∧ next = some base64Pad) then some []
      else a2bBase64 quadPos leftChar leftBits cs
    else
      match base64Value? c with
      | none => a2bBase64 quadPos leftChar leftBits cs
      | some v =>
        let quadPos := (quadPos + 1) % 4
        let leftChar := leftChar * 64 + v
        if leftBits < 2 then a2bBase64 quadPos leftChar (leftBits + 6) cs
        else
          (a2bBase64 quadPos (leftChar % 2 ^ (leftBits - 2)) (leftBits - 2) cs).map
            (UInt8.ofNat (leftChar / 2 ^ (leftBits - 2)) :: ·)

/-- `base64.decodebytes` of the encoded text; `none` where one of the two raises. -/
def decodebytes (s : Text) : Option Bytes := do
  let bytes ← s.mapM encodeUtf8
  a2bBase64 0 0 0 bytes.flatten

/-! ## Opening an envelope -/

/-- `==` with the version. A float equals it when its literal rounds to one: when it is between
`1 - 2 ^ -54` and `1 + 2 ^ -53`. -/
def isVersion : Value → Bool
  | .bool b => b
  | .int n => n = 1
  | .float (.decimal m e) =>
    if 0 ≤ e then 2 ^ 54 - 1 ≤ 2 ^ 54 * m * 10 ^ e.toNat && 2 ^ 54 * m * 10 ^ e.toNat ≤ 2 ^ 54 + 2
    else (2 ^ 54 - 1) * 10 ^ (-e).toNat ≤ 2 ^ 54 * m && 2 ^ 54 * m ≤ (2 ^ 54 + 2) * 10 ^ (-e).toNat
  | _ => false

def getItem (members : List (Text × Value)) (key : String) : Except OpenError Value :=
  match members.lookup (text key) with
  | some v => .ok v
  | none => .error (.py .keyError)

/-- The dictionary of an envelope. The assertion is not a `ValueError`. -/
def loadEnvelope (K : Codec) : Value → Except OpenError (List (Text × Value))
  | .str data =>
    match Json.loads K.recursionLimit data with
    | .ok (.obj members) => .ok members
    | .ok _ => .error .assertionError
    | .error .decode => .error (.py .valueError)
    | .error .recursion => .error .recursionError
  | _ => .error (.py .typeError)

/-- `msg_types_map[msg]`; a list or a dictionary cannot be a key. -/
def msgType : Value → Except OpenError MsgType
  | .str name =>
    match msgTypesMap.lookup name with
    | some k => .ok k
    | none => .error (.py .keyError)
  | .arr _ | .obj _ => .error (.py .typeError)
  | _ => .error (.py .keyError)

/-- `Envelope.decode` -/
def decodeItem (K : Codec) : Value → Except OpenError Item
  | .str payload =>
    match decodebytes payload with
    | some bytes =>
      match K.decodeRlp bytes with
      | some item => .ok item
      | none => .error .rlpException
    | none => .error (.py .valueError)
  | _ => .error (.py .attributeError)

def openMessage (K : Codec) (envelope : List (Text × Value)) : Except OpenError Message := do
  let msg ← getItem envelope "msg"
  let k ← msgType msg
  let data ← getItem envelope "data"
  let item ← decodeItem K data
  match K.deserialize k item with
  | some m => return ⟨k, m⟩
  | none => throw .rlpException

/-- `Envelope.open`; the text of a version mismatch looks at the type of the message. -/
def openEnvelope (K : Codec) (data : Value) : Except OpenError Message := do
  let envelope ← loadEnvelope K data
  let version ← getItem envelope "version"
  if isVersion version then openMessage K envelope
  else
    let _ ← getItem envelope "msg"
    throw (.py .valueError)

/-! ## What can be opened -/

section

variable (K : Codec) (data : Text)

/-- The text is an envelope of this version, with a type and a payload. -/
def EnvelopeOf (k : MsgType) (payload : Text) : Prop :=
  ∃ members version name, Json.loads K.recursionLimit data = .ok (.obj members) ∧
    members.lookup (text "version") = some version ∧ isVersion version = true ∧
    members.lookup (text "msg") = some (.str name) ∧ msgTypesMap.lookup name = some k ∧
    members.lookup (text "data") = some (.str payload)

def Carries (m : Message) : Prop :=
  ∃ payload bytes item, EnvelopeOf K data m.1 payload ∧ decodebytes payload = some bytes ∧
    K.decodeRlp bytes = some item ∧ K.deserialize m.1 item = some m.2

inductive Refused : Prop
  | notJson (h : Json.loads K.recursionLimit data = .error .decode)
  | otherVersion (members : List (Text × Value)) (version msg : Value)
      (h : Json.loads K.recursionLimit data = .ok (.obj members))
      (hversion : members.lookup (text "version") = some version)
      (hother : isVersion version = false) (hmsg : members.lookup (text "msg") = some msg)
  | notBase64 (k : MsgType) (payload : Text) (h : EnvelopeOf K data k payload)
      (hpayload : decodebytes payload = none)

end

section

variable {K : Codec} {data : Text} {members : List (Text × Value)} {key : String} {v : Value}

theorem getItem_eq_ok : getItem members key = .ok v ↔ members.lookup (text key) = some v := by
  unfold getItem
  cases members.lookup (text key) <;> simp

theorem getItem_ne_valueError : getItem members key ≠ .error (.py .valueError) := by
  unfold getItem
  cases members.lookup (text key) <;> simp

theorem loadEnvelope_eq_ok : loadEnvelope K (.str data) = .ok members ↔
    Json.loads K.recursionLimit data = .ok (.obj members) := by
  simp only [loadEnvelope]
  split <;> simp_all

theorem loadEnvelope_refuses : loadEnvelope K (.str data) = .error (.py .valueError) ↔
    Json.loads K.recursionLimit data = .error .decode := by
  simp only [loadEnvelope]
  split <;> simp_all

theorem msgType_eq_ok {k : MsgType} :
    msgType v = .ok k ↔ ∃ name, v = .str name ∧ msgTypesMap.lookup name = some k := by
  cases v with
  | str name =>
    simp only [msgType]
    cases h : msgTypesMap.lookup name <;> simp [h]
  | _ => simp [msgType]

theorem msgType_ne_valueError : msgType v ≠ .error (.py .valueError) := by
  unfold msgType
  repeat' split
  all_goals simp

theorem decodeItem_eq_ok {item : Item} : decodeItem K v = .ok item ↔
    ∃ payload bytes, v = .str payload ∧ decodebytes payload = some bytes ∧
      K.decodeRlp bytes = some item := by
  cases v with
  | str payload =>
    simp only [decodeItem]
    cases hbytes : decodebytes payload with
    | none => simp [hbytes]
    | some bytes => cases hitem : K.decodeRlp bytes <;> simp [hbytes, hitem]
  | _ => simp [decodeItem]

theorem decodeItem_refuses : decodeItem K v = .error (.py .valueError) ↔
    ∃ payload, v = .str payload ∧ decodebytes payload = none := by
  cases v with
  | str payload =>
    simp only [decodeItem]
    cases hbytes : decodebytes payload with
    | none => simp [hbytes]
    | some bytes => cases hitem : K.decodeRlp bytes <;> simp [hbytes, hitem]
  | _ => simp [decodeItem]

theorem openMessage_eq_ok {m : Message} : openMessage K members = .ok m ↔
    ∃ name payload bytes item, members.lookup (text "msg") = some (.str name) ∧
      msgTypesMap.lookup name = some m.1 ∧ members.lookup (text "data") = some (.str payload) ∧
      decodebytes payload = some bytes ∧ K.decodeRlp bytes = some item ∧
      K.deserialize m.1 item = some m.2 := by
  simp only [openMessage, Except.bind_eq_ok, getItem_eq_ok, msgType_eq_ok, decodeItem_eq_ok]
  constructor
  · rintro ⟨_, hmsg, k, ⟨name, rfl, hk⟩, _, hdata, item, ⟨payload, bytes, rfl, hbytes, hitem⟩, h⟩
    split at h
    next m' hm =>
      obtain rfl : (⟨k, m'⟩ : Message) = m := Except.ok.inj h
      exact ⟨name, payload, bytes, item, hmsg, hk, hdata, hbytes, hitem, hm⟩
    next => cases h
  · rintro ⟨name, payload, bytes, item, hmsg, hk, hdata, hbytes, hitem, hm⟩
    refine ⟨_, hmsg, m.1, ⟨name, rfl, hk⟩, _, hdata, item, ⟨payload, bytes, rfl, hbytes, hitem⟩, ?_⟩
    rw [hm]
    rfl

theorem openMessage_refuses : openMessage K members = .error (.py .valueError) ↔
    ∃ name k payload, members.lookup (text "msg") = some (.str name) ∧
      msgTypesMap.lookup name = some k ∧ members.lookup (text "data") = some (.str payload) ∧
      decodebytes payload = none := by
  simp only [openMessage, Except.bind_eq_error, getItem_ne_valueError, msgType_ne_valueError,
    false_or, getItem_eq_ok, msgType_eq_ok, decodeItem_refuses]
  constructor
  · rintro ⟨_, hmsg, k, ⟨name, rfl, hk⟩, _, hdata, ⟨payload, rfl, hbytes⟩ | ⟨item, _, h⟩⟩
    · exact ⟨name, k, payload, hmsg, hk, hdata, hbytes⟩
    · split at h <;> cases h
  · rintro ⟨name, k, payload, hmsg, hk, hdata, hbytes⟩
    exact ⟨_, hmsg, k, ⟨name, rfl, hk⟩, _, hdata, .inl ⟨payload, rfl, hbytes⟩⟩

theorem openEnvelope_eq_ok {m : Message} :
    openEnvelope K (.str data) = .ok m ↔ Carries K data m := by
  simp only [openEnvelope, Except.bind_eq_ok, loadEnvelope_eq_ok, getItem_eq_ok]
  constructor
  · rintro ⟨members, hload, version, hversion, h⟩
    split at h
    next hone =>
      obtain ⟨name, payload, bytes, item, hmsg, hk, hdata, hpayload⟩ := openMessage_eq_ok.mp h
      exact ⟨payload, bytes, item,
        ⟨members, version, name, hload, hversion, hone, hmsg, hk, hdata⟩, hpayload⟩
    next =>
      obtain ⟨_, _, h⟩ := Except.bind_eq_ok.mp h
      cases h
  · rintro ⟨payload, bytes, item, ⟨members, version, name, hload, hversion, hone, hmsg, hk, hdata⟩,
      hpayload⟩
    refine ⟨members, hload, version, hversion, ?_⟩
    rw [if_pos hone]
    exact openMessage_eq_ok.mpr ⟨name, payload, bytes, item, hmsg, hk, hdata, hpayload⟩

theorem openEnvelope_refuses :
    openEnvelope K (.str data) = .error (.py .valueError) ↔ Refused K data := by
  simp only [openEnvelope, Except.bind_eq_error, loadEnvelope_refuses, loadEnvelope_eq_ok,
    getItem_ne_valueError, false_or, getItem_eq_ok]
  constructor
  · rintro (h | ⟨members, hload, version, hversion, h⟩)
    · exact .notJson h
    split at h
    next hone =>
      obtain ⟨name, k, payload, hmsg, hk, hdata, hbytes⟩ := openMessage_refuses.mp h
      exact .notBase64 k payload ⟨members, version, name, hload, hversion, hone, hmsg, hk, hdata⟩
        hbytes
    next hother =>
      rcases Except.bind_eq_error.mp h with h | ⟨msg, hmsg, -⟩
      · exact absurd h getItem_ne_valueError
      · exact .otherVersion members version msg hload hversion (Bool.eq_false_iff.mpr hother)
          (getItem_eq_ok.mp hmsg)
  · intro h
    cases h with
    | notJson h => exact .inl h
    | otherVersion members version msg hload hversion hother hmsg =>
      refine .inr ⟨members, hload, version, hversion, ?_⟩
      rw [if_neg (Bool.eq_false_iff.mp hother)]
      exact Except.bind_eq_error.mpr (.inr ⟨msg, getItem_eq_ok.mpr hmsg, rfl⟩)
    | notBase64 k payload h hbytes =>
      obtain ⟨members, version, name, hload, hversion, hone, hmsg, hk, hdata⟩ := h
      refine .inr ⟨members, hload, version, hversion, ?_⟩
      rw [if_pos hone]
      exact openMessage_refuses.mpr ⟨name, k, payload, hmsg, hk, hdata, hbytes⟩

theorem Carries.unique {m m' : Message} (h : Carries K data m) (h' : Carries K data m') : m = m' :=
  Except.ok.inj ((openEnvelope_eq_ok.mpr h).symm.trans (openEnvelope_eq_ok.mpr h'))

theorem Refused.not_carries (h : Refused K data) (m : Message) : ¬ Carries K data m := by
  intro hm
  have hopen : Except.error (OpenError.py .valueError) = Except.ok m :=
    (openEnvelope_refuses.mpr h).symm.trans (openEnvelope_eq_ok.mpr hm)
  cases hopen

end

end Raidex
