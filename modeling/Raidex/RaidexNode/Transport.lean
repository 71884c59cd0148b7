import Raidex.Envelope
import Raidex.RaidexNode.App

/-!
# Raidex.RaidexNode.Transport

The task that reads a topic of the message broker and serves the listeners of the node.

* `decode`, `ListenerKind.transform`: what a listener is handed, as the task computes it.
* `StreamingRequestTask.run`: the task dies with the first exception.
* `run_eq_none_iff`: it survives lines that can be read and that no listener refuses.
* `topic_served_iff`: from lines of the broker, every listener gets its messages exactly when every
  text is refused with a `ValueError` or carries a message, and every `ProvenOffer` has a sender
  and is of the market of every `OfferListener`.
-/

namespace Raidex
namespace RaidexNode

open Json (Text Value text chr dumpString joinSurrogates)

/-- A message, or what stands in its place when it cannot be opened. -/
inductive Received where
  | raw (data : Value)
  | message (m : Message)

def decode (K : Codec) (data : Value) : Except OpenError Received :=
  match openEnvelope K data with
  | .ok m => .ok (.message m)
  | .error e => if e.isValueError then .ok (.raw data) else .error e

/-! ## Listeners -/

/-- What a listener puts into its queue. -/
inductive Delivered where
  | received (r : Received)
  | entry (e : OfferBookEntry)
  | offerId (n : Nat)
  | swapCompleted (offerId timestamp : Nat)

/-- The listeners of the node; `plain` has no transform. -/
inductive ListenerKind where
  | plain
  | message
  | taker (offerId : Nat)
  | cancellation
  | offer (market : TokenPair)
  | offerTaken
  | swapExecution
  | takerCommitment
  | commitment
  | swapCompleted
  | commitmentProof

/-- `_transform` of the `OfferListener`, of a `ProvenOffer` -/
def offerEntry (C : Crypto) (market : TokenPair) (m : ProvenOffer) :
    Except OpenError OfferBookEntry :=
  match market.getOfferType m.offer.askToken m.offer.bidToken with
  | none => .error .assertionError
  | some type =>
    let (baseAmount, quoteAmount) := match type with
      | .buy => (m.offer.askAmount, m.offer.bidAmount)
      | .sell => (m.offer.bidAmount, m.offer.askAmount)
    match sender C m with
    | .error e => .error (.py e)
    | .ok initiator =>
      .ok { offer := { offerId := m.offer.offerId, type := type, baseAmount := baseAmount,
                       quoteAmount := quoteAmount, timeoutDate := m.offer.timeout }
            initiator := initiator
            commitmentProof := m.commitmentProof }

/-- The message, if it is an instance of one of the classes. -/
def passing (classes : List MsgType) : Received → Option Delivered
  | .raw _ => none
  | .message m => if m.1 ∈ classes then some (.received (.message m)) else none

/-- `_transform`; a `SwapCompleted` is a `SwapExecution`, too. -/
def ListenerKind.transform (C : Crypto) :
    ListenerKind → Received → Except OpenError (Option Delivered)
  | .plain, r | .message, r => .ok (some (.received r))
  | .taker offerId, .message ⟨.provenOffer, m⟩ =>
    .ok (if m.offer.offerId = offerId then some (.received (.message ⟨.provenOffer, m⟩)) else none)
  | .cancellation, r => .ok (passing [.cancellation] r)
  | .offer market, .message ⟨.provenOffer, m⟩ =>
    (offerEntry C market m).map fun e => some (.entry e)
  | .offerTaken, .message ⟨.offerTaken, m⟩ => .ok (some (.offerId m.offerId))
  | .swapExecution, r => .ok (passing [.swapExecuted, .swapCompleted] r)
  | .takerCommitment, r | .commitment, r => .ok (passing [.commitment] r)
  | .swapCompleted, .message ⟨.swapCompleted, m⟩ =>
    .ok (some (.swapCompleted m.offerId m.timestamp))
  | .commitmentProof, r => .ok (passing [.commitmentProof, .cancellationProof] r)
  | _, _ => .ok none

structure Listener where
  kind : ListenerKind
  messageQueue : List Delivered

def Listener.new (kind : ListenerKind) : Listener where
  kind := kind
  messageQueue := []

def Listener.put (l : Listener) (x : Option Delivered) : Listener :=
  { l with messageQueue := l.messageQueue ++ x.toList }

/-! ## The task -/

namespace StreamingRequestTask

variable (C : Crypto) (K : Codec)

/-- The inner loop, over the listeners. -/
def serve (r : Received) : List Listener → List Listener × Option OpenError
  | [] => ([], none)
  | l :: ls =>
    match l.kind.transform C r with
    | .error e => (l :: ls, some e)
    | .ok x => (l.put x :: (serve r ls).1, (serve r ls).2)

/-- `json.loads` of a line; it runs two calls above the one of `Envelope.open`. -/
def loadLine (line : Text) : Except OpenError Value :=
  match Json.loads (K.recursionLimit + 2) line with
  | .ok v => .ok v
  | .error .decode => .error (.py .valueError)
  | .error .recursion => .error .recursionError

def getData : Value → Except OpenError Value
  | .obj members => getItem members "data"
  | _ => .error (.py .typeError)

def readLine (line : Text) : Except OpenError Received := do
  let v ← loadLine K line
  let data ← getData v
  decode K data

/-- `_run`, of the lines of the response; an empty line keeps the connection alive. -/
def run : List Text → List Listener → List Listener × Option OpenError
  | [], ls => (ls, none)
  | line :: lines, ls =>
    if line = [] then run lines ls
    else
      match readLine K line with
      | .error e => (ls, some e)
      | .ok r =>
        match (serve C r ls).2 with
        | none => run lines (serve C r ls).1
        | some e => ((serve C r ls).1, some e)

end StreamingRequestTask

/-- A line of the broker, of a text. -/
def streamLine (data : Text) : Text :=
  chr '\x7b' :: dumpString (text "data") ++ text ": " ++ dumpString data ++ [chr '\x7d']

/-! ## What the listeners get -/

/-- The app keeps what the listener makes of an offer. -/
theorem toEntry_eq (C : Crypto) (market : TokenPair) (m : ProvenOffer) :
    ProvenOffer.toEntry C market m = (offerEntry C market m).toOption := by
  unfold ProvenOffer.toEntry offerEntry
  cases market.getOfferType m.offer.askToken m.offer.bidToken with
  | none => rfl
  | some type => cases sender C m <;> rfl

/-- The offer is of the market, and its sender can be recovered. -/
structure Acceptable (C : Crypto) (market : TokenPair) (m : ProvenOffer) : Prop where
  pair : m.offer.askToken = market.baseToken ∧ m.offer.bidToken = market.quoteToken ∨
    m.offer.askToken = market.quoteToken ∧ m.offer.bidToken = market.baseToken
  signed : ∃ s a, m.signature = some s ∧ C.recover s (hashWithoutSignature C m) = some a

section

variable {C : Crypto} {market : TokenPair} {m : ProvenOffer} {kind : ListenerKind} {r : Received}

theorem getOfferType_isSome_iff (market : TokenPair) (askToken bidToken : Address) :
    (market.getOfferType askToken bidToken).isSome = true ↔
      askToken = market.baseToken ∧ bidToken = market.quoteToken ∨
      askToken = market.quoteToken ∧ bidToken = market.baseToken := by
  unfold TokenPair.getOfferType
  split
  next h => simpa using .inl (by simpa using h)
  next h =>
    split
    next h' => simpa using .inr (by simpa using h')
    next h' => simp_all

theorem sender_ok_iff : (∃ a, sender C m = .ok a) ↔
    ∃ s a, m.signature = some s ∧ C.recover s (hashWithoutSignature C m) = some a := by
  unfold sender
  have hsignature : Signed.signature m = m.signature := rfl
  rw [hsignature]
  cases m.signature with
  | none => simp
  | some s => cases hrecover : C.recover s (hashWithoutSignature C m) <;> simp [hrecover]

theorem offerEntry_ok_iff : (∃ e, offerEntry C market m = .ok e) ↔ Acceptable C market m := by
  have htype := getOfferType_isSome_iff market m.offer.askToken m.offer.bidToken
  unfold offerEntry
  constructor
  · rintro ⟨e, h⟩
    split at h
    · cases h
    next hget =>
      rw [hget] at htype
      refine ⟨htype.mp rfl, sender_ok_iff.mp ?_⟩
      cases hsender : sender C m with
      | error e => rw [hsender] at h; cases h
      | ok a => exact ⟨a, rfl⟩
  · rintro ⟨hpair, hsigned⟩
    obtain ⟨type, hget⟩ := Option.isSome_iff_exists.mp (htype.mpr hpair)
    obtain ⟨a, hsender⟩ := sender_ok_iff.mpr hsigned
    rw [hget, hsender]
    exact ⟨_, rfl⟩

theorem transform_offer : (∃ x, (ListenerKind.offer market).transform C
    (.message ⟨.provenOffer, m⟩) = .ok x) ↔ Acceptable C market m := by
  have heq : (ListenerKind.offer market).transform C (.message ⟨.provenOffer, m⟩) =
      (offerEntry C market m).map fun e => some (.entry e) := rfl
  rw [← offerEntry_ok_iff, heq]
  cases offerEntry C market m with
  | ok e => exact iff_of_true ⟨_, rfl⟩ ⟨e, rfl⟩
  | error e => exact iff_of_false (by rintro ⟨_, ⟨⟩⟩) (by rintro ⟨_, ⟨⟩⟩)

theorem transform_ok (h : ∀ market m, kind = .offer market → r ≠ .message ⟨.provenOffer, m⟩) :
    ∃ x, kind.transform C r = .ok x := by
  unfold ListenerKind.transform
  split
  case h_5 market m => exact absurd rfl (h market m rfl)
  all_goals exact ⟨_, rfl⟩

/-- Only the `OfferListener` refuses messages. -/
theorem transform_ok_iff : (∃ x, kind.transform C r = .ok x) ↔
    ∀ market m, kind = .offer market → r = .message ⟨.provenOffer, m⟩ → Acceptable C market m := by
  constructor
  · rintro h market m rfl rfl
    exact transform_offer.mp h
  · intro h
    by_cases hoffer : ∃ market m, kind = .offer market ∧ r = .message ⟨.provenOffer, m⟩
    · obtain ⟨market, m, rfl, rfl⟩ := hoffer
      exact transform_offer.mpr (h market m rfl rfl)
    · exact transform_ok fun market m hkind hr => hoffer ⟨market, m, hkind, hr⟩

end

namespace StreamingRequestTask

variable {C : Crypto} {K : Codec} {r : Received} {ls : List Listener} {line : Text}
  {lines : List Text}

theorem serve_eq_none_iff :
    (serve C r ls).2 = none ↔ ∀ l ∈ ls, ∃ x, l.kind.transform C r = .ok x := by
  induction ls with
  | nil => simp [serve]
  | cons l ls ih =>
    rw [serve, List.forall_mem_cons]
    cases l.kind.transform C r with
    | error e => simp
    | ok x => simpa using ih

end StreamingRequestTask

/-- What a listener of some kind gets of a line. -/
def handed (C : Crypto) (K : Codec) (kind : ListenerKind) (line : Text) : Option Delivered :=
  (StreamingRequestTask.readLine K line >>= kind.transform C).toOption.join

namespace StreamingRequestTask

variable {C : Crypto} {K : Codec} {r : Received} {ls : List Listener} {line : Text}
  {lines : List Text}

theorem serve_eq (hread : readLine K line = .ok r) (h : (serve C r ls).2 = none) :
    (serve C r ls).1 = ls.map fun l => l.put (handed C K l.kind line) := by
  induction ls with
  | nil => rfl
  | cons l ls ih =>
    have hhanded : handed C K l.kind line = (l.kind.transform C r).toOption.join := by
      rw [handed, hread]
      rfl
    rw [serve] at h ⊢
    rw [List.map_cons, hhanded]
    cases hx : l.kind.transform C r with
    | error e => rw [hx] at h; cases h
    | ok x =>
      rw [hx] at h
      exact congrArg₂ List.cons rfl (ih h)

/-- No listener refuses what can be read of a line. -/
def Serves (C : Crypto) (K : Codec) (kinds : List ListenerKind) (line : Text) : Prop :=
  ∃ r, readLine K line = .ok r ∧ ∀ kind ∈ kinds, ∃ x, kind.transform C r = .ok x

theorem run_cons (hline : line ≠ []) (hread : readLine K line = .ok r)
    (hserve : (serve C r ls).2 = none) :
    run C K (line :: lines) ls = run C K lines (serve C r ls).1 := by
  simp only [run, if_neg hline, hread, hserve]

theorem run_dies (hline : line ≠ []) (h : ¬ Serves C K (ls.map Listener.kind) line) :
    (run C K (line :: lines) ls).2 ≠ none := by
  rw [run, if_neg hline]
  cases hread : readLine K line with
  | error e => exact Option.some_ne_none e
  | ok r =>
    cases hserve : (serve C r ls).2 with
    | some e => simp [hserve]
    | none => exact absurd ⟨r, hread, List.forall_mem_map.mpr (serve_eq_none_iff.mp hserve)⟩ h

/-- A line that is served adds to the queues and leaves the listeners. -/
theorem run_serves (hline : line ≠ []) (h : Serves C K (ls.map Listener.kind) line) :
    run C K (line :: lines) ls =
      run C K lines (ls.map fun l => l.put (handed C K l.kind line)) := by
  obtain ⟨r, hread, hkinds⟩ := h
  have hserve : (serve C r ls).2 = none :=
    serve_eq_none_iff.mpr fun l hl => hkinds l.kind (List.mem_map_of_mem hl)
  rw [run_cons hline hread hserve, serve_eq hread hserve]

theorem map_kind_put (f : ListenerKind → Option Delivered) :
    (ls.map fun l => l.put (f l.kind)).map Listener.kind = ls.map Listener.kind := by
  rw [List.map_map]
  rfl

theorem run_eq_none_iff (hlines : ∀ line ∈ lines, line ≠ []) :
    (run C K lines ls).2 = none ↔ ∀ line ∈ lines, Serves C K (ls.map Listener.kind) line := by
  induction lines generalizing ls with
  | nil => simp [run]
  | cons line lines ih =>
    rw [List.forall_mem_cons] at hlines ⊢
    by_cases h : Serves C K (ls.map Listener.kind) line
    · rw [run_serves hlines.1 h, ih hlines.2, map_kind_put fun kind => handed C K kind line]
      exact ⟨fun hrest => ⟨h, hrest⟩, And.right⟩
    · exact iff_of_false (run_dies hlines.1 h) fun hall => h hall.1

theorem run_eq (hlines : ∀ line ∈ lines, line ≠ [])
    (h : ∀ line ∈ lines, Serves C K (ls.map Listener.kind) line) :
    (run C K lines ls).1 = ls.map fun l =>
      { l with messageQueue := l.messageQueue ++ lines.filterMap (handed C K l.kind) } := by
  induction lines generalizing ls with
  | nil => simp [run]
  | cons line lines ih =>
    rw [List.forall_mem_cons] at hlines h
    rw [run_serves hlines.1 h.1, ih hlines.2]
    · rw [List.map_map]
      refine List.map_congr_left ?_
      intro l _
      cases hhanded : handed C K l.kind line <;> simp [Listener.put, hhanded]
    · rw [map_kind_put fun kind => handed C K kind line]
      exact h.2

end StreamingRequestTask

section

variable {C : Crypto} {K : Codec} {data : Text}

open StreamingRequestTask

theorem readLine_streamLine (K : Codec) (data : Text) :
    readLine K (streamLine data) = decode K (.str (joinSurrogates data)) := by
  have hkey : joinSurrogates (text "data") = text "data" := by decide
  have hload : loadLine K (streamLine data) =
      .ok (.obj [(text "data", .str (joinSurrogates data))]) := by
    rw [loadLine, streamLine, Json.loads_singleton, hkey]
  rw [readLine, hload]
  rfl

theorem decode_eq_ok {r : Received} : decode K (.str data) = .ok r ↔
    (∃ m, r = .message m ∧ Carries K data m) ∨ r = .raw (.str data) ∧ Refused K data := by
  rw [← openEnvelope_refuses]
  simp only [← openEnvelope_eq_ok]
  unfold decode
  cases openEnvelope K (.str data) with
  | ok m => simp [eq_comm]
  | error e =>
    by_cases he : e = .py .valueError
    · simp [he, OpenError.isValueError, eq_comm]
    · simp [he, OpenError.isValueError]

theorem serves_iff {kinds : List ListenerKind} : Serves C K kinds (streamLine data) ↔
    (Refused K (joinSurrogates data) ∨ ∃ m, Carries K (joinSurrogates data) m) ∧
    ∀ market m, .offer market ∈ kinds → Carries K (joinSurrogates data) ⟨.provenOffer, m⟩ →
      Acceptable C market m := by
  unfold Serves
  simp only [readLine_streamLine, decode_eq_ok, transform_ok_iff]
  constructor
  · rintro ⟨r, ⟨m, rfl, hm⟩ | ⟨rfl, hrefused⟩, hkinds⟩
    · refine ⟨.inr ⟨m, hm⟩, ?_⟩
      intro market m' hmem hm'
      exact hkinds _ hmem market m' rfl (congrArg Received.message (hm.unique hm'))
    · exact ⟨.inl hrefused, fun market m' _ hm' => absurd hm' (hrefused.not_carries _)⟩
  · rintro ⟨hrefused | ⟨m, hm⟩, haccept⟩
    · exact ⟨_, .inr ⟨rfl, hrefused⟩, by rintro _ _ _ _ _ ⟨⟩⟩
    · refine ⟨_, .inl ⟨m, rfl, hm⟩, ?_⟩
      rintro _ hmem market m' rfl heq
      obtain rfl : m = ⟨.provenOffer, m'⟩ := Received.message.inj heq
      exact haccept market m' hmem hm

theorem streamLine_ne_nil (data : Text) : streamLine data ≠ [] := List.cons_ne_nil _ _

theorem topic_served_iff (C : Crypto) (K : Codec) (kinds : List ListenerKind) (data : List Text) :
    (run C K (data.map streamLine) (kinds.map .new) =
        (kinds.map fun kind =>
          { kind := kind, messageQueue := (data.map streamLine).filterMap (handed C K kind) },
          none) ∧
      ∀ s ∈ data, readLine K (streamLine s) = .ok (.raw (.str (joinSurrogates s))) ∨
        ∃ m, Carries K (joinSurrogates s) m ∧ readLine K (streamLine s) = .ok (.message m)) ↔
    ∀ s ∈ data, (Refused K (joinSurrogates s) ∨ ∃ m, Carries K (joinSurrogates s) m) ∧
      ∀ market m, .offer market ∈ kinds → Carries K (joinSurrogates s) ⟨.provenOffer, m⟩ →
        Acceptable C market m := by
  have hlines : ∀ line ∈ data.map streamLine, line ≠ [] :=
    List.forall_mem_map.mpr fun s _ => streamLine_ne_nil s
  have hkinds : (kinds.map Listener.new).map Listener.kind = kinds := by
    rw [List.map_map]
    exact List.map_id kinds
  have hserves : (run C K (data.map streamLine) (kinds.map .new)).2 = none ↔
      ∀ s ∈ data, Serves C K kinds (streamLine s) := by
    rw [run_eq_none_iff hlines, hkinds, List.forall_mem_map]
  simp only [← serves_iff]
  constructor
  · rintro ⟨hrun, -⟩
    exact hserves.mp (congrArg Prod.snd hrun)
  · intro h
    refine ⟨Prod.ext ?_ (hserves.mpr h), fun s hs => ?_⟩
    · rw [run_eq hlines (hkinds.symm ▸ List.forall_mem_map.mpr h), List.map_map]
      rfl
    · rw [readLine_streamLine]
      rcases (serves_iff.mp (h s hs)).1 with hrefused | ⟨m, hm⟩
      · exact .inl (decode_eq_ok.mpr (.inr ⟨rfl, hrefused⟩))
      · exact .inr ⟨m, hm, decode_eq_ok.mpr (.inl ⟨m, rfl, hm⟩)⟩

end

/-- A number is JSON, and no envelope: the assertion kills the task, and the next line is lost. -/
theorem number_cuts_topic :
    let served := StreamingRequestTask.run .plain
      { recursionLimit := 900, decodeRlp := fun _ => none, deserialize := fun _ _ => none }
      ([text "5", text "hello"].map streamLine) [.new .message]
    served.2 = some .assertionError ∧ served.1.map (fun l => l.messageQueue.length) = [0] := by
  decide +kernel

end RaidexNode
end Raidex
