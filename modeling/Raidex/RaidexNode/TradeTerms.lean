import Raidex.RaidexNode.App

/-!
# Raidex.RaidexNode.TradeTerms

The trade that an offer stands for, on both machines: what its message says, what the taker
decodes from it, and what each side pays.

* `createOfferMsg`, `OfferMsg.swapOffer?`: the message of an offer, and the fields it can carry.
* `FitsMessage`: the offers that have a message.
* `toEntry_provenOfferMsg`: decoding the broadcast gives the offer back.
* `same_trade`: it has a message then, both sides commit to the same hash, and pay what the message
  says.
-/

namespace Raidex
namespace RaidexNode

/-- A `SwapOffer` is made without a look at its fields; serializing it looks. -/
structure OfferMsg where
  askToken : Address
  askAmount : Number
  bidToken : Address
  bidAmount : Number
  offerId : Nat
  timeout : Nat
  deriving DecidableEq

/-- `_create_offer_msg` -/
def createOfferMsg (offer : BasicOffer Number) (market : TokenPair) : OfferMsg :=
  match offer.type with
  | .sell => { askToken := market.quoteToken, askAmount := offer.quoteAmount
               bidToken := market.baseToken, bidAmount := offer.baseAmount
               offerId := offer.offerId, timeout := offer.timeoutDate }
  | .buy => { askToken := market.baseToken, askAmount := offer.baseAmount
              bidToken := market.quoteToken, bidAmount := offer.quoteAmount
              offerId := offer.offerId, timeout := offer.timeoutDate }

/-- What `BigEndianInt(l)` serializes: an `int` that is not negative and has at most `l` bytes. -/
def bigEndianInt? (l : Nat) : Number → Option Nat
  | .int n => if 0 ≤ n ∧ n.toNat < 256 ^ l then some n.toNat else none
  | .float _ => none

/-- The fields that go on the wire; `none` where serializing raises. -/
def OfferMsg.swapOffer? (m : OfferMsg) : Option SwapOffer := do
  let askAmount ← bigEndianInt? 256 m.askAmount
  let bidAmount ← bigEndianInt? 256 m.bidAmount
  let offerId ← bigEndianInt? 32 (.int m.offerId)
  let timeout ← bigEndianInt? 256 (.int m.timeout)
  return { askToken := m.askToken, askAmount := askAmount, bidToken := m.bidToken,
           bidAmount := bidAmount, offerId := offerId, timeout := timeout }

/-- `hash` -/
def OfferMsg.hash? (C : Crypto) (m : OfferMsg) : Option Hash := m.swapOffer?.map (SwapOffer.hash C)

section

variable (C : Crypto) (sign : Hash → Signature)

/-- The message of a `CommitmentEvent`, before it is signed. -/
def commitmentMsg (offer : BasicOffer Number) (commitmentAmount : Nat) (market : TokenPair) :
    Option Commitment := do
  let offerHash ← (createOfferMsg offer market).hash? C
  return { offerId := offer.offerId, offerHash := offerHash, timeout := offer.timeoutDate,
           amount := commitmentAmount, signature := none }

/-- The signed message of a `SendProvenOfferEvent`; signing serializes it, with its proof. -/
def provenOfferMsg (offer : BasicOffer Number) (proof : CommitmentProof) (market : TokenPair) :
    Option ProvenOffer := do
  let offerMsg ← (createOfferMsg offer market).swapOffer?
  let _ ← bigEndianInt? 32 (.int proof.offerId)
  let m : ProvenOffer := { offer := offerMsg, commitmentProof := proof, signature := none }
  return { m with signature := some (sign (hashWithoutSignature C m)) }

end

/-- `get_token_from_market`, of a match whose offer is `o`. -/
def Match.getTokenFromMarket (toChecksumAddress : Address → String) (m : Match) (o : Offer)
    (market : TokenPair) : String :=
  if m.isMaker && o.isBuy || m.isTaker && o.isSell then toChecksumAddress market.quoteToken
  else toChecksumAddress market.baseToken

/-- The arguments of a `transfer`. -/
structure Transfer where
  tokenAddress : String
  targetAddress : Address
  amount : Number
  identifier : Nat
  secret : Hash
  secretHash : Hash

/-- The transfer that `initiate_exchange` makes, for a match whose offer is `o`. -/
def Match.initiateExchange (toChecksumAddress : Address → String) (m : Match) (o : Offer)
    (market : TokenPair) : Transfer where
  tokenAddress := m.getTokenFromMarket toChecksumAddress o market
  targetAddress := m.target
  amount := m.getSendAmount o
  identifier := o.offerId
  secret := m.getSecret
  secretHash := m.getSecretHash

/-! ## Encoding -/

section

variable {offer : BasicOffer Number} {market : TokenPair} {s : SwapOffer}

theorem bigEndianInt?_eq_some {l n : Nat} {a : Number} :
    bigEndianInt? l a = some n ↔ a = .int n ∧ n < 256 ^ l := by
  constructor
  · intro h
    cases a with
    | float f => cases h
    | int i =>
      simp only [bigEndianInt?] at h
      split at h
      next hi =>
        obtain rfl : i.toNat = n := Option.some.inj h
        have hcast : (i.toNat : Int) = i := Int.toNat_of_nonneg hi.1
        exact ⟨by rw [hcast], hi.2⟩
      next => exact absurd h (Option.some_ne_none n).symm
  · rintro ⟨rfl, hn⟩
    exact if_pos ⟨Int.natCast_nonneg n, hn⟩

/-- A message that can be serialized has integers that fit its fields. -/
theorem swapOffer?_eq_some {m : OfferMsg} : m.swapOffer? = some s ↔
    m = { askToken := s.askToken, askAmount := .int s.askAmount, bidToken := s.bidToken
          bidAmount := .int s.bidAmount, offerId := s.offerId, timeout := s.timeout } ∧
      s.askAmount < 256 ^ 256 ∧ s.bidAmount < 256 ^ 256 ∧ s.offerId < 256 ^ 32 ∧
      s.timeout < 256 ^ 256 := by
  unfold OfferMsg.swapOffer?
  simp only [Option.bind_eq_bind, Option.bind_eq_some_iff, Option.pure_def, Option.some.injEq]
  obtain ⟨askToken, ask, bidToken, bid, id, date⟩ := m
  constructor
  · rintro ⟨askAmount, hask, bidAmount, hbid, offerId, hid, timeout, htimeout, rfl⟩
    obtain ⟨rfl, hasklt⟩ := bigEndianInt?_eq_some.mp hask
    obtain ⟨rfl, hbidlt⟩ := bigEndianInt?_eq_some.mp hbid
    obtain ⟨hid, hidlt⟩ := bigEndianInt?_eq_some.mp hid
    obtain ⟨hdate, hdatelt⟩ := bigEndianInt?_eq_some.mp htimeout
    have hid' : id = offerId := Int.ofNat_inj.mp (Number.int.inj hid)
    have hdate' : date = timeout := Int.ofNat_inj.mp (Number.int.inj hdate)
    exact ⟨by rw [hid', hdate'], hasklt, hbidlt, hidlt, hdatelt⟩
  · rintro ⟨hm, hask, hbid, hid, htimeout⟩
    cases hm
    exact ⟨_, bigEndianInt?_eq_some.mpr ⟨rfl, hask⟩, _, bigEndianInt?_eq_some.mpr ⟨rfl, hbid⟩,
      _, bigEndianInt?_eq_some.mpr ⟨rfl, hid⟩, _, bigEndianInt?_eq_some.mpr ⟨rfl, htimeout⟩, rfl⟩

/-- The terms of an offer, from its message. -/
theorem createOfferMsg_some (h : (createOfferMsg offer market).swapOffer? = some s) :
    s.offerId = offer.offerId ∧ s.timeout = offer.timeoutDate ∧
      (offer.type = .buy ∧ s.askToken = market.baseToken ∧ s.bidToken = market.quoteToken ∧
        offer.baseAmount = .int s.askAmount ∧ offer.quoteAmount = .int s.bidAmount ∨
      offer.type = .sell ∧ s.askToken = market.quoteToken ∧ s.bidToken = market.baseToken ∧
        offer.baseAmount = .int s.bidAmount ∧ offer.quoteAmount = .int s.askAmount) := by
  have hmsg := (swapOffer?_eq_some.mp h).1
  unfold createOfferMsg at hmsg
  cases ht : offer.type with
  | buy =>
    rw [ht] at hmsg
    simp only [OfferMsg.mk.injEq] at hmsg
    obtain ⟨hask, hbase, hbid, hquote, hid, hdate⟩ := hmsg
    exact ⟨hid.symm, hdate.symm, .inl ⟨rfl, hask.symm, hbid.symm, hbase, hquote⟩⟩
  | sell =>
    rw [ht] at hmsg
    simp only [OfferMsg.mk.injEq] at hmsg
    obtain ⟨hask, hquote, hbid, hbase, hid, hdate⟩ := hmsg
    exact ⟨hid.symm, hdate.symm, .inr ⟨rfl, hask.symm, hbid.symm, hbase, hquote⟩⟩

/-- The amounts are integers, and they, the id and the timeout fit their fields. -/
structure FitsMessage (offer : BasicOffer Number) : Prop where
  baseAmount : ∃ n : Nat, offer.baseAmount = .int n ∧ n < 256 ^ 256
  quoteAmount : ∃ n : Nat, offer.quoteAmount = .int n ∧ n < 256 ^ 256
  offerId : offer.offerId < 256 ^ 32
  timeoutDate : offer.timeoutDate < 256 ^ 256

/-- The offers that have a message. -/
theorem swapOffer?_isSome_iff :
    (createOfferMsg offer market).swapOffer?.isSome = true ↔ FitsMessage offer := by
  constructor
  · intro h
    obtain ⟨s, hs⟩ := Option.isSome_iff_exists.mp h
    obtain ⟨-, hask, hbid, hidlt, hdatelt⟩ := swapOffer?_eq_some.mp hs
    obtain ⟨hid, hdate, ⟨-, -, -, hbase, hquote⟩ | ⟨-, -, -, hbase, hquote⟩⟩ :=
      createOfferMsg_some hs
    · exact ⟨⟨_, hbase, hask⟩, ⟨_, hquote, hbid⟩, hid ▸ hidlt, hdate ▸ hdatelt⟩
    · exact ⟨⟨_, hbase, hbid⟩, ⟨_, hquote, hask⟩, hid ▸ hidlt, hdate ▸ hdatelt⟩
  · rintro ⟨⟨base, hbase, hbaselt⟩, ⟨quote, hquote, hquotelt⟩, hidlt, hdatelt⟩
    refine Option.isSome_iff_exists.mpr ?_
    unfold createOfferMsg
    rw [hbase, hquote]
    cases offer.type with
    | buy =>
      exact ⟨{ askToken := market.baseToken, askAmount := base, bidToken := market.quoteToken,
               bidAmount := quote, offerId := offer.offerId, timeout := offer.timeoutDate },
        swapOffer?_eq_some.mpr ⟨rfl, hbaselt, hquotelt, hidlt, hdatelt⟩⟩
    | sell =>
      exact ⟨{ askToken := market.quoteToken, askAmount := quote, bidToken := market.baseToken,
               bidAmount := base, offerId := offer.offerId, timeout := offer.timeoutDate },
        swapOffer?_eq_some.mpr ⟨rfl, hquotelt, hbaselt, hidlt, hdatelt⟩⟩

end

/-! ## Both sides -/

section

variable {C : Crypto} {sign : Hash → Signature} {maker : Address} {offer : BasicOffer Number}
  {proof : CommitmentProof} {market : TokenPair} {m : ProvenOffer}

theorem provenOfferMsg_some (h : provenOfferMsg C sign offer proof market = some m) :
    (createOfferMsg offer market).swapOffer? = some m.offer ∧ m.commitmentProof = proof ∧
      m.signature = some (sign (hashWithoutSignature C m)) := by
  unfold provenOfferMsg at h
  simp only [Option.bind_eq_bind, Option.bind_eq_some_iff, Option.pure_def, Option.some.injEq] at h
  obtain ⟨s, hs, _, -, rfl⟩ := h
  exact ⟨hs, rfl, rfl⟩

/-- The message of an offer can be signed exactly when the offer and the id of the proof fit their
fields. -/
theorem provenOfferMsg_isSome_iff : (provenOfferMsg C sign offer proof market).isSome = true ↔
    FitsMessage offer ∧ proof.offerId < 256 ^ 32 := by
  have hproof : (bigEndianInt? 32 (.int proof.offerId)).isSome = true ↔
      proof.offerId < 256 ^ 32 := by
    constructor
    · intro h
      obtain ⟨n, hn⟩ := Option.isSome_iff_exists.mp h
      obtain ⟨hid, hlt⟩ := bigEndianInt?_eq_some.mp hn
      rwa [Int.ofNat_inj.mp (Number.int.inj hid)]
    · intro h
      exact Option.isSome_iff_exists.mpr ⟨_, bigEndianInt?_eq_some.mpr ⟨rfl, h⟩⟩
  have hoffer : (createOfferMsg offer market).swapOffer?.isSome = true ↔ FitsMessage offer :=
    swapOffer?_isSome_iff
  rw [← hproof, ← hoffer]
  unfold provenOfferMsg
  cases (createOfferMsg offer market).swapOffer? with
  | none => simp
  | some s => cases bigEndianInt? 32 (.int proof.offerId) <;> simp

/-- Decoding the broadcast of an offer gives the offer back. -/
theorem toEntry_provenOfferMsg (hsign : ∀ h, C.recover (sign h) h = some maker)
    (hmarket : market.baseToken ≠ market.quoteToken)
    (h : provenOfferMsg C sign offer proof market = some m) :
    ∃ e, ProvenOffer.toEntry C market m = some e ∧ e.takeOffer = offer ∧ e.initiator = maker ∧
      e.commitmentProof = proof := by
  obtain ⟨hoffer, hproof, hsignature⟩ := provenOfferMsg_some h
  obtain ⟨hid, htimeout, hterms⟩ := createOfferMsg_some hoffer
  have hsender : sender C m = .ok maker := by
    have hs : Signed.signature m = some (sign (hashWithoutSignature C m)) := hsignature
    simp only [sender, hs, hsign]
  obtain ⟨id, type, base, quote, date⟩ := offer
  rcases hterms with ⟨rfl, hask, hbid, hbase, hquote⟩ | ⟨rfl, hask, hbid, hbase, hquote⟩
  · have htype : market.getOfferType m.offer.askToken m.offer.bidToken = some .buy := by
      simp [TokenPair.getOfferType, hask, hbid]
    simp only at hid htimeout hbase hquote
    have hentry : ProvenOffer.toEntry C market m = some
        { offer := { offerId := m.offer.offerId, type := .buy, baseAmount := m.offer.askAmount,
                     quoteAmount := m.offer.bidAmount, timeoutDate := m.offer.timeout }
          initiator := maker, commitmentProof := m.commitmentProof } := by
      simp only [ProvenOffer.toEntry, htype, hsender]
    refine ⟨_, hentry, ?_, rfl, hproof⟩
    simp only [OfferBookEntry.takeOffer, hid, htimeout, hbase, hquote]
  · have htype : market.getOfferType m.offer.askToken m.offer.bidToken = some .sell := by
      simp [TokenPair.getOfferType, hask, hbid, hmarket.symm]
    simp only at hid htimeout hbase hquote
    have hentry : ProvenOffer.toEntry C market m = some
        { offer := { offerId := m.offer.offerId, type := .sell, baseAmount := m.offer.bidAmount,
                     quoteAmount := m.offer.askAmount, timeoutDate := m.offer.timeout }
          initiator := maker, commitmentProof := m.commitmentProof } := by
      simp only [ProvenOffer.toEntry, htype, hsender]
    refine ⟨_, hentry, ?_, rfl, hproof⟩
    simp only [OfferBookEntry.takeOffer, hid, htimeout, hbase, hquote]

/-- What the maker's match of an offer pays is what the message bids. -/
theorem maker_pays {s : SwapOffer} {o : Offer} (toChecksumAddress : Address → String)
    (h : (createOfferMsg o.toBasicOffer market).swapOffer? = some s) {mk : Match}
    (hmk : mk.traderRole = .maker) :
    mk.getTokenFromMarket toChecksumAddress o market = toChecksumAddress s.bidToken ∧
      mk.getSendAmount o = .int s.bidAmount := by
  obtain ⟨-, -, ⟨ht, -, hbid, hbase, hquote⟩ | ⟨ht, -, hbid, hbase, hquote⟩⟩ :=
    createOfferMsg_some h
  · simp [Match.getTokenFromMarket, Match.getSendAmount, Match.isMaker, Match.isTaker, Offer.isBuy,
      Offer.isSell, hmk, ht, hbid, hquote]
  · simp [Match.getTokenFromMarket, Match.getSendAmount, Match.isMaker, Match.isTaker, Offer.isBuy,
      Offer.isSell, hmk, ht, hbid, hbase]

theorem taker_pays {s : SwapOffer} {o : Offer} (toChecksumAddress : Address → String)
    (h : (createOfferMsg o.toBasicOffer market).swapOffer? = some s) {mt : Match}
    (hmt : mt.traderRole = .taker) :
    mt.getTokenFromMarket toChecksumAddress o market = toChecksumAddress s.askToken ∧
      mt.getSendAmount o = .int s.askAmount := by
  obtain ⟨-, -, ⟨ht, hask, -, hbase, hquote⟩ | ⟨ht, hask, -, hbase, hquote⟩⟩ :=
    createOfferMsg_some h
  · simp [Match.getTokenFromMarket, Match.getSendAmount, Match.isMaker, Match.isTaker, Offer.isBuy,
      Offer.isSell, hmt, ht, hask, hbase]
  · simp [Match.getTokenFromMarket, Match.getSendAmount, Match.isMaker, Match.isTaker, Offer.isBuy,
      Offer.isSell, hmt, ht, hask, hquote]

end

theorem commitmentMsg_eq {C : Crypto} {offer : BasicOffer Number} {market : TokenPair}
    {s : SwapOffer} (h : (createOfferMsg offer market).swapOffer? = some s) (amount : Nat) :
    commitmentMsg C offer amount market =
      some { offerId := offer.offerId, offerHash := s.hash C, timeout := offer.timeoutDate,
             amount := amount, signature := none } := by
  simp only [commitmentMsg, OfferMsg.hash?, h]
  rfl

/-- Maker and taker settle the same trade: an offer that fits the fields of its message has one, the
taker decodes the offer from it and encodes it to the same message, both commit to the same hash,
and each side pays what the message says. `sign` is the maker's, and messages are signed when they
are sent. -/
theorem same_trade (C : Crypto) (toChecksumAddress : Address → String) (sign : Hash → Signature)
    (maker : Address) (hsign : ∀ h, C.recover (sign h) h = some maker) (market : TokenPair)
    (hmarket : market.baseToken ≠ market.quoteToken) (o : Offer)
    (hfits : FitsMessage o.toBasicOffer)
    (proof : CommitmentProof) (hproof : proof.offerId < 256 ^ 32) :
    ∃ m e, provenOfferMsg C sign o.toBasicOffer proof market = some m ∧
      ProvenOffer.toEntry C market m = some e ∧ e.takeOffer = o.toBasicOffer ∧
      (createOfferMsg e.takeOffer market).swapOffer? = some m.offer ∧
      (createOfferMsg o.toBasicOffer market).swapOffer? = some m.offer ∧
      (∀ makerAmount takerAmount, ∃ c c',
        commitmentMsg C o.toBasicOffer makerAmount market = some c ∧
        commitmentMsg C e.takeOffer takerAmount market = some c' ∧
        c.offerHash = c'.offerHash ∧ c.offerHash = m.offer.hash C) ∧
      (∀ r target p,
        (makerMatch (some r) target p).getTokenFromMarket toChecksumAddress o market =
          toChecksumAddress m.offer.bidToken ∧
        (makerMatch (some r) target p).getSendAmount o = .int m.offer.bidAmount) ∧
      ∀ r isModel,
        (takerMatch r e).getTokenFromMarket toChecksumAddress (.new e.takeOffer .taker isModel)
          market = toChecksumAddress m.offer.askToken ∧
        (takerMatch r e).getSendAmount (.new e.takeOffer .taker isModel) =
          .int m.offer.askAmount := by
  have hsome : (provenOfferMsg C sign o.toBasicOffer proof market).isSome = true :=
    provenOfferMsg_isSome_iff.mpr ⟨hfits, hproof⟩
  obtain ⟨m, hm⟩ := Option.isSome_iff_exists.mp hsome
  obtain ⟨e, hentry, hcopy, -, -⟩ := toEntry_provenOfferMsg hsign hmarket hm
  obtain ⟨hmsg, -, -⟩ := provenOfferMsg_some hm
  have hmsg' : (createOfferMsg e.takeOffer market).swapOffer? = some m.offer := hcopy ▸ hmsg
  exact ⟨m, e, hm, hentry, hcopy, hmsg', hmsg,
    fun _ _ => ⟨_, _, commitmentMsg_eq hmsg _, commitmentMsg_eq hmsg' _, rfl, rfl⟩,
    fun r target p => maker_pays toChecksumAddress hmsg rfl,
    fun r isModel => taker_pays toChecksumAddress hmsg' rfl⟩

/-- A `SELL` of `10` for `20`, offered by address `4`. -/
def soldOffer : Offer where
  offerId := 7
  type := .sell
  baseAmount := .int 10
  quoteAmount := .int 20
  timeoutDate := 100
  traderRole := .maker
  proof := none
  isModel := true
  state := .openProved

def soldProof : CommitmentProof where
  commitmentSig := none
  secret := 3
  secretHash := 3
  offerId := 7
  signature := some 9

/-- Its message asks for `20` of the quote token. -/
theorem sold_same_trade : ∃ m e,
    provenOfferMsg .plain (fun _ => 4) soldOffer.toBasicOffer soldProof
      { baseToken := 1, quoteToken := 2 } = some m ∧
    m.offer = { askToken := 2, askAmount := 20, bidToken := 1, bidAmount := 10, offerId := 7,
                timeout := 100 } ∧
    ProvenOffer.toEntry .plain { baseToken := 1, quoteToken := 2 } m = some e ∧
    e.takeOffer = soldOffer.toBasicOffer ∧
    (takerMatch 0 e).getTokenFromMarket (fun a => toString a.toNat) (.new e.takeOffer .taker true)
      { baseToken := 1, quoteToken := 2 } = "2" := by
  have hsign (h : Hash) : Crypto.plain.recover 4 h = some 4 := by
    show some ((4 : Signature).setWidth 160) = some 4
    decide +kernel
  have hfits : FitsMessage soldOffer.toBasicOffer :=
    ⟨⟨10, rfl, by decide +kernel⟩, ⟨20, rfl, by decide +kernel⟩, by decide +kernel,
      by decide +kernel⟩
  obtain ⟨m, e, hm, hentry, hcopy, -, hmsg, -, -, htaker⟩ := same_trade .plain
    (fun a => toString a.toNat) (fun _ => 4) 4 hsign { baseToken := 1, quoteToken := 2 }
    (by decide) soldOffer hfits soldProof (by decide +kernel)
  have hoffer : m.offer = { askToken := 2, askAmount := 20, bidToken := 1, bidAmount := 10,
                            offerId := 7, timeout := 100 } :=
    Option.some.inj (hmsg.symm.trans (by decide +kernel))
  exact ⟨m, e, hm, hoffer, hentry, hcopy, (htaker 0 true).1.trans (by rw [hoffer]; decide)⟩

/-- The `10` are a `float`, as `LimitOrders.post` lets them be. -/
def floatOffer : Offer := { soldOffer with baseAmount := .float (Float.Model.ofInt 10) }

/-- It has no message that could be decoded, and no hash to commit to. -/
theorem float_offer_unsent :
    (¬ ∃ m e, provenOfferMsg .plain (fun _ => 4) floatOffer.toBasicOffer soldProof
        { baseToken := 1, quoteToken := 2 } = some m ∧
      ProvenOffer.toEntry .plain { baseToken := 1, quoteToken := 2 } m = some e ∧
      e.takeOffer = floatOffer.toBasicOffer) ∧
    commitmentMsg .plain floatOffer.toBasicOffer 10 { baseToken := 1, quoteToken := 2 } = none := by
  have hnone : provenOfferMsg .plain (fun _ => 4) floatOffer.toBasicOffer soldProof
      { baseToken := 1, quoteToken := 2 } = none := rfl
  refine ⟨?_, rfl⟩
  rintro ⟨m, e, hm, -⟩
  rw [hnone] at hm
  cases hm

end RaidexNode
end Raidex
