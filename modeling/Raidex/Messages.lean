import Raidex.Basic

/-!
# Raidex.Messages

The signed messages of the protocol and their senders.

The sender of a message is not a field: it is recovered from the signature and the hash of all
other fields, so it raises on a message without a signature and on a signature from which no
key can be recovered. RLP, keccak and key recovery are the parameters of `Crypto`.
-/

namespace Raidex

/-- What RLP encodes: byte strings and lists. -/
inductive Item where
  | bytes (b : Bytes)
  | list (items : List Item)

structure Crypto where
  encodeRlp : Item → Bytes
  keccak : Bytes → Hash
  /-- `none` where recovering the public key raises. -/
  recover : Signature → Hash → Option Address

/-- A scheme for examples, without hashing: the low bits of a signature are its signer. -/
def Crypto.plain : Crypto where
  encodeRlp _ := []
  keccak bytes := BitVec.ofNat 256 bytes.length
  recover s _ := some (s.setWidth 160)

/-- `BigEndianInt l`: the `l` bytes of `n`, most significant first. -/
def bigEndian : Nat → Nat → Bytes
  | 0, _ => []
  | l + 1, n => bigEndian l (n / 256) ++ [UInt8.ofNat n]

def int32 (n : Nat) : Item := .bytes (bigEndian 32 n)

def int256 (n : Nat) : Item := .bytes (bigEndian 256 n)

def hash32 (h : Hash) : Item := .bytes (bigEndian 32 h.toNat)

/-- `sig65` admits the empty string, which stands for a missing signature. -/
def sig65 : Option Signature → Item
  | none => .bytes []
  | some s => .bytes (bigEndian 65 s.toNat)

/-- The messages of class `Signed`: a signature, and the fields it signs. -/
class Signed (M : Type) where
  signature : M → Option Signature
  unsigned : M → Item

section

variable {M : Type} [Signed M] (C : Crypto)

def hashWithoutSignature (m : M) : Hash := C.keccak (C.encodeRlp (Signed.unsigned m))

def sender (m : M) : Except PyError Address :=
  match Signed.signature m with
  | none => .error .signatureMissing
  | some s =>
    match C.recover s (hashWithoutSignature C m) with
    | none => .error .badSignature
    | some a => .ok a

end

structure Commitment where
  offerId : Nat
  offerHash : Hash
  timeout : Nat
  amount : Nat
  signature : Option Signature
  deriving DecidableEq, Repr

instance : Signed Commitment where
  signature := Commitment.signature
  unsigned c := .list [int32 c.offerId, hash32 c.offerHash, int256 c.timeout, int256 c.amount,
    int32 4]

structure CommitmentProof where
  commitmentSig : Option Signature
  secret : Hash
  secretHash : Hash
  offerId : Nat
  signature : Option Signature
  deriving DecidableEq, Repr

def CommitmentProof.fields (p : CommitmentProof) : List Item :=
  [sig65 p.commitmentSig, hash32 p.secret, hash32 p.secretHash, int32 p.offerId]

instance : Signed CommitmentProof where
  signature := CommitmentProof.signature
  unsigned p := .list (p.fields ++ [int32 5])

structure SwapExecution where
  offerId : Nat
  timestamp : Nat
  signature : Option Signature
  deriving DecidableEq, Repr

instance : Signed SwapExecution where
  signature := SwapExecution.signature
  unsigned e := .list [int256 e.offerId, int256 e.timestamp, int32 7]

structure SwapCompleted where
  offerId : Nat
  timestamp : Nat
  signature : Option Signature
  deriving DecidableEq, Repr

instance : Signed SwapCompleted where
  signature := SwapCompleted.signature
  unsigned e := .list [int256 e.offerId, int256 e.timestamp, int32 8]

structure OfferTaken where
  offerId : Nat
  signature : Option Signature
  deriving DecidableEq, Repr

instance : Signed OfferTaken where
  signature := OfferTaken.signature
  unsigned m := .list [int32 m.offerId, int32 9]

structure Cancellation where
  offerId : Nat
  signature : Option Signature
  deriving DecidableEq, Repr

instance : Signed Cancellation where
  signature := Cancellation.signature
  unsigned m := .list [int32 m.offerId, int32 10]

structure CancellationProof where
  offerId : Nat
  cancellationProof : CommitmentProof
  signature : Option Signature
  deriving DecidableEq, Repr

instance : Signed CancellationProof where
  signature := CancellationProof.signature
  unsigned m := .list [int32 m.offerId,
    .list (m.cancellationProof.fields ++ [sig65 m.cancellationProof.signature, int32 5]), int32 11]

structure SwapOffer where
  askToken : Address
  askAmount : Nat
  bidToken : Address
  bidAmount : Nat
  offerId : Nat
  timeout : Nat
  deriving DecidableEq, Repr

def address20 (a : Address) : Item := .bytes (bigEndian 20 a.toNat)

def SwapOffer.item (o : SwapOffer) : Item :=
  .list [address20 o.askToken, int256 o.askAmount, address20 o.bidToken, int256 o.bidAmount,
    int32 o.offerId, int256 o.timeout, int32 1]

def SwapOffer.hash (C : Crypto) (o : SwapOffer) : Hash := C.keccak (C.encodeRlp o.item)

structure ProvenOffer where
  offer : SwapOffer
  commitmentProof : CommitmentProof
  signature : Option Signature
  deriving DecidableEq, Repr

instance : Signed ProvenOffer where
  signature := ProvenOffer.signature
  unsigned m := .list [m.offer.item,
    .list (m.commitmentProof.fields ++ [sig65 m.commitmentProof.signature, int32 5]), int32 2]

end Raidex
