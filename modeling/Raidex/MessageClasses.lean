import Raidex.Envelope
import Raidex.Lib.Sedes

/-!
# Raidex.MessageClasses

The classes of messages as the source declares them: lists of named fields, and constructors that
pass their arguments on by position.

Attributes are Python values, so a message of a class may hold what its fields do not accept; it is
then not serialized. An address may also be empty, unlike the addresses in the other modules.
-/

namespace Raidex

open Json (Text text)

/-- The values of attributes. A message is an instance of its class with its attributes. -/
inductive PyObject where
  | none
  | bytes (b : Bytes)
  | int (n : Int)
  | message (k : MsgType) (attrs : List (String × PyObject))

/-! ## Fields -/

def bigEndianToInt (b : Bytes) : Nat := b.foldl (fun n x => 256 * n + x.toNat) 0

/-- `Binary.fixed_length` -/
def binary (length : Nat) (allowEmpty : Bool) : Sedes PyObject Item where
  serialize
    | .bytes b => if b.length = length ∨ (allowEmpty ∧ b = []) then some (.bytes b) else none
    | _ => none
  deserialize
    | .bytes b => if b.length = length ∨ (allowEmpty ∧ b = []) then some (.bytes b) else none
    | .list _ => none

/-- `BigEndianInt` -/
def bigEndianInt (l : Nat) : Sedes PyObject Item where
  serialize
    | .int n => if 0 ≤ n ∧ n.toNat < 256 ^ l then some (.bytes (bigEndian l n.toNat)) else none
    | _ => none
  deserialize
    | .bytes b => if b.length = l then some (.int (bigEndianToInt b)) else none
    | .list _ => none

abbrev Fields := List (String × Sedes PyObject Item)

/-- An `__init__`: the names of its parameters, with whether they have the default `None`, and the
arguments that it passes on. -/
structure Constructor where
  params : List (String × Bool)
  superArgs : List String

/-- A class: its constructors are its own and then those of its bases. -/
structure MessageClass where
  msgType : MsgType
  fields : Fields
  constructors : List Constructor

/-! ## The maps -/

def typesMsgMap : List (MsgType × Text) := msgTypesMap.map Prod.swap

def msgCmdidMap : List (Text × Nat) :=
  [(text "offer", 1), (text "proven_offer", 2), (text "proven_commitment", 3),
    (text "commitment", 4), (text "commitment_proof", 5), (text "commitment_service", 6),
    (text "swap_executed", 7), (text "swap_completed", 8), (text "offer_taken", 9),
    (text "cancellation", 10), (text "cancellation_proof", 11)]

def getCmdidForClass (k : MsgType) : Option Nat := do
  let msg ← typesMsgMap.lookup k
  msgCmdidMap.lookup msg

/-! ## Instances -/

def default? (param : String × Bool) : Option PyObject := if param.2 then some .none else none

/-- The arguments of a call, by the names of the parameters. -/
def Constructor.bind (c : Constructor) (args : List PyObject) (kwargs : List (String × PyObject)) :
    Option (List (String × PyObject)) :=
  let names := c.params.map Prod.fst
  let given := names.zip args ++ kwargs
  if args.length ≤ names.length ∧ kwargs.map Prod.fst ⊆ names.drop args.length then
    c.params.mapM fun p => ((given.lookup p.1).or (default? p)).map (p.1, ·)
  else none

/-- What is passed on; every constructor first sets its `cmdid`. -/
def Constructor.pass (c : Constructor) (cmdid : Nat) (locals : List (String × PyObject)) :
    Option (List PyObject) :=
  c.superArgs.mapM fun name => (("cmdid", .int cmdid) :: locals).lookup name

/-- The arguments that `rlp.Serializable.__init__` gets. -/
def construct (cmdid : Nat) : List Constructor → List PyObject → List (String × PyObject) →
    Option (List PyObject)
  | [], args, _ => some args
  | c :: cs, args, kwargs => do
    let locals ← c.bind args kwargs
    let args ← c.pass cmdid locals
    construct cmdid cs args []

namespace MessageClass

def fieldNames (c : MessageClass) : List String := c.fields.map Prod.fst

def init (c : MessageClass) (args : List PyObject) (kwargs : List (String × PyObject)) :
    Option PyObject := do
  let cmdid ← getCmdidForClass c.msgType
  let args ← construct cmdid c.constructors args kwargs
  if args.length < c.fields.length then none
  else return .message c.msgType (c.fieldNames.zip args)

/-- The class as a field of another one. Attributes are looked up whatever the class of the
instance is. -/
def sedes (c : MessageClass) : Sedes PyObject Item where
  serialize
    | .message _ attrs => (Sedes.serializeFields c.fields attrs).map Item.list
    | _ => none
  deserialize
    | .list items => do
      let values ← Sedes.deserializeFields c.fields items
      c.init [] (c.fieldNames.zip values)
    | .bytes _ => none

/-- `exclude(['signature'])` -/
def unsignedFields (c : MessageClass) : Fields := c.fields.filter fun f => f.1 ≠ "signature"

end MessageClass

/-! ## The classes -/

namespace Classes

def sig65 := binary 65 true
def address := binary 20 true
def int32 := bigEndianInt 32
def int256 := bigEndianInt 256
def hash32 := binary 32 false

def rlpHashable : Fields := [("cmdid", int32)]

def signed : Fields := [("signature", sig65)] ++ rlpHashable

def swapOffer : MessageClass where
  msgType := .offer
  fields := [("ask_token", address), ("ask_amount", int256), ("bid_token", address),
    ("bid_amount", int256), ("offer_id", int32), ("timeout", int256)] ++ rlpHashable
  constructors := [{
    params := [("ask_token", false), ("ask_amount", false), ("bid_token", false),
      ("bid_amount", false), ("offer_id", false), ("timeout", false), ("cmdid", true)]
    superArgs := ["ask_token", "ask_amount", "bid_token", "bid_amount", "offer_id", "timeout",
      "cmdid"] }]

def commitment : MessageClass where
  msgType := .commitment
  fields := [("offer_id", int32), ("offer_hash", hash32), ("timeout", int256),
    ("amount", int256)] ++ signed
  constructors := [{
    params := [("offer_id", false), ("offer_hash", false), ("timeout", false), ("amount", false),
      ("signature", true), ("cmdid", true)]
    superArgs := ["offer_id", "offer_hash", "timeout", "amount", "signature", "cmdid"] }]

def offerTaken : MessageClass where
  msgType := .offerTaken
  fields := [("offer_id", int32)] ++ signed
  constructors := [{
    params := [("offer_id", false), ("signature", true), ("cmdid", true)]
    superArgs := ["offer_id", "signature", "cmdid"] }]

def commitmentProof : MessageClass where
  msgType := .commitmentProof
  fields := [("commitment_sig", sig65), ("secret", hash32), ("secret_hash", hash32),
    ("offer_id", int32)] ++ signed
  constructors := [{
    params := [("commitment_sig", false), ("secret", false), ("secret_hash", false),
      ("offer_id", false), ("signature", true), ("cmdid", true)]
    superArgs := ["commitment_sig", "secret", "secret_hash", "offer_id", "signature", "cmdid"] }]

def cancellation : MessageClass where
  msgType := .cancellation
  fields := [("offer_id", int32)] ++ signed
  constructors := [{
    params := [("offer_id", false), ("signature", true), ("cmdid", true)]
    superArgs := ["offer_id", "signature", "cmdid"] }]

def cancellationProof : MessageClass where
  msgType := .cancellationProof
  fields := [("offer_id", int32), ("cancellation_proof", commitmentProof.sedes)] ++ signed
  constructors := [{
    params := [("offer_id", false), ("cancellation_proof", false), ("signature", true),
      ("cmdid", true)]
    superArgs := ["offer_id", "cancellation_proof", "signature", "cmdid"] }]

def provenOffer : MessageClass where
  msgType := .provenOffer
  fields := [("offer", swapOffer.sedes), ("commitment_proof", commitmentProof.sedes)] ++ signed
  constructors := [{
    params := [("offer", false), ("commitment_proof", false), ("signature", true),
      ("cmdid", true)]
    superArgs := ["offer", "commitment_proof", "signature", "cmdid"] }]

def provenCommitment : MessageClass where
  msgType := .provenCommitment
  fields :=
    [("commitment", commitment.sedes), ("commitment_proof", commitmentProof.sedes)] ++ signed
  constructors := [{
    params := [("commitment", false), ("commitment_proof", false), ("signature", true),
      ("cmdid", true)]
    superArgs := ["commitment", "commitment_proof", "signature", "cmdid"] }]

def commitmentServiceAdvertisement : MessageClass where
  msgType := .commitmentService
  fields := [("address", address), ("commitment_asset", address), ("fee_rate", int32)] ++ signed
  constructors := [{
    params := [("address", false), ("commitment_asset", false), ("fee_rate", false),
      ("signature", true), ("cmdid", true)]
    superArgs := ["address", "commitment_asset", "fee_rate", "signature", "cmdid"] }]

def swapExecution : MessageClass where
  msgType := .swapExecuted
  fields := [("offer_id", int256), ("timestamp", int256)] ++ signed
  constructors := [{
    params := [("offer_id", false), ("timestamp", false), ("signature", true),
      ("cmdid", true)]
    superArgs := ["offer_id", "timestamp", "signature", "cmdid"] }]

/-- Its fields are inherited, and its constructor calls that of `SwapExecution`. -/
def swapCompleted : MessageClass where
  msgType := .swapCompleted
  fields := swapExecution.fields
  constructors := {
    params := [("offer_id", false), ("timestamp", false), ("signature", true),
      ("cmdid", true)]
    superArgs := ["offer_id", "timestamp", "signature", "cmdid"] } :: swapExecution.constructors

end Classes

def MsgType.messageClass : MsgType → MessageClass
  | .offer => Classes.swapOffer
  | .provenOffer => Classes.provenOffer
  | .provenCommitment => Classes.provenCommitment
  | .commitment => Classes.commitment
  | .commitmentProof => Classes.commitmentProof
  | .commitmentService => Classes.commitmentServiceAdvertisement
  | .swapExecuted => Classes.swapExecution
  | .swapCompleted => Classes.swapCompleted
  | .offerTaken => Classes.offerTaken
  | .cancellation => Classes.cancellation
  | .cancellationProof => Classes.cancellationProof

/-! ## Big-endian numbers -/

theorem length_bigEndian (l n : Nat) : (bigEndian l n).length = l := by
  induction l generalizing n with
  | zero => rfl
  | succ l ih => rw [bigEndian, List.length_append, ih]; rfl

theorem bigEndianToInt_bigEndian {l n : Nat} (h : n < 256 ^ l) :
    bigEndianToInt (bigEndian l n) = n := by
  induction l generalizing n with
  | zero => exact (Nat.lt_one_iff.mp h).symm
  | succ l ih =>
    have hdiv : n / 256 < 256 ^ l := Nat.div_lt_of_lt_mul (by rwa [Nat.pow_succ'] at h)
    have hfold : bigEndianToInt (bigEndian l (n / 256) ++ [UInt8.ofNat n]) =
        256 * bigEndianToInt (bigEndian l (n / 256)) + (UInt8.ofNat n).toNat := by
      simp [bigEndianToInt]
    rw [bigEndian, hfold, ih hdiv, UInt8.toNat_ofNat']
    exact Nat.div_add_mod n 256

/-! ## Constructors -/

/-- Parameters, arguments and fields are kept in one order. -/
def MessageClass.Kept (c : MessageClass) : Prop :=
  c.fieldNames.Nodup ∧ "cmdid" ∈ c.fieldNames ∧ c.constructors ≠ [] ∧
  ∀ x ∈ c.constructors, x.params.map Prod.fst = c.fieldNames ∧ x.superArgs = c.fieldNames

instance (c : MessageClass) : Decidable c.Kept := inferInstanceAs (Decidable (_ ∧ _ ∧ _ ∧ _))

theorem kept (k : MsgType) : k.messageClass.Kept := by
  cases k <;> decide

theorem messageClass_msgType (k : MsgType) : k.messageClass.msgType = k := by
  cases k <;> rfl

theorem exists_cmdid (k : MsgType) : ∃ n, getCmdidForClass k = some n := by
  cases k <;> exact ⟨_, rfl⟩

theorem getCmdidForClass_inj {k k' : MsgType} (h : getCmdidForClass k = getCmdidForClass k') :
    k = k' := by
  revert h
  cases k <;> cases k' <;> decide

section

variable {names : List String} {values args : List PyObject} {kwargs : List (String × PyObject)}
  {cmdid : Nat} {c : Constructor} {cs : List Constructor}

theorem mem_of_lookup {attrs : List (String × PyObject)} {n : String} {v : PyObject}
    (h : attrs.lookup n = some v) : (n, v) ∈ attrs := by
  obtain ⟨l₁, l₂, rfl, -⟩ := List.lookup_eq_some_iff.mp h
  exact List.mem_append_right l₁ List.mem_cons_self

theorem lookup_names (hnodup : names.Nodup) (hlength : values.length = names.length) :
    (names.map fun n => (names.zip values).lookup n) = values.map some := by
  induction names generalizing values with
  | nil => cases values <;> simp_all
  | cons n names ih =>
    cases values with
    | nil => simp at hlength
    | cons v values =>
      obtain ⟨hn, hnodup⟩ := List.nodup_cons.mp hnodup
      have htail : (names.map fun m => ((n :: names).zip (v :: values)).lookup m) =
          names.map fun m => (names.zip values).lookup m := by
        refine List.map_congr_left ?_
        intro m hm
        have hne : m ≠ n := fun h => hn (h ▸ hm)
        rw [List.zip_cons_cons, List.lookup_cons, beq_false_of_ne hne]
      rw [List.map_cons, htail, ih hnodup (by simpa using hlength)]
      simp

theorem mapM_eq_some {α β : Type} {f : α → Option β} {l : List α} {ys : List β} :
    l.mapM f = some ys ↔ l.map f = ys.map some := by
  induction l generalizing ys with
  | nil => cases ys <;> simp
  | cons a l ih =>
    rw [List.mapM_cons]
    simp only [Option.bind_eq_bind, Option.bind_eq_some_iff, ih, Option.pure_def, Option.some.injEq]
    cases ys with
    | nil => simp
    | cons y ys => simp [and_comm]

/-- What a constructor passes on: its locals in the order of the fields, and its `cmdid`. -/
theorem pass_eq_some (hc : c.superArgs = names) {locals : List (String × PyObject)} :
    c.pass cmdid locals = some args ↔
      (names.map fun n => (("cmdid", .int cmdid) :: locals).lookup n) = args.map some := by
  rw [Constructor.pass, mapM_eq_some, hc]

/-- Locals with the right `cmdid` are passed on in the order of the fields. -/
theorem pass_zip (hc : c.superArgs = names) (hnodup : names.Nodup)
    (hlength : values.length = names.length)
    (hcmdid : (names.zip values).lookup "cmdid" = some (.int cmdid)) :
    c.pass cmdid (names.zip values) = some values := by
  rw [pass_eq_some hc, ← lookup_names hnodup hlength]
  refine List.map_congr_left ?_
  intro n _
  rw [List.lookup_cons]
  split
  next heq => rw [beq_iff_eq.mp heq, hcmdid]
  next => rfl

/-- Arguments for all parameters are the locals; no default is used. -/
theorem params_map_lookup (hc : c.params.map Prod.fst = names) (hnodup : names.Nodup)
    (hlength : values.length = names.length) :
    (c.params.map fun p => (((names.zip values).lookup p.1).or (default? p)).map (p.1, ·)) =
      (names.zip values).map some := by
  have hlookup := lookup_names hnodup hlength
  have hgiven : ∀ n ∈ names, ∃ v, (names.zip values).lookup n = some v := by
    intro n hn
    have hmem := List.mem_map_of_mem (f := fun n => (names.zip values).lookup n) hn
    rw [hlookup] at hmem
    obtain ⟨v, -, hv⟩ := List.mem_map.mp hmem
    exact ⟨v, hv.symm⟩
  have hdefault : ∀ p ∈ c.params,
      (((names.zip values).lookup p.1).or (default? p)).map (p.1, ·) =
        ((names.zip values).lookup p.1).map (p.1, ·) := by
    intro p hp
    obtain ⟨v, hv⟩ := hgiven p.1 (hc ▸ List.mem_map_of_mem hp)
    rw [hv]
    rfl
  calc (c.params.map fun p => (((names.zip values).lookup p.1).or (default? p)).map (p.1, ·))
      = c.params.map fun p => ((names.zip values).lookup p.1).map (p.1, ·) :=
        List.map_congr_left hdefault
    _ = names.map fun n => ((names.zip values).lookup n).map (n, ·) := by
        rw [← hc, List.map_map]; rfl
    _ = List.zipWith (fun n v => Option.map (n, ·) v) names
          (names.map fun n => (names.zip values).lookup n) := by
        rw [List.zipWith_map_right, List.zipWith_self]
    _ = (names.zip values).map some := by
        rw [hlookup, List.zipWith_map_right, List.zip, List.map_zipWith]; rfl

theorem bind_kwargs (hc : c.params.map Prod.fst = names) (hnodup : names.Nodup)
    (hlength : values.length = names.length) :
    c.bind [] (names.zip values) = some (names.zip values) := by
  have hkeys : (names.zip values).map Prod.fst = names :=
    List.map_fst_zip (Nat.le_of_eq hlength.symm)
  simp only [Constructor.bind, hc, hkeys, List.zip_nil_right, List.nil_append, List.length_nil,
    List.drop_zero, Nat.zero_le, List.Subset.refl, and_self, if_true]
  exact mapM_eq_some.mpr (params_map_lookup hc hnodup hlength)

theorem bind_args (hc : c.params.map Prod.fst = names) (hnodup : names.Nodup)
    (hlength : values.length = names.length) :
    c.bind values [] = some (names.zip values) := by
  simp only [Constructor.bind, hc, List.map_nil, List.append_nil, Nat.le_of_eq hlength,
    List.nil_subset, and_self, if_true]
  exact mapM_eq_some.mpr (params_map_lookup hc hnodup hlength)

/-- Constructors that keep the order pass the values of all fields on as they are. -/
theorem construct_values (hcs : ∀ x ∈ cs, x.params.map Prod.fst = names ∧ x.superArgs = names)
    (hnodup : names.Nodup) (hlength : values.length = names.length)
    (hcmdid : (names.zip values).lookup "cmdid" = some (.int cmdid)) :
    construct cmdid cs values [] = some values := by
  induction cs with
  | nil => rfl
  | cons c cs ih =>
    obtain ⟨⟨hparams, hargs⟩, hcs⟩ := List.forall_mem_cons.mp hcs
    rw [construct, bind_args hparams hnodup hlength, Option.bind_eq_bind, Option.bind_some,
      pass_zip hargs hnodup hlength hcmdid]
    exact ih hcs

theorem construct_kwargs (hcs : ∀ x ∈ cs, x.params.map Prod.fst = names ∧ x.superArgs = names)
    (hne : cs ≠ []) (hnodup : names.Nodup) (hlength : values.length = names.length)
    (hcmdid : (names.zip values).lookup "cmdid" = some (.int cmdid)) :
    construct cmdid cs [] (names.zip values) = some values := by
  cases cs with
  | nil => exact absurd rfl hne
  | cons c cs =>
    obtain ⟨⟨hparams, hargs⟩, hcs⟩ := List.forall_mem_cons.mp hcs
    rw [construct, bind_kwargs hparams hnodup hlength, Option.bind_eq_bind, Option.bind_some,
      pass_zip hargs hnodup hlength hcmdid]
    exact construct_values hcs hnodup hlength hcmdid

/-- What a call of the constructors makes has a value for every field, and their `cmdid`. -/
theorem construct_spec (hcs : ∀ x ∈ cs, x.superArgs = names) (hne : cs ≠ [])
    (hnodup : names.Nodup) (hcmdid : "cmdid" ∈ names)
    (h : construct cmdid cs args kwargs = some values) : values.length = names.length ∧
      (names.zip values).lookup "cmdid" = some (.int cmdid) := by
  induction cs generalizing args kwargs with
  | nil => exact absurd rfl hne
  | cons c cs ih =>
    obtain ⟨hc, hcs⟩ := List.forall_mem_cons.mp hcs
    rw [construct, Option.bind_eq_bind, Option.bind_eq_some_iff] at h
    obtain ⟨locals, -, h⟩ := h
    rw [Option.bind_eq_bind, Option.bind_eq_some_iff] at h
    obtain ⟨args', hpass, h⟩ := h
    cases cs with
    | nil =>
      cases h
      rw [pass_eq_some hc] at hpass
      have hlength : values.length = names.length := by
        simpa using (congrArg List.length hpass).symm
      refine ⟨hlength, ?_⟩
      have hsame := hpass.trans (lookup_names hnodup hlength).symm
      rw [← List.map_inj_left.mp hsame "cmdid" hcmdid]
      exact List.lookup_cons_self
    | cons c' cs => exact ih hcs (List.cons_ne_nil c' cs) h

theorem bind_mem {D : PyObject → Prop} (hnone : D .none) (hargs : ∀ v ∈ args, D v)
    (hkwargs : ∀ x ∈ kwargs, D x.2) {locals : List (String × PyObject)}
    (h : c.bind args kwargs = some locals) : ∀ x ∈ locals, D x.2 := by
  unfold Constructor.bind at h
  dsimp only at h
  split at h
  next =>
    intro x hx
    rw [mapM_eq_some] at h
    have hmem : some x ∈ locals.map some := List.mem_map_of_mem hx
    rw [← h, List.mem_map] at hmem
    obtain ⟨p, -, hp⟩ := hmem
    rw [Option.map_eq_some_iff] at hp
    obtain ⟨v, hv, rfl⟩ := hp
    rw [Option.or_eq_some_iff] at hv
    rcases hv with hv | ⟨-, hv⟩
    · rcases List.mem_append.mp (mem_of_lookup hv) with hv | hv
      · exact hargs v (List.of_mem_zip hv).2
      · exact hkwargs _ hv
    · unfold default? at hv
      split at hv <;> cases hv
      exact hnone
  next => cases h

/-- Every value of an instance is an argument, a default or the `cmdid`. -/
theorem construct_mem {D : PyObject → Prop} (hnone : D .none) (hint : ∀ n, D (.int n))
    (hargs : ∀ v ∈ args, D v) (hkwargs : ∀ x ∈ kwargs, D x.2)
    (h : construct cmdid cs args kwargs = some values) : ∀ v ∈ values, D v := by
  induction cs generalizing args kwargs with
  | nil => cases h; exact hargs
  | cons c cs ih =>
    rw [construct, Option.bind_eq_bind, Option.bind_eq_some_iff] at h
    obtain ⟨locals, hlocals, h⟩ := h
    rw [Option.bind_eq_bind, Option.bind_eq_some_iff] at h
    obtain ⟨args', hpass, h⟩ := h
    refine ih (fun v hv => ?_) (fun x hx => by cases hx) h
    rw [Constructor.pass, mapM_eq_some] at hpass
    have hmem : some v ∈ args'.map some := List.mem_map_of_mem hv
    rw [← hpass, List.mem_map] at hmem
    obtain ⟨n, -, hn⟩ := hmem
    rcases List.mem_cons.mp (mem_of_lookup hn) with hn | hn
    · cases hn; exact hint _
    · exact bind_mem hnone hargs hkwargs hlocals _ hn

end

/-! ## Messages -/

/-- Values in which every message is made by a constructor of its class. -/
inductive Built : PyObject → Prop
  | none : Built .none
  | bytes (b : Bytes) : Built (.bytes b)
  | int (n : Int) : Built (.int n)
  | message (k : MsgType) (args : List PyObject) (kwargs : List (String × PyObject)) (v : PyObject)
      (hargs : ∀ x ∈ args, Built x) (hkwargs : ∀ x ∈ kwargs, Built x.2)
      (h : k.messageClass.init args kwargs = some v) : Built v

/-- The attributes of an instance: a value for each field in order, with the `cmdid` of the
class. -/
structure IsInstance (k : MsgType) (attrs : List (String × PyObject)) (values : List PyObject) :
    Prop where
  zip : attrs = k.messageClass.fieldNames.zip values
  length : values.length = k.messageClass.fieldNames.length
  built : ∀ v ∈ values, Built v
  cmdid : ∃ n, getCmdidForClass k = some n ∧ attrs.lookup "cmdid" = some (.int n)

variable {k : MsgType} {attrs : List (String × PyObject)} {values : List PyObject} {v : PyObject}

theorem isInstance_of_init {args : List PyObject} {kwargs : List (String × PyObject)}
    (hargs : ∀ x ∈ args, Built x) (hkwargs : ∀ x ∈ kwargs, Built x.2)
    (h : k.messageClass.init args kwargs = some v) :
    ∃ attrs values, v = .message k attrs ∧ IsInstance k attrs values := by
  obtain ⟨hnodup, hcmdid, hne, hcs⟩ := kept k
  obtain ⟨cmdid, hk⟩ := exists_cmdid k
  rw [MessageClass.init, messageClass_msgType, hk, Option.bind_eq_bind, Option.bind_some,
    Option.bind_eq_bind, Option.bind_eq_some_iff] at h
  obtain ⟨values, hvalues, h⟩ := h
  have hspec := construct_spec (fun x hx => (hcs x hx).2) hne hnodup hcmdid hvalues
  split at h
  next => cases h
  next =>
    cases h
    exact ⟨_, values, rfl, rfl, hspec.1,
      construct_mem Built.none Built.int hargs hkwargs hvalues, cmdid, hk, hspec.2⟩

theorem Built.isInstance (h : Built (.message k attrs)) : ∃ values, IsInstance k attrs values := by
  cases h with
  | message k' args kwargs v hargs hkwargs hinit =>
    obtain ⟨attrs', values, hv, hinst⟩ := isInstance_of_init hargs hkwargs hinit
    cases hv
    exact ⟨values, hinst⟩

/-- The constructor gets the values of all fields by their names, and keeps them. -/
theorem IsInstance.init (h : IsInstance k attrs values) :
    k.messageClass.init [] attrs = some (.message k attrs) := by
  obtain ⟨rfl, hlength, -, cmdid, hk, hcmdid⟩ := h
  obtain ⟨hnodup, -, hne, hcs⟩ := kept k
  rw [MessageClass.init, messageClass_msgType, hk, Option.bind_eq_bind, Option.bind_some,
    construct_kwargs hcs hne hnodup hlength hcmdid]
  have hfields : ¬ values.length < k.messageClass.fields.length := by
    rw [hlength, MessageClass.fieldNames, List.length_map]; exact Nat.lt_irrefl _
  exact if_neg hfields

theorem IsInstance.lookup_built (h : IsInstance k attrs values) {n : String}
    (hv : attrs.lookup n = some v) : Built v := by
  rw [h.zip] at hv
  exact h.built v (List.of_mem_zip (mem_of_lookup hv)).2

/-- What is serialized of an instance of the class is read back as this instance. -/
theorem IsInstance.deserialize (h : IsInstance k attrs values)
    (hfields : ∀ f ∈ k.messageClass.fields, f.2.Restores Built) {items : List Item}
    (hitems : Sedes.serializeFields k.messageClass.fields attrs = some items) :
    k.messageClass.sedes.deserialize (.list items) = some (.message k attrs) := by
  obtain ⟨vs, hvs, hmap⟩ := Sedes.deserializeFields_serializeFields hfields
    (fun n v => h.lookup_built) hitems
  have hlookup := lookup_names (kept k).1 h.length
  have hvalues : vs = values := by
    refine List.map_injective_iff.mpr (fun _ _ => Option.some.inj) (hmap.trans ?_)
    rw [← hlookup, ← h.zip, MessageClass.fieldNames, List.map_map]
    rfl
  simp only [MessageClass.sedes, hvs, hvalues, Option.bind_eq_bind, Option.bind_some, ← h.zip]
  exact h.init

/-! ## Fields restore their values -/

theorem restores_binary (length : Nat) (allowEmpty : Bool) :
    (binary length allowEmpty).Restores Built := by
  constructor
  · intro v i _ h
    cases v with
    | bytes b =>
      simp only [binary] at h ⊢
      split at h
      next hlength => cases h; exact if_pos hlength
      next => cases h
    | none | int | message => cases h
  · intro i v h
    cases i with
    | bytes b =>
      simp only [binary] at h
      split at h <;> cases h
      exact .bytes b
    | list => cases h

theorem restores_bigEndianInt (l : Nat) : (bigEndianInt l).Restores Built := by
  constructor
  · intro v i _ h
    cases v with
    | int n =>
      simp only [bigEndianInt] at h ⊢
      split at h
      next hn =>
        cases h
        simp only [length_bigEndian, if_true, bigEndianToInt_bigEndian hn.2,
          Int.toNat_of_nonneg hn.1]
      next => cases h
    | none | bytes | message => cases h
  · intro i v h
    cases i with
    | bytes b =>
      simp only [bigEndianInt] at h
      split at h <;> cases h
      exact .int _
    | list => cases h

/-- What is read is a message of the class, whatever was written. -/
theorem built_of_deserialize (hfields : ∀ f ∈ k.messageClass.fields, f.2.Restores Built) {i : Item}
    (h : k.messageClass.sedes.deserialize i = some v) :
    Built v ∧ ∃ attrs, v = .message k attrs := by
  cases i with
  | list items =>
    simp only [MessageClass.sedes, Option.bind_eq_bind, Option.bind_eq_some_iff] at h
    obtain ⟨values, hvalues, h⟩ := h
    have hkwargs : ∀ x ∈ k.messageClass.fieldNames.zip values, Built x.2 := by
      rintro ⟨name, v⟩ hx
      exact Sedes.deserializeFields_read hfields hvalues v (List.of_mem_zip hx).2
    have hargs : ∀ x ∈ ([] : List PyObject), Built x := fun x hx => by cases hx
    obtain ⟨attrs, -, hv, -⟩ := isInstance_of_init hargs hkwargs h
    exact ⟨.message k [] _ v hargs hkwargs h, attrs, hv⟩
  | bytes => cases h

/-- No other class has the attributes that are the fields of this one. -/
def Distinctive (k : MsgType) : Prop :=
  ∀ k' : MsgType, k.messageClass.fieldNames ⊆ k'.messageClass.fieldNames → k' = k

theorem distinctive_nested : Distinctive .offer ∧ Distinctive .commitment ∧
    Distinctive .commitmentProof := by
  refine ⟨?_, ?_, ?_⟩ <;> intro k <;> cases k <;> decide

/-- Values of a field whose sedes is a class are restored. -/
theorem restores_sedes (hk : Distinctive k)
    (hfields : ∀ f ∈ k.messageClass.fields, f.2.Restores Built) :
    k.messageClass.sedes.Restores Built := by
  refine ⟨fun v i hv h => ?_, fun i v h => (built_of_deserialize hfields h).1⟩
  cases v with
  | message k' attrs =>
    obtain ⟨items, hitems, rfl⟩ := Option.map_eq_some_iff.mp h
    obtain ⟨values, hinst⟩ := hv.isInstance
    obtain rfl : k' = k := by
      refine hk k' ?_
      intro n hn
      obtain ⟨f, hf, rfl⟩ := List.mem_map.mp hn
      obtain ⟨v, hv⟩ := Sedes.exists_lookup_of_serializeFields hitems hf
      rw [hinst.zip] at hv
      exact (List.of_mem_zip (mem_of_lookup hv)).1
    exact hinst.deserialize hfields hitems
  | none | bytes | int => cases h

namespace Classes

@[simp] theorem restores_sig65 : sig65.Restores Built := restores_binary 65 true
@[simp] theorem restores_address : address.Restores Built := restores_binary 20 true
@[simp] theorem restores_hash32 : hash32.Restores Built := restores_binary 32 false
@[simp] theorem restores_int32 : int32.Restores Built := restores_bigEndianInt 32
@[simp] theorem restores_int256 : int256.Restores Built := restores_bigEndianInt 256

@[simp] theorem restores_swapOffer : swapOffer.sedes.Restores Built :=
  restores_sedes distinctive_nested.1 (by simp [MsgType.messageClass, swapOffer, rlpHashable])

@[simp] theorem restores_commitment : commitment.sedes.Restores Built :=
  restores_sedes distinctive_nested.2.1
    (by simp [MsgType.messageClass, commitment, signed, rlpHashable])

@[simp] theorem restores_commitmentProof : commitmentProof.sedes.Restores Built :=
  restores_sedes distinctive_nested.2.2
    (by simp [MsgType.messageClass, commitmentProof, signed, rlpHashable])

theorem restores_fields (k : MsgType) : ∀ f ∈ k.messageClass.fields, f.2.Restores Built := by
  cases k with
  | offer => simp [MsgType.messageClass, swapOffer, rlpHashable]
  | provenOffer => simp [MsgType.messageClass, provenOffer, signed, rlpHashable]
  | provenCommitment => simp [MsgType.messageClass, provenCommitment, signed, rlpHashable]
  | commitment => simp [MsgType.messageClass, commitment, signed, rlpHashable]
  | commitmentProof => simp [MsgType.messageClass, commitmentProof, signed, rlpHashable]
  | commitmentService =>
    simp [MsgType.messageClass, commitmentServiceAdvertisement, signed, rlpHashable]
  | swapExecuted => simp [MsgType.messageClass, swapExecution, signed, rlpHashable]
  | swapCompleted => simp [MsgType.messageClass, swapCompleted, swapExecution, signed, rlpHashable]
  | offerTaken => simp [MsgType.messageClass, offerTaken, signed, rlpHashable]
  | cancellation => simp [MsgType.messageClass, cancellation, signed, rlpHashable]
  | cancellationProof => simp [MsgType.messageClass, cancellationProof, signed, rlpHashable]

end Classes

/-! ## Signed data -/

/-- What RLP encodes of a message to sign it: all fields but the signature. -/
def unsignedItem : PyObject → Option Item
  | .message k attrs =>
    (Sedes.serializeFields k.messageClass.unsignedFields attrs).map Item.list
  | _ => none

/-- The last field of every class is the `cmdid`. -/
theorem unsignedFields_cmdid (k : MsgType) :
    ∃ fs, k.messageClass.unsignedFields = fs ++ Classes.rlpHashable := by
  cases k <;> exact ⟨_, (List.dropLast_concat_getLast (by decide)).symm⟩

theorem unsignedItem_eq_some {i : Item} : unsignedItem (.message k attrs) = some i ↔
    ∃ items, Sedes.serializeFields k.messageClass.unsignedFields attrs = some items ∧
      i = .list items := by
  rw [unsignedItem, Option.map_eq_some_iff]
  exact exists_congr fun items => and_congr_right fun _ => eq_comm

/-- The last item is the `cmdid` of the class. -/
theorem IsInstance.cmdid_item (h : IsInstance k attrs values) {items : List Item}
    (hitems : Sedes.serializeFields k.messageClass.unsignedFields attrs = some items) :
    ∃ n i, getCmdidForClass k = some n ∧ items.getLast? = some i ∧
      Classes.int32.serialize (.int n) = some i := by
  obtain ⟨fs, hfs⟩ := unsignedFields_cmdid k
  obtain ⟨n, hk, hcmdid⟩ := h.cmdid
  rw [hfs, Sedes.serializeFields_append] at hitems
  obtain ⟨is, js, -, hjs, rfl⟩ := hitems
  obtain ⟨v, i, js, hv, hi, hnil, rfl⟩ := Sedes.serializeFields_cons.mp hjs
  cases hnil
  cases hcmdid.symm.trans hv
  exact ⟨n, i, hk, List.getLast?_concat, hi⟩

/-- Messages of which the same is signed are of one class and agree on all signed fields. -/
theorem unsignedItem_inj {k' : MsgType} {attrs' : List (String × PyObject)} {i : Item}
    (hm : Built (.message k attrs)) (hm' : Built (.message k' attrs'))
    (h : unsignedItem (.message k attrs) = some i)
    (h' : unsignedItem (.message k' attrs') = some i) :
    k = k' ∧ ∀ name ∈ k.messageClass.fieldNames, name ≠ "signature" →
      attrs.lookup name = attrs'.lookup name := by
  obtain ⟨values, hinst⟩ := hm.isInstance
  obtain ⟨values', hinst'⟩ := hm'.isInstance
  obtain ⟨items, hitems, rfl⟩ := unsignedItem_eq_some.mp h
  obtain ⟨items', hitems', heq⟩ := unsignedItem_eq_some.mp h'
  cases heq
  obtain ⟨n, j, hk, hj, hn⟩ := hinst.cmdid_item hitems
  obtain ⟨n', j', hk', hj', hn'⟩ := hinst'.cmdid_item hitems'
  cases hj.symm.trans hj'
  have hcmdid : PyObject.int n = .int n' :=
    Classes.restores_int32.inj (Built.int n) (Built.int n') hn hn'
  obtain rfl : k = k' := by
    cases hcmdid
    exact getCmdidForClass_inj (hk.trans hk'.symm)
  refine ⟨rfl, ?_⟩
  intro name hname hsig
  obtain ⟨f, hf, rfl⟩ := List.mem_map.mp hname
  have hunsigned : f ∈ k.messageClass.unsignedFields :=
    List.mem_filter.mpr ⟨hf, by simpa using hsig⟩
  exact Sedes.serializeFields_inj
    (fun g hg => Classes.restores_fields k g (List.mem_filter.mp hg).1)
    (fun n v => hinst.lookup_built) (fun n v => hinst'.lookup_built) hitems hitems' hunsigned

end Raidex
