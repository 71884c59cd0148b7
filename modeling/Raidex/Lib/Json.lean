import Mathlib.Algebra.GroupWithZero.Nat
import Mathlib.Data.List.Basic

/-!
# Raidex.Lib.Json

JSON as a machine that reads one character after the other, with the leniencies of a common
decoder: `NaN` and the infinities are numbers, the last member of a key counts, a nesting deeper
than the stack allows is an error of its own, and strings may hold lone surrogates.

* `loads`: the value of a text.
* `dumpString`: a string as an ASCII literal.
* `run_escape`: reading an escaped character reads the character.
* `loads_singleton`: an object with one string is read back, up to `joinSurrogates`: the decoder
  joins a surrogate pair that was written as two escapes.
-/

namespace Json

/-- A character of a text: a code point, surrogates included. -/
abbrev CodePoint := Fin 0x110000

instance instNeZeroCodePoint : NeZero 0x110000 := ⟨by decide⟩

abbrev Text := List CodePoint

theorem toNat_lt (c : Char) : c.toNat < 0x110000 := by
  rcases c.valid with h | ⟨_, h⟩
  · exact Nat.lt_trans h (by decide)
  · exact h

def chr (c : Char) : CodePoint := ⟨c.toNat, toNat_lt c⟩

def text (s : String) : Text := s.toList.map chr

inductive Float where
  | nan
  | infinity
  | negInfinity
  /-- The literal stands for `mantissa * 10 ^ exponent`. -/
  | decimal (mantissa exponent : Int)
  deriving DecidableEq

/-- The members of an object are in reverse, so that a lookup finds the last one of its key. -/
inductive Value where
  | null
  | bool (b : Bool)
  | int (n : Int)
  | float (f : Float)
  | str (s : Text)
  | arr (items : List Value)
  | obj (members : List (Text × Value))

inductive Error where
  | decode
  | recursion
  deriving DecidableEq

/-! ## Numbers -/

def isDigit (c : CodePoint) : Bool := 48 ≤ c.val && c.val ≤ 57

def isNumeric (c : CodePoint) : Bool := isDigit c || c ∈ text "+-.eE"

def ofDigits (ds : Text) : Nat := ds.foldl (fun n c => 10 * n + (c.val - 48)) 0

def signed (negative : Bool) (n : Nat) : Int := if negative then -n else n

/-- The exponent, after its `e`. -/
def exponent? (cs : Text) : Option Int :=
  let (negative, ds) := match cs with
    | c :: ds =>
      if c = chr '-' then (true, ds) else if c = chr '+' then (false, ds) else (false, cs)
    | [] => (false, [])
  if ds ≠ [] ∧ ds.all isDigit then some (signed negative (ofDigits ds)) else none

/-- `-?(0|[1-9][0-9]*)(\.[0-9]+)?([eE][-+]?[0-9]+)?` -/
def number? (cs : Text) : Option Value :=
  let negative := cs.head? = some (chr '-')
  let cs := if negative then cs.tail else cs
  let whole := cs.takeWhile isDigit
  if whole = [] ∨ (whole.head? = some (chr '0') ∧ whole.length ≠ 1) then none
  else
    let rest := cs.dropWhile isDigit
    let fraction := if rest.head? = some (chr '.') then rest.tail.takeWhile isDigit else []
    let tail := if rest.head? = some (chr '.') then rest.tail.dropWhile isDigit else rest
    if rest.head? = some (chr '.') ∧ fraction = [] then none
    else
      let mantissa := signed negative (ofDigits (whole ++ fraction))
      match tail with
      | [] =>
        if fraction = [] then some (.int mantissa)
        else some (.float (.decimal mantissa (-fraction.length)))
      | e :: es =>
        if e = chr 'e' ∨ e = chr 'E' then
          (exponent? es).map fun n => .float (.decimal mantissa (n - fraction.length))
        else none

/-! ## Strings -/

def isHigh (c : CodePoint) : Bool := 0xD800 ≤ c.val && c.val < 0xDC00

def isLow (c : CodePoint) : Bool := 0xDC00 ≤ c.val && c.val < 0xE000

def isSurrogate (c : CodePoint) : Bool := isHigh c || isLow c

/-- The character of a surrogate pair. -/
def join (h l : CodePoint) : CodePoint :=
  Fin.ofNat 0x110000 (0x10000 + (h.val - 0xD800) * 0x400 + (l.val - 0xDC00))

/-- Where a string stands within an escape; `left` more digits follow the next one. -/
inductive Escape where
  | none
  | backslash
  | hex (left value : Nat)

/-- A string that is being read, in reverse; `high` is an escaped surrogate at its end that the
next character may complete. -/
structure Str where
  chars : Text
  high : Option CodePoint
  escape : Escape

namespace Str

def empty : Str where
  chars := []
  high := .none
  escape := .none

def flush (s : Str) : Text := s.high.toList ++ s.chars

def add (s : Str) (c : CodePoint) : Str where
  chars := c :: s.flush
  high := .none
  escape := .none

/-- A character that was written as four hexadecimal digits. -/
def addEscaped (s : Str) (c : CodePoint) : Str :=
  if isHigh c then { chars := s.flush, high := some c, escape := .none }
  else
    match s.high with
    | some h => if isLow c then { chars := join h c :: s.chars, high := .none, escape := .none }
      else s.add c
    | none => s.add c

end Str

def hexDigit? (c : CodePoint) : Option Nat :=
  if isDigit c then some (c.val - 48)
  else if 97 ≤ c.val && c.val ≤ 102 then some (c.val - 87)
  else if 65 ≤ c.val && c.val ≤ 70 then some (c.val - 55)
  else none

def unescape? (c : CodePoint) : Option CodePoint :=
  if c = chr '"' ∨ c = chr '\\' ∨ c = chr '/' then some c
  else if c = chr 'b' then some 8
  else if c = chr 'f' then some 12
  else if c = chr 'n' then some 10
  else if c = chr 'r' then some 13
  else if c = chr 't' then some 9
  else none

/-- The next character of a string; a quote outside an escape ends it and is not read here. -/
def Str.step (s : Str) (c : CodePoint) : Except Error Str :=
  match s.escape with
  | .none =>
    if c = chr '\\' then .ok { s with escape := .backslash }
    else if c.val < 32 then .error .decode
    else .ok (s.add c)
  | .backslash =>
    if c = chr 'u' then .ok { s with escape := .hex 3 0 }
    else
      match unescape? c with
      | some x => .ok (s.add x)
      | none => .error .decode
  | .hex left value =>
    match hexDigit? c, left with
    | none, _ => .error .decode
    | some d, 0 => .ok (s.addEscaped (Fin.ofNat _ (16 * value + d)))
    | some d, n + 1 => .ok { s with escape := .hex n (16 * value + d) }

def Str.closed (s : Str) (c : CodePoint) : Bool :=
  match s.escape with
  | .none => c = chr '"'
  | _ => false

/-! ## The machine -/

/-- A container that is open, with what it holds so far, in reverse. -/
inductive Frame where
  | arr (items : List Value)
  | obj (members : List (Text × Value))
  | member (members : List (Text × Value)) (key : Text)

/-- What may come between two tokens: `item` and `firstKey` may also close their container. -/
inductive Phase where
  | value
  | item
  | key
  | firstKey
  | colon
  | next
  | done (v : Value)

structure Place where
  stack : List Frame
  phase : Phase

inductive State where
  | between (p : Place)
  | keyword (stack : List Frame) (rest : Text) (v : Value)
  | number (stack : List Frame) (digits : Text)
  | string (stack : List Frame) (isKey : Bool) (s : Str)

/-- A value is complete. -/
def push (v : Value) : List Frame → Place
  | .arr items :: fs => ⟨.arr (v :: items) :: fs, .next⟩
  | .member members key :: fs => ⟨.obj ((key, v) :: members) :: fs, .next⟩
  | fs => ⟨fs, .done v⟩

/-- A key is complete. -/
def pushKey (key : Text) : List Frame → Except Error State
  | .obj members :: fs => .ok (.between ⟨.member members key :: fs, .colon⟩)
  | _ => .error .decode

def isSpace (c : CodePoint) : Bool := c ∈ text " \t\n\r"

section

variable (limit : Nat)

def openFrame (fs : List Frame) (f : Frame) (p : Phase) : Except Error State :=
  if fs.length < limit then .ok (.between ⟨f :: fs, p⟩) else .error .recursion

/-- The first character of a value. -/
def start (fs : List Frame) (c : CodePoint) : Except Error State :=
  if c = chr '"' then .ok (.string fs false .empty)
  else if c = chr '\x7b' then openFrame limit fs (.obj []) .firstKey
  else if c = chr '[' then openFrame limit fs (.arr []) .item
  else if c = chr 'n' then .ok (.keyword fs (text "ull") .null)
  else if c = chr 't' then .ok (.keyword fs (text "rue") (.bool true))
  else if c = chr 'f' then .ok (.keyword fs (text "alse") (.bool false))
  else if c = chr 'N' then .ok (.keyword fs (text "aN") (.float .nan))
  else if c = chr 'I' then .ok (.keyword fs (text "nfinity") (.float .infinity))
  else if c = chr '-' ∨ isDigit c then .ok (.number fs [c])
  else .error .decode

def Place.step (p : Place) (c : CodePoint) : Except Error State :=
  if isSpace c then .ok (.between p)
  else
    match p.phase, p.stack with
    | .value, fs => start limit fs c
    | .item, .arr items :: fs =>
      if c = chr ']' then .ok (.between (push (.arr items.reverse) fs))
      else start limit (.arr items :: fs) c
    | .firstKey, .obj members :: fs =>
      if c = chr '\x7d' then .ok (.between (push (.obj members) fs))
      else if c = chr '"' then .ok (.string (.obj members :: fs) true .empty)
      else .error .decode
    | .key, fs => if c = chr '"' then .ok (.string fs true .empty) else .error .decode
    | .colon, fs => if c = chr ':' then .ok (.between ⟨fs, .value⟩) else .error .decode
    | .next, .arr items :: fs =>
      if c = chr ',' then .ok (.between ⟨.arr items :: fs, .value⟩)
      else if c = chr ']' then .ok (.between (push (.arr items.reverse) fs))
      else .error .decode
    | .next, .obj members :: fs =>
      if c = chr ',' then .ok (.between ⟨.obj members :: fs, .key⟩)
      else if c = chr '\x7d' then .ok (.between (push (.obj members) fs))
      else .error .decode
    | _, _ => .error .decode

def State.step : State → CodePoint → Except Error State
  | .between p, c => p.step limit c
  | .keyword _ [] _, _ => .error .decode
  | .keyword fs [k] v, c => if c = k then .ok (.between (push v fs)) else .error .decode
  | .keyword fs (k :: ks) v, c => if c = k then .ok (.keyword fs ks v) else .error .decode
  | .number fs ds, c =>
    if isNumeric c then .ok (.number fs (c :: ds))
    else if ds = [chr '-'] ∧ c = chr 'I' then
      .ok (.keyword fs (text "nfinity") (.float .negInfinity))
    else
      match number? ds.reverse with
      | some v => (push v fs).step limit c
      | none => .error .decode
  | .string fs isKey s, c =>
    if s.closed c then
      if isKey then pushKey s.flush.reverse fs
      else .ok (.between (push (.str s.flush.reverse) fs))
    else (s.step c).map (.string fs isKey)

def run (s : State) (cs : Text) : Except Error State := cs.foldlM (State.step limit) s

end

def State.value? : State → Option Value
  | .between ⟨[], .done v⟩ => some v
  | .number [] ds => number? ds.reverse
  | _ => none

/-- `limit` containers may be open at a time. -/
def loads (limit : Nat) (cs : Text) : Except Error Value := do
  let s ← run limit (.between ⟨[], .value⟩) cs
  match s.value? with
  | some v => return v
  | none => throw .decode

/-! ## Writing strings -/

def hexDigit (n : Nat) : CodePoint := Fin.ofNat _ (if n < 10 then 48 + n else 87 + n)

/-- `\uXXXX` -/
def escapeUnit (n : Nat) : Text :=
  [chr '\\', chr 'u', hexDigit (n / 4096), hexDigit (n / 256 % 16), hexDigit (n / 16 % 16),
    hexDigit (n % 16)]

def shortEscape? (c : CodePoint) : Option CodePoint :=
  if c = chr '"' ∨ c = chr '\\' then some c
  else if c = 8 then some (chr 'b')
  else if c = 12 then some (chr 'f')
  else if c = 10 then some (chr 'n')
  else if c = 13 then some (chr 'r')
  else if c = 9 then some (chr 't')
  else none

def escape (c : CodePoint) : Text :=
  match shortEscape? c with
  | some x => [chr '\\', x]
  | none =>
    if 32 ≤ c.val && c.val ≤ 126 then [c]
    else if c.val < 0x10000 then escapeUnit c.val
    else escapeUnit (0xD800 + (c.val - 0x10000) / 0x400) ++
      escapeUnit (0xDC00 + (c.val - 0x10000) % 0x400)

def dumpString (cs : Text) : Text := chr '"' :: (cs.flatMap escape ++ [chr '"'])

/-! ## Reading them back -/

/-- A surrogate pair is one character. -/
def joinSurrogates : Text → Text
  | h :: l :: cs =>
    if isHigh h && isLow l then join h l :: joinSurrogates cs else h :: joinSurrogates (l :: cs)
  | cs => cs

section

variable {limit : Nat} {fs : List Frame} {isKey : Bool} {s : Str}

theorem run_append {st st' : State} {xs : Text} (ys : Text) (h : run limit st xs = .ok st') :
    run limit st (xs ++ ys) = run limit st' ys := by
  unfold run at h ⊢
  rw [List.foldlM_append, h]
  rfl

theorem run_cons {st st' : State} {c : CodePoint} {cs : Text} (h : st.step limit c = .ok st') :
    run limit st (c :: cs) = run limit st' cs := by
  rw [run, List.foldlM_cons, h]
  rfl

theorem step_string {s' : Str} {c : CodePoint} (hopen : s.closed c = false)
    (h : s.step c = .ok s') :
    (State.string fs isKey s).step limit c = .ok (.string fs isKey s') := by
  simp [State.step, hopen, h, Except.map]

theorem hexDigit?_hexDigit {n : Nat} (h : n < 16) : hexDigit? (hexDigit n) = some n := by
  revert n
  decide

/-- The first two characters of an escape leave the string open. -/
theorem step_backslash (h : s.escape = .none) : s.closed (chr '\\') = false ∧
    s.step (chr '\\') = .ok { s with escape := .backslash } := by
  unfold Str.closed Str.step
  rw [h]
  exact ⟨by decide, if_pos rfl⟩

theorem step_hex {left value n : Nat} (h : n < 16) :
    Str.step { s with escape := .hex (left + 1) value } (hexDigit n) =
      .ok { s with escape := .hex left (16 * value + n) } := by
  simp [Str.step, hexDigit?_hexDigit h]

theorem step_lastHex {value n : Nat} (h : n < 16) :
    Str.step { s with escape := .hex 0 value } (hexDigit n) =
      .ok (s.addEscaped (Fin.ofNat _ (16 * value + n))) := by
  simp [Str.step, hexDigit?_hexDigit h, Str.addEscaped, Str.flush, Str.add]

theorem run_escapeUnit (h : s.escape = .none) {n : Nat} (hn : n < 0x10000) :
    run limit (.string fs isKey s) (escapeUnit n) =
      .ok (.string fs isKey (s.addEscaped (Fin.ofNat _ n))) := by
  have hvalue :
      16 * (16 * (16 * (16 * 0 + n / 4096) + n / 256 % 16) + n / 16 % 16) + n % 16 = n := by
    omega
  unfold escapeUnit
  rw [run_cons (step_string (step_backslash h).1 (step_backslash h).2),
    run_cons (step_string rfl rfl),
    run_cons (step_string rfl (step_hex (by omega))),
    run_cons (step_string rfl (step_hex (by omega))),
    run_cons (step_string rfl (step_hex (by omega))),
    run_cons (step_string rfl (step_lastHex (by omega))), hvalue]
  rfl

theorem unescape?_of_shortEscape? {c x : CodePoint} (h : shortEscape? c = some x) :
    unescape? x = some c ∧ x ≠ chr 'u' ∧ isSurrogate c = false := by
  unfold shortEscape? at h
  split at h
  next hc =>
    obtain rfl : c = x := Option.some.inj h
    rcases hc with rfl | rfl <;> decide
  next =>
    repeat' split at h
    all_goals first
      | (subst c; obtain rfl := Option.some.inj h; decide)
      | cases h

theorem val_ofNat {n : Nat} (h : n < 0x110000) : (Fin.ofNat 0x110000 n).val = n :=
  Nat.mod_eq_of_lt h

/-- The two halves of a character beyond the basic plane. -/
theorem addEscaped_pair (s : Str) {c : CodePoint} (h : 0x10000 ≤ c.val) :
    (s.addEscaped (Fin.ofNat _ (0xD800 + (c.val - 0x10000) / 0x400))).addEscaped
      (Fin.ofNat _ (0xDC00 + (c.val - 0x10000) % 0x400)) = s.add c := by
  have hlt := c.isLt
  have hhigh : (Fin.ofNat 0x110000 (0xD800 + (c.val - 0x10000) / 0x400)).val =
      0xD800 + (c.val - 0x10000) / 0x400 := val_ofNat (by omega)
  have hlow : (Fin.ofNat 0x110000 (0xDC00 + (c.val - 0x10000) % 0x400)).val =
      0xDC00 + (c.val - 0x10000) % 0x400 := val_ofNat (by omega)
  have h₁ : isHigh (Fin.ofNat _ (0xD800 + (c.val - 0x10000) / 0x400)) = true := by
    simp only [isHigh, hhigh, Bool.and_eq_true, decide_eq_true_eq]
    omega
  have h₂ : isHigh (Fin.ofNat _ (0xDC00 + (c.val - 0x10000) % 0x400)) = false := by
    simp only [isHigh, hlow, Bool.and_eq_false_iff, decide_eq_false_iff_not]
    omega
  have h₃ : isLow (Fin.ofNat _ (0xDC00 + (c.val - 0x10000) % 0x400)) = true := by
    simp only [isLow, hlow, Bool.and_eq_true, decide_eq_true_eq]
    omega
  have hjoin : join (Fin.ofNat _ (0xD800 + (c.val - 0x10000) / 0x400))
      (Fin.ofNat _ (0xDC00 + (c.val - 0x10000) % 0x400)) = c := by
    apply Fin.ext
    rw [join, hhigh, hlow, val_ofNat (by omega)]
    omega
  simp only [Str.addEscaped, h₁, h₂, h₃, hjoin, if_true, Str.add]
  rfl

theorem addEscaped_escape (s : Str) (c : CodePoint) : (s.addEscaped c).escape = .none := by
  unfold Str.addEscaped
  split
  · rfl
  · split
    · split <;> rfl
    · rfl

theorem addEscaped_eq_add (s : Str) {c : CodePoint} (h : isSurrogate c = false) :
    s.addEscaped c = s.add c := by
  obtain ⟨hhigh, hlow⟩ := Bool.or_eq_false_iff.mp h
  unfold Str.addEscaped
  rw [hhigh, if_neg Bool.false_ne_true]
  split
  · rw [hlow, if_neg Bool.false_ne_true]
  · rfl

theorem isSurrogate_eq_false {c : CodePoint} (h : c.val < 0xD800 ∨ 0xE000 ≤ c.val) :
    isSurrogate c = false := by
  simp only [isSurrogate, isHigh, isLow, Bool.or_eq_false_iff, Bool.and_eq_false_iff,
    decide_eq_false_iff_not]
  omega

theorem run_shortEscape (h : s.escape = .none) {c x : CodePoint} (hx : shortEscape? c = some x) :
    run limit (.string fs isKey s) [chr '\\', x] = .ok (.string fs isKey (s.addEscaped c)) := by
  obtain ⟨hunescape, hu, hsurrogate⟩ := unescape?_of_shortEscape? hx
  have hstep : Str.step { s with escape := .backslash } x = .ok (s.add c) := by
    simp [Str.step, hu, hunescape, Str.add, Str.flush]
  rw [run_cons (step_string (step_backslash h).1 (step_backslash h).2),
    run_cons (step_string rfl hstep), addEscaped_eq_add s hsurrogate]
  rfl

theorem run_plain (h : s.escape = .none) {c : CodePoint} (hnone : shortEscape? c = none)
    (hge : 32 ≤ c.val) (hle : c.val ≤ 126) :
    run limit (.string fs isKey s) [c] = .ok (.string fs isKey (s.addEscaped c)) := by
  have hquote : c ≠ chr '"' := by
    rintro rfl
    revert hnone
    decide
  have hbackslash : c ≠ chr '\\' := by
    rintro rfl
    revert hnone
    decide
  have hclosed : s.closed c = false := by simp [Str.closed, h, hquote]
  have hstep : s.step c = .ok (s.add c) := by simp [Str.step, h, hbackslash, hge]
  rw [run_cons (step_string hclosed hstep), addEscaped_eq_add s (isSurrogate_eq_false (by omega))]
  rfl

theorem run_escape (h : s.escape = .none) (c : CodePoint) :
    run limit (.string fs isKey s) (escape c) = .ok (.string fs isKey (s.addEscaped c)) := by
  have hlt := c.isLt
  unfold escape
  split
  next x hx => exact run_shortEscape h hx
  next hnone =>
    split
    next hc =>
      simp only [Bool.and_eq_true, decide_eq_true_eq] at hc
      exact run_plain h hnone hc.1 hc.2
    next =>
      split
      next hc =>
        have hself : Fin.ofNat 0x110000 c.val = c := Fin.ext (val_ofNat hlt)
        rw [run_escapeUnit h hc, hself]
      next hc =>
        have hhigh : 0xD800 + (c.val - 0x10000) / 0x400 < 0x10000 := by omega
        have hlow : 0xDC00 + (c.val - 0x10000) % 0x400 < 0x10000 := by omega
        have hsurrogate : isSurrogate c = false := isSurrogate_eq_false (.inr (by omega))
        have hpair : 0x10000 ≤ c.val := by omega
        rw [run_append _ (run_escapeUnit h hhigh), run_escapeUnit (addEscaped_escape ..) hlow,
          addEscaped_pair s hpair, addEscaped_eq_add s hsurrogate]

theorem run_flatMap_escape (h : s.escape = .none) (cs : Text) :
    run limit (.string fs isKey s) (cs.flatMap escape) =
      .ok (.string fs isKey (cs.foldl Str.addEscaped s)) ∧
    (cs.foldl Str.addEscaped s).escape = .none := by
  induction cs generalizing s with
  | nil => exact ⟨rfl, h⟩
  | cons c cs ih =>
    obtain ⟨hrun, hescape⟩ := ih (addEscaped_escape s c)
    rw [List.flatMap_cons, run_append _ (run_escape h c)]
    exact ⟨hrun, hescape⟩

theorem joinSurrogates_cons {c : CodePoint} (h : isHigh c = false) (cs : Text) :
    joinSurrogates (c :: cs) = c :: joinSurrogates cs := by
  cases cs with
  | nil => rfl
  | cons d cs => rw [joinSurrogates, h, Bool.false_and, if_neg Bool.false_ne_true]

/-- A high surrogate stays alone before a character that is not a low one. -/
theorem joinSurrogates_alone {h c : CodePoint} (hc : isLow c = false) (cs : Text) :
    joinSurrogates (h :: c :: cs) = h :: joinSurrogates (c :: cs) := by
  rw [joinSurrogates, hc, Bool.and_false, if_neg Bool.false_ne_true]

theorem isLow_of_isHigh {c : CodePoint} (h : isHigh c = true) : isLow c = false := by
  simp only [isHigh, isLow, Bool.and_eq_true, Bool.and_eq_false_iff, decide_eq_true_eq,
    decide_eq_false_iff_not] at h ⊢
  omega

/-- The pending surrogate is the first character of what is still to be joined. -/
theorem flush_foldl (hs : ∀ h ∈ s.high, isHigh h = true) (cs : Text) :
    (cs.foldl Str.addEscaped s).flush =
      (joinSurrogates (s.high.toList ++ cs)).reverse ++ s.chars := by
  induction cs generalizing s with
  | nil =>
    rw [List.append_nil, List.foldl_nil, Str.flush]
    cases s.high <;> rfl
  | cons c cs ih =>
    obtain ⟨chars, high, esc⟩ := s
    rw [List.foldl_cons]
    by_cases hhigh : isHigh c
    · have hadd : Str.addEscaped ⟨chars, high, esc⟩ c = ⟨high.toList ++ chars, some c, .none⟩ :=
        if_pos hhigh
      rw [hadd, ih (by simpa using hhigh)]
      cases high with
      | none => rfl
      | some h => simp [joinSurrogates_alone (isLow_of_isHigh hhigh)]
    · have hnone : ∀ h ∈ (none : Option CodePoint), isHigh h = true := nofun
      cases high with
      | none =>
        have hadd : Str.addEscaped ⟨chars, none, esc⟩ c = ⟨c :: chars, none, .none⟩ := if_neg hhigh
        rw [hadd, ih hnone]
        simp [joinSurrogates_cons (Bool.eq_false_iff.mpr hhigh)]
      | some h =>
        have hh : isHigh h = true := hs h rfl
        by_cases hlow : isLow c
        · have hadd : Str.addEscaped ⟨chars, some h, esc⟩ c = ⟨join h c :: chars, none, .none⟩ := by
            simp [Str.addEscaped, hhigh, hlow]
          rw [hadd, ih hnone]
          simp [joinSurrogates, hh, hlow]
        · have hadd : Str.addEscaped ⟨chars, some h, esc⟩ c = ⟨c :: h :: chars, none, .none⟩ := by
            simp [Str.addEscaped, hhigh, hlow, Str.add, Str.flush]
          rw [hadd, ih hnone]
          simp [joinSurrogates_alone (Bool.eq_false_iff.mpr hlow),
            joinSurrogates_cons (Bool.eq_false_iff.mpr hhigh)]

/-- From the opening quote to the closing one. -/
theorem run_string (cs : Text) :
    run limit (.string fs isKey .empty) (cs.flatMap escape ++ [chr '"']) =
    if isKey then pushKey (joinSurrogates cs) fs
    else .ok (.between (push (.str (joinSurrogates cs)) fs)) := by
  have hbody : run limit (.string fs isKey .empty) (cs.flatMap escape) =
        .ok (.string fs isKey (cs.foldl Str.addEscaped .empty)) ∧
      (cs.foldl Str.addEscaped .empty).escape = .none := run_flatMap_escape rfl cs
  obtain ⟨hrun, hescape⟩ := hbody
  have hflush : (cs.foldl Str.addEscaped .empty).flush.reverse = joinSurrogates cs := by
    rw [flush_foldl fun _ hh => (by cases hh)]
    simp [Str.empty]
  have hclosed : (cs.foldl Str.addEscaped .empty).closed (chr '"') = true := by
    rw [Str.closed, hescape]
    rfl
  rw [run_append _ hrun]
  cases isKey <;> simp [run, State.step, hclosed, hflush]

end

/-- What is written as an object with one string is read as one. -/
theorem loads_singleton (limit : Nat) (key s : Text) :
    loads (limit + 1) (chr '\x7b' :: dumpString key ++ text ": " ++ dumpString s ++ [chr '\x7d']) =
      .ok (.obj [(joinSurrogates key, .str (joinSurrogates s))]) := by
  have hopen : (State.between ⟨[], .value⟩).step (limit + 1) (chr '\x7b') =
      .ok (.between ⟨[.obj []], .firstKey⟩) := by
    have hroom : 0 < limit + 1 := Nat.succ_pos limit
    simp [State.step, Place.step, start, openFrame, hroom, show isSpace (chr '\x7b') = false by rfl,
      show chr '\x7b' ≠ chr '"' by decide]
  have hkey : run (limit + 1) (.string [.obj []] true .empty) (key.flatMap escape ++ [chr '"']) =
      .ok (.between ⟨[.member [] (joinSurrogates key)], .colon⟩) := run_string key
  have hcolon : run (limit + 1) (.between ⟨[.member [] (joinSurrogates key)], .colon⟩) (text ": ") =
      .ok (.between ⟨[.member [] (joinSurrogates key)], .value⟩) := rfl
  have hstr : run (limit + 1) (.string [.member [] (joinSurrogates key)] false .empty)
      (s.flatMap escape ++ [chr '"']) =
      .ok (.between ⟨[.obj [(joinSurrogates key, .str (joinSurrogates s))]], .next⟩) := run_string s
  have hrun : run (limit + 1) (.between ⟨[], .value⟩)
      (chr '\x7b' :: dumpString key ++ text ": " ++ dumpString s ++ [chr '\x7d']) =
      .ok (.between ⟨[], .done (.obj [(joinSurrogates key, .str (joinSurrogates s))])⟩) := by
    have hshape : chr '\x7b' :: dumpString key ++ text ": " ++ dumpString s ++ [chr '\x7d'] =
        chr '\x7b' :: chr '"' :: (key.flatMap escape ++ [chr '"'] ++ (text ": " ++
          chr '"' :: (s.flatMap escape ++ [chr '"'] ++ [chr '\x7d']))) := by
      simp [dumpString]
    rw [hshape, run_cons hopen,
      run_cons (show _ = Except.ok (State.string [.obj []] true .empty) from rfl),
      run_append _ hkey, run_append _ hcolon,
      run_cons (show _ = Except.ok (State.string [.member [] (joinSurrogates key)] false .empty)
        from rfl), run_append _ hstr]
    rfl
  rw [loads, hrun]
  rfl

end Json
