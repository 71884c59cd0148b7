import Raidex.Envelope

/-!
# Raidex.Base64

Payloads of envelopes in base64, in lines of 76 characters.

* `encodebytes`: the text of some bytes.
* `decodebytes_encodebytes`: it is decoded to these bytes.
-/

namespace Raidex

open Json (Text CodePoint)

def base64Char (v : Nat) : UInt8 :=
  if v < 26 then UInt8.ofNat (v + 65)
  else if v < 52 then UInt8.ofNat (v + 71)
  else if v < 62 then UInt8.ofNat (v - 4)
  else if v = 62 then 43
  else 47

/-- `binascii.b2a_base64`: a line, with its end. -/
def b2aBase64 : Bytes → Bytes
  | [] => [10]
  | [x] => [base64Char (x.toNat / 4), base64Char (x.toNat % 4 * 16), base64Pad, base64Pad, 10]
  | [x, y] =>
    [base64Char (x.toNat / 4), base64Char (x.toNat % 4 * 16 + y.toNat / 16),
      base64Char (y.toNat % 16 * 4), base64Pad, 10]
  | x :: y :: z :: rest =>
    base64Char (x.toNat / 4) :: base64Char (x.toNat % 4 * 16 + y.toNat / 16) ::
      base64Char (y.toNat % 16 * 4 + z.toNat / 64) :: base64Char (z.toNat % 64) :: b2aBase64 rest

/-- `base64.encodebytes`: 57 bytes a line. -/
def encodeLines (s : Bytes) : Bytes :=
  if s = [] then [] else b2aBase64 (s.take 57) ++ encodeLines (s.drop 57)
termination_by s.length
decreasing_by
  rename_i h
  have := List.length_pos_iff.mpr h
  simp only [List.length_drop]
  omega

/-- The text of bytes that are all ASCII. -/
def asciiText (s : Bytes) : Text := s.map fun b => Fin.ofNat 0x110000 b.toNat

def encodebytes (s : Bytes) : Text := asciiText (encodeLines s)

/-! ## Decoding -/

theorem base64Value?_char {v : Nat} (h : v < 64) : base64Value? (base64Char v) = some v := by
  have hall : ∀ v : Fin 64, base64Value? (base64Char v) = some v.val := by decide
  exact hall ⟨v, h⟩

theorem base64Char_ne_pad {v : Nat} (h : v < 64) : base64Char v ≠ base64Pad := by
  have hall : ∀ v : Fin 64, base64Char v ≠ base64Pad := by decide
  exact hall ⟨v, h⟩

theorem a2bBase64_char {v q l n : Nat} (h : v < 64) (cs : Bytes) :
    a2bBase64 q l n (base64Char v :: cs) =
      if n < 2 then a2bBase64 ((q + 1) % 4) (l * 64 + v) (n + 6) cs
      else (a2bBase64 ((q + 1) % 4) ((l * 64 + v) % 2 ^ (n - 2)) (n - 2) cs).map
        (UInt8.ofNat ((l * 64 + v) / 2 ^ (n - 2)) :: ·) := by
  rw [a2bBase64, if_neg (base64Char_ne_pad h), base64Value?_char h]

/-- Two characters hold a byte and the upper half of the next one. -/
theorem a2bBase64_pair (x : UInt8) {h : Nat} (hh : h < 16) (cs : Bytes) :
    a2bBase64 0 0 0 (base64Char (x.toNat / 4) :: base64Char (x.toNat % 4 * 16 + h) :: cs) =
      (a2bBase64 2 h 4 cs).map (x :: ·) := by
  have hx := x.toNat_lt
  have hjoin : (0 * 64 + x.toNat / 4) * 64 + (x.toNat % 4 * 16 + h) = x.toNat * 16 + h := by omega
  have hquot : (x.toNat * 16 + h) / 2 ^ (0 + 6 - 2) = x.toNat := by omega
  have hrem : (x.toNat * 16 + h) % 2 ^ (0 + 6 - 2) = h := by omega
  rw [a2bBase64_char (by omega), if_pos (by decide), a2bBase64_char (by omega),
    if_neg (by decide), hjoin, hquot, hrem, UInt8.ofNat_toNat]

/-- The third one completes this byte. -/
theorem a2bBase64_third (y : UInt8) {h : Nat} (hh : h < 4) (cs : Bytes) :
    a2bBase64 2 (y.toNat / 16) 4 (base64Char (y.toNat % 16 * 4 + h) :: cs) =
      (a2bBase64 3 h 2 cs).map (y :: ·) := by
  have hy := y.toNat_lt
  have hjoin : y.toNat / 16 * 64 + (y.toNat % 16 * 4 + h) = y.toNat * 4 + h := by omega
  have hquot : (y.toNat * 4 + h) / 2 ^ (4 - 2) = y.toNat := by omega
  have hrem : (y.toNat * 4 + h) % 2 ^ (4 - 2) = h := by omega
  rw [a2bBase64_char (by omega), if_neg (by decide), hjoin, hquot, hrem, UInt8.ofNat_toNat]

theorem a2bBase64_fourth (z : UInt8) (cs : Bytes) :
    a2bBase64 3 (z.toNat / 64) 2 (base64Char (z.toNat % 64) :: cs) =
      (a2bBase64 0 0 0 cs).map (z :: ·) := by
  have hjoin : z.toNat / 64 * 64 + z.toNat % 64 = z.toNat := by omega
  have hquot : z.toNat / 2 ^ (2 - 2) = z.toNat := Nat.div_one _
  have hrem : z.toNat % 2 ^ (2 - 2) = 0 := Nat.mod_one _
  rw [a2bBase64_char (by omega), if_neg (by decide), hjoin, hquot, hrem, UInt8.ofNat_toNat]

/-- Pads end the text, whatever follows. -/
theorem a2bBase64_pad (l n : Nat) (cs : Bytes) :
    a2bBase64 2 l n (base64Pad :: base64Pad :: cs) = some [] ∧
      a2bBase64 3 l n (base64Pad :: cs) = some [] := by
  constructor <;> simp [a2bBase64]

/-- The end of a line is skipped. -/
theorem a2bBase64_newline (cs : Bytes) : a2bBase64 0 0 0 (10 :: cs) = a2bBase64 0 0 0 cs := by
  rw [a2bBase64, if_neg (by decide), show base64Value? 10 = none by decide]

/-- Only a line that is not full has pads. -/
theorem a2bBase64_line (s cs : Bytes) (h : s.length % 3 = 0 ∨ cs = []) :
    a2bBase64 0 0 0 (b2aBase64 s ++ cs) = (a2bBase64 0 0 0 cs).map (s ++ ·) := by
  fun_induction b2aBase64 s with
  | case1 => simp [a2bBase64_newline]
  | case2 x =>
    have hpair := a2bBase64_pair x (show 0 < 16 by omega) [base64Pad, base64Pad, 10]
    obtain rfl : cs = [] := h.resolve_left (by simp)
    rw [Nat.add_zero, (a2bBase64_pad 0 4 [10]).1] at hpair
    rw [List.append_nil, hpair]
    rfl
  | case3 x y =>
    have hy := y.toNat_lt
    have hthird := a2bBase64_third y (show 0 < 4 by omega) [base64Pad, 10]
    obtain rfl : cs = [] := h.resolve_left (by simp)
    rw [Nat.add_zero, (a2bBase64_pad 0 2 [10]).2] at hthird
    rw [List.append_nil, a2bBase64_pair x (by omega), hthird]
    rfl
  | case4 x y z rest ih =>
    have hy := y.toNat_lt
    have hz := z.toNat_lt
    simp only [List.cons_append]
    rw [a2bBase64_pair x (by omega), a2bBase64_third y (by omega), a2bBase64_fourth,
      ih (h.imp_left fun h => by simp at h; omega)]
    cases a2bBase64 0 0 0 cs <;> simp

theorem a2bBase64_encodeLines (s : Bytes) : a2bBase64 0 0 0 (encodeLines s) = some s := by
  fun_induction encodeLines s with
  | case1 => rfl
  | case2 s h ih =>
    have hline : (s.take 57).length % 3 = 0 ∨ encodeLines (s.drop 57) = [] := by
      by_cases hlength : 57 ≤ s.length
      · exact .inl (by rw [List.length_take, Nat.min_eq_left hlength])
      · refine .inr ?_
        rw [List.drop_eq_nil_of_le (by omega), encodeLines]
        exact if_pos rfl
    rw [a2bBase64_line _ _ hline, ih]
    exact congrArg some (List.take_append_drop 57 s)

/-! ## The text -/

theorem encodeUtf8_ascii {b : UInt8} (h : b.toNat < 128) :
    encodeUtf8 (Fin.ofNat 0x110000 b.toNat) = some [b] := by
  have hval : (Fin.ofNat 0x110000 b.toNat).val = b.toNat := Json.val_ofNat (by omega)
  have hsurrogate : Json.isSurrogate (Fin.ofNat 0x110000 b.toNat) = false :=
    Json.isSurrogate_eq_false (.inl (by omega))
  simp only [encodeUtf8, hsurrogate, hval, Bool.false_eq_true, if_false, if_pos h,
    UInt8.ofNat_toNat]

theorem base64Char_lt (v : Nat) : (base64Char v).toNat < 128 := by
  unfold base64Char
  split_ifs
  · rw [UInt8.toNat_ofNat']; omega
  · rw [UInt8.toNat_ofNat']; omega
  · rw [UInt8.toNat_ofNat']; omega
  · decide
  · decide

theorem b2aBase64_lt (s : Bytes) : ∀ b ∈ b2aBase64 s, b.toNat < 128 := by
  fun_induction b2aBase64 s <;> simp_all [base64Char_lt, base64Pad]

theorem encodeLines_lt (s : Bytes) : ∀ b ∈ encodeLines s, b.toNat < 128 := by
  fun_induction encodeLines s with
  | case1 => simp
  | case2 s h ih =>
    exact List.forall_mem_append.mpr ⟨b2aBase64_lt _, ih⟩

theorem mapM_encodeUtf8 {s : Bytes} (h : ∀ b ∈ s, b.toNat < 128) :
    (asciiText s).mapM encodeUtf8 = some (s.map ([·])) := by
  induction s with
  | nil => rfl
  | cons b s ih =>
    obtain ⟨hb, hs⟩ := List.forall_mem_cons.mp h
    have htail := ih hs
    simp only [asciiText, List.map_cons, List.mapM_cons, encodeUtf8_ascii hb] at htail ⊢
    rw [htail]
    rfl

theorem decodebytes_encodebytes (s : Bytes) : decodebytes (encodebytes s) = some s := by
  have hflatten : ((encodeLines s).map ([·])).flatten = encodeLines s := by
    rw [← List.flatMap_def]; exact List.flatMap_singleton' _
  rw [decodebytes, encodebytes, mapM_encodeUtf8 (encodeLines_lt s), Option.bind_eq_bind,
    Option.bind_some, hflatten, a2bBase64_encodeLines]

end Raidex
