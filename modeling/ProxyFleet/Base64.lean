import Mathlib.Data.List.GetD
import Mathlib.Data.List.Nodup

/-!
# Base64 with canonical padding

Encoders and strict decoders over an alphabet of 64 symbols, with or without
padding. A decoder refuses a symbol outside its alphabet, a missing or surplus
padding, and bits behind the last byte that are not zero.
-/
namespace ProxyFleet.Base64

structure Alphabet where
  symbols : List Char
  length_eq : symbols.length = 64
  nodup : symbols.Nodup
  pad_not_mem : '=' ∉ symbols

namespace Alphabet

variable (a : Alphabet)

/-- The symbol of six bits. -/
def symbol (n : ℕ) : Char := a.symbols.getD n '='

def value? (c : Char) : Option ℕ :=
  if c ∈ a.symbols then some (a.symbols.idxOf c) else none

theorem symbol_mem {n : ℕ} (h : n < 64) : a.symbol n ∈ a.symbols := by
  rw [symbol, List.getD_eq_getElem _ _ (by rw [a.length_eq]; exact h)]
  exact List.getElem_mem _

@[simp] theorem value?_symbol {n : ℕ} (h : n < 64) : a.value? (a.symbol n) = some n := by
  rw [value?, if_pos (a.symbol_mem h), symbol,
    List.getD_eq_getElem _ _ (by rw [a.length_eq]; exact h), a.nodup.idxOf_getElem]

theorem mem_of_value? {c : Char} {n : ℕ} (h : a.value? c = some n) : c ∈ a.symbols := by
  by_contra hc
  simp [value?, hc] at h

theorem symbol_ne_pad {n : ℕ} (h : n < 64) : a.symbol n ≠ '=' :=
  fun he => a.pad_not_mem (he ▸ a.symbol_mem h)

end Alphabet

/-- The symbols that the alphabets share. -/
def alphanumeric : List Char :=
  ['A', 'B', 'C', 'D', 'E', 'F', 'G', 'H', 'I', 'J', 'K', 'L', 'M', 'N', 'O', 'P', 'Q', 'R', 'S',
    'T', 'U', 'V', 'W', 'X', 'Y', 'Z', 'a', 'b', 'c', 'd', 'e', 'f', 'g', 'h', 'i', 'j', 'k',
    'l', 'm', 'n', 'o', 'p', 'q', 'r', 's', 't', 'u', 'v', 'w', 'x', 'y', 'z', '0', '1', '2',
    '3', '4', '5', '6', '7', '8', '9']

def standard : Alphabet where
  symbols := alphanumeric ++ ['+', '/']
  length_eq := by decide +kernel
  nodup := by decide +kernel
  pad_not_mem := by decide +kernel

def urlSafe : Alphabet where
  symbols := alphanumeric ++ ['-', '_']
  length_eq := by decide +kernel
  nodup := by decide +kernel
  pad_not_mem := by decide +kernel

variable (a : Alphabet)

def encode (padded : Bool) : List UInt8 → List Char
  | [] => []
  | [x] =>
    a.symbol (x.toNat / 4) :: a.symbol (x.toNat % 4 * 16) :: if padded then ['=', '='] else []
  | [x, y] =>
    a.symbol (x.toNat / 4) :: a.symbol (x.toNat % 4 * 16 + y.toNat / 16) ::
      a.symbol (y.toNat % 16 * 4) :: if padded then ['='] else []
  | x :: y :: z :: rest =>
    a.symbol (x.toNat / 4) :: a.symbol (x.toNat % 4 * 16 + y.toNat / 16) ::
      a.symbol (y.toNat % 16 * 4 + z.toNat / 64) :: a.symbol (z.toNat % 64) ::
        encode padded rest

def decodeTwo (c d : Char) : Option (List UInt8) := do
  let u ← a.value? c
  let v ← a.value? d
  if v % 16 = 0 then some [UInt8.ofNat (u * 4 + v / 16)] else none

def decodeThree (c d e : Char) : Option (List UInt8) := do
  let u ← a.value? c
  let v ← a.value? d
  let w ← a.value? e
  if w % 4 = 0 then
    some [UInt8.ofNat (u * 4 + v / 16), UInt8.ofNat (v % 16 * 16 + w / 4)]
  else none

def decodeFour (c d e f : Char) : Option (List UInt8) := do
  let u ← a.value? c
  let v ← a.value? d
  let w ← a.value? e
  let x ← a.value? f
  some [UInt8.ofNat (u * 4 + v / 16), UInt8.ofNat (v % 16 * 16 + w / 4),
    UInt8.ofNat (w % 4 * 64 + x)]

def decode (padded : Bool) : List Char → Option (List UInt8)
  | [] => some []
  | [_] => none
  | [c, d] => if padded then none else decodeTwo a c d
  | [c, d, e] => if padded then none else decodeThree a c d e
  | [c, d, e, f] =>
    if padded ∧ e = '=' ∧ f = '=' then decodeTwo a c d
    else if padded ∧ f = '=' then decodeThree a c d e
    else decodeFour a c d e f
  | c :: d :: e :: f :: rest => do
    let bytes ← decodeFour a c d e f
    let others ← decode padded rest
    some (bytes ++ others)

section RoundTrip

variable (x y z : UInt8)

theorem decodeTwo_encode :
    decodeTwo a (a.symbol (x.toNat / 4)) (a.symbol (x.toNat % 4 * 16)) = some [x] := by
  have hx := x.toNat_lt
  rw [decodeTwo, a.value?_symbol (by omega), a.value?_symbol (by omega)]
  have hsum : x.toNat / 4 * 4 + x.toNat % 4 * 16 / 16 = x.toNat := by omega
  simp only [Option.bind_eq_bind, Option.bind_some]
  rw [if_pos (by omega), hsum, UInt8.ofNat_toNat]

theorem decodeThree_encode :
    decodeThree a (a.symbol (x.toNat / 4)) (a.symbol (x.toNat % 4 * 16 + y.toNat / 16))
      (a.symbol (y.toNat % 16 * 4)) = some [x, y] := by
  have hx := x.toNat_lt
  have hy := y.toNat_lt
  rw [decodeThree, a.value?_symbol (by omega), a.value?_symbol (by omega),
    a.value?_symbol (by omega)]
  have hfirst : x.toNat / 4 * 4 + (x.toNat % 4 * 16 + y.toNat / 16) / 16 = x.toNat := by omega
  have hsecond : (x.toNat % 4 * 16 + y.toNat / 16) % 16 * 16 + y.toNat % 16 * 4 / 4 =
      y.toNat := by omega
  simp only [Option.bind_eq_bind, Option.bind_some]
  rw [if_pos (by omega), hfirst, hsecond, UInt8.ofNat_toNat, UInt8.ofNat_toNat]

theorem decodeFour_encode :
    decodeFour a (a.symbol (x.toNat / 4)) (a.symbol (x.toNat % 4 * 16 + y.toNat / 16))
      (a.symbol (y.toNat % 16 * 4 + z.toNat / 64)) (a.symbol (z.toNat % 64)) =
      some [x, y, z] := by
  have hx := x.toNat_lt
  have hy := y.toNat_lt
  have hz := z.toNat_lt
  rw [decodeFour, a.value?_symbol (by omega), a.value?_symbol (by omega),
    a.value?_symbol (by omega), a.value?_symbol (by omega)]
  have hfirst : x.toNat / 4 * 4 + (x.toNat % 4 * 16 + y.toNat / 16) / 16 = x.toNat := by omega
  have hsecond : (x.toNat % 4 * 16 + y.toNat / 16) % 16 * 16 +
      (y.toNat % 16 * 4 + z.toNat / 64) / 4 = y.toNat := by omega
  have hthird : (y.toNat % 16 * 4 + z.toNat / 64) % 4 * 64 + z.toNat % 64 = z.toNat := by omega
  simp only [Option.bind_eq_bind, Option.bind_some]
  rw [hfirst, hsecond, hthird, UInt8.ofNat_toNat, UInt8.ofNat_toNat, UInt8.ofNat_toNat]

end RoundTrip

/-- A full group in front of a text that decodes. -/
theorem decode_append_group {padded : Bool} {c d e f : Char} {bytes others : List UInt8}
    {text : List Char} (hf : f ≠ '=') (hgroup : decodeFour a c d e f = some bytes)
    (htext : decode a padded text = some others) :
    decode a padded (c :: d :: e :: f :: text) = some (bytes ++ others) := by
  cases text with
  | nil =>
    obtain rfl : [] = others := by simpa [decode] using htext
    simp [decode, hf, hgroup]
  | cons g text => simp [decode, hgroup, htext]

/-- Decoding inverts encoding with the same alphabet and padding. -/
theorem decode_encode (padded : Bool) (bytes : List UInt8) :
    decode a padded (encode a padded bytes) = some bytes := by
  induction bytes using encode.induct with
  | case1 => rfl
  | case2 x =>
    cases padded with
    | false => simpa [encode, decode] using decodeTwo_encode a x
    | true => simpa [encode, decode] using decodeTwo_encode a x
  | case3 x y =>
    have hy := y.toNat_lt
    have hne : a.symbol (y.toNat % 16 * 4) ≠ '=' := a.symbol_ne_pad (by omega)
    cases padded with
    | false => simpa [encode, decode] using decodeThree_encode a x y
    | true => simpa [encode, decode, hne] using decodeThree_encode a x y
  | case4 x y z rest ih =>
    have hz := z.toNat_lt
    exact decode_append_group a (a.symbol_ne_pad (by omega)) (decodeFour_encode a x y z) ih

/-- Every character of an encoding is a symbol or padding. -/
theorem mem_encode {padded : Bool} {bytes : List UInt8} {c : Char}
    (h : c ∈ encode a padded bytes) : c ∈ a.symbols ∨ c = '=' := by
  induction bytes using encode.induct with
  | case1 => simp [encode] at h
  | case2 x =>
    have hx := x.toNat_lt
    simp only [encode, List.mem_cons] at h
    rcases h with rfl | rfl | h
    · exact .inl (a.symbol_mem (by omega))
    · exact .inl (a.symbol_mem (by omega))
    · cases padded <;> simp_all
  | case3 x y =>
    have hx := x.toNat_lt
    have hy := y.toNat_lt
    simp only [encode, List.mem_cons] at h
    rcases h with rfl | rfl | rfl | h
    · exact .inl (a.symbol_mem (by omega))
    · exact .inl (a.symbol_mem (by omega))
    · exact .inl (a.symbol_mem (by omega))
    · cases padded <;> simp_all
  | case4 x y z rest ih =>
    have hx := x.toNat_lt
    have hy := y.toNat_lt
    have hz := z.toNat_lt
    simp only [encode, List.mem_cons] at h
    rcases h with rfl | rfl | rfl | rfl | h
    · exact .inl (a.symbol_mem (by omega))
    · exact .inl (a.symbol_mem (by omega))
    · exact .inl (a.symbol_mem (by omega))
    · exact .inl (a.symbol_mem (by omega))
    · exact ih h

theorem mem_of_decodeTwo {c d : Char} {bytes : List UInt8}
    (h : decodeTwo a c d = some bytes) : [c, d] ⊆ a.symbols := by
  simp only [decodeTwo, Option.bind_eq_bind, Option.bind_eq_some_iff] at h
  obtain ⟨u, hu, v, hv, -⟩ := h
  simp [a.mem_of_value? hu, a.mem_of_value? hv]

theorem mem_of_decodeThree {c d e : Char} {bytes : List UInt8}
    (h : decodeThree a c d e = some bytes) : [c, d, e] ⊆ a.symbols := by
  simp only [decodeThree, Option.bind_eq_bind, Option.bind_eq_some_iff] at h
  obtain ⟨u, hu, v, hv, w, hw, -⟩ := h
  simp [a.mem_of_value? hu, a.mem_of_value? hv, a.mem_of_value? hw]

theorem mem_of_decodeFour {c d e f : Char} {bytes : List UInt8}
    (h : decodeFour a c d e f = some bytes) : [c, d, e, f] ⊆ a.symbols := by
  simp only [decodeFour, Option.bind_eq_bind, Option.bind_eq_some_iff] at h
  obtain ⟨u, hu, v, hv, w, hw, x, hx, -⟩ := h
  simp [a.mem_of_value? hu, a.mem_of_value? hv, a.mem_of_value? hw, a.mem_of_value? hx]

/-- What decodes is made of symbols and padding. -/
theorem mem_of_decode {padded : Bool} {text : List Char} {bytes : List UInt8}
    (h : decode a padded text = some bytes) {c : Char} (hc : c ∈ text) :
    c ∈ a.symbols ∨ c = '=' := by
  fun_induction decode a padded text generalizing bytes with
  | case1 => cases hc
  | case2 => cases h
  | case3 => cases h
  | case4 => exact .inl (mem_of_decodeTwo a h hc)
  | case5 => cases h
  | case6 => exact .inl (mem_of_decodeThree a h hc)
  | case7 c' d e f hpad =>
    rcases List.mem_append.mp (show c ∈ [c', d] ++ [e, f] from hc) with hc | hc
    · exact .inl (mem_of_decodeTwo a h hc)
    · exact .inr (by simpa [hpad.2.1, hpad.2.2] using hc)
  | case8 c' d e f _ hpad =>
    rcases List.mem_append.mp (show c ∈ [c', d, e] ++ [f] from hc) with hc | hc
    · exact .inl (mem_of_decodeThree a h hc)
    · exact .inr (by simpa [hpad.2] using hc)
  | case9 => exact .inl (mem_of_decodeFour a h hc)
  | case10 c' d e f rest _ ih =>
    simp only [Option.bind_eq_bind, Option.bind_eq_some_iff] at h
    obtain ⟨group, hgroup, others, hothers, -⟩ := h
    rcases List.mem_append.mp (show c ∈ [c', d, e, f] ++ rest from hc) with hc | hc
    · exact .inl (mem_of_decodeFour a hgroup hc)
    · exact ih hothers hc

/-- A text with a character outside the alphabet and the padding does not decode. -/
theorem decode_eq_none (padded : Bool) {text : List Char} {c : Char} (hc : c ∈ text)
    (hpad : c ≠ '=') (hout : c ∉ a.symbols) : decode a padded text = none := by
  cases h : decode a padded text with
  | none => rfl
  | some bytes => exact absurd (mem_of_decode a h hc) (by simp [hpad, hout])

section FirstByte

variable {c d e f : Char} {bytes : List UInt8}

theorem Alphabet.value?_lt {n : ℕ} (h : a.value? c = some n) : n < 64 := by
  have hc := a.mem_of_value? h
  rw [value?, if_pos hc, Option.some.injEq] at h
  rw [← h, ← a.length_eq]
  exact List.idxOf_lt_length_iff.mpr hc

/-- The first byte holds the six bits of the first symbol. -/
theorem toNat_div_four {u low : ℕ} (hu : u < 64) (hlow : low < 4) :
    (UInt8.ofNat (u * 4 + low)).toNat / 4 = u := by
  rw [UInt8.toNat_ofNat']
  omega

theorem head_of_decodeTwo (h : decodeTwo a c d = some bytes) :
    ∃ byte rest, bytes = byte :: rest ∧ a.value? c = some (byte.toNat / 4) := by
  simp only [decodeTwo, Option.bind_eq_bind, Option.bind_eq_some_iff] at h
  obtain ⟨u, hu, v, hv, h⟩ := h
  have := a.value?_lt hv
  split at h
  · cases h
    exact ⟨_, _, rfl, by rw [hu, toNat_div_four (a.value?_lt hu) (by omega)]⟩
  · cases h

theorem head_of_decodeThree (h : decodeThree a c d e = some bytes) :
    ∃ byte rest, bytes = byte :: rest ∧ a.value? c = some (byte.toNat / 4) := by
  simp only [decodeThree, Option.bind_eq_bind, Option.bind_eq_some_iff] at h
  obtain ⟨u, hu, v, hv, w, hw, h⟩ := h
  have := a.value?_lt hv
  split at h
  · cases h
    exact ⟨_, _, rfl, by rw [hu, toNat_div_four (a.value?_lt hu) (by omega)]⟩
  · cases h

theorem head_of_decodeFour (h : decodeFour a c d e f = some bytes) :
    ∃ byte rest, bytes = byte :: rest ∧ a.value? c = some (byte.toNat / 4) := by
  simp only [decodeFour, Option.bind_eq_bind, Option.bind_eq_some_iff] at h
  obtain ⟨u, hu, v, hv, w, hw, x, hx, h⟩ := h
  have := a.value?_lt hv
  cases h
  exact ⟨_, _, rfl, by rw [hu, toNat_div_four (a.value?_lt hu) (by omega)]⟩

/-- What decodes from a first symbol starts with a byte that holds its bits. -/
theorem head_of_decode {padded : Bool} {text : List Char}
    (h : decode a padded (c :: text) = some bytes) :
    ∃ byte rest, bytes = byte :: rest ∧ a.value? c = some (byte.toNat / 4) := by
  match text with
  | [] => cases h
  | [d] =>
    rw [decode] at h
    split at h
    · cases h
    · exact head_of_decodeTwo a h
  | [d, e] =>
    rw [decode] at h
    split at h
    · cases h
    · exact head_of_decodeThree a h
  | [d, e, f] =>
    rw [decode] at h
    split at h
    · exact head_of_decodeTwo a h
    · split at h
      · exact head_of_decodeThree a h
      · exact head_of_decodeFour a h
  | d :: e :: f :: g :: text =>
    simp only [decode, Option.bind_eq_bind, Option.bind_eq_some_iff] at h
    obtain ⟨group, hgroup, others, -, h⟩ := h
    obtain ⟨byte, rest, rfl, hvalue⟩ := head_of_decodeFour a hgroup
    cases h
    exact ⟨byte, rest ++ others, rfl, hvalue⟩

end FirstByte

end ProxyFleet.Base64
