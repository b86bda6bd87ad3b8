import Mathlib.Data.List.Basic

/-!
# Lossy decoding of UTF-8

The decoder reads byte by byte. A sequence that breaks off is one replacement character,
and the byte that breaks it is read again. Texts are read back, also in front of other
bytes, and no byte adds more than one character.
-/
namespace ProxyFleet.LossyUtf8

/-- The bytes that may follow. -/
inductive Bound where
  | all
  | fromA0
  | to9F
  | from90
  | to8F

def Bound.lower : Bound → ℕ
  | .all => 0x80
  | .fromA0 => 0xA0
  | .to9F => 0x80
  | .from90 => 0x90
  | .to8F => 0x80

def Bound.upper : Bound → ℕ
  | .all => 0xBF
  | .fromA0 => 0xBF
  | .to9F => 0x9F
  | .from90 => 0xBF
  | .to8F => 0x8F

theorem Bound.le_lower (bound : Bound) : 0x80 ≤ bound.lower := by
  cases bound <;> simp [lower]

theorem Bound.upper_le (bound : Bound) : bound.upper ≤ 0xBF := by
  cases bound <;> simp [upper]

/-- A sequence that is not complete: what may follow, how many bytes are to follow that one,
and the value so far. -/
structure Partial where
  bound : Bound
  more : ℕ
  value : ℕ

/-- What a first byte starts. -/
inductive First where
  | char (c : Char)
  | sequence (begun : Partial)
  | invalid

def first (byte : UInt8) : First :=
  let n := byte.toNat
  if n < 0x80 then .char (Char.ofNat n)
  else if n < 0xC2 then .invalid
  else if n < 0xE0 then .sequence ⟨.all, 0, n - 0xC0⟩
  else if n = 0xE0 then .sequence ⟨.fromA0, 1, 0⟩
  else if n = 0xED then .sequence ⟨.to9F, 1, 0xD⟩
  else if n < 0xF0 then .sequence ⟨.all, 1, n - 0xE0⟩
  else if n = 0xF0 then .sequence ⟨.from90, 2, 0⟩
  else if n < 0xF4 then .sequence ⟨.all, 2, n - 0xF0⟩
  else if n = 0xF4 then .sequence ⟨.to8F, 2, 4⟩
  else .invalid

def replacement : Char := '\uFFFD'

/-- The text of the bytes that follow a sequence, if one is not complete. -/
def decodeFrom : Option Partial → List UInt8 → List Char
  | none, [] => []
  | some _, [] => [replacement]
  | read, byte :: bytes =>
    let restart : List Char :=
      match first byte with
      | .char c => c :: decodeFrom none bytes
      | .sequence begun => decodeFrom (some begun) bytes
      | .invalid => replacement :: decodeFrom none bytes
    match read with
    | none => restart
    | some begun =>
      if begun.bound.lower ≤ byte.toNat ∧ byte.toNat ≤ begun.bound.upper then
        let value := begun.value * 64 + byte.toNat % 64
        match begun.more with
        | 0 => Char.ofNat value :: decodeFrom none bytes
        | more + 1 => decodeFrom (some ⟨.all, more, value⟩) bytes
      else replacement :: restart

def decode (bytes : List UInt8) : List Char := decodeFrom none bytes

example : decode [0xE2, 0x82, 0xAC, 0xE2, 0x28, 0xFF] = ['€', '\uFFFD', '(', '\uFFFD'] := by
  decide

section Steps

variable {byte : UInt8} {bytes : List UInt8} {begun : Partial} {bound : Bound} {more value : ℕ}

theorem decodeFrom_of_char {c : Char} (h : first byte = .char c) :
    decodeFrom none (byte :: bytes) = c :: decodeFrom none bytes := by
  simp only [decodeFrom, h]

theorem decodeFrom_of_sequence (h : first byte = .sequence begun) :
    decodeFrom none (byte :: bytes) = decodeFrom (some begun) bytes := by
  simp only [decodeFrom, h]

theorem decodeFrom_of_invalid (h : first byte = .invalid) :
    decodeFrom none (byte :: bytes) = replacement :: decodeFrom none bytes := by
  simp only [decodeFrom, h]

/-- The last byte of a sequence. -/
theorem decodeFrom_last (h : bound.lower ≤ byte.toNat ∧ byte.toNat ≤ bound.upper) :
    decodeFrom (some ⟨bound, 0, value⟩) (byte :: bytes) =
      Char.ofNat (value * 64 + byte.toNat % 64) :: decodeFrom none bytes := by
  simp only [decodeFrom, if_pos h]

theorem decodeFrom_more (h : bound.lower ≤ byte.toNat ∧ byte.toNat ≤ bound.upper) :
    decodeFrom (some ⟨bound, more + 1, value⟩) (byte :: bytes) =
      decodeFrom (some ⟨.all, more, value * 64 + byte.toNat % 64⟩) bytes := by
  simp only [decodeFrom, if_pos h]

/-- A byte that cannot follow breaks the sequence and is read again. -/
theorem decodeFrom_broken (h : ¬ (begun.bound.lower ≤ byte.toNat ∧
    byte.toNat ≤ begun.bound.upper)) :
    decodeFrom (some begun) (byte :: bytes) = replacement :: decodeFrom none (byte :: bytes) := by
  simp only [decodeFrom, if_neg h]

end Steps

section Texts

theorem toNat_follow (k : ℕ) : (UInt8.ofNat (k % 64 + 0x80)).toNat = k % 64 + 0x80 := by
  rw [UInt8.toNat_ofNat']
  omega

theorem follow_all (k : ℕ) : Bound.all.lower ≤ (UInt8.ofNat (k % 64 + 0x80)).toNat ∧
    (UInt8.ofNat (k % 64 + 0x80)).toNat ≤ Bound.all.upper := by
  rw [toNat_follow, Bound.lower, Bound.upper]
  omega

variable {n : ℕ} (bytes : List UInt8)

theorem decodeFrom_two (h : 0x80 ≤ n ∧ n ≤ 0x7FF) :
    decodeFrom none (UInt8.ofNat (n / 64 % 0x20 + 0xC0) :: UInt8.ofNat (n % 64 + 0x80) :: bytes) =
      Char.ofNat n :: decodeFrom none bytes := by
  have hlead : (UInt8.ofNat (n / 64 % 0x20 + 0xC0)).toNat = n / 64 + 0xC0 := by
    rw [UInt8.toNat_ofNat']
    omega
  have hfirst : first (UInt8.ofNat (n / 64 % 0x20 + 0xC0)) = .sequence ⟨.all, 0, n / 64⟩ := by
    simp only [first, hlead]
    rw [if_neg (by omega), if_neg (by omega), if_pos (by omega), Nat.add_sub_cancel]
  have hvalue : n / 64 * 64 + (n % 64 + 0x80) % 64 = n := by omega
  rw [decodeFrom_of_sequence hfirst, decodeFrom_last (follow_all n), toNat_follow, hvalue]

theorem first_three (h : 0x800 ≤ n ∧ n ≤ 0xFFFF) : ∃ bound,
    first (UInt8.ofNat (n / 4096 % 0x10 + 0xE0)) = .sequence ⟨bound, 1, n / 4096⟩ ∧
    ((n < 0xD800 ∨ 0xDFFF < n) →
      bound.lower ≤ (UInt8.ofNat (n / 64 % 64 + 0x80)).toNat ∧
      (UInt8.ofNat (n / 64 % 64 + 0x80)).toNat ≤ bound.upper) := by
  have hlead : (UInt8.ofNat (n / 4096 % 0x10 + 0xE0)).toNat = n / 4096 + 0xE0 := by
    rw [UInt8.toNat_ofNat']
    omega
  simp only [first, hlead, toNat_follow]
  rw [if_neg (by omega), if_neg (by omega), if_neg (by omega)]
  split
  · next he =>
    refine ⟨.fromA0, ?_, fun _ => ?_⟩
    · have hzero : n / 4096 = 0 := by omega
      rw [hzero]
    · rw [Bound.lower, Bound.upper]
      omega
  · split
    · next he =>
      refine ⟨.to9F, ?_, fun hplane => ?_⟩
      · have hthirteen : n / 4096 = 0xD := by omega
        rw [hthirteen]
      · rw [Bound.lower, Bound.upper]
        omega
    · rw [if_pos (by omega), Nat.add_sub_cancel]
      refine ⟨.all, rfl, fun _ => ?_⟩
      rw [Bound.lower, Bound.upper]
      omega

theorem decodeFrom_three (h : 0x800 ≤ n ∧ n ≤ 0xFFFF) (plane : n < 0xD800 ∨ 0xDFFF < n) :
    decodeFrom none (UInt8.ofNat (n / 4096 % 0x10 + 0xE0) ::
      UInt8.ofNat (n / 64 % 64 + 0x80) :: UInt8.ofNat (n % 64 + 0x80) :: bytes) =
      Char.ofNat n :: decodeFrom none bytes := by
  obtain ⟨bound, hfirst, hbound⟩ := first_three h
  have hvalue : (n / 4096 * 64 + (n / 64 % 64 + 0x80) % 64) * 64 + (n % 64 + 0x80) % 64 = n := by
    omega
  rw [decodeFrom_of_sequence hfirst, decodeFrom_more (hbound plane),
    decodeFrom_last (follow_all n), toNat_follow, toNat_follow, hvalue]

theorem first_four (h : 0x10000 ≤ n ∧ n ≤ 0x10FFFF) : ∃ bound,
    first (UInt8.ofNat (n / 262144 % 0x08 + 0xF0)) = .sequence ⟨bound, 2, n / 262144⟩ ∧
    bound.lower ≤ (UInt8.ofNat (n / 4096 % 64 + 0x80)).toNat ∧
    (UInt8.ofNat (n / 4096 % 64 + 0x80)).toNat ≤ bound.upper := by
  have hlead : (UInt8.ofNat (n / 262144 % 0x08 + 0xF0)).toNat = n / 262144 + 0xF0 := by
    rw [UInt8.toNat_ofNat']
    omega
  simp only [first, hlead, toNat_follow]
  rw [if_neg (by omega), if_neg (by omega), if_neg (by omega), if_neg (by omega),
    if_neg (by omega), if_neg (by omega)]
  split
  · next he =>
    refine ⟨.from90, ?_, ?_⟩
    · have hzero : n / 262144 = 0 := by omega
      rw [hzero]
    · rw [Bound.lower, Bound.upper]
      omega
  · split
    · rw [Nat.add_sub_cancel]
      refine ⟨.all, rfl, ?_⟩
      rw [Bound.lower, Bound.upper]
      omega
    · rw [if_pos (by omega)]
      refine ⟨.to8F, ?_, ?_⟩
      · have hfour : n / 262144 = 4 := by omega
        rw [hfour]
      · rw [Bound.lower, Bound.upper]
        omega

theorem decodeFrom_four (h : 0x10000 ≤ n ∧ n ≤ 0x10FFFF) :
    decodeFrom none (UInt8.ofNat (n / 262144 % 0x08 + 0xF0) ::
      UInt8.ofNat (n / 4096 % 64 + 0x80) :: UInt8.ofNat (n / 64 % 64 + 0x80) ::
        UInt8.ofNat (n % 64 + 0x80) :: bytes) =
      Char.ofNat n :: decodeFrom none bytes := by
  obtain ⟨bound, hfirst, hbound⟩ := first_four h
  have hvalue : ((n / 262144 * 64 + (n / 4096 % 64 + 0x80) % 64) * 64 +
      (n / 64 % 64 + 0x80) % 64) * 64 + (n % 64 + 0x80) % 64 = n := by
    omega
  rw [decodeFrom_of_sequence hfirst, decodeFrom_more hbound,
    decodeFrom_more (follow_all (n / 64)), decodeFrom_last (follow_all n), toNat_follow,
    toNat_follow, toNat_follow, hvalue]

/-- A character in front of other bytes is read back. -/
theorem decodeFrom_utf8EncodeChar (c : Char) :
    decodeFrom none (String.utf8EncodeChar c ++ bytes) = c :: decodeFrom none bytes := by
  have hchar : Char.ofNat c.val.toNat = c := Char.ofNat_toNat c
  have hvalid : c.val.toNat < 0xD800 ∨ (0xDFFF < c.val.toNat ∧ c.val.toNat < 0x110000) := c.valid
  rw [String.utf8EncodeChar]
  split_ifs with h₁ h₂ h₃
  · have hbyte : (UInt8.ofNat c.val.toNat).toNat = c.val.toNat := by
      rw [UInt8.toNat_ofNat']
      omega
    apply decodeFrom_of_char
    simp only [first, hbyte, hchar]
    rw [if_pos (by omega)]
  · have := decodeFrom_two bytes (n := c.val.toNat) (by omega)
    rwa [hchar] at this
  · have := decodeFrom_three bytes (n := c.val.toNat) (by omega) (by omega)
    rwa [hchar] at this
  · have := decodeFrom_four bytes (n := c.val.toNat) (by omega)
    rwa [hchar] at this

/-- A text in front of other bytes is read back. -/
theorem decode_append (t : List Char) :
    decode (t.flatMap String.utf8EncodeChar ++ bytes) = t ++ decode bytes := by
  induction t with
  | nil => rfl
  | cons c t ih =>
    rw [List.flatMap_cons, List.append_assoc, decode, decodeFrom_utf8EncodeChar]
    exact congrArg (c :: ·) ih

theorem decode_encode (t : List Char) : decode (t.flatMap String.utf8EncodeChar) = t := by
  have happend := decode_append [] t
  rw [List.append_nil] at happend
  rw [happend]
  exact List.append_nil t

end Texts

section Lengths

theorem length_decodeFrom_some (begun : Partial) (bytes : List UInt8) :
    (decodeFrom (some begun) bytes).length ≤ (decode bytes).length + 1 := by
  induction bytes generalizing begun with
  | nil => simp [decodeFrom]
  | cons byte bytes ih =>
    by_cases h : begun.bound.lower ≤ byte.toNat ∧ byte.toNat ≤ begun.bound.upper
    · -- a byte that follows starts nothing by itself
      have hlower := begun.bound.le_lower
      have hupper := begun.bound.upper_le
      have hinvalid : first byte = .invalid := by
        simp only [first]
        rw [if_neg (by omega), if_pos (by omega)]
      have hcount : (decode (byte :: bytes)).length = (decode bytes).length + 1 := by
        rw [decode, decodeFrom_of_invalid hinvalid]
        rfl
      obtain ⟨bound, more, value⟩ := begun
      cases more with
      | zero =>
        rw [decodeFrom_last h, hcount, List.length_cons]
        exact Nat.le_succ _
      | succ more =>
        rw [decodeFrom_more h, hcount]
        exact Nat.le_succ_of_le (ih _)
    · rw [decodeFrom_broken h]
      exact Nat.le_refl _

/-- A byte adds at most one character. -/
theorem length_decode_cons (byte : UInt8) (bytes : List UInt8) :
    (decode (byte :: bytes)).length ≤ (decode bytes).length + 1 := by
  cases h : first byte with
  | char c =>
    rw [decode, decodeFrom_of_char h]
    exact Nat.le_refl _
  | sequence begun =>
    rw [decode, decodeFrom_of_sequence h]
    exact length_decodeFrom_some begun bytes
  | invalid =>
    rw [decode, decodeFrom_of_invalid h]
    exact Nat.le_refl _

end Lengths

end ProxyFleet.LossyUtf8
