import ProxyFleet.Base64
import ProxyFleet.TextLines
import Mathlib.Data.List.DropRight

/-!
# Two alphabets of Base64

The decoders of two alphabets that give a shared symbol the same six bits never disagree,
whatever padding they expect. The standard and the URL-safe alphabet differ in their last
two symbols, so texts without these are the same in both.
-/
namespace ProxyFleet.Base64

section Agreement

variable {a b : Alphabet}

/-- A symbol of both alphabets has the same value in both. -/
def Alphabet.Agree (a b : Alphabet) : Prop :=
  ∀ c n m, a.value? c = some n → b.value? c = some m → n = m

theorem Alphabet.agree_self (a : Alphabet) : a.Agree a := by
  intro c n m hn hm
  rw [hn] at hm
  exact Option.some.inj hm

theorem standard_agree_urlSafe : standard.Agree urlSafe := by
  have hall : ∀ c ∈ standard.symbols, c ∈ urlSafe.symbols →
      standard.value? c = urlSafe.value? c := by decide +kernel
  intro c n m hn hm
  have heq := hall c (standard.mem_of_value? hn) (urlSafe.mem_of_value? hm)
  rw [hn, hm] at heq
  exact Option.some.inj heq

variable (agree : a.Agree b)
include agree

theorem decodeTwo_agree {c d : Char} {bytes others : List UInt8}
    (ha : decodeTwo a c d = some bytes) (hb : decodeTwo b c d = some others) :
    bytes = others := by
  simp only [decodeTwo, Option.bind_eq_bind, Option.bind_eq_some_iff] at ha hb
  obtain ⟨u, hu, v, hv, ha⟩ := ha
  obtain ⟨u', hu', v', hv', hb⟩ := hb
  obtain rfl := agree _ _ _ hu hu'
  obtain rfl := agree _ _ _ hv hv'
  rw [ha] at hb
  exact Option.some.inj hb

theorem decodeThree_agree {c d e : Char} {bytes others : List UInt8}
    (ha : decodeThree a c d e = some bytes) (hb : decodeThree b c d e = some others) :
    bytes = others := by
  simp only [decodeThree, Option.bind_eq_bind, Option.bind_eq_some_iff] at ha hb
  obtain ⟨u, hu, v, hv, w, hw, ha⟩ := ha
  obtain ⟨u', hu', v', hv', w', hw', hb⟩ := hb
  obtain rfl := agree _ _ _ hu hu'
  obtain rfl := agree _ _ _ hv hv'
  obtain rfl := agree _ _ _ hw hw'
  rw [ha] at hb
  exact Option.some.inj hb

theorem decodeFour_agree {c d e f : Char} {bytes others : List UInt8}
    (ha : decodeFour a c d e f = some bytes) (hb : decodeFour b c d e f = some others) :
    bytes = others := by
  simp only [decodeFour, Option.bind_eq_bind, Option.bind_eq_some_iff] at ha hb
  obtain ⟨u, hu, v, hv, w, hw, x, hx, ha⟩ := ha
  obtain ⟨u', hu', v', hv', w', hw', x', hx', hb⟩ := hb
  obtain rfl := agree _ _ _ hu hu'
  obtain rfl := agree _ _ _ hv hv'
  obtain rfl := agree _ _ _ hw hw'
  obtain rfl := agree _ _ _ hx hx'
  rw [ha] at hb
  exact Option.some.inj hb

omit agree in
theorem decodeFour_pad {c d e f : Char} (h : e = '=' ∨ f = '=') : decodeFour b c d e f = none := by
  cases hd : decodeFour b c d e f with
  | none => rfl
  | some bytes =>
    have hsub := mem_of_decodeFour b hd
    rcases h with rfl | rfl
    · exact absurd (hsub (by simp)) b.pad_not_mem
    · exact absurd (hsub (by simp)) b.pad_not_mem

/-- Two decoders that both succeed on a text agree. -/
theorem decode_agree {p q : Bool} {text : List Char} {bytes others : List UInt8}
    (ha : decode a p text = some bytes) (hb : decode b q text = some others) : bytes = others := by
  fun_induction decode a p text generalizing bytes others with
  | case1 =>
    rw [decode] at hb
    exact Option.some.inj (ha.symm.trans hb)
  | case2 => cases ha
  | case3 => cases ha
  | case4 =>
    rw [decode] at hb
    split at hb
    · cases hb
    · exact decodeTwo_agree agree ha hb
  | case5 => cases ha
  | case6 =>
    rw [decode] at hb
    split at hb
    · cases hb
    · exact decodeThree_agree agree ha hb
  | case7 c d e f hpad =>
    obtain ⟨-, he, hf⟩ := hpad
    rw [decode, decodeFour_pad (.inl he)] at hb
    split at hb
    · exact decodeTwo_agree agree ha hb
    · split at hb
      · next hnot hq => exact absurd ⟨hq.1, he, hf⟩ hnot
      · cases hb
  | case8 c d e f hnot hpad =>
    rw [decode, decodeFour_pad (.inr hpad.2)] at hb
    split at hb
    · next hq => exact absurd ⟨hpad.1, hq.2⟩ hnot
    · split at hb
      · exact decodeThree_agree agree ha hb
      · cases hb
  | case9 c d e f hnotTwo hnotThree =>
    have hf : f ≠ '=' := fun hf => by
      rw [decodeFour_pad (.inr hf)] at ha
      cases ha
    rw [decode, if_neg fun hq => hf hq.2.2, if_neg fun hq => hf hq.2] at hb
    exact decodeFour_agree agree ha hb
  | case10 c d e f rest hrest ih =>
    cases rest with
    | nil => exact absurd rfl hrest
    | cons g rest =>
      rw [decode] at hb
      · simp only [Option.bind_eq_bind, Option.bind_eq_some_iff, Option.some.injEq] at ha hb
        obtain ⟨group, hgroup, tail, htail, rfl⟩ := ha
        obtain ⟨group', hgroup', tail', htail', rfl⟩ := hb
        rw [decodeFour_agree agree hgroup hgroup', ih htail htail']
      · exact hrest

end Agreement

section Lengths

variable (a : Alphabet)

theorem length_of_decode_padded {text : List Char} {bytes : List UInt8}
    (h : decode a true text = some bytes) : text.length % 4 = 0 := by
  fun_induction decode a true text generalizing bytes with
  | case1 => rfl
  | case2 => cases h
  | case3 => cases h
  | case4 c d hp => exact absurd rfl hp
  | case5 => cases h
  | case6 c d e hp => exact absurd rfl hp
  | case7 => simp
  | case8 => simp
  | case9 => simp
  | case10 c d e f rest hrest ih =>
    simp only [Option.bind_eq_bind, Option.bind_eq_some_iff] at h
    obtain ⟨group, -, others, hothers, -⟩ := h
    have hlength := ih hothers
    simp only [List.length_cons]
    omega

theorem length_encode (bytes : List UInt8) :
    (encode a false bytes).length % 4 = 0 ↔ bytes.length % 3 = 0 := by
  induction bytes using encode.induct with
  | case1 => simp [encode]
  | case2 x => simp [encode]
  | case3 x y => simp [encode]
  | case4 x y z rest ih =>
    simp only [encode, List.length_cons]
    omega

/-- Whole groups have no padding. -/
theorem encode_padded {bytes : List UInt8} (h : bytes.length % 3 = 0) :
    encode a true bytes = encode a false bytes := by
  induction bytes using encode.induct with
  | case1 => rfl
  | case2 x => cases h
  | case3 x y => cases h
  | case4 x y z rest ih =>
    simp only [List.length_cons] at h
    rw [encode, encode, ih (by omega)]

theorem pad_not_mem_encode (bytes : List UInt8) : '=' ∉ encode a false bytes := by
  induction bytes using encode.induct with
  | case1 => exact List.not_mem_nil
  | case2 x =>
    have hx := x.toNat_lt
    simp only [encode, List.mem_cons, not_or]
    exact ⟨(a.symbol_ne_pad (by omega)).symm, (a.symbol_ne_pad (by omega)).symm, by simp⟩
  | case3 x y =>
    have hx := x.toNat_lt
    have hy := y.toNat_lt
    simp only [encode, List.mem_cons, not_or]
    exact ⟨(a.symbol_ne_pad (by omega)).symm, (a.symbol_ne_pad (by omega)).symm,
      (a.symbol_ne_pad (by omega)).symm, by simp⟩
  | case4 x y z rest ih =>
    have hx := x.toNat_lt
    have hy := y.toNat_lt
    have hz := z.toNat_lt
    simp only [encode, List.mem_cons, not_or]
    exact ⟨(a.symbol_ne_pad (by omega)).symm, (a.symbol_ne_pad (by omega)).symm,
      (a.symbol_ne_pad (by omega)).symm, (a.symbol_ne_pad (by omega)).symm, ih⟩

theorem encode_eq_append (padded : Bool) (bytes : List UInt8) :
    ∃ pads, encode a padded bytes = encode a false bytes ++ pads ∧ ∀ c ∈ pads, c = '=' := by
  cases padded with
  | false => exact ⟨[], (List.append_nil _).symm, by simp⟩
  | true =>
    induction bytes using encode.induct with
    | case1 => exact ⟨[], rfl, by simp⟩
    | case2 x => exact ⟨['=', '='], rfl, by simp⟩
    | case3 x y => exact ⟨['='], rfl, by simp⟩
    | case4 x y z rest ih =>
      obtain ⟨pads, hencode, hpads⟩ := ih
      refine ⟨pads, ?_, hpads⟩
      rw [encode, encode, hencode]
      rfl

/-- Without its padding a text is the unpadded encoding. -/
theorem rdropWhile_encode (padded : Bool) (bytes : List UInt8) :
    (encode a padded bytes).rdropWhile (· = '=') = encode a false bytes := by
  obtain ⟨pads, hencode, hpads⟩ := encode_eq_append a padded bytes
  have hdrop : ∀ c ∈ pads.reverse, decide (c = '=') = true := fun c hc =>
    decide_eq_true (hpads c (List.mem_reverse.mp hc))
  have hsymbols : ∀ c ∈ (encode a false bytes).reverse, decide (c = '=') = false := fun c hc =>
    decide_eq_false fun he => pad_not_mem_encode a bytes (he ▸ List.mem_reverse.mp hc)
  rw [hencode, List.rdropWhile, List.reverse_append, List.dropWhile_append_of_pos hdrop]
  cases hlast : (encode a false bytes).reverse with
  | nil => exact (List.reverse_eq_nil_iff.mp hlast).symm
  | cons c rest =>
    rw [hlast] at hsymbols
    rw [List.dropWhile_cons_of_neg (by simpa using hsymbols c List.mem_cons_self), ← hlast,
      List.reverse_reverse]

/-- Encodings without the two last symbols of the standard alphabet. -/
theorem encode_standard {padded : Bool} {bytes : List UInt8}
    (h : ∀ c ∈ encode standard padded bytes, c ≠ '+' ∧ c ≠ '/') :
    encode standard padded bytes = encode urlSafe padded bytes := by
  have hsymbol : ∀ n < 64, standard.symbol n ≠ '+' ∧ standard.symbol n ≠ '/' →
      standard.symbol n = urlSafe.symbol n := by decide +kernel
  induction bytes using encode.induct with
  | case1 => rfl
  | case2 x =>
    have hx := x.toNat_lt
    simp only [encode, List.forall_mem_cons] at h ⊢
    rw [hsymbol _ (by omega) h.1, hsymbol _ (by omega) h.2.1]
  | case3 x y =>
    have hx := x.toNat_lt
    have hy := y.toNat_lt
    simp only [encode, List.forall_mem_cons] at h ⊢
    rw [hsymbol _ (by omega) h.1, hsymbol _ (by omega) h.2.1, hsymbol _ (by omega) h.2.2.1]
  | case4 x y z rest ih =>
    have hx := x.toNat_lt
    have hy := y.toNat_lt
    have hz := z.toNat_lt
    simp only [encode, List.forall_mem_cons] at h ⊢
    rw [hsymbol _ (by omega) h.1, hsymbol _ (by omega) h.2.1, hsymbol _ (by omega) h.2.2.1,
      hsymbol _ (by omega) h.2.2.2.1, ih h.2.2.2.2]

end Lengths

end ProxyFleet.Base64
