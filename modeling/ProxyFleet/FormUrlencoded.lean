import ProxyFleet.LossyUtf8
import ProxyFleet.TextLines
import Mathlib.Data.List.TakeWhile

/-!
# The form encoding of URLs

Percent-encoded texts and the parser of `application/x-www-form-urlencoded`. A text that is
no form comes back from the parser as it is exactly when it has no separator, no plus sign
and no escape; a text behind a percent encoder comes back exactly when the encoder keeps
neither a separator nor a plus sign of it.
-/
namespace ProxyFleet.FormUrlencoded

def encodeUtf8 (t : List Char) : List UInt8 := t.flatMap String.utf8EncodeChar

section Definitions

def percent : UInt8 := 0x25

def plus : UInt8 := 0x2B

def space : UInt8 := 0x20

def ampersand : UInt8 := 0x26

def equals : UInt8 := 0x3D

def hexValue (byte : UInt8) : Option ℕ :=
  let n := byte.toNat
  if 0x30 ≤ n ∧ n ≤ 0x39 then some (n - 0x30)
  else if 0x41 ≤ n ∧ n ≤ 0x46 then some (n - 0x41 + 10)
  else if 0x61 ≤ n ∧ n ≤ 0x66 then some (n - 0x61 + 10)
  else none

/-- The byte of an escape. -/
def escaped (high low : UInt8) : Option UInt8 := do
  let h ← hexValue high
  let l ← hexValue low
  some (UInt8.ofNat (h * 16 + l))

def percentDecode : List UInt8 → List UInt8
  | [] => []
  | [x] => [x]
  | [x, y] => [x, y]
  | x :: y :: z :: bytes =>
    match if x = percent then escaped y z else none with
    | some byte => byte :: percentDecode bytes
    | none => x :: percentDecode (y :: z :: bytes)

def replacePlus (bytes : List UInt8) : List UInt8 :=
  bytes.map fun byte => if byte = plus then space else byte

def decodePart (bytes : List UInt8) : List Char :=
  LossyUtf8.decode (percentDecode (replacePlus bytes))

/-- Name and value of a sequence. -/
def pair (bytes : List UInt8) : List Char × List Char :=
  (decodePart (bytes.takeWhile (· ≠ equals)),
    decodePart ((bytes.dropWhile (· ≠ equals)).drop 1))

def parse (bytes : List UInt8) : List (List Char × List Char) :=
  ((bytes.splitOn ampersand).filter (· ≠ [])).map pair

/-- A reader of a text that takes the first name of a form for it. -/
def decodeName (t : List Char) : List Char :=
  ((parse (encodeUtf8 t)).head?.map Prod.fst).getD t

def hexDigits : List Char :=
  ['0', '1', '2', '3', '4', '5', '6', '7', '8', '9', 'A', 'B', 'C', 'D', 'E', 'F']

def escape (byte : UInt8) : List Char :=
  ['%', hexDigits.getD (byte.toNat / 16) '0', hexDigits.getD (byte.toNat % 16) '0']

/-- A character, and whether an encoder keeps it. -/
abbrev Marked := Char × Bool

def writeMarked (m : Marked) : List Char :=
  if m.2 then [m.1] else (String.utf8EncodeChar m.1).flatMap escape

/-- A text as an encoder writes it that escapes some of its characters. -/
def written (t : List Marked) : List Char := t.flatMap writeMarked

def plainText (t : List Marked) : List Char := t.map Prod.fst

/-- The percent encoder that keeps a class of characters. -/
def percentEncode (keep : Char → Bool) (t : List Char) : List Char :=
  written (t.map fun c => (c, keep c))

end Definitions

section Delimiters

variable {α β : Type} [DecidableEq β]

/-- An encoder writes a delimiter for the elements of a class alone. -/
structure Delimits (f : α → List β) (raw : α → Bool) (delimiter : β) : Prop where
  of_raw : ∀ a, raw a = true → f a = [delimiter]
  nonempty : ∀ a, f a ≠ []
  other : ∀ a, raw a = false → delimiter ∉ f a

variable {f : α → List β} {raw : α → Bool} {delimiter : β} (h : Delimits f raw delimiter)
include h

theorem Delimits.takeWhile (l : List α) :
    (l.flatMap f).takeWhile (· ≠ delimiter) = (l.takeWhile fun a => !raw a).flatMap f := by
  induction l with
  | nil => rfl
  | cons a l ih =>
    rw [List.flatMap_cons]
    cases hr : raw a with
    | true => simp [h.of_raw a hr, hr]
    | false =>
      have hne : ∀ b ∈ f a, decide (b ≠ delimiter) = true := fun b hb =>
        decide_eq_true fun he => h.other a hr (he ▸ hb)
      rw [List.takeWhile_append_of_pos hne, ih, List.takeWhile_cons_of_pos (by simp [hr]),
        List.flatMap_cons]

theorem Delimits.dropWhile (l : List α) :
    (l.flatMap f).dropWhile (· = delimiter) = (l.dropWhile raw).flatMap f := by
  induction l with
  | nil => rfl
  | cons a l ih =>
    rw [List.flatMap_cons]
    cases hr : raw a with
    | true =>
      rw [h.of_raw a hr, List.singleton_append, List.dropWhile_cons_of_pos (by simp), ih,
        List.dropWhile_cons_of_pos hr]
    | false =>
      obtain ⟨b, rest, hf⟩ := List.exists_cons_of_ne_nil (h.nonempty a)
      have hne : b ≠ delimiter := by
        intro he
        apply h.other a hr
        rw [hf, he]
        exact List.mem_cons_self
      rw [List.dropWhile_cons_of_neg (by simp [hr]), List.flatMap_cons, hf, List.cons_append,
        List.dropWhile_cons_of_neg (by simpa using hne)]

end Delimiters

section Bytes

theorem utf8EncodeChar_ascii {c : Char} (h : c.toNat < 128) :
    String.utf8EncodeChar c = [UInt8.ofNat c.toNat] := by
  rw [String.utf8EncodeChar]
  exact if_pos (Nat.le_of_lt_succ h)

/-- The bytes of a character that is not ASCII are no ASCII. -/
theorem utf8EncodeChar_high {c : Char} (h : 128 ≤ c.toNat) :
    ∀ byte ∈ String.utf8EncodeChar c, 128 ≤ byte.toNat := by
  have hvalid : c.val.toNat < 0xD800 ∨ (0xDFFF < c.val.toNat ∧ c.val.toNat < 0x110000) := c.valid
  intro byte hbyte
  rw [Char.toNat] at h
  rw [String.utf8EncodeChar] at hbyte
  split_ifs at hbyte with h₁ h₂ h₃
  · omega
  all_goals
    simp only [List.mem_cons, List.not_mem_nil, or_false] at hbyte
  · rcases hbyte with rfl | rfl <;> rw [UInt8.toNat_ofNat'] <;> omega
  · rcases hbyte with rfl | rfl | rfl <;> rw [UInt8.toNat_ofNat'] <;> omega
  · rcases hbyte with rfl | rfl | rfl | rfl <;> rw [UInt8.toNat_ofNat'] <;> omega

theorem utf8EncodeChar_ne_nil (c : Char) : String.utf8EncodeChar c ≠ [] := by
  rw [String.utf8EncodeChar]
  split_ifs <;> simp

theorem toNat_asciiByte {c : Char} (h : c.toNat < 128) :
    (UInt8.ofNat c.toNat).toNat = c.toNat := by
  rw [UInt8.toNat_ofNat']
  omega

/-- An ASCII byte is written for its character alone. -/
theorem delimits_utf8 {d : Char} (hd : d.toNat < 128) :
    Delimits String.utf8EncodeChar (· = d) (UInt8.ofNat d.toNat) where
  of_raw c hc := by
    obtain rfl : c = d := by simpa using hc
    exact utf8EncodeChar_ascii hd
  nonempty := utf8EncodeChar_ne_nil
  other c hc := by
    have hne : c ≠ d := by simpa using hc
    intro hmem
    by_cases hascii : c.toNat < 128
    · rw [utf8EncodeChar_ascii hascii, List.mem_singleton] at hmem
      have hnat := congrArg UInt8.toNat hmem
      rw [toNat_asciiByte hd, toNat_asciiByte hascii] at hnat
      exact hne (Char.toNat_inj.mp hnat.symm)
    · have := utf8EncodeChar_high (Nat.le_of_not_lt hascii) _ hmem
      rw [toNat_asciiByte hd] at this
      omega

theorem percentDecode_cons_of_ne {byte : UInt8} (h : byte ≠ percent) (bytes : List UInt8) :
    percentDecode (byte :: bytes) = byte :: percentDecode bytes := by
  match bytes with
  | [] => rfl
  | [_] => rfl
  | _ :: _ :: _ => rw [percentDecode, if_neg h]

theorem percentDecode_append {front : List UInt8} (h : percent ∉ front) (bytes : List UInt8) :
    percentDecode (front ++ bytes) = front ++ percentDecode bytes := by
  induction front with
  | nil => rfl
  | cons byte front ih =>
    rw [List.mem_cons, not_or] at h
    rw [List.cons_append, percentDecode_cons_of_ne (Ne.symm h.1), ih h.2, List.cons_append]

theorem percentDecode_escape {y z byte : UInt8} (h : escaped y z = some byte)
    (bytes : List UInt8) :
    percentDecode (percent :: y :: z :: bytes) = byte :: percentDecode bytes := by
  rw [percentDecode, if_pos rfl, h]

end Bytes

section Names

variable {α β : Type} [DecidableEq β]

theorem head?_splitOn (d : β) (l : List β) : (l.splitOn d).head? = some (l.takeWhile (· ≠ d)) := by
  induction l with
  | nil => rfl
  | cons a l ih =>
    rw [List.splitOn_cons_eq_if_modifyHead]
    by_cases h : a = d
    · simp [h]
    · obtain ⟨first, rest, hsplit⟩ := List.exists_cons_of_ne_nil (List.splitOn_ne_nil d l)
      rw [hsplit, List.head?_cons, Option.some.injEq] at ih
      simp [h, hsplit, ih]

/-- The first sequence that is not empty. -/
theorem head?_sequences (d : β) (l : List β) :
    ((l.splitOn d).filter (· ≠ [])).head? =
      if l.dropWhile (· = d) = [] then none
      else some ((l.dropWhile (· = d)).takeWhile (· ≠ d)) := by
  induction l with
  | nil => rfl
  | cons a l ih =>
    rw [List.splitOn_cons_eq_if_modifyHead]
    by_cases h : a = d
    · simpa [h] using ih
    · obtain ⟨first, rest, hsplit⟩ := List.exists_cons_of_ne_nil (List.splitOn_ne_nil d l)
      have hhead := head?_splitOn d l
      rw [hsplit, List.head?_cons, Option.some.injEq] at hhead
      simp [h, hsplit, hhead]

/-- The characters that a part of a form stands for. -/
def decodeText (t : List Char) : List Char := decodePart (encodeUtf8 t)

/-- The part of a text that is the first name of a form. -/
def firstName (amp eq : α → Bool) (t : List α) : List α :=
  ((t.dropWhile amp).takeWhile fun c => !amp c).takeWhile fun c => !eq c

section Parts

variable {amp eq : α → Bool} {t : List α}

theorem firstName_sublist : (firstName amp eq t).Sublist t :=
  ((List.takeWhile_sublist _).trans (List.takeWhile_sublist _)).trans (List.dropWhile_sublist _)

/-- A text without separators is all of its first name. -/
theorem firstName_eq_self_iff :
    firstName amp eq t = t ↔ ∀ c ∈ t, amp c = false ∧ eq c = false := by
  constructor
  · intro h c hc
    rw [← h] at hc
    have heq := List.mem_takeWhile_imp hc
    have hamp := List.mem_takeWhile_imp ((List.takeWhile_sublist _).subset hc)
    exact ⟨by simpa using hamp, by simpa using heq⟩
  · intro h
    have hdrop : t.dropWhile amp = t := by
      cases t with
      | nil => rfl
      | cons c t => exact List.dropWhile_cons_of_neg (by simp [(h c List.mem_cons_self).1])
    have htake : t.takeWhile (fun c => !amp c) = t :=
      List.takeWhile_eq_self_iff.mpr fun c hc => by simp [(h c hc).1]
    rw [firstName, hdrop, htake]
    exact List.takeWhile_eq_self_iff.mpr fun c hc => by simp [(h c hc).2]

theorem dropWhile_eq_nil_iff : t.dropWhile amp = [] ↔ ∀ c ∈ t, amp c = true :=
  List.dropWhile_eq_nil_iff

end Parts

theorem decodeName_flatMap {f : α → List Char} {amp eq : α → Bool}
    (hamp : Delimits f amp '&') (heq : Delimits f eq '=') (t : List α) :
    decodeName (t.flatMap f) =
      if t.dropWhile amp = [] then t.flatMap f
      else decodeText ((firstName amp eq t).flatMap f) := by
  have hampersand : ampersand = UInt8.ofNat '&'.toNat := by decide
  have hequals : equals = UInt8.ofNat '='.toNat := by decide
  have hbytes := (delimits_utf8 (d := '&') (by decide)).dropWhile (t.flatMap f)
  rw [← hampersand, hamp.dropWhile] at hbytes
  have hempty : (t.dropWhile amp).flatMap f = [] ↔ t.dropWhile amp = [] := by
    constructor
    · intro hnil
      cases hd : t.dropWhile amp with
      | nil => rfl
      | cons c rest =>
        rw [hd, List.flatMap_cons, List.append_eq_nil_iff] at hnil
        exact absurd hnil.1 (hamp.nonempty c)
    · intro hnil
      rw [hnil]
      rfl
  have hutf8 : ∀ u : List Char, u.flatMap String.utf8EncodeChar = [] ↔ u = [] := by
    intro u
    cases u with
    | nil => simp
    | cons c u => simp
  rw [decodeName, parse, List.head?_map, head?_sequences, encodeUtf8, hbytes]
  by_cases hall : t.dropWhile amp = []
  · simp [hall]
  · have hne : ((t.dropWhile amp).flatMap f).flatMap String.utf8EncodeChar ≠ [] := by
      rw [Ne, hutf8, hempty]
      exact hall
    rw [if_neg hne, if_neg hall]
    have hsegment := (delimits_utf8 (d := '&') (by decide)).takeWhile ((t.dropWhile amp).flatMap f)
    have hfirst := (delimits_utf8 (d := '=') (by decide)).takeWhile
      (((t.dropWhile amp).takeWhile fun c => !amp c).flatMap f)
    rw [← hampersand] at hsegment
    rw [← hequals] at hfirst
    have hchars : ∀ d : Char, (fun c : Char => !decide (c = d)) = fun c => decide (c ≠ d) := by
      intro d
      funext c
      simp
    simp only [hchars] at hsegment hfirst
    rw [hamp.takeWhile] at hsegment
    rw [heq.takeWhile] at hfirst
    simp only [Option.map_some, Option.getD_some, pair, hsegment, hfirst]
    rfl

end Names

section Escapes

/-- What the parser reads for a character that is no escape. -/
def plusToSpace (c : Char) : Char := if c = '+' then ' ' else c

def unescape (bytes : List UInt8) : List UInt8 := percentDecode (replacePlus bytes)

theorem replacePlus_append (front bytes : List UInt8) :
    replacePlus (front ++ bytes) = replacePlus front ++ replacePlus bytes := List.map_append

theorem replacePlus_utf8EncodeChar (c : Char) :
    replacePlus (String.utf8EncodeChar c) = String.utf8EncodeChar (plusToSpace c) := by
  by_cases h : c = '+'
  · subst h
    decide
  · have hplus : plus ∉ String.utf8EncodeChar c :=
      (delimits_utf8 (d := '+') (by decide)).other c (by simpa using h)
    rw [plusToSpace, if_neg h, replacePlus]
    refine (List.map_congr_left fun byte hbyte => ?_).trans (List.map_id _)
    exact if_neg fun he : byte = plus => hplus (he ▸ hbyte)

theorem unescape_utf8EncodeChar {c : Char} (h : c ≠ '%') (bytes : List UInt8) :
    unescape (String.utf8EncodeChar c ++ bytes) =
      String.utf8EncodeChar (plusToSpace c) ++ unescape bytes := by
  have hplain : plusToSpace c ≠ '%' := by
    rw [plusToSpace]
    split
    · decide
    · exact h
  have hpercent : percent ∉ String.utf8EncodeChar (plusToSpace c) :=
    (delimits_utf8 (d := '%') (by decide)).other _ (by simpa using hplain)
  rw [unescape, replacePlus_append, replacePlus_utf8EncodeChar, percentDecode_append hpercent]
  rfl

theorem unescape_escape (byte : UInt8) (bytes : List UInt8) :
    unescape (encodeUtf8 (escape byte) ++ bytes) = byte :: unescape bytes := by
  have hdigits : ∀ n < 16, ∃ b, String.utf8EncodeChar (hexDigits.getD n '0') = [b] ∧
      b ≠ plus ∧ hexValue b = some n := by
    intro n hn
    refine ⟨UInt8.ofNat (hexDigits.getD n '0').toNat, ?_, ?_⟩
    · apply utf8EncodeChar_ascii
      revert n
      decide
    · revert n
      decide
  have hbyte := byte.toNat_lt
  obtain ⟨high, hhigh, hhighPlus, hhighValue⟩ := hdigits (byte.toNat / 16) (by omega)
  obtain ⟨low, hlow, hlowPlus, hlowValue⟩ := hdigits (byte.toNat % 16) (by omega)
  have hbytes : encodeUtf8 (escape byte) = [percent, high, low] := by
    rw [encodeUtf8, escape, List.flatMap_cons, List.flatMap_cons, List.flatMap_cons, hhigh, hlow]
    rfl
  have hescaped : escaped high low = some byte := by
    have hsum : byte.toNat / 16 * 16 + byte.toNat % 16 = byte.toNat := by omega
    simp only [escaped, hhighValue, hlowValue, Option.bind_eq_bind, Option.bind_some, hsum,
      UInt8.ofNat_toNat]
  have hreplaced : replacePlus ([percent, high, low] ++ bytes) =
      percent :: high :: low :: replacePlus bytes := by
    have hpercent : percent ≠ plus := by decide
    simp [replacePlus, hpercent, hhighPlus, hlowPlus]
  rw [unescape, hbytes, hreplaced, percentDecode_escape hescaped, unescape]

theorem unescape_escapes (front bytes : List UInt8) :
    unescape (encodeUtf8 (front.flatMap escape) ++ bytes) = front ++ unescape bytes := by
  induction front with
  | nil => rfl
  | cons byte front ih =>
    rw [List.flatMap_cons, encodeUtf8, List.flatMap_append, List.append_assoc]
    exact (unescape_escape byte _).trans (congrArg (byte :: ·) ih)

end Escapes

section Encoders

variable {t : List Marked}

/-- What the parser reads for a character behind an encoder. -/
def readBack (m : Marked) : Char := if m.2 then plusToSpace m.1 else m.1

theorem unescape_written (h : ('%', true) ∉ t) :
    unescape (encodeUtf8 (written t)) = encodeUtf8 (t.map readBack) := by
  induction t with
  | nil => rfl
  | cons m t ih =>
    obtain ⟨c, kept⟩ := m
    rw [List.mem_cons, not_or] at h
    rw [written, List.flatMap_cons, encodeUtf8, List.flatMap_append, List.map_cons, encodeUtf8,
      List.flatMap_cons, readBack, writeMarked]
    cases kept with
    | true =>
      have hne : c ≠ '%' := fun he => h.1 (by rw [he])
      rw [if_pos rfl, if_pos rfl, List.flatMap_singleton, unescape_utf8EncodeChar hne]
      exact congrArg _ (ih h.2)
    | false =>
      rw [if_neg Bool.false_ne_true, if_neg Bool.false_ne_true]
      exact (unescape_escapes _ _).trans (congrArg _ (ih h.2))

/-- The parser undoes an encoder up to plus signs. -/
theorem decodeText_written (h : ('%', true) ∉ t) : decodeText (written t) = t.map readBack := by
  show LossyUtf8.decode (unescape (encodeUtf8 (written t))) = _
  rw [unescape_written h, encodeUtf8, LossyUtf8.decode_encode]

theorem mem_escape {byte : UInt8} {c : Char} (h : c ∈ escape byte) : c = '%' ∨ c ∈ hexDigits := by
  have hlt := byte.toNat_lt
  have hdigit : ∀ n < 16, hexDigits.getD n '0' ∈ hexDigits := by decide
  simp only [escape, List.mem_cons, List.not_mem_nil, or_false] at h
  rcases h with rfl | rfl | rfl
  · exact .inl rfl
  · exact .inr (hdigit _ (by omega))
  · exact .inr (hdigit _ (by omega))

/-- A written text has the characters that are kept and those of escapes. -/
theorem mem_written {c : Char} (h : c ∈ written t) :
    (c, true) ∈ t ∨ c = '%' ∨ c ∈ hexDigits := by
  obtain ⟨⟨d, kept⟩, hm, hc⟩ := List.mem_flatMap.mp h
  rw [writeMarked] at hc
  split at hc
  · next hkept =>
    obtain rfl := List.mem_singleton.mp hc
    obtain rfl : kept = true := hkept
    exact .inl hm
  · obtain ⟨byte, -, hbyte⟩ := List.mem_flatMap.mp hc
    exact .inr (mem_escape hbyte)

/-- An encoder writes a delimiter for those that it keeps alone. -/
theorem delimits_writeMarked {d : Char} (hd : d ≠ '%' ∧ d ∉ hexDigits) :
    Delimits writeMarked (fun m => decide (m = (d, true))) d where
  of_raw m hm := by
    obtain rfl : m = (d, true) := by simpa using hm
    rfl
  nonempty m := by
    rw [writeMarked]
    split
    · exact List.cons_ne_nil _ _
    · obtain ⟨byte, bytes, hbytes⟩ := List.exists_cons_of_ne_nil (utf8EncodeChar_ne_nil m.1)
      simp [hbytes, escape]
  other m hm hmem := by
    have hwritten : d ∈ written [m] := by simpa [written] using hmem
    rcases mem_written hwritten with hkept | he | hdigit
    · simp [← List.mem_singleton.mp hkept] at hm
    · exact hd.1 he
    · exact hd.2 hdigit

theorem written_of_kept (h : ∀ m ∈ t, m.2 = true) : written t = plainText t := by
  induction t with
  | nil => rfl
  | cons m t ih =>
    rw [written, List.flatMap_cons, writeMarked, if_pos (h m List.mem_cons_self)]
    exact congrArg (m.1 :: ·) (ih fun m hm => h m (List.mem_cons_of_mem _ hm))

/-- A text behind an encoder is read back exactly when no separator and no plus sign of it is
kept, or when it consists of kept ampersands. -/
theorem decodeName_written_iff (h : ('%', true) ∉ t) :
    decodeName (written t) = plainText t ↔
      (∀ m ∈ t, m = ('&', true)) ∨ ∀ m ∈ t, m.2 = true → m.1 ∉ ['+', '&', '='] := by
  have hname := decodeName_flatMap (delimits_writeMarked (d := '&') (by decide))
    (delimits_writeMarked (d := '=') (by decide)) t
  rw [← written] at hname
  by_cases hall : ∀ m ∈ t, m = ('&', true)
  · rw [hname, if_pos (dropWhile_eq_nil_iff.mpr fun m hm => by simpa using hall m hm)]
    exact iff_of_true (written_of_kept fun m hm => by rw [hall m hm]) (.inl hall)
  · have hne : ¬ t.dropWhile (fun m => decide (m = ('&', true))) = [] := by
      rw [dropWhile_eq_nil_iff]
      simpa using hall
    have hpercent : ('%', true) ∉ firstName (fun m => decide (m = ('&', true)))
        (fun m => decide (m = ('=', true))) t := fun hm => h (firstName_sublist.subset hm)
    rw [hname, if_neg hne, ← written, decodeText_written hpercent]
    constructor
    · intro hread
      right
      have hself : firstName (fun m => decide (m = ('&', true)))
          (fun m => decide (m = ('=', true))) t = t := by
        apply firstName_sublist.eq_of_length
        simpa [plainText] using congrArg List.length hread
      have hparts := firstName_eq_self_iff.mp hself
      rw [hself] at hread
      rintro ⟨c, kept⟩ hm rfl
      have hsame : readBack (c, true) = c := List.map_inj_left.mp hread (c, true) hm
      have hplus : c ≠ '+' := by
        rintro rfl
        exact absurd hsame (by decide)
      have hsplit := hparts (c, true) hm
      simp only [Prod.mk.injEq, and_true, decide_eq_false_iff_not] at hsplit
      simp [hplus, hsplit.1, hsplit.2]
    · rintro (hbad | hplain)
      · exact absurd hbad hall
      · have hparts : ∀ m ∈ t, decide (m = ('&', true)) = false ∧
            decide (m = ('=', true)) = false := by
          intro m hm
          have hkept := hplain m hm
          constructor
          · refine decide_eq_false fun he => ?_
            simp [he] at hkept
          · refine decide_eq_false fun he => ?_
            simp [he] at hkept
        rw [firstName_eq_self_iff.mpr hparts, plainText]
        refine List.map_congr_left fun m hm => ?_
        rw [readBack]
        split
        · next hk =>
          refine if_neg fun he : m.1 = '+' => ?_
          exact hplain m hm hk (by simp [he])
        · rfl

/-- One encoder behind another keeps what both keep. -/
theorem percentEncode_written {keep : Char → Bool} (hpercent : keep '%' = true)
    (hdigits : ∀ d ∈ hexDigits, keep d = true) (t : List Marked) :
    percentEncode keep (written t) = written (t.map fun m => (m.1, m.2 && keep m.1)) := by
  have hescape : ∀ bytes : List UInt8, percentEncode keep (bytes.flatMap escape) =
      bytes.flatMap escape := by
    intro bytes
    have hkept : ∀ c ∈ bytes.flatMap escape, keep c = true := by
      intro c hc
      obtain ⟨byte, -, hbyte⟩ := List.mem_flatMap.mp hc
      rcases mem_escape hbyte with rfl | hdigit
      · exact hpercent
      · exact hdigits c hdigit
    rw [percentEncode, written_of_kept]
    · rw [plainText, List.map_map]
      exact List.map_id _
    · intro m hm
      obtain ⟨c, hc, rfl⟩ := List.mem_map.mp hm
      exact hkept c hc
  induction t with
  | nil => rfl
  | cons m t ih =>
    obtain ⟨c, kept⟩ := m
    have happend : percentEncode keep (written ((c, kept) :: t)) =
        percentEncode keep (writeMarked (c, kept)) ++ percentEncode keep (written t) := by
      simp [percentEncode, written]
    rw [happend, ih, List.map_cons, written, written, List.flatMap_cons]
    congr 1
    cases kept with
    | true => simp [writeMarked, percentEncode, written]
    | false => exact hescape _

end Encoders

section Plain

variable {t : List Char} {c : Char}

def isHexDigit (c : Char) : Bool :=
  c.toNat < 128 && (hexValue (UInt8.ofNat c.toNat)).isSome

/-- A percent sign in front of two hexadecimal digits. -/
def HasEscape (t : List Char) : Prop :=
  ∃ high low, isHexDigit high = true ∧ isHexDigit low = true ∧ ['%', high, low] <:+: t

theorem hasEscape_cons_iff : HasEscape (c :: t) ↔
    (∃ high low rest, isHexDigit high = true ∧ isHexDigit low = true ∧ c = '%' ∧
      t = high :: low :: rest) ∨ HasEscape t := by
  constructor
  · rintro ⟨high, low, hhigh, hlow, hinfix⟩
    rcases List.infix_cons_iff.mp hinfix with ⟨rest, hrest⟩ | htail
    · obtain ⟨rfl, rfl⟩ : '%' = c ∧ high :: low :: rest = t := by simpa using hrest
      exact .inl ⟨high, low, rest, hhigh, hlow, rfl, rfl⟩
    · exact .inr ⟨high, low, hhigh, hlow, htail⟩
  · rintro (⟨high, low, rest, hhigh, hlow, rfl, rfl⟩ | ⟨high, low, hhigh, hlow, htail⟩)
    · exact ⟨high, low, hhigh, hlow, List.infix_cons_iff.mpr (.inl ⟨rest, rfl⟩)⟩
    · exact ⟨high, low, hhigh, hlow, List.infix_cons_iff.mpr (.inr htail)⟩

/-- A hexadecimal digit among the bytes is one of the text. -/
theorem head_of_hexValue {y : UInt8} {bytes : List UInt8}
    (h : replacePlus (encodeUtf8 t) = y :: bytes) (hex : (hexValue y).isSome = true) :
    ∃ digit rest, t = digit :: rest ∧ isHexDigit digit = true ∧
      bytes = replacePlus (encodeUtf8 rest) := by
  cases t with
  | nil => cases h
  | cons digit rest =>
    rw [encodeUtf8, List.flatMap_cons, replacePlus_append, replacePlus_utf8EncodeChar] at h
    by_cases hascii : (plusToSpace digit).toNat < 128
    · rw [utf8EncodeChar_ascii hascii, List.singleton_append] at h
      obtain ⟨rfl, hbytes⟩ := List.cons.inj h
      have hdigit : plusToSpace digit = digit := by
        by_contra hne
        have hplus : digit = '+' := by
          by_contra hplain
          exact hne (if_neg hplain)
        subst hplus
        exact absurd hex (by decide)
      rw [hdigit] at hex hascii
      exact ⟨digit, rest, rfl, by simp [isHexDigit, hascii, hex], hbytes.symm⟩
    · have hhigh := utf8EncodeChar_high (Nat.le_of_not_lt hascii)
      obtain ⟨byte, others, hchar⟩ := List.exists_cons_of_ne_nil
        (utf8EncodeChar_ne_nil (plusToSpace digit))
      rw [hchar, List.cons_append] at h
      obtain ⟨rfl, -⟩ := List.cons.inj h
      have := hhigh byte (hchar ▸ List.mem_cons_self)
      rw [hexValue] at hex
      rw [if_neg (by omega), if_neg (by omega), if_neg (by omega)] at hex
      cases hex

theorem decodeText_cons (h : c ≠ '%') : decodeText (c :: t) = plusToSpace c :: decodeText t := by
  show LossyUtf8.decode (unescape (encodeUtf8 (c :: t))) = _
  rw [encodeUtf8, List.flatMap_cons, unescape_utf8EncodeChar h, LossyUtf8.decode,
    LossyUtf8.decodeFrom_utf8EncodeChar]
  rfl

theorem replacePlus_percent (t : List Char) :
    replacePlus (encodeUtf8 ('%' :: t)) = percent :: replacePlus (encodeUtf8 t) := by
  have hbyte : String.utf8EncodeChar '%' = [percent] := by decide
  rw [encodeUtf8, List.flatMap_cons, hbyte, List.singleton_append, replacePlus, List.map_cons,
    if_neg (by decide)]
  rfl

/-- A percent sign that starts no escape stands for itself. -/
theorem decodeText_percent (h : ∀ high low rest, t = high :: low :: rest →
    ¬ (isHexDigit high = true ∧ isHexDigit low = true)) :
    decodeText ('%' :: t) = '%' :: decodeText t := by
  have hbytes : percentDecode (percent :: replacePlus (encodeUtf8 t)) =
      percent :: percentDecode (replacePlus (encodeUtf8 t)) := by
    cases hreplaced : replacePlus (encodeUtf8 t) with
    | nil => rfl
    | cons y bytes =>
      cases bytes with
      | nil => rfl
      | cons z bytes =>
        have hnone : escaped y z = none := by
          cases hy : hexValue y with
          | none => simp [escaped, hy]
          | some high =>
            cases hz : hexValue z with
            | none => simp [escaped, hy, hz]
            | some low =>
              obtain ⟨a, rest, rfl, ha, hrest⟩ := head_of_hexValue hreplaced (by simp [hy])
              obtain ⟨b, rest, rfl, hb, -⟩ := head_of_hexValue hrest.symm (by simp [hz])
              exact absurd ⟨ha, hb⟩ (h a b rest rfl)
        rw [percentDecode, if_pos rfl, hnone]
  show LossyUtf8.decode (percentDecode (replacePlus (encodeUtf8 ('%' :: t)))) = _
  rw [replacePlus_percent, hbytes, LossyUtf8.decode,
    LossyUtf8.decodeFrom_of_char (c := '%') (by rfl)]
  rfl

/-- An escape is at most one character. -/
theorem length_decodeText_escape {high low : Char} (hhigh : isHexDigit high = true)
    (hlow : isHexDigit low = true) :
    (decodeText ('%' :: high :: low :: t)).length ≤ (decodeText t).length + 1 := by
  have hdigit : ∀ c, isHexDigit c = true → ∃ byte n, String.utf8EncodeChar c = [byte] ∧
      hexValue byte = some n ∧ byte ≠ plus := by
    intro c hc
    rw [isHexDigit, Bool.and_eq_true, decide_eq_true_eq, Option.isSome_iff_exists] at hc
    obtain ⟨hascii, n, hn⟩ := hc
    refine ⟨_, n, utf8EncodeChar_ascii hascii, hn, ?_⟩
    intro he
    rw [he] at hn
    exact absurd hn (by decide +revert)
  obtain ⟨y, m, hy, hym, hyplus⟩ := hdigit high hhigh
  obtain ⟨z, n, hz, hzn, hzplus⟩ := hdigit low hlow
  have hescaped : escaped y z = some (UInt8.ofNat (m * 16 + n)) := by
    simp only [escaped, hym, hzn, Option.bind_eq_bind, Option.bind_some]
  have hbytes : replacePlus (encodeUtf8 ('%' :: high :: low :: t)) =
      percent :: y :: z :: replacePlus (encodeUtf8 t) := by
    rw [replacePlus_percent, encodeUtf8, List.flatMap_cons, List.flatMap_cons, hy, hz]
    simp [replacePlus, hyplus, hzplus, encodeUtf8]
  show (LossyUtf8.decode (percentDecode (replacePlus (encodeUtf8
    ('%' :: high :: low :: t))))).length ≤ _
  rw [hbytes, percentDecode_escape hescaped]
  exact LossyUtf8.length_decode_cons _ _

/-- Reading shortens a text with an escape, and lengthens none. -/
theorem length_decodeText (t : List Char) :
    (decodeText t).length ≤ t.length ∧ (HasEscape t → (decodeText t).length < t.length) := by
  induction hn : t.length using Nat.strong_induction_on generalizing t with
  | _ n ih =>
    subst hn
    cases t with
    | nil =>
      refine ⟨Nat.le_refl _, ?_⟩
      rintro ⟨high, low, -, -, hinfix⟩
      simp at hinfix
    | cons c t =>
      have hrest := ih t.length (by simp) t rfl
      by_cases hhead : ∃ high low rest, isHexDigit high = true ∧ isHexDigit low = true ∧
          c = '%' ∧ t = high :: low :: rest
      · obtain ⟨high, low, rest, hhigh, hlow, rfl, rfl⟩ := hhead
        have hlength := length_decodeText_escape (t := rest) hhigh hlow
        have hshort := (ih rest.length (by simp; omega) rest rfl).1
        have hlt : (decodeText ('%' :: high :: low :: rest)).length <
            ('%' :: high :: low :: rest).length := by
          simp only [List.length_cons]
          omega
        exact ⟨hlt.le, fun _ => hlt⟩
      · have hkept : (decodeText (c :: t)).length = (decodeText t).length + 1 := by
          by_cases hpercent : c = '%'
          · subst hpercent
            rw [decodeText_percent fun high low rest hrest hdigits =>
              hhead ⟨high, low, rest, hdigits.1, hdigits.2, rfl, hrest⟩]
            rfl
          · rw [decodeText_cons hpercent]
            rfl
        rw [hkept, List.length_cons, hasEscape_cons_iff]
        refine ⟨Nat.succ_le_succ hrest.1, ?_⟩
        rintro (hbad | hescape)
        · exact absurd hbad hhead
        · exact Nat.succ_lt_succ (hrest.2 hescape)

theorem decodeText_of_no_escape (h : ¬ HasEscape t) : decodeText t = t.map plusToSpace := by
  induction t with
  | nil => rfl
  | cons c t ih =>
    rw [hasEscape_cons_iff, not_or] at h
    by_cases hpercent : c = '%'
    · subst hpercent
      rw [decodeText_percent fun high low rest hrest hdigits =>
        h.1 ⟨high, low, rest, hdigits.1, hdigits.2, rfl, hrest⟩, ih h.2]
      rfl
    · rw [decodeText_cons hpercent, ih h.2]
      rfl

theorem delimits_self (d : Char) : Delimits (fun c => [c]) (fun c => decide (c = d)) d where
  of_raw c hc := by
    obtain rfl : c = d := by simpa using hc
    rfl
  nonempty c := List.cons_ne_nil _ _
  other c hc hmem := by
    obtain rfl := List.mem_singleton.mp hmem
    simp at hc

theorem decodeName_eq (t : List Char) :
    decodeName t =
      if ∀ c ∈ t, c = '&' then t
      else decodeText (firstName (fun c => decide (c = '&')) (fun c => decide (c = '=')) t) := by
  have hself : ∀ t : List Char, t.flatMap (fun c => [c]) = t := List.flatMap_singleton'
  have hname := decodeName_flatMap (delimits_self '&') (delimits_self '=') t
  rw [hself, hself] at hname
  rw [hname]
  refine if_congr ?_ rfl rfl
  rw [dropWhile_eq_nil_iff]
  simp

/-- A text in front that is no form stays in front. -/
theorem decodeName_append {front : List Char} (hne : front ≠ [])
    (hfront : ∀ c ∈ front, c ∉ ['%', '+', '&', '=']) (t : List Char) :
    ∃ rest, decodeName (front ++ t) = front ++ rest := by
  have hchar : ∀ c ∈ front, c ≠ '%' ∧ c ≠ '+' ∧ c ≠ '&' ∧ c ≠ '=' := by
    intro c hc
    simpa using hfront c hc
  have hdecode : ∀ u : List Char, decodeText (front ++ u) = front ++ decodeText u := by
    intro u
    clear hne hfront
    induction front with
    | nil => rfl
    | cons c front ih =>
      obtain ⟨hpercent, hplus, -⟩ := hchar c List.mem_cons_self
      rw [List.cons_append, decodeText_cons hpercent, plusToSpace, if_neg hplus,
        ih fun d hd => hchar d (List.mem_cons_of_mem _ hd), List.cons_append]
  obtain ⟨c, others, hcons⟩ := List.exists_cons_of_ne_nil hne
  have hmem : c ∈ front := hcons ▸ List.mem_cons_self
  have hall : ¬ ∀ d ∈ front ++ t, d = '&' := fun hall =>
    (hchar c hmem).2.2.1 (hall c (List.mem_append_left t hmem))
  have hdrop : (front ++ t).dropWhile (fun c => decide (c = '&')) = front ++ t := by
    rw [hcons]
    exact List.dropWhile_cons_of_neg (by simpa using (hchar c hmem).2.2.1)
  rw [decodeName_eq, if_neg hall, firstName, hdrop, List.takeWhile_append_of_pos,
    List.takeWhile_append_of_pos, hdecode]
  · exact ⟨_, rfl⟩
  · exact fun d hd => by simpa using (hchar d hd).2.2.2
  · exact fun d hd => by simpa using (hchar d hd).2.2.1

/-- A text that was never encoded is read back exactly when it has no separator, no plus sign
and no escape, or when it consists of ampersands. -/
theorem decodeName_eq_self_iff (t : List Char) :
    decodeName t = t ↔
      (∀ c ∈ t, c = '&') ∨ (∀ c ∈ t, c ∉ ['+', '&', '=']) ∧ ¬ HasEscape t := by
  rw [decodeName_eq]
  by_cases hall : ∀ c ∈ t, c = '&'
  · rw [if_pos hall]
    exact iff_of_true rfl (.inl hall)
  · rw [if_neg hall]
    generalize hfirst : firstName (fun c => decide (c = '&')) (fun c => decide (c = '=')) t = first
    have hsublist : first.Sublist t := hfirst ▸ firstName_sublist
    constructor
    · intro hread
      have hlength := (length_decodeText first).1
      rw [hread] at hlength
      obtain rfl := hsublist.eq_of_length (Nat.le_antisymm hsublist.length_le hlength)
      have hparts := firstName_eq_self_iff.mp hfirst
      have hescape : ¬ HasEscape first := by
        intro hescape
        have := (length_decodeText first).2 hescape
        rw [hread] at this
        exact Nat.lt_irrefl _ this
      rw [decodeText_of_no_escape hescape] at hread
      refine .inr ⟨fun c hc => ?_, hescape⟩
      have hsame : plusToSpace c = id c :=
        List.map_inj_left.mp (hread.trans (List.map_id first).symm) c hc
      have hplus : c ≠ '+' := by
        rintro rfl
        exact absurd hsame (by decide)
      have hsplit := hparts c hc
      simp only [decide_eq_false_iff_not] at hsplit
      simp [hplus, hsplit.1, hsplit.2]
    · rintro (hbad | ⟨hplain, hescape⟩)
      · exact absurd hbad hall
      · have hparts : firstName (fun c => decide (c = '&')) (fun c => decide (c = '=')) t = t := by
          refine firstName_eq_self_iff.mpr fun c hc => ?_
          have := hplain c hc
          simp only [List.mem_cons, List.not_mem_nil, or_false, not_or] at this
          simp [this.2.1, this.2.2]
        rw [← hfirst, hparts, decodeText_of_no_escape hescape]
        refine (List.map_congr_left fun c hc => ?_).trans (List.map_id _)
        exact if_neg fun he : c = '+' => hplain c hc (by simp [he])

end Plain

end ProxyFleet.FormUrlencoded
