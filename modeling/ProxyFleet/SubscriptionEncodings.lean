import ProxyFleet.AcceptedShares
import ProxyFleet.Base64Alphabets
import ProxyFleet.LibraryReaders
import ProxyFleet.PublishedFeed
import ProxyFleet.RejectionReports

/-!
# Encoded subscriptions

A text of share URLs, comments and blank lines is read in the same way from its Base64
encodings, but for the standard alphabet without padding: there the parser decodes whole
groups, and other texts when the two last symbols of the alphabet do not occur. What is
reported of the lines does not depend on their encoding.
-/
namespace ProxyFleet

open TextLines

section Variants

/-- An alphabet of Base64, with or without padding. -/
structure Base64Variant where
  urlSafe : Bool
  padded : Bool

namespace Base64Variant

def alphabet (v : Base64Variant) : Base64.Alphabet :=
  if v.urlSafe then Base64.urlSafe else Base64.standard

def encode (v : Base64Variant) (bytes : List UInt8) : Text :=
  Base64.encode v.alphabet v.padded bytes

/-- No decoder is left for an encoding without padding. -/
def Lost (v : Base64Variant) (bytes : List UInt8) : Prop :=
  v.urlSafe = false ∧ v.padded = false ∧ bytes.length % 3 ≠ 0 ∧
    ('+' ∈ v.encode bytes ∨ '/' ∈ v.encode bytes)

variable {v : Base64Variant} {bytes : List UInt8}

theorem mem_encode {c : Char} (h : c ∈ v.encode bytes) : c ∈ base64Chars := by
  apply mem_base64Chars
  obtain ⟨urlSafe, padded⟩ := v
  rcases Base64.mem_encode _ h with hc | hc
  · cases urlSafe with
    | false => exact .inl hc
    | true => exact .inr (.inl hc)
  · exact .inr (.inr hc)

theorem decodeB64_encode_eq : decodeB64 (v.encode bytes) =
    (Base64.decode Base64.standard true (v.encode bytes) <|>
      Base64.decode Base64.urlSafe false (Base64.encode v.alphabet false bytes)) := by
  rw [decodeB64, encode, Base64.rdropWhile_encode]

/-- What the parser decodes was encoded. -/
theorem eq_of_decodeB64 {others : List UInt8} (h : decodeB64 (v.encode bytes) = some others) :
    others = bytes := by
  have hagree : Base64.standard.Agree v.alphabet ∧ v.alphabet.Agree Base64.urlSafe := by
    obtain ⟨urlSafe, padded⟩ := v
    cases urlSafe with
    | false => exact ⟨Base64.Alphabet.agree_self _, Base64.standard_agree_urlSafe⟩
    | true => exact ⟨Base64.standard_agree_urlSafe, Base64.Alphabet.agree_self _⟩
  rw [decodeB64_encode_eq, Option.orElse_eq_some] at h
  rcases h with h | ⟨-, h⟩
  · exact Base64.decode_agree hagree.1 h (Base64.decode_encode v.alphabet v.padded bytes)
  · exact (Base64.decode_agree hagree.2 (Base64.decode_encode v.alphabet false bytes) h).symm

theorem decodeB64_eq_none_iff : decodeB64 (v.encode bytes) = none ↔ v.Lost bytes := by
  obtain ⟨urlSafe, padded⟩ := v
  rw [decodeB64_encode_eq, Option.orElse_eq_none, Lost]
  cases urlSafe with
  | true =>
    have hsecond := Base64.decode_encode Base64.urlSafe false bytes
    simp [alphabet, hsecond]
  | false =>
    cases padded with
    | true =>
      have hfirst := Base64.decode_encode Base64.standard true bytes
      simp [encode, alphabet, hfirst]
    | false =>
      show Base64.decode Base64.standard true (Base64.encode Base64.standard false bytes) = none ∧
        Base64.decode Base64.urlSafe false (Base64.encode Base64.standard false bytes) = none ↔
          false = false ∧ false = false ∧ bytes.length % 3 ≠ 0 ∧
            ('+' ∈ Base64.encode Base64.standard false bytes ∨
              '/' ∈ Base64.encode Base64.standard false bytes)
      constructor
      · rintro ⟨hfirst, hsecond⟩
        refine ⟨rfl, rfl, fun hlength => ?_, ?_⟩
        · rw [← Base64.encode_padded _ hlength, Base64.decode_encode] at hfirst
          cases hfirst
        · by_contra hsymbols
          rw [not_or] at hsymbols
          rw [Base64.encode_standard fun c hc => ⟨fun he => hsymbols.1 (he ▸ hc),
            fun he => hsymbols.2 (he ▸ hc)⟩, Base64.decode_encode] at hsecond
          cases hsecond
      · rintro ⟨-, -, hlength, hsymbols⟩
        refine ⟨?_, ?_⟩
        · cases hdecode : Base64.decode Base64.standard true
              (Base64.encode Base64.standard false bytes) with
          | none => rfl
          | some others =>
            have hwhole := Base64.length_of_decode_padded _ hdecode
            exact absurd ((Base64.length_encode _ bytes).mp hwhole) hlength
        · rcases hsymbols with hplus | hslash
          · exact Base64.decode_eq_none _ false hplus (by decide) (by decide)
          · exact Base64.decode_eq_none _ false hslash (by decide) (by decide)

theorem decodeB64_encode (h : ¬ v.Lost bytes) : decodeB64 (v.encode bytes) = some bytes := by
  cases hdecode : decodeB64 (v.encode bytes) with
  | none => exact absurd (decodeB64_eq_none_iff.mp hdecode) h
  | some others => rw [eq_of_decodeB64 hdecode]

end Base64Variant

end Variants

section Blanks

/-- The lines that a subscription keeps. -/
def kept (ls : List Text) : List Text :=
  (ls.map (trim isWhitespace)).filter fun line => !line.isEmpty && line.head? ≠ some '#'

theorem kept_cons (line : Text) (ls : List Text) : kept (line :: ls) = kept [line] ++ kept ls := by
  rw [kept, kept, kept, List.map_cons, List.map_cons, List.map_nil, ← List.filter_append]
  rfl

theorem kept_congr {line other : Text} (h : trim isWhitespace line = trim isWhitespace other) :
    kept [line] = kept [other] := by
  rw [kept, kept, List.map_singleton, List.map_singleton, h]

theorem mem_kept {ls : List Text} {line : Text} : line ∈ kept ls ↔
    (∃ raw ∈ ls, trim isWhitespace raw = line) ∧ line ≠ [] ∧ line.head? ≠ some '#' := by
  rw [kept, List.mem_filter, List.mem_map]
  simp

variable {blank : Text} (hblank : ∀ c ∈ blank, isWhitespace c = true)

theorem trim_append_left {α : Type*} {p : α → Bool} {w : List α} (hw : ∀ a ∈ w, p a = true)
    (l : List α) : trim p (w ++ l) = trim p l := by
  rw [trim, List.dropWhile_append_of_pos hw, trim]

theorem trim_stripReturn (line : Text) :
    trim isWhitespace (stripReturn line) = trim isWhitespace line := by
  rw [stripReturn]
  split
  · next hlast =>
    obtain ⟨front, rfl⟩ := List.getLast?_eq_some_iff.mp hlast
    rw [List.dropLast_concat, trim_append_right]
    decide
  · rfl

theorem kept_linesFrom_nil (read : Text) : kept (linesFrom read []) = kept [read.reverse] := by
  rw [linesFrom]
  split
  · next h =>
    subst h
    decide
  · rfl

include hblank

/-- Blanks in front of a line do not matter. -/
theorem kept_linesFrom_append (read text : Text) :
    kept (linesFrom (read ++ blank) text) = kept (linesFrom read text) := by
  have hreverse : ∀ c ∈ blank.reverse, isWhitespace c = true :=
    fun c hc => hblank c (List.mem_reverse.mp hc)
  have htrim : ∀ read : Text, trim isWhitespace (read ++ blank).reverse =
      trim isWhitespace read.reverse := by
    intro read
    rw [List.reverse_append, trim_append_left hreverse]
  induction text generalizing read with
  | nil =>
    rw [kept_linesFrom_nil, kept_linesFrom_nil]
    exact kept_congr (htrim read)
  | cons c text ih =>
    rw [linesFrom, linesFrom]
    split
    · rw [kept_cons, kept_cons (stripReturn read.reverse)]
      congr 1
      apply kept_congr
      rw [trim_stripReturn, trim_stripReturn, htrim]
    · rw [← List.cons_append, ih]

theorem kept_linesFrom_blank (read : Text) :
    kept (linesFrom read blank) = kept [read.reverse] := by
  induction blank generalizing read with
  | nil => exact kept_linesFrom_nil read
  | cons c blank ih =>
    rw [List.forall_mem_cons] at hblank
    rw [linesFrom]
    split
    · rw [kept_cons, ih hblank.2, kept_congr (trim_stripReturn _)]
      exact List.append_nil _
    · rw [ih hblank.2, List.reverse_cons]
      apply kept_congr
      rw [trim_append_right]
      simpa using hblank.1

/-- Blanks behind a text do not matter. -/
theorem kept_lines_append (read text : Text) :
    kept (linesFrom read (text ++ blank)) = kept (linesFrom read text) := by
  induction text generalizing read with
  | nil => rw [List.nil_append, kept_linesFrom_blank hblank, kept_linesFrom_nil]
  | cons c text ih =>
    rw [List.cons_append, linesFrom, linesFrom]
    split
    · rw [kept_cons, ih, ← kept_cons]
    · exact ih _

/-- Blanks in front of a text do not matter. -/
theorem kept_append_lines {read : Text} (hread : ∀ c ∈ read, isWhitespace c = true)
    (text : Text) : kept (linesFrom read (blank ++ text)) = kept (lines text) := by
  induction blank generalizing read with
  | nil =>
    have hnil := kept_linesFrom_append hread [] text
    rwa [List.nil_append] at hnil
  | cons c blank ih =>
    rw [List.forall_mem_cons] at hblank
    rw [List.cons_append, linesFrom]
    split
    · have hempty : trim isWhitespace (stripReturn read.reverse) = trim isWhitespace [] := by
        have hreverse : ∀ c ∈ read.reverse, isWhitespace c = true :=
          fun c hc => hread c (List.mem_reverse.mp hc)
        rw [trim_stripReturn, ← List.append_nil read.reverse, trim_append_left hreverse]
      rw [kept_cons, kept_congr hempty, ih hblank.2 (by simp)]
      rfl
    · exact ih hblank.2 (List.forall_mem_cons.mpr ⟨hblank.1, hread⟩)

omit hblank in
/-- The blanks around a text do not matter. -/
theorem kept_lines_trim (payload : Text) :
    kept (lines (trim isWhitespace payload)) = kept (lines payload) := by
  have hfront : ∀ c ∈ payload.takeWhile isWhitespace, isWhitespace c = true :=
    fun c hc => List.mem_takeWhile_imp hc
  have hback : ∀ c ∈ (payload.dropWhile isWhitespace).rtakeWhile isWhitespace,
      isWhitespace c = true := fun c hc => List.mem_rtakeWhile_imp hc
  have hnone : ∀ c ∈ ([] : Text), isWhitespace c = true := by simp
  have hparts := kept_append_lines hfront hnone
    ((payload.dropWhile isWhitespace).rdropWhile isWhitespace ++
      (payload.dropWhile isWhitespace).rtakeWhile isWhitespace)
  rw [List.rdropWhile_append_rtakeWhile, List.takeWhile_append_dropWhile] at hparts
  have hlast := kept_lines_append hback []
    ((payload.dropWhile isWhitespace).rdropWhile isWhitespace)
  rw [List.rdropWhile_append_rtakeWhile] at hlast
  exact (hparts.trans hlast).symm

end Blanks

section Characters

theorem all_of_trim_eq_nil {α : Type*} {p : α → Bool} {l : List α} (h : trim p l = []) :
    ∀ a ∈ l, p a = true := by
  intro a ha
  rw [← List.takeWhile_append_dropWhile (p := p) (l := l), List.mem_append] at ha
  rcases ha with ha | ha
  · exact List.mem_takeWhile_imp ha
  · exact List.rdropWhile_eq_nil_iff.mp h a ha

theorem mem_stripReturn {line : Text} {c : Char} (h : c ∈ line) :
    c = '\r' ∨ c ∈ stripReturn line := by
  rw [stripReturn]
  split
  · next hlast =>
    obtain ⟨front, rfl⟩ := List.getLast?_eq_some_iff.mp hlast
    rw [List.dropLast_concat]
    simpa [or_comm] using h
  · exact .inr h

variable {read text : Text} {c : Char}

theorem mem_of_mem_linesFrom {line : Text} (h : line ∈ linesFrom read text) (hc : c ∈ line) :
    c ∈ read ∨ c ∈ text := by
  induction text generalizing read with
  | nil =>
    rw [linesFrom] at h
    split at h
    · cases h
    · obtain rfl := List.mem_singleton.mp h
      exact .inl (List.mem_reverse.mp hc)
  | cons d text ih =>
    rw [linesFrom] at h
    split at h
    · rcases List.mem_cons.mp h with rfl | h
      · have hread : c ∈ read.reverse := by
          rw [stripReturn] at hc
          split at hc
          · exact List.mem_of_mem_dropLast hc
          · exact hc
        exact .inl (List.mem_reverse.mp hread)
      · rcases ih h with hm | hm
        · cases hm
        · exact .inr (List.mem_cons_of_mem _ hm)
    · rcases ih h with hm | hm
      · rcases List.mem_cons.mp hm with rfl | hm
        · exact .inr List.mem_cons_self
        · exact .inl hm
      · exact .inr (List.mem_cons_of_mem _ hm)

/-- A character that is no blank is on one of the lines. -/
theorem exists_line_of_mem (read : Text) (h : c ∈ read ∨ c ∈ text) (hc : isWhitespace c = false) :
    ∃ line ∈ linesFrom read text, c ∈ line := by
  induction text generalizing read with
  | nil =>
    have hread : c ∈ read := h.resolve_right List.not_mem_nil
    rw [linesFrom, if_neg (List.ne_nil_of_mem hread)]
    exact ⟨_, List.mem_cons_self, List.mem_reverse.mpr hread⟩
  | cons d text ih =>
    rw [linesFrom]
    split
    · next hd =>
      rcases h with hread | hm
      · have hstrip := (mem_stripReturn (List.mem_reverse.mpr hread)).resolve_left fun he => by
          rw [he] at hc
          exact absurd hc (by decide)
        exact ⟨_, List.mem_cons_self, hstrip⟩
      · rcases List.mem_cons.mp hm with rfl | hm
        · rw [hd] at hc
          exact absurd hc (by decide)
        · obtain ⟨line, hline, hmem⟩ := ih [] (.inr hm)
          exact ⟨line, List.mem_cons_of_mem _ hline, hmem⟩
    · apply ih
      rcases h with hread | hm
      · exact .inl (List.mem_cons_of_mem _ hread)
      · rcases List.mem_cons.mp hm with rfl | hm
        · exact .inl List.mem_cons_self
        · exact .inr hm

end Characters

section Reports

variable (lib : Libraries) (source : String)

def parsedProxies (ls : List Text) : List ParsedProxy :=
  ls.filterMap fun line => (parseShareUrl lib line source).toOption

def parsedHashes (ls : List Text) : List String := (parsedProxies lib source ls).map (·.configHash)

/-- A report on lines: each identity is accepted where it occurs first. -/
structure Reports (ls : List Text) (report : ParseReport) : Prop where
  distinct : (report.accepted.map (·.configHash)).Nodup
  ordered : report.accepted.Pairwise fun p q =>
    (parsedHashes lib source ls).idxOf p.configHash <
      (parsedHashes lib source ls).idxOf q.configHash
  first : ∀ p ∈ report.accepted,
    (parsedProxies lib source ls)[(parsedHashes lib source ls).idxOf p.configHash]? = some p
  covered : ∀ line ∈ ls,
    (∃ p ∈ report.accepted, parseShareUrl lib line source = .ok p) ∨
    (∃ other, parseShareUrl lib line source = .ok other ∧ other ∉ report.accepted ∧
      ∃ p ∈ report.accepted, p.configHash = other.configHash) ∨
    (∃ error, parseShareUrl lib line source = .error error ∧
      error ++ ": " ++ redact line ∈ report.rejected)

/-- What the reader of lines knows after some of them. -/
structure ReadLines (ls : List Text) (acc : ParseReport × List String) : Prop where
  ordered : acc.1.accepted.Pairwise fun p q =>
    (parsedHashes lib source ls).idxOf p.configHash <
      (parsedHashes lib source ls).idxOf q.configHash
  first : ∀ p ∈ acc.1.accepted,
    (parsedProxies lib source ls)[(parsedHashes lib source ls).idxOf p.configHash]? = some p
  seen : ∀ hash, hash ∈ acc.2 ↔ hash ∈ parsedHashes lib source ls
  accepted : ∀ hash ∈ parsedHashes lib source ls, ∃ p ∈ acc.1.accepted, p.configHash = hash

variable {lib source} {ls : List Text} {acc : ParseReport × List String}

theorem parsedProxies_concat (lib : Libraries) (source : String) (ls : List Text)
    (line : Text) : parsedProxies lib source (ls ++ [line]) =
    parsedProxies lib source ls ++ (parseShareUrl lib line source).toOption.toList := by
  rw [parsedProxies, List.filterMap_append, parsedProxies, List.filterMap_cons, List.filterMap_nil]
  cases parseShareUrl lib line source with
  | error error => rfl
  | ok proxy => rfl

theorem ReadLines.mem_hashes (h : ReadLines lib source ls acc) {p : ParsedProxy}
    (hp : p ∈ acc.1.accepted) : p.configHash ∈ parsedHashes lib source ls :=
  List.mem_map_of_mem (List.mem_of_getElem? (h.first p hp))

/-- One more line. -/
theorem ReadLines.step (h : ReadLines lib source ls acc) (line : Text) :
    ReadLines lib source (ls ++ [line]) (parseLine lib source acc line) := by
  have hproxies := parsedProxies_concat lib source ls line
  rw [parseLine]
  cases hparse : parseShareUrl lib line source with
  | error error =>
    rw [hparse] at hproxies
    have hsame : parsedProxies lib source (ls ++ [line]) = parsedProxies lib source ls :=
      hproxies.trans (List.append_nil _)
    have hhashes : parsedHashes lib source (ls ++ [line]) = parsedHashes lib source ls := by
      rw [parsedHashes, hsame, parsedHashes]
    constructor
    · rw [hhashes]
      exact h.ordered
    · rw [hhashes, hsame]
      exact h.first
    · rw [hhashes]
      exact h.seen
    · rw [hhashes]
      exact h.accepted
  | ok proxy =>
    rw [hparse] at hproxies
    have hmore : parsedProxies lib source (ls ++ [line]) =
        parsedProxies lib source ls ++ [proxy] := hproxies
    have hhashes : parsedHashes lib source (ls ++ [line]) =
        parsedHashes lib source ls ++ [proxy.configHash] := by
      rw [parsedHashes, hmore, List.map_append, parsedHashes]
      rfl
    have hkeep : ∀ p ∈ acc.1.accepted, (parsedHashes lib source (ls ++ [line])).idxOf
        p.configHash = (parsedHashes lib source ls).idxOf p.configHash := by
      intro p hp
      rw [hhashes, List.idxOf_append_of_mem (h.mem_hashes hp)]
    have hordered : acc.1.accepted.Pairwise fun p q =>
        (parsedHashes lib source (ls ++ [line])).idxOf p.configHash <
          (parsedHashes lib source (ls ++ [line])).idxOf q.configHash := by
      refine h.ordered.imp_of_mem fun {p q} hp hq hlt => ?_
      rw [hkeep p hp, hkeep q hq]
      exact hlt
    have hfirst : ∀ p ∈ acc.1.accepted, (parsedProxies lib source (ls ++ [line]))[
        (parsedHashes lib source (ls ++ [line])).idxOf p.configHash]? = some p := by
      intro p hp
      have hget := h.first p hp
      obtain ⟨hlt, -⟩ := List.getElem?_eq_some_iff.mp hget
      rw [hkeep p hp, hmore, List.getElem?_append_left hlt, hget]
    dsimp only
    split
    · next hseen =>
      refine ⟨hordered, hfirst, fun hash => ?_, fun hash hhash => ?_⟩
      · rw [h.seen, hhashes, List.mem_append, List.mem_singleton]
        constructor
        · exact .inl
        · rintro (hm | rfl)
          · exact hm
          · exact (h.seen _).mp hseen
      · rw [hhashes, List.mem_append, List.mem_singleton] at hhash
        rcases hhash with hm | rfl
        · exact h.accepted hash hm
        · exact h.accepted _ ((h.seen _).mp hseen)
    · next hnew =>
      have hfresh : proxy.configHash ∉ parsedHashes lib source ls := fun hm =>
        hnew ((h.seen _).mpr hm)
      have hindex : (parsedHashes lib source (ls ++ [line])).idxOf proxy.configHash =
          (parsedProxies lib source ls).length := by
        rw [hhashes, List.idxOf_append_of_notMem hfresh, parsedHashes, List.length_map]
        simp
      refine ⟨?_, ?_, fun hash => ?_, fun hash hhash => ?_⟩
      · rw [List.pairwise_append]
        refine ⟨hordered, List.pairwise_singleton _ _, fun p hp q hq => ?_⟩
        obtain rfl := List.mem_singleton.mp hq
        obtain ⟨hlt, -⟩ := List.getElem?_eq_some_iff.mp (h.first p hp)
        rw [hindex, hkeep p hp]
        exact hlt
      · intro p hp
        rcases List.mem_append.mp hp with hp | hp
        · exact hfirst p hp
        · obtain rfl := List.mem_singleton.mp hp
          rw [hindex, hmore, List.getElem?_concat_length]
      · rw [List.mem_cons, h.seen, hhashes, List.mem_append, List.mem_singleton, or_comm]
      · rw [hhashes, List.mem_append, List.mem_singleton] at hhash
        rcases hhash with hm | rfl
        · obtain ⟨p, hp, rfl⟩ := h.accepted hash hm
          exact ⟨p, List.mem_append_left _ hp, rfl⟩
        · exact ⟨proxy, List.mem_append_right _ List.mem_cons_self, rfl⟩

theorem readLines (lib : Libraries) (source : String) (ls : List Text) :
    ReadLines lib source ls (ls.foldl (parseLine lib source) ({}, [])) := by
  induction ls using List.reverseRecOn with
  | nil =>
    refine ⟨List.Pairwise.nil, by simp, fun hash => Iff.rfl, ?_⟩
    simp [parsedHashes, parsedProxies]
  | append_singleton ls line ih =>
    rw [List.foldl_append]
    exact ih.step line

theorem reports (payload : Text) :
    Reports lib source (subscriptionLines payload) (parseSubscription lib payload source) := by
  have hread := readLines lib source (subscriptionLines payload)
  refine ⟨?_, hread.ordered, hread.first, fun line hline => ?_⟩
  · rw [List.Nodup, List.pairwise_map]
    refine hread.ordered.imp fun {p q} hlt he => ?_
    rw [he] at hlt
    exact lt_irrefl _ hlt
  · cases hparse : parseShareUrl lib line source with
    | error error =>
      refine .inr (.inr ⟨error, rfl, ?_⟩)
      rw [rejected_eq, List.mem_filterMap]
      exact ⟨line, hline, by rw [rejection, hparse]⟩
    | ok proxy =>
      have hmem : proxy ∈ parsedProxies lib source (subscriptionLines payload) :=
        List.mem_filterMap.mpr ⟨line, hline, by rw [hparse]; rfl⟩
      obtain ⟨p, hp, hhash⟩ := hread.accepted _ (List.mem_map_of_mem hmem)
      by_cases haccepted : proxy ∈ (parseSubscription lib payload source).accepted
      · exact .inl ⟨proxy, haccepted, rfl⟩
      · exact .inr (.inl ⟨proxy, rfl, haccepted, p, hp, hhash⟩)

end Reports

section Encodings

variable {lib : Libraries} {source : String} {payload : Text}

/-- Every line of the text is blank, a comment or an accepted share URL. -/
def IsListing (lib : Libraries) (source : String) (payload : Text) : Prop :=
  ∀ line ∈ lines payload, trim isWhitespace line = [] ∨
    (trim isWhitespace line).head? = some '#' ∨
    ∃ proxy, parseShareUrl lib line source = .ok proxy

theorem IsListing.accepted (h : IsListing lib source payload) {line : Text}
    (hline : line ∈ kept (lines payload)) : ∃ proxy, parseShareUrl lib line source = .ok proxy := by
  obtain ⟨⟨raw, hraw, rfl⟩, hne, hcomment⟩ := mem_kept.mp hline
  rw [parseShareUrl_trim]
  exact ((h raw hraw).resolve_left hne).resolve_left hcomment

/-- A text with a character outside of both alphabets is no encoding. -/
theorem decodeB64_eq_none_of_mem {text : Text} {c : Char} (h : c ∈ text) (hpad : c ≠ '=')
    (hstandard : c ∉ Base64.standard.symbols) (hurlSafe : c ∉ Base64.urlSafe.symbols) :
    decodeB64 text = none := by
  have hs := Base64.decode_eq_none Base64.standard true h hpad hstandard
  have hu := Base64.decode_eq_none Base64.urlSafe false
    (mem_rdropWhile (p := fun c => decide (c = '=')) h (decide_eq_false hpad)) hpad hurlSafe
  rw [decodeB64, hs, hu]
  rfl

theorem colon_of_parseShareUrl (absolute : lib.AbsoluteUrls) {line : Text} {proxy : ParsedProxy}
    (h : parseShareUrl lib line source = .ok proxy) : ':' ∈ line := by
  obtain ⟨share, hs, -⟩ := parseShareUrl_ok h
  obtain ⟨scheme, rest, hsplit, -⟩ := scheme_of_parseScheme absolute hs
  apply mem_of_mem_trim (p := isWhitespace)
  rw [hsplit]
  exact List.mem_append_right _ List.mem_cons_self

/-- What is no encoding is read line by line. -/
theorem subscriptionLines_of_none
    (h : decodeB64 (trim isWhitespace payload) = none) :
    subscriptionLines payload = kept (lines payload) := by
  have hplain : (if "://".toList <:+: trim isWhitespace payload then none
      else (decodeB64 (trim isWhitespace payload)).bind utf8Decode) = none := by
    rw [h]
    split <;> rfl
  rw [subscriptionLines, hplain, ← kept_lines_trim]
  rfl

/-- A listing is never taken for an encoding. -/
theorem IsListing.subscriptionLines (absolute : lib.AbsoluteUrls)
    (h : IsListing lib source payload) : subscriptionLines payload = kept (lines payload) := by
  by_cases hempty : trim isWhitespace payload = []
  · have hlines : kept (lines payload) = [] := by
      rw [← kept_lines_trim, hempty]
      rfl
    rw [hlines, ProxyFleet.subscriptionLines, hempty]
    decide +kernel
  · apply subscriptionLines_of_none
    by_contra hdecoded
    have hplain : ':' ∉ trim isWhitespace payload ∧ '#' ∉ trim isWhitespace payload := by
      refine ⟨fun hm => hdecoded (decodeB64_eq_none hm), fun hm => hdecoded ?_⟩
      exact decodeB64_eq_none_of_mem hm (by decide) (by decide) (by decide)
    -- Without colon and comment every line is blank.
    have hlines : ∀ line ∈ lines (trim isWhitespace payload), trim isWhitespace line = [] := by
      intro line hline
      by_contra hne
      have hchars : ∀ c ∈ trim isWhitespace line, c ∈ trim isWhitespace payload := fun c hc =>
        (mem_of_mem_linesFrom hline (mem_of_mem_trim hc)).resolve_left List.not_mem_nil
      have hkept : trim isWhitespace line ∈ kept (lines payload) := by
        rw [← kept_lines_trim, mem_kept]
        refine ⟨⟨line, hline, rfl⟩, hne, fun hcomment => ?_⟩
        exact hplain.2 (hchars _ (List.mem_of_head? hcomment))
      obtain ⟨proxy, hparse⟩ := h.accepted hkept
      exact hplain.1 (hchars _ (colon_of_parseShareUrl absolute hparse))
    apply hempty
    cases htrimmed : trim isWhitespace payload with
    | nil => rfl
    | cons c rest =>
      have hc : isWhitespace c = false :=
        (trimmed_trim payload).head c (by rw [htrimmed]; rfl)
      obtain ⟨line, hline, hmem⟩ := exists_line_of_mem []
        (.inr (List.mem_cons_self : c ∈ c :: rest)) hc
      have hblank := all_of_trim_eq_nil (hlines line (by rw [htrimmed]; exact hline)) c hmem
      rw [hc] at hblank
      cases hblank

theorem not_whitespace_of_mem_base64Chars {c : Char} (h : c ∈ base64Chars) :
    isWhitespace c = false := by
  have hall : base64Chars.all (fun c => decide (isWhitespace c = false)) = true := by
    decide +kernel
  exact of_decide_eq_true (List.all_eq_true.mp hall c h)

variable {v : Base64Variant}

theorem Base64Variant.trim_encode (bytes : List UInt8) :
    trim isWhitespace (v.encode bytes) = v.encode bytes := by
  have htrimmed : Trimmed isWhitespace (v.encode bytes) :=
    ⟨fun c hc => not_whitespace_of_mem_base64Chars (mem_encode (List.mem_of_head? hc)),
      fun c hc => not_whitespace_of_mem_base64Chars (mem_encode (List.mem_of_getLast? hc))⟩
  exact htrimmed.trim_eq

/-- The lines of a text that the parser can decode. -/
theorem subscriptionLines_encode (h : ¬ v.Lost (utf8Encode payload)) :
    subscriptionLines (v.encode (utf8Encode payload)) = kept (lines payload) := by
  have hscheme : ¬ "://".toList <:+: v.encode (utf8Encode payload) := fun hin =>
    not_reserved (Base64Variant.mem_encode (hin.subset (by decide : ':' ∈ "://".toList)))
      List.mem_cons_self
  rw [ProxyFleet.subscriptionLines, v.trim_encode, if_neg hscheme,
    Base64Variant.decodeB64_encode h, Option.bind_some, utf8Decode_encode]
  rfl

/-- What the parser cannot decode is rejected as a line. -/
theorem rejected_encode (absolute : lib.AbsoluteUrls) (h : v.Lost (utf8Encode payload)) :
    (parseSubscription lib (v.encode (utf8Encode payload)) source).rejected ≠ [] := by
  have hlines : subscriptionLines (v.encode (utf8Encode payload)) =
      kept (lines (v.encode (utf8Encode payload))) := by
    apply subscriptionLines_of_none
    rw [v.trim_encode]
    exact Base64Variant.decodeB64_eq_none_iff.mpr h
  obtain ⟨c, hc⟩ : ∃ c, c ∈ v.encode (utf8Encode payload) := by
    rcases h.2.2.2 with hplus | hslash
    · exact ⟨_, hplus⟩
    · exact ⟨_, hslash⟩
  have hblank := not_whitespace_of_mem_base64Chars (Base64Variant.mem_encode hc)
  obtain ⟨line, hline, hmem⟩ := exists_line_of_mem [] (.inr hc) hblank
  have hchars : ∀ d ∈ trim isWhitespace line, d ∈ base64Chars := fun d hd =>
    Base64Variant.mem_encode
      ((mem_of_mem_linesFrom hline (mem_of_mem_trim hd)).resolve_left List.not_mem_nil)
  have hkept : trim isWhitespace line ∈ kept (lines (v.encode (utf8Encode payload))) := by
    rw [mem_kept]
    refine ⟨⟨line, hline, rfl⟩, fun hempty => ?_, fun hcomment => ?_⟩
    · rw [all_of_trim_eq_nil hempty c hmem] at hblank
      cases hblank
    · exact not_reserved (hchars _ (List.mem_of_head? hcomment)) (by simp)
  have hrejection : ∃ entry, rejection lib source (trim isWhitespace line) = some entry := by
    rw [rejection]
    cases hparse : parseShareUrl lib (trim isWhitespace line) source with
    | error error => exact ⟨_, rfl⟩
    | ok proxy =>
      have hcolon := hchars _ (colon_of_parseShareUrl absolute hparse)
      exact absurd List.mem_cons_self (not_reserved hcolon)
  obtain ⟨entry, hentry⟩ := hrejection
  have hmember :
      entry ∈ (parseSubscription lib (v.encode (utf8Encode payload)) source).rejected := by
    rw [rejected_eq, hlines, List.mem_filterMap]
    exact ⟨_, hkept, hentry⟩
  exact List.ne_nil_of_mem hmember

/-- A listing is read in the same way from an encoding exactly when that is not lost, and what
is reported of lines is what they hold. -/
theorem encoded_subscriptions (absolute : lib.AbsoluteUrls) (source : String) :
    (∀ payload, IsListing lib source payload → ∀ v : Base64Variant,
      (parseSubscription lib (v.encode (utf8Encode payload)) source =
        parseSubscription lib payload source ↔ ¬ v.Lost (utf8Encode payload))) ∧
    ∀ payload, Reports lib source (subscriptionLines payload)
      (parseSubscription lib payload source) := by
  refine ⟨fun payload h v => ?_, reports⟩
  constructor
  · intro hsame hlost
    apply rejected_encode absolute hlost
    rw [hsame, rejected_eq, h.subscriptionLines absolute, List.filterMap_eq_nil_iff]
    intro line hline
    obtain ⟨proxy, hparse⟩ := h.accepted hline
    rw [rejection, hparse]
  · intro hlost
    rw [parseSubscription, parseSubscription, subscriptionLines_encode hlost,
      h.subscriptionLines absolute]

def listedTrojan : Text :=
  "# feed\n\n  trojan://secret@host.example:443\r\n".toList

theorem encoded_subscriptions_trojan :
    parseSubscription sampleLibraries
        (Base64Variant.encode ⟨true, false⟩ (utf8Encode listedTrojan)) "feed" =
      parseSubscription sampleLibraries listedTrojan "feed" := by
  have hlisting : IsListing sampleLibraries "feed" listedTrojan := by
    have hlines : lines listedTrojan =
        ["# feed".toList, [], "  trojan://secret@host.example:443".toList] := by decide +kernel
    rw [IsListing, hlines]
    simp only [List.forall_mem_cons]
    refine ⟨.inr (.inl (by decide)), .inl (by decide), .inr (.inr ?_), by simp⟩
    exact ⟨_, by rfl⟩
  have hsame := (encoded_subscriptions sampleLibraries_absolute "feed").1 listedTrojan hlisting
    ⟨true, false⟩
  exact hsame.mpr fun hlost => absurd hlost.1 (by decide)

def queriedTrojan : Text := "trojan://abc@host.example:443?type=ws".toList

/-- Padding is missing, so that the standard alphabet is not decoded. -/
theorem unpadded_subscription_is_lost :
    Base64Variant.encode ⟨false, false⟩ (utf8Encode queriedTrojan) =
      "dHJvamFuOi8vYWJjQGhvc3QuZXhhbXBsZTo0NDM/dHlwZT13cw".toList ∧
    (parseSubscription (readerLibraries [] []) queriedTrojan "feed").accepted.map
      (·.rawConfig) = [queriedTrojan] ∧
    (parseSubscription (readerLibraries [] []) queriedTrojan "feed").rejected = [] ∧
    (parseSubscription (readerLibraries [] [])
      (Base64Variant.encode ⟨false, false⟩ (utf8Encode queriedTrojan)) "feed").accepted.map
      (·.rawConfig) = [] ∧
    (parseSubscription (readerLibraries [] [])
      (Base64Variant.encode ⟨false, false⟩ (utf8Encode queriedTrojan)) "feed").rejected =
      ["relative URL without a base: <invalid-line>"] := by
  exact ⟨by decide +kernel, by decide +kernel, by decide +kernel, by decide +kernel,
    by decide +kernel⟩

end Encodings

end ProxyFleet
