import ProxyFleet.NodeSummaries

/-!
# Credentials in listings

The encodings of a share URL, each as a function of the credential, and what the URL
library makes of them. A credential in an authority is passed over unless a slash ends
the authority in front of it; a payload in Base64 is itself a host up to its first slash.
-/
namespace ProxyFleet

/-- The library reads schemes in any letter case. -/
def IsScheme (scheme : Text) : Prop := toAsciiLowercase scheme ∈ supportedProtocols

/-- A text with its scheme. -/
def shareUrl (scheme t : Text) : Text := scheme ++ "://".toList ++ t

/-- Characters that the library drops. -/
def droppedChars : List Char := ['\t', '\n', '\r']

def base64Chars : List Char := Base64.alphanumeric ++ ['+', '/', '-', '_', '=']

/-- A credential as a URL or the parser of Shadowsocks accepts it in front of an `@`: a
user is given, or the name of the cipher precedes a slash. -/
structure UserText (u : Text) : Prop where
  noQuery : '?' ∉ u
  noFragment : '#' ∉ u
  given : '/' ∉ u → (u.filter fun c => c ∉ droppedChars) ∉ [[], [':']]
  named : '/' ∈ u → ∃ c ∈ beforeFirst '/' u, c ∉ ':' :: '@' :: droppedChars

/-- The rules of the URL standard for schemes without a syntax of their own. -/
structure UrlSyntax (lib : Libraries) : Prop where
  /-- User and password decide neither success nor host nor port. -/
  userinfo : ∀ scheme, IsScheme scheme → ∀ u v rest, UserText u → UserText v → '/' ∉ u →
    '/' ∉ v → reads lib (shareUrl scheme (u ++ '@' :: rest)) =
      reads lib (shareUrl scheme (v ++ '@' :: rest))
  /-- A user needs a host. -/
  userHost : ∀ scheme, IsScheme scheme → ∀ u rest, UserText u → '/' ∉ u →
    ∀ port, reads lib (shareUrl scheme (u ++ '@' :: rest)) ≠ some ([], port)
  /-- Neither does a path. -/
  path : ∀ scheme, IsScheme scheme → ∀ authority, (∀ c ∈ authority, c ∉ ['/', '?', '#']) →
    ∀ p q, reads lib (shareUrl scheme (authority ++ '/' :: p)) =
      reads lib (shareUrl scheme (authority ++ '/' :: q))
  /-- An authority needs a host. -/
  authorityHost : ∀ scheme, IsScheme scheme → ∀ authority,
    (∀ c ∈ authority, c ∉ ['/', '?', '#']) → (∃ c ∈ authority, c ∉ ':' :: '@' :: droppedChars) →
    ∀ p port, reads lib (shareUrl scheme (authority ++ '/' :: p)) ≠ some ([], port)
  /-- A host is opaque. -/
  opaqueHost : ∀ scheme, IsScheme scheme → ∀ host, (∀ c ∈ host, c ∈ base64Chars ∧ c ≠ '/') →
    ∀ tail, (∀ c ∈ tail.head?, c ∈ ['/', '?', '#']) →
    reads lib (shareUrl scheme (host ++ tail)) = some (host, none)
  /-- The fragment follows the first `#`. -/
  fragment : ∀ raw₁ raw₂ url₁ url₂, lib.parseUrl raw₁ = .ok url₁ → lib.parseUrl raw₂ = .ok url₂ →
    (splitOnce '#' raw₁).map Prod.snd = (splitOnce '#' raw₂).map Prod.snd →
    url₁.fragment = url₂.fragment

/-- An encoder whose texts the parser decodes. -/
structure PayloadEncoder where
  encode : List UInt8 → Text
  decodes : ∀ bytes, decodeB64 (encode bytes) = some bytes

/-- A query or a fragment, or neither. -/
structure UrlTail where
  text : Text
  starts : ∀ c ∈ text.head?, c ∈ ['?', '#']

/-- A scheme whose authority may name the credential. -/
structure PlainScheme where
  text : Text
  known : toAsciiLowercase text ∈ ["vless", "trojan", "ss", "socks", "socks5"].map String.toList

theorem PlainScheme.isScheme (scheme : PlainScheme) : IsScheme scheme.text := by
  have hsub : ["vless", "trojan", "ss", "socks", "socks5"].map String.toList ⊆
      supportedProtocols := by decide
  exact hsub scheme.known

/-- A share URL without its credential. -/
inductive Encoding where
  /-- The credential and what follows the `@`. -/
  | plain (scheme : PlainScheme) (rest : Text)
  /-- The encoded credential and what follows the `@`. -/
  | sip002 (encoder : PayloadEncoder) (rest : Text)
  /-- Credential and server are encoded together. -/
  | legacy (encoder : PayloadEncoder) (server : Text) (tail : UrlTail)
  /-- The document that names the credential is encoded. -/
  | vmess (encoder : PayloadEncoder) (document : Text → List UInt8) (tail : UrlTail)

namespace Encoding

def scheme : Encoding → Text
  | .plain scheme _ => scheme.text
  | .sip002 .. => "ss".toList
  | .legacy .. => "ss".toList
  | .vmess .. => "vmess".toList

/-- What of the URL depends on the credential. -/
def secret (credential : Text) : Encoding → Text
  | .plain _ _ => credential
  | .sip002 encoder _ => encoder.encode (utf8Encode credential)
  | .legacy encoder server _ => encoder.encode (utf8Encode (credential ++ '@' :: server))
  | .vmess encoder document _ => encoder.encode (document credential)

def suffix : Encoding → Text
  | .plain _ rest => '@' :: rest
  | .sip002 _ rest => '@' :: rest
  | .legacy _ _ tail => tail.text
  | .vmess _ _ tail => tail.text

def render (e : Encoding) (credential : Text) : Text :=
  shareUrl e.scheme (e.secret credential ++ e.suffix)

/-- The credentials that the encoding can hold. -/
def Holds (credential : Text) : Encoding → Prop
  | .plain _ _ => UserText credential
  | .sip002 _ _ => credential ≠ []
  | .legacy .. => True
  | .vmess .. => True

end Encoding

section Schemes

theorem not_delimiter {c : Char} (hslash : c ≠ '/') (hquery : c ≠ '?') (hhash : c ≠ '#') :
    c ∉ ['/', '?', '#'] := by
  simp [hslash, hquery, hhash]

/-- A scheme has no character that separates. -/
theorem IsScheme.not_mem {scheme : Text} (h : IsScheme scheme) : ':' ∉ scheme ∧ '#' ∉ scheme := by
  have hplain : ∀ p ∈ supportedProtocols, ':' ∉ p ∧ '#' ∉ p := by decide
  obtain ⟨hcolon, hhash⟩ := hplain _ h
  have hlower : ∀ c : Char, c ∈ scheme → c.toLower ∈ toAsciiLowercase scheme :=
    fun c hc => List.mem_map_of_mem hc
  exact ⟨fun hc => hcolon (hlower ':' hc), fun hc => hhash (hlower '#' hc)⟩

theorem splitScheme_append {scheme : Text} (h : ':' ∉ scheme) (t : Text) :
    splitScheme (scheme ++ "://".toList ++ t) = some (scheme, t) := by
  induction scheme with
  | nil => rfl
  | cons c scheme ih =>
    rw [List.mem_cons, not_or] at h
    have hno : "://".toList.isPrefixOf? (c :: (scheme ++ "://".toList ++ t)) = none := by
      show (if ':' == c then _ else none) = none
      rw [if_neg (by simpa using h.1)]
    rw [List.cons_append, List.cons_append, splitScheme, hno]
    dsimp only
    rw [ih h.2]
    rfl

theorem splitScheme_shareUrl {scheme : Text} (h : IsScheme scheme) (t : Text) :
    splitScheme (shareUrl scheme t) = some (scheme, t) :=
  splitScheme_append h.not_mem.1 t

theorem protocolOf_shareUrl {scheme : Text} (h : IsScheme scheme) (t : Text) :
    protocolOf (shareUrl scheme t) = scheme := by
  rw [protocolOf, splitScheme_shareUrl h]
  rfl

theorem hash_not_mem_scheme {scheme : Text} (h : IsScheme scheme) :
    '#' ∉ scheme ++ "://".toList := by
  rw [List.mem_append, not_or]
  exact ⟨h.not_mem.2, by decide⟩

end Schemes

section Readings

variable {lib : Libraries} {scheme rest tail u t : Text}

/-- What the library reads in a URL with a user: the server, or the text before the slash. -/
def shown (lib : Libraries) (scheme rest u : Text) : Option (Text × Option ℕ) :=
  if '/' ∈ u then reads lib (shareUrl scheme (beforeFirst '/' u ++ ['/']))
  else reads lib (shareUrl scheme ("placeholder".toList ++ '@' :: rest))

theorem userText_placeholder : UserText "placeholder".toList :=
  ⟨by decide, by decide, by decide, by decide⟩

/-- The text before the slash is an authority. -/
theorem UserText.authority (hu : UserText u) : ∀ c ∈ beforeFirst '/' u, c ∉ ['/', '?', '#'] := by
  intro c hc
  have hmem := mem_of_mem_beforeFirst hc
  apply not_delimiter
  · exact fun he => not_mem_beforeFirst (he ▸ hc)
  · exact fun he => hu.noQuery (he ▸ hmem)
  · exact fun he => hu.noFragment (he ▸ hmem)

theorem reads_userText (laws : UrlSyntax lib) (hs : IsScheme scheme)
    (hu : UserText u) :
    reads lib (shareUrl scheme (u ++ '@' :: rest)) = shown lib scheme rest u := by
  rw [shown]
  split
  · next hslash =>
    obtain ⟨after, hsplit⟩ := eq_beforeFirst_append hslash
    have hbody : u ++ '@' :: rest = beforeFirst '/' u ++ '/' :: (after ++ '@' :: rest) := by
      conv_lhs => rw [hsplit]
      simp
    rw [hbody, laws.path scheme hs _ hu.authority _ []]
  · next hslash =>
    exact laws.userinfo scheme hs u _ rest hu userText_placeholder hslash (by decide)

/-- A URL with a user that can be read names a host. -/
theorem shown_ne (laws : UrlSyntax lib) (hs : IsScheme scheme) (hu : UserText u)
    (port : Option ℕ) : shown lib scheme rest u ≠ some ([], port) := by
  rw [shown]
  split
  · next hslash =>
    exact laws.authorityHost scheme hs _ hu.authority (hu.named hslash) [] port
  · exact laws.userHost scheme hs _ rest userText_placeholder (by decide) port

/-- A payload in Base64 is the host up to its first slash. -/
theorem reads_base64 (laws : UrlSyntax lib) (hs : IsScheme scheme)
    (ht : ∀ c ∈ t, c ∈ base64Chars) (starts : ∀ c ∈ tail.head?, c ∈ ['?', '#']) :
    reads lib (shareUrl scheme (t ++ tail)) = some (beforeFirst '/' t, none) := by
  by_cases hslash : '/' ∈ t
  · obtain ⟨after, hsplit⟩ := eq_beforeFirst_append hslash
    have hbody : t ++ tail = beforeFirst '/' t ++ '/' :: (after ++ tail) := by
      conv_lhs => rw [hsplit]
      simp
    rw [hbody]
    apply laws.opaqueHost scheme hs
    · intro c hc
      exact ⟨ht c (mem_of_mem_beforeFirst hc), fun he => not_mem_beforeFirst (he ▸ hc)⟩
    · simp
  · rw [beforeFirst_of_not_mem hslash]
    apply laws.opaqueHost scheme hs
    · exact fun c hc => ⟨ht c hc, fun he => hslash (he ▸ hc)⟩
    · exact fun c hc => List.mem_cons_of_mem _ (starts c hc)

/-- URLs that are read alike and have one fragment have one remark. -/
theorem remarkOf_eq (laws : UrlSyntax lib) {raw₁ raw₂ : Text} (h : reads lib raw₁ = reads lib raw₂)
    (same : (splitOnce '#' raw₁).map Prod.snd = (splitOnce '#' raw₂).map Prod.snd) :
    remarkOf lib raw₁ = remarkOf lib raw₂ := by
  rw [remarkOf, remarkOf]
  cases h₁ : lib.parseUrl raw₁ with
  | error e₁ =>
    cases h₂ : lib.parseUrl raw₂ with
    | error e₂ => rfl
    | ok url₂ => simp [reads, h₁, h₂, Except.toOption] at h
  | ok url₁ =>
    cases h₂ : lib.parseUrl raw₂ with
    | error e₂ => simp [reads, h₁, h₂, Except.toOption] at h
    | ok url₂ =>
      have := laws.fragment raw₁ raw₂ url₁ url₂ h₁ h₂ same
      simp [Except.toOption, this]

end Readings

section Encoders

variable (encoder : PayloadEncoder) {bytes : List UInt8}

/-- No character of Base64 has a meaning in an authority, a query or a fragment. -/
theorem not_reserved {c : Char} (h : c ∈ base64Chars) :
    c ∉ ':' :: '@' :: '?' :: '#' :: droppedChars := by
  have hall : base64Chars.all
      (fun c => decide (c ∉ ':' :: '@' :: '?' :: '#' :: droppedChars)) = true := by decide +kernel
  exact of_decide_eq_true (List.all_eq_true.mp hall c h)

theorem mem_base64Chars {c : Char} (h : c ∈ Base64.standard.symbols ∨ c ∈ Base64.urlSafe.symbols ∨
    c = '=') : c ∈ base64Chars := by
  have hstandard : Base64.standard.symbols ⊆ base64Chars := by decide
  have hurlSafe : Base64.urlSafe.symbols ⊆ base64Chars := by decide
  rcases h with h | h | rfl
  · exact hstandard h
  · exact hurlSafe h
  · decide

theorem PayloadEncoder.mem_encode {c : Char} (h : c ∈ encoder.encode bytes) : c ∈ base64Chars := by
  have hdecodes := encoder.decodes bytes
  rw [decodeB64, Option.orElse_eq_some] at hdecodes
  apply mem_base64Chars
  rcases hdecodes with hd | ⟨-, hd⟩
  · rcases Base64.mem_of_decode _ hd h with hc | hc
    · exact .inl hc
    · exact .inr (.inr hc)
  · by_cases hpad : c = '='
    · exact .inr (.inr hpad)
    · have hm := mem_rdropWhile (p := fun c => decide (c = '=')) h (decide_eq_false hpad)
      exact .inr (.inl ((Base64.mem_of_decode _ hd hm).resolve_right hpad))

theorem PayloadEncoder.encode_ne_nil (h : bytes ≠ []) : encoder.encode bytes ≠ [] := by
  intro he
  have hdecodes := encoder.decodes bytes
  rw [he] at hdecodes
  exact h (Option.some.inj hdecodes).symm

/-- The first byte of a text in UTF-8 has a zero among its first five bits. -/
theorem utf8Encode_head {byte : UInt8} {others : List UInt8} {u : Text}
    (h : utf8Encode u = byte :: others) : byte.toNat < 248 := by
  cases u with
  | nil => cases h
  | cons c u =>
    simp only [utf8Encode, List.flatMap_cons, String.utf8EncodeChar] at h
    split_ifs at h <;> obtain ⟨rfl, -⟩ := List.cons.inj h <;> rw [UInt8.toNat_ofNat'] <;> omega

/-- The encoding of a text does not start with a slash. -/
theorem PayloadEncoder.head_encode {u : Text} (h : u ≠ []) :
    ∃ c t, encoder.encode (utf8Encode u) = c :: t ∧ c ≠ '/' := by
  have hbytes : utf8Encode u ≠ [] := by
    cases u with
    | nil => exact absurd rfl h
    | cons c u =>
      simp only [utf8Encode, List.flatMap_cons, String.utf8EncodeChar]
      split_ifs <;> simp
  obtain ⟨c, t, ht⟩ := List.exists_cons_of_ne_nil (encoder.encode_ne_nil hbytes)
  refine ⟨c, t, ht, ?_⟩
  rintro rfl
  have hdecodes := encoder.decodes (utf8Encode u)
  rw [ht, decodeB64, Option.orElse_eq_some] at hdecodes
  rcases hdecodes with hd | ⟨-, hd⟩
  · obtain ⟨byte, others, hcons, hvalue⟩ := Base64.head_of_decode _ hd
    have hslash : Base64.standard.value? '/' = some 63 := by decide
    have := utf8Encode_head hcons
    rw [hslash, Option.some.injEq] at hvalue
    omega
  · have hm := mem_rdropWhile (l := '/' :: t) (p := fun c => decide (c = '=')) List.mem_cons_self
      (by decide)
    exact absurd (Base64.mem_of_decode _ hd hm) (by decide)

/-- An encoded text can stand in front of an `@`. -/
theorem PayloadEncoder.userText {u : Text} (h : u ≠ []) :
    UserText (encoder.encode (utf8Encode u)) := by
  obtain ⟨c, t, ht, hc⟩ := encoder.head_encode h
  have hall : ∀ d ∈ encoder.encode (utf8Encode u), d ∈ base64Chars := fun d hd =>
    encoder.mem_encode hd
  refine ⟨fun hq => ?_, fun hf => ?_, fun _ => ?_, fun _ => ⟨c, ?_, ?_⟩⟩
  · exact not_reserved (hall _ hq) (by simp)
  · exact not_reserved (hall _ hf) (by simp)
  · have hfilter : (encoder.encode (utf8Encode u)).filter (fun d => d ∉ droppedChars) =
        encoder.encode (utf8Encode u) := by
      rw [List.filter_eq_self]
      intro d hd
      have := not_reserved (hall d hd)
      simp only [List.mem_cons, not_or] at this
      simpa using this.2.2.2.2
    rw [hfilter, ht]
    rintro hin
    simp only [List.mem_cons, List.not_mem_nil, or_false, reduceCtorEq, false_or,
      List.cons.injEq] at hin
    exact not_reserved (hin.1 ▸ hall c (ht ▸ List.mem_cons_self)) List.mem_cons_self
  · rw [ht, beforeFirst, List.takeWhile_cons_of_pos (by simpa using hc)]
    exact List.mem_cons_self
  · have := not_reserved (hall c (ht ▸ List.mem_cons_self))
    simp only [List.mem_cons, not_or] at this ⊢
    exact ⟨this.1, this.2.1, this.2.2.2.2⟩

end Encoders

namespace Encoding

/-- The readings of what the library takes for host and port agree. -/
def Conceals (lib : Libraries) (c₁ c₂ : Text) : Encoding → Prop
  | .plain scheme rest => shown lib scheme.text rest c₁ = shown lib scheme.text rest c₂
  | .sip002 encoder rest =>
    shown lib "ss".toList rest (encoder.encode (utf8Encode c₁)) =
      shown lib "ss".toList rest (encoder.encode (utf8Encode c₂))
  | .legacy encoder server _ =>
    beforeFirst '/' (encoder.encode (utf8Encode (c₁ ++ '@' :: server))) =
      beforeFirst '/' (encoder.encode (utf8Encode (c₂ ++ '@' :: server)))
  | .vmess encoder document _ =>
    beforeFirst '/' (encoder.encode (document c₁)) =
      beforeFirst '/' (encoder.encode (document c₂))

variable {lib : Libraries} {F : Type} [F64 F] {row₁ row₂ : ListedRow F} {c₁ c₂ : Text}

theorem isScheme (e : Encoding) : IsScheme e.scheme := by
  have hss : IsScheme "ss".toList := by unfold IsScheme; decide
  have hvmess : IsScheme "vmess".toList := by unfold IsScheme; decide
  cases e with
  | plain scheme rest => exact scheme.isScheme
  | sip002 encoder rest => exact hss
  | legacy encoder server tail => exact hss
  | vmess encoder document tail => exact hvmess

/-- No encoding of a credential has a fragment of its own. -/
theorem hash_not_mem_secret {e : Encoding} {c : Text} (h : e.Holds c) : '#' ∉ e.secret c := by
  have hbase64 : '#' ∉ base64Chars := fun hm => not_reserved hm (by simp)
  cases e with
  | plain scheme rest => exact UserText.noFragment h
  | sip002 encoder rest => exact fun hm => hbase64 (encoder.mem_encode hm)
  | legacy encoder server tail => exact fun hm => hbase64 (encoder.mem_encode hm)
  | vmess encoder document tail => exact fun hm => hbase64 (encoder.mem_encode hm)

theorem splitOnce_render {e : Encoding} {c : Text} (h : e.Holds c) :
    (splitOnce '#' (e.render c)).map Prod.snd = (splitOnce '#' e.suffix).map Prod.snd := by
  rw [render, shareUrl, ← List.append_assoc, splitOnce_append]
  rw [List.mem_append, not_or]
  exact ⟨hash_not_mem_scheme e.isScheme, hash_not_mem_secret h⟩

omit [F64 F] in
/-- Readings that show the same are the same when each that succeeds names a host. -/
theorem eq_of_shown {r₁ r₂ : Option (Text × Option ℕ)} (h₁ : ∀ port, r₁ ≠ some ([], port))
    (h₂ : ∀ port, r₂ ≠ some ([], port)) (h : r₁.getD ([], none) = r₂.getD ([], none)) :
    r₁ = r₂ := by
  cases r₁ with
  | none =>
    cases r₂ with
    | none => rfl
    | some r => exact absurd (congrArg some h.symm) (h₂ none)
  | some r =>
    cases r₂ with
    | none => exact absurd (congrArg some h) (h₁ none)
    | some r' => exact congrArg some h

theorem alike_iff_reads (laws : UrlSyntax lib) {e : Encoding} (holds₁ : e.Holds c₁)
    (holds₂ : e.Holds c₂) (alike : row₁.Alike row₂) (written₁ : row₁.rawConfig = e.render c₁)
    (written₂ : row₂.rawConfig = e.render c₂)
    (decided : (reads lib (e.render c₁)).getD ([], none) =
      (reads lib (e.render c₂)).getD ([], none) →
        reads lib (e.render c₁) = reads lib (e.render c₂)) :
    (rowToSummary lib row₁).Alike (rowToSummary lib row₂) ↔
      reads lib (e.render c₁) = reads lib (e.render c₂) := by
  rw [rowToSummary_alike_iff alike, written₁, written₂]
  refine ⟨fun h => decided h.2.1, fun h => ⟨?_, by rw [h], ?_⟩⟩
  · rw [render, render, protocolOf_shareUrl e.isScheme, protocolOf_shareUrl e.isScheme]
  · apply remarkOf_eq laws h
    rw [splitOnce_render holds₁, splitOnce_render holds₂]

/-- The summaries of two rows that differ in the credential agree exactly when what the
library takes for host and port does. -/
theorem summaries_alike_iff (laws : UrlSyntax lib) {e : Encoding} (holds₁ : e.Holds c₁)
    (holds₂ : e.Holds c₂) (alike : row₁.Alike row₂) (written₁ : row₁.rawConfig = e.render c₁)
    (written₂ : row₂.rawConfig = e.render c₂) :
    (rowToSummary lib row₁).Alike (rowToSummary lib row₂) ↔ e.Conceals lib c₁ c₂ := by
  have hs := e.isScheme
  have hreads := alike_iff_reads laws holds₁ holds₂ alike written₁ written₂
  cases e with
  | plain scheme rest =>
    have read₁ : reads lib (render (.plain scheme rest) c₁) = shown lib scheme.text rest c₁ :=
      reads_userText laws hs holds₁
    have read₂ : reads lib (render (.plain scheme rest) c₂) = shown lib scheme.text rest c₂ :=
      reads_userText laws hs holds₂
    rw [read₁, read₂] at hreads
    exact hreads (eq_of_shown (shown_ne laws hs holds₁) (shown_ne laws hs holds₂))
  | sip002 encoder rest =>
    have user₁ := encoder.userText holds₁
    have user₂ := encoder.userText holds₂
    have read₁ : reads lib (render (.sip002 encoder rest) c₁) = shown lib "ss".toList rest _ :=
      reads_userText laws hs user₁
    have read₂ : reads lib (render (.sip002 encoder rest) c₂) = shown lib "ss".toList rest _ :=
      reads_userText laws hs user₂
    rw [read₁, read₂] at hreads
    exact hreads (eq_of_shown (shown_ne laws hs user₁) (shown_ne laws hs user₂))
  | legacy encoder server tail =>
    have read : ∀ c, reads lib (render (.legacy encoder server tail) c) = some (_, none) :=
      fun c => reads_base64 laws hs (fun _ hc => encoder.mem_encode hc) tail.starts
    rw [read, read] at hreads
    simpa [Conceals, secret] using hreads fun h => congrArg some h
  | vmess encoder document tail =>
    have read : ∀ c, reads lib (render (.vmess encoder document tail) c) = some (_, none) :=
      fun c => reads_base64 laws hs (fun _ hc => encoder.mem_encode hc) tail.starts
    rw [read, read] at hreads
    simpa [Conceals, secret] using hreads fun h => congrArg some h

end Encoding

section Sample

open AddressSyntax

def authorityOf (t : Text) : Text := t.takeWhile (· ∉ ['/', '?', '#'])

def afterLast (separator : Char) (t : Text) : Text :=
  (beforeFirst separator t.reverse).reverse

def readPort (port : Text) : Except String (Option ℕ) :=
  if port = [] then .ok none
  else if port.all Char.isDigit ∧ numberValue 10 port < 65536 then .ok (some (numberValue 10 port))
  else .error "invalid port number"

/-- Host and port of an authority. -/
def readServer (authority : Text) : Except String (Option Text × Option ℕ) :=
  let server := afterLast '@' authority
  let host := beforeFirst ':' server
  if host = [] then
    if '@' ∈ authority ∨ ':' ∈ server then .error "empty host" else .ok (none, none)
  else
    (readPort (((splitOnce ':' server).map Prod.snd).getD [])).map fun port => (some host, port)

/-- A reader of URLs without paths and queries. -/
def readUrl (raw : Text) : Except String Url :=
  match splitScheme raw with
  | none => .error "relative URL without a base"
  | some (scheme, t) => (readServer (authorityOf t)).map fun server => {
      scheme := toAsciiLowercase scheme
      username := beforeFirst ':' (beforeFirst '@' (authorityOf t))
      password := (splitOnce ':' (beforeFirst '@' (authorityOf t))).map Prod.snd
      hostStr := server.1
      port := server.2
      path := []
      query := none
      fragment := (splitOnce '#' raw).map Prod.snd }

def firstHash : String := "1298be96444865142943e9ca11da046b889f6f2db2bc812ab6f94c6d7b5a903f"

def secondHash : String := "8ed45030060415f26ec4227f0165ec6fe60e3b082d9a4925b60329276b70605f"

/-- The libraries on configurations of the sample server. -/
def summaryLibraries : Libraries where
  parseUrl := readUrl
  parseForm bytes := if bytes = [] then [] else [((utf8Decode bytes).getD [], [])]
  isUuid _ := false
  parseJsonMap _ := none
  jsonToVec json := utf8Encode ("\x7b\"address\":\"host.example\",\"method\":\"aes-128-gcm\"," ++
    "\"params\":\x7b\x7d,\"password\":\"").toList ++
      utf8Encode (((json.get "password").bind Json.asStr).getD []) ++
      utf8Encode "\",\"port\":443,\"protocol\":\"ss\"\x7d".toList
  sha256 bytes :=
    if bytes = utf8Encode ("\x7b\"address\":\"host.example\",\"method\":\"aes-128-gcm\"," ++
      "\"params\":\x7b\x7d,\"password\":\"first\",\"port\":443,\"protocol\":\"ss\"\x7d").toList
    then firstHash
    else secondHash
  utf8Error _ := "invalid utf-8 sequence of 1 bytes from index 0"

theorem reads_shareUrl {scheme : Text} (h : IsScheme scheme) (t : Text) :
    reads summaryLibraries (shareUrl scheme t) =
      (readServer (authorityOf t)).toOption.map fun server => (server.1.getD [], server.2) := by
  rw [reads, summaryLibraries]
  simp only [readUrl, splitScheme_shareUrl h]
  cases readServer (authorityOf t) with
  | error e => rfl
  | ok server => rfl

theorem authorityOf_append {a tail : Text} (ha : ∀ c ∈ a, c ∉ ['/', '?', '#'])
    (ht : ∀ c ∈ tail.head?, c ∈ ['/', '?', '#']) : authorityOf (a ++ tail) = a := by
  rw [authorityOf, List.takeWhile_append_of_pos fun c hc => decide_eq_true (ha c hc)]
  cases tail with
  | nil => simp
  | cons c tail =>
    rw [List.takeWhile_cons_of_neg (by simpa only [decide_eq_true_eq, not_not] using ht c rfl),
      List.append_nil]

/-- What follows the last separator does not depend on what precedes one. -/
theorem afterLast_append (separator : Char) (u a : Text) :
    afterLast separator (u ++ separator :: a) = afterLast separator a := by
  rw [afterLast, afterLast, List.reverse_append, List.reverse_cons, List.append_assoc,
    List.singleton_append, beforeFirst_append]

theorem afterLast_of_not_mem {separator : Char} {t : Text} (h : separator ∉ t) :
    afterLast separator t = t := by
  have hreverse : separator ∉ t.reverse := fun hm => h (List.mem_reverse.mp hm)
  rw [afterLast, beforeFirst_of_not_mem hreverse, List.reverse_reverse]

/-- A user belongs to the authority. -/
theorem authorityOf_user {u : Text} (hu : UserText u) (hslash : '/' ∉ u) (rest : Text) :
    authorityOf (u ++ '@' :: rest) = u ++ '@' :: authorityOf rest := by
  have hplain : ∀ c ∈ u, decide (c ∉ ['/', '?', '#']) = true := by
    intro c hc
    apply decide_eq_true
    apply not_delimiter
    · exact fun he => hslash (he ▸ hc)
    · exact fun he => hu.noQuery (he ▸ hc)
    · exact fun he => hu.noFragment (he ▸ hc)
  rw [authorityOf, List.takeWhile_append_of_pos hplain, List.takeWhile_cons_of_pos (by decide)]
  rfl

/-- Only an empty authority is read without a host. -/
theorem readServer_eq_nil {authority : Text} {server : Option Text × Option ℕ}
    (h : readServer authority = .ok server) (hhost : server.1.getD [] = []) : authority = [] := by
  simp only [readServer] at h
  split at h
  · next hempty =>
    split at h
    · cases h
    · next hno =>
      rw [not_or] at hno
      rwa [beforeFirst_of_not_mem hno.2, afterLast_of_not_mem hno.1] at hempty
  · next hne =>
    cases hport : readPort (((splitOnce ':' (afterLast '@' authority)).map Prod.snd).getD []) with
    | error e => simp [hport, Except.map] at h
    | ok port =>
      rw [hport] at h
      cases h
      exact absurd hhost hne

theorem reads_ne {scheme t : Text} (hs : IsScheme scheme) (ht : authorityOf t ≠ [])
    (port : Option ℕ) : reads summaryLibraries (shareUrl scheme t) ≠ some ([], port) := by
  rw [reads_shareUrl hs]
  intro h
  cases hr : readServer (authorityOf t) with
  | error e => simp [hr, Except.toOption] at h
  | ok server =>
    simp only [hr, Except.toOption, Option.map_some, Option.some.injEq, Prod.mk.injEq] at h
    exact ht (readServer_eq_nil hr h.1)

theorem readServer_user (u v a : Text) :
    readServer (u ++ '@' :: a) = readServer (v ++ '@' :: a) := by
  simp only [readServer, afterLast_append, List.mem_append, List.mem_cons, true_or, or_true]

/-- A text in Base64 is read as a host. -/
theorem readServer_base64 {host : Text} (h : ∀ c ∈ host, c ∈ base64Chars) :
    (readServer host).toOption.map (fun server => (server.1.getD [], server.2)) =
      some (host, none) := by
  have hat : '@' ∉ host := fun hm => not_reserved (h _ hm) (by simp)
  have hcolon : ':' ∉ host := fun hm => not_reserved (h _ hm) (by simp)
  have hport : (splitOnce ':' host).map Prod.snd = none := by
    have := splitOnce_append hcolon []
    rwa [List.append_nil] at this
  simp only [readServer, afterLast_of_not_mem hat, beforeFirst_of_not_mem hcolon, hport, hat,
    hcolon, or_self, if_false]
  split
  · next he => simp [he, Except.toOption]
  · simp [readPort, Except.map, Except.toOption]

/-- The reader of the sample follows the rules. -/
theorem summaryLibraries_follow : UrlSyntax summaryLibraries where
  userinfo scheme hs u v rest hu hv hslash hslash' := by
    rw [reads_shareUrl hs, reads_shareUrl hs, authorityOf_user hu hslash,
      authorityOf_user hv hslash', readServer_user u v]
  userHost scheme hs u rest hu hslash port := by
    apply reads_ne hs
    rw [authorityOf_user hu hslash]
    simp
  path scheme hs authority ha p q := by
    rw [reads_shareUrl hs, reads_shareUrl hs, authorityOf_append ha (by simp),
      authorityOf_append ha (by simp)]
  authorityHost scheme hs authority ha hne p port := by
    obtain ⟨c, hc, -⟩ := hne
    apply reads_ne hs
    rw [authorityOf_append ha (by simp)]
    exact List.ne_nil_of_mem hc
  opaqueHost scheme hs host hhost tail ht := by
    have hplain : ∀ c ∈ host, c ∉ ['/', '?', '#'] := by
      intro c hc
      obtain ⟨hbase64, hslash⟩ := hhost c hc
      apply not_delimiter hslash
      · exact fun he => not_reserved hbase64 (by simp [he])
      · exact fun he => not_reserved hbase64 (by simp [he])
    rw [reads_shareUrl hs, authorityOf_append hplain ht]
    exact readServer_base64 fun c hc => (hhost c hc).1
  fragment raw₁ raw₂ url₁ url₂ h₁ h₂ same := by
    have hfragment : ∀ raw url, summaryLibraries.parseUrl raw = .ok url →
        url.fragment = (splitOnce '#' raw).map Prod.snd := by
      intro raw url h
      simp only [summaryLibraries, readUrl] at h
      split at h
      · cases h
      · next scheme t _ =>
        cases hr : readServer (authorityOf t) with
        | error e => simp [hr, Except.map] at h
        | ok server =>
          rw [hr] at h
          cases h
          rfl
    rw [hfragment raw₁ url₁ h₁, hfragment raw₂ url₂ h₂, same]

def sampleListedRow (rawConfig : Text) (configHash : String) : ListedRow ℚ := {
  id := "node"
  configHash := configHash
  rawConfig := rawConfig
  sourceSubs := ["feed"]
  lifecycleState := "CANDIDATE"
  status := "CANDIDATE"
  exitCountry := "" }

def samplePlain : Encoding := .plain ⟨"ss".toList, by decide⟩ "host.example:443".toList

theorem summaries_alike_iff_plain :
    (rowToSummary summaryLibraries
      (sampleListedRow "ss://aes-128-gcm:first@host.example:443".toList firstHash)).Alike
      (rowToSummary summaryLibraries
        (sampleListedRow "ss://aes-128-gcm:second@host.example:443".toList secondHash)) := by
  have holds₁ : samplePlain.Holds "aes-128-gcm:first".toList :=
    ⟨by decide, by decide, by decide, by decide⟩
  have holds₂ : samplePlain.Holds "aes-128-gcm:second".toList :=
    ⟨by decide, by decide, by decide, by decide⟩
  have alike :
      (sampleListedRow "ss://aes-128-gcm:first@host.example:443".toList firstHash).Alike
        (sampleListedRow "ss://aes-128-gcm:second@host.example:443".toList secondHash) := rfl
  have conceals : samplePlain.Conceals summaryLibraries
      "aes-128-gcm:first".toList "aes-128-gcm:second".toList := by
    rw [samplePlain, Encoding.Conceals, shown, shown, if_neg (by decide), if_neg (by decide)]
  exact (Encoding.summaries_alike_iff summaryLibraries_follow holds₁ holds₂ alike rfl rfl).mpr
    conceals

def standardEncoder : PayloadEncoder where
  encode := Base64.encode Base64.standard true
  decodes bytes := by rw [decodeB64, Base64.decode_encode]; rfl

/-- Two accepted rows whose credential alone differs are listed with different servers. -/
theorem listing_reveals_credential :
    ∃ (encoder : PayloadEncoder) (credential₁ credential₂ : Text) (row₁ row₂ : ListedRow ℚ),
      let e := Encoding.legacy encoder "host.example:443".toList ⟨[], by simp⟩
      row₁.rawConfig = e.render credential₁ ∧ row₂.rawConfig = e.render credential₂ ∧
      (parseShareUrl summaryLibraries row₁.rawConfig "feed").map (·.configHash) =
        .ok row₁.configHash ∧
      (parseShareUrl summaryLibraries row₂.rawConfig "feed").map (·.configHash) =
        .ok row₂.configHash ∧
      row₁.Alike row₂ ∧
      (rowToSummary summaryLibraries row₁).server =
        "YWVzLTEyOC1nY206Zmlyc3RAaG9zdC5leGFtcGxlOjQ0Mw==".toList ∧
      ¬ (rowToSummary summaryLibraries row₁).Alike (rowToSummary summaryLibraries row₂) := by
  refine ⟨standardEncoder, "aes-128-gcm:first".toList, "aes-128-gcm:second".toList,
    sampleListedRow
      "ss://YWVzLTEyOC1nY206Zmlyc3RAaG9zdC5leGFtcGxlOjQ0Mw==".toList firstHash,
    sampleListedRow
      "ss://YWVzLTEyOC1nY206c2Vjb25kQGhvc3QuZXhhbXBsZTo0NDM=".toList secondHash, ?_⟩
  refine ⟨by decide +kernel, by decide +kernel, by decide +kernel, by decide +kernel, rfl,
    by decide +kernel, ?_⟩
  intro h
  have hserver := congrArg NodeSummary.server h
  revert hserver
  decide +kernel

end Sample

end ProxyFleet
