import ProxyFleet.SubscriptionEncodings
import ProxyFleet.XrayOutbound

/-!
# Three forms of a Shadowsocks URL

Cipher and password are percent-encoded, or encoded in Base64, in front of the server, or all
of it is encoded in Base64. The first and the last form are read as a form, too: they keep
the password exactly when that leaves it alone, and forms that keep it have one identity.
-/
namespace ProxyFleet

open TextLines FormUrlencoded

section Forms

/-- A password that is percent-encoded for a user info. -/
structure PercentForm (password : Text) where
  marks : List Marked
  plain : plainText marks = password
  kept : ∀ m ∈ marks, m.2 = true → rfcKept m.1 = true ∨ m.1 = ':'

inductive ShadowsocksForm (password : Text) where
  /-- Cipher and password in front of the server. -/
  | percent (form : PercentForm password)
  /-- Their encoding in front of the server. -/
  | sip002 (variant : Base64Variant)
  /-- The encoding of cipher, password and server. -/
  | legacy (variant : Base64Variant)

namespace ShadowsocksForm

variable {password : Text}

def body (method server : Text) : ShadowsocksForm password → Text
  | .percent form => method ++ ':' :: written form.marks ++ '@' :: server
  | .sip002 variant => variant.encode (utf8Encode (method ++ ':' :: password)) ++ '@' :: server
  | .legacy variant => variant.encode (utf8Encode (method ++ ':' :: password ++ '@' :: server))

def url (form : ShadowsocksForm password) (method server : Text) (tail : UrlTail) : Text :=
  "ss://".toList ++ (form.body method server ++ tail.text)

theorem url_eq (form : ShadowsocksForm password) (method server : Text) (tail : UrlTail) :
    form.url method server tail = "ss://".toList ++ (form.body method server ++ tail.text) := by
  delta url
  rfl

/-- What the parser takes for cipher and password. -/
def credential (lib : Libraries) (method : Text) : ShadowsocksForm password → Text
  | .percent form => ProxyFleet.percentDecode lib (method ++ ':' :: written form.marks)
  | .sip002 _ => method ++ ':' :: password
  | .legacy _ => ProxyFleet.percentDecode lib (method ++ ':' :: password)

/-- The reader of forms leaves the password alone. -/
def Survives : ShadowsocksForm password → Prop
  | .percent form => ∀ m ∈ form.marks, m.2 = true → m.1 ∉ ['+', '&', '=']
  | .sip002 _ => True
  | .legacy _ => (∀ c ∈ password, c ∉ ['+', '&', '=']) ∧ ¬ HasEscape password

end ShadowsocksForm

/-- A server that the URL library reads as it is written. -/
structure ServerText (lib : Libraries) (server host : Text) (port : ℕ) : Prop where
  plain : ∀ c ∈ server, c ∉ ['@', '?', '#']
  read : ∀ url, lib.parseUrl ("ss://placeholder@".toList ++ server) = .ok url →
    url.hostStr = some host ∧ url.port = some port

/-- The identity of the proxy is that of the given cipher, password and server. -/
structure StoresShadowsocks (proxy : ParsedProxy) (method password host : Text) (port : ℕ) :
    Prop where
  method : valueString proxy.normalizedConfig "method" = method
  password : valueString proxy.normalizedConfig "password" = password
  address : valueString proxy.normalizedConfig "address" = toAsciiLowercase (trimBrackets host)
  port : proxy.normalizedConfig.get "port" = some (.number (.posInt port))

end Forms

section Bodies

variable {lib : Libraries} {method server password : Text}

/-- No cipher has a character that separates or escapes. -/
theorem cipher_plain (h : method ∈ shadowsocksCiphers) :
    method ≠ [] ∧ toAsciiLowercase method = method ∧
      ∀ c ∈ method, c ∉ ['%', '+', '&', '=', ':', '@', '?', '#'] := by
  have hall : ∀ m ∈ shadowsocksCiphers, m ≠ [] ∧ toAsciiLowercase m = m ∧
      ∀ c ∈ m, c ∉ ['%', '+', '&', '=', ':', '@', '?', '#'] := by decide +kernel
  exact hall method h

/-- Query and fragment are cut off. -/
theorem shadowsocksBody_append {body : Text} (h : ∀ c ∈ body, c ∉ ['?', '#']) (tail : UrlTail) :
    shadowsocksBody (body ++ tail.text) = body := by
  have hquery : '?' ∉ body := fun hm => h _ hm (by simp)
  have hfragment : '#' ∉ body := fun hm => h _ hm (by simp)
  rw [shadowsocksBody, splitOnce_elim]
  obtain ⟨text, starts⟩ := tail
  cases text with
  | nil => rw [List.append_nil, beforeFirst_of_not_mem hfragment, beforeFirst_of_not_mem hquery]
  | cons c rest =>
    have hstart := starts c (by simp)
    simp only [List.mem_cons, List.not_mem_nil, or_false] at hstart
    rcases hstart with rfl | rfl
    · have hcut : beforeFirst '#' (body ++ '?' :: rest) = body ++ '?' :: beforeFirst '#' rest := by
        rw [beforeFirst, List.takeWhile_append_of_pos (all_ne_of_not_mem hfragment),
          List.takeWhile_cons_of_pos (by decide)]
        rfl
      rw [hcut, beforeFirst_append_of_not_mem hquery]
    · rw [beforeFirst_append_of_not_mem hfragment, beforeFirst_of_not_mem hquery]

theorem Base64Variant.plain (v : Base64Variant) (bytes : List UInt8) :
    ∀ c ∈ v.encode bytes, c ∉ ['@', '?', '#', ':'] := by
  intro c hc hm
  have hreserved := not_reserved (Base64Variant.mem_encode hc)
  have hsub : ['@', '?', '#', ':'] ⊆ ':' :: '@' :: '?' :: '#' :: droppedChars := by decide
  exact hreserved (hsub hm)

theorem PercentForm.mem_written (form : PercentForm password) {c : Char}
    (h : c ∈ written form.marks) : c ∉ ['@', '?', '#'] := by
  have hkept : ∀ d ∈ ['@', '?', '#'], rfcKept d = false ∧ d ≠ ':' ∧ d ≠ '%' ∧ d ∉ hexDigits := by
    decide +kernel
  intro hm
  obtain ⟨hrfc, hcolon, hpercent, hdigit⟩ := hkept c hm
  rcases FormUrlencoded.mem_written h with hmark | he | he
  · rcases form.kept _ hmark rfl with hk | hk
    · rw [hrfc] at hk
      cases hk
    · exact hcolon hk
  · exact hpercent he
  · exact hdigit he

/-- Neither query nor fragment starts within a body. -/
theorem ShadowsocksForm.body_plain (hmethod : method ∈ shadowsocksCiphers)
    (hserver : ∀ c ∈ server, c ∉ ['@', '?', '#']) (form : ShadowsocksForm password) :
    ∀ c ∈ form.body method server, c ∉ ['?', '#'] := by
  have hplain := (cipher_plain hmethod).2.2
  have hsub : ['?', '#'] ⊆ ['@', '?', '#'] := by decide
  have hsub' : ['?', '#'] ⊆ ['@', '?', '#', ':'] := by decide
  intro c hc
  cases form with
  | percent form =>
    simp only [body, List.mem_append, List.mem_cons] at hc
    rcases hc with (hc | rfl | hc) | rfl | hc
    · exact fun hm => hplain c hc (List.mem_append_right ['%', '+', '&', '=', ':', '@'] hm)
    · decide
    · exact fun hm => form.mem_written hc (hsub hm)
    · decide
    · exact fun hm => hserver c hc (hsub hm)
  | sip002 v =>
    simp only [body, List.mem_append, List.mem_cons] at hc
    rcases hc with hc | rfl | hc
    · exact fun hm => v.plain _ c hc (hsub' hm)
    · decide
    · exact fun hm => hserver c hc (hsub hm)
  | legacy v => exact fun hm => v.plain _ c hc (hsub' hm)

/-- An encoded text is read as it was. -/
theorem fromUtf8_of_decodeB64 {v : Base64Variant} {t text : Text} {bytes : List UInt8}
    (hdecode : decodeB64 (v.encode (utf8Encode t)) = some bytes)
    (hread : fromUtf8 lib bytes = .ok text) : text = t := by
  rw [Base64Variant.eq_of_decodeB64 hdecode, fromUtf8, utf8Decode_encode] at hread
  exact (Except.ok.inj hread).symm

/-- Every accepted form is taken apart into its credential and its server. -/
theorem settle_of_form (hmethod : method ∈ shadowsocksCiphers)
    (hserver : ∀ c ∈ server, c ∉ ['@', '?', '#']) (form : ShadowsocksForm password)
    (tail : UrlTail) {share : ParsedShare}
    (h : parseShadowsocks lib (form.url method server tail) = .ok share) :
    ∃ remark, settleShadowsocks lib remark server (form.credential lib method) = .ok share := by
  have hat : '@' ∉ server := fun hm => hserver _ hm (by simp)
  rw [form.url_eq, parseShadowsocks_eq,
    shadowsocksBody_append (form.body_plain hmethod hserver)] at h
  simp only [bind_eq_ok, context_eq_ok] at h
  obtain ⟨decoded, hdecoded, parts, hparts, credential, hcredential, hsettle⟩ := h
  -- What remains is that the parts are those of the form.
  have hform : credential = form.credential lib method ∧ parts.2 = server := by
    cases form with
    | percent form =>
      rw [ShadowsocksForm.body, shadowsocksText, if_pos (by simp)] at hdecoded
      obtain rfl := Except.ok.inj hdecoded
      rw [rsplitOnce_append hat] at hparts
      obtain rfl := Option.some.inj hparts
      rw [shadowsocksCredential, if_pos (by simp)] at hcredential
      exact ⟨(Except.ok.inj hcredential).symm, rfl⟩
    | sip002 v =>
      have hcolon : ':' ∉ v.encode (utf8Encode (method ++ ':' :: password)) := fun hm =>
        v.plain _ _ hm (by simp)
      rw [ShadowsocksForm.body, shadowsocksText, if_pos (by simp)] at hdecoded
      obtain rfl := Except.ok.inj hdecoded
      rw [rsplitOnce_append hat] at hparts
      obtain rfl := Option.some.inj hparts
      rw [shadowsocksCredential, if_neg hcolon] at hcredential
      obtain ⟨bytes, hbytes, hread⟩ := bind_eq_ok.mp hcredential
      exact ⟨fromUtf8_of_decodeB64 (context_eq_ok.mp hbytes) hread, rfl⟩
    | legacy v =>
      have hnoAt : '@' ∉ v.encode (utf8Encode (method ++ ':' :: password ++ '@' :: server)) :=
        fun hm => v.plain _ _ hm (by simp)
      rw [ShadowsocksForm.body, shadowsocksText, if_neg hnoAt] at hdecoded
      obtain ⟨bytes, hbytes, hread⟩ := bind_eq_ok.mp hdecoded
      obtain rfl := fromUtf8_of_decodeB64 (context_eq_ok.mp hbytes) hread
      rw [rsplitOnce_append hat] at hparts
      obtain rfl := Option.some.inj hparts
      rw [shadowsocksCredential, if_pos (by simp)] at hcredential
      exact ⟨(Except.ok.inj hcredential).symm, rfl⟩
  obtain ⟨rfl, rfl⟩ := hform
  exact ⟨_, hsettle⟩

end Bodies

section Credentials

variable {lib : Libraries} {method password : Text}

theorem hasEscape_append {front t : Text} (h : '%' ∉ front) :
    HasEscape (front ++ t) ↔ HasEscape t := by
  induction front with
  | nil => rfl
  | cons c front ih =>
    rw [List.mem_cons, not_or] at h
    rw [List.cons_append, hasEscape_cons_iff, ih h.2]
    constructor
    · rintro (⟨-, -, -, -, -, rfl, -⟩ | hescape)
      · exact absurd rfl h.1
      · exact hescape
    · exact .inr

/-- The credential of every form starts with the cipher. -/
theorem ShadowsocksForm.credential_eq (forms : lib.StandardForms)
    (hmethod : method ∈ shadowsocksCiphers) (form : ShadowsocksForm password) :
    ∃ stored, form.credential lib method = method ++ ':' :: stored ∧
      (stored = password ↔ form.Survives) := by
  obtain ⟨hne, -, hplain⟩ := cipher_plain hmethod
  have hfront : ∀ c ∈ method ++ [':'], c ∉ ['%', '+', '&', '='] := by
    intro c hc
    rcases List.mem_append.mp hc with hc | hc
    · exact fun hm => hplain c hc (List.mem_append_left [':', '@', '?', '#'] hm)
    · rw [List.mem_singleton.mp hc]
      decide
  have hcancel : ∀ stored : Text, stored = password ↔
      method ++ ':' :: stored = method ++ ':' :: password := by
    intro stored
    rw [List.append_cancel_left_eq, List.cons.injEq]
    simp
  have hreads : ∀ t : Text, ∃ stored,
      ProxyFleet.percentDecode lib (method ++ ':' :: t) = method ++ ':' :: stored := by
    intro t
    obtain ⟨stored, hstored⟩ := decodeName_append (by simp) hfront t
    refine ⟨stored, ?_⟩
    rw [percentDecode_eq forms]
    simpa using hstored
  cases form with
  | percent form =>
    obtain ⟨stored, hstored⟩ := hreads (written form.marks)
    refine ⟨stored, hstored, ?_⟩
    have hkeptFront : plainText ((method ++ [':']).map fun c => (c, true)) = method ++ [':'] := by
      rw [plainText, List.map_map]
      exact List.map_id _
    have hwritten : written ((method ++ [':']).map (fun c => (c, true)) ++ form.marks) =
        method ++ ':' :: written form.marks := by
      rw [written, List.flatMap_append, ← written, ← written, written_of_kept (by simp), hkeptFront]
      simp
    have hplainText : plainText ((method ++ [':']).map (fun c => (c, true)) ++ form.marks) =
        method ++ ':' :: password := by
      have hmarks := form.plain
      rw [plainText] at hmarks hkeptFront
      rw [plainText, List.map_append, hkeptFront, hmarks]
      simp
    have hpercent : ('%', true) ∉ (method ++ [':']).map (fun c => (c, true)) ++ form.marks := by
      intro hm
      rcases List.mem_append.mp hm with hm | hm
      · obtain ⟨c, hc, he⟩ := List.mem_map.mp hm
        obtain ⟨rfl, -⟩ := Prod.mk.inj he
        exact hfront _ hc (by simp)
      · have hkept : rfcKept '%' = false ∧ '%' ≠ ':' := by decide +kernel
        rcases form.kept _ hm rfl with hk | hk
        · rw [hkept.1] at hk
          cases hk
        · exact hkept.2 hk
    have hiff := decodeName_written_iff hpercent
    rw [hwritten, hplainText] at hiff
    rw [hcancel, ← hstored, percentDecode_eq forms, hiff, Survives]
    constructor
    · rintro (hall | hmarks) m hm hkept
      · have hcolon := hall (':', true) (by simp)
        exact absurd (Prod.mk.inj hcolon).1 (by decide)
      · exact hmarks m (List.mem_append_right _ hm) hkept
    · intro hmarks
      refine .inr fun m hm hkept => ?_
      rcases List.mem_append.mp hm with hm | hm
      · obtain ⟨c, hc, rfl⟩ := List.mem_map.mp hm
        exact fun hmem => hfront c hc (List.mem_cons_of_mem _ hmem)
      · exact hmarks m hm hkept
  | sip002 v => exact ⟨password, rfl, iff_of_true rfl trivial⟩
  | legacy v =>
    obtain ⟨stored, hstored⟩ := hreads password
    refine ⟨stored, hstored, ?_⟩
    have hfull : method ++ ':' :: password = (method ++ [':']) ++ password := by simp
    have hescape := hasEscape_append (t := password) fun hm => hfront _ hm (by simp)
    rw [hcancel, ← hstored, percentDecode_eq forms, decodeName_eq_self_iff, hfull, hescape,
      Survives]
    constructor
    · rintro (hall | ⟨hchars, hnone⟩)
      · exact absurd (hall ':' (by simp)) (by decide)
      · exact ⟨fun c hc => hchars c (List.mem_append_right _ hc), hnone⟩
    · rintro ⟨hchars, hnone⟩
      refine .inr ⟨fun c hc => ?_, hnone⟩
      rcases List.mem_append.mp hc with hc | hc
      · exact fun hm => hfront c hc (List.mem_cons_of_mem _ hm)
      · exact hchars c hc

end Credentials

section Identities

theorem valueString_shadowsocksConfig (lib : Libraries) (url : Url) (port : ℕ)
    (method password : Text) :
    valueString (shadowsocksConfig lib url port method password) "method" =
      toAsciiLowercase method ∧
    valueString (shadowsocksConfig lib url port method password) "password" = password ∧
    valueString (shadowsocksConfig lib url port method password) "address" = urlAddress url ∧
    (shadowsocksConfig lib url port method password).get "port" =
      some (.number (.posInt port)) := by
  have hmethod : (shadowsocksConfig lib url port method password).get "method" =
      some (.text (toAsciiLowercase method)) := rfl
  have hpassword : (shadowsocksConfig lib url port method password).get "password" =
      some (.text password) := rfl
  have haddress : (shadowsocksConfig lib url port method password).get "address" =
      some (.text (urlAddress url)) := rfl
  have hport : (shadowsocksConfig lib url port method password).get "port" =
      some (.number (.posInt port)) := rfl
  simp [valueString, hmethod, hpassword, haddress, hport, Json.text, Json.asStr]

variable {lib : Libraries} {method password server host : Text} {port : ℕ} {source : String}
  {raw : Text} {proxy : ParsedProxy}

/-- The identity of an accepted form, and whether it holds the password. -/
theorem config_of_form (forms : lib.StandardForms) (hmethod : method ∈ shadowsocksCiphers)
    (hserver : ServerText lib server host port) {form : ShadowsocksForm password} {tail : UrlTail}
    (hurl : trim isWhitespace raw = form.url method server tail)
    (accepted : parseShareUrl lib raw source = .ok proxy) :
    ∃ url stored, lib.parseUrl ("ss://placeholder@".toList ++ server) = .ok url ∧
      url.hostStr = some host ∧
      proxy.normalizedConfig = shadowsocksConfig lib url port method stored ∧
      (stored = password ↔ form.Survives) := by
  obtain ⟨share, hshare, -, rfl⟩ := parseShareUrl_eq_ok.mp accepted
  rw [hurl, form.url_eq, parseScheme_shadowsocks] at hshare
  obtain ⟨remark, hsettle⟩ := settle_of_form hmethod hserver.plain form tail hshare
  obtain ⟨url, other, m, p, settled⟩ := settleShadowsocks_ok hsettle
  obtain ⟨hhost, hport⟩ := hserver.read url settled.read
  obtain rfl := Option.some.inj (hport.symm.trans settled.hasPort)
  -- The credential is split behind the cipher.
  obtain ⟨stored, hcredential, hsurvives⟩ := form.credential_eq forms hmethod
  have hcolon : ':' ∉ method := fun hm => (cipher_plain hmethod).2.2 _ hm (by simp)
  have hsplit := settled.split
  rw [hcredential, splitOnce_cons hcolon] at hsplit
  obtain ⟨rfl, rfl⟩ := Prod.mk.inj (Option.some.inj hsplit)
  exact ⟨url, stored, settled.read, hhost, settled.normalized, hsurvives⟩

/-- An accepted form stores what it was written from exactly when the password survives. -/
theorem storesShadowsocks_iff (forms : lib.StandardForms) (hmethod : method ∈ shadowsocksCiphers)
    (hserver : ServerText lib server host port) {form : ShadowsocksForm password} {tail : UrlTail}
    (hurl : trim isWhitespace raw = form.url method server tail)
    (accepted : parseShareUrl lib raw source = .ok proxy) :
    StoresShadowsocks proxy method password host port ↔ form.Survives := by
  obtain ⟨url, stored, -, hhost, hconfig, hsurvives⟩ :=
    config_of_form forms hmethod hserver hurl accepted
  obtain ⟨hstoredMethod, hstoredPassword, hstoredAddress, hstoredPort⟩ :=
    valueString_shadowsocksConfig lib url port method stored
  rw [← hsurvives]
  constructor
  · intro h
    rw [← hstoredPassword, ← hconfig]
    exact h.password
  · rintro rfl
    rw [(cipher_plain hmethod).2.1] at hstoredMethod
    rw [urlAddress, hhost] at hstoredAddress
    rw [← hconfig] at hstoredMethod hstoredPassword hstoredAddress hstoredPort
    exact ⟨hstoredMethod, hstoredPassword, hstoredAddress, hstoredPort⟩

/-- Accepted forms store what they were written from exactly when the password survives, and
exactly then they have the identity of the form with an encoded credential. -/
theorem shadowsocks_forms_agree (forms : lib.StandardForms) (hmethod : method ∈ shadowsocksCiphers)
    (hserver : ServerText lib server host port) (password : Text) (source : String) :
    (∀ (form : ShadowsocksForm password) tail raw proxy,
      trim isWhitespace raw = form.url method server tail →
      parseShareUrl lib raw source = .ok proxy →
      (StoresShadowsocks proxy method password host port ↔ form.Survives)) ∧
    (∀ (form : ShadowsocksForm password) variant tail tail' raw raw' proxy proxy',
      trim isWhitespace raw = form.url method server tail →
      trim isWhitespace raw' =
        (ShadowsocksForm.sip002 variant : ShadowsocksForm password).url method server tail' →
      parseShareUrl lib raw source = .ok proxy → parseShareUrl lib raw' source = .ok proxy' →
      lib.Separates proxy.normalizedConfig proxy'.normalizedConfig →
      (proxy.configHash = proxy'.configHash ↔ form.Survives)) := by
  refine ⟨fun form tail raw proxy => storesShadowsocks_iff forms hmethod hserver, ?_⟩
  intro form variant tail tail' raw raw' proxy proxy' hurl hurl' h h' separates
  have hstores := storesShadowsocks_iff forms hmethod hserver hurl h
  have hstores' := (storesShadowsocks_iff forms hmethod hserver hurl' h').mpr trivial
  constructor
  · intro hhash
    rw [← hstores]
    have hsame : proxy.normalizedConfig = proxy'.normalizedConfig := by
      apply separates
      rw [← configHash_eq h, ← configHash_eq h', hhash]
    exact ⟨hsame ▸ hstores'.method, hsame ▸ hstores'.password, hsame ▸ hstores'.address,
      hsame ▸ hstores'.port⟩
  · intro hsurvives
    obtain ⟨url, stored, hread, -, hconfig, hstored⟩ := config_of_form forms hmethod hserver hurl h
    obtain ⟨url', stored', hread', -, hconfig', hstored'⟩ :=
      config_of_form forms hmethod hserver hurl' h'
    obtain rfl := Except.ok.inj (hread.symm.trans hread')
    obtain rfl := hstored.mpr hsurvives
    obtain rfl := hstored'.mpr trivial
    rw [configHash_eq h, configHash_eq h', hconfig, hconfig']

/-- The identity of a URL of Shadowsocks on the sample server. -/
def gcmConfig (password : String) : Json :=
  .object [
    ("address", .string "host.example"), ("method", .string "aes-128-gcm"),
    ("params", .object []), ("password", .string password), ("port", .number (.posInt 443)),
    ("protocol", .string "ss")]

def plusShadowsocks : String := "14da4a22fc3d71be1dba2072437fa47fc2111a8704f03b7221a5d11cf1a97d16"

def blankShadowsocks : String := "307108b7412817361f66bfab540dfadc52f623b41d4e65c8e929dc1a7773a1b7"

def gcmLibraries : Libraries :=
  readerLibraries [] [(writeJson (gcmConfig "a+b"), plusShadowsocks),
    (writeJson (gcmConfig "a b"), blankShadowsocks)]

theorem gcmLibraries_server :
    ServerText gcmLibraries "host.example:443".toList "host.example".toList 443 where
  plain := by decide
  read url h := by
    have hread : (readShareUrl "ss://placeholder@host.example:443".toList).map
        (fun url => (url.hostStr, url.port)) = .ok (some "host.example".toList, some 443) := by
      decide +kernel
    obtain ⟨other, hother, hparts⟩ := map_eq_ok.mp hread
    obtain rfl := Except.ok.inj (hother.symm.trans h)
    exact Prod.mk.inj hparts

def escapedPlus : PercentForm "a+b".toList where
  marks := [('a', true), ('+', false), ('b', true)]
  plain := rfl
  kept := by decide +kernel

def percentUrl : Text := "ss://aes-128-gcm:a%2Bb@host.example:443".toList

def sip002Url : Text := "ss://YWVzLTEyOC1nY206YSti@host.example:443".toList

def legacyUrl : Text := "ss://YWVzLTEyOC1nY206YStiQGhvc3QuZXhhbXBsZTo0NDM=".toList

theorem sip002Url_accepted : (parseShareUrl gcmLibraries sip002Url "feed").map
    (fun proxy => (valueString proxy.normalizedConfig "password", proxy.configHash)) =
      .ok ("a+b".toList, plusShadowsocks) := map_readerLibraries (by decide +kernel)

theorem legacyUrl_accepted : (parseShareUrl gcmLibraries legacyUrl "feed").map
    (fun proxy => (valueString proxy.normalizedConfig "password", proxy.configHash)) =
      .ok ("a b".toList, blankShadowsocks) := map_readerLibraries (by decide +kernel)

theorem shadowsocks_forms_agree_plus :
    ∃ proxy proxy₁ proxy₂,
      parseShareUrl gcmLibraries percentUrl "feed" = .ok proxy ∧
      parseShareUrl gcmLibraries sip002Url "feed" = .ok proxy₁ ∧
      parseShareUrl gcmLibraries legacyUrl "feed" = .ok proxy₂ ∧
      StoresShadowsocks proxy "aes-128-gcm".toList "a+b".toList "host.example".toList 443 ∧
      ¬ StoresShadowsocks proxy₂ "aes-128-gcm".toList "a+b".toList "host.example".toList 443 ∧
      proxy₂.configHash ≠ proxy₁.configHash := by
  have forms : gcmLibraries.StandardForms := readerLibraries_forms
  have hmethod : "aes-128-gcm".toList ∈ shadowsocksCiphers := by decide
  obtain ⟨hstores, hagree⟩ :=
    shadowsocks_forms_agree forms hmethod gcmLibraries_server "a+b".toList "feed"
  have hparsed : (parseShareUrl gcmLibraries percentUrl "feed").map (·.configHash) =
      .ok plusShadowsocks := map_readerLibraries (by decide +kernel)
  obtain ⟨proxy, h, -⟩ := map_eq_ok.mp hparsed
  obtain ⟨proxy₁, h₁, hstored₁⟩ := map_eq_ok.mp sip002Url_accepted
  obtain ⟨proxy₂, h₂, hstored₂⟩ := map_eq_ok.mp legacyUrl_accepted
  obtain ⟨-, hhash₁⟩ := Prod.mk.inj hstored₁
  obtain ⟨-, hhash₂⟩ := Prod.mk.inj hstored₂
  have hlegacy : ¬ (ShadowsocksForm.legacy ⟨false, true⟩ : ShadowsocksForm "a+b".toList).Survives :=
    fun hsurvives => hsurvives.1 '+' (by decide) (by decide)
  have separates : gcmLibraries.Separates proxy₂.normalizedConfig proxy₁.normalizedConfig := by
    intro hdigest
    rw [← configHash_eq h₂, ← configHash_eq h₁, hhash₂, hhash₁] at hdigest
    exact absurd hdigest (by decide)
  have hpercent : (ShadowsocksForm.percent escapedPlus).Survives := by
    intro m hm hkept
    have hall : ∀ m ∈ escapedPlus.marks, m.2 = true → m.1 ∉ ['+', '&', '='] := by decide
    exact hall m hm hkept
  refine ⟨proxy, proxy₁, proxy₂, h, h₁, h₂, ?_, ?_, ?_⟩
  · exact (hstores (.percent escapedPlus) ⟨[], by simp⟩ _ _ (by decide +kernel) h).mpr hpercent
  · exact fun hstored => hlegacy ((hstores (.legacy ⟨false, true⟩) ⟨[], by simp⟩ _ _
      (by decide +kernel) h₂).mp hstored)
  · exact fun hsame => hlegacy ((hagree (.legacy ⟨false, true⟩) ⟨true, false⟩ ⟨[], by simp⟩
      ⟨[], by simp⟩ _ _ _ _ (by decide +kernel) (by decide +kernel) h₂ h₁ separates).mp hsame)

/-- The password of the form that is encoded as a whole is decoded once more. -/
theorem legacy_plus_is_lost :
    (ShadowsocksForm.legacy ⟨false, true⟩ : ShadowsocksForm "a+b".toList).url
      "aes-128-gcm".toList "host.example:443".toList ⟨[], by simp⟩ = legacyUrl ∧
    (ShadowsocksForm.sip002 ⟨true, false⟩ : ShadowsocksForm "a+b".toList).url
      "aes-128-gcm".toList "host.example:443".toList ⟨[], by simp⟩ = sip002Url ∧
    (parseShareUrl gcmLibraries legacyUrl "feed").map
      (fun proxy => (valueString proxy.normalizedConfig "password", proxy.configHash)) =
        .ok ("a b".toList, blankShadowsocks) ∧
    (parseShareUrl gcmLibraries sip002Url "feed").map
      (fun proxy => (valueString proxy.normalizedConfig "password", proxy.configHash)) =
        .ok ("a+b".toList, plusShadowsocks) ∧
    blankShadowsocks ≠ plusShadowsocks := by
  exact ⟨by decide +kernel, by decide +kernel, legacyUrl_accepted, sip002Url_accepted,
    by decide⟩

end Identities

end ProxyFleet
