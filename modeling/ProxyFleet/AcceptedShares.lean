import ProxyFleet.SubscriptionParser

/-!
# Accepted share URLs

What the parsers of the schemes return when they accept a URL, as a function of what the
libraries read in it, and what the checks of an accepted URL have seen.
-/
namespace ProxyFleet

open TextLines

section Results

variable {α β : Type}

theorem bind_eq_ok {x : Except String α} {f : α → Except String β} {b : β} :
    (x >>= f) = .ok b ↔ ∃ a, x = .ok a ∧ f a = .ok b := by
  cases x with
  | error e => simp [bind, Except.bind]
  | ok a => simp [bind, Except.bind]

theorem map_eq_ok {x : Except String α} {f : α → β} {b : β} :
    x.map f = .ok b ↔ ∃ a, x = .ok a ∧ f a = b := by
  cases x with
  | error e => simp [Except.map]
  | ok a => simp [Except.map]

theorem ensure_eq_ok {condition : Bool} {message : String} {u : Unit} :
    ensure condition message = .ok u ↔ condition = true := by
  cases condition <;> simp [ensure]

theorem context_eq_ok {value : Option α} {message : String} {a : α} :
    context value message = .ok a ↔ value = some a := by
  cases value <;> simp [context]

/-- A check that is made on one branch alone. -/
theorem check_bind_eq_ok {p : Prop} [Decidable p] {check : Except String Unit}
    {next : Except String β} {b : β} :
    (if p then (do check; next) else next) = .ok b ↔ (p → check = .ok ()) ∧ next = .ok b := by
  split
  · next hp =>
    rw [bind_eq_ok]
    constructor
    · rintro ⟨_, hcheck, hnext⟩
      exact ⟨fun _ => hcheck, hnext⟩
    · exact fun h => ⟨(), h.1 hp, h.2⟩
  · next hp => simp [hp]

theorem ite_bind_eq {p : Prop} [Decidable p] (x y : Except String α) (f : α → Except String β) :
    (if p then x else y) >>= f = if p then x >>= f else y >>= f := by
  split <;> rfl

end Results

section UrlProxies

variable (lib : Libraries)

/-- The user of an accepted URL. -/
def urlUser (url : Url) : Text :=
  if url.username.isEmpty then [] else percentDecode lib url.username

def urlPassword (url : Url) : Text := percentDecode lib (url.password.getD [])

/-- The identity of a URL with a port. -/
def urlConfig (url : Url) (port : ℕ) : Json :=
  .object [
    ("address", .text (urlAddress url)), ("params", .object (canonicalQuery lib url)),
    ("password", .text (urlPassword lib url)), ("path", .text url.path),
    ("port", .number (.posInt port)), ("protocol", .text (toAsciiLowercase url.scheme)),
    ("user", .text (urlUser lib url))]

/-- What an accepted URL with its own syntax for user and server has been checked for. -/
structure AcceptedUrl (raw : Text) (url : Url) (port : ℕ) (share : ParsedShare) : Prop where
  parsed : lib.parseUrl raw = .ok url
  protocol : toAsciiLowercase url.scheme ∈ ["vless", "trojan", "socks", "socks5"].map String.toList
  hasPort : url.port = some port
  credential : toAsciiLowercase url.scheme ∈ ["vless", "trojan"].map String.toList →
    urlUser lib url ≠ []
  userId : toAsciiLowercase url.scheme = "vless".toList →
    validateUserId lib (urlUser lib url) = .ok ()
  share : share = {
    protocol := toAsciiLowercase url.scheme
    address := urlAddress url
    port := port
    remark := url.fragment.getD []
    normalized := urlConfig lib url port }

variable {lib} {raw : Text} {share : ParsedShare}

theorem parseUrlProxy_ok (h : parseUrlProxy lib raw = .ok share) :
    ∃ url port, AcceptedUrl lib raw url port share := by
  simp only [parseUrlProxy, bind_eq_ok, check_bind_eq_ok, ensure_eq_ok, context_eq_ok] at h
  obtain ⟨url, hurl, -, hprotocol, port, hport, hcredential, hid, hshare⟩ := h
  refine ⟨url, port, hurl, of_decide_eq_true hprotocol, hport, ?_, hid, ?_⟩
  · intro hcredentialed
    simpa [urlUser] using hcredential (by simpa using hcredentialed)
  · exact (Except.ok.inj hshare).symm

end UrlProxies

section Vmess

variable (lib : Libraries)

/-- The document of a URL of VMess. -/
def vmessPayload (raw : Text) : Option (List (String × Json)) := do
  let encoded ← "vmess://".toList.isPrefixOf? raw
  let decoded ← decodeB64 (beforeFirst '#' encoded)
  lib.parseJsonMap decoded

/-- A text of the document, empty without one. -/
def textField (payload : List (String × Json)) (key : String) : Text :=
  ((OrderedMap.get payload key).bind Json.asStr).getD []

def vmessAddress (payload : List (String × Json)) : Text :=
  toAsciiLowercase (trim isWhitespace (textField payload "add"))

/-- The identity of a document with a port. -/
def vmessConfig (payload : List (String × Json)) (port : ℕ) : List (String × Json) :=
  OrderedMap.insert
    (OrderedMap.insert (["ps", "remarks", "remark"].foldl OrderedMap.remove payload) "add"
      (.text (vmessAddress payload)))
    "port" (.number (.posInt port))

/-- What an accepted URL of VMess has been checked for. -/
structure AcceptedVmess (raw : Text) (payload : List (String × Json)) (port : ℕ)
    (share : ParsedShare) : Prop where
  parsed : vmessPayload lib raw = some payload
  hasPort : (OrderedMap.get payload "port").bind numberOrStringU16 = some port
  userId : validateUserId lib (textField payload "id") = .ok ()
  share : share = {
    protocol := "vmess".toList
    address := vmessAddress payload
    port := port
    remark := textField payload "ps"
    normalized := .object [
      ("payload", .object (vmessConfig payload port)), ("protocol", .string "vmess")] }

variable {lib} {raw : Text} {share : ParsedShare}

theorem parseVmess_ok (h : parseVmess lib raw = .ok share) :
    ∃ payload port, AcceptedVmess lib raw payload port share := by
  simp only [parseVmess, bind_eq_ok, context_eq_ok] at h
  obtain ⟨encoded, hencoded, decoded, hdecoded, payload, hpayload, port, hport, u, hid, hshare⟩ := h
  refine ⟨payload, port, ?_, hport, hid, (Except.ok.inj hshare).symm⟩
  rw [vmessPayload, hencoded]
  simp only [Option.bind_eq_bind, Option.bind_some, hdecoded, hpayload]

end Vmess

section Shadowsocks

variable (lib : Libraries)

/-- The text in front of query and fragment. -/
def shadowsocksBody (noFragment : Text) : Text :=
  beforeFirst '?' ((splitOnce '#' noFragment).elim noFragment Prod.fst)

/-- Credential and server of a body. -/
def shadowsocksText (body : Text) : Except String Text :=
  if '@' ∈ body then .ok body
  else do
    let bytes ← context (decodeB64 body) "shadowsocks payload is not base64"
    fromUtf8 lib bytes

def shadowsocksCredential (credentialRaw : Text) : Except String Text :=
  if ':' ∈ credentialRaw then .ok (percentDecode lib credentialRaw)
  else do
    let bytes ← context (decodeB64 credentialRaw) "shadowsocks user info is not base64"
    fromUtf8 lib bytes

def shadowsocksConfig (url : Url) (port : ℕ) (method password : Text) : Json :=
  .object [
    ("address", .text (urlAddress url)), ("method", .text (toAsciiLowercase method)),
    ("params", .object (canonicalQuery lib url)), ("password", .text password),
    ("port", .number (.posInt port)), ("protocol", .string "ss")]

/-- What the parser makes of a server and a credential. -/
def settleShadowsocks (remark server credential : Text) : Except String ParsedShare := do
  let parsed ← lib.parseUrl ("ss://placeholder@".toList ++ server)
  let port ← context parsed.port "shadowsocks URL has no port"
  let (method, password) ← context (splitOnce ':' credential)
    "shadowsocks URL has invalid credential"
  ensure (decide (toAsciiLowercase method ∈ shadowsocksCiphers)) "unsupported shadowsocks cipher"
  ensure (!password.isEmpty) "shadowsocks password is empty"
  .ok {
    protocol := "ss".toList
    address := urlAddress parsed
    port := port
    remark := remark
    normalized := shadowsocksConfig lib parsed port method password }

def shadowsocksRemark (noFragment : Text) : Text :=
  (splitOnce '#' noFragment).elim [] fun parts => percentDecode lib parts.2

/-- The parser finds body, credential and server one after the other. -/
theorem parseShadowsocks_eq (noFragment : Text) :
    parseShadowsocks lib ("ss://".toList ++ noFragment) = (do
      let decoded ← shadowsocksText lib (shadowsocksBody noFragment)
      let parts ← context (rsplitOnce '@' decoded) "shadowsocks URL has no server separator"
      let credential ← shadowsocksCredential lib parts.1
      settleShadowsocks lib (shadowsocksRemark lib noFragment) parts.2 credential) := by
  have hprefix : "ss://".toList.isPrefixOf? ("ss://".toList ++ noFragment) = some noFragment :=
    List.isPrefixOf?_eq_some_iff_append_eq.mpr rfl
  have hcontext : context (some noFragment) "invalid ss URL" = Except.ok noFragment := rfl
  have hok : ∀ {α β : Type} (a : α) (f : α → Except String β), (Except.ok a >>= f) = f a :=
    fun _ _ => rfl
  cases hsplit : splitOnce '#' noFragment with
  | none =>
    simp only [parseShadowsocks, hprefix, hcontext, hok, hsplit, shadowsocksText,
      shadowsocksCredential, settleShadowsocks, shadowsocksBody, shadowsocksConfig,
      shadowsocksRemark, Option.elim_none, ite_bind_eq, bind_assoc]
  | some parts =>
    simp only [parseShadowsocks, hprefix, hcontext, hok, hsplit, shadowsocksText,
      shadowsocksCredential, settleShadowsocks, shadowsocksBody, shadowsocksConfig,
      shadowsocksRemark, Option.elim_some, ite_bind_eq, bind_assoc]

/-- What a server and a credential have been checked for. -/
structure SettledShadowsocks (server credential : Text) (url : Url) (port : ℕ)
    (method password : Text) (share : ParsedShare) : Prop where
  read : lib.parseUrl ("ss://placeholder@".toList ++ server) = .ok url
  hasPort : url.port = some port
  split : splitOnce ':' credential = some (method, password)
  cipher : toAsciiLowercase method ∈ shadowsocksCiphers
  nonempty : password ≠ []
  protocol : share.protocol = "ss".toList
  address : share.address = urlAddress url
  sharePort : share.port = port
  normalized : share.normalized = shadowsocksConfig lib url port method password

/-- What an accepted URL of Shadowsocks has been checked for. -/
structure AcceptedShadowsocks (raw server credential : Text) (url : Url) (port : ℕ)
    (method password : Text) (share : ParsedShare) : Prop
    extends SettledShadowsocks lib server credential url port method password share where
  parsed : ∃ noFragment decoded credentialRaw, raw = "ss://".toList ++ noFragment ∧
    shadowsocksText lib (shadowsocksBody noFragment) = .ok decoded ∧
    rsplitOnce '@' decoded = some (credentialRaw, server) ∧
    shadowsocksCredential lib credentialRaw = .ok credential

variable {lib} {raw : Text} {share : ParsedShare}

theorem settleShadowsocks_ok {remark server credential : Text}
    (h : settleShadowsocks lib remark server credential = .ok share) :
    ∃ url port method password,
      SettledShadowsocks lib server credential url port method password share := by
  simp only [settleShadowsocks, bind_eq_ok, ensure_eq_ok, context_eq_ok] at h
  obtain ⟨url, hurl, port, hport, ⟨method, password⟩, hsplit, -, hcipher, -, hpassword, hshare⟩ := h
  obtain rfl := Except.ok.inj hshare
  have hnonempty : password ≠ [] := by simpa using hpassword
  exact ⟨url, port, method, password, hurl, hport, hsplit, of_decide_eq_true hcipher, hnonempty,
    rfl, rfl, rfl, rfl⟩

/-- The label of a URL is no part of its identity. -/
theorem settleShadowsocks_normalized {remark₁ remark₂ server credential : Text}
    {share₁ share₂ : ParsedShare}
    (h₁ : settleShadowsocks lib remark₁ server credential = .ok share₁)
    (h₂ : settleShadowsocks lib remark₂ server credential = .ok share₂) :
    share₁.normalized = share₂.normalized := by
  obtain ⟨url₁, port₁, method₁, password₁, settled₁⟩ := settleShadowsocks_ok h₁
  obtain ⟨url₂, port₂, method₂, password₂, settled₂⟩ := settleShadowsocks_ok h₂
  obtain rfl := Except.ok.inj (settled₁.read.symm.trans settled₂.read)
  obtain rfl := Option.some.inj (settled₁.hasPort.symm.trans settled₂.hasPort)
  obtain ⟨rfl, rfl⟩ := Prod.mk.inj (Option.some.inj (settled₁.split.symm.trans settled₂.split))
  rw [settled₁.normalized, settled₂.normalized]

theorem parseShadowsocks_ok (h : parseShadowsocks lib raw = .ok share) :
    ∃ server credential url port method password,
      AcceptedShadowsocks lib raw server credential url port method password share := by
  have hscheme : ∃ noFragment, raw = "ss://".toList ++ noFragment := by
    have hbind := h
    rw [parseShadowsocks, bind_eq_ok] at hbind
    obtain ⟨noFragment, hcontext, -⟩ := hbind
    have hprefix := context_eq_ok.mp hcontext
    exact ⟨noFragment, (List.isPrefixOf?_eq_some_iff_append_eq.mp hprefix).symm⟩
  obtain ⟨noFragment, rfl⟩ := hscheme
  simp only [parseShadowsocks_eq, bind_eq_ok, context_eq_ok] at h
  obtain ⟨decoded, hdecoded, parts, hparts, credential, hcredential, hsettle⟩ := h
  obtain ⟨url, port, method, password, settled⟩ := settleShadowsocks_ok hsettle
  exact ⟨parts.2, credential, url, port, method, password, settled,
    noFragment, decoded, parts.1, rfl, hdecoded, hparts, hcredential⟩

end Shadowsocks

section Shares

variable (lib : Libraries)

/-- The proxy of an accepted share. -/
def shareProxy (source : String) (raw : Text) (share : ParsedShare) : ParsedProxy where
  source := source
  rawConfig := raw
  protocol := String.ofList share.protocol
  address := String.ofList share.address
  port := share.port
  remark := String.ofList share.remark
  normalizedConfig := share.normalized
  configHash := lib.sha256 (lib.jsonToVec share.normalized)

variable {lib} {raw : Text} {source : String} {proxy : ParsedProxy} {share : ParsedShare}

theorem parseShareUrl_eq_ok : parseShareUrl lib raw source = .ok proxy ↔
    ∃ share, parseScheme lib (trim isWhitespace raw) = .ok share ∧ validateShare share = .ok () ∧
      proxy = shareProxy lib source (trim isWhitespace raw) share := by
  simp only [parseShareUrl, bind_eq_ok]
  constructor
  · rintro ⟨share, hshare, _, hvalid, hproxy⟩
    exact ⟨share, hshare, hvalid, (Except.ok.inj hproxy).symm⟩
  · rintro ⟨share, hshare, hvalid, rfl⟩
    exact ⟨share, hshare, (), hvalid, rfl⟩

theorem not_vmess_of_shadowsocks (t : Text) : ¬ "vmess://".toList <+: "ss://".toList ++ t := by
  intro hvmess
  have hcomparable := List.prefix_of_prefix_length_le (List.prefix_append _ t) hvmess (by decide)
  revert hcomparable
  decide

/-- The parser of Shadowsocks reads the URLs of its scheme. -/
theorem parseScheme_shadowsocks (t : Text) :
    parseScheme lib ("ss://".toList ++ t) = parseShadowsocks lib ("ss://".toList ++ t) := by
  rw [parseScheme, if_neg (not_vmess_of_shadowsocks t), if_pos (List.prefix_append _ t)]

/-- The identity of a proxy is the digest of its configuration. -/
theorem configHash_eq (h : parseShareUrl lib raw source = .ok proxy) :
    proxy.configHash = lib.sha256 (lib.jsonToVec proxy.normalizedConfig) := by
  obtain ⟨share, -, -, rfl⟩ := parseShareUrl_eq_ok.mp h
  rfl

/-- The scheme in front of a text decides which parser accepted it. -/
theorem parseScheme_ok (h : parseScheme lib raw = .ok share) :
    ("vmess://".toList <+: raw ∧ ∃ payload port, AcceptedVmess lib raw payload port share) ∨
    (¬ "vmess://".toList <+: raw ∧ "ss://".toList <+: raw ∧
      ∃ server credential url port method password,
        AcceptedShadowsocks lib raw server credential url port method password share) ∨
    (¬ "vmess://".toList <+: raw ∧ ¬ "ss://".toList <+: raw ∧
      ∃ url port, AcceptedUrl lib raw url port share) := by
  rw [parseScheme] at h
  split at h
  · next hvmess => exact .inl ⟨hvmess, parseVmess_ok h⟩
  · next hvmess =>
    split at h
    · next hss => exact .inr (.inl ⟨hvmess, hss, parseShadowsocks_ok h⟩)
    · next hss => exact .inr (.inr ⟨hvmess, hss, parseUrlProxy_ok h⟩)

end Shares

end ProxyFleet
