import ProxyFleet.LibraryReaders
import ProxyFleet.ShareReadings
import ProxyFleet.XrayOutbound

/-!
# Static validation and rendering

An accepted URL is rendered exactly when its transport and security are known to the
renderer, and REALITY runs over a transport that carries it, with a public key. The parser
checks the key alone.
-/
namespace ProxyFleet

open TextLines

/-- A transport, its security and the key of REALITY that can be rendered. -/
structure Renderable (network security key : Text) : Prop where
  known : toAsciiLowercase network ∈ transportNames.map Prod.fst
  secured : toAsciiLowercase security ∈ securityNames
  carried : toAsciiLowercase security = "reality".toList →
    (∃ name ∈ realityTransports, transportNames.lookup (toAsciiLowercase network) = some name) ∧
      key ≠ []

section Stream

variable {params : List (String × Text)} {server network security : Text}

theorem renderable_of_streamSettings {stream : Json}
    (h : streamSettings params server network security = .ok stream) :
    Renderable network security (realityKey params) := by
  simp only [streamSettings, bind_eq_ok, context_eq_ok, ensure_eq_ok] at h
  obtain ⟨name, hname, -, hsecurity, h⟩ := h
  refine ⟨?_, of_decide_eq_true hsecurity, fun hreality => ?_⟩
  · obtain ⟨front, behind, hsplit, -⟩ := List.lookup_eq_some_iff.mp hname
    rw [hsplit]
    simp
  · rw [if_pos hreality] at h
    simp only [bind_eq_ok, ensure_eq_ok] at h
    obtain ⟨-, hcarries, -, hkey, -⟩ := h
    exact ⟨⟨name, of_decide_eq_true hcarries, hname⟩, by simpa using hkey⟩

theorem streamSettings_of_renderable (h : Renderable network security (realityKey params)) :
    ∃ stream, streamSettings params server network security = .ok stream := by
  have hsome : (transportNames.lookup (toAsciiLowercase network)).isSome = true := by
    obtain ⟨entry, hentry, heq⟩ := List.mem_map.mp h.known
    exact List.lookup_isSome_iff.mpr ⟨entry, hentry, by simp [heq]⟩
  obtain ⟨name, hname⟩ := Option.isSome_iff_exists.mp hsome
  by_cases hreality : toAsciiLowercase security = "reality".toList
  · obtain ⟨⟨carrier, hcarrier, hlookup⟩, hkey⟩ := h.carried hreality
    obtain rfl : name = carrier := Option.some.inj (hname.symm.trans hlookup)
    have hcarries : decide (name ∈ realityTransports) = true := decide_eq_true hcarrier
    have hgiven : (!(realityKey params).isEmpty) = true := by simpa using hkey
    simp only [streamSettings, hname, context, ensure, decide_eq_true h.secured, if_pos hreality,
      hcarries, hgiven, bind, Except.bind]
    exact ⟨_, rfl⟩
  · simp only [streamSettings, hname, context, ensure, decide_eq_true h.secured,
      if_neg hreality, bind, Except.bind]
    exact ⟨_, rfl⟩

/-- A stream is rendered exactly when its parts can be. -/
theorem streamSettings_isOk_iff (server : Text) :
    (∃ stream, streamSettings params server network security = .ok stream) ↔
      Renderable network security (realityKey params) := by
  constructor
  · rintro ⟨stream, h⟩
    exact renderable_of_streamSettings h
  · exact streamSettings_of_renderable

end Stream

section Parameters

variable {lib : Libraries} {url : Url} {port : ℕ}

/-- A list of texts under names in lower case. -/
def TextItems (items : List (String × Json)) : Prop :=
  ∀ item ∈ items, ∃ name value, item = (String.ofList (toAsciiLowercase name), .text value)

theorem collect_textItems {items : List (String × Json)} (h : TextItems items) :
    (items.filterMap fun item => item.2.asStr.map fun text => (lowercaseKey item.1, text)) =
      items.map fun item => (item.1, item.2.asStr.getD []) := by
  rw [← List.filterMap_eq_map]
  apply List.filterMap_congr
  intro item hitem
  obtain ⟨name, value, rfl⟩ := h item hitem
  simp [lowercaseKey]

theorem lookup_textItems {items : List (String × Json)} (h : TextItems items) (key : String) :
    (items.map fun item => (item.1, item.2.asStr.getD [])).lookup key =
      (items.lookup key).bind Json.asStr := by
  induction items with
  | nil => rfl
  | cons item items ih =>
    obtain ⟨name, value, rfl⟩ := h item List.mem_cons_self
    rw [List.map_cons, List.lookup_cons, List.lookup_cons]
    by_cases hkey : key = String.ofList (toAsciiLowercase name)
    · simp [hkey]
    · rw [beq_false_of_ne hkey]
      exact ih fun item hitem => h item (List.mem_cons_of_mem _ hitem)

/-- The renderer finds the parameters of the canonical query. -/
theorem param_urlConfig (key : String) :
    param (xrayParams (urlConfig lib url port)) key = queryText lib url (lowercaseKey key) := by
  have hitems : TextItems (canonicalQuery lib url) := fun _ => mem_canonicalQuery
  have hparams : xrayParams (urlConfig lib url port) = OrderedMap.collect
      ((canonicalQuery lib url).filterMap fun item =>
        item.2.asStr.map fun text => (lowercaseKey item.1, text)) := rfl
  have hsorted : OrderedMap.Sorted (canonicalQuery lib url) := sorted_canonicalQuery
  have hnodup := hsorted.nodup_keys
  rw [param, hparams, collect_textItems hitems, OrderedMap.get_collect_of_nodup, queryText,
    lookup_textItems hitems]
  · rfl
  · rw [List.map_map]
    exact hnodup

theorem realityKey_vmessParams (payload : List (String × Json)) :
    realityKey (vmessParams payload) = textField payload "pbk" := by
  have hdistinct : (vmessStreamKeys.map lowercaseKey).Nodup := by decide +kernel
  have hparams : vmessParams payload = OrderedMap.collect (OrderedMap.fieldEntries lowercaseKey
    (fun key => (OrderedMap.get payload key).bind Json.asStr) vmessStreamKeys) := rfl
  have hpbk : param (vmessParams payload) "pbk" =
      (OrderedMap.get payload "pbk").bind Json.asStr := by
    rw [param, hparams, OrderedMap.get_collect_fieldEntries hdistinct (by decide)]
  have hpassword : param (vmessParams payload) "password" = none := by
    rw [param, hparams, OrderedMap.get_collect_fieldEntries_eq_none (by decide +kernel)]
  rw [realityKey, firstParam, textField]
  cases h : (OrderedMap.get payload "pbk").bind Json.asStr with
  | none => simp [hpbk, hpassword, h]
  | some key => simp [hpbk, h]

theorem realityKey_urlConfig (port : ℕ) : realityKey (xrayParams (urlConfig lib url port)) =
    (queryText lib url "pbk" <|> queryText lib url "password").getD [] := by
  have hpbk : lowercaseKey "pbk" = "pbk" := by decide
  have hpassword : lowercaseKey "password" = "password" := by decide
  rw [realityKey, firstParam]
  cases h : queryText lib url "pbk" with
  | none => simp [param_urlConfig, hpbk, hpassword, h]
  | some key => simp [param_urlConfig, hpbk, h]

end Parameters

section Outbounds

variable (lib : Libraries)

/-- The query of a URL names a transport and a security that can be rendered. -/
def RenderableQuery (url : Url) (security : Text) : Prop :=
  Renderable ((queryText lib url "type").getD "tcp".toList)
    ((queryText lib url "security").getD security)
    ((queryText lib url "pbk" <|> queryText lib url "password").getD [])

/-- A document of VMess names a transport and a security that can be rendered. -/
def RenderablePayload (payload : List (String × Json)) : Prop :=
  Renderable (((OrderedMap.get payload "net").bind Json.asStr).getD "tcp".toList)
    (((OrderedMap.get payload "tls").bind Json.asStr).getD "none".toList)
    (textField payload "pbk")

/-- A share URL whose transport, if it names one, can be rendered. -/
def RenderableShare (raw : Text) : Prop :=
  if "vmess://".toList <+: raw then ∀ payload ∈ vmessPayload lib raw, RenderablePayload payload
  else if "ss://".toList <+: raw then True
  else ∀ url, lib.parseUrl raw = .ok url →
    (toAsciiLowercase url.scheme = "vless".toList → RenderableQuery lib url "none".toList) ∧
    (toAsciiLowercase url.scheme = "trojan".toList → RenderableQuery lib url "tls".toList)

variable {lib} {raw : Text} {source : String} {share : ParsedShare} {url : Url} {port : ℕ}

theorem valueString_user : valueString (urlConfig lib url port) "user" = urlUser lib url := by
  have hget : (urlConfig lib url port).get "user" = some (.text (urlUser lib url)) := rfl
  simp [valueString, hget]

theorem xrayVless_isOk_iff {proxy : ParsedProxy} (hconfig : proxy.normalizedConfig =
    urlConfig lib url port) (hid : validateUserId lib (urlUser lib url) = .ok ()) :
    (∃ outbound, xrayVless lib proxy = .ok outbound) ↔ RenderableQuery lib url "none".toList := by
  have htype : lowercaseKey "type" = "type" := by decide
  have hsecurity : lowercaseKey "security" = "security" := by decide
  rw [RenderableQuery, ← realityKey_urlConfig port,
    ← streamSettings_isOk_iff proxy.address.toList]
  simp only [xrayVless, hconfig, valueString_user, hid, param_urlConfig, htype, hsecurity,
    bind_eq_ok]
  constructor
  · rintro ⟨outbound, -, -, stream, hstream, -⟩
    exact ⟨stream, hstream⟩
  · rintro ⟨stream, hstream⟩
    exact ⟨_, (), trivial, stream, hstream, rfl⟩

theorem xrayTrojan_isOk_iff {proxy : ParsedProxy} (hconfig : proxy.normalizedConfig =
    urlConfig lib url port) (hgiven : urlUser lib url ≠ []) :
    (∃ outbound, xrayTrojan proxy = .ok outbound) ↔ RenderableQuery lib url "tls".toList := by
  have htype : lowercaseKey "type" = "type" := by decide
  have hsecurity : lowercaseKey "security" = "security" := by decide
  rw [RenderableQuery, ← realityKey_urlConfig port,
    ← streamSettings_isOk_iff proxy.address.toList]
  simp only [xrayTrojan, hconfig, valueString_user, param_urlConfig, htype, hsecurity, bind_eq_ok,
    ensure_eq_ok]
  constructor
  · rintro ⟨outbound, -, -, stream, hstream, -⟩
    exact ⟨stream, hstream⟩
  · rintro ⟨stream, hstream⟩
    exact ⟨_, (), by simpa using hgiven, stream, hstream, rfl⟩

theorem xrayVmess_isOk_iff {proxy : ParsedProxy} {payload : List (String × Json)}
    (hconfig : proxy.normalizedConfig = .object [
      ("payload", .object (vmessConfig payload port)), ("protocol", .string "vmess")])
    (hid : validateUserId lib (textField payload "id") = .ok ()) :
    (∃ outbound, xrayVmess lib proxy = .ok outbound) ↔ RenderablePayload payload := by
  have hpayload : (proxy.normalizedConfig.get "payload").bind Json.asObject =
      some (vmessConfig payload port) := by
    rw [hconfig]
    rfl
  have hfield : ∀ key, key ∉ "port" :: "add" :: vmessLabels →
      OrderedMap.get (vmessConfig payload port) key = OrderedMap.get payload key :=
    fun key hkey => get_vmessConfig_kept hkey
  have hkey : textField (vmessConfig payload port) "pbk" = textField payload "pbk" := by
    rw [textField, hfield "pbk" (by decide), textField]
  rw [textField] at hid
  rw [RenderablePayload, ← hkey, ← realityKey_vmessParams,
    ← streamSettings_isOk_iff proxy.address.toList]
  simp only [xrayVmess, hpayload, context, bind_eq_ok, Except.ok.injEq, exists_eq_left',
    hfield "id" (by decide), hfield "net" (by decide), hfield "tls" (by decide), hid]
  constructor
  · rintro ⟨outbound, -, -, stream, hstream, -⟩
    exact ⟨stream, hstream⟩
  · rintro ⟨stream, hstream⟩
    exact ⟨_, (), trivial, stream, hstream, rfl⟩

/-- A URL with its own syntax for user and server is rendered when its query can be. -/
theorem xrayOutbound_url_isOk_iff (h : AcceptedUrl lib raw url port share) :
    (∃ outbound, xrayOutbound lib (shareProxy lib source raw share) = .ok outbound) ↔
      (toAsciiLowercase url.scheme = "vless".toList → RenderableQuery lib url "none".toList) ∧
      (toAsciiLowercase url.scheme = "trojan".toList → RenderableQuery lib url "tls".toList) := by
  have hconfig : (shareProxy lib source raw share).normalizedConfig = urlConfig lib url port := by
    rw [shareProxy, h.share]
  have hprotocol : (shareProxy lib source raw share).protocol =
      String.ofList (toAsciiLowercase url.scheme) := by
    rw [shareProxy, h.share]
  have hscheme := h.protocol
  simp only [List.map_cons, List.map_nil, List.mem_cons, List.not_mem_nil, or_false] at hscheme
  rw [xrayOutbound, hprotocol]
  rcases hscheme with hscheme | hscheme | hscheme | hscheme
  · rw [hscheme, if_pos (by decide), xrayVless_isOk_iff hconfig (h.userId hscheme)]
    simp
  · have hgiven := h.credential (by simp [hscheme])
    rw [hscheme, if_neg (by decide), if_pos (by decide), xrayTrojan_isOk_iff hconfig hgiven]
    simp
  · rw [hscheme, if_neg (by decide), if_neg (by decide), if_neg (by decide), if_pos (by decide)]
    simp
  · rw [hscheme, if_neg (by decide), if_neg (by decide), if_neg (by decide), if_pos (by decide)]
    simp

/-- An accepted URL is rendered exactly when its transport can be. -/
theorem xrayOutbound_isOk_iff {proxy : ParsedProxy}
    (accepted : parseShareUrl lib raw source = .ok proxy) :
    (∃ outbound, xrayOutbound lib proxy = .ok outbound) ↔
      RenderableShare lib (trim isWhitespace raw) := by
  obtain ⟨share, hshare, -, rfl⟩ := parseShareUrl_eq_ok.mp accepted
  rw [RenderableShare]
  rcases parseScheme_ok hshare with ⟨hvmess, payload, port, h⟩ |
    ⟨hvmess, hss, server, credential, url, port, method, password, h⟩ | ⟨hvmess, hss, url, port, h⟩
  · have hprotocol : (shareProxy lib source (trim isWhitespace raw) share).protocol = "vmess" := by
      rw [shareProxy, h.share]
      rfl
    rw [if_pos hvmess, h.parsed, xrayOutbound, hprotocol, if_neg (by decide),
      if_neg (by decide), if_neg (by decide), if_neg (by decide), if_pos rfl,
      xrayVmess_isOk_iff (by rw [shareProxy, h.share]) h.userId]
    simp
  · have hprotocol : (shareProxy lib source (trim isWhitespace raw) share).protocol = "ss" := by
      rw [shareProxy, h.protocol]
      rfl
    rw [if_neg hvmess, if_pos hss, xrayOutbound, hprotocol, if_neg (by decide),
      if_neg (by decide), if_pos rfl]
    simp
  · rw [if_neg hvmess, if_neg hss, xrayOutbound_url_isOk_iff h]
    constructor
    · intro hrender other hother
      obtain rfl := Except.ok.inj (h.parsed.symm.trans hother)
      exact hrender
    · exact fun hrender => hrender url h.parsed

/-- What the renderer asks of a query. -/
def queryNames (lib : Libraries) (url : Url) : Text × List (Option Text) :=
  (toAsciiLowercase url.scheme,
    ["type", "security", "pbk", "password"].map (queryText lib url))

theorem xrayOutbound_isOk_vless :
    ∃ proxy, parseShareUrl (readerLibraries [] [])
        "vless://id@host.example:443?type=ws&security=tls".toList "feed" = .ok proxy ∧
      ∃ outbound, xrayOutbound (readerLibraries [] []) proxy = .ok outbound := by
  have hparsed : (parseShareUrl (readerLibraries [] [])
      "vless://id@host.example:443?type=ws&security=tls".toList "feed").map (·.protocol) =
        .ok "vless" := by decide +kernel
  obtain ⟨proxy, h, -⟩ := map_eq_ok.mp hparsed
  refine ⟨proxy, h, (xrayOutbound_isOk_iff h).mpr ?_⟩
  have hraw : trim isWhitespace "vless://id@host.example:443?type=ws&security=tls".toList =
      "vless://id@host.example:443?type=ws&security=tls".toList := by decide +kernel
  have hnames : ((readerLibraries [] []).parseUrl
      "vless://id@host.example:443?type=ws&security=tls".toList).map
        (queryNames (readerLibraries [] [])) =
      .ok ("vless".toList, [some "ws".toList, some "tls".toList, none, none]) := by
    decide +kernel
  obtain ⟨url, hurl, hquery⟩ := map_eq_ok.mp hnames
  rw [hraw, RenderableShare, if_neg (by decide), if_neg (by decide)]
  intro other hother
  obtain rfl := Except.ok.inj (hurl.symm.trans hother)
  simp only [queryNames, List.map_cons, List.map_nil, Prod.mk.injEq, List.cons.injEq] at hquery
  obtain ⟨hscheme, htype, hsecurity, hpbk, hpassword, -⟩ := hquery
  constructor
  · intro _
    rw [RenderableQuery, htype, hsecurity, hpbk, hpassword]
    exact ⟨by decide, by decide, fun hreality => absurd hreality (by decide)⟩
  · intro htrojan
    rw [hscheme] at htrojan
    exact absurd htrojan (by decide)

/-- A transport that the parser accepts and the renderer refuses. -/
theorem accepted_not_rendered :
    (parseShareUrl (readerLibraries [] []) "vless://id@host.example:443?type=foo".toList "feed").map
      (fun proxy => (xrayOutbound (readerLibraries [] []) proxy).map fun _ => ()) =
        .ok (.error "unsupported transport network foo") := by
  decide +kernel

end Outbounds

end ProxyFleet
