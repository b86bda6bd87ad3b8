import ProxyFleet.AcceptedShares
import ProxyFleet.CanonicalQueries

/-!
# Readings of share URLs

What the libraries read in a share URL, as far as its identity depends on it, and the
identity as a function of the reading. A label behind a URL of VMess or Shadowsocks is not
even read.
-/
namespace ProxyFleet

open TextLines

section Readings

/-- What the parser of a scheme is given by the libraries. -/
inductive ShareReading where
  | url (url : Url)
  | vmess (payload : List (String × Json))
  | shadowsocks (credential : Text) (server : Url)

/-- The identity of what was read, if it names a port. -/
def ShareReading.identity (lib : Libraries) : ShareReading → Option Json
  | .url parsed => parsed.port.map (urlConfig lib parsed)
  | .vmess payload => ((OrderedMap.get payload "port").bind numberOrStringU16).map fun port =>
      .object [("payload", .object (vmessConfig payload port)), ("protocol", .string "vmess")]
  | .shadowsocks credential server => server.port.bind fun port =>
      (splitOnce ':' credential).map fun parts => shadowsocksConfig lib server port parts.1 parts.2

/-- The libraries read a trimmed URL in one way. -/
inductive Reads (lib : Libraries) (raw : Text) : ShareReading → Prop where
  | url {url : Url} (hvmess : ¬ "vmess://".toList <+: raw) (hss : ¬ "ss://".toList <+: raw)
      (parsed : lib.parseUrl raw = .ok url) : Reads lib raw (.url url)
  | vmess {payload : List (String × Json)} (hvmess : "vmess://".toList <+: raw)
      (parsed : vmessPayload lib raw = some payload) : Reads lib raw (.vmess payload)
  | shadowsocks {noFragment decoded credentialRaw server credential : Text} {url : Url}
      (hraw : raw = "ss://".toList ++ noFragment)
      (text : shadowsocksText lib (shadowsocksBody noFragment) = .ok decoded)
      (split : rsplitOnce '@' decoded = some (credentialRaw, server))
      (decodes : shadowsocksCredential lib credentialRaw = .ok credential)
      (parsed : lib.parseUrl ("ss://placeholder@".toList ++ server) = .ok url) :
      Reads lib raw (.shadowsocks credential url)

variable {lib : Libraries} {raw : Text} {source : String} {proxy : ParsedProxy}

theorem Reads.unique {r₁ r₂ : ShareReading} (h₁ : Reads lib raw r₁) (h₂ : Reads lib raw r₂) :
    r₁ = r₂ := by
  cases h₁ with
  | url hvmess₁ hss₁ parsed₁ =>
    cases h₂ with
    | url hvmess₂ hss₂ parsed₂ => rw [Except.ok.inj (parsed₁.symm.trans parsed₂)]
    | vmess hvmess₂ parsed₂ => exact absurd hvmess₂ hvmess₁
    | shadowsocks hraw₂ => exact absurd (hraw₂ ▸ List.prefix_append _ _) hss₁
  | vmess hvmess₁ parsed₁ =>
    cases h₂ with
    | url hvmess₂ => exact absurd hvmess₁ hvmess₂
    | vmess hvmess₂ parsed₂ => rw [Option.some.inj (parsed₁.symm.trans parsed₂)]
    | shadowsocks hraw₂ => exact absurd (hraw₂ ▸ hvmess₁) (not_vmess_of_shadowsocks _)
  | shadowsocks hraw₁ text₁ split₁ decodes₁ parsed₁ =>
    cases h₂ with
    | url hvmess₂ hss₂ => exact absurd (hraw₁ ▸ List.prefix_append _ _) hss₂
    | vmess hvmess₂ => exact absurd (hraw₁ ▸ hvmess₂) (not_vmess_of_shadowsocks _)
    | shadowsocks hraw₂ text₂ split₂ decodes₂ parsed₂ =>
      obtain rfl := List.append_cancel_left (hraw₁.symm.trans hraw₂)
      obtain rfl := Except.ok.inj (text₁.symm.trans text₂)
      obtain ⟨rfl, rfl⟩ := Prod.mk.inj (Option.some.inj (split₁.symm.trans split₂))
      obtain rfl := Except.ok.inj (decodes₁.symm.trans decodes₂)
      rw [Except.ok.inj (parsed₁.symm.trans parsed₂)]

/-- An accepted URL was read, and its identity is that of the reading. -/
theorem exists_reading (accepted : parseShareUrl lib raw source = .ok proxy) :
    ∃ r, Reads lib (trim isWhitespace raw) r ∧ r.identity lib = some proxy.normalizedConfig := by
  obtain ⟨share, hshare, -, rfl⟩ := parseShareUrl_eq_ok.mp accepted
  rcases parseScheme_ok hshare with ⟨hvmess, payload, port, h⟩ | ⟨-, -, h⟩ |
    ⟨hvmess, hss, url, port, h⟩
  · refine ⟨.vmess payload, .vmess hvmess h.parsed, ?_⟩
    rw [ShareReading.identity, h.hasPort, shareProxy, h.share]
    rfl
  · obtain ⟨server, credential, url, port, method, password, h⟩ := h
    obtain ⟨noFragment, decoded, credentialRaw, hraw, htext, hsplit, hdecodes⟩ := h.parsed
    refine ⟨.shadowsocks credential url, .shadowsocks hraw htext hsplit hdecodes h.read, ?_⟩
    rw [ShareReading.identity, h.hasPort, Option.bind_some, h.split, shareProxy, h.normalized]
    rfl
  · refine ⟨.url url, .url hvmess hss h.parsed, ?_⟩
    rw [ShareReading.identity, h.hasPort, shareProxy, h.share]
    rfl

/-- The identity of an accepted URL is that of what is read in it. -/
theorem Reads.identity {r : ShareReading} (h : Reads lib (trim isWhitespace raw) r)
    (accepted : parseShareUrl lib raw source = .ok proxy) :
    r.identity lib = some proxy.normalizedConfig := by
  obtain ⟨other, hother, hidentity⟩ := exists_reading accepted
  rw [h.unique hother, hidentity]

end Readings

section Hashes

variable {lib : Libraries} {raw₁ raw₂ : Text} {source : String} {proxy₁ proxy₂ : ParsedProxy}
  {r₁ r₂ : ShareReading}

/-- Readings with one identity give one hash. -/
theorem configHash_of_identity (h₁ : Reads lib (trim isWhitespace raw₁) r₁)
    (h₂ : Reads lib (trim isWhitespace raw₂) r₂) (h : r₁.identity lib = r₂.identity lib)
    (accepted₁ : parseShareUrl lib raw₁ source = .ok proxy₁)
    (accepted₂ : parseShareUrl lib raw₂ source = .ok proxy₂) :
    proxy₁.configHash = proxy₂.configHash := by
  rw [h₁.identity accepted₁, h₂.identity accepted₂] at h
  rw [configHash_eq accepted₁, configHash_eq accepted₂, Option.some.inj h]

end Hashes

section Parts

variable {lib : Libraries} {url₁ url₂ : Url}

/-- Two URLs agree in everything but host, query and fragment. -/
structure SameParts (url₁ url₂ : Url) : Prop where
  scheme : url₁.scheme = url₂.scheme
  username : url₁.username = url₂.username
  password : url₁.password = url₂.password
  port : url₁.port = url₂.port
  path : url₁.path = url₂.path

theorem SameParts.urlConfig_eq (h : SameParts url₁ url₂)
    (haddress : urlAddress url₁ = urlAddress url₂)
    (hquery : canonicalQuery lib url₁ = canonicalQuery lib url₂) (port : ℕ) :
    urlConfig lib url₁ port = urlConfig lib url₂ port := by
  simp only [urlConfig, urlUser, urlPassword, haddress, hquery, h.scheme, h.username, h.password,
    h.path]

theorem shadowsocksConfig_eq (haddress : urlAddress url₁ = urlAddress url₂)
    (hquery : canonicalQuery lib url₁ = canonicalQuery lib url₂) (port : ℕ)
    (method password : Text) :
    shadowsocksConfig lib url₁ port method password =
      shadowsocksConfig lib url₂ port method password := by
  simp only [shadowsocksConfig, haddress, hquery]

end Parts

section Documents

variable {payload payload₁ payload₂ : List (String × Json)} {port : ℕ} {key : String}

/-- The fields of a document that only label a proxy. -/
def vmessLabels : List String := ["ps", "remarks", "remark"]

theorem get_vmessConfig : OrderedMap.get (vmessConfig payload port) key =
    if key = "port" then some (.number (.posInt port))
    else if key = "add" then some (.text (vmessAddress payload))
    else if key ∈ vmessLabels then none else OrderedMap.get payload key := by
  rw [vmessConfig, OrderedMap.get_insert, OrderedMap.get_insert]
  simp only [List.foldl_cons, List.foldl_nil, OrderedMap.get_remove, vmessLabels, List.mem_cons,
    List.not_mem_nil, or_false]
  split_ifs <;> simp_all

/-- A field that the parser neither drops nor replaces. -/
theorem get_vmessConfig_kept (h : key ∉ "port" :: "add" :: vmessLabels) :
    OrderedMap.get (vmessConfig payload port) key = OrderedMap.get payload key := by
  simp only [List.mem_cons, not_or] at h
  obtain ⟨hport, hadd, hlabel⟩ := h
  rw [get_vmessConfig, if_neg hport, if_neg hadd, if_neg (by simpa using hlabel)]

theorem sorted_vmessConfig (h : OrderedMap.Sorted payload) :
    OrderedMap.Sorted (vmessConfig payload port) := by
  apply OrderedMap.sorted_insert
  apply OrderedMap.sorted_insert
  exact OrderedMap.sorted_remove (OrderedMap.sorted_remove (OrderedMap.sorted_remove h))

/-- Documents have one configuration when they agree but for their labels. -/
theorem vmessConfig_eq_iff (h₁ : OrderedMap.Sorted payload₁) (h₂ : OrderedMap.Sorted payload₂) :
    vmessConfig payload₁ port = vmessConfig payload₂ port ↔
      vmessAddress payload₁ = vmessAddress payload₂ ∧
        ∀ key, key ∉ "port" :: "add" :: vmessLabels →
          OrderedMap.get payload₁ key = OrderedMap.get payload₂ key := by
  constructor
  · intro h
    have hget : ∀ key, OrderedMap.get (vmessConfig payload₁ port) key =
        OrderedMap.get (vmessConfig payload₂ port) key := by
      intro key
      rw [h]
    refine ⟨?_, fun key hkey => ?_⟩
    · have hport : ¬ "add" = "port" := by decide
      have hadd := hget "add"
      rw [get_vmessConfig, get_vmessConfig, if_neg hport, if_neg hport, if_pos rfl, if_pos rfl]
        at hadd
      have htext := congrArg (Option.bind · Json.asStr) hadd
      simpa using htext
    · have hfield := hget key
      rwa [get_vmessConfig_kept hkey, get_vmessConfig_kept hkey] at hfield
  · rintro ⟨haddress, hfields⟩
    refine OrderedMap.ext (sorted_vmessConfig h₁) (sorted_vmessConfig h₂) fun key => ?_
    rw [get_vmessConfig, get_vmessConfig, haddress]
    split
    · rfl
    · next hport =>
      split
      · rfl
      · next hadd =>
        split
        · rfl
        · next hlabel =>
          apply hfields
          simp only [List.mem_cons, not_or]
          exact ⟨hport, hadd, by simpa using hlabel⟩

end Documents

end ProxyFleet
