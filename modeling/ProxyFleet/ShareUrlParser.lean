import ProxyFleet.AddressSyntax
import ProxyFleet.Base64
import ProxyFleet.TextLines
import Mathlib.Data.List.Sort

/-!
# Share URLs

Decoding and static validation of one share URL, and its identity: the hash of the
canonical configuration without the remark. The URL, form, UUID, JSON and hash
libraries are parameters.
-/
namespace ProxyFleet

open AddressSyntax TextLines

/-- What a parsed URL answers. -/
structure Url where
  scheme : Text
  username : Text
  password : Option Text
  hostStr : Option Text
  port : Option ℕ
  path : Text
  query : Option Text
  fragment : Option Text

/-- The libraries that the parser calls. -/
structure Libraries where
  /-- `Url::parse`, or the text of its error. -/
  parseUrl : Text → Except String Url
  /-- `form_urlencoded::parse`. -/
  parseForm : List UInt8 → List (Text × Text)
  /-- `Uuid::parse_str` succeeds. -/
  isUuid : Text → Bool
  /-- `serde_json::from_slice` into an ordered map. -/
  parseJsonMap : List UInt8 → Option (List (String × Json))
  /-- `serde_json::to_vec`. -/
  jsonToVec : Json → List UInt8
  /-- The digest in lower-case hexadecimal. -/
  sha256 : List UInt8 → String
  /-- The text of the error of `String::from_utf8`. -/
  utf8Error : List UInt8 → String

def utf8Encode (t : Text) : List UInt8 := t.flatMap String.utf8EncodeChar

def utf8Decode (bytes : List UInt8) : Option Text :=
  bytes.toByteArray.utf8Decode?.map Array.toList

theorem utf8Decode_encode (t : Text) : utf8Decode (utf8Encode t) = some t := by
  have h : (utf8Encode t).toByteArray = t.utf8Encode := rfl
  rw [utf8Decode, h, List.utf8Decode?_utf8Encode]
  rfl

def utf8Len (t : Text) : ℕ := (t.map Char.utf8Size).sum

def toAsciiLowercase (t : Text) : Text := t.map Char.toLower

def isAsciiAlphanumeric (c : Char) : Bool := c.isAlphanum

/-- The parts around the first separator. -/
def splitOnce (separator : Char) (t : Text) : Option (Text × Text) :=
  match t.dropWhile (· ≠ separator) with
  | [] => none
  | _ :: rest => some (t.takeWhile (· ≠ separator), rest)

/-- The parts around the last separator. -/
def rsplitOnce (separator : Char) (t : Text) : Option (Text × Text) :=
  (splitOnce separator t.reverse).map fun parts => (parts.2.reverse, parts.1.reverse)

/-- The text before the first separator. -/
def beforeFirst (separator : Char) (t : Text) : Text := t.takeWhile (· ≠ separator)

section Cuts

variable {t : Text} {c : Char}

theorem all_ne_of_not_mem (h : c ∉ t) : ∀ d ∈ t, decide (d ≠ c) = true := by
  intro d hd
  exact decide_eq_true fun he => h (he ▸ hd)

theorem beforeFirst_append_of_not_mem (h : c ∉ t) (after : Text) :
    beforeFirst c (t ++ c :: after) = t := by
  rw [beforeFirst, List.takeWhile_append_of_pos (all_ne_of_not_mem h)]
  simp

theorem eq_beforeFirst_append (h : c ∈ t) : ∃ after, t = beforeFirst c t ++ c :: after := by
  obtain ⟨front, after, rfl, hfront⟩ := List.eq_append_cons_of_mem h
  exact ⟨after, by rw [beforeFirst_append_of_not_mem hfront]⟩

theorem not_mem_beforeFirst : c ∉ beforeFirst c t := by
  intro h
  simpa using List.mem_takeWhile_imp h

theorem mem_of_mem_beforeFirst {d : Char} (h : d ∈ beforeFirst c t) : d ∈ t :=
  (List.takeWhile_sublist _).subset h

theorem beforeFirst_of_not_mem (h : c ∉ t) : beforeFirst c t = t :=
  List.takeWhile_eq_self_iff.mpr (all_ne_of_not_mem h)

/-- What follows a separator is not before the first. -/
theorem beforeFirst_append (c : Char) (t after : Text) :
    beforeFirst c (t ++ c :: after) = beforeFirst c t := by
  by_cases h : c ∈ t
  · obtain ⟨front, rest, rfl, hfront⟩ := List.eq_append_cons_of_mem h
    rw [beforeFirst_append_of_not_mem hfront, List.append_assoc, List.cons_append,
      beforeFirst_append_of_not_mem hfront]
  · rw [beforeFirst_append_of_not_mem h, beforeFirst_of_not_mem h]

/-- What follows the first separator is behind a text without it. -/
theorem splitOnce_append (h : c ∉ t) (rest : Text) :
    (splitOnce c (t ++ rest)).map Prod.snd = (splitOnce c rest).map Prod.snd := by
  rw [splitOnce, splitOnce, List.dropWhile_append_of_pos (all_ne_of_not_mem h)]
  cases rest.dropWhile (· ≠ c) with
  | nil => rfl
  | cons d rest => rfl

theorem splitOnce_cons (h : c ∉ t) (rest : Text) :
    splitOnce c (t ++ c :: rest) = some (t, rest) := by
  rw [splitOnce, List.dropWhile_append_of_pos (all_ne_of_not_mem h),
    List.takeWhile_append_of_pos (all_ne_of_not_mem h)]
  simp

theorem splitOnce_of_not_mem (h : c ∉ t) : splitOnce c t = none := by
  have happend := splitOnce_append h []
  rw [List.append_nil] at happend
  exact Option.map_eq_none_iff.mp happend

theorem rsplitOnce_append {front : Text} (h : c ∉ t) :
    rsplitOnce c (front ++ c :: t) = some (front, t) := by
  have hreverse : c ∉ t.reverse := fun hm => h (List.mem_reverse.mp hm)
  rw [rsplitOnce, List.reverse_append, List.reverse_cons, List.append_assoc,
    List.singleton_append, splitOnce_cons hreverse]
  simp

/-- The part in front of the first separator, or all of the text. -/
theorem splitOnce_elim (c : Char) (t : Text) :
    (splitOnce c t).elim t Prod.fst = beforeFirst c t := by
  by_cases h : c ∈ t
  · obtain ⟨front, rest, rfl, hfront⟩ := List.eq_append_cons_of_mem h
    rw [splitOnce_cons hfront, beforeFirst_append_of_not_mem hfront]
    rfl
  · rw [splitOnce_of_not_mem h, beforeFirst_of_not_mem h]
    rfl

end Cuts

def trimBrackets (t : Text) : Text := trim (fun c => c = '[' || c = ']') t

def ensure (condition : Bool) (message : String) : Except String Unit :=
  if condition then .ok () else .error message

def context {α : Type} (value : Option α) (message : String) : Except String α :=
  match value with
  | some a => .ok a
  | none => .error message

namespace OrderedMap

variable {α : Type}

/-- Insertion into a map that is ordered by its keys. -/
def insert (m : List (String × α)) (key : String) (value : α) : List (String × α) :=
  List.orderedInsert (fun a b => a.1 ≤ b.1) (key, value) (m.filter fun entry => entry.1 ≠ key)

def get (m : List (String × α)) (key : String) : Option α := m.lookup key

def remove (m : List (String × α)) (key : String) : List (String × α) :=
  m.filter fun entry => entry.1 ≠ key

end OrderedMap

namespace Json

def asStr : Json → Option Text
  | .string value => some value.toList
  | _ => none

def asU64 : Json → Option ℕ
  | .number (.posInt value) => if value < 2 ^ 64 then some value else none
  | _ => none

def asObject : Json → Option (List (String × Json))
  | .object members => some members
  | _ => none

def get (value : Json) (key : String) : Option Json := value.asObject.bind (OrderedMap.get · key)

def text (value : Text) : Json := .string (String.ofList value)

end Json

/-- What the parsers of the schemes return. -/
structure ParsedShare where
  protocol : Text
  address : Text
  port : ℕ
  remark : Text
  normalized : Json

section Parsers

variable (lib : Libraries)

def decodeB64 (input : Text) : Option (List UInt8) :=
  Base64.decode Base64.standard true input <|>
    Base64.decode Base64.urlSafe false (input.rdropWhile (· = '='))

def fromUtf8 (bytes : List UInt8) : Except String Text :=
  context (utf8Decode bytes) (lib.utf8Error bytes)

def percentDecode (value : Text) : Text :=
  ((lib.parseForm (utf8Encode value)).head?.map Prod.fst).getD value

/-- Names of query parameters that only label a proxy. -/
def remarkKeys : List Text := ["remark", "remarks", "ps", "name"].map String.toList

/-- Query parameters whose values do not distinguish letter case. -/
def caselessKeys : List Text :=
  ["sni", "host", "security", "type", "net", "fp", "flow", "headertype"].map String.toList

def canonicalQuery (url : Url) : List (String × Json) :=
  (lib.parseForm (utf8Encode (url.query.getD []))).foldl
    (fun params pair =>
      let key := toAsciiLowercase pair.1
      if key ∈ remarkKeys then params
      else
        let value := if key ∈ caselessKeys then toAsciiLowercase pair.2 else pair.2
        OrderedMap.insert params (String.ofList key) (.text value))
    []

def numberOrStringU16 (value : Json) : Option ℕ :=
  (value.asU64.bind fun number => if number < 65536 then some number else none) <|>
    value.asStr.bind parseU16

def validateUserId (value : Text) : Except String Unit := do
  ensure (!(trim isWhitespace value).isEmpty) "proxy user id is empty"
  if lib.isUuid value then .ok ()
  else ensure (utf8Len value < 30) "custom proxy user id must be shorter than 30 bytes"

def validateAddress (address : Text) : Except String Unit :=
  if isIpAddr address then .ok ()
  else do
    ensure (utf8Len address ≤ 253) "proxy hostname is too long"
    ensure (address.all fun c => isAsciiAlphanumeric c || c = '.' || c = '-' || c = '_')
      "proxy hostname is invalid"

def validAlpnToken (token : Text) : Bool :=
  !token.isEmpty && decide (utf8Len token ≤ 255) &&
    token.all fun c => decide (33 ≤ c.toNat ∧ c.toNat ≤ 126 ∧ c ≠ ',')

def validateTransportParameters (config : Json) : Except String Unit :=
  match (config.get "params").bind Json.asObject with
  | none => .ok ()
  | some params => do
    let value (key : String) : Option Text := (OrderedMap.get params key).bind Json.asStr
    for key in ["sni", "host"] do
      if let some hostnames := value key then
        for hostname in (hostnames.splitOn ',').filter (!·.isEmpty) do
          validateAddress hostname
    if let some alpn := value "alpn" then
      ensure ((alpn.splitOn ',').all validAlpnToken) "ALPN contains an invalid token"
    let security := (value "security").getD "none".toList
    if toAsciiLowercase security = "reality".toList then
      let key := ((OrderedMap.get params "pbk" <|> OrderedMap.get params "password").bind
        Json.asStr).getD []
      ensure (decide (32 ≤ utf8Len key) &&
        key.all fun c => isAsciiAlphanumeric c || c = '-' || c = '_')
        "REALITY public key is invalid"
      if let some shortId := value "sid" then
        ensure (decide (utf8Len shortId ≤ 16) && decide (utf8Len shortId % 2 = 0) &&
          shortId.all isHexDigit) "REALITY short id is invalid"

/-- The address that a URL names, without the brackets of IPv6. -/
def urlAddress (url : Url) : Text := toAsciiLowercase (trimBrackets (url.hostStr.getD []))

def parseUrlProxy (raw : Text) : Except String ParsedShare := do
  let url ← lib.parseUrl raw
  let protocol := toAsciiLowercase url.scheme
  ensure (decide (protocol ∈ ["vless", "trojan", "socks", "socks5"].map String.toList))
    "unsupported URL proxy scheme"
  let address := urlAddress url
  let port ← context url.port "proxy URL has no port"
  let remark := url.fragment.getD []
  let user := if url.username.isEmpty then [] else percentDecode lib url.username
  let password := percentDecode lib (url.password.getD [])
  if protocol = "vless".toList ∨ protocol = "trojan".toList then
    ensure (!user.isEmpty) "proxy URL has no credential"
  if protocol = "vless".toList then
    validateUserId lib user
  let params := canonicalQuery lib url
  .ok {
    protocol := protocol
    address := address
    port := port
    remark := remark
    normalized := .object [
      ("address", .text address), ("params", .object params), ("password", .text password),
      ("path", .text url.path), ("port", .number (.posInt port)), ("protocol", .text protocol),
      ("user", .text user)] }

def parseVmess (raw : Text) : Except String ParsedShare := do
  let encoded ← context ("vmess://".toList.isPrefixOf? raw) "invalid vmess URL"
  let decoded ← context (decodeB64 (beforeFirst '#' encoded)) "vmess payload is not base64"
  let payload ← context (lib.parseJsonMap decoded) "vmess payload is not JSON"
  let field (key : String) : Option Text := (OrderedMap.get payload key).bind Json.asStr
  let address := toAsciiLowercase (trim isWhitespace ((field "add").getD []))
  let port ← context ((OrderedMap.get payload "port").bind numberOrStringU16)
    "vmess payload has invalid port"
  validateUserId lib ((field "id").getD [])
  let remark := (field "ps").getD []
  let unlabelled := ["ps", "remarks", "remark"].foldl OrderedMap.remove payload
  let payload := OrderedMap.insert (OrderedMap.insert unlabelled "add" (.text address)) "port"
    (.number (.posInt port))
  .ok {
    protocol := "vmess".toList
    address := address
    port := port
    remark := remark
    normalized := .object [("payload", .object payload), ("protocol", .string "vmess")] }

/-- The ciphers that the proxy core offers. -/
def shadowsocksCiphers : List Text :=
  ["aes-128-gcm", "aes-256-gcm", "chacha20-poly1305", "chacha20-ietf-poly1305",
    "xchacha20-poly1305", "xchacha20-ietf-poly1305", "2022-blake3-aes-128-gcm",
    "2022-blake3-aes-256-gcm", "2022-blake3-chacha20-poly1305"].map String.toList

def parseShadowsocks (raw : Text) : Except String ParsedShare := do
  let noFragment ← context ("ss://".toList.isPrefixOf? raw) "invalid ss URL"
  let (body, remark) := match splitOnce '#' noFragment with
    | some (body, remark) => (body, percentDecode lib remark)
    | none => (noFragment, [])
  let bodyWithoutQuery := beforeFirst '?' body
  let decoded ←
    if '@' ∈ bodyWithoutQuery then .ok bodyWithoutQuery
    else do
      let bytes ← context (decodeB64 bodyWithoutQuery) "shadowsocks payload is not base64"
      fromUtf8 lib bytes
  let (credentialRaw, server) ← context (rsplitOnce '@' decoded)
    "shadowsocks URL has no server separator"
  let credential ←
    if ':' ∈ credentialRaw then .ok (percentDecode lib credentialRaw)
    else do
      let bytes ← context (decodeB64 credentialRaw) "shadowsocks user info is not base64"
      fromUtf8 lib bytes
  let parsed ← lib.parseUrl ("ss://placeholder@".toList ++ server)
  let address := urlAddress parsed
  let port ← context parsed.port "shadowsocks URL has no port"
  let (method, password) ← context (splitOnce ':' credential)
    "shadowsocks URL has invalid credential"
  ensure (decide (toAsciiLowercase method ∈ shadowsocksCiphers)) "unsupported shadowsocks cipher"
  ensure (!password.isEmpty) "shadowsocks password is empty"
  .ok {
    protocol := "ss".toList
    address := address
    port := port
    remark := remark
    normalized := .object [
      ("address", .text address), ("method", .text (toAsciiLowercase method)),
      ("params", .object (canonicalQuery lib parsed)), ("password", .text password),
      ("port", .number (.posInt port)), ("protocol", .string "ss")] }

/-- The parser of the scheme that a trimmed URL names. -/
def parseScheme (raw : Text) : Except String ParsedShare :=
  if "vmess://".toList <+: raw then parseVmess lib raw
  else if "ss://".toList <+: raw then parseShadowsocks lib raw
  else parseUrlProxy lib raw

def supportedProtocols : List Text :=
  ["vmess", "vless", "trojan", "ss", "socks", "socks5"].map String.toList

/-- The checks that every scheme has in common. -/
def validateShare (share : ParsedShare) : Except String Unit := do
  ensure (decide (share.protocol ∈ supportedProtocols))
    ("unsupported protocol " ++ String.ofList share.protocol)
  ensure (!share.address.isEmpty) "proxy address is empty"
  validateAddress share.address
  ensure (decide (0 < share.port)) "proxy port is invalid"
  validateTransportParameters share.normalized

def parseShareUrl (raw : Text) (source : String) : Except String ParsedProxy := do
  let raw := trim isWhitespace raw
  let share ← parseScheme lib raw
  validateShare share
  .ok {
    source := source
    rawConfig := raw
    protocol := String.ofList share.protocol
    address := String.ofList share.address
    port := share.port
    remark := String.ofList share.remark
    normalizedConfig := share.normalized
    configHash := lib.sha256 (lib.jsonToVec share.normalized) }

end Parsers

end ProxyFleet
