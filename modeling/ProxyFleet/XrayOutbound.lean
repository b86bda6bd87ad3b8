import ProxyFleet.AcceptedShares
import ProxyFleet.OrderedMaps

/-!
# Xray outbounds

The outbound that the service writes for an accepted proxy: the transport, its security and
the settings of both, from the parameters of the identity.
-/
namespace ProxyFleet

open TextLines

/-- An object of the given fields. -/
def Json.ofFields (fields : List (String × Json)) : Json := .object (OrderedMap.collect fields)

def lowercaseKey (key : String) : String := String.ofList (toAsciiLowercase key.toList)

def valueString (value : Json) (key : String) : Text := ((value.get key).bind Json.asStr).getD []

/-- The parameters of an identity that are texts. -/
def xrayParams (value : Json) : List (String × Text) :=
  (((value.get "params").bind Json.asObject).map fun items =>
    OrderedMap.collect (items.filterMap fun item =>
      item.2.asStr.map fun text => (lowercaseKey item.1, text))).getD []

def param (params : List (String × Text)) (key : String) : Option Text :=
  OrderedMap.get params (lowercaseKey key)

/-- The transports by their names. -/
def transportNames : List (Text × Text) :=
  [("ws", "ws"), ("websocket", "ws"), ("tcp", "tcp"), ("raw", "tcp"), ("grpc", "grpc"),
    ("httpupgrade", "httpupgrade"), ("splithttp", "splithttp"), ("xhttp", "xhttp"),
    ("kcp", "kcp"), ("mkcp", "kcp"), ("quic", "quic")].map
      fun names => (names.1.toList, names.2.toList)

def securityNames : List Text := ["", "none", "tls", "reality"].map String.toList

/-- The transports that REALITY runs over. -/
def realityTransports : List Text := ["tcp", "grpc", "splithttp", "xhttp"].map String.toList

section Stream

variable (params : List (String × Text)) (server : Text)

/-- The first of the parameters that is given. -/
def firstParam (keys : List String) : Option Text := keys.findSome? (param params)

def nonemptyParam (keys : List String) : Option Text :=
  (firstParam params keys).filter fun value => !value.isEmpty

def tlsSettings : Json :=
  let field (name : String) (value : Option Json) : List (String × Json) :=
    (value.map fun json => (name, json)).toList
  Json.ofFields (
    [("serverName", .text ((param params "sni").getD server))] ++
    field "pinnedPeerCertSha256"
      ((nonemptyParam params ["pcs", "pinnedpeercertsha256"]).map .text) ++
    field "verifyPeerCertByName"
      ((nonemptyParam params ["vcn", "verifypeercertbyname"]).map .text) ++
    field "fingerprint" ((nonemptyParam params ["fp"]).map .text) ++
    field "alpn" ((nonemptyParam params ["alpn"]).map fun value =>
      .array ((((value.splitOn ',').map (trim isWhitespace)).filter (!·.isEmpty)).map .text)))

/-- The public key of REALITY. -/
def realityKey : Text := (firstParam params ["pbk", "password"]).getD []

def realitySettings : Json :=
  Json.ofFields [
    ("serverName", .text ((param params "sni").getD server)),
    ("fingerprint", .text ((param params "fp").getD "chrome".toList)),
    ("publicKey", .text (realityKey params)), ("shortId", .text ((param params "sid").getD [])),
    ("spiderX", .text ((param params "spx").getD []))]

/-- The settings of a transport. -/
def transportSettings (network : Text) : List (String × Json) :=
  let path := (param params "path").getD "/".toList
  let host := (param params "host").getD server
  let addressed := Json.ofFields [("path", .text path), ("host", .text host)]
  if network = "ws".toList then [("wsSettings", addressed)]
  else if network = "grpc".toList then
    [("grpcSettings", .ofFields [
      ("serviceName", .text ((param params "servicename").getD []))])]
  else if network = "httpupgrade".toList then [("httpupgradeSettings", addressed)]
  else if network = "splithttp".toList then [("splithttpSettings", addressed)]
  else if network = "xhttp".toList then [("xhttpSettings", addressed)]
  else if network = "kcp".toList then
    [("kcpSettings", .ofFields [("header", .ofFields [
      ("type", .text ((param params "headertype").getD "none".toList))])])]
  else []

def streamSettings (network security : Text) : Except String Json := do
  let network ← context (transportNames.lookup (toAsciiLowercase network))
    ("unsupported transport network " ++ String.ofList (toAsciiLowercase network))
  let security := toAsciiLowercase security
  ensure (decide (security ∈ securityNames))
    ("unsupported transport security " ++ String.ofList security)
  if security = "reality".toList then
    ensure (decide (network ∈ realityTransports))
      ("REALITY is incompatible with transport " ++ String.ofList network)
    ensure (!(realityKey params).isEmpty) "REALITY public key is required"
  let secured :=
    if security = "tls".toList then
      [("security", .string "tls"), ("tlsSettings", tlsSettings params server)]
    else if security = "reality".toList then
      [("security", .string "reality"), ("realitySettings", realitySettings params server)]
    else []
  .ok (Json.ofFields
    ([("network", .text network)] ++ secured ++ transportSettings params server network))

end Stream

section Outbounds

variable (lib : Libraries)

/-- An outbound without multiplexing, over a transport. -/
def streamedOutbound (protocol : String) (settings stream : Json) : Json :=
  Json.ofFields [("tag", .string "proxy"), ("protocol", .string protocol), ("settings", settings),
    ("streamSettings", stream), ("mux", .ofFields [("enabled", .bool false)])]

/-- The settings of a protocol with users on one server. -/
def vnextSettings (proxy : ParsedProxy) (user : List (String × Json)) : Json :=
  Json.ofFields [("vnext", .array [.ofFields [
    ("address", .string proxy.address), ("port", .number (.posInt proxy.port)),
    ("users", .array [.ofFields user])]])]

/-- The settings of a protocol with one server. -/
def serverSettings (proxy : ParsedProxy) (fields : List (String × Json)) : Json :=
  Json.ofFields [("servers", .array [.ofFields (
    [("address", .string proxy.address), ("port", .number (.posInt proxy.port))] ++ fields)])]

def xrayVless (proxy : ParsedProxy) : Except String Json := do
  let user := valueString proxy.normalizedConfig "user"
  validateUserId lib user
  let params := xrayParams proxy.normalizedConfig
  let network := (param params "type").getD "tcp".toList
  let security := (param params "security").getD "none".toList
  let stream ← streamSettings params proxy.address.toList network security
  .ok (streamedOutbound "vless"
    (vnextSettings proxy [
      ("id", .text user),
      ("encryption", .text ((param params "encryption").getD "none".toList)),
      ("flow", .text ((param params "flow").getD [])), ("level", .number (.posInt 0))]) stream)

def xrayTrojan (proxy : ParsedProxy) : Except String Json := do
  let password := valueString proxy.normalizedConfig "user"
  ensure (!password.isEmpty) "trojan password is empty"
  let params := xrayParams proxy.normalizedConfig
  let network := (param params "type").getD "tcp".toList
  let security := (param params "security").getD "tls".toList
  let stream ← streamSettings params proxy.address.toList network security
  .ok (streamedOutbound "trojan"
    (serverSettings proxy [("password", .text password), ("level", .number (.posInt 0))]) stream)

def xrayShadowsocks (proxy : ParsedProxy) : Json :=
  Json.ofFields [("tag", .string "proxy"), ("protocol", .string "shadowsocks"),
    ("settings", serverSettings proxy [
      ("method", .text (valueString proxy.normalizedConfig "method")),
      ("password", .text (valueString proxy.normalizedConfig "password")),
      ("level", .number (.posInt 0))])]

def xraySocks (proxy : ParsedProxy) : Json :=
  let user := valueString proxy.normalizedConfig "user"
  let password := valueString proxy.normalizedConfig "password"
  let users :=
    if user.isEmpty ∧ password.isEmpty then []
    else [Json.ofFields [("user", .text user), ("pass", .text password)]]
  Json.ofFields [("tag", .string "proxy"), ("protocol", .string "socks"),
    ("settings", serverSettings proxy [("users", .array users)])]

/-- The fields of a VMess document that decide the transport. -/
def vmessStreamKeys : List String :=
  ["sni", "host", "path", "serviceName", "fp", "alpn", "pcs", "vcn", "pbk", "sid", "spx",
    "headerType"]

def vmessParams (payload : List (String × Json)) : List (String × Text) :=
  OrderedMap.collect (vmessStreamKeys.filterMap fun key =>
    ((OrderedMap.get payload key).bind Json.asStr).map fun value => (lowercaseKey key, value))

def xrayVmess (proxy : ParsedProxy) : Except String Json := do
  let payload ← context ((proxy.normalizedConfig.get "payload").bind Json.asObject)
    "invalid vmess normalized config"
  let field (key : String) : Option Text := (OrderedMap.get payload key).bind Json.asStr
  let id := (field "id").getD []
  validateUserId lib id
  let network := (field "net").getD "tcp".toList
  let security := (field "tls").getD "none".toList
  let alterId := ((OrderedMap.get payload "aid").bind numberOrStringU16).getD 0
  let cipher := (field "scy").getD "auto".toList
  let stream ← streamSettings (vmessParams payload) proxy.address.toList network security
  .ok (streamedOutbound "vmess"
    (vnextSettings proxy [
      ("id", .text id), ("alterId", .number (.posInt alterId)), ("security", .text cipher),
      ("level", .number (.posInt 0))]) stream)

def xrayOutbound (proxy : ParsedProxy) : Except String Json :=
  if proxy.protocol = "vless" then xrayVless lib proxy
  else if proxy.protocol = "trojan" then xrayTrojan proxy
  else if proxy.protocol = "ss" then .ok (xrayShadowsocks proxy)
  else if proxy.protocol = "socks" ∨ proxy.protocol = "socks5" then .ok (xraySocks proxy)
  else if proxy.protocol = "vmess" then xrayVmess lib proxy
  else .error ("unsupported protocol " ++ proxy.protocol)

end Outbounds

end ProxyFleet
