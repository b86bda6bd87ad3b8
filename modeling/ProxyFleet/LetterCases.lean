import ProxyFleet.RelabelledShares
import Mathlib.Data.List.Forall2

/-!
# Letter case of tokens

Two share URLs that differ in the letter case of their host names and tokens have one
identity exactly when the tokens of a document are the same, and the last parameter `tls` of
a query: the other tokens of a query and the host names are put in lower case.
-/
namespace ProxyFleet

open TextLines

section LowerCase

theorem trim_map {α β : Type} {p : α → Bool} {q : β → Bool} {f : α → β}
    (h : ∀ a, q (f a) = p a) (l : List α) : trim q (l.map f) = (trim p l).map f := by
  have hcomp : q ∘ f = p := funext h
  rw [trim, trim, List.dropWhile_map, hcomp, List.rdropWhile, List.rdropWhile, ← List.map_reverse,
    List.dropWhile_map, hcomp, List.map_reverse]

theorem isWhitespace_toLower (c : Char) : isWhitespace c.toLower = isWhitespace c := by
  rcases toLower_cases c with h | ⟨hlow, hhigh, hc⟩
  · rw [h]
  · rw [Bool.eq_iff_iff, isWhitespace, isWhitespace, hc]
    simp only [Bool.or_eq_true, Bool.and_eq_true, decide_eq_true_eq]
    omega

theorem bracket_toLower (c : Char) :
    (c.toLower = '[' || c.toLower = ']') = (c = '[' || c = ']') := by
  rcases toLower_cases c with h | ⟨hlow, hhigh, hc⟩
  · rw [h]
  · have hnat : '['.toNat = 0x5B ∧ ']'.toNat = 0x5D := ⟨rfl, rfl⟩
    rw [Bool.eq_iff_iff]
    simp only [← Char.toNat_inj, hc, hnat.1, hnat.2, Bool.or_eq_true, decide_eq_true_eq]
    omega

/-- Lower case decides what a reader of hosts gives. -/
theorem toAsciiLowercase_trim {p : Char → Bool} (h : ∀ c, p c.toLower = p c) {t u : Text}
    (hcase : toAsciiLowercase t = toAsciiLowercase u) :
    toAsciiLowercase (trim p t) = toAsciiLowercase (trim p u) := by
  rw [toAsciiLowercase, toAsciiLowercase, ← trim_map h, ← trim_map h]
  exact congrArg (trim p) hcase

end LowerCase

section Tokens

/-- Names of parameters whose values are tokens, in lower case. -/
def tokenKeys : List Text := "tls".toList :: caselessKeys

/-- Fields of a document whose values are tokens. -/
def tokenFields : List String :=
  ["sni", "host", "security", "tls", "type", "net", "fp", "flow", "headerType"]

/-- Two parameters that differ in the letter case of a token. -/
def SameParameter (pair₁ pair₂ : Text × Text) : Prop :=
  pair₁.1 = pair₂.1 ∧ (pair₁.2 = pair₂.2 ∨
    toAsciiLowercase pair₁.1 ∈ tokenKeys ∧ toAsciiLowercase pair₁.2 = toAsciiLowercase pair₂.2)

/-- Two values of a field that differ in the letter case of a token or of the host name. -/
def SameField (key : String) (value₁ value₂ : Option Json) : Prop :=
  value₁ = value₂ ∨ key ∈ "add" :: tokenFields ∧
    ∃ t₁ t₂, value₁ = some (.text t₁) ∧ value₂ = some (.text t₂) ∧
      toAsciiLowercase t₁ = toAsciiLowercase t₂

/-- Two URLs that differ in the letter case of host name and tokens. -/
structure CaseVariantUrl (lib : Libraries) (url₁ url₂ : Url) : Prop
    extends SameParts url₁ url₂ where
  host : url₁.hostStr.map toAsciiLowercase = url₂.hostStr.map toAsciiLowercase
  params : List.Forall₂ SameParameter (queryPairs lib url₁) (queryPairs lib url₂)

/-- Two readings that differ in the letter case of host names and tokens. -/
inductive CaseVariant (lib : Libraries) : ShareReading → ShareReading → Prop where
  | url {url₁ url₂ : Url} (h : CaseVariantUrl lib url₁ url₂) :
      CaseVariant lib (.url url₁) (.url url₂)
  | vmess {payload₁ payload₂ : List (String × Json)}
      (h : ∀ key, SameField key (OrderedMap.get payload₁ key) (OrderedMap.get payload₂ key)) :
      CaseVariant lib (.vmess payload₁) (.vmess payload₂)
  | shadowsocks {credential : Text} {url₁ url₂ : Url} (h : CaseVariantUrl lib url₁ url₂) :
      CaseVariant lib (.shadowsocks credential url₁) (.shadowsocks credential url₂)

/-- The tokens whose letter case distinguishes identities are the same. -/
def TokensKept (lib : Libraries) : ShareReading → ShareReading → Prop
  | .url url₁, .url url₂ =>
    lastValue "tls".toList (queryPairs lib url₁) = lastValue "tls".toList (queryPairs lib url₂)
  | .vmess payload₁, .vmess payload₂ =>
    ∀ key ∈ tokenFields, OrderedMap.get payload₁ key = OrderedMap.get payload₂ key
  | .shadowsocks _ url₁, .shadowsocks _ url₂ =>
    lastValue "tls".toList (queryPairs lib url₁) = lastValue "tls".toList (queryPairs lib url₂)
  | _, _ => False

variable {lib : Libraries} {url₁ url₂ : Url} {pairs₁ pairs₂ : List (Text × Text)} {name : Text}

theorem lastValue_cons (pair : Text × Text) (pairs : List (Text × Text)) :
    lastValue name (pair :: pairs) =
      (lastValue name pairs).or (if toAsciiLowercase pair.1 = name then some pair.2 else none) := by
  rw [← List.singleton_append, lastValue_append, lastValue_singleton]

/-- Under every name the last values agree, or are one token in two letter cases. -/
theorem lastValue_of_sameParameter (name : Text) (h : List.Forall₂ SameParameter pairs₁ pairs₂) :
    lastValue name pairs₁ = lastValue name pairs₂ ∨ name ∈ tokenKeys ∧
      ∃ v w, lastValue name pairs₁ = some v ∧ lastValue name pairs₂ = some w ∧
        toAsciiLowercase v = toAsciiLowercase w := by
  induction h with
  | nil => exact .inl rfl
  | @cons pair₁ pair₂ pairs₁ pairs₂ hpair _ ih =>
    rw [lastValue_cons, lastValue_cons]
    rcases ih with ih | ⟨htoken, v, w, hv, hw, hcase⟩
    · rw [ih]
      cases lastValue name pairs₂ with
      | some w => exact .inl rfl
      | none =>
        rw [Option.none_or, Option.none_or, ← hpair.1]
        by_cases hname : toAsciiLowercase pair₁.1 = name
        · rw [if_pos hname, if_pos hname]
          rcases hpair.2 with hvalue | ⟨htoken, hcase⟩
          · exact .inl (congrArg some hvalue)
          · exact .inr ⟨hname ▸ htoken, _, _, rfl, rfl, hcase⟩
        · rw [if_neg hname, if_neg hname]
          exact .inl rfl
    · rw [hv, hw]
      exact .inr ⟨htoken, v, w, rfl, rfl, hcase⟩

/-- The queries of case variants agree exactly when their last `tls` does. -/
theorem CaseVariantUrl.canonicalQuery_eq_iff (h : CaseVariantUrl lib url₁ url₂) :
    canonicalQuery lib url₁ = canonicalQuery lib url₂ ↔
      lastValue "tls".toList (queryPairs lib url₁) =
        lastValue "tls".toList (queryPairs lib url₂) := by
  rw [canonicalQuery_eq, canonicalQuery_eq, collect_canonicalPair_eq_iff]
  constructor
  · intro hall
    have htls := hall "tls".toList (by decide)
    have hid : canonicalValue "tls".toList = id := by
      funext value
      exact if_neg (by decide)
    rwa [hid, Option.map_id, id, id] at htls
  · intro htls name _
    rcases lastValue_of_sameParameter name h.params with
      hsame | ⟨htoken, v, w, hv, hw, hcase⟩
    · rw [hsame]
    · rcases List.mem_cons.mp htoken with rfl | hcaseless
      · rw [htls]
      · rw [hv, hw, Option.map_some, Option.map_some, canonicalValue, if_pos hcaseless,
          canonicalValue, if_pos hcaseless, hcase]

theorem CaseVariantUrl.address (h : CaseVariantUrl lib url₁ url₂) :
    urlAddress url₁ = urlAddress url₂ := by
  have hhost : toAsciiLowercase (url₁.hostStr.getD []) =
      toAsciiLowercase (url₂.hostStr.getD []) := by
    have hgetD := congrArg (Option.getD · (toAsciiLowercase [])) h.host
    rwa [Option.getD_map, Option.getD_map] at hgetD
  exact toAsciiLowercase_trim bracket_toLower hhost

end Tokens

section Identities

variable {lib : Libraries} {r₁ r₂ : ShareReading} {payload₁ payload₂ : List (String × Json)}

/-- Documents are read into maps that are ordered by their keys. -/
def Libraries.OrderedDocuments (lib : Libraries) : Prop :=
  ∀ bytes payload, lib.parseJsonMap bytes = some payload → OrderedMap.Sorted payload

theorem shadowsocksConfig_inj {url₁ url₂ : Url} {port : ℕ} {method password : Text}
    (h : shadowsocksConfig lib url₁ port method password =
      shadowsocksConfig lib url₂ port method password) :
    canonicalQuery lib url₁ = canonicalQuery lib url₂ :=
  Json.members_eq_of_get "params" h rfl rfl

theorem sorted_of_reads (documents : lib.OrderedDocuments) {raw : Text}
    {payload : List (String × Json)} (h : Reads lib raw (.vmess payload)) :
    OrderedMap.Sorted payload := by
  cases h with
  | vmess _ parsed =>
    rw [vmessPayload] at parsed
    simp only [Option.bind_eq_bind, Option.bind_eq_some_iff] at parsed
    obtain ⟨encoded, -, bytes, -, hpayload⟩ := parsed
    exact documents bytes payload hpayload

/-- The addresses of documents that differ in letter case alone. -/
theorem vmessAddress_of_sameField
    (h : SameField "add" (OrderedMap.get payload₁ "add") (OrderedMap.get payload₂ "add")) :
    vmessAddress payload₁ = vmessAddress payload₂ := by
  apply toAsciiLowercase_trim isWhitespace_toLower
  rw [textField, textField]
  rcases h with h | ⟨-, t₁, t₂, h₁, h₂, hcase⟩
  · rw [h]
  · simpa [h₁, h₂] using hcase

/-- The configurations of documents that differ in letter case agree exactly when all tokens
are the same. -/
theorem vmessConfig_eq_iff_tokens (sorted₁ : OrderedMap.Sorted payload₁)
    (sorted₂ : OrderedMap.Sorted payload₂)
    (h : ∀ key, SameField key (OrderedMap.get payload₁ key) (OrderedMap.get payload₂ key))
    (port : ℕ) :
    vmessConfig payload₁ port = vmessConfig payload₂ port ↔
      ∀ key ∈ tokenFields, OrderedMap.get payload₁ key = OrderedMap.get payload₂ key := by
  have htokens : ∀ key ∈ tokenFields, key ∉ "port" :: "add" :: vmessLabels := by decide
  rw [vmessConfig_eq_iff sorted₁ sorted₂]
  constructor
  · rintro ⟨-, hfields⟩ key hkey
    exact hfields key (htokens key hkey)
  · intro hall
    refine ⟨vmessAddress_of_sameField (h "add"), fun key hkey => ?_⟩
    rcases h key with hsame | ⟨hmem, -⟩
    · exact hsame
    · rcases List.mem_cons.mp hmem with rfl | htoken
      · exact absurd (List.mem_cons_of_mem _ List.mem_cons_self) hkey
      · exact hall key htoken

/-- The identities of two readings agree exactly when the tokens are kept that matter. -/
theorem CaseVariant.identity_eq_iff (h : CaseVariant lib r₁ r₂)
    (sorted₁ : ∀ payload, r₁ = .vmess payload → OrderedMap.Sorted payload)
    (sorted₂ : ∀ payload, r₂ = .vmess payload → OrderedMap.Sorted payload) {config₁ config₂ : Json}
    (h₁ : r₁.identity lib = some config₁) (h₂ : r₂.identity lib = some config₂) :
    config₁ = config₂ ↔ TokensKept lib r₁ r₂ := by
  cases h with
  | url h =>
    rw [ShareReading.identity, Option.map_eq_some_iff] at h₁ h₂
    obtain ⟨port, hport, rfl⟩ := h₁
    obtain ⟨other, hother, rfl⟩ := h₂
    obtain rfl := Option.some.inj (hport.symm.trans (h.port.trans hother))
    rw [TokensKept, ← h.canonicalQuery_eq_iff]
    exact ⟨urlConfig_inj, fun hquery => h.toSameParts.urlConfig_eq h.address hquery port⟩
  | @vmess payload₁ payload₂ h =>
    have hsame : OrderedMap.get payload₁ "port" = OrderedMap.get payload₂ "port" :=
      (h "port").resolve_right fun hbad => absurd hbad.1 (by decide)
    rw [ShareReading.identity, Option.map_eq_some_iff] at h₁ h₂
    obtain ⟨port, hport, rfl⟩ := h₁
    obtain ⟨other, hother, rfl⟩ := h₂
    rw [hsame] at hport
    obtain rfl := Option.some.inj (hport.symm.trans hother)
    rw [TokensKept, ← vmessConfig_eq_iff_tokens (sorted₁ _ rfl) (sorted₂ _ rfl) h port]
    constructor
    · intro hconfig
      have hget := congrArg (Json.get · "payload") hconfig
      exact Json.object.inj (Option.some.inj hget)
    · intro hconfig
      rw [hconfig]
  | shadowsocks h =>
    rw [ShareReading.identity, Option.bind_eq_some_iff] at h₁ h₂
    obtain ⟨port, hport, h₁⟩ := h₁
    obtain ⟨other, hother, h₂⟩ := h₂
    obtain rfl := Option.some.inj (hport.symm.trans (h.port.trans hother))
    rw [Option.map_eq_some_iff] at h₁ h₂
    obtain ⟨parts, hparts, rfl⟩ := h₁
    obtain ⟨parts', hparts', rfl⟩ := h₂
    obtain rfl := Option.some.inj (hparts.symm.trans hparts')
    rw [TokensKept, ← h.canonicalQuery_eq_iff]
    exact ⟨shadowsocksConfig_inj, fun hquery =>
      shadowsocksConfig_eq h.address hquery port parts.1 parts.2⟩

/-- Share URLs that differ in the letter case of host names and tokens have one identity
exactly when the tokens are kept that matter. -/
theorem case_variants_agree_iff (documents : lib.OrderedDocuments) (source : String)
    (raw₁ raw₂ : Text) (proxy₁ proxy₂ : ParsedProxy)
    (h₁ : Reads lib (trim isWhitespace raw₁) r₁) (h₂ : Reads lib (trim isWhitespace raw₂) r₂)
    (h : CaseVariant lib r₁ r₂) (accepted₁ : parseShareUrl lib raw₁ source = .ok proxy₁)
    (accepted₂ : parseShareUrl lib raw₂ source = .ok proxy₂) :
    (TokensKept lib r₁ r₂ → proxy₁.configHash = proxy₂.configHash) ∧
      (lib.Separates proxy₁.normalizedConfig proxy₂.normalizedConfig →
        proxy₁.configHash = proxy₂.configHash → TokensKept lib r₁ r₂) := by
  have hconfig := h.identity_eq_iff
    (fun payload hr => sorted_of_reads documents (hr ▸ h₁))
    (fun payload hr => sorted_of_reads documents (hr ▸ h₂))
    (h₁.identity accepted₁) (h₂.identity accepted₂)
  rw [← hconfig, configHash_eq accepted₁, configHash_eq accepted₂]
  exact ⟨fun he => by rw [he], fun separates => separates⟩

end Identities

section Sample

/-- A document with a network. -/
def networkDocument (address network : String) : List (String × Json) :=
  [("add", .string address), ("id", .string "user"), ("net", .string network),
    ("port", .number (.posInt 443))]

def networkConfig (network : String) : Json :=
  .object [("payload", .object (networkDocument "host.example" network)),
    ("protocol", .string "vmess")]

def lowerNetwork : String := "ea5d940027ffa99d371adcc8e706af5cec8723ed80306d43db54b9865315ff1e"

def upperNetwork : String := "088482e224399e5e96a558530085ce91c62130d2d4c0e7ccf98223c4f85d037d"

def sampleDocuments : List (Text × List (String × Json)) :=
  [networkDocument "host.example" "ws", networkDocument "host.example" "WS",
    networkDocument "HOST.example" "ws"].map fun document =>
      (writeJson (.object document), document)

def networkLibraries : Libraries :=
  readerLibraries sampleDocuments [(writeJson (networkConfig "ws"), lowerNetwork),
    (writeJson (networkConfig "WS"), upperNetwork)]

/-- A URL of VMess with a document. -/
def documentUrl (document : List (String × Json)) : Text :=
  shareUrl "vmess".toList (standardEncoder.encode (utf8Encode (writeJson (.object document))))

theorem networkLibraries_documents : networkLibraries.OrderedDocuments := by
  intro bytes payload h
  obtain ⟨text, -, hlookup⟩ := Option.bind_eq_some_iff.mp h
  obtain ⟨front, behind, hsplit, -⟩ := List.lookup_eq_some_iff.mp hlookup
  have hmem : (text, payload) ∈ sampleDocuments := by simp [hsplit]
  obtain ⟨document, hdocument, he⟩ := List.mem_map.mp hmem
  obtain ⟨-, rfl⟩ := Prod.mk.inj he
  have hall : ∀ document ∈ [networkDocument "host.example" "ws",
      networkDocument "host.example" "WS", networkDocument "HOST.example" "ws"],
      OrderedMap.Sorted document := by
    unfold OrderedMap.Sorted
    decide +kernel
  exact hall document hdocument

theorem sameField_network {address₁ address₂ network₁ network₂ : String}
    (haddress : toAsciiLowercase address₁.toList = toAsciiLowercase address₂.toList)
    (hnetwork : toAsciiLowercase network₁.toList = toAsciiLowercase network₂.toList)
    (key : String) :
    SameField key (OrderedMap.get (networkDocument address₁ network₁) key)
      (OrderedMap.get (networkDocument address₂ network₂) key) := by
  have htext : ∀ value : String, Json.string value = .text value.toList := fun value => by
    rw [Json.text, String.ofList_toList]
  by_cases hadd : key = "add"
  · subst hadd
    exact .inr ⟨by decide, _, _, congrArg some (htext address₁), congrArg some (htext address₂),
      haddress⟩
  · by_cases hnet : key = "net"
    · subst hnet
      exact .inr ⟨by decide, _, _, congrArg some (htext network₁), congrArg some (htext network₂),
        hnetwork⟩
    · left
      simp [networkDocument, OrderedMap.get, List.lookup_cons, beq_false_of_ne hadd,
        beq_false_of_ne hnet]

/-- A document of the table is read in its URL. -/
theorem reads_documentUrl {document : List (String × Json)}
    (htrim : trim isWhitespace (documentUrl document) = documentUrl document)
    (hlookup : sampleDocuments.lookup (writeJson (.object document)) = some document) :
    Reads networkLibraries (trim isWhitespace (documentUrl document)) (.vmess document) := by
  have hencoded : '#' ∉ standardEncoder.encode (utf8Encode (writeJson (.object document))) :=
    fun hm => not_reserved (standardEncoder.mem_encode hm) (by simp)
  have hpayload : vmessPayload networkLibraries (documentUrl document ++ []) =
      (decodeB64 (standardEncoder.encode (utf8Encode (writeJson (.object document))))).bind
        networkLibraries.parseJsonMap := vmessPayload_append hencoded (by simp)
  rw [List.append_nil, standardEncoder.decodes, Option.bind_some] at hpayload
  rw [htrim]
  refine .vmess (List.prefix_append _ _) (hpayload.trans ?_)
  show (utf8Decode (utf8Encode (writeJson (.object document)))).bind _ = _
  rw [utf8Decode_encode, Option.bind_some, hlookup]

def lowerUrl : Text := documentUrl (networkDocument "host.example" "ws")

def upperUrl : Text := documentUrl (networkDocument "host.example" "WS")

def capitalUrl : Text := documentUrl (networkDocument "HOST.example" "ws")

theorem lowerUrl_accepted : (parseShareUrl networkLibraries lowerUrl "feed").map (·.configHash) =
    .ok lowerNetwork := map_readerLibraries (by decide +kernel)

theorem upperUrl_accepted : (parseShareUrl networkLibraries upperUrl "feed").map (·.configHash) =
    .ok upperNetwork := map_readerLibraries (by decide +kernel)

theorem case_variants_agree_iff_network :
    ∃ proxy₁ proxy₂,
      parseShareUrl networkLibraries lowerUrl "feed" = .ok proxy₁ ∧
      parseShareUrl networkLibraries capitalUrl "feed" = .ok proxy₂ ∧
      proxy₁.configHash = lowerNetwork ∧ proxy₁.configHash = proxy₂.configHash := by
  have hparsed₂ : (parseShareUrl networkLibraries capitalUrl "feed").map (·.configHash) =
      .ok lowerNetwork := map_readerLibraries (by decide +kernel)
  obtain ⟨proxy₁, h₁, hhash₁⟩ := map_eq_ok.mp lowerUrl_accepted
  obtain ⟨proxy₂, h₂, -⟩ := map_eq_ok.mp hparsed₂
  have hread₁ : Reads networkLibraries (trim isWhitespace lowerUrl)
      (.vmess (networkDocument "host.example" "ws")) :=
    reads_documentUrl (by decide +kernel) (by rfl)
  have hread₂ : Reads networkLibraries (trim isWhitespace capitalUrl)
      (.vmess (networkDocument "HOST.example" "ws")) :=
    reads_documentUrl (by decide +kernel) (by rfl)
  have hcapital : CaseVariant networkLibraries (.vmess (networkDocument "host.example" "ws"))
      (.vmess (networkDocument "HOST.example" "ws")) := .vmess (sameField_network (by decide) rfl)
  have hkept : TokensKept networkLibraries (.vmess (networkDocument "host.example" "ws"))
      (.vmess (networkDocument "HOST.example" "ws")) := by
    intro key hkey
    have hadd : key ≠ "add" := by
      rintro rfl
      exact absurd hkey (by decide)
    simp [networkDocument, OrderedMap.get, List.lookup_cons, beq_false_of_ne hadd]
  obtain ⟨hsame, -⟩ := case_variants_agree_iff networkLibraries_documents "feed" lowerUrl
    capitalUrl proxy₁ proxy₂ hread₁ hread₂ hcapital h₁ h₂
  exact ⟨proxy₁, proxy₂, h₁, h₂, hhash₁, hsame hkept⟩

/-- A network in capitals makes another identity. -/
theorem capital_network_is_kept :
    writeJson (.object (networkDocument "host.example" "ws")) =
      "\x7b\"add\":\"host.example\",\"id\":\"user\",\"net\":\"ws\",\"port\":443\x7d".toList ∧
    writeJson (.object (networkDocument "host.example" "WS")) =
      "\x7b\"add\":\"host.example\",\"id\":\"user\",\"net\":\"WS\",\"port\":443\x7d".toList ∧
    (parseShareUrl networkLibraries (documentUrl (networkDocument "host.example" "ws"))
      "feed").map (·.configHash) = .ok lowerNetwork ∧
    (parseShareUrl networkLibraries (documentUrl (networkDocument "host.example" "WS"))
      "feed").map (·.configHash) = .ok upperNetwork ∧
    lowerNetwork ≠ upperNetwork := by
  exact ⟨by decide +kernel, by decide +kernel, lowerUrl_accepted, upperUrl_accepted, by decide⟩

end Sample

end ProxyFleet
