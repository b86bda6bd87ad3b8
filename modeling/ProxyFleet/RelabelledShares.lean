import ProxyFleet.QueryParameters
import ProxyFleet.ShareReadings

/-!
# Labels and the order of parameters

A label of a share URL is a fragment, a parameter or a field of its document. URLs that
differ in their labels alone have one identity, and so have URLs whose parameters or fields
are permuted, if no two of them are called alike.
-/
namespace ProxyFleet

open TextLines

section Entries

/-- The same entries, or a permutation of entries that are called differently. -/
def SameEntries {α β : Type} (name : α → β) (entries₁ entries₂ : List α) : Prop :=
  entries₁ = entries₂ ∨ entries₁.Perm entries₂ ∧ (entries₁.map name).Nodup

/-- The parameters that are no labels. -/
def unlabelled (pairs : List (Text × Text)) : List (Text × Text) :=
  pairs.filter fun pair => toAsciiLowercase pair.1 ∉ remarkKeys

/-- The fields of a document that are no labels. -/
def unlabelledFields (fields : List (String × Json)) : List (String × Json) :=
  fields.filter fun field => field.1 ∉ vmessLabels

/-- What the canonical query keeps of a parameter that is no label. -/
def keptPair (pair : Text × Text) : String × Json :=
  (String.ofList (toAsciiLowercase pair.1),
    .text (canonicalValue (toAsciiLowercase pair.1) pair.2))

variable {pairs pairs₁ pairs₂ : List (Text × Text)}

theorem filterMap_canonicalPair :
    pairs.filterMap canonicalPair = (unlabelled pairs).map keptPair := by
  induction pairs with
  | nil => rfl
  | cons pair pairs ih =>
    rw [unlabelled, List.filter_cons]
    by_cases h : toAsciiLowercase pair.1 ∈ remarkKeys
    · rw [List.filterMap_cons_none (by rw [canonicalPair, if_pos h]), if_neg (by simp [h])]
      exact ih
    · rw [List.filterMap_cons_some (by rw [canonicalPair, if_neg h]), if_pos (by simp [h]), ih]
      rfl

theorem collect_unlabelled
    (h : SameEntries (fun pair => toAsciiLowercase pair.1) (unlabelled pairs₁)
      (unlabelled pairs₂)) :
    OrderedMap.collect (pairs₁.filterMap canonicalPair) =
      OrderedMap.collect (pairs₂.filterMap canonicalPair) := by
  rw [filterMap_canonicalPair, filterMap_canonicalPair]
  rcases h with h | ⟨hperm, hdistinct⟩
  · rw [h]
  · apply OrderedMap.collect_perm (hperm.map keptPair)
    rw [List.map_map]
    have hnames : (unlabelled pairs₁).map (Prod.fst ∘ keptPair) =
        ((unlabelled pairs₁).map fun pair => toAsciiLowercase pair.1).map String.ofList := by
      rw [List.map_map]
      rfl
    rw [hnames]
    exact hdistinct.map fun _ _ he => String.ofList_injective he

variable {fields₁ fields₂ : List (String × Json)} {key : String}

theorem get_unlabelledFields (fields : List (String × Json)) (h : key ∉ vmessLabels) :
    OrderedMap.get (OrderedMap.collect (unlabelledFields fields)) key =
      OrderedMap.get (OrderedMap.collect fields) key := by
  rw [OrderedMap.get_collect, OrderedMap.get_collect, unlabelledFields, ← List.filter_reverse]
  exact OrderedMap.lookup_filter (fun name => decide (name ∉ vmessLabels)) (decide_eq_true h)

/-- The fields that are no labels are found in both documents. -/
theorem get_collect_of_sameEntries
    (h : SameEntries Prod.fst (unlabelledFields fields₁) (unlabelledFields fields₂))
    (hkey : key ∉ vmessLabels) :
    OrderedMap.get (OrderedMap.collect fields₁) key =
      OrderedMap.get (OrderedMap.collect fields₂) key := by
  rw [← get_unlabelledFields fields₁ hkey, ← get_unlabelledFields fields₂ hkey]
  rcases h with h | ⟨hperm, hdistinct⟩
  · rw [h]
  · rw [OrderedMap.collect_perm hperm hdistinct]

end Entries

section Labels

variable {lib : Libraries}

/-- Two URLs that differ in their labels and in the order of their parameters. -/
structure RelabelledUrl (lib : Libraries) (url₁ url₂ : Url) : Prop
    extends SameParts url₁ url₂ where
  host : url₁.hostStr = url₂.hostStr
  params : SameEntries (fun pair => toAsciiLowercase pair.1) (unlabelled (queryPairs lib url₁))
    (unlabelled (queryPairs lib url₂))

/-- Two readings that differ in labels and in the order of parameters or fields. -/
inductive RelabelledReading (lib : Libraries) : ShareReading → ShareReading → Prop where
  | url {url₁ url₂ : Url} (h : RelabelledUrl lib url₁ url₂) :
      RelabelledReading lib (.url url₁) (.url url₂)
  | vmess {fields₁ fields₂ : List (String × Json)}
      (h : SameEntries Prod.fst (unlabelledFields fields₁) (unlabelledFields fields₂)) :
      RelabelledReading lib (.vmess (OrderedMap.collect fields₁))
        (.vmess (OrderedMap.collect fields₂))
  | shadowsocks {credential : Text} {url₁ url₂ : Url} (h : RelabelledUrl lib url₁ url₂) :
      RelabelledReading lib (.shadowsocks credential url₁) (.shadowsocks credential url₂)

/-- Two texts that differ in labels and in the order of parameters or fields. -/
inductive Relabelled (lib : Libraries) (raw₁ raw₂ : Text) : Prop where
  /-- Labels and order within what is read. -/
  | reading {r₁ r₂ : ShareReading} (h₁ : Reads lib raw₁ r₁) (h₂ : Reads lib raw₂ r₂)
      (h : RelabelledReading lib r₁ r₂)
  /-- Query and fragment behind the body of a URL of Shadowsocks. -/
  | shadowsocks {body : Text} (tail₁ tail₂ : UrlTail) (hbody : ∀ c ∈ body, c ∉ ['?', '#'])
      (h₁ : raw₁ = shareUrl "ss".toList (body ++ tail₁.text))
      (h₂ : raw₂ = shareUrl "ss".toList (body ++ tail₂.text))
  /-- The fragment behind the document of a URL of VMess. -/
  | vmess {encoded label₁ label₂ : Text} (hencoded : '#' ∉ encoded)
      (hlabel₁ : ∀ c ∈ label₁.head?, c = '#') (hlabel₂ : ∀ c ∈ label₂.head?, c = '#')
      (h₁ : raw₁ = shareUrl "vmess".toList (encoded ++ label₁))
      (h₂ : raw₂ = shareUrl "vmess".toList (encoded ++ label₂))

theorem RelabelledUrl.address {url₁ url₂ : Url} (h : RelabelledUrl lib url₁ url₂) :
    urlAddress url₁ = urlAddress url₂ := by
  rw [urlAddress, urlAddress, h.host]

theorem RelabelledUrl.canonicalQuery {url₁ url₂ : Url} (h : RelabelledUrl lib url₁ url₂) :
    ProxyFleet.canonicalQuery lib url₁ = ProxyFleet.canonicalQuery lib url₂ := by
  rw [canonicalQuery_eq, canonicalQuery_eq]
  exact collect_unlabelled h.params

/-- The identity of a reading does not depend on labels and order. -/
theorem RelabelledReading.identity {r₁ r₂ : ShareReading} (h : RelabelledReading lib r₁ r₂) :
    r₁.identity lib = r₂.identity lib := by
  cases h with
  | url h =>
    rw [ShareReading.identity, ShareReading.identity, h.port]
    congr 1
    funext port
    exact h.toSameParts.urlConfig_eq h.address h.canonicalQuery port
  | @vmess fields₁ fields₂ h =>
    have hget : ∀ key, key ∉ vmessLabels → OrderedMap.get (OrderedMap.collect fields₁) key =
        OrderedMap.get (OrderedMap.collect fields₂) key := fun key hkey =>
      get_collect_of_sameEntries h hkey
    have haddress : vmessAddress (OrderedMap.collect fields₁) =
        vmessAddress (OrderedMap.collect fields₂) := by
      rw [vmessAddress, vmessAddress, textField, textField, hget "add" (by decide)]
    rw [ShareReading.identity, ShareReading.identity, hget "port" (by decide)]
    congr 1
    funext port
    have hconfig : vmessConfig (OrderedMap.collect fields₁) port =
        vmessConfig (OrderedMap.collect fields₂) port :=
      (vmessConfig_eq_iff OrderedMap.sorted_collect OrderedMap.sorted_collect).mpr
        ⟨haddress, fun key hkey => hget key fun hlabel =>
          hkey (List.mem_cons_of_mem _ (List.mem_cons_of_mem _ hlabel))⟩
    rw [hconfig]
  | shadowsocks h =>
    rw [ShareReading.identity, ShareReading.identity, h.port]
    congr 1
    funext port
    congr 1
    funext parts
    exact shadowsocksConfig_eq h.address h.canonicalQuery port parts.1 parts.2

end Labels

section Identities

variable {lib : Libraries} {r : ShareReading}

/-- What is read of a URL of Shadowsocks is in front of query and fragment. -/
theorem Reads.shadowsocks_tail {body : Text} (hbody : ∀ c ∈ body, c ∉ ['?', '#'])
    {tail₁ : UrlTail} (tail₂ : UrlTail)
    (h : Reads lib (shareUrl "ss".toList (body ++ tail₁.text)) r) :
    Reads lib (shareUrl "ss".toList (body ++ tail₂.text)) r := by
  have hscheme : ∀ t : Text, shareUrl "ss".toList t = "ss://".toList ++ t := fun _ => rfl
  cases h with
  | url hvmess hss => exact absurd (List.prefix_append _ _) hss
  | vmess hvmess => exact absurd hvmess (not_vmess_of_shadowsocks _)
  | shadowsocks hraw htext split decodes parsed =>
    obtain rfl := List.append_cancel_left ((hscheme _).symm.trans hraw)
    rw [shadowsocksBody_append hbody] at htext
    refine .shadowsocks (hscheme _) ?_ split decodes parsed
    rw [shadowsocksBody_append hbody]
    exact htext

theorem vmessPayload_append {encoded label : Text} (hencoded : '#' ∉ encoded)
    (hlabel : ∀ c ∈ label.head?, c = '#') :
    vmessPayload lib (shareUrl "vmess".toList (encoded ++ label)) =
      (decodeB64 encoded).bind lib.parseJsonMap := by
  have hprefix : "vmess://".toList.isPrefixOf? (shareUrl "vmess".toList (encoded ++ label)) =
      some (encoded ++ label) := List.isPrefixOf?_eq_some_iff_append_eq.mpr rfl
  have hcut : beforeFirst '#' (encoded ++ label) = encoded := by
    cases label with
    | nil => rw [List.append_nil, beforeFirst_of_not_mem hencoded]
    | cons c label =>
      obtain rfl := hlabel c rfl
      exact beforeFirst_append_of_not_mem hencoded label
  rw [vmessPayload, hprefix, Option.bind_eq_bind, Option.bind_some, hcut]
  rfl

/-- What is read of a URL of VMess is in front of its fragment. -/
theorem Reads.vmess_label {encoded label₁ label₂ : Text} (hencoded : '#' ∉ encoded)
    (hlabel₁ : ∀ c ∈ label₁.head?, c = '#') (hlabel₂ : ∀ c ∈ label₂.head?, c = '#')
    (h : Reads lib (shareUrl "vmess".toList (encoded ++ label₁)) r) :
    Reads lib (shareUrl "vmess".toList (encoded ++ label₂)) r := by
  have hvmess : ∀ t, "vmess://".toList <+: shareUrl "vmess".toList t := fun t =>
    List.prefix_append _ t
  cases h with
  | url hno => exact absurd (hvmess _) hno
  | shadowsocks hraw => exact absurd (hraw ▸ hvmess _) (not_vmess_of_shadowsocks _)
  | vmess _ parsed =>
    rw [vmessPayload_append hencoded hlabel₁] at parsed
    refine .vmess (hvmess _) ?_
    rw [vmessPayload_append hencoded hlabel₂, parsed]

/-- Share URLs that differ in labels and order alone have one identity. -/
theorem relabelled_shares_agree (lib : Libraries) (source : String) (raw₁ raw₂ : Text)
    (proxy₁ proxy₂ : ParsedProxy)
    (relabelled : Relabelled lib (trim isWhitespace raw₁) (trim isWhitespace raw₂))
    (accepted₁ : parseShareUrl lib raw₁ source = .ok proxy₁)
    (accepted₂ : parseShareUrl lib raw₂ source = .ok proxy₂) :
    proxy₁.configHash = proxy₂.configHash := by
  obtain ⟨r₁, hread₁, -⟩ := exists_reading accepted₁
  cases relabelled with
  | reading h₁ h₂ h => exact configHash_of_identity h₁ h₂ h.identity accepted₁ accepted₂
  | shadowsocks tail₁ tail₂ hbody h₁ h₂ =>
    have hread₂ : Reads lib (trim isWhitespace raw₂) r₁ := by
      rw [h₁] at hread₁
      rw [h₂]
      exact hread₁.shadowsocks_tail hbody tail₂
    exact configHash_of_identity hread₁ hread₂ rfl accepted₁ accepted₂
  | vmess hencoded hlabel₁ hlabel₂ h₁ h₂ =>
    have hread₂ : Reads lib (trim isWhitespace raw₂) r₁ := by
      rw [h₁] at hread₁
      rw [h₂]
      exact hread₁.vmess_label hencoded hlabel₁ hlabel₂
    exact configHash_of_identity hread₁ hread₂ rfl accepted₁ accepted₂

end Identities

section Sample

/-- The identity of a URL of Trojan with parameters on the sample server. -/
def queryConfig (params : List (String × Json)) : Json :=
  .object [
    ("address", .string "host.example"), ("params", .object params), ("password", .string ""),
    ("path", .string ""), ("port", .number (.posInt 443)), ("protocol", .string "trojan"),
    ("user", .string "first")]

def tcpTrojan : String := "40e37ce2f929214afc3d926903bc944d8f0e57336f180e81b248ba2895be74f4"

def namedTrojan : String := "c394f8ee6af3f23a0f4a204935611f933b1bc3d1f0ca6d75492daeead86511ee"

def queryLibraries : Libraries :=
  readerLibraries [] [(writeJson (queryConfig [("type", .string "ws")]), websocketTrojan),
    (writeJson (queryConfig [("type", .string "tcp")]), tcpTrojan),
    (writeJson (queryConfig [("sni", .string "a.example"), ("type", .string "ws")]), namedTrojan)]

def fragmentLabel : Text := "trojan://first@host.example:443?type=ws&sni=a.example#one".toList

def parameterLabel : Text :=
  "trojan://first@host.example:443?sni=a.example&remark=x&type=ws".toList

theorem relabelled_shares_agree_trojan :
    ∃ proxy₁ proxy₂,
      parseShareUrl queryLibraries fragmentLabel "feed" = .ok proxy₁ ∧
      parseShareUrl queryLibraries parameterLabel "feed" = .ok proxy₂ ∧
      proxy₁.configHash = namedTrojan ∧ proxy₁.configHash = proxy₂.configHash := by
  have hparsed₁ : (parseShareUrl queryLibraries fragmentLabel "feed").map (·.configHash) =
      .ok namedTrojan := map_readerLibraries (by decide +kernel)
  have hparsed₂ : (parseShareUrl queryLibraries parameterLabel "feed").map (·.configHash) =
      .ok namedTrojan := map_readerLibraries (by decide +kernel)
  obtain ⟨proxy₁, h₁, hhash₁⟩ := map_eq_ok.mp hparsed₁
  obtain ⟨proxy₂, h₂, -⟩ := map_eq_ok.mp hparsed₂
  have htrim₁ : trim isWhitespace fragmentLabel = fragmentLabel := by decide
  have htrim₂ : trim isWhitespace parameterLabel = parameterLabel := by decide
  have hurl₁ : queryLibraries.parseUrl fragmentLabel =
      .ok { trojanUrl with
        query := some "type=ws&sni=a.example".toList, fragment := some "one".toList } := by rfl
  have hurl₂ : queryLibraries.parseUrl parameterLabel =
      .ok { trojanUrl with query := some "sni=a.example&remark=x&type=ws".toList } := by rfl
  have relabelled : Relabelled queryLibraries (trim isWhitespace fragmentLabel)
      (trim isWhitespace parameterLabel) := by
    rw [htrim₁, htrim₂]
    refine .reading (.url (by decide) (by decide) hurl₁) (.url (by decide) (by decide) hurl₂)
      (.url ⟨⟨rfl, rfl, rfl, rfl, rfl⟩, rfl, .inr ⟨?_, ?_⟩⟩)
    · decide +kernel
    · decide +kernel
  exact ⟨proxy₁, proxy₂, h₁, h₂, hhash₁,
    relabelled_shares_agree queryLibraries "feed" fragmentLabel parameterLabel proxy₁ proxy₂
      relabelled h₁ h₂⟩

/-- The order of parameters matters when their names differ in case alone. -/
theorem alike_parameters_are_ordered :
    FormUrlencoded.parse (utf8Encode "type=ws&Type=tcp".toList) =
      [("type".toList, "ws".toList), ("Type".toList, "tcp".toList)] ∧
    FormUrlencoded.parse (utf8Encode "Type=tcp&type=ws".toList) =
      [("Type".toList, "tcp".toList), ("type".toList, "ws".toList)] ∧
    (parseShareUrl queryLibraries "trojan://first@host.example:443?type=ws&Type=tcp".toList
      "feed").map (·.configHash) = .ok tcpTrojan ∧
    (parseShareUrl queryLibraries "trojan://first@host.example:443?Type=tcp&type=ws".toList
      "feed").map (·.configHash) = .ok websocketTrojan ∧
    tcpTrojan ≠ websocketTrojan := by
  exact ⟨by decide +kernel, by decide +kernel, map_readerLibraries (by decide +kernel),
    map_readerLibraries (by decide +kernel), by decide⟩

end Sample

end ProxyFleet
