import ProxyFleet.CanonicalQueries
import ProxyFleet.ShadowsocksForms
import ProxyFleet.UserinfoFidelity

/-!
# Parameters of a query

Two URLs that differ in one parameter have different identities exactly when the name of the
parameter is no label, no later parameter is called alike, and no earlier one takes its
place. Of a URL of Shadowsocks the parser reads no query at all.
-/
namespace ProxyFleet

open TextLines

section Parameters

/-- Two URLs that differ in one parameter alone: the second lacks it, or has another value. -/
structure DifferInParameter (lib : Libraries) (scheme raw₁ raw₂ : Text)
    (pre post : List (Text × Text)) (key value : Text) (other : Option Text) : Prop where
  urlScheme : IsUrlScheme scheme
  first : ∃ rest, trim isWhitespace raw₁ = shareUrl scheme rest
  second : ∃ rest, trim isWhitespace raw₂ = shareUrl scheme rest
  urls : ∃ (url : Url) (query₁ query₂ : Option Text),
    lib.parseUrl (trim isWhitespace raw₁) = .ok { url with query := query₁ } ∧
    lib.parseUrl (trim isWhitespace raw₂) = .ok { url with query := query₂ } ∧
    queryPairs lib { url with query := query₁ } = pre ++ (key, value) :: post ∧
    queryPairs lib { url with query := query₂ } = pre ++ (other.map (key, ·)).toList ++ post
  distinct : ((pre ++ (key, value) :: post).map Prod.fst).Nodup
  unlabelled : key ∉ remarkKeys
  differs : ∀ w ∈ other, toAsciiLowercase w ≠ toAsciiLowercase value

/-- No other parameter stands for this one. -/
def Distinguished (pre post : List (Text × Text)) (key value : Text) (other : Option Text) :
    Prop :=
  toAsciiLowercase key ∉ remarkKeys ∧
  (∀ pair ∈ post, toAsciiLowercase pair.1 ≠ toAsciiLowercase key) ∧
  (other = none → ∀ w ∈ lastValue (toAsciiLowercase key) pre,
    canonicalValue (toAsciiLowercase key) w ≠ canonicalValue (toAsciiLowercase key) value)

variable {pre post : List (Text × Text)} {key value : Text} {other : Option Text}

theorem canonicalValue_ne {name w : Text} (h : toAsciiLowercase w ≠ toAsciiLowercase value) :
    canonicalValue name w ≠ canonicalValue name value := by
  rw [canonicalValue, canonicalValue]
  split
  · exact h
  · exact fun he => h (congrArg toAsciiLowercase he)

/-- The queries differ exactly when no other parameter stands for the one that differs. -/
theorem collect_ne_iff (differs : ∀ w ∈ other, toAsciiLowercase w ≠ toAsciiLowercase value) :
    OrderedMap.collect ((pre ++ (key, value) :: post).filterMap canonicalPair) ≠
        OrderedMap.collect ((pre ++ (other.map (key, ·)).toList ++ post).filterMap canonicalPair) ↔
      Distinguished pre post key value other := by
  rw [Ne, collect_canonicalPair_eq_iff]
  have hfirst : ∀ name, lastValue name (pre ++ (key, value) :: post) =
      (lastValue name post).or
        ((if toAsciiLowercase key = name then some value else none).or (lastValue name pre)) := by
    intro name
    rw [List.append_cons, lastValue_append, lastValue_append, lastValue_singleton]
  have hsecond : ∀ name, lastValue name (pre ++ (other.map (key, ·)).toList ++ post) =
      (lastValue name post).or
        ((if toAsciiLowercase key = name then other else none).or (lastValue name pre)) := by
    intro name
    rw [lastValue_append, lastValue_append]
    cases other with
    | none => simp [lastValue]
    | some w => rw [Option.map_some, Option.toList_some, lastValue_singleton]
  simp only [hfirst, hsecond]
  constructor
  · intro h
    obtain ⟨name, hname⟩ := not_forall.mp h
    obtain ⟨hlabel, hne⟩ := Classical.not_imp.mp hname
    have hkey : toAsciiLowercase key = name := by
      by_contra hkey
      rw [if_neg hkey, if_neg hkey] at hne
      exact hne rfl
    subst hkey
    have hpost : lastValue (toAsciiLowercase key) post = none := by
      cases hlast : lastValue (toAsciiLowercase key) post with
      | none => rfl
      | some w =>
        rw [hlast] at hne
        exact absurd rfl hne
    refine ⟨hlabel, lastValue_eq_none.mp hpost, ?_⟩
    rintro rfl w hw he
    rw [hpost, if_pos rfl, if_pos rfl, Option.none_or, Option.none_or, Option.none_or,
      Option.mem_def.mp hw, Option.some_or, Option.map_some, Option.map_some, he] at hne
    exact hne rfl
  · rintro ⟨hlabel, hpost, hpre⟩ hall
    have hkey := hall (toAsciiLowercase key) hlabel
    rw [lastValue_eq_none.mpr hpost, if_pos rfl, if_pos rfl, Option.none_or, Option.none_or,
      Option.some_or, Option.map_some] at hkey
    cases other with
    | none =>
      rw [Option.none_or, eq_comm, Option.map_eq_some_iff] at hkey
      obtain ⟨w, hw, he⟩ := hkey
      exact hpre rfl w hw he
    | some w =>
      rw [Option.some_or, Option.map_some, Option.some.injEq] at hkey
      exact canonicalValue_ne (differs w rfl) hkey.symm

end Parameters

section Identities

variable {lib : Libraries} {source : String} {raw₁ raw₂ : Text} {proxy₁ proxy₂ : ParsedProxy}

/-- Equal documents have the same members under a key. -/
theorem Json.members_eq_of_get {json₁ json₂ : Json} (key : String)
    {members₁ members₂ : List (String × Json)} (h : json₁ = json₂)
    (h₁ : json₁.get key = some (.object members₁)) (h₂ : json₂.get key = some (.object members₂)) :
    members₁ = members₂ := by
  rw [h, h₂] at h₁
  exact (Json.object.inj (Option.some.inj h₁)).symm

theorem urlConfig_inj {url₁ url₂ : Url} {port : ℕ}
    (h : urlConfig lib url₁ port = urlConfig lib url₂ port) :
    canonicalQuery lib url₁ = canonicalQuery lib url₂ :=
  Json.members_eq_of_get "params" h rfl rfl

/-- The identities of two URLs that differ in one parameter. -/
theorem normalizedConfig_ne_iff {scheme : Text} {pre post : List (Text × Text)} {key value : Text}
    {other : Option Text} (h : DifferInParameter lib scheme raw₁ raw₂ pre post key value other)
    (accepted₁ : parseShareUrl lib raw₁ source = .ok proxy₁)
    (accepted₂ : parseShareUrl lib raw₂ source = .ok proxy₂) :
    proxy₁.normalizedConfig ≠ proxy₂.normalizedConfig ↔
      Distinguished pre post key value other := by
  obtain ⟨rest₁, hrest₁⟩ := h.first
  obtain ⟨rest₂, hrest₂⟩ := h.second
  obtain ⟨url, query₁, query₂, hurl₁, hurl₂, hpairs₁, hpairs₂⟩ := h.urls
  obtain ⟨parsed₁, port₁, share₁, hshare₁, rfl⟩ :=
    acceptedUrl_of_shareUrl h.urlScheme hrest₁ accepted₁
  obtain ⟨parsed₂, port₂, share₂, hshare₂, rfl⟩ :=
    acceptedUrl_of_shareUrl h.urlScheme hrest₂ accepted₂
  obtain rfl := Except.ok.inj (hshare₁.parsed.symm.trans hurl₁)
  obtain rfl := Except.ok.inj (hshare₂.parsed.symm.trans hurl₂)
  have hport : some port₁ = some port₂ := hshare₁.hasPort.symm.trans hshare₂.hasPort
  obtain rfl := Option.some.inj hport
  rw [← collect_ne_iff h.differs, ← hpairs₁, ← hpairs₂, ← canonicalQuery_eq, ← canonicalQuery_eq,
    shareProxy, shareProxy, hshare₁.share, hshare₂.share]
  refine not_congr ⟨urlConfig_inj, fun hquery => ?_⟩
  show urlConfig lib _ port₁ = urlConfig lib _ port₁
  simp only [urlConfig, hquery]
  rfl

/-- Nothing behind the body of a URL of Shadowsocks is part of its identity. -/
theorem normalizedConfig_shadowsocks {body : Text} (hbody : ∀ c ∈ body, c ∉ ['?', '#'])
    (tail₁ tail₂ : UrlTail)
    (hraw₁ : trim isWhitespace raw₁ = shareUrl "ss".toList (body ++ tail₁.text))
    (hraw₂ : trim isWhitespace raw₂ = shareUrl "ss".toList (body ++ tail₂.text))
    (accepted₁ : parseShareUrl lib raw₁ source = .ok proxy₁)
    (accepted₂ : parseShareUrl lib raw₂ source = .ok proxy₂) :
    proxy₁.normalizedConfig = proxy₂.normalizedConfig := by
  obtain ⟨share₁, hshare₁, -, rfl⟩ := parseShareUrl_eq_ok.mp accepted₁
  obtain ⟨share₂, hshare₂, -, rfl⟩ := parseShareUrl_eq_ok.mp accepted₂
  have hscheme : ∀ t : Text, shareUrl "ss".toList t = "ss://".toList ++ t := fun t => rfl
  rw [hraw₁, hscheme, parseScheme_shadowsocks, parseShadowsocks_eq,
    shadowsocksBody_append hbody] at hshare₁
  rw [hraw₂, hscheme, parseScheme_shadowsocks, parseShadowsocks_eq,
    shadowsocksBody_append hbody] at hshare₂
  simp only [bind_eq_ok, context_eq_ok] at hshare₁ hshare₂
  obtain ⟨decoded₁, hdecoded₁, parts₁, hparts₁, credential₁, hcredential₁, hsettle₁⟩ := hshare₁
  obtain ⟨decoded₂, hdecoded₂, parts₂, hparts₂, credential₂, hcredential₂, hsettle₂⟩ := hshare₂
  obtain rfl := Except.ok.inj (hdecoded₁.symm.trans hdecoded₂)
  obtain rfl := Option.some.inj (hparts₁.symm.trans hparts₂)
  obtain rfl := Except.ok.inj (hcredential₁.symm.trans hcredential₂)
  exact settleShadowsocks_normalized hsettle₁ hsettle₂

/-- URLs that differ in one parameter have different identities exactly when no other parameter
stands for it, and none of the parameters of Shadowsocks is part of an identity. -/
theorem parameters_distinguish (lib : Libraries) (source : String) :
    (∀ scheme raw₁ raw₂ pre post key value other proxy₁ proxy₂,
      DifferInParameter lib scheme raw₁ raw₂ pre post key value other →
      parseShareUrl lib raw₁ source = .ok proxy₁ → parseShareUrl lib raw₂ source = .ok proxy₂ →
      (proxy₁.normalizedConfig ≠ proxy₂.normalizedConfig ↔
        Distinguished pre post key value other) ∧
      (lib.Separates proxy₁.normalizedConfig proxy₂.normalizedConfig →
        (proxy₁.configHash ≠ proxy₂.configHash ↔ Distinguished pre post key value other))) ∧
    (∀ body (tail₁ tail₂ : UrlTail) raw₁ raw₂ proxy₁ proxy₂, (∀ c ∈ body, c ∉ ['?', '#']) →
      trim isWhitespace raw₁ = shareUrl "ss".toList (body ++ tail₁.text) →
      trim isWhitespace raw₂ = shareUrl "ss".toList (body ++ tail₂.text) →
      parseShareUrl lib raw₁ source = .ok proxy₁ → parseShareUrl lib raw₂ source = .ok proxy₂ →
      proxy₁.normalizedConfig = proxy₂.normalizedConfig ∧
        proxy₁.configHash = proxy₂.configHash) := by
  refine ⟨?_, ?_⟩
  · intro scheme raw₁ raw₂ pre post key value other proxy₁ proxy₂ h accepted₁ accepted₂
    have hconfig := normalizedConfig_ne_iff h accepted₁ accepted₂
    refine ⟨hconfig, fun separates => ?_⟩
    rw [← hconfig, configHash_eq accepted₁, configHash_eq accepted₂]
    exact not_congr ⟨separates, fun he => by rw [he]⟩
  · intro body tail₁ tail₂ raw₁ raw₂ proxy₁ proxy₂ hbody hraw₁ hraw₂ accepted₁ accepted₂
    have hconfig := normalizedConfig_shadowsocks hbody tail₁ tail₂ hraw₁ hraw₂ accepted₁ accepted₂
    exact ⟨hconfig, by rw [configHash_eq accepted₁, configHash_eq accepted₂, hconfig]⟩

end Identities

section Sample

def websocketTrojan : String := "e3f0edf9c1329908182f11fed2d297aadb0e312785a37bce7819722f5415103d"

def websocketConfig : Json :=
  .object [
    ("address", .string "host.example"), ("params", .object [("type", .string "ws")]),
    ("password", .string ""), ("path", .string ""), ("port", .number (.posInt 443)),
    ("protocol", .string "trojan"), ("user", .string "first")]

def pluginLibraries : Libraries :=
  readerLibraries [] [(writeJson (trojanConfig "first"), firstTrojan),
    (writeJson websocketConfig, websocketTrojan), (writeJson (gcmConfig "first"), firstHash)]

def trojanUrl : Url where
  scheme := "trojan".toList
  username := "first".toList
  password := none
  hostStr := some "host.example".toList
  port := some 443
  path := []
  query := none
  fragment := none

theorem websocket_differs :
    DifferInParameter pluginLibraries "trojan".toList
      "trojan://first@host.example:443?type=ws".toList "trojan://first@host.example:443".toList
      [] [] "type".toList "ws".toList none where
  urlScheme := by unfold IsUrlScheme; decide
  first := ⟨"first@host.example:443?type=ws".toList, by decide⟩
  second := ⟨"first@host.example:443".toList, by decide⟩
  urls := ⟨trojanUrl, some "type=ws".toList, none, by rfl, by rfl, by decide +kernel,
    by decide +kernel⟩
  distinct := by decide
  unlabelled := by decide
  differs := by simp

def pluginUrl : Text := "ss://aes-128-gcm:first@host.example:443?plugin=obfs-local".toList

def bareUrl : Text := "ss://aes-128-gcm:first@host.example:443".toList

theorem pluginUrl_accepted :
    (parseShareUrl pluginLibraries pluginUrl "feed").map (·.configHash) = .ok firstHash :=
  map_readerLibraries (by decide +kernel)

theorem bareUrl_accepted :
    (parseShareUrl pluginLibraries bareUrl "feed").map (·.configHash) = .ok firstHash :=
  map_readerLibraries (by decide +kernel)

theorem parameters_distinguish_type :
    ∃ proxy₁ proxy₂ proxy₃ proxy₄,
      parseShareUrl pluginLibraries "trojan://first@host.example:443?type=ws".toList "feed" =
        .ok proxy₁ ∧
      parseShareUrl pluginLibraries "trojan://first@host.example:443".toList "feed" =
        .ok proxy₂ ∧
      parseShareUrl pluginLibraries pluginUrl "feed" = .ok proxy₃ ∧
      parseShareUrl pluginLibraries bareUrl "feed" = .ok proxy₄ ∧
      proxy₁.configHash ≠ proxy₂.configHash ∧
      proxy₃.normalizedConfig = proxy₄.normalizedConfig := by
  obtain ⟨hdiffer, hcut⟩ := parameters_distinguish pluginLibraries "feed"
  have hparsed₁ : (parseShareUrl pluginLibraries "trojan://first@host.example:443?type=ws".toList
      "feed").map (·.configHash) = .ok websocketTrojan := map_readerLibraries (by decide +kernel)
  have hparsed₂ : (parseShareUrl pluginLibraries "trojan://first@host.example:443".toList
      "feed").map (·.configHash) = .ok firstTrojan := map_readerLibraries (by decide +kernel)
  obtain ⟨proxy₁, h₁, hhash₁⟩ := map_eq_ok.mp hparsed₁
  obtain ⟨proxy₂, h₂, hhash₂⟩ := map_eq_ok.mp hparsed₂
  obtain ⟨proxy₃, h₃, -⟩ := map_eq_ok.mp pluginUrl_accepted
  obtain ⟨proxy₄, h₄, -⟩ := map_eq_ok.mp bareUrl_accepted
  have separates : pluginLibraries.Separates proxy₁.normalizedConfig proxy₂.normalizedConfig := by
    intro hdigest
    rw [← configHash_eq h₁, ← configHash_eq h₂, hhash₁, hhash₂] at hdigest
    exact absurd hdigest (by decide)
  have hdistinguished : Distinguished [] [] "type".toList "ws".toList none :=
    ⟨by decide, by simp, by simp [lastValue]⟩
  refine ⟨proxy₁, proxy₂, proxy₃, proxy₄, h₁, h₂, h₃, h₄, ?_, ?_⟩
  · exact ((hdiffer _ _ _ _ _ _ _ _ proxy₁ proxy₂ websocket_differs h₁ h₂).2 separates).mpr
      hdistinguished
  · exact (hcut "aes-128-gcm:first@host.example:443".toList ⟨"?plugin=obfs-local".toList, by simp⟩
      ⟨[], by simp⟩ _ _ proxy₃ proxy₄ (by decide) (by decide) (by decide) h₃ h₄).1

/-- The plugin of a URL of Shadowsocks is dropped. -/
theorem plugin_is_dropped :
    (parseShareUrl pluginLibraries
      "ss://aes-128-gcm:first@host.example:443?plugin=obfs-local".toList "feed").map
        (·.configHash) = .ok firstHash ∧
    (parseShareUrl pluginLibraries "ss://aes-128-gcm:first@host.example:443".toList "feed").map
        (·.configHash) = .ok firstHash := by
  exact ⟨pluginUrl_accepted, bareUrl_accepted⟩

end Sample

end ProxyFleet
