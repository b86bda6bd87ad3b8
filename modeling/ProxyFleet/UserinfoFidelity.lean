import ProxyFleet.LibraryReaders
import ProxyFleet.XrayOutbound

/-!
# Credentials in the authority of a URL

A credential is percent-encoded in front of the server. The URL library escapes a few more
characters, and the parser reads what results as a form: the credential is stored as it is
exactly when it has no plus sign and no ampersand, or consists of ampersands.
-/
namespace ProxyFleet

open TextLines FormUrlencoded

section Credentials

/-- A user and perhaps a password. -/
structure Credential where
  user : Text
  password : Option Text

def rfcEncode (t : Text) : Text := percentEncode rfcKept t

/-- The credential in front of the server. -/
def Credential.userinfo (credential : Credential) : Text :=
  rfcEncode credential.user ++
    (credential.password.map rfcEncode).elim [] (fun p => ':' :: p)

def Credential.url (scheme : Text) (credential : Credential) (rest : Text) : Text :=
  shareUrl scheme (credential.userinfo ++ '@' :: rest)

/-- A text that is no form. -/
def Survives (t : Text) : Prop := (∀ c ∈ t, c = '&') ∨ '+' ∉ t ∧ '&' ∉ t

def Credential.Survives (credential : Credential) : Prop :=
  ProxyFleet.Survives credential.user ∧ ProxyFleet.Survives (credential.password.getD [])

/-- The identity of the proxy holds the credential. -/
def Stores (proxy : ParsedProxy) (credential : Credential) : Prop :=
  valueString proxy.normalizedConfig "user" = credential.user ∧
    valueString proxy.normalizedConfig "password" = credential.password.getD []

theorem rfcKept_percent : rfcKept '%' = false := by decide +kernel

/-- Of a percent-encoded text the library escapes the semicolons and the equals signs. -/
theorem decodeName_userinfo_iff (t : Text) :
    decodeName (percentEncode userinfoKept (rfcEncode t)) = t ↔ Survives t := by
  have hdigits : ∀ d ∈ hexDigits, userinfoKept d = true := by decide +kernel
  have hwritten : percentEncode userinfoKept (rfcEncode t) =
      written (t.map fun c => (c, rfcKept c && userinfoKept c)) := by
    have hrfc : rfcEncode t = written (t.map fun c => (c, rfcKept c)) := rfl
    rw [hrfc, percentEncode_written (by decide +kernel) hdigits, List.map_map]
    rfl
  rw [hwritten]
  have hplain : plainText (t.map fun c => (c, rfcKept c && userinfoKept c)) = t := by
    rw [plainText, List.map_map]
    exact List.map_id t
  have hpercent : ('%', true) ∉ t.map fun c => (c, rfcKept c && userinfoKept c) := by
    intro hm
    obtain ⟨c, -, hc⟩ := List.mem_map.mp hm
    obtain ⟨rfl, hkept⟩ := Prod.mk.inj hc
    rw [rfcKept_percent] at hkept
    cases hkept
  have hiff := decodeName_written_iff hpercent
  rw [hplain] at hiff
  refine hiff.trans ?_
  have hplus : (rfcKept '+' && userinfoKept '+') = true := by decide +kernel
  have hamp : (rfcKept '&' && userinfoKept '&') = true := by decide +kernel
  have heq : (rfcKept '=' && userinfoKept '=') = false := by decide +kernel
  rw [Survives]
  refine or_congr ?_ ?_
  · constructor
    · intro h c hc
      exact (Prod.mk.inj (h _ (List.mem_map_of_mem hc))).1
    · intro h m hm
      obtain ⟨c, hc, rfl⟩ := List.mem_map.mp hm
      rw [h c hc, hamp]
  · constructor
    · intro h
      refine ⟨fun hc => ?_, fun hc => ?_⟩
      · exact h _ (List.mem_map_of_mem hc) hplus (by simp)
      · exact h _ (List.mem_map_of_mem hc) hamp (by simp)
    · rintro ⟨hnoPlus, hnoAmp⟩ m hm
      obtain ⟨c, hc, rfl⟩ := List.mem_map.mp hm
      intro hkept
      simp only [List.mem_cons, List.not_mem_nil, or_false, not_or]
      refine ⟨fun he => hnoPlus (he ▸ hc), fun he => hnoAmp (he ▸ hc), fun he => ?_⟩
      dsimp only at he hkept
      rw [he, heq] at hkept
      cases hkept

end Credentials

section Storage

variable {lib : Libraries} {raw scheme rest : Text} {source : String} {proxy : ParsedProxy}
  {credential : Credential}

theorem mem_rfcEncode {t : Text} {c : Char} (h : c ∈ rfcEncode t) : c = '%' ∨ rfcKept c = true := by
  have hdigits : ∀ d ∈ hexDigits, rfcKept d = true := by decide +kernel
  rcases mem_written h with hkept | hpercent | hdigit
  · obtain ⟨d, -, hd⟩ := List.mem_map.mp hkept
    obtain ⟨rfl, hk⟩ := Prod.mk.inj hd
    exact .inr hk
  · exact .inl hpercent
  · exact .inr (hdigits c hdigit)

/-- A URL of these schemes is read by the URL library. -/
theorem acceptedUrl_of_shareUrl (hs : IsUrlScheme scheme)
    (hurl : trim isWhitespace raw = shareUrl scheme rest)
    (accepted : parseShareUrl lib raw source = .ok proxy) :
    ∃ url port share, AcceptedUrl lib (trim isWhitespace raw) url port share ∧
      proxy = shareProxy lib source (trim isWhitespace raw) share := by
  obtain ⟨share, hshare, -, hproxy⟩ := parseShareUrl_eq_ok.mp accepted
  have hscheme : IsScheme scheme := by
    have hsub : ["vless", "trojan", "socks", "socks5"].map String.toList ⊆
      supportedProtocols := by decide
    exact hsub hs
  have hother : ∀ other : Text, ':' ∉ other → other ++ "://".toList <+: trim isWhitespace raw →
      other = scheme := by
    rintro other hcolon ⟨after, hafter⟩
    have hsplit := splitScheme_shareUrl hscheme rest
    rw [← hurl, ← hafter, splitScheme_append hcolon, Option.some.injEq, Prod.mk.injEq] at hsplit
    exact hsplit.1
  rcases parseScheme_ok hshare with ⟨hvmess, -⟩ | ⟨-, hss, -⟩ | ⟨-, -, url, port, h⟩
  · rw [← hother "vmess".toList (by decide) hvmess] at hs
    exact absurd hs (by unfold IsUrlScheme; decide)
  · rw [← hother "ss".toList (by decide) hss] at hs
    exact absurd hs (by unfold IsUrlScheme; decide)
  · exact ⟨url, port, share, h, hproxy⟩

theorem valueString_urlConfig {url : Url} {port : ℕ} :
    valueString (urlConfig lib url port) "user" = urlUser lib url ∧
      valueString (urlConfig lib url port) "password" = urlPassword lib url := by
  have huser : (urlConfig lib url port).get "user" = some (.text (urlUser lib url)) := rfl
  have hpassword : (urlConfig lib url port).get "password" = some (.text (urlPassword lib url)) :=
    rfl
  simp [valueString, huser, hpassword, Json.text, Json.asStr]

/-- An accepted URL stores its credential exactly when both of its parts survive. -/
theorem stores_iff (forms : lib.StandardForms) (escapes : lib.EscapedUserinfo)
    (hs : IsUrlScheme scheme) (hrest : '@' ∉ authorityOf rest)
    (hurl : trim isWhitespace raw = credential.url scheme rest)
    (accepted : parseShareUrl lib raw source = .ok proxy) :
    Stores proxy credential ↔ credential.Survives := by
  obtain ⟨url, port, share, h, rfl⟩ := acceptedUrl_of_shareUrl hs hurl accepted
  have hparsed := h.parsed
  rw [hurl, Credential.url, Credential.userinfo] at hparsed
  obtain ⟨huser, hpassword⟩ := escapes scheme (rfcEncode credential.user)
    (credential.password.map rfcEncode) rest url hs (fun c hc => mem_rfcEncode hc)
    (by
      intro p hp c hc
      obtain ⟨q, -, rfl⟩ := Option.mem_map.mp hp
      exact mem_rfcEncode hc)
    hrest hparsed
  have hstoredUser : urlUser lib url = decodeName url.username := by
    rw [urlUser, percentDecode_eq forms]
    split
    · next hempty =>
      rw [List.isEmpty_iff.mp hempty]
      rfl
    · rfl
  have hgiven : (credential.password.map rfcEncode).getD [] =
      rfcEncode (credential.password.getD []) := by
    cases credential.password with
    | none => rfl
    | some p => rfl
  rw [Stores, Credential.Survives, ← decodeName_userinfo_iff, ← decodeName_userinfo_iff, ← hgiven,
    ← huser, ← hpassword]
  have hconfig : (shareProxy lib source (trim isWhitespace raw) share).normalizedConfig =
      urlConfig lib url port := by
    rw [shareProxy, h.share]
  rw [hconfig, valueString_urlConfig.1, valueString_urlConfig.2, hstoredUser, urlPassword,
    percentDecode_eq forms]

end Storage

section Identities

variable {lib : Libraries}

/-- Accepted URLs store their credentials exactly when these survive, and then two URLs that
differ in the credential have different identities. -/
theorem userinfo_fidelity (forms : lib.StandardForms) (escapes : lib.EscapedUserinfo)
    {scheme rest : Text} (hs : IsUrlScheme scheme) (hrest : '@' ∉ authorityOf rest)
    (source : String) :
    (∀ credential raw proxy, trim isWhitespace raw = Credential.url scheme credential rest →
      parseShareUrl lib raw source = .ok proxy → (Stores proxy credential ↔ credential.Survives)) ∧
    (∀ credential₁ credential₂ raw₁ raw₂ proxy₁ proxy₂,
      trim isWhitespace raw₁ = Credential.url scheme credential₁ rest →
      trim isWhitespace raw₂ = Credential.url scheme credential₂ rest →
      parseShareUrl lib raw₁ source = .ok proxy₁ → parseShareUrl lib raw₂ source = .ok proxy₂ →
      credential₁.Survives → credential₂.Survives →
      (credential₁.user, credential₁.password.getD []) ≠
        (credential₂.user, credential₂.password.getD []) →
      lib.Separates proxy₁.normalizedConfig proxy₂.normalizedConfig →
      proxy₁.configHash ≠ proxy₂.configHash) := by
  refine ⟨fun credential raw proxy => stores_iff forms escapes hs hrest, ?_⟩
  intro credential₁ credential₂ raw₁ raw₂ proxy₁ proxy₂ hurl₁ hurl₂ h₁ h₂ hsurvive₁ hsurvive₂ hne
    separates hhash
  obtain ⟨huser₁, hpassword₁⟩ := (stores_iff forms escapes hs hrest hurl₁ h₁).mpr hsurvive₁
  obtain ⟨huser₂, hpassword₂⟩ := (stores_iff forms escapes hs hrest hurl₂ h₂).mpr hsurvive₂
  have hsame : proxy₁.normalizedConfig = proxy₂.normalizedConfig := by
    apply separates
    rw [← configHash_eq h₁, ← configHash_eq h₂, hhash]
  apply hne
  rw [← huser₁, ← huser₂, ← hpassword₁, ← hpassword₂, hsame]

/-- The identity of a URL of Trojan on the sample server. -/
def trojanConfig (user : String) : Json :=
  .object [
    ("address", .string "host.example"), ("params", .object []), ("password", .string ""),
    ("path", .string ""), ("port", .number (.posInt 443)), ("protocol", .string "trojan"),
    ("user", .string user)]

def firstTrojan : String := "b7174eca0f8b2fb7cd0ec9d9e8fad22493f40583b351b0694803c0d728fea489"

def secondTrojan : String := "2f2f0916fb7ba533e98875b77b9a765ac2c10c20b1e5dda94ea57b73e06a4309"

def blankTrojan : String := "634da2bdf9f2472af63bd9249a3d3bdf2eda9b416269195493dcd66821580c78"

def trojanLibraries : Libraries :=
  readerLibraries [] [(writeJson (trojanConfig "first"), firstTrojan),
    (writeJson (trojanConfig "second"), secondTrojan),
    (writeJson (trojanConfig "a b"), blankTrojan)]

theorem userinfo_fidelity_trojan :
    ∃ proxy₁ proxy₂,
      parseShareUrl trojanLibraries "trojan://first@host.example:443".toList "feed" = .ok proxy₁ ∧
      parseShareUrl trojanLibraries "trojan://second@host.example:443".toList "feed" = .ok proxy₂ ∧
      Stores proxy₁ ⟨"first".toList, none⟩ ∧ proxy₁.configHash ≠ proxy₂.configHash := by
  have forms : trojanLibraries.StandardForms := readerLibraries_forms
  have escapes : trojanLibraries.EscapedUserinfo := readerLibraries_escapes
  have hs : IsUrlScheme "trojan".toList := by unfold IsUrlScheme; decide
  have hrest : '@' ∉ authorityOf "host.example:443".toList := by decide
  obtain ⟨hstores, hdiffer⟩ := userinfo_fidelity forms escapes hs hrest "feed"
  have hparsed₁ : (parseShareUrl trojanLibraries "trojan://first@host.example:443".toList
      "feed").map (·.configHash) = .ok firstTrojan := map_readerLibraries (by decide +kernel)
  have hparsed₂ : (parseShareUrl trojanLibraries "trojan://second@host.example:443".toList
      "feed").map (·.configHash) = .ok secondTrojan := map_readerLibraries (by decide +kernel)
  obtain ⟨proxy₁, h₁, hhash₁⟩ := map_eq_ok.mp hparsed₁
  obtain ⟨proxy₂, h₂, hhash₂⟩ := map_eq_ok.mp hparsed₂
  have hsurvive₁ : Credential.Survives ⟨"first".toList, none⟩ :=
    ⟨.inr ⟨by decide, by decide⟩, .inr ⟨by decide, by decide⟩⟩
  have hsurvive₂ : Credential.Survives ⟨"second".toList, none⟩ :=
    ⟨.inr ⟨by decide, by decide⟩, .inr ⟨by decide, by decide⟩⟩
  have separates : trojanLibraries.Separates proxy₁.normalizedConfig proxy₂.normalizedConfig := by
    intro hdigest
    rw [← configHash_eq h₁, ← configHash_eq h₂, hhash₁, hhash₂] at hdigest
    exact absurd hdigest (by decide)
  refine ⟨proxy₁, proxy₂, h₁, h₂, (hstores _ _ proxy₁ ?_ h₁).mpr hsurvive₁, ?_⟩
  · decide +kernel
  · exact hdiffer _ _ _ _ proxy₁ proxy₂ (by decide +kernel) (by decide +kernel) h₁ h₂ hsurvive₁
      hsurvive₂ (by decide) separates

/-- A plus sign is read as a blank, so that two credentials have one identity. -/
theorem plus_sign_is_lost :
    Credential.url "trojan".toList ⟨"a+b".toList, none⟩ "host.example:443".toList =
      "trojan://a+b@host.example:443".toList ∧
    Credential.url "trojan".toList ⟨"a b".toList, none⟩ "host.example:443".toList =
      "trojan://a%20b@host.example:443".toList ∧
    (parseShareUrl trojanLibraries "trojan://a+b@host.example:443".toList "feed").map
      (fun proxy => (valueString proxy.normalizedConfig "user", proxy.configHash)) =
        .ok ("a b".toList, blankTrojan) ∧
    (parseShareUrl trojanLibraries "trojan://a%20b@host.example:443".toList "feed").map
      (fun proxy => (valueString proxy.normalizedConfig "user", proxy.configHash)) =
        .ok ("a b".toList, blankTrojan) := by
  exact ⟨by decide +kernel, by decide +kernel, map_readerLibraries (by decide +kernel),
    map_readerLibraries (by decide +kernel)⟩

end Identities

end ProxyFleet
