import ProxyFleet.AcceptedShares
import ProxyFleet.LibraryLaws

/-!
# Readers for the libraries

A reader of URLs whose path and query need no escapes, the form parser of the URL standard
and the writer of JSON documents, as libraries on which the parser can be run. Documents
that are read and digests come from tables.
-/
namespace ProxyFleet

open FormUrlencoded

section Urls

/-- User info and server of an authority. -/
def splitUserinfo (authority : Text) : Text × Text :=
  (rsplitOnce '@' authority).getD ([], authority)

/-- The part of a URL in front of query and fragment. -/
def hierarchy (t : Text) : Text := beforeFirst '?' (beforeFirst '#' t)

def readPassword (userinfo : Text) : Option Text :=
  (splitOnce ':' userinfo).bind fun parts =>
    if parts.2 = [] then none else some (percentEncode userinfoKept parts.2)

def readShareUrl (raw : Text) : Except String Url :=
  match splitScheme raw with
  | none => .error "relative URL without a base"
  | some (scheme, t) =>
    let userinfo := (splitUserinfo (authorityOf t)).1
    (readServer (authorityOf t)).map fun server => {
      scheme := toAsciiLowercase scheme
      username := percentEncode userinfoKept (beforeFirst ':' userinfo)
      password := readPassword userinfo
      hostStr := server.1
      port := server.2
      path := (hierarchy t).dropWhile (· ≠ '/')
      query := (splitOnce '?' (beforeFirst '#' t)).map Prod.snd
      fragment := (splitOnce '#' t).map Prod.snd }

end Urls

section Documents

def quote : Char := Char.ofNat 0x22

/-- A character of a JSON string. -/
def writeChar (c : Char) : Text :=
  if c = quote ∨ c = '\\' then ['\\', c] else [c]

def writeText (t : Text) : Text := quote :: t.flatMap writeChar ++ [quote]

def writeNumber : JsonNumber → Text
  | .posInt value => Nat.toDigits 10 value
  | .negInt value => '-' :: Nat.toDigits 10 value.natAbs
  | .float _ => []

mutual

/-- A document without blanks. -/
def writeJson : Json → Text
  | .null => "null".toList
  | .bool value => (if value then "true" else "false").toList
  | .number value => writeNumber value
  | .string value => writeText value.toList
  | .array items => '[' :: writeItems items ++ [']']
  | .object members => Char.ofNat 0x7B :: writeMembers members ++ [Char.ofNat 0x7D]

def writeItems : List Json → Text
  | [] => []
  | [item] => writeJson item
  | item :: items => writeJson item ++ ',' :: writeItems items

def writeMembers : List (String × Json) → Text
  | [] => []
  | [(key, value)] => writeText key.toList ++ ':' :: writeJson value
  | (key, value) :: members =>
    writeText key.toList ++ ':' :: writeJson value ++ ',' :: writeMembers members

end

/-- The libraries, with the documents that are read and the digests of those written. -/
def readerLibraries (documents : List (Text × List (String × Json)))
    (digests : List (Text × String)) : Libraries where
  parseUrl := readShareUrl
  parseForm := FormUrlencoded.parse
  isUuid _ := false
  parseJsonMap bytes := (utf8Decode bytes).bind fun text => documents.lookup text
  jsonToVec json := utf8Encode (writeJson json)
  sha256 bytes := ((utf8Decode bytes).bind fun text => digests.lookup text).getD ""
  utf8Error _ := "invalid utf-8 sequence of 1 bytes from index 0"

example : writeJson (.object [("port", .number (.posInt 443)), ("user", .string "a b")]) =
    "\x7b\"port\":443,\"user\":\"a b\"\x7d".toList := by decide +kernel

end Documents

section Rules

variable {documents : List (Text × List (String × Json))} {digests : List (Text × String)}

theorem readerLibraries_forms : (readerLibraries documents digests).StandardForms :=
  fun _ => rfl

/-- Identities are looked up by the document that is written. -/
theorem map_readerLibraries {raw : Text} {source : String} {γ : Type} {f : ParsedProxy → γ}
    {result : Except String γ}
    (h : (parseShareUrl (readerLibraries documents digests) raw source).map
      (fun proxy => f { proxy with
        configHash := (digests.lookup (writeJson proxy.normalizedConfig)).getD "" }) = result) :
    (parseShareUrl (readerLibraries documents digests) raw source).map f = result := by
  rw [← h]
  cases hparsed : parseShareUrl (readerLibraries documents digests) raw source with
  | error error => rfl
  | ok proxy =>
    have hhash : proxy.configHash =
        (digests.lookup (writeJson proxy.normalizedConfig)).getD "" := by
      rw [configHash_eq hparsed]
      simp only [readerLibraries, utf8Decode_encode, Option.bind_some]
    rw [Except.map, Except.map, ← hhash]

theorem rfcKept_not_delimiter {c : Char} (h : c = '%' ∨ rfcKept c = true) :
    c ∉ ['/', '?', '#', '@', ':'] := by
  have hall : ∀ d ∈ ['/', '?', '#', '@', ':'], d ≠ '%' ∧ rfcKept d = false := by decide +kernel
  intro hmem
  obtain ⟨hne, hkept⟩ := hall c hmem
  rcases h with h | h
  · exact hne h
  · rw [hkept] at h
    cases h

/-- User and password of a user info, in front of a server. -/
theorem readShareUrl_userinfo {scheme user rest : Text} {password : Option Text} {url : Url}
    (hscheme : ':' ∉ scheme) (huser : ∀ c ∈ user, c ∉ ['/', '?', '#', '@', ':'])
    (hpassword : ∀ p ∈ password, ∀ c ∈ p, c ∉ ['/', '?', '#', '@', ':'])
    (hrest : '@' ∉ authorityOf rest)
    (hurl : readShareUrl (shareUrl scheme
      (user ++ password.elim [] (fun p => ':' :: p) ++ '@' :: rest)) = .ok url) :
    url.username = percentEncode userinfoKept user ∧
      url.password.getD [] = percentEncode userinfoKept (password.getD []) := by
  have hcolon : ':' ∉ user := fun hc => huser ':' hc (by simp)
  generalize hu : user ++ password.elim [] (fun p => ':' :: p) = u at hurl
  have huAuthority : ∀ c ∈ u, c ∉ ['/', '?', '#'] := by
    intro c hc
    rw [← hu] at hc
    have hsub : ['/', '?', '#'] ⊆ ['/', '?', '#', '@', ':'] := by decide
    rcases List.mem_append.mp hc with hc | hc
    · exact fun hm => huser c hc (hsub hm)
    · cases password with
      | none => cases hc
      | some p =>
        rcases List.mem_cons.mp hc with rfl | hc
        · decide
        · exact fun hm => hpassword p rfl c hc (hsub hm)
  have hauthority : authorityOf (u ++ '@' :: rest) = u ++ '@' :: authorityOf rest := by
    rw [authorityOf, List.takeWhile_append_of_pos fun c hc => decide_eq_true (huAuthority c hc),
      List.takeWhile_cons_of_pos (by decide)]
    rfl
  have hsplit : splitUserinfo (u ++ '@' :: authorityOf rest) = (u, authorityOf rest) := by
    rw [splitUserinfo, rsplitOnce_append hrest]
    rfl
  have hname : beforeFirst ':' u = user := by
    rw [← hu]
    cases password with
    | none => exact (congrArg _ (List.append_nil _)).trans (beforeFirst_of_not_mem hcolon)
    | some p => exact beforeFirst_append_of_not_mem hcolon p
  have hread : (readPassword u).getD [] = percentEncode userinfoKept (password.getD []) := by
    rw [← hu, readPassword]
    cases password with
    | none =>
      rw [Option.elim_none, List.append_nil, splitOnce_of_not_mem hcolon]
      rfl
    | some p =>
      rw [Option.elim_some, splitOnce_cons hcolon, Option.bind_some]
      split
      · next hempty =>
        obtain rfl : p = [] := hempty
        rfl
      · rfl
  rw [readShareUrl, shareUrl, splitScheme_append hscheme] at hurl
  simp only [hauthority, hsplit] at hurl
  cases hserver : readServer (u ++ '@' :: authorityOf rest) with
  | error e => simp [hserver, Except.map] at hurl
  | ok server =>
    rw [hserver] at hurl
    obtain rfl := Except.ok.inj hurl
    exact ⟨congrArg (percentEncode userinfoKept) hname, hread⟩

/-- The reader escapes a user info as the URL standard does. -/
theorem readerLibraries_escapes : (readerLibraries documents digests).EscapedUserinfo := by
  intro scheme user password rest url hs huser hpassword hrest hurl
  have hscheme : ':' ∉ scheme := by
    have hplain : ∀ p ∈ ["vless", "trojan", "socks", "socks5"].map String.toList, ':' ∉ p := by
      decide
    intro hc
    exact hplain _ hs (List.mem_map_of_mem (f := Char.toLower) hc)
  exact readShareUrl_userinfo hscheme (fun c hc => rfcKept_not_delimiter (huser c hc))
    (fun p hp c hc => rfcKept_not_delimiter (hpassword p hp c hc)) hrest hurl

end Rules

end ProxyFleet
