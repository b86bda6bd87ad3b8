import ProxyFleet.CredentialListings
import ProxyFleet.FormUrlencoded

/-!
# What the parser relies on in its libraries

Forms are parsed as the URL standard says, user and password come back from a URL up to the
escapes of that standard, and digests separate the identities that are compared.
-/
namespace ProxyFleet

open FormUrlencoded

section Laws

variable (lib : Libraries)

/-- The form parser is that of the URL standard. -/
def Libraries.StandardForms : Prop := ∀ bytes, lib.parseForm bytes = FormUrlencoded.parse bytes

def unreserved : List Char := Base64.alphanumeric ++ ['-', '.', '_', '~']

def subDelims : List Char :=
  ['!', '$', '&', Char.ofNat 0x27, '(', ')', '*', '+', ',', ';', '=']

/-- What RFC 3986 allows in a user info without escapes. -/
def rfcKept (c : Char) : Bool := c ∈ unreserved ++ subDelims

/-- The graphic ASCII characters that the URL library escapes in a user info. -/
def userinfoEscaped : List ℕ :=
  [0x22, 0x23, 0x2F, 0x3A, 0x3B, 0x3C, 0x3D, 0x3E, 0x3F, 0x40, 0x5B, 0x5C, 0x5D, 0x5E, 0x60,
    0x7B, 0x7C, 0x7D]

def userinfoKept (c : Char) : Bool :=
  0x21 ≤ c.toNat && c.toNat ≤ 0x7E && c.toNat ∉ userinfoEscaped

/-- The schemes whose URLs name the credential in front of the server. -/
def IsUrlScheme (scheme : Text) : Prop :=
  toAsciiLowercase scheme ∈ ["vless", "trojan", "socks", "socks5"].map String.toList

/-- The library keeps user and password as they are but for its own escapes. -/
def Libraries.EscapedUserinfo : Prop :=
  ∀ scheme user (password : Option Text) rest url, IsUrlScheme scheme →
    (∀ c ∈ user, c = '%' ∨ rfcKept c = true) →
    (∀ p ∈ password, ∀ c ∈ p, c = '%' ∨ rfcKept c = true) → '@' ∉ authorityOf rest →
    lib.parseUrl (shareUrl scheme
      (user ++ password.elim [] (fun p => ':' :: p) ++ '@' :: rest)) = .ok url →
    url.username = percentEncode userinfoKept user ∧
      url.password.getD [] = percentEncode userinfoKept (password.getD [])

/-- The digests of two identities differ unless the identities agree. -/
def Libraries.Separates (config₁ config₂ : Json) : Prop :=
  lib.sha256 (lib.jsonToVec config₁) = lib.sha256 (lib.jsonToVec config₂) → config₁ = config₂

variable {lib}

theorem percentDecode_eq (forms : lib.StandardForms) (t : Text) :
    ProxyFleet.percentDecode lib t = decodeName t := by
  rw [ProxyFleet.percentDecode, forms, decodeName]
  rfl

end Laws

end ProxyFleet
