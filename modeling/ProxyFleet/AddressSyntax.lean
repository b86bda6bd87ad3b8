import ProxyFleet.StoreTables

/-!
# Textual network addresses and numbers

The readers of the standard library that the parser of share URLs calls: decimal
ports, IPv4 addresses in dotted form, and IPv6 addresses with at most one run of
omitted groups and an optional IPv4 tail. A reader returns what is left to read.
-/
namespace ProxyFleet.AddressSyntax

def digitValue (c : Char) : ℕ :=
  if c.isDigit then c.toNat - '0'.toNat else c.toLower.toNat - 'a'.toNat + 10

def isHexDigit (c : Char) : Bool := c.isDigit || ('a' ≤ c.toLower && c.toLower ≤ 'f')

def numberValue (radix : ℕ) (digits : Text) : ℕ :=
  digits.foldl (fun n c => n * radix + digitValue c) 0

/-- A number of at most `maxDigits` digits below `bound`. -/
def readNumber (radix maxDigits bound : ℕ) (zeroPrefix : Bool) (t : Text) : Option Text :=
  let isDigit (c : Char) := if radix = 16 then isHexDigit c else c.isDigit
  let digits := t.takeWhile isDigit
  if digits = [] ∨ maxDigits < digits.length ∨
      (!zeroPrefix ∧ digits.head? = some '0' ∧ 1 < digits.length) then none
  else if numberValue radix digits < bound then some (t.dropWhile isDigit)
  else none

/-- What a separator precedes, unless it is the first item. -/
def readSeparator (separator : Char) (first : Bool) (inner : Text → Option Text) (t : Text) :
    Option Text :=
  if first then inner t
  else
    match t with
    | [] => none
    | c :: t => if c = separator then inner t else none

def readIpv4 (t : Text) : Option Text := do
  let octet := readNumber 10 3 256 false
  let t ← readSeparator '.' true octet t
  let t ← readSeparator '.' false octet t
  let t ← readSeparator '.' false octet t
  readSeparator '.' false octet t

/-- How many of at most `n` groups were read, and whether they end with an IPv4 address. -/
def readGroups (first : Bool) : ℕ → Text → ℕ × Bool × Text
  | 0, t => (0, false, t)
  | n + 1, t =>
    match if 0 < n then readSeparator ':' first readIpv4 t else none with
    | some t => (2, true, t)
    | none =>
      match readSeparator ':' first (readNumber 16 4 65536 true) t with
      | none => (0, false, t)
      | some t =>
        let (count, ipv4, t) := readGroups false n t
        (count + 1, ipv4, t)

def readIpv6 (t : Text) : Option Text :=
  let (head, ipv4, t) := readGroups true 8 t
  if head = 8 then some t
  else if ipv4 then none
  else
    match t with
    | ':' :: ':' :: t => some (readGroups true (7 - head) t).2.2
    | _ => none

def isIpAddr (t : Text) : Bool :=
  match readIpv4 t with
  | some rest => rest.isEmpty
  | none =>
    match readIpv6 t with
    | some rest => rest.isEmpty
    | none => false

example : isIpAddr "2001:db8::192.0.2.1".toList = true := by decide

example : isIpAddr "192.0.2.01".toList = false := by decide

/-- `str::parse::<u16>`, which accepts a plus sign. -/
def parseU16 (t : Text) : Option ℕ :=
  let digits := match t with
    | '+' :: rest => rest
    | _ => t
  if digits = [] ∨ ¬ digits.all Char.isDigit then none
  else if numberValue 10 digits < 65536 then some (numberValue 10 digits)
  else none

end ProxyFleet.AddressSyntax
