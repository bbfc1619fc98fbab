import BlobDepot.Text.Basic

/-!
# Socket addresses

An internet address and a port. Addresses of the sixth version are written with their longest run of
zero groups left out, and with the last two groups in decimal if they hold a mapped address.
-/

namespace BlobDepot

structure Ipv4 where
  a : UInt8
  b : UInt8
  c : UInt8
  d : UInt8
  deriving DecidableEq

structure Ipv6 where
  groups : List UInt16
  length_eq : groups.length = 8
  deriving DecidableEq

inductive SocketAddress where
  | v4 (ip : Ipv4) (port : UInt16)
  | v6 (ip : Ipv6) (scope : UInt32) (port : UInt16)
  deriving DecidableEq

/-! ## Writing -/

namespace Ipv4

def text (ip : Ipv4) : List Char :=
  let number (n : UInt8) := (Text.decimal n.toNat).toList
  number ip.a ++ '.' :: number ip.b ++ '.' :: number ip.c ++ '.' :: number ip.d

end Ipv4

namespace Ipv6

/-- Where the longest run of zeros begins, and its length. Of runs of one length the first counts. -/
def longestRun (place : Nat) : List UInt16 → Nat × Nat
  | [] => (place, 0)
  | g :: r =>
    let later := longestRun (place + 1) r
    let here := ((g :: r).takeWhile (· == 0)).length
    if later.2 ≤ here then (place, here) else later

def groupTexts (l : List UInt16) : List Char :=
  [':'].intercalate (l.map fun g => Nat.toDigits 16 g.toNat)

def text (ip : Ipv6) : List Char :=
  match ip.groups with
  | [0, 0, 0, 0, 0, 0xffff, g, h] =>
    let byte (n : Nat) := UInt8.ofNat n
    ':' :: ':' :: 'f' :: 'f' :: 'f' :: 'f' :: ':' ::
      Ipv4.text ⟨byte (g.toNat / 256), byte g.toNat, byte (h.toNat / 256), byte h.toNat⟩
  | groups =>
    let (start, length) := longestRun 0 groups
    if 1 < length then
      groupTexts (groups.take start) ++ ':' :: ':' :: groupTexts (groups.drop (start + length))
    else groupTexts groups

end Ipv6

namespace SocketAddress

def text : SocketAddress → String
  | v4 ip port => String.ofList (ip.text ++ ':' :: (Text.decimal port.toNat).toList)
  | v6 ip scope port =>
    let scopeText := if scope = 0 then [] else '%' :: (Text.decimal scope.toNat).toList
    String.ofList <|
      '[' :: ip.text ++ scopeText ++ ']' :: ':' :: (Text.decimal port.toNat).toList

/-! ## Reading -/

def hexValue? (c : Char) : Option Nat :=
  if c.toNat < 128 then Text.Hex.value? (UInt8.ofNat c.toNat) else none

def takeNumber? (base limit : Nat) (value? : Char → Option Nat) (l : List Char) :
    Option (Nat × List Char) :=
  let digits := l.takeWhile fun c => (value? c).isSome
  let n := digits.foldl (fun n c => base * n + (value? c).getD 0) 0
  if digits.isEmpty || limit ≤ n then none else some (n, l.drop digits.length)

def takeDecimal? (limit : Nat) (l : List Char) : Option (Nat × List Char) :=
  takeNumber? 10 limit Text.digitValue? l

/-- One to three digits below 256. A number of several digits does not begin with zero. -/
def takeOctet? (l : List Char) : Option (UInt8 × List Char) := do
  let (n, r) ← takeDecimal? 256 l
  guard (l.length - r.length == (Nat.toDigits 10 n).length)
  pure (UInt8.ofNat n, r)

/-- One to four digits. -/
def takeGroup? (l : List Char) : Option (UInt16 × List Char) := do
  let (n, r) ← takeNumber? 16 65536 hexValue? l
  guard (l.length - r.length ≤ 4)
  pure (UInt16.ofNat n, r)

def takeChar? (c : Char) : List Char → Option (List Char)
  | [] => none
  | d :: r => if c = d then some r else none

def takeIpv4? (l : List Char) : Option (Ipv4 × List Char) := do
  let (a, l) ← takeOctet? l
  let (b, l) ← takeOctet? (← takeChar? '.' l)
  let (c, l) ← takeOctet? (← takeChar? '.' l)
  let (d, l) ← takeOctet? (← takeChar? '.' l)
  pure (⟨a, b, c, d⟩, l)

def joinBytes (a b : UInt8) : UInt16 :=
  UInt16.ofNat (256 * a.toNat + b.toNat)

/-- Reads up to `n` groups, and says whether the last two were written as an address of the fourth
version. All but the very first group follow a colon. -/
def takeGroups : Nat → Bool → List Char → List UInt16 × Bool × List Char
  | 0, _, l => ([], false, l)
  | n + 1, isFirst, l =>
    let start? := if isFirst then some l else takeChar? ':' l
    let mapped? := if n = 0 then none else start?.bind takeIpv4?
    match mapped? with
    | some (ip, r) => ([joinBytes ip.a ip.b, joinBytes ip.c ip.d], true, r)
    | none =>
      match start?.bind takeGroup? with
      | some (g, r) =>
        let (groups, mapped, r) := takeGroups n false r
        (g :: groups, mapped, r)
      | none => ([], false, l)

def ofGroups? (l : List UInt16) : Option Ipv6 :=
  if h : l.length = 8 then some ⟨l, h⟩ else none

/-- Two colons stand for one group of zeros at least. -/
def takeIpv6? (l : List Char) : Option (Ipv6 × List Char) := do
  let (head, mapped, l) := takeGroups 8 true l
  if head.length = 8 then
    pure (← ofGroups? head, l)
  else
    guard (!mapped)
    let l ← takeChar? ':' (← takeChar? ':' l)
    let (tail, _, l) := takeGroups (7 - head.length) true l
    pure (← ofGroups? (head ++ List.replicate (8 - head.length - tail.length) 0 ++ tail), l)

def takeScope? (l : List Char) : Option (UInt32 × List Char) :=
  match takeChar? '%' l with
  | some l => (takeDecimal? 4294967296 l).map fun p => (UInt32.ofNat p.1, p.2)
  | none => some (0, l)

/-- A port after a colon ends the text. -/
def port? (l : List Char) : Option UInt16 := do
  let (n, r) ← takeDecimal? 65536 (← takeChar? ':' l)
  guard r.isEmpty
  pure (UInt16.ofNat n)

def parseV4? (l : List Char) : Option SocketAddress := do
  let (ip, l) ← takeIpv4? l
  pure (v4 ip (← port? l))

def parseV6? (l : List Char) : Option SocketAddress := do
  let (ip, l) ← takeIpv6? (← takeChar? '[' l)
  let (scope, l) ← takeScope? l
  pure (v6 ip scope (← port? (← takeChar? ']' l)))

def parse? (s : String) : Option SocketAddress :=
  parseV4? s.toList <|> parseV6? s.toList

end SocketAddress

end BlobDepot
