import PicoSentry.Foundation.Json

namespace PicoSentry.Foundation

inductive IpAddress where
  | v4 (value : Nat)
  | v6 (value : Nat)
  deriving DecidableEq, Repr

structure IpNetwork where
  address : IpAddress
  maskBits : Nat
  deriving DecidableEq, Repr

namespace IpAddress

def parseOctet (s : Str) : Option Nat :=
  if s = [] ∨ s.all isDigit = false ∨ 3 < s.length then none
  else if s ≠ ['0'] ∧ s.head? = some '0' then none
  else if 255 < digitsValue 0 s then none
  else some (digitsValue 0 s)

def groupsValue (base : Nat) (groups : List Nat) : Nat := groups.foldl (fun v g => base * v + g) 0

def parseIpv4 (s : Str) : Option Nat := do
  let octets ← (s.splitOn '.').mapM parseOctet
  if octets.length = 4 then some (groupsValue 256 octets) else none

def parseHextet (s : Str) : Option Nat :=
  if s = [] ∨ 4 < s.length then none else (s.mapM Json.hexValue).map (groupsValue 16)

def hexText (n : Nat) : Str := Nat.toDigits 16 n

-- A dotted quad in the last place stands for two groups.
def expandEmbedded (parts : List Str) : Option (List Str) :=
  match parts.getLast? with
  | none => none
  | some last =>
    if last.contains '.' then do
      let v ← parseIpv4 last
      return parts.dropLast ++ [hexText (v / 65536), hexText (v % 65536)]
    else some parts

def emptyInside (parts : List Str) : List Nat :=
  (List.range (parts.length - 1)).filter fun i => i ≠ 0 ∧ parts[i]? = some []

def ipv6Groups (parts : List Str) : Option (List Nat) :=
  let noFirst := parts.head? = some []
  let noLast := parts.getLast? = some []
  match emptyInside parts with
  | [] => if parts.length ≠ 8 ∨ noFirst ∨ noLast then none else parts.mapM parseHextet
  | [skip] =>
    let high := if noFirst then skip - 1 else skip
    let low := if noLast then parts.length - skip - 2 else parts.length - skip - 1
    if (noFirst ∧ high ≠ 0) ∨ (noLast ∧ low ≠ 0) ∨ 8 ≤ high + low then none
    else do
      let upper ← (parts.take high).mapM parseHextet
      let lower ← (parts.drop (parts.length - low)).mapM parseHextet
      return upper ++ List.replicate (8 - (high + low)) 0 ++ lower
  | _ => none

def dropScope (s : Str) : Option Str :=
  match s.dropWhile (· ≠ '%') with
  | [] => some s
  | _ :: scope =>
    if scope = [] ∨ scope.contains '%' then none else some (s.takeWhile (· ≠ '%'))

def parseIpv6 (s : Str) : Option Nat := do
  let address ← dropScope s
  let parts := address.splitOn ':'
  if parts.length < 3 then none
  else do
    let parts ← expandEmbedded parts
    if 9 < parts.length then none
    else do
      let groups ← ipv6Groups parts
      return groupsValue 65536 groups

def parse (s : Str) : Option IpAddress :=
  if s.contains '/' then none else ((parseIpv4 s).map .v4).or ((parseIpv6 s).map .v6)

example : (["127.0.0.1", "::1", "fd00::7", "::ffff:10.0.0.1", "fe80::1%eth0", "01.2.3.4", "1::2::3",
      "1:2:3:4:5:6:7:8"].map fun s => parse s.toList) =
    [some (.v4 2130706433), some (.v6 1), some (.v6 (0xfd00 * 2 ^ 112 + 7)),
      some (.v6 (0xffff * 2 ^ 32 + 167772161)), some (.v6 (0xfe80 * 2 ^ 112 + 1)), none, none,
      some (.v6 0x00010002000300040005000600070008)] := by
  decide +kernel

end IpAddress

def IpNetwork.contains (network : IpNetwork) (ip : IpAddress) : Bool :=
  match network.address, ip with
  | .v4 a, .v4 b => a / 2 ^ (32 - network.maskBits) = b / 2 ^ (32 - network.maskBits)
  | .v6 a, .v6 b => a / 2 ^ (128 - network.maskBits) = b / 2 ^ (128 - network.maskBits)
  | _, _ => false

end PicoSentry.Foundation
