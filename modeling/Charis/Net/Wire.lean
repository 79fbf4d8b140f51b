import Mathlib

/-!
# Bytes on the wire

Network byte order, the Internet checksum and texts of C strings.  Frames are lists
of bytes; reading past the end of one gives zero, which the code never does because
it checks lengths first.
-/

namespace Charis.Net

/-- An IPv4 address, first octet in the highest byte. -/
abbrev Ipv4 := BitVec 32

/-- An Ethernet address, first octet in the highest byte. -/
abbrev Mac := BitVec 48

/-- `write_be16`. -/
def be16 (value : BitVec 16) : List UInt8 :=
  [⟨value.extractLsb' 8 8⟩, ⟨value.extractLsb' 0 8⟩]

/-- `write_be32`. -/
def be32 (value : BitVec 32) : List UInt8 :=
  be16 (value.extractLsb' 16 16) ++ be16 (value.extractLsb' 0 16)

/-- The bytes of an Ethernet address. -/
def macBytes (mac : Mac) : List UInt8 :=
  be16 (mac.extractLsb' 32 16) ++ be32 (mac.extractLsb' 0 32)

/-- The byte at an offset. -/
def byteAt (bytes : List UInt8) (offset : Nat) : BitVec 8 := (bytes.getD offset 0).toBitVec

/-- `read_be16`. -/
def readBe16 (bytes : List UInt8) (offset : Nat) : BitVec 16 :=
  byteAt bytes offset ++ byteAt bytes (offset + 1)

/-- `read_be32`. -/
def readBe32 (bytes : List UInt8) (offset : Nat) : BitVec 32 :=
  readBe16 bytes offset ++ readBe16 bytes (offset + 2)

/-- Read an Ethernet address. -/
def readMac (bytes : List UInt8) (offset : Nat) : Mac :=
  readBe16 bytes offset ++ readBe32 bytes (offset + 2)

/-- Replace the bytes from `offset` on. -/
def splice (bytes : List UInt8) (offset : Nat) (part : List UInt8) : List UInt8 :=
  bytes.take offset ++ part ++ bytes.drop (offset + part.length)

/-- Sum of the big-endian words of a list; an odd byte is the high byte of its word. -/
def sumWords : List UInt8 → Nat
  | [] => 0
  | [last] => last.toNat * 256
  | high :: low :: rest => high.toNat * 256 + low.toNat + sumWords rest

/-- Fold the carries of a sum back in, at most `rounds` times. -/
def foldCarries : (rounds sum : Nat) → Nat
  | 0, sum => sum
  | rounds + 1, sum =>
      if sum / 65536 = 0 then sum else foldCarries rounds (sum % 65536 + sum / 65536)

/-- The end of all checksum routines: three rounds are enough for a 32-bit sum. -/
def onesSum (sum : Nat) : BitVec 16 := BitVec.ofNat 16 (foldCarries 3 sum)

/-- `checksum`. -/
def checksum (bytes : List UInt8) : BitVec 16 := ~~~ onesSum (sumWords bytes)

/-- The words of the pseudo header that TCP and UDP checksums cover. -/
def pseudoHeader (src dst : Ipv4) (protocol length : Nat) : Nat :=
  sumWords (be32 src) + sumWords (be32 dst) + protocol + length

/-- `tcp_checksum_value` and `udp_checksum_value`, by protocol number. -/
def transportChecksum (protocol : Nat) (src dst : Ipv4) (segment : List UInt8) :
    BitVec 16 :=
  ~~~ onesSum (pseudoHeader src dst protocol segment.length + sumWords segment)

/-- `tcp_checksum_valid` and `udp_checksum_valid`: the complement of the sum is
zero. -/
def transportChecksumValid (protocol : Nat) (src dst : Ipv4) (segment : List UInt8) :
    Bool :=
  transportChecksum protocol src dst segment = 0

/-- The bytes of a text without special characters. -/
def ascii (text : String) : List UInt8 := text.toList.map fun char => UInt8.ofNat char.toNat

/-- A decimal digit. -/
def isDigit (byte : UInt8) : Bool := 0x30 ≤ byte && byte ≤ 0x39

/-- The digits of one part of a dotted address, at most three and at most 255. -/
def ipv4Part : List UInt8 → (value digits : Nat) → Option (Nat × List UInt8)
  | [], value, _ => some (value, [])
  | byte :: rest, value, digits =>
      if isDigit byte then
        let value := value * 10 + (byte.toNat - 0x30)
        if value > 255 ∨ digits + 1 > 3 then none else ipv4Part rest value (digits + 1)
      else some (value, byte :: rest)

/-- The parts of a dotted address with `dots` dots left; every part has a digit. -/
def ipv4Parts : (dots : Nat) → List UInt8 → (address : Nat) → Option Nat
  | dots, text, address =>
      if !(text.head?.any isDigit) then none
      else
        match ipv4Part text 0 0 with
        | none => none
        | some (value, rest) =>
            match dots, rest with
            | 0, [] => some (address * 256 + value)
            | dots + 1, 0x2E :: rest => ipv4Parts dots rest (address * 256 + value)
            | _, _ => none
  termination_by structural dots => dots

/-- `parse_ipv4`. -/
def parseIpv4 (text : List UInt8) : Option Ipv4 :=
  (ipv4Parts 3 text 0).map (BitVec.ofNat 32)

end Charis.Net
