import Charis.Net.Tcp

/-!
# Reading back what was written

Fields of a header are found where they were put, and the checksum that goes into a
segment makes the sum of the segment come out right: a segment that one end builds is
accepted by the other.
-/

namespace Charis.Net

variable {κ σ : Type}

@[simp]
theorem length_be16 (value : BitVec 16) : (be16 value).length = 2 := rfl

@[simp]
theorem length_be32 (value : BitVec 32) : (be32 value).length = 4 := rfl

@[simp]
theorem length_macBytes (mac : Mac) : (macBytes mac).length = 6 := rfl

@[simp]
theorem length_ethernetHeader (dest src : Mac) (type : BitVec 16) :
    (ethernetHeader dest src type).length = 14 := rfl

@[simp]
theorem length_ipv4Header (protocol : BitVec 8) (src dst : Ipv4) (length : Nat) :
    (ipv4Header protocol src dst length).length = 20 := rfl

theorem byteAt_drop (bytes : List UInt8) (count offset : Nat) :
    byteAt (bytes.drop count) offset = byteAt bytes (count + offset) := by
  simp [byteAt, List.getD_eq_getElem?_getD]

theorem readBe16_drop (bytes : List UInt8) (count offset : Nat) :
    readBe16 (bytes.drop count) offset = readBe16 bytes (count + offset) := by
  simp only [readBe16, byteAt_drop, Nat.add_assoc]

/-- Reading back a number that was written in network byte order. -/
theorem readBe16_be16 (before : List UInt8) (value : BitVec 16) (after : List UInt8) :
    readBe16 (before ++ (be16 value ++ after)) before.length = value := by
  have dropped := readBe16_drop (before ++ (be16 value ++ after)) before.length 0
  rw [List.drop_left, Nat.add_zero] at dropped
  rw [← dropped]
  simp only [readBe16, byteAt, be16, List.cons_append, List.getD_cons_zero,
    List.getD_cons_succ, Nat.zero_add]
  rw [@BitVec.extractLsb'_append_extractLsb'_eq_extractLsb' 16 8 0 8 8 value rfl]
  exact BitVec.extractLsb'_eq_self

theorem readBe16_ethernetHeader (dest src : Mac) (type : BitVec 16) (rest : List UInt8) :
    readBe16 (ethernetHeader dest src type ++ rest) 12 = type := by
  rw [ethernetHeader, List.append_assoc]
  exact readBe16_be16 (macBytes dest ++ macBytes src) type rest

theorem readBe32_be32 (before : List UInt8) (value : BitVec 32) (after : List UInt8) :
    readBe32 (before ++ (be32 value ++ after)) before.length = value := by
  have high := readBe16_be16 before (value.extractLsb' 16 16)
    (be16 (value.extractLsb' 0 16) ++ after)
  have low := readBe16_be16 (before ++ be16 (value.extractLsb' 16 16))
    (value.extractLsb' 0 16) after
  simp only [List.append_assoc, List.length_append, length_be16] at high low
  simp only [readBe32, be32, List.append_assoc, high, low]
  rw [@BitVec.extractLsb'_append_extractLsb'_eq_extractLsb' 32 16 0 16 16 value rfl]
  exact BitVec.extractLsb'_eq_self

theorem sumWords_append {front : List UInt8} (even : front.length % 2 = 0)
    (back : List UInt8) : sumWords (front ++ back) = sumWords front + sumWords back := by
  induction front using sumWords.induct with
  | case1 => simp [sumWords]
  | case2 last => simp at even
  | case3 high low rest ih =>
      simp only [List.length_cons, Nat.add_assoc] at even
      simp only [List.cons_append, sumWords, ih (by omega), Nat.add_assoc]

theorem sumWords_be16 (value : BitVec 16) : sumWords (be16 value) = value.toNat := by
  simp only [be16, sumWords, UInt8.toNat, BitVec.extractLsb'_toNat,
    Nat.shiftRight_eq_div_pow]
  have := value.isLt
  omega

theorem sumWords_le (bytes : List UInt8) :
    2 * sumWords bytes ≤ 65535 * (bytes.length + 1) := by
  induction bytes using sumWords.induct with
  | case1 => simp [sumWords]
  | case2 last =>
      have := last.toNat_lt
      simp only [sumWords, List.length_cons, List.length_nil]
      omega
  | case3 high low rest ih =>
      have := high.toNat_lt
      have := low.toNat_lt
      simp only [sumWords, List.length_cons]
      omega

/-- Folding the carries of a 32-bit sum gives a 16-bit number with the same remainder. -/
theorem foldCarries_spec {sum : Nat} (fits : sum < 2 ^ 32) :
    foldCarries 3 sum ≤ 65535 ∧ foldCarries 3 sum % 65535 = sum % 65535 ∧
      (0 < sum → 0 < foldCarries 3 sum) := by
  simp only [foldCarries]
  split
  · omega
  split
  · omega
  split <;> omega

theorem onesSum_toNat {sum : Nat} (fits : sum < 2 ^ 32) :
    (onesSum sum).toNat = foldCarries 3 sum := by
  have := (foldCarries_spec fits).1
  rw [onesSum, BitVec.toNat_ofNat, Nat.mod_eq_of_lt (by omega)]

theorem onesSum_completed {sum : Nat} (fits : sum < 2 ^ 31) :
    ~~~ onesSum (sum + (~~~ onesSum sum).toNat) = 0 := by
  have first := foldCarries_spec (show sum < 2 ^ 32 by omega)
  have zero : foldCarries 3 0 = 0 := rfl
  have complement : (~~~ onesSum sum).toNat = 65535 - foldCarries 3 sum := by
    rw [BitVec.toNat_not, onesSum_toNat (by omega)]
  rw [complement]
  have second := @foldCarries_spec (sum + (65535 - foldCarries 3 sum)) (by omega)
  have all : foldCarries 3 (sum + (65535 - foldCarries 3 sum)) = 65535 := by
    rcases Nat.eq_zero_or_pos sum with empty | positive
    · rw [empty, zero] at second ⊢
      omega
    · omega
  apply BitVec.eq_of_toNat_eq
  rw [BitVec.toNat_not, onesSum_toNat (by omega), all]
  rfl

/-- A sum of sixteen bits that is completed by all ones folds to zero if it did before. -/
theorem onesSum_all_ones {sum : Nat} (fits : sum < 2 ^ 31) (positive : 0 < sum)
    (zero : ~~~ onesSum sum = 0) : ~~~ onesSum (sum + 65535) = 0 := by
  have first := @foldCarries_spec sum (by omega)
  have second := @foldCarries_spec (sum + 65535) (by omega)
  have folded : foldCarries 3 sum = 65535 := by
    have complement : (~~~ onesSum sum).toNat = 65535 - foldCarries 3 sum := by
      rw [BitVec.toNat_not, onesSum_toNat (by omega)]
    rw [zero, show (0 : BitVec 16).toNat = 0 from rfl] at complement
    omega
  have all : foldCarries 3 (sum + 65535) = 65535 := by omega
  apply BitVec.eq_of_toNat_eq
  rw [BitVec.toNat_not, onesSum_toNat (by omega), all]
  rfl

theorem pseudoHeader_bounds {protocol length : Nat} (src dst : Ipv4) (known : 0 < protocol)
    (fits : protocol + length < 2 ^ 20) :
    0 < pseudoHeader src dst protocol length ∧
      pseudoHeader src dst protocol length < 2 ^ 21 := by
  have source := sumWords_le (be32 src)
  have destination := sumWords_le (be32 dst)
  rw [length_be32] at source destination
  simp only [pseudoHeader]
  omega

/-- The checksum that was computed with a zero in its place makes the sum right, and so do
all ones instead of a zero. -/
theorem transportChecksumValid_completed {protocol : Nat} {src dst : Ipv4}
    {before after : List UInt8} (known : 0 < protocol ∧ protocol < 256)
    (even : before.length % 2 = 0) (fits : before.length + after.length ≤ 2000)
    {field : BitVec 16}
    (completes : field = transportChecksum protocol src dst (before ++ (be16 0 ++ after)) ∨
      transportChecksum protocol src dst (before ++ (be16 0 ++ after)) = 0 ∧ field = 0xFFFF) :
    transportChecksumValid protocol src dst (before ++ (be16 field ++ after)) = true := by
  have beforeLe := sumWords_le before
  have afterLe := sumWords_le after
  have header := @pseudoHeader_bounds protocol (before.length + (2 + after.length)) src dst
    known.1 (by omega)
  have total : ∀ value, transportChecksum protocol src dst (before ++ (be16 value ++ after)) =
      ~~~ onesSum (pseudoHeader src dst protocol (before.length + (2 + after.length)) +
        sumWords before + sumWords after + value.toNat) := by
    intro value
    rw [transportChecksum, sumWords_append even, sumWords_append (by simp), sumWords_be16,
      List.length_append, List.length_append, length_be16]
    generalize pseudoHeader src dst protocol _ = first
    rw [show first + (sumWords before + (value.toNat + sumWords after)) =
      first + sumWords before + sumWords after + value.toNat by omega]
  rw [total, show (0 : BitVec 16).toNat = 0 from rfl, Nat.add_zero] at completes
  rw [transportChecksumValid, total, decide_eq_true_eq]
  generalize pseudoHeader src dst protocol _ = first at header completes ⊢
  have large : first + sumWords before + sumWords after < 2 ^ 31 := by omega
  rcases completes with same | ⟨zero, ones⟩
  · rw [same]
    exact onesSum_completed large
  · rw [ones]
    exact onesSum_all_ones large (by omega) zero

/-- The fields of a segment before its checksum. -/
def segmentFront (localPort remotePort : BitVec 16) (flags : BitVec 8)
    (sequence acknowledgement : BitVec 32) : List UInt8 :=
  be16 localPort ++ be16 remotePort ++ be32 sequence ++ be32 acknowledgement ++
    [0x50, ⟨flags⟩] ++ be16 4096

theorem tcpSegment_checksum (src dst : Ipv4) (localPort remotePort : BitVec 16)
    (flags : BitVec 8) (sequence acknowledgement : BitVec 32) {payload : List UInt8}
    (fits : payload.length ≤ 1460) :
    transportChecksumValid 6 src dst
      (tcpSegment src dst localPort remotePort flags sequence acknowledgement payload) =
      true := by
  have front : (segmentFront localPort remotePort flags sequence acknowledgement).length = 16 :=
    rfl
  generalize known : segmentFront localPort remotePort flags sequence acknowledgement = before
    at front
  have built : tcpSegment src dst localPort remotePort flags sequence acknowledgement payload =
      before ++ (be16 (transportChecksum 6 src dst (before ++ (be16 0 ++ ([0, 0] ++ payload)))) ++
        ([0, 0] ++ payload)) := by
    simp only [← known, tcpSegment, segmentFront, List.append_assoc]
    rfl
  rw [built]
  apply transportChecksumValid_completed (by simp) (by omega) _ (.inl rfl)
  simp only [List.length_append, List.length_cons, List.length_nil]
  omega

/-- A segment for the connection that one end has built is taken apart by the other. -/
theorem acceptSegment_tcpSegment {world : World κ σ} {sequence acknowledgement : BitVec 32}
    {flags : BitVec 8} {payload : List UInt8} (ready : world.tcp.initialized = true)
    (alive : world.tcp.state ≠ .closed) (fits : payload.length ≤ 1460) :
    acceptSegment world world.tcp.remoteIp world.stack.nic.ipAddr
      (tcpSegment world.tcp.remoteIp world.stack.nic.ipAddr world.tcp.remotePort
        world.tcp.localPort flags sequence acknowledgement payload) =
      some ⟨sequence, acknowledgement, flags, payload⟩ := by
  have valid := tcpSegment_checksum world.tcp.remoteIp world.stack.nic.ipAddr
    world.tcp.remotePort world.tcp.localPort flags sequence acknowledgement fits
  generalize known : tcpSegment _ _ _ _ _ _ _ _ = bytes at valid ⊢
  have sourcePort : readBe16 bytes 0 = world.tcp.remotePort := by
    rw [← known]
    simp only [tcpSegment, List.append_assoc]
    exact readBe16_be16 [] _ _
  have destinationPort : readBe16 bytes 2 = world.tcp.localPort := by
    rw [← known]
    simp only [tcpSegment, List.append_assoc]
    exact readBe16_be16 (be16 _) _ _
  have number : readBe32 bytes 4 = sequence := by
    rw [← known]
    simp only [tcpSegment, List.append_assoc]
    rw [← List.append_assoc]
    exact readBe32_be32 (be16 _ ++ be16 _) _ _
  have answer : readBe32 bytes 8 = acknowledgement := by
    rw [← known]
    simp only [tcpSegment, List.append_assoc]
    rw [← List.append_assoc, ← List.append_assoc]
    exact readBe32_be32 (be16 _ ++ be16 _ ++ be32 _) _ _
  have offset : byteAt bytes 12 = 0x50 := by rw [← known]; rfl
  have bits : byteAt bytes 13 = flags := by rw [← known]; rfl
  have length : bytes.length = 20 + payload.length := by
    rw [← known]
    simp [tcpSegment]
    omega
  have rest : bytes.drop 20 = payload := by rw [← known]; rfl
  have header : (0x50 : BitVec 8).toNat / 16 * 4 = 20 := rfl
  simp only [acceptSegment, offset, header, ready, alive, length, valid, sourcePort,
    destinationPort, number, answer, bits, rest]
  simp

end Charis.Net
