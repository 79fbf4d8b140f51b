import Charis.Net.EchoReplies

/-!
# Encoded names

A name is a list of labels, each after its length, and ends with a zero or with a pointer
to the rest of it.  A host name is written with dots between its labels instead.
-/

namespace Charis.Net

variable {κ σ : Type}

/-- A label with at most 63 bytes. -/
structure DnsLabel where
  bytes : List UInt8
  filled : 0 < bytes.length
  short : bytes.length ≤ 63

/-- A label after its length. -/
def DnsLabel.encode (label : DnsLabel) : List UInt8 :=
  UInt8.ofNat label.bytes.length :: label.bytes

/-- What comes after the labels that are written out: nothing more, or a pointer to the
other labels. -/
inductive NameEnd where
  | root
  | pointer (high : BitVec 6) (low : BitVec 8)

def NameEnd.encode : NameEnd → List UInt8
  | .root => [0]
  | .pointer high low => [⟨3#2 ++ high⟩, ⟨low⟩]

/-- A name of at most 255 bytes, of which some labels are written out. -/
structure DnsName where
  labels : List DnsLabel
  ending : NameEnd
  fits : (labels.map fun label => label.bytes.length + 1).sum + 1 ≤ 255

def DnsName.encode (name : DnsName) : List UInt8 :=
  name.labels.flatMap DnsLabel.encode ++ name.ending.encode

theorem byteAt_append_self (before : List UInt8) (byte : UInt8) (after : List UInt8) :
    byteAt (before ++ byte :: after) before.length = byte.toBitVec := by
  have found := byteAt_drop (before ++ byte :: after) before.length 0
  rw [List.drop_left, Nat.add_zero] at found
  exact found.symm

theorem labelLength_byte {length : Nat} (filled : 0 < length) (short : length ≤ 63) :
    (UInt8.ofNat length).toBitVec &&& 0xC0 = 0 ∧ (UInt8.ofNat length).toBitVec ≠ 0 ∧
      (UInt8.ofNat length).toBitVec.toNat = length := by
  have all : ∀ length < 64, 0 < length → (UInt8.ofNat length).toBitVec &&& 0xC0 = 0 ∧
      (UInt8.ofNat length).toBitVec ≠ 0 ∧
      (UInt8.ofNat length).toBitVec.toNat = length := by decide
  exact all length (Nat.lt_succ_of_le short) filled

theorem skipName_label (before : List UInt8) (label : DnsLabel) (after : List UInt8)
    (steps : Nat) :
    skipName (before ++ (label.encode ++ after)) (steps + 1) before.length =
      skipName (before ++ (label.encode ++ after)) steps
        (before.length + label.encode.length) := by
  obtain ⟨plain, filled, length⟩ := labelLength_byte label.filled label.short
  have byte : byteAt (before ++ (label.encode ++ after)) before.length =
      (UInt8.ofNat label.bytes.length).toBitVec := byteAt_append_self ..
  have total : (before ++ (label.encode ++ after)).length =
      before.length + (label.bytes.length + 1) + after.length := by
    simp only [DnsLabel.encode, List.length_append, List.length_cons]
    omega
  have flagged : ¬ ((0 : BitVec 8) = 0xC0) := by decide
  rw [skipName, if_neg (by omega)]
  dsimp only
  rw [byte, plain, if_neg flagged, if_neg (fun other => other rfl), if_neg filled, length,
    if_neg (by omega), DnsLabel.encode, List.length_cons]
  congr 1
  omega

theorem skipName_ending (before : List UInt8) (ending : NameEnd) (after : List UInt8)
    (steps : Nat) :
    skipName (before ++ (ending.encode ++ after)) (steps + 1) before.length =
      some (before.length + ending.encode.length) := by
  cases ending with
  | root =>
      have byte : byteAt (before ++ (NameEnd.root.encode ++ after)) before.length = 0 :=
        byteAt_append_self ..
      have total : (before ++ (NameEnd.root.encode ++ after)).length =
          before.length + 1 + after.length := by
        simp only [NameEnd.encode, List.length_append, List.length_cons, List.length_nil]
        omega
      rw [skipName, if_neg (by omega)]
      dsimp only
      rw [byte]
      rfl
  | pointer high low =>
  have byte : byteAt (before ++ ((NameEnd.pointer high low).encode ++ after))
      before.length = 3#2 ++ high := byteAt_append_self ..
  have total : (before ++ ((NameEnd.pointer high low).encode ++ after)).length =
      before.length + 2 + after.length := by
    simp only [NameEnd.encode, List.length_append, List.length_cons, List.length_nil]
    omega
  have marked : ∀ high : BitVec 6, (3#2 ++ high : BitVec 8) &&& 0xC0 = 0xC0 := by decide
  rw [skipName, if_neg (by omega)]
  dsimp only
  rw [byte, marked, if_pos rfl, if_neg (by omega)]
  rfl

theorem skipName_labels (before : List UInt8) (labels : List DnsLabel) (ending : NameEnd)
    (after : List UInt8) (steps : Nat) :
    skipName (before ++ (labels.flatMap DnsLabel.encode ++ (ending.encode ++ after)))
        (labels.length + 1 + steps) before.length =
      some (before.length + (labels.flatMap DnsLabel.encode).length +
        ending.encode.length) := by
  induction labels generalizing before with
  | nil =>
      simp only [List.flatMap_nil, List.nil_append, List.length_nil, Nat.add_zero, Nat.zero_add]
      rw [Nat.add_comm 1]
      exact skipName_ending before ending after steps
  | cons label labels ih =>
  have shape : before ++ ((label :: labels).flatMap DnsLabel.encode ++
      (ending.encode ++ after)) = before ++ (label.encode ++
      (labels.flatMap DnsLabel.encode ++ (ending.encode ++ after))) := by
    rw [List.flatMap_cons, List.append_assoc]
  have deeper := ih (before ++ label.encode)
  rw [List.append_assoc, List.length_append] at deeper
  have budget : (label :: labels).length + 1 + steps = labels.length + 1 + steps + 1 := by
    rw [List.length_cons]
    omega
  rw [shape, budget, skipName_label, deeper, List.flatMap_cons, List.length_append]
  congr 1
  omega

theorem DnsName.length_labels (name : DnsName) : name.labels.length ≤ 127 := by
  have fits := name.fits
  have each : ∀ labels : List DnsLabel, 2 * labels.length ≤
      (labels.map fun label => label.bytes.length + 1).sum := by
    intro labels
    induction labels with
    | nil => exact Nat.le_refl 0
    | cons label labels ih =>
        have filled := label.filled
        rw [List.map_cons, List.sum_cons, List.length_cons]
        omega
  have count := each name.labels
  omega

theorem skipName_encode (before : List UInt8) (name : DnsName) (after : List UInt8) :
    skipName (before ++ (name.encode ++ after)) 128 before.length =
      some (before.length + name.encode.length) := by
  have few := name.length_labels
  have skipped := skipName_labels before name.labels name.ending after
    (127 - name.labels.length)
  rw [show name.labels.length + 1 + (127 - name.labels.length) = 128 by omega] at skipped
  rw [DnsName.encode, List.append_assoc, skipped, List.length_append, Nat.add_assoc]

/-- The characters of which the labels of a host name are made. -/
def hostAlphabet : List UInt8 :=
  ascii "abcdefghijklmnopqrstuvwxyzABCDEFGHIJKLMNOPQRSTUVWXYZ0123456789-"

/-- A label of a host name. -/
structure HostLabel (label : List UInt8) : Prop where
  filled : 1 ≤ label.length
  short : label.length ≤ 63
  characters : ∀ byte ∈ label, byte ∈ hostAlphabet

/-- A host name is its labels with dots between them. -/
structure HostName (host : List UInt8) (labels : List (List UInt8)) : Prop where
  all : ∀ label ∈ labels, HostLabel label
  text : host = [0x2E].intercalate labels
  length : 1 ≤ host.length ∧ host.length ≤ 253

/-- The labels of an encoded name that ends with a zero. -/
def decodeLabels : (steps : Nat) → List UInt8 → Option (List (List UInt8))
  | 0, _ => none
  | _ + 1, [] => none
  | steps + 1, length :: rest =>
      if length = 0 then if rest = [] then some [] else none
      else if rest.length < length.toNat then none
      else (decodeLabels steps (rest.drop length.toNat)).map (rest.take length.toNat :: ·)

/-- The host name that an encoded name stands for. -/
def decodeHostname (encoded : List UInt8) : Option (List UInt8) :=
  (decodeLabels encoded.length encoded).map [0x2E].intercalate

/-- Labels after their lengths. -/
def prefixLabels (labels : List (List UInt8)) : List UInt8 :=
  labels.flatMap fun label => UInt8.ofNat label.length :: label

theorem prefixLabels_cons (label : List UInt8) (labels : List (List UInt8)) :
    prefixLabels (label :: labels) =
      (UInt8.ofNat label.length :: label) ++ prefixLabels labels :=
  List.flatMap_cons

/-- The bytes from a first one on. -/
theorem mem_run {byte : UInt8} {first count : Nat} (small : first + count ≤ 256) :
    byte ∈ (List.range' first count).map UInt8.ofNat ↔
      first ≤ byte.toNat ∧ byte.toNat < first + count := by
  rw [List.mem_map]
  constructor
  · rintro ⟨value, inside, rfl⟩
    rw [List.mem_range'_1] at inside
    rw [UInt8.toNat_ofNat', Nat.mod_eq_of_lt (by omega)]
    exact inside
  · intro inside
    exact ⟨byte.toNat, List.mem_range'_1.mpr inside, UInt8.ofNat_toNat⟩

theorem isHostChar_iff (byte : UInt8) : isHostChar byte = true ↔ byte ∈ hostAlphabet := by
  have spelled : hostAlphabet = (List.range' 0x61 26).map UInt8.ofNat ++
      ((List.range' 0x41 26).map UInt8.ofNat ++
        ((List.range' 0x30 10).map UInt8.ofNat ++ [0x2D])) := by decide +kernel
  rw [spelled, List.mem_append, List.mem_append, List.mem_append, mem_run (by decide),
    mem_run (by decide), mem_run (by decide), List.mem_singleton]
  simp only [isHostChar, isDigit, Bool.or_eq_true, Bool.and_eq_true, decide_eq_true_eq,
    UInt8.le_iff_toNat_le, ← UInt8.toNat_inj, UInt8.reduceToNat]
  omega

theorem encodeLabel_eq_some {label bytes : List UInt8} :
    encodeLabel label = some bytes ↔
      HostLabel label ∧ UInt8.ofNat label.length :: label = bytes := by
  have characters : label.all isHostChar = true ↔ ∀ byte ∈ label, byte ∈ hostAlphabet := by
    rw [List.all_eq_true]
    exact forall₂_congr fun byte _ => isHostChar_iff byte
  unfold encodeLabel
  split
  · next bad =>
    constructor
    · intro impossible
      cases impossible
    · rintro ⟨good, -⟩
      have filled := good.filled
      have short := good.short
      rcases bad with empty | long | other
      · omega
      · omega
      · rw [characters.mpr good.characters] at other
        cases other
  · next good =>
    simp only [not_or, Bool.not_eq_true', Bool.not_eq_false] at good
    rw [Option.some.injEq]
    constructor
    · intro same
      exact ⟨⟨Nat.pos_of_ne_zero good.1, not_lt.mp good.2.1, characters.mp good.2.2⟩, same⟩
    · exact And.right

theorem HostLabel.no_dot {label : List UInt8} (good : HostLabel label) :
    ∀ byte ∈ label, byte ≠ 0x2E := by
  rintro byte member rfl
  exact absurd (good.characters _ member) (by decide)

theorem encodeLabels_sound {label text bytes : List UInt8}
    (encoded : encodeLabels label text = some bytes) :
    ∃ labels, labels ≠ [] ∧ (∀ label ∈ labels, HostLabel label) ∧
      [0x2E].intercalate labels = label ++ text ∧ prefixLabels labels = bytes := by
  induction text generalizing label bytes with
  | nil =>
      obtain ⟨good, same⟩ := encodeLabel_eq_some.mp encoded
      refine ⟨[label], List.cons_ne_nil _ _, ?_, ?_, ?_⟩
      · intro other member
        rw [List.mem_singleton.mp member]
        exact good
      · rw [List.intercalate_singleton, List.append_nil]
      · rw [prefixLabels, List.flatMap_singleton, same]
  | cons byte rest ih =>
  rw [encodeLabels] at encoded
  split at encoded
  · next dot =>
    split at encoded
    · cases encoded
    next head first =>
    obtain ⟨good, same⟩ := encodeLabel_eq_some.mp first
    obtain ⟨tail, others, joined⟩ := Option.map_eq_some_iff.mp encoded
    obtain ⟨labels, filled, all, text, inner⟩ := ih others
    refine ⟨label :: labels, List.cons_ne_nil _ _, ?_, ?_, ?_⟩
    · intro other member
      rcases List.mem_cons.mp member with rfl | member
      · exact good
      · exact all other member
    · rw [List.intercalate_cons_of_ne_nil filled, text, dot]
      simp
    · rw [prefixLabels_cons, same, inner, joined]
  · obtain ⟨labels, filled, all, text, inner⟩ := ih encoded
    exact ⟨labels, filled, all, by rw [text, List.append_assoc]; rfl, inner⟩

theorem encodeLabels_append (label : List UInt8) {part : List UInt8}
    (noDot : ∀ byte ∈ part, byte ≠ 0x2E) (rest : List UInt8) :
    encodeLabels label (part ++ rest) = encodeLabels (label ++ part) rest := by
  induction part generalizing label with
  | nil => rw [List.nil_append, List.append_nil]
  | cons byte part ih =>
      rw [List.cons_append, encodeLabels, if_neg (noDot byte List.mem_cons_self),
        ih _ fun other member => noDot other (List.mem_cons_of_mem _ member), List.append_assoc]
      rfl

theorem encodeLabels_complete {labels : List (List UInt8)} (filled : labels ≠ [])
    (all : ∀ label ∈ labels, HostLabel label) :
    encodeLabels [] ([0x2E].intercalate labels) = some (prefixLabels labels) := by
  induction labels with
  | nil => exact absurd rfl filled
  | cons label labels ih =>
  have good := all label List.mem_cons_self
  have first := encodeLabel_eq_some.mpr ⟨good, rfl⟩
  cases labels with
  | nil =>
      have whole := encodeLabels_append [] good.no_dot []
      rw [List.append_nil, List.nil_append] at whole
      rw [List.intercalate_singleton, whole, encodeLabels, first, prefixLabels,
        List.flatMap_singleton]
  | cons next labels =>
  have others := ih (List.cons_ne_nil _ _) fun other member =>
    all other (List.mem_cons_of_mem _ member)
  have text : [0x2E].intercalate (label :: next :: labels) =
      label ++ (0x2E :: [0x2E].intercalate (next :: labels)) := by
    rw [List.intercalate_cons_cons, List.append_assoc]
    rfl
  rw [text, encodeLabels_append [] good.no_dot, List.nil_append, encodeLabels,
    if_pos rfl, first]
  simp only
  rw [others, Option.map_some, prefixLabels_cons label]

theorem length_prefixLabels {labels : List (List UInt8)} (filled : labels ≠ []) :
    (prefixLabels labels).length = ([0x2E].intercalate labels).length + 1 := by
  induction labels with
  | nil => exact absurd rfl filled
  | cons label labels ih =>
  cases labels with
  | nil =>
      rw [List.intercalate_singleton, prefixLabels, List.flatMap_singleton, List.length_cons]
  | cons next labels =>
      have deeper := ih (List.cons_ne_nil _ _)
      rw [List.intercalate_cons_cons, prefixLabels_cons, List.length_append, deeper]
      simp only [List.length_append, List.length_cons, List.length_nil]
      omega

theorem decodeLabels_prefixLabels {labels : List (List UInt8)}
    (all : ∀ label ∈ labels, HostLabel label) (steps : Nat) :
    decodeLabels (labels.length + 1 + steps) (prefixLabels labels ++ [0]) = some labels := by
  induction labels with
  | nil =>
      rw [List.length_nil, Nat.zero_add, Nat.add_comm]
      rfl
  | cons label labels ih =>
  have good := all label List.mem_cons_self
  obtain ⟨-, filled, length⟩ := labelLength_byte good.filled good.short
  have nonzero : UInt8.ofNat label.length ≠ 0 := by
    intro zero
    rw [zero] at filled
    exact filled rfl
  have count : (UInt8.ofNat label.length).toNat = label.length := length
  have budget : (label :: labels).length + 1 + steps = labels.length + 1 + steps + 1 := by
    rw [List.length_cons]
    omega
  have others := ih fun other member => all other (List.mem_cons_of_mem _ member)
  have shape : prefixLabels (label :: labels) ++ [0] =
      UInt8.ofNat label.length :: (label ++ (prefixLabels labels ++ [0])) := by
    rw [prefixLabels_cons, List.append_assoc]
    rfl
  rw [budget, shape, decodeLabels, if_neg nonzero, count, if_neg, List.drop_left,
    List.take_left, others]
  · rfl
  · rw [List.length_append]
    omega

theorem HostName.ne_nil {host : List UInt8} {labels : List (List UInt8)}
    (name : HostName host labels) : labels ≠ [] := by
  rintro rfl
  have length := name.length.1
  rw [name.text] at length
  cases length

theorem encodeHostname_eq_some {host encoded : List UInt8} :
    encodeHostname host = some encoded ↔
      ∃ labels, HostName host labels ∧ prefixLabels labels ++ [0] = encoded := by
  unfold encodeHostname
  split
  · next bad =>
    constructor
    · intro impossible
      cases impossible
    · rintro ⟨labels, name, -⟩
      have length := name.length
      omega
  next good =>
  rw [not_or] at good
  rw [Option.map_eq_some_iff]
  constructor
  · rintro ⟨bytes, found, same⟩
    obtain ⟨labels, -, all, text, inner⟩ := encodeLabels_sound found
    exact ⟨labels, ⟨all, text.symm, by omega⟩, by rw [inner, same]⟩
  · rintro ⟨labels, name, same⟩
    have inner := encodeLabels_complete name.ne_nil name.all
    rw [← name.text] at inner
    exact ⟨prefixLabels labels, inner, same⟩

section HostName

variable {host : List UInt8} {labels : List (List UInt8)}

theorem HostName.length_encoded (name : HostName host labels) :
    (prefixLabels labels ++ [0]).length = host.length + 2 := by
  rw [List.length_append, length_prefixLabels name.ne_nil, ← name.text]
  rfl

theorem length_le_prefixLabels (labels : List (List UInt8)) :
    labels.length ≤ (prefixLabels labels).length := by
  induction labels with
  | nil => exact Nat.le_refl 0
  | cons label labels ih =>
      rw [prefixLabels_cons, List.length_append, List.length_cons, List.length_cons]
      omega

theorem HostName.decode (name : HostName host labels) :
    decodeHostname (prefixLabels labels ++ [0]) = some host := by
  have few := length_le_prefixLabels labels
  have decoded := decodeLabels_prefixLabels name.all
    ((prefixLabels labels).length - labels.length)
  rw [decodeHostname, List.length_append, List.length_singleton,
    show (prefixLabels labels).length + 1 =
      labels.length + 1 + ((prefixLabels labels).length - labels.length) by omega,
    decoded, Option.map_some, ← name.text]

theorem HostName.dnsName (name : HostName host labels) :
    ∃ dnsName : DnsName, dnsName.encode = prefixLabels labels ++ [0] := by
  have lift : ∀ labels : List (List UInt8), (∀ label ∈ labels, HostLabel label) →
      ∃ written : List DnsLabel, written.map DnsLabel.bytes = labels := by
    intro labels all
    induction labels with
    | nil => exact ⟨[], rfl⟩
    | cons label labels ih =>
        have good := all label List.mem_cons_self
        obtain ⟨written, same⟩ := ih fun other member => all other (List.mem_cons_of_mem _ member)
        exact ⟨⟨label, good.filled, good.short⟩ :: written, by rw [List.map_cons, same]⟩
  obtain ⟨written, same⟩ := lift labels name.all
  have encoded : written.flatMap DnsLabel.encode = prefixLabels labels := by
    rw [← same, prefixLabels, List.flatMap_map]
    rfl
  have total : (written.map fun label => label.bytes.length + 1).sum =
      (prefixLabels labels).length := by
    rw [← encoded, List.length_flatMap]
    rfl
  have length := name.length_encoded
  have bound := name.length.2
  rw [List.length_append, List.length_singleton] at length
  refine ⟨⟨written, .root, by omega⟩, ?_⟩
  rw [DnsName.encode, encoded]
  rfl

end HostName

/-- `encode_hostname` accepts exactly the host names, their encoding is short and can be
read back, and in a query `skip_name` stops where the type of the question is. -/
theorem encode_hostname_correct (host : List UInt8) :
    ((encodeHostname host).isSome = true ↔ ∃ labels, HostName host labels) ∧
      ∀ encoded, encodeHostname host = some encoded →
        encoded.length ≤ 255 ∧ decodeHostname encoded = some host ∧
        ∀ (world after : World κ σ) (key : κ), netDnsQuery world host key = (true, after) →
          skipName after.dns.queryPacket 128 12 = some (12 + encoded.length) ∧
            after.dns.queryPacket.drop (12 + encoded.length) = be16 1 ++ be16 1 := by
  constructor
  · rw [Option.isSome_iff_exists]
    constructor
    · rintro ⟨encoded, found⟩
      obtain ⟨labels, name, -⟩ := encodeHostname_eq_some.mp found
      exact ⟨labels, name⟩
    · rintro ⟨labels, name⟩
      exact ⟨_, encodeHostname_eq_some.mpr ⟨labels, name, rfl⟩⟩
  intro encoded found
  obtain ⟨labels, name, rfl⟩ := encodeHostname_eq_some.mp found
  have length := name.length_encoded
  have bound := name.length.2
  refine ⟨by omega, name.decode, ?_⟩
  intro world after key accepted
  have packet : ∃ id, after.dns.queryPacket = queryPacket id (prefixLabels labels ++ [0]) := by
    unfold netDnsQuery at accepted
    split at accepted
    · cases accepted
    · rw [found, Prod.mk.injEq] at accepted
      exact ⟨_, by rw [← accepted.2]⟩
  obtain ⟨id, same⟩ := packet
  obtain ⟨dnsName, encode⟩ := name.dnsName
  have shape : queryPacket id (prefixLabels labels ++ [0]) =
      (be16 id ++ be16 0x0100 ++ be16 1 ++ be16 0 ++ be16 0 ++ be16 0) ++
        (dnsName.encode ++ (be16 1 ++ be16 1)) := by
    rw [queryPacket, encode]
    simp only [List.append_assoc]
  have front : (be16 id ++ be16 0x0100 ++ be16 1 ++ be16 0 ++ be16 0 ++ be16 0).length = 12 :=
    rfl
  rw [same, shape, ← encode]
  have skipped := skipName_encode
    (be16 id ++ be16 0x0100 ++ be16 1 ++ be16 0 ++ be16 0 ++ be16 0) dnsName
    (be16 1 ++ be16 1)
  rw [front] at skipped
  refine ⟨skipped, ?_⟩
  rw [← List.append_assoc, List.drop_left']
  rw [List.length_append, front]

end Charis.Net
