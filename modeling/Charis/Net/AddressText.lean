import Charis.Lib.Access
import Charis.Text.Numbers

/-!
# Dotted addresses in memory

The network stack and the name resolver each have a parser for dotted addresses.  Both are the
same loop over the four parts of a string in memory, and they accept the dotted addresses of the
grammar and nothing else.

The address zero is the null pointer.
-/

namespace Charis.Net.AddressText

open Charis.Lib Charis.Lib.Access Charis.Text

/-- The octets of an address, `u8 out[4]`. -/
abbrev Octets : Type := Fin 4 → UInt8

/-- The loop over the digits of a part, and where it stops.  It stops in the fourth round at the
latest. -/
def partLoop : (rounds s value digits : Nat) → Access (Option (Nat × Nat))
  | 0, _, _, _ => pure none
  | rounds + 1, s, value, digits => do
      let c ← load s
      if isDigit c then
        let value := (value * 10 + (c.toNat - '0'.toNat)) % 2 ^ 32
        if 255 < value ∨ 3 < digits + 1 then pure none
        else partLoop rounds (s + 1) value (digits + 1)
      else pure (some (value, s))

/-- The loop of `parse_ipv4` over the parts that are left. -/
def partsLoop : (left s : Nat) → Octets → Access (Bool × Octets)
  | 0, _, out => pure (true, out)
  | left + 1, s, out => do
      let c ← load s
      if !isDigit c then pure (false, out)
      else
        match ← partLoop 4 s 0 0 with
        | none => pure (false, out)
        | some (value, s) => do
            let out := Function.update out (Fin.ofNat 4 (3 - left)) value.toUInt8
            let c ← load s
            if 0 < left then
              if c ≠ '.'.toUInt8 then pure (false, out) else partsLoop left (s + 1) out
            else if c ≠ 0 then pure (false, out)
            else partsLoop left s out

/-- The text that both copies of `parse_ipv4` have. -/
def parseDotted (s : Nat) (out : Octets) : Access (Bool × Octets) :=
  if s = 0 then pure (false, out)
  else do
    let c ← load s
    if c = 0 then pure (false, out) else partsLoop 4 s out

/-- `parse_ipv4` of the network stack. -/
def NetStack.parseIpv4 (s : Nat) (out : Octets) : Access (Bool × Octets) := parseDotted s out

/-- `parse_ipv4` of the name resolver. -/
def Dns.parseIpv4 (s : Nat) (out : Octets) : Access (Bool × Octets) := parseDotted s out

/-- A group is one to three digits for an octet. -/
structure IsOctet (group : List UInt8) (octet : UInt8) : Prop where
  digits : ∀ c ∈ group, isDigit c
  ne_nil : group ≠ []
  short : group.length ≤ 3
  value : decimalFrom 0 group = octet.toNat

/-- A text is groups for some octets with single dots between them. -/
def Dotted : (octets : List UInt8) → (text : List UInt8) → Prop
  | [], _ => False
  | [octet], text => IsOctet text octet
  | octet :: octets, text =>
      ∃ group rest, text = group ++ '.'.toUInt8 :: rest ∧ IsOctet group octet ∧
        Dotted octets rest

/-- A text is a dotted address with some octets. -/
def IsAddress (text : List UInt8) (octets : Octets) : Prop :=
  ∃ a b c d, text = a ++ '.'.toUInt8 :: (b ++ '.'.toUInt8 :: (c ++ '.'.toUInt8 :: d)) ∧
    IsOctet a (octets 0) ∧ IsOctet b (octets 1) ∧ IsOctet c (octets 2) ∧ IsOctet d (octets 3)

section Part

variable {value digits : Nat} {text group rest : List UInt8}

/-- A digit belongs to the group in front of anything but a digit. -/
theorem exists_cons_of_isDigit {c : UInt8} (digit : isDigit c = true)
    (stops : rest.head?.any isDigit = false) (whole : c :: text = group ++ rest) :
    ∃ tail, group = c :: tail ∧ text = tail ++ rest := by
  cases group with
  | nil =>
      rw [← List.nil_append rest, ← whole, List.head?_cons, Option.any_some, digit] at stops
      cases stops
  | cons d tail =>
      obtain ⟨rfl, same⟩ := List.cons_eq_cons.mp whole
      exact ⟨tail, rfl, same⟩

theorem ipv4Part_eq_some {result : Nat} (byte : value ≤ 255) (few : digits ≤ 3) :
    ipv4Part text value digits = some (result, rest) ↔
      ∃ group, text = group ++ rest ∧ (∀ c ∈ group, isDigit c) ∧
        rest.head?.any isDigit = false ∧ decimalFrom value group = result ∧ result ≤ 255 ∧
        digits + group.length ≤ 3 := by
  induction text generalizing value digits with
  | nil =>
      rw [ipv4Part, Option.some_inj, Prod.mk.injEq]
      constructor
      · rintro ⟨rfl, rfl⟩
        exact ⟨[], rfl, nofun, rfl, rfl, byte, few⟩
      · rintro ⟨group, whole, -, -, same, -, -⟩
        obtain ⟨rfl, rfl⟩ := List.append_eq_nil_iff.mp whole.symm
        exact ⟨same, rfl⟩
  | cons c text ih =>
  rw [ipv4Part]
  by_cases digit : isDigit c = true
  · rw [if_pos digit]
    dsimp only
    by_cases refused : value * 10 + (c.toNat - 0x30) > 255 ∨ digits + 1 > 3
    · rw [if_pos refused]
      constructor
      · nofun
      · rintro ⟨group, whole, digits_only, stops, same, below, short⟩
        obtain ⟨tail, rfl, rfl⟩ := exists_cons_of_isDigit digit stops whole
        have grows : value * 10 + (c.toNat - 0x30) ≤ result := same ▸ le_decimalFrom
        rw [List.length_cons] at short
        omega
    rw [if_neg refused, ih (by omega) (by omega)]
    constructor
    · rintro ⟨group, rfl, digits_only, stops, same, below, short⟩
      refine ⟨c :: group, rfl, ?_, stops, same, below, ?_⟩
      · intro d member
        cases member with
        | head => exact digit
        | tail _ member => exact digits_only d member
      · rw [List.length_cons]
        omega
    · rintro ⟨group, whole, digits_only, stops, same, below, short⟩
      obtain ⟨tail, rfl, rfl⟩ := exists_cons_of_isDigit digit stops whole
      rw [List.length_cons] at short
      exact ⟨tail, rfl, fun d member => digits_only d (List.mem_cons_of_mem _ member),
        stops, same, below, by omega⟩
  rw [if_neg digit, Option.some_inj, Prod.mk.injEq]
  constructor
  · rintro ⟨rfl, rfl⟩
    refine ⟨[], rfl, nofun, ?_, rfl, byte, few⟩
    rw [List.head?_cons, Option.any_some]
    exact Bool.eq_false_iff.mpr digit
  · rintro ⟨group, whole, digits_only, -, same, -, -⟩
    cases group with
    | nil => exact ⟨same, whole⟩
    | cons d group =>
        obtain ⟨rfl, -⟩ := List.cons_eq_cons.mp whole
        exact absurd (digits_only c List.mem_cons_self) digit

/-- The digits in front of anything but a digit are an octet if the parser takes them. -/
theorem ipv4Part_octet {octet : UInt8} (stops : rest.head?.any isDigit = false) :
    (∃ group, text = group ++ rest ∧ IsOctet group octet) ↔
      text.head?.any isDigit = true ∧ ipv4Part text 0 0 = some (octet.toNat, rest) := by
  rw [ipv4Part_eq_some (by decide) (by decide)]
  constructor
  · rintro ⟨group, rfl, is_octet⟩
    constructor
    · cases group with
      | nil => exact absurd rfl is_octet.ne_nil
      | cons c group =>
          rw [List.cons_append, List.head?_cons, Option.any_some]
          exact is_octet.digits c List.mem_cons_self
    · have byte : octet.toNat < 256 := octet.toNat_lt
      have short := is_octet.short
      exact ⟨group, rfl, is_octet.digits, stops, is_octet.value, by omega, by omega⟩
  · rintro ⟨starts, group, rfl, digits_only, -, value, -, short⟩
    refine ⟨group, rfl, digits_only, ?_, by omega, value⟩
    rintro rfl
    rw [List.nil_append, stops] at starts
    cases starts

theorem dotted_singleton {octet : UInt8} :
    Dotted [octet] text ↔
      text.head?.any isDigit = true ∧ ipv4Part text 0 0 = some (octet.toNat, []) := by
  rw [← ipv4Part_octet rfl]
  constructor
  · intro is_octet
    exact ⟨text, (List.append_nil text).symm, is_octet⟩
  · rintro ⟨group, rfl, is_octet⟩
    rw [List.append_nil]
    exact is_octet

theorem dot_stops (rest : List UInt8) :
    ('.'.toUInt8 :: rest).head?.any isDigit = false := by
  rw [List.head?_cons, Option.any_some]
  decide

theorem dotted_cons {octet next : UInt8} {octets : List UInt8} :
    Dotted (octet :: next :: octets) text ↔
      text.head?.any isDigit = true ∧
        ∃ rest, ipv4Part text 0 0 = some (octet.toNat, '.'.toUInt8 :: rest) ∧
          Dotted (next :: octets) rest := by
  constructor
  · rintro ⟨group, rest, whole, is_octet, others⟩
    obtain ⟨starts, parsed⟩ := (ipv4Part_octet (dot_stops rest)).mp ⟨group, whole, is_octet⟩
    exact ⟨starts, rest, parsed, others⟩
  · rintro ⟨starts, rest, parsed, others⟩
    obtain ⟨group, whole, is_octet⟩ := (ipv4Part_octet (dot_stops rest)).mpr ⟨starts, parsed⟩
    exact ⟨group, rest, whole, is_octet, others⟩

end Part

/-! ## The parsers and the grammar -/

/-- The octets are stored at the parts that are left. -/
def place : (left : Nat) → (octets : List UInt8) → Octets → Octets
  | left + 1, octet :: octets, out =>
      place left octets (Function.update out (Fin.ofNat 4 (3 - left)) octet)
  | _, _, out => out

section Parsers

variable {s : Nat} {memory : ByteMemory} {text : List UInt8} {out : Octets}

theorem partLoop_spec {rounds value digits : Nat} (spells : Spells memory s text)
    (enough : rounds + digits = 4) (few : digits ≤ 3) (byte : value ≤ 255) :
    Ensures (s + text.length) (partLoop rounds s value digits) memory fun result memory' =>
      memory' = memory ∧
        result = (ipv4Part text value digits).map fun (value, rest) =>
          (value, s + text.length - rest.length) := by
  induction text generalizing rounds s value digits with
  | nil =>
      obtain ⟨rounds, rfl⟩ := Nat.exists_eq_succ_of_ne_zero (show rounds ≠ 0 by omega)
      have ended : memory s = 0 := spells
      rw [List.length_nil, Nat.add_zero]
      apply Ensures.load_bind (Nat.le_refl s)
      rw [ended]
      exact .pure ⟨rfl, rfl⟩
  | cons c text ih =>
  obtain ⟨rounds, rfl⟩ := Nat.exists_eq_succ_of_ne_zero (show rounds ≠ 0 by omega)
  apply Ensures.load_bind (Nat.le_add_right _ _)
  rw [spells.1, ipv4Part]
  by_cases digit : isDigit c = true
  · rw [if_pos digit, if_pos digit]
    dsimp only
    have above : c.toNat < 256 := c.toNat_lt
    have exact_value : (value * 10 + (c.toNat - '0'.toNat)) % 2 ^ 32 =
        value * 10 + (c.toNat - 0x30) := Nat.mod_eq_of_lt (by omega)
    rw [exact_value]
    by_cases refused : value * 10 + (c.toNat - 0x30) > 255 ∨ digits + 1 > 3
    · rw [if_pos refused, if_pos refused]
      exact .pure ⟨rfl, rfl⟩
    · rw [if_neg refused, if_neg refused, List.length_cons, Nat.add_comm text.length,
        ← Nat.add_assoc]
      exact ih spells.2.2 (by omega) (by omega) (by omega)
  · rw [if_neg digit, if_neg digit]
    refine .pure ⟨rfl, ?_⟩
    rw [Option.map_some]
    dsimp only
    rw [Nat.add_sub_cancel]

/-- A part is parsed and the parser goes on, or it refuses the string. -/
theorem part_bind_spec {next : Nat → Nat → Access (Bool × Octets)}
    {post : Bool × Octets → ByteMemory → Prop} (spells : Spells memory s text)
    (refused : (∀ parsed, text.head?.any isDigit = true → ipv4Part text 0 0 ≠ some parsed) →
      post (false, out) memory)
    (accepted : ∀ value rest, text.head?.any isDigit = true →
      ipv4Part text 0 0 = some (value, rest) →
      Ensures (s + text.length) (next value (s + text.length - rest.length)) memory post) :
    Ensures (s + text.length)
      (do
        let c ← load s
        if !isDigit c then pure (false, out)
        else
          match ← partLoop 4 s 0 0 with
          | none => pure (false, out)
          | some (value, s) => next value s)
      memory post := by
  have first : isDigit (memory s) = text.head?.any isDigit := by
    cases text with
    | nil =>
        have ended : memory s = 0 := spells
        rw [ended]
        decide
    | cons c text => rw [spells.1, List.head?_cons, Option.any_some]
  apply Ensures.load_bind (Nat.le_add_right s _)
  rw [first]
  cases starts : text.head?.any isDigit with
  | false =>
      apply Ensures.pure
      apply refused
      intro parsed starts'
      rw [starts] at starts'
      cases starts'
  | true =>
  apply (partLoop_spec spells rfl (by decide) (by decide)).bind
  rintro result memory' ⟨rfl, rfl⟩
  cases parsed : ipv4Part text 0 0 with
  | none =>
      apply Ensures.pure
      apply refused
      intro pair _ found
      rw [parsed] at found
      cases found
  | some pair =>
      obtain ⟨value, rest⟩ := pair
      exact accepted value rest starts parsed

theorem spells_rest {value : Nat} {rest : List UInt8} (spells : Spells memory s text)
    (parsed : ipv4Part text 0 0 = some (value, rest)) :
    Spells memory (s + text.length - rest.length) rest ∧ rest.length ≤ text.length := by
  obtain ⟨group, rfl, -⟩ := (ipv4Part_eq_some (by decide) (by decide)).mp parsed
  have later := spells.drop (show group.length ≤ (group ++ rest).length by simp)
  rw [List.drop_left] at later
  rw [List.length_append, ← Nat.add_assoc, Nat.add_sub_cancel]
  exact ⟨later, Nat.le_add_left _ _⟩

theorem exists_octet {value : Nat} {rest : List UInt8}
    (parsed : ipv4Part text 0 0 = some (value, rest)) : ∃ octet : UInt8, value = octet.toNat := by
  obtain ⟨-, -, -, -, -, byte, -⟩ := (ipv4Part_eq_some (by decide) (by decide)).mp parsed
  refine ⟨value.toUInt8, ?_⟩
  rw [Nat.toUInt8_eq, UInt8.toNat_ofNat']
  omega

theorem exists_cons_cons {octets : List UInt8} {left : Nat} (count : octets.length = left + 1 + 1) :
    ∃ octet next rest, octets = octet :: next :: rest := by
  obtain ⟨octet, tail, rfl⟩ := List.exists_cons_of_length_eq_add_one count
  obtain ⟨next, rest, rfl⟩ := List.exists_cons_of_length_eq_add_one (Nat.succ.inj count)
  exact ⟨octet, next, rest, rfl⟩

/-- Behind the last part the string has to end. -/
theorem partsLoop_one (spells : Spells memory s text) :
    Ensures (s + text.length) (partsLoop 1 s out) memory fun result memory' =>
      memory' = memory ∧ ∀ out', result = (true, out') ↔
        ∃ octet, Dotted [octet] text ∧ out' = place 1 [octet] out := by
  apply part_bind_spec spells
  · intro never
    refine ⟨rfl, fun out' => ⟨nofun, ?_⟩⟩
    rintro ⟨octet, dotted, -⟩
    obtain ⟨starts, parsed⟩ := dotted_singleton.mp dotted
    exact absurd parsed (never _ starts)
  intro value rest starts parsed
  obtain ⟨behind, -⟩ := spells_rest spells parsed
  obtain ⟨octet, rfl⟩ := exists_octet parsed
  apply Ensures.load_bind (Nat.sub_le _ _)
  rw [if_neg (Nat.lt_irrefl 0), Nat.toUInt8_eq, UInt8.ofNat_toNat]
  cases rest with
  | nil =>
      have ended : memory (s + text.length - [].length) = 0 := behind
      rw [ended, if_neg (not_not.mpr rfl)]
      refine .pure ⟨rfl, fun out' => ⟨?_, ?_⟩⟩
      · intro same
        exact ⟨octet, dotted_singleton.mpr ⟨starts, parsed⟩, (Prod.mk.inj same).2.symm⟩
      · rintro ⟨other, dotted, rfl⟩
        have again := (dotted_singleton.mp dotted).2
        rw [parsed, Option.some_inj, Prod.mk.injEq] at again
        rw [UInt8.toNat_inj.mp again.1]
        rfl
  | cons c rest =>
  rw [behind.1, if_pos behind.2.1]
  refine .pure ⟨rfl, fun out' => ⟨nofun, ?_⟩⟩
  rintro ⟨other, dotted, -⟩
  have again := (dotted_singleton.mp dotted).2
  rw [parsed, Option.some_inj, Prod.mk.injEq] at again
  cases again.2

/-- Some parts are accepted with the octets that the grammar has for them. -/
theorem partsLoop_spec {left : Nat} (spells : Spells memory s text) :
    Ensures (s + text.length) (partsLoop (left + 1) s out) memory fun result memory' =>
      memory' = memory ∧ ∀ out', result = (true, out') ↔
        ∃ octets, octets.length = left + 1 ∧ Dotted octets text ∧
          out' = place (left + 1) octets out := by
  induction left generalizing s text out with
  | zero =>
      apply (partsLoop_one spells).mono
      rintro result memory' ⟨same, accepts⟩
      refine ⟨same, fun out' => ?_⟩
      rw [accepts]
      constructor
      · rintro ⟨octet, dotted, placed⟩
        exact ⟨[octet], rfl, dotted, placed⟩
      · rintro ⟨octets, count, dotted, placed⟩
        obtain ⟨octet, rfl⟩ := List.length_eq_one_iff.mp count
        exact ⟨octet, dotted, placed⟩
  | succ left ih =>
  apply part_bind_spec spells
  · intro never
    refine ⟨rfl, fun out' => ⟨nofun, ?_⟩⟩
    rintro ⟨octets, count, dotted, -⟩
    obtain ⟨octet, next, octets, rfl⟩ := exists_cons_cons count
    obtain ⟨starts, rest, parsed, -⟩ := dotted_cons.mp dotted
    exact absurd parsed (never _ starts)
  intro value rest starts parsed
  obtain ⟨behind, shorter⟩ := spells_rest spells parsed
  obtain ⟨octet, rfl⟩ := exists_octet parsed
  apply Ensures.load_bind (Nat.sub_le _ _)
  rw [if_pos (Nat.succ_pos left), Nat.toUInt8_eq, UInt8.ofNat_toNat]
  by_cases dot : rest.head? = some '.'.toUInt8
  · obtain ⟨rest, rfl⟩ := List.head?_eq_some_iff.mp dot
    rw [behind.1, if_neg (not_not.mpr rfl)]
    rw [List.length_cons] at shorter
    have same_end : s + text.length - ('.'.toUInt8 :: rest).length + 1 + rest.length =
        s + text.length := by
      rw [List.length_cons]
      omega
    have others := @ih _ _ (Function.update out (Fin.ofNat 4 (3 - (left + 1))) octet)
      behind.2.2
    rw [same_end] at others
    apply others.mono
    rintro result memory' ⟨rfl, accepts⟩
    refine ⟨rfl, fun out' => ?_⟩
    rw [accepts]
    constructor
    · rintro ⟨octets, count, dotted, rfl⟩
      obtain ⟨next, octets, rfl⟩ := List.exists_cons_of_length_eq_add_one count
      refine ⟨octet :: next :: octets, congrArg Nat.succ count, ?_, rfl⟩
      exact dotted_cons.mpr ⟨starts, rest, parsed, dotted⟩
    · rintro ⟨octets, count, dotted, rfl⟩
      obtain ⟨other, next, octets, rfl⟩ := exists_cons_cons count
      obtain ⟨-, rest', again, dotted⟩ := dotted_cons.mp dotted
      rw [parsed, Option.some_inj, Prod.mk.injEq, List.cons_eq_cons] at again
      obtain ⟨equal, -, rfl⟩ := again
      refine ⟨next :: octets, Nat.succ.inj count, dotted, ?_⟩
      rw [UInt8.toNat_inj.mp equal]
      rfl
  have refused : memory (s + text.length - rest.length) ≠ '.'.toUInt8 := by
    cases rest with
    | nil =>
        have ended : memory (s + text.length - [].length) = 0 := behind
        rw [ended]
        decide
    | cons c rest =>
        rw [behind.1]
        intro same
        exact dot (congrArg some same)
  rw [if_pos refused]
  refine .pure ⟨rfl, fun out' => ⟨nofun, ?_⟩⟩
  rintro ⟨octets, count, dotted, -⟩
  obtain ⟨other, next, octets, rfl⟩ := exists_cons_cons count
  obtain ⟨-, rest', again, -⟩ := dotted_cons.mp dotted
  rw [parsed, Option.some_inj, Prod.mk.injEq] at again
  exact absurd (congrArg List.head? again.2) dot

theorem octets_eq (octets : Octets) :
    octets = ![octets 0, octets 1, octets 2, octets 3] := by
  funext part
  match part with
  | 0 => rfl
  | 1 => rfl
  | 2 => rfl
  | 3 => rfl

theorem place_four {a b c d : UInt8} : place 4 [a, b, c, d] out = ![a, b, c, d] := by
  funext part
  match part with
  | 0 => rfl
  | 1 => rfl
  | 2 => rfl
  | 3 => rfl

theorem dotted_four {a b c d : UInt8} :
    Dotted [a, b, c, d] text ↔ IsAddress text ![a, b, c, d] := by
  constructor
  · rintro ⟨first, _, rfl, is_a, second, _, rfl, is_b, third, fourth, rfl, is_c, is_d⟩
    exact ⟨first, second, third, fourth, rfl, is_a, is_b, is_c, is_d⟩
  · rintro ⟨first, second, third, fourth, rfl, is_a, is_b, is_c, is_d⟩
    exact ⟨first, _, rfl, is_a, second, _, rfl, is_b, third, fourth, rfl, is_c, is_d⟩

theorem parseDotted_spec (present : s ≠ 0) (spells : Spells memory s text) :
    Ensures (s + text.length) (parseDotted s out) memory fun result memory' =>
      memory' = memory ∧ ∀ octets, result = (true, octets) ↔ IsAddress text octets := by
  rw [parseDotted, if_neg present]
  apply Ensures.load_bind (Nat.le_add_right s _)
  cases text with
  | nil =>
      have ended : memory s = 0 := spells
      rw [ended, if_pos rfl]
      refine .pure ⟨rfl, fun octets => ⟨nofun, ?_⟩⟩
      rintro ⟨a, b, c, d, whole, -⟩
      simp at whole
  | cons c text =>
  rw [spells.1, if_neg spells.2.1]
  apply (partsLoop_spec (spells : Spells memory s (c :: text))).mono
  rintro result memory' ⟨rfl, accepts⟩
  refine ⟨rfl, fun octets => ?_⟩
  rw [accepts]
  constructor
  · rintro ⟨values, count, dotted, rfl⟩
    match values, count with
    | [_, _, _, _], _ =>
        rw [place_four]
        exact dotted_four.mp dotted
  · intro address
    refine ⟨[octets 0, octets 1, octets 2, octets 3], rfl, ?_, ?_⟩
    · rw [dotted_four, ← octets_eq]
      exact address
    · rw [place_four]
      exact octets_eq octets

end Parsers

/-- An address, with the first octet in the highest byte. -/
def Octets.toIpv4 (octets : Octets) : Ipv4 :=
  BitVec.ofNat 32 ((((octets 0).toNat * 256 + (octets 1).toNat) * 256 + (octets 2).toNat) * 256 +
    (octets 3).toNat)

theorem ipv4Parts_eq_some {dots address result : Nat} {text : List UInt8} :
    ipv4Parts dots text address = some result ↔
      ∃ octets, octets.length = dots + 1 ∧ Dotted octets text ∧
        result = octets.foldl (fun address octet => address * 256 + octet.toNat) address := by
  induction dots generalizing text address with
  | zero =>
      constructor
      · intro accepted
        rw [ipv4Parts] at accepted
        split at accepted
        · cases accepted
        next starts =>
          have starts : text.head?.any isDigit = true := by simpa using starts
          split at accepted
          · cases accepted
          next value rest parsed =>
            obtain ⟨octet, rfl⟩ := exists_octet parsed
            split at accepted
            · refine ⟨[octet], rfl, dotted_singleton.mpr ⟨starts, parsed⟩, ?_⟩
              exact (Option.some_inj.mp accepted).symm
            · contradiction
            · cases accepted
      · rintro ⟨octets, count, dotted, rfl⟩
        obtain ⟨octet, rfl⟩ := List.length_eq_one_iff.mp count
        obtain ⟨starts, parsed⟩ := dotted_singleton.mp dotted
        rw [ipv4Parts, starts, parsed]
        rfl
  | succ dots ih =>
  constructor
  · intro accepted
    rw [ipv4Parts] at accepted
    split at accepted
    · cases accepted
    next starts =>
      have starts : text.head?.any isDigit = true := by simpa using starts
      split at accepted
      · cases accepted
      next value rest parsed =>
        obtain ⟨octet, rfl⟩ := exists_octet parsed
        split at accepted
        · contradiction
        next left rest same =>
          obtain rfl := Nat.succ.inj same
          obtain ⟨octets, count, dotted, rfl⟩ := ih.mp accepted
          obtain ⟨next, octets, rfl⟩ := List.exists_cons_of_length_eq_add_one count
          refine ⟨octet :: next :: octets, congrArg Nat.succ count, ?_, List.foldl_cons.symm⟩
          exact dotted_cons.mpr ⟨starts, rest, parsed, dotted⟩
        · cases accepted
  · rintro ⟨octets, count, dotted, rfl⟩
    obtain ⟨octet, next, octets, rfl⟩ := exists_cons_cons count
    obtain ⟨starts, rest, parsed, others⟩ := dotted_cons.mp dotted
    have dot : '.'.toUInt8 = 0x2E := by decide
    rw [ipv4Parts, starts, parsed, dot]
    exact ih.mpr ⟨next :: octets, Nat.succ.inj count, others, List.foldl_cons⟩

/-- The parser of texts that are lists accepts the same addresses. -/
theorem parseIpv4_eq_some {text : List UInt8} {address : Ipv4} :
    parseIpv4 text = some address ↔ ∃ octets, IsAddress text octets ∧ address = octets.toIpv4 := by
  rw [parseIpv4, Option.map_eq_some_iff]
  constructor
  · rintro ⟨result, accepted, rfl⟩
    obtain ⟨values, count, dotted, rfl⟩ := ipv4Parts_eq_some.mp accepted
    match values, count with
    | [a, b, c, d], _ =>
        refine ⟨![a, b, c, d], dotted_four.mp dotted, ?_⟩
        simp [Octets.toIpv4]
  · rintro ⟨octets, is_address, rfl⟩
    refine ⟨_, ipv4Parts_eq_some.mpr ⟨[octets 0, octets 1, octets 2, octets 3], rfl, ?_, rfl⟩, ?_⟩
    · rw [dotted_four, ← octets_eq]
      exact is_address
    · simp [Octets.toIpv4]

/-- Both parsers accept the dotted addresses with their octets and nothing else.  They return the
same on every input, and they read a string up to its end at most. -/
theorem parseIpv4_iff_isAddress :
    NetStack.parseIpv4 = Dns.parseIpv4 ∧
      ∀ parse ∈ [NetStack.parseIpv4, Dns.parseIpv4],
        ∀ (memory : ByteMemory) (s : Nat) (text : List UInt8) (out : Octets),
          s ≠ 0 → Spells memory s text →
            (∀ octets, (parse s out memory).value = (true, octets) ↔ IsAddress text octets) ∧
            ∀ address ∈ (parse s out memory).touched, address ≤ s + text.length := by
  refine ⟨rfl, fun parse copy memory s text out present spells => ?_⟩
  have either : parse = parseDotted := by
    cases copy with
    | head => rfl
    | tail _ copy => exact List.mem_singleton.mp copy
  have spec := @parseDotted_spec _ _ _ out present spells
  rw [either]
  exact ⟨spec.post.2, spec.touched⟩

/-- The name resolver on a short address. -/
theorem parseIpv4_iff_isAddress_loopback :
    (Dns.parseIpv4 1 (fun _ => 0) fun address => (ascii "127.0.0.1").getD (address - 1) 0).value =
      (true, ![127, 0, 0, 1]) := by
  have parsed := parseIpv4_iff_isAddress.2 Dns.parseIpv4 (.tail _ (.head _))
    (fun address => (ascii "127.0.0.1").getD (address - 1) 0) 1 (ascii "127.0.0.1") (fun _ => 0)
    (by decide) (by simp [Spells, ascii])
  rw [parsed.1]
  have group : ([0x31, 0x32, 0x37] : List UInt8).all isDigit = true := rfl
  have zero : ([0x30] : List UInt8).all isDigit = true := rfl
  have one : ([0x31] : List UInt8).all isDigit = true := rfl
  exact ⟨[0x31, 0x32, 0x37], [0x30], [0x30], [0x31], rfl,
    ⟨List.all_eq_true.mp group, nofun, by decide, rfl⟩,
    ⟨List.all_eq_true.mp zero, nofun, by decide, rfl⟩,
    ⟨List.all_eq_true.mp zero, nofun, by decide, rfl⟩,
    ⟨List.all_eq_true.mp one, nofun, by decide, rfl⟩⟩

end Charis.Net.AddressText
