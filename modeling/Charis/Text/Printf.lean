import Charis.Lib.ByteMemory
import Charis.Lib.Traced
import Charis.Text.Numbers

/-!
# Formatted output

A format in memory is printed character by character.  A directive in it has flags, a width and a
length, each of which may be missing, and a character that says what is printed.  The characters
of the format that are read, the widths that are computed and the bytes of the buffer for numbers
that are written are recorded on the way.

The address zero is the null pointer.
-/

namespace Charis.Text

open Charis.Lib Charis.Lib.Traced Charis.Net

/-- What happens while a format is printed. -/
inductive PrintEvent where
  | read (address : Nat)
  | width (value : Int)
  | numbuf (index : Nat)
  | putch (c : UInt8)
  deriving DecidableEq, Repr

/-- A part of printing. -/
abbrev Print : Type → Type := Traced PrintEvent

/-- A character of the format is read. -/
def readFormat (memory : ByteMemory) (p : Nat) : Print UInt8 := ⟨memory p, [.read p]⟩

/-- A character is put out. -/
def putch (c : UInt8) : Print Unit := event (.putch c)

/-- The loop of `output_string`. -/
def putchAll : (str : List UInt8) → Print Unit
  | [] => pure ()
  | c :: str => do
      putch c
      putchAll str

/-- `output_string`. -/
def outputString (str : Option (List UInt8)) : Print Unit := putchAll (str.getD (ascii "(null)"))

/-- `output_padding`. -/
def outputPadding (width : Int) (zero left : Bool) (len : Int) : Print Unit :=
  let pad := width - len
  if pad ≤ 0 then pure ()
  else if !left then
    putchAll (List.replicate pad.toNat (if zero then '0'.toUInt8 else ' '.toUInt8))
  else pure ()

/-- `output_padding_after`. -/
def outputPaddingAfter (width : Int) (left : Bool) (len : Int) : Print Unit :=
  let pad := width - len
  if pad ≤ 0 ∨ left = false then pure ()
  else putchAll (List.replicate pad.toNat ' '.toUInt8)

/-- The digits that were collected are copied to `numbuf`, and a zero behind them. -/
def fillNumbuf : (out : Nat) → (text : List UInt8) → Print Unit
  | out, [] => event (.numbuf out)
  | out, _ :: text => do
      event (.numbuf out)
      fillNumbuf (out + 1) text

/-- `format_unsigned` to `numbuf`. -/
def formatUnsigned (value base : Nat) (uppercase : Bool) : Print (List UInt8) :=
  if base < 2 ∨ 36 < base then do
    event (.numbuf 0)
    pure []
  else if value = 0 then do
    event (.numbuf 0)
    event (.numbuf 1)
    pure ['0'.toUInt8]
  else do
    let text := kutoaLoop base uppercase 65 value []
    fillNumbuf 0 text
    pure text

/-- `format_signed` to `numbuf`. -/
def formatSigned (value : Int) : Print (List UInt8) :=
  if value = 0 then do
    event (.numbuf 0)
    event (.numbuf 1)
    pure ['0'.toUInt8]
  else do
    let digits := kutoaLoop 10 false 65 value.natAbs []
    let text := if value < 0 then '-'.toUInt8 :: digits else digits
    fillNumbuf 0 text
    pure text

/-- An argument, as it is when it is read with each type. -/
structure Argument where
  string : Option (List UInt8)
  int : BitVec 32
  longLong : BitVec 64
  pointer : BitVec 64

/-- What a directive says. -/
structure Directive where
  leftAlign : Bool
  zeroPad : Bool
  width : Int
  longLong : Bool
  spec : UInt8

/-- `kstrlen` as an `int`. -/
def intLength (str : List UInt8) : Int := Int.bmod str.length (2 ^ 32)

/-- Output of a length with padding on one side. -/
def padded (d : Directive) (len : Int) (output : Print Unit) : Print Unit := do
  if d.width > len ∧ d.leftAlign = false then outputPadding d.width d.zeroPad d.leftAlign len
  output
  if d.width > len ∧ d.leftAlign = true then outputPaddingAfter d.width d.leftAlign len

/-- The text of a signed number with the padding in front.  Zeros stand behind a sign. -/
def printNumbuf (d : Directive) (negative : Bool) (numbuf : List UInt8) : Print Unit :=
  let len := intLength numbuf
  if d.width > len then
    if d.zeroPad && negative && !d.leftAlign then do
      putch '-'.toUInt8
      outputPadding (d.width - 1) true d.leftAlign (len - 1)
      outputString (some (numbuf.drop 1))
    else do
      outputPadding d.width (d.zeroPad && !negative) d.leftAlign len
      outputString (some numbuf)
  else outputString (some numbuf)

/-- A signed number is printed. -/
def printSigned (d : Directive) (value : Int) : Print Unit := do
  let numbuf ← formatSigned value
  printNumbuf d (value < 0) numbuf
  if d.width > intLength numbuf ∧ d.leftAlign = true then
    outputPaddingAfter d.width d.leftAlign (intLength numbuf)

/-- An unsigned number is printed. -/
def printUnsigned (d : Directive) (value base : Nat) (uppercase : Bool) : Print Unit := do
  let numbuf ← formatUnsigned value base uppercase
  padded d (intLength numbuf) (outputString (some numbuf))

/-- The cases of `kvprintf`, and which argument is the next one. -/
def convert (args : Nat → Argument) (next : Nat) (d : Directive) : Print Nat :=
  let arg := args next
  let unsigned := if d.longLong then arg.longLong.toNat else arg.int.toNat
  if d.spec = 's'.toUInt8 then do
    padded d (intLength (arg.string.getD (ascii "(null)"))) (outputString arg.string)
    pure (next + 1)
  else if d.spec = 'c'.toUInt8 then do
    padded d 1 (putch (UInt8.ofNat arg.int.toNat))
    pure (next + 1)
  else if d.spec = 'd'.toUInt8 then do
    printSigned d (if d.longLong then arg.longLong.toInt else arg.int.toInt)
    pure (next + 1)
  else if d.spec = 'u'.toUInt8 then do
    printUnsigned d unsigned 10 false
    pure (next + 1)
  else if d.spec = 'x'.toUInt8 ∨ d.spec = 'X'.toUInt8 then do
    printUnsigned d unsigned 16 (d.spec = 'X'.toUInt8)
    pure (next + 1)
  else if d.spec = 'p'.toUInt8 then do
    let numbuf ← formatUnsigned arg.pointer.toNat 16 false
    padded d (intLength numbuf + 2) do
      outputString (some (ascii "0x"))
      outputString (some numbuf)
    pure (next + 1)
  else do
    putch d.spec
    pure next

/-- A flag that may be missing. -/
def parseFlag (memory : ByteMemory) (flag : UInt8) (p : Nat) : Print (Bool × Nat) := do
  let c ← readFormat memory p
  if c = flag then pure (true, p + 1) else pure (false, p)

/-- The loop of `kvprintf` over the digits of a width, if a number of rounds is enough for it. -/
def parseWidth (memory : ByteMemory) : (rounds p : Nat) → (width : Int) → Print (Option (Int × Nat))
  | 0, _, _ => pure none
  | rounds + 1, p, width => do
      let c ← readFormat memory p
      if isDigit c then do
        let width := width * 10 + (c.toNat - '0'.toNat : Nat)
        event (.width width)
        parseWidth memory rounds (p + 1) (Int.bmod width (2 ^ 32))
      else pure (some (width, p))

/-- The length that may be missing. -/
def parseLongLong (memory : ByteMemory) (p : Nat) : Print (Bool × Nat) := do
  let c ← readFormat memory p
  if c = 'l'.toUInt8 then do
    let d ← readFormat memory (p + 1)
    if d = 'l'.toUInt8 then pure (true, p + 2) else pure (false, p)
  else pure (false, p)

/-- A directive behind its width, if that has ended, and what is behind it. -/
def parseSpec (memory : ByteMemory) (leftAlign zeroPad : Bool) :
    (parsed : Option (Int × Nat)) → Print (Option (Directive × Nat))
  | none => pure none
  | some (width, p) => do
      let (longLong, p) ← parseLongLong memory p
      let spec ← readFormat memory p
      pure (some (⟨leftAlign, zeroPad, width, longLong, spec⟩, p + 1))

/-- A directive behind its percent sign, and what is behind it. -/
def parseDirective (memory : ByteMemory) (rounds p : Nat) : Print (Option (Directive × Nat)) := do
  let (leftAlign, p) ← parseFlag memory '-'.toUInt8 p
  let (zeroPad, p) ← parseFlag memory '0'.toUInt8 p
  let parsed ← parseWidth memory rounds p 0
  parseSpec memory leftAlign zeroPad parsed

/-- The loop of `kvprintf`, and whether it has ended. -/
def kvprintfLoop (memory : ByteMemory) (args : Nat → Argument) :
    (rounds p next : Nat) → Print Bool
  | 0, _, _ => pure false
  | rounds + 1, p, next => do
      let c ← readFormat memory p
      if c = 0 then pure true
      else if c ≠ '%'.toUInt8 then do
        putch c
        kvprintfLoop memory args rounds (p + 1) next
      else do
        let c ← readFormat memory (p + 1)
        if c = '%'.toUInt8 then do
          putch '%'.toUInt8
          kvprintfLoop memory args rounds (p + 2) next
        else
          match ← parseDirective memory rounds (p + 1) with
          | none => pure false
          | some (d, p) => do
              let next ← convert args next d
              kvprintfLoop memory args rounds p next

/-- `kvprintf`, with a bound for the rounds of each loop. -/
def kvprintf (memory : ByteMemory) (rounds fmt : Nat) (args : Nat → Argument) : Print Bool :=
  if fmt = 0 then pure true else kvprintfLoop memory args rounds fmt 0

end Charis.Text
