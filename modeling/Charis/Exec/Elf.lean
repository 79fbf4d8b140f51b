import Charis.Fs.Vfs
import Charis.Memory.UserCopy

/-!
# The ELF loader

`elf_load` reads the headers of an executable, checks them and enters its
segments into the address space of a task one after the other.  Every segment is
given fresh zeroed pages for the whole pages that it touches; then its file bytes
are copied in blocks of 512 bytes.  Pages and tables are accessed at their physical
addresses: this is what the kernel does as long as they are `InPlace` in the tree that
it edits, which is also the current one.
-/

namespace Charis.Exec

open Charis.Lib
open Charis.Memory
open Charis.Memory.Entry
open Charis.Fs

/-- Little-endian field of a header. -/
def field (bytes : List UInt8) (offset width : Nat) : Nat :=
  ByteMemory.readLE (fun index => bytes.getD index 0) offset width

/-- The fields of `elf64_ehdr_t` that the loader reads. -/
structure Ehdr where
  ident : List UInt8
  type : Nat
  machine : Nat
  version : Nat
  entry : Nat
  phoff : Nat
  ehsize : Nat
  phentsize : Nat
  phnum : Nat
  deriving DecidableEq

/-- Size of `elf64_ehdr_t`. -/
abbrev ehdrSize : Nat := 64

def Ehdr.ofBytes (bytes : List UInt8) : Ehdr where
  ident := bytes.take 16
  type := field bytes 16 2
  machine := field bytes 18 2
  version := field bytes 20 4
  entry := field bytes 24 8
  phoff := field bytes 32 8
  ehsize := field bytes 52 2
  phentsize := field bytes 54 2
  phnum := field bytes 56 2

/-- The fields of `elf64_phdr_t` that the loader reads. -/
structure Phdr where
  type : Nat
  flags : Nat
  offset : Nat
  vaddr : Nat
  filesz : Nat
  memsz : Nat
  align : Nat
  deriving DecidableEq

/-- Size of `elf64_phdr_t`. -/
abbrev phdrSize : Nat := 56

def Phdr.ofBytes (bytes : List UInt8) : Phdr where
  type := field bytes 0 4
  flags := field bytes 4 4
  offset := field bytes 8 8
  vaddr := field bytes 16 8
  filesz := field bytes 32 8
  memsz := field bytes 40 8
  align := field bytes 48 8

/-- A 64-bit little-endian executable for x86-64 of the current version, with
headers of the expected sizes and 1 to 128 program headers. -/
def Ehdr.accepted (ehdr : Ehdr) : Bool :=
  ehdr.ident.take 7 = [0x7F, 0x45, 0x4C, 0x46, 2, 1, 1] && ehdr.type = 2 &&
    ehdr.machine = 62 && ehdr.version = 1 && ehdr.ehsize = ehdrSize &&
    ehdr.phentsize = phdrSize && ehdr.phnum ≠ 0 && ehdr.phnum ≤ 128 && ehdr.phoff ≠ 0

/-- `PT_LOAD`. -/
def Phdr.loadable (phdr : Phdr) : Bool := phdr.type = 1

/-- `PF_X`. -/
def Phdr.executable (phdr : Phdr) : Bool := phdr.flags.testBit 0

/-- `PF_W`. -/
def Phdr.writable (phdr : Phdr) : Bool := phdr.flags.testBit 1

/-- The file bytes of the segment lie in a file of the given size, and its address
and offset agree modulo its alignment, a power of two. -/
def Phdr.accepted (phdr : Phdr) (size : Nat) : Bool :=
  phdr.offset ≤ size && phdr.filesz ≤ size - phdr.offset &&
    (phdr.align ≤ 1 ||
      (phdr.align &&& (phdr.align - 1) = 0 &&
        phdr.vaddr &&& (phdr.align - 1) = phdr.offset &&& (phdr.align - 1)))

/-- The first of the pages that a segment is given. -/
def Phdr.pageStart (phdr : Phdr) : Nat := phdr.vaddr / pageSize * pageSize

/-- The end of the pages that a segment is given. -/
def Phdr.pageEnd (phdr : Phdr) : Nat :=
  (phdr.vaddr + phdr.memsz + pageSize - 1) / pageSize * pageSize

/-- The flags of the pages of a segment. -/
def Phdr.mapFlags (phdr : Phdr) : Entry :=
  1#64 ||| 4#64 ||| (if phdr.writable then 2#64 else 0#64) |||
    (if phdr.executable then 0#64 else 0x8000000000000000#64)

/-- The loop of `fd_read_all`.  Every round delivers a byte, so that `count` rounds
are enough. -/
def readLoop (read : ReadCallback) (offset count : Nat) :
    (rounds : Nat) → List UInt8 → Option (List UInt8)
  | 0, total => some total
  | rounds + 1, total =>
      if total.length < count then
        match read (offset + total.length) (count - total.length) with
        | none => none
        | some bytes =>
            if bytes = [] then none
            else readLoop read offset count rounds (total ++ bytes)
      else some total

/-- `fd_read_all`. -/
def fdReadAll (current : Option FdTable) (fd offset count : Nat) : Option (List UInt8) :=
  match (fdGet current fd).bind fun entry => entry.node.bind VfsNode.read with
  | none => none
  | some read => readLoop read offset count count []

/-- What the loader accepts from `fd_read_all`: as many bytes as it asked for. -/
def readExactly (current : Option FdTable) (fd offset count : Nat) : Option (List UInt8) :=
  (fdReadAll current fd offset count).filter fun bytes => bytes.length = count

/-- The page loop of `elf_load_segment`, with `count` pages left to map. -/
def mapPages (pml4 : Nat) (flags : Entry) :
    (count addr : Nat) → Machine → Bool × Machine
  | 0, _, machine => (true, machine)
  | count + 1, addr, machine =>
      let (phys, pmm) := machine.pmm.allocPage
      if phys = 0 then (false, { machine with pmm })
      else
        match mapPagePml4
            { machine with memory := machine.memory.fill phys pageSize 0, pmm }
            pml4 addr phys flags with
        | (false, machine) => (false, { machine with pmm := machine.pmm.freePage phys })
        | (true, machine) => mapPages pml4 flags count (addr + pageSize) machine

/-- One round of `elf_write_user`: unlike the system calls the loader only asks for
a page that is present. -/
def writeUserChunk (machine : Machine) (pml4 address : Nat) (bytes : List UInt8) :
    Option Machine :=
  match userEntry machine pml4 address with
  | none => none
  | some pte =>
      if !present pte then none
      else
        some { machine with
          memory := machine.memory.storeBytes (physicalAddress pte address) bytes }

/-- `elf_write_user`, which is also the inner loop of `elf_load_segment`. -/
def elfWriteUser (machine : Machine) (pml4 address : Nat) (bytes : List UInt8) :
    Bool × Machine :=
  pageLoop (fun machine copied chunk => writeUserChunk machine pml4 (address + copied)
    ((bytes.drop copied).take chunk)) address bytes.length 0 machine

/-- The copy loop of `elf_load_segment`.  Every round copies a byte, so that
`filesz` rounds are enough. -/
def copySegment (read : ReadCallback) (pml4 : Nat) (phdr : Phdr) :
    (rounds copied : Nat) → Machine → Bool × Machine
  | 0, _, machine => (true, machine)
  | rounds + 1, copied, machine =>
      if copied < phdr.filesz then
        let chunk := min (phdr.filesz - copied) 512
        match read (phdr.offset + copied) chunk with
        | none => (false, machine)
        | some buffer =>
            match elfWriteUser machine pml4 (phdr.vaddr + copied) buffer with
            | (false, machine) => (false, machine)
            | (true, machine) =>
                copySegment read pml4 phdr rounds (copied + chunk) machine
      else (true, machine)

/-- `elf_load_segment`.  The sums stay below `2 ^ 64` because of the bounds. -/
def elfLoadSegment (read : ReadCallback) (pml4 : Nat) (phdr : Phdr) (machine : Machine) :
    Bool × Machine :=
  if phdr.memsz = 0 then (decide (phdr.filesz = 0), machine)
  else if phdr.memsz > userLimit ∨ phdr.vaddr < pageSize ∨ phdr.filesz > phdr.memsz ∨
      phdr.vaddr > userLimit - phdr.memsz then (false, machine)
  else if phdr.pageEnd < phdr.vaddr + phdr.memsz then (false, machine)
  else
    match mapPages pml4 phdr.mapFlags ((phdr.pageEnd - phdr.pageStart) / pageSize)
        phdr.pageStart machine with
    | (false, machine) => (false, machine)
    | (true, machine) => copySegment read pml4 phdr phdr.filesz 0 machine

/-- Read the ELF header and check it against the size of the file. -/
def readEhdr (read : ReadCallback) (size : Nat) : Option Ehdr :=
  (read 0 ehdrSize).bind fun bytes =>
    let ehdr := Ehdr.ofBytes bytes
    if ehdr.accepted && ehdr.phoff ≤ size && ehdr.phnum * phdrSize ≤ size - ehdr.phoff then
      some ehdr
    else none

/-- Read the program headers. -/
def readPhdrs (read : ReadCallback) (ehdr : Ehdr) : Option (List Phdr) :=
  (read ehdr.phoff (ehdr.phnum * phdrSize)).map fun bytes =>
    (List.range ehdr.phnum).map fun index => Phdr.ofBytes (bytes.drop (index * phdrSize))

/-- Whether the segment can be executed from the given entry point. -/
def Phdr.enters (phdr : Phdr) (entry : Nat) : Bool :=
  phdr.executable && phdr.vaddr ≤ entry && entry - phdr.vaddr < phdr.memsz

/-- The loop of `elf_load` over the program headers.  It returns whether a segment
was loaded and whether one can be executed from the entry point. -/
def loadSegments (read : ReadCallback) (size pml4 entry : Nat) :
    List Phdr → (loaded executable : Bool) → Machine → Option (Bool × Bool) × Machine
  | [], loaded, executable, machine => (some (loaded, executable), machine)
  | phdr :: phdrs, loaded, executable, machine =>
      if !phdr.loadable then loadSegments read size pml4 entry phdrs loaded executable machine
      else if !phdr.accepted size then (none, machine)
      else
        match elfLoadSegment read pml4 phdr machine with
        | (false, machine) => (none, machine)
        | (true, machine) =>
            loadSegments read size pml4 entry phdrs true
              (executable || phdr.enters entry) machine

/-- What the loader works on: the machine, the descriptors of the running task and
whether the kernel heap has a block of a given size. -/
structure System where
  machine : Machine
  current : Option FdTable
  kmalloc : Nat → Bool

/-- The part of `elf_load` between opening and closing the descriptor. -/
def loadFrom (system : System) (fd size pml4 : Nat) : Option Nat × Machine :=
  match readEhdr (readExactly system.current fd) size with
  | none => (none, system.machine)
  | some ehdr =>
      if !system.kmalloc (ehdr.phnum * phdrSize) then (none, system.machine)
      else
        match readPhdrs (readExactly system.current fd) ehdr with
        | none => (none, system.machine)
        | some phdrs =>
            match loadSegments (readExactly system.current fd) size pml4 ehdr.entry phdrs
                false false system.machine with
            | (some (true, true), machine) => (some ehdr.entry, machine)
            | (_, machine) => (none, machine)

/-- `elf_load`: the entry point, or nothing when the executable was rejected.  The
path is absent and the root zero for null pointers. -/
def elfLoad (finddir : String → Option VfsNode) (system : System) (path : Option String)
    (pml4 : Nat) : Option Nat × System :=
  match path with
  | none => (none, system)
  | some path =>
      if pml4 = 0 then (none, system)
      else
        match vfsResolve finddir path with
        | none => (none, system)
        | some node =>
            if node.flags &&& vfsFile = 0 ∨ node.read.isNone then (none, system)
            else
              match fdAlloc system.current node 0 with
              | none => (none, system)
              | some (fd, table) =>
                  let (result, machine) :=
                    loadFrom { system with current := some table } fd node.size pml4
                  (result,
                    { system with machine, current := fdClose (some table) fd })

end Charis.Exec
