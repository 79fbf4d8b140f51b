import Mathlib

/-!
# The virtual file system switch

Nodes, the resolution of paths and the descriptor table of the running task.  A
node is what its file system makes it: a read callback answers with the bytes it
delivers, an empty answer standing for the end of the file and no answer for an
error.  The callbacks that no file system sets are left out.
-/

namespace Charis.Fs

/-- The read callback of a node, by offset and count. -/
abbrev ReadCallback := Nat → Nat → Option (List UInt8)

/-- `vfs_node_t`. -/
structure VfsNode where
  flags : Nat
  size : Nat
  read : Option ReadCallback

/-- `VFS_FILE`, the bit that a node needs to be executed.  Devices are numbered
`VFS_CHARDEV`, which has the bit too. -/
def vfsFile : Nat := 1

/-- A device node; none of them has a read callback. -/
def deviceNode : VfsNode where
  flags := 3
  size := 0
  read := none

/-- The root directory of the FAT32 volume. -/
def fat32Root : VfsNode where
  flags := 2
  size := 0
  read := none

/-- `vfs_resolve`, with the lookup of the FAT32 volume. -/
def vfsResolve (finddir : String → Option VfsNode) (path : String) : Option VfsNode :=
  if path = "/dev/null" ∨ path = "/dev/zero" ∨ path = "/dev/kbd" ∨ path = "/dev/vga" then
    some deviceNode
  else
    match path.toList with
    | '/' :: first :: rest => finddir (String.ofList (first :: rest))
    | _ => some fat32Root

/-- `MAX_FDS`. -/
abbrev maxFds : Nat := 64

/-- `fd_entry_t`. -/
structure FdEntry where
  node : Option VfsNode
  offset : Nat
  flags : Nat

/-- The descriptor table of a task. -/
abbrev FdTable := Nat → FdEntry

/-- The first of `remaining` descriptors from `fd` on that is not in use. -/
def findFd (table : FdTable) (fd : Nat) : (remaining : Nat) → Option Nat
  | 0 => none
  | remaining + 1 =>
      if (table fd).node.isNone then some fd else findFd table (fd + 1) remaining

/-- `fd_alloc` in the table of the running task, if there is one.  The first three
descriptors are the standard streams. -/
def fdAlloc (current : Option FdTable) (node : VfsNode) (flags : Nat) :
    Option (Nat × FdTable) :=
  current.bind fun table =>
    (findFd table 3 (maxFds - 3)).map fun fd =>
      (fd, Function.update table fd ⟨some node, 0, flags⟩)

/-- `fd_get`. -/
def fdGet (current : Option FdTable) (fd : Nat) : Option FdEntry :=
  current.bind fun table => if fd < maxFds then some (table fd) else none

/-- `fd_close`. -/
def fdClose (current : Option FdTable) (fd : Nat) : Option FdTable :=
  current.map fun table =>
    if fd < maxFds then Function.update table fd ⟨none, 0, 0⟩ else table

theorem findFd_lt {table : FdTable} {start remaining fd : Nat}
    (found : findFd table start remaining = some fd) : fd < start + remaining := by
  induction remaining generalizing start with
  | zero => cases found
  | succ remaining ih =>
  simp only [findFd] at found
  split at found
  · cases found
    omega
  · have := ih found
    omega

/-- The new descriptor leads to the node. -/
theorem fdGet_of_fdAlloc {current : Option FdTable} {node : VfsNode} {flags fd : Nat}
    {table : FdTable} (opened : fdAlloc current node flags = some (fd, table)) :
    fdGet (some table) fd = some ⟨some node, 0, flags⟩ := by
  obtain ⟨before, -, rest⟩ := Option.bind_eq_some_iff.mp opened
  obtain ⟨free, found, same⟩ := Option.map_eq_some_iff.mp rest
  cases same
  have below := findFd_lt found
  simp only [maxFds] at below
  simp only [fdGet, Option.bind_some, Function.update_self]
  rw [if_pos (by omega)]

end Charis.Fs
