import Charis.Text.Strings
import Charis.Config.Store

/-!
# The table of the configuration

An entry is an array for its key, an array that holds a value of any of the three types, and the
type.  Keys are compared whole but stored in part.  The entries in use are a list as in
`Charis.Config.Store`.
-/

namespace Charis.Config

open Charis.Lib Charis.Text

/-- A string without the character that ends it. -/
abbrev CString : Type := { text : List UInt8 // ∀ c ∈ text, c ≠ 0 }

/-- `kstrncpy` to an array: so many characters of a string, and zeros if it is shorter. -/
def kstrncpy (dst : ByteMemory) (src : List UInt8) (n : Nat) : ByteMemory :=
  fun i => if i < n then src.getD i 0 else dst i

/-- The string in an array of a size. -/
def arrayText (size : Nat) (bytes : ByteMemory) : CString :=
  ⟨(bytes.loadBytes 0 size).takeWhile (· != 0), by
    intro c member
    have filled : (c != 0) = true := List.mem_takeWhile_imp (p := (· != 0)) member
    exact bne_iff_ne.mp filled⟩

/-- `config_type_t`. -/
inductive ConfigType where
  | int
  | string
  | bool
  deriving DecidableEq, Repr

/-- `config_entry_t`. -/
structure RawEntry where
  key : ByteMemory
  value : ByteMemory
  type : ConfigType

/-- `config_entries` and `config_count`. -/
structure Table where
  entries : Nat → RawEntry
  count : Nat

namespace Table

/-- `config_init`. -/
def configInit (table : Table) : Table := { table with count := 0 }

/-- The loop of the functions that get a value: the first entry with a key and a type. -/
def get (table : Table) (key : CString) (type : ConfigType) : Option ByteMemory :=
  ((List.range table.count).find? fun i =>
    kstrcmp (table.entries i).key 0 key.val = 0 ∧ (table.entries i).type = type).map
      fun i => (table.entries i).value

/-- `config_get_int`. -/
def configGetInt (table : Table) (key : CString) (default : BitVec 32) : BitVec 32 :=
  match table.get key .int with
  | some value => BitVec.ofNat 32 (value.readLE 0 4)
  | none => default

/-- `config_get_string`, of which the default may be null. -/
def configGetString (table : Table) (key : CString) (default : Option CString) :
    Option CString :=
  match table.get key .string with
  | some value => some (arrayText valueMax value)
  | none => default

/-- `config_get_bool`. -/
def configGetBool (table : Table) (key : CString) (default : Bool) : Bool :=
  match table.get key .bool with
  | some value => value 0 ≠ 0
  | none => default

/-- The functions that set a value: it is written to the first entry with a key, or to a new one
if there is room. -/
def set (table : Table) (key : CString) (type : ConfigType) (write : ByteMemory → ByteMemory) :
    Table :=
  match (List.range table.count).find? fun i => kstrcmp (table.entries i).key 0 key.val = 0 with
  | some i =>
      let entry := table.entries i
      { table with
        entries := Function.update table.entries i { entry with value := write entry.value, type } }
  | none =>
      if table.count < maxEntries then
        let entry := table.entries table.count
        { entries := Function.update table.entries table.count
            { key := kstrncpy entry.key key.val (keyMax - 1), value := write entry.value, type }
          count := table.count + 1 }
      else table

/-- `config_set_int`. -/
def configSetInt (table : Table) (key : CString) (value : BitVec 32) : Table :=
  table.set key .int fun bytes => bytes.writeLE 0 4 value.toNat

/-- `config_set_string`. -/
def configSetString (table : Table) (key value : CString) : Table :=
  table.set key .string fun bytes => kstrncpy bytes value.val (valueMax - 1)

/-- `config_set_bool`. -/
def configSetBool (table : Table) (key : CString) (value : Bool) : Table :=
  table.set key .bool fun bytes => bytes.writeByte 0 (if value then 1 else 0)

end Table

/-- The string in the array for the key. -/
def RawEntry.name (entry : RawEntry) : CString := arrayText keyMax entry.key

/-- The value of an entry by its type. -/
def RawEntry.contents (entry : RawEntry) : Value :=
  match entry.type with
  | .int => .int (BitVec.ofNat 32 (entry.value.readLE 0 4)).toInt
  | .string => .string (arrayText valueMax entry.value).val
  | .bool => .bool (entry.value 0 ≠ 0)

/-- An entry of the list. -/
def RawEntry.toEntry (entry : RawEntry) : Entry := ⟨entry.name.val, entry.contents⟩

/-- The static data before anything is set. -/
def Table.static : Table := ⟨fun _ => ⟨fun _ => 0, fun _ => 0, .int⟩, 0⟩

/-- The entries in use. -/
def Table.toList (table : Table) : List Entry :=
  (List.range table.count).map fun i => (table.entries i).toEntry

/-- The last characters of the arrays are zero.  Static data is, and nothing is written there. -/
structure Table.Clean (table : Table) : Prop where
  key : ∀ i, (table.entries i).key (keyMax - 1) = 0
  value : ∀ i, (table.entries i).value (valueMax - 1) = 0

section Strings

variable {bytes : ByteMemory} {address n : Nat} {text : List UInt8}

theorem takeWhile_loadBytes (spells : Spells bytes address text) (room : text.length < n) :
    (bytes.loadBytes address n).takeWhile (· != 0) = text := by
  induction text generalizing address n with
  | nil =>
      obtain ⟨n, rfl⟩ := Nat.exists_eq_succ_of_ne_zero room.ne_bot
      have ended : bytes address = 0 := spells
      rw [ByteMemory.loadBytes, ended]
      rfl
  | cons c text ih =>
  obtain ⟨n, rfl⟩ := Nat.exists_eq_succ_of_ne_zero (Nat.ne_zero_of_lt room)
  have first : (bytes address != 0) = true := by
    rw [spells.1]
    exact bne_iff_ne.mpr spells.2.1
  rw [ByteMemory.loadBytes, List.takeWhile_cons, if_pos first, spells.1,
    ih spells.2.2 (Nat.lt_of_succ_lt_succ room)]

/-- An array with a zero in it holds a string. -/
theorem exists_spells (ended : bytes (address + n) = 0) :
    ∃ text, Spells bytes address text ∧ text.length ≤ n := by
  induction n generalizing address with
  | zero => exact ⟨[], ended, Nat.le_refl 0⟩
  | succ n ih =>
      by_cases here : bytes address = 0
      · exact ⟨[], here, Nat.zero_le _⟩
      · rw [Nat.add_comm n, ← Nat.add_assoc] at ended
        obtain ⟨text, spells, short⟩ := ih ended
        exact ⟨bytes address :: text, ⟨rfl, here, spells⟩, Nat.succ_le_succ short⟩

theorem spells_arrayText (ended : bytes n = 0) :
    Spells bytes 0 (arrayText (n + 1) bytes).val ∧ (arrayText (n + 1) bytes).val.length ≤ n := by
  rw [← Nat.zero_add n] at ended
  obtain ⟨text, spells, short⟩ := exists_spells ended
  have whole : (arrayText (n + 1) bytes).val = text :=
    takeWhile_loadBytes spells (Nat.lt_succ_of_le short)
  rw [whole]
  exact ⟨spells, short⟩

theorem spells_kstrncpy (ended : bytes n = 0) (plain : ∀ c ∈ text, c ≠ 0) :
    Spells (kstrncpy bytes text n) 0 (text.take n) := by
  apply Spells.of_getD
  · intro c member
    exact plain c (List.mem_of_mem_take member)
  · intro k inside
    have upto : k ≤ n := inside.trans (List.length_take_le n text)
    rw [Nat.zero_add, kstrncpy, List.getD_eq_getElem?_getD, List.getD_eq_getElem?_getD,
      List.getElem?_take]
    by_cases below : k < n
    · rw [if_pos below, if_pos below]
    · rw [if_neg below, if_neg below, Nat.le_antisymm upto (Nat.not_lt.mp below), ended]
      rfl

/-- What is copied to an array is in it as far as it fits. -/
theorem arrayText_kstrncpy (ended : bytes n = 0) (plain : ∀ c ∈ text, c ≠ 0) :
    (arrayText (n + 1) (kstrncpy bytes text n)).val = text.take n :=
  takeWhile_loadBytes (spells_kstrncpy ended plain)
    (Nat.lt_succ_of_le (List.length_take_le n text))

end Strings

section Refinement

variable {table : Table} {key : CString} {type : ConfigType}

/-- The comparison of a key with the array of an entry. -/
theorem Table.Clean.kstrcmp_key (clean : table.Clean) (i : Nat) :
    kstrcmp (table.entries i).key 0 key.val = 0 ↔ (table.entries i).name = key := by
  rw [kstrcmp_eq_zero (spells_arrayText (clean.key i)).1 key.property, Subtype.ext_iff, eq_comm]
  rfl

theorem Table.Clean.length_name (clean : table.Clean) (i : Nat) :
    (table.entries i).name.val.length < keyMax :=
  Nat.lt_succ_of_le (spells_arrayText (clean.key i)).2

/-- Nothing is found under a key that is cut when it is stored, whatever was set. -/
theorem Table.Clean.get_of_long (clean : table.Clean) (long : keyMax ≤ key.val.length) :
    table.get key type = none := by
  rw [Table.get, Option.map_eq_none_iff, List.find?_eq_none]
  intro i _ found
  have named := (clean.kstrcmp_key i).mp (of_decide_eq_true found).1
  have short := clean.length_name i
  rw [named] at short
  omega

theorem Table.Clean.find_key (clean : table.Clean) :
    ((List.range table.count).find? fun i => kstrcmp (table.entries i).key 0 key.val = 0) =
      (List.range table.count).find? fun i => (table.entries i).toEntry.key = key.val := by
  congr 1
  funext i
  rw [decide_eq_decide, clean.kstrcmp_key, Subtype.ext_iff]
  rfl

theorem update_map {entries : Nat → Entry} {name : List UInt8} {value : Value} {i : Nat}
    {places : List Nat} (nodup : places.Nodup)
    (found : places.find? (fun i => (entries i).key = name) = some i) :
    update name value (places.map entries) =
      places.map (Function.update entries i ⟨name, value⟩) := by
  induction places with
  | nil => cases found
  | cons j places ih =>
  obtain ⟨absent, nodup⟩ := List.nodup_cons.mp nodup
  rw [List.map_cons, List.map_cons, update]
  by_cases named : (entries j).key = name
  · rw [List.find?_cons_of_pos (by simpa using named), Option.some_inj] at found
    subst found
    rw [if_pos named, Function.update_self, named]
    congr 1
    apply List.map_congr_left
    intro k member
    rw [Function.update_of_ne]
    rintro rfl
    exact absent member
  · rw [List.find?_cons_of_neg (by simpa using named)] at found
    have later : i ≠ j := by
      rintro rfl
      exact absent (List.mem_of_find?_eq_some found)
    rw [if_neg named, ih nodup found, Function.update_of_ne later.symm]

theorem Table.Clean.toList_set (clean : table.Clean) {write : ByteMemory → ByteMemory}
    {value : Value}
    (written : ∀ key bytes, bytes (valueMax - 1) = 0 →
      RawEntry.contents ⟨key, write bytes, type⟩ = value) :
    (table.set key type write).toList = assign table.toList key.val value := by
  have length_toList : table.toList.length = table.count := by
    rw [Table.toList, List.length_map, List.length_range]
  rw [Table.set, clean.find_key, assign]
  cases found : (List.range table.count).find? fun i =>
      (table.entries i).toEntry.key = key.val with
  | none =>
      have absent : ¬(table.toList.any fun entry => entry.key = key.val) = true := by
        rw [Table.toList, List.any_map]
        simpa using found
      rw [if_neg absent, length_toList]
      dsimp only
      split
      · rw [Table.toList, List.range_succ, List.map_append]
        congr 1
        · apply List.map_congr_left
          intro i member
          dsimp only
          rw [Function.update_of_ne (List.mem_range.mp member).ne]
        · have cut : (arrayText keyMax
              (kstrncpy (table.entries table.count).key key.val (keyMax - 1))).val =
                key.val.take (keyMax - 1) :=
            arrayText_kstrncpy (clean.key table.count) key.property
          rw [List.map_singleton]
          dsimp only
          rw [Function.update_self, RawEntry.toEntry, RawEntry.name]
          dsimp only
          rw [cut, written _ _ (clean.value table.count)]
      · rfl
  | some i =>
      have named : (table.entries i).toEntry.key = key.val := by
        simpa using List.find?_some found
      have present : (table.toList.any fun entry => entry.key = key.val) = true := by
        rw [List.any_eq_true]
        exact ⟨_, List.mem_map_of_mem (List.mem_of_find?_eq_some found), by simpa using named⟩
      rw [if_pos present]
      dsimp only [Table.toList]
      rw [update_map List.nodup_range found]
      apply List.map_congr_left
      intro j _
      by_cases same : j = i
      · rw [same, Function.update_self, Function.update_self, RawEntry.toEntry, ← named,
          written _ _ (clean.value i)]
        rfl
      · rw [Function.update_of_ne same, Function.update_of_ne same]

theorem Table.Clean.update (clean : table.Clean) {i count : Nat} {entry : RawEntry}
    (key_ended : entry.key (keyMax - 1) = 0) (value_ended : entry.value (valueMax - 1) = 0) :
    Table.Clean ⟨Function.update table.entries i entry, count⟩ := by
  constructor
  · exact (Function.forall_update_iff table.entries fun _ e => e.key (keyMax - 1) = 0).mpr
      ⟨key_ended, fun j _ => clean.key j⟩
  · exact (Function.forall_update_iff table.entries fun _ e => e.value (valueMax - 1) = 0).mpr
      ⟨value_ended, fun j _ => clean.value j⟩

theorem Table.Clean.set (clean : table.Clean) {write : ByteMemory → ByteMemory}
    (kept : ∀ bytes, write bytes (valueMax - 1) = bytes (valueMax - 1)) :
    (table.set key type write).Clean := by
  rw [Table.set]
  split
  next i found => exact clean.update (clean.key i) ((kept _).trans (clean.value i))
  next absent =>
    split
    · apply clean.update
      · have untouched : ∀ bytes : ByteMemory,
            kstrncpy bytes key.val (keyMax - 1) (keyMax - 1) = bytes (keyMax - 1) :=
          fun _ => if_neg (Nat.lt_irrefl _)
        exact (untouched _).trans (clean.key table.count)
      · exact (kept _).trans (clean.value table.count)
    · exact clean

theorem Table.Clean.toList_configSetInt (clean : table.Clean) (value : BitVec 32) :
    (table.configSetInt key value).Clean ∧
      (table.configSetInt key value).toList =
        Config.configSetInt table.toList key.val value.toInt := by
  constructor
  · exact clean.set fun bytes => ByteMemory.writeLE_of_outside (.inr (by decide))
  · apply clean.toList_set
    intro key bytes _
    have fits : value.toNat < 256 ^ 4 := value.isLt
    have same : (bytes.writeLE 0 4 value.toNat).readLE 0 4 = value.toNat := by
      rw [ByteMemory.readLE_writeLE_self, Nat.mod_eq_of_lt fits]
    change Value.int (BitVec.ofNat 32 _).toInt = _
    rw [same, BitVec.ofNat_toNat, BitVec.setWidth_eq]

theorem Table.Clean.toList_configSetString (clean : table.Clean) (value : CString) :
    (table.configSetString key value).Clean ∧
      (table.configSetString key value).toList =
        Config.configSetString table.toList key.val value.val := by
  constructor
  · exact clean.set fun bytes => if_neg (Nat.lt_irrefl _)
  · apply clean.toList_set
    intro key bytes ended
    exact congrArg Value.string (arrayText_kstrncpy ended value.property)

theorem Table.Clean.toList_configSetBool (clean : table.Clean) (value : Bool) :
    (table.configSetBool key value).Clean ∧
      (table.configSetBool key value).toList =
        Config.configSetBool table.toList key.val value := by
  constructor
  · exact clean.set fun bytes => ByteMemory.writeByte_of_ne (by decide)
  · apply clean.toList_set
    intro key bytes _
    change Value.bool (decide (bytes.writeByte 0 (if value then 1 else 0) 0 ≠ 0)) = _
    rw [ByteMemory.writeByte_self]
    cases value <;> rfl

/-- Two conditions, of which one holds of one element at most. -/
theorem find?_and {α : Type} {p q : α → Bool} {l : List α}
    (unique : ∀ a ∈ l, ∀ b ∈ l, p a = true → p b = true → a = b) :
    l.find? (fun a => p a && q a) = (l.find? p).filter q := by
  induction l with
  | nil => rfl
  | cons a l ih =>
  have below := ih fun b b_mem c c_mem =>
    unique b (List.mem_cons_of_mem _ b_mem) c (List.mem_cons_of_mem _ c_mem)
  by_cases first : p a = true
  · rw [List.find?_cons_of_pos first]
    by_cases second : q a = true
    · rw [List.find?_cons_of_pos (by rw [first, second]; rfl), Option.filter_some, if_pos second]
    · rw [List.find?_cons_of_neg (by simp [second]), below, Option.filter_some, if_neg second,
        Option.filter_eq_none_iff]
      intro b found
      have same := unique a List.mem_cons_self b
        (List.mem_cons_of_mem _ (List.mem_of_find?_eq_some found)) first
        (List.find?_some found)
      rwa [← same]
  · rw [List.find?_cons_of_neg (by simp [first]), List.find?_cons_of_neg first, below]

/-- A value is got if it is the one in the list and has the type. -/
theorem Table.Clean.get_eq (clean : table.Clean)
    (nodup : (table.toList.map Entry.key).Nodup) :
    (∃ entry : RawEntry, lookup table.toList key.val = some entry.contents ∧
        ∀ type, table.get key type = if entry.type = type then some entry.value else none) ∨
      (lookup table.toList key.val = none ∧ ∀ type, table.get key type = none) := by
  have unique : ∀ i ∈ List.range table.count, ∀ j ∈ List.range table.count,
      decide ((table.entries i).toEntry.key = key.val) = true →
      decide ((table.entries j).toEntry.key = key.val) = true → i = j := by
    intro i i_mem j j_mem i_named j_named
    rw [Table.toList, List.map_map] at nodup
    apply List.inj_on_of_nodup_map nodup i_mem j_mem
    exact (of_decide_eq_true i_named).trans (of_decide_eq_true j_named).symm
  have searched : ∀ type, table.get key type =
      (((List.range table.count).find? fun i => (table.entries i).toEntry.key = key.val).filter
        fun i => (table.entries i).type = type).map fun i => (table.entries i).value := by
    intro type
    rw [Table.get, ← find?_and unique]
    congr 2
    funext i
    rw [Bool.decide_and]
    congr 1
    rw [decide_eq_decide, clean.kstrcmp_key, Subtype.ext_iff]
    rfl
  have looked_up : lookup table.toList key.val =
      ((List.range table.count).find? fun i => (table.entries i).toEntry.key = key.val).map
        fun i => (table.entries i).contents := by
    rw [lookup, Table.toList, List.find?_map, Option.map_map]
    rfl
  rw [looked_up]
  cases found : (List.range table.count).find? fun i =>
      (table.entries i).toEntry.key = key.val with
  | none =>
      refine .inr ⟨rfl, fun type => ?_⟩
      rw [searched, found]
      rfl
  | some i =>
      refine .inl ⟨table.entries i, rfl, fun type => ?_⟩
      rw [searched, found, Option.filter_some]
      by_cases same : (table.entries i).type = type
      · rw [if_pos same, if_pos (decide_eq_true same)]
        rfl
      · rw [if_neg same, if_neg (by simpa using same)]
        rfl

end Refinement

end Charis.Config
