import Charis.Config.Table

/-!
# The configuration as a map

The calls that set values make a map from keys to what was set last.  The table is that map if
every key fits into the array for it.  A key that is cut is not found again: every call that sets
it makes a new entry, and getting it gives the default.
-/

namespace Charis.Config

open Charis.Lib

/-- What a key is set to. -/
inductive Setting where
  | int (value : BitVec 32)
  | string (value : CString)
  | bool (value : Bool)

/-- A value in the list. -/
def Setting.toValue : Setting → Value
  | .int value => .int value.toInt
  | .string value => .string value.val
  | .bool value => .bool value

/-- A call of a function that sets a value. -/
structure Call where
  key : CString
  setting : Setting

/-- A call is made. -/
def Table.call (table : Table) (call : Call) : Table :=
  match call.setting with
  | .int value => table.configSetInt call.key value
  | .string value => table.configSetString call.key value
  | .bool value => table.configSetBool call.key value

/-- The map from keys to what was set last. -/
def settings (calls : List Call) : CString → Option Setting :=
  calls.foldl (fun settings call => Function.update settings call.key (some call.setting))
    fun _ => none

/-- The keys in the table, one for each entry. -/
def Table.names (table : Table) : List CString :=
  (List.range table.count).map fun i => (table.entries i).name

/-- A table is a map: there is one entry for each key of the map, and a value is got by the type
that it has. -/
structure Refines (table : Table) (settings : CString → Option Setting) : Prop where
  nodup_names : table.names.Nodup
  mem_names : ∀ key, key ∈ table.names ↔ (settings key).isSome
  getInt : ∀ key default, table.configGetInt key default =
    match settings key with
    | some (.int value) => value
    | _ => default
  getString : ∀ key default, table.configGetString key default =
    match settings key with
    | some (.string value) => some value
    | _ => default
  getBool : ∀ key default, table.configGetBool key default =
    match settings key with
    | some (.bool value) => value
    | _ => default

section Settings

variable {calls : List Call} {call : Call} {key : CString}

theorem settings_append :
    settings (calls ++ [call]) = Function.update (settings calls) call.key (some call.setting) := by
  rw [settings, List.foldl_append]
  rfl

/-- The keys of the map are those that were set. -/
theorem isSome_settings : (settings calls key).isSome ↔ key ∈ calls.map Call.key := by
  induction calls using List.reverseRecOn with
  | nil => simp [settings]
  | append_singleton calls call ih =>
  rw [settings_append, List.map_append, List.mem_append, ← ih, List.map_singleton,
    List.mem_singleton]
  by_cases same : key = call.key
  · rw [same, Function.update_self]
    simp
  · rw [Function.update_of_ne same]
    simp [same]

theorem toList_call {table : Table} (clean : table.Clean)
    (fits : ∀ text, call.setting = .string text → text.val.length ≤ valueMax - 1) :
    (table.call call).Clean ∧
      (table.call call).toList = assign table.toList call.key.val call.setting.toValue := by
  rw [Table.call]
  cases kind : call.setting with
  | int value => exact clean.toList_configSetInt value
  | string value =>
      obtain ⟨kept, listed⟩ := @Table.Clean.toList_configSetString table call.key clean value
      refine ⟨kept, listed.trans ?_⟩
      rw [configSetString, List.take_of_length_le (fits value kind)]
      rfl
  | bool value => exact clean.toList_configSetBool value

end Settings

section Runs

variable {entries : List Entry} {name : List UInt8} {value : Value}

theorem keys_update : (update name value entries).map Entry.key = entries.map Entry.key := by
  induction entries with
  | nil => rfl
  | cons entry rest ih =>
      rw [update]
      split
      · rfl
      · rw [List.map_cons, List.map_cons, ih]

theorem isSome_lookup : (lookup entries name).isSome ↔ name ∈ entries.map Entry.key := by
  rw [lookup, Option.isSome_map, List.find?_isSome]
  simp

theorem nodup_keys_assign (short : name.length < keyMax)
    (nodup : (entries.map Entry.key).Nodup) :
    ((assign entries name value).map Entry.key).Nodup := by
  rw [assign]
  split
  · rw [keys_update]
    exact nodup
  next absent =>
    split
    · have whole : name.take (keyMax - 1) = name :=
        List.take_of_length_le (Nat.le_sub_one_of_lt short)
      rw [List.map_append, List.map_singleton, whole]
      apply nodup.append (List.nodup_singleton name)
      rw [List.disjoint_singleton]
      intro member
      obtain ⟨entry, entry_mem, named⟩ := List.mem_map.mp member
      exact absent (List.any_eq_true.mpr ⟨entry, entry_mem, decide_eq_true named⟩)
    · exact nodup

/-- The list of a table is a map. -/
structure Tracks (table : Table) (settings : CString → Option Setting) : Prop where
  clean : table.Clean
  nodup : (table.toList.map Entry.key).Nodup
  lookup_eq : ∀ key : CString,
    lookup table.toList key.val = (settings key).map Setting.toValue

variable {table : Table} {calls : List Call} {call : Call} {keys : List CString}

theorem keys_toList : table.toList.map Entry.key = table.names.map Subtype.val := by
  rw [Table.toList, Table.names, List.map_map, List.map_map]
  rfl

theorem Tracks.mem_names {settings : CString → Option Setting} (tracks : Tracks table settings)
    (key : CString) : key ∈ table.names ↔ (settings key).isSome := by
  have found := @isSome_lookup table.toList key.val
  rw [tracks.lookup_eq, Option.isSome_map, keys_toList] at found
  rw [found, List.mem_map_of_injective Subtype.val_injective]

/-- There is room for a key that has no entry if the keys are not too many. -/
theorem Tracks.room (tracks : Tracks table (settings calls)) (few : keys.length ≤ maxEntries)
    (among : ∀ call ∈ calls, call.key ∈ keys) {key : CString} (member : key ∈ keys)
    (absent : settings calls key = none) : table.toList.length < maxEntries := by
  have fresh : key ∉ table.names := by
    rw [tracks.mem_names, absent]
    exact Bool.false_ne_true
  have nodup : table.names.Nodup := by
    have nodup := tracks.nodup
    rw [keys_toList] at nodup
    exact nodup.of_map _
  have subset : key :: table.names ⊆ keys := by
    intro name name_mem
    obtain rfl | later := List.mem_cons.mp name_mem
    · exact member
    · rw [tracks.mem_names, isSome_settings] at later
      obtain ⟨call, call_mem, rfl⟩ := List.mem_map.mp later
      exact among call call_mem
  have shorter := (List.Nodup.subperm (List.nodup_cons.mpr ⟨fresh, nodup⟩) subset).length_le
  have same : table.toList.length = table.names.length := by
    rw [Table.toList, Table.names, List.length_map, List.length_map]
  rw [List.length_cons] at shorter
  omega

theorem lookup_assign_key {other : List UInt8}
    (room : lookup entries name = none → entries.length < maxEntries ∧ name.length < keyMax) :
    lookup (assign entries name value) other =
      if other = name then some value else lookup entries other := by
  cases found : lookup entries name with
  | none => exact lookup_assign (.inr (room found))
  | some old =>
  have present : ∃ entry ∈ entries, entry.key = name := by
    have member := isSome_lookup.mp (Option.isSome_of_eq_some found)
    exact List.mem_map.mp member
  have any : (entries.any fun entry => entry.key = name) = true := by
    obtain ⟨entry, member, named⟩ := present
    exact List.any_eq_true.mpr ⟨entry, member, decide_eq_true named⟩
  rw [assign, if_pos any]
  exact lookup_update present

/-- A call with a key that is not cut. -/
theorem Tracks.step (tracks : Tracks table (settings calls)) (few : keys.length ≤ maxEntries)
    (among : ∀ other ∈ calls ++ [call], other.key ∈ keys)
    (fits : ∀ text, call.setting = .string text → text.val.length ≤ valueMax - 1)
    (short : call.key.val.length < keyMax) :
    Tracks (table.call call) (settings (calls ++ [call])) := by
  obtain ⟨clean, listed⟩ := toList_call tracks.clean fits
  constructor
  · exact clean
  · rw [listed]
    exact nodup_keys_assign short tracks.nodup
  intro key
  have member : call.key ∈ keys :=
    among call (List.mem_append_right _ (List.mem_singleton_self call))
  have room : lookup table.toList call.key.val = none →
      table.toList.length < maxEntries ∧ call.key.val.length < keyMax := by
    intro absent
    rw [tracks.lookup_eq, Option.map_eq_none_iff] at absent
    exact ⟨tracks.room few (fun other mem => among other (List.mem_append_left _ mem)) member
      absent, short⟩
  rw [listed, settings_append, lookup_assign_key room]
  by_cases same : key = call.key
  · rw [same, if_pos rfl, Function.update_self]
    rfl
  · rw [if_neg (fun equal => same (Subtype.ext equal)), Function.update_of_ne same]
    exact tracks.lookup_eq key

/-- Whatever the calls are, the arrays stay as they should be. -/
theorem clean_run (clean : table.Clean) : (calls.foldl Table.call table).Clean := by
  induction calls generalizing table with
  | nil => exact clean
  | cons call calls ih =>
  apply ih
  rw [Table.call]
  cases call.setting with
  | int value => exact (clean.toList_configSetInt value).1
  | string value => exact (clean.toList_configSetString value).1
  | bool value => exact (clean.toList_configSetBool value).1

theorem tracks_run (clean : table.Clean) (few : keys.length ≤ maxEntries)
    (among : ∀ call ∈ calls, call.key ∈ keys)
    (fits : ∀ call ∈ calls, ∀ text, call.setting = .string text →
      text.val.length ≤ valueMax - 1)
    (short : ∀ call ∈ calls, call.key.val.length < keyMax) :
    Tracks (calls.foldl Table.call table.configInit) (settings calls) := by
  induction calls using List.reverseRecOn with
  | nil =>
      refine ⟨⟨clean.key, clean.value⟩, List.nodup_nil, ?_⟩
      intro key
      rfl
  | append_singleton calls call ih =>
  have earlier : ∀ other ∈ calls, other ∈ calls ++ [call] :=
    fun other mem => List.mem_append_left _ mem
  have last : call ∈ calls ++ [call] :=
    List.mem_append_right _ (List.mem_singleton_self call)
  rw [List.foldl_append]
  apply Tracks.step _ few among (fits call last) (short call last)
  exact ih (fun other mem => among other (earlier other mem))
    (fun other mem => fits other (earlier other mem))
    (fun other mem => short other (earlier other mem))

/-- The type and the bytes of an entry with a value. -/
theorem toValue_eq_contents {entry : RawEntry} {setting : Setting}
    (same : setting.toValue = entry.contents) :
    match setting with
    | .int value => entry.type = .int ∧ BitVec.ofNat 32 (entry.value.readLE 0 4) = value
    | .string value => entry.type = .string ∧ arrayText valueMax entry.value = value
    | .bool value => entry.type = .bool ∧ decide (entry.value 0 ≠ 0) = value := by
  obtain ⟨name, bytes, type⟩ := entry
  cases setting with
  | int value =>
      cases type with
      | int => exact ⟨rfl, (BitVec.toInt_inj.mp (Value.int.inj same)).symm⟩
      | string => cases same
      | bool => cases same
  | string value =>
      cases type with
      | int => cases same
      | string => exact ⟨rfl, (Subtype.ext (Value.string.inj same)).symm⟩
      | bool => cases same
  | bool value =>
      cases type with
      | int => cases same
      | string => cases same
      | bool => exact ⟨rfl, (Value.bool.inj same).symm⟩

/-- What is got under a key. -/
theorem Tracks.get {settings : CString → Option Setting} (tracks : Tracks table settings)
    (key : CString) :
    (∃ (entry : RawEntry) (setting : Setting), settings key = some setting ∧
        setting.toValue = entry.contents ∧
        ∀ type, table.get key type = if entry.type = type then some entry.value else none) ∨
      (settings key = none ∧ ∀ type, table.get key type = none) := by
  obtain ⟨entry, found, got⟩ | ⟨absent, got⟩ := @Table.Clean.get_eq table key tracks.clean
    tracks.nodup
  · rw [tracks.lookup_eq, Option.map_eq_some_iff] at found
    obtain ⟨setting, here, same⟩ := found
    exact .inl ⟨entry, setting, here, same, got⟩
  · rw [tracks.lookup_eq, Option.map_eq_none_iff] at absent
    exact .inr ⟨absent, got⟩

/-- A table whose list is a map is a map. -/
theorem Tracks.refines {settings : CString → Option Setting} (tracks : Tracks table settings) :
    Refines table settings := by
  constructor
  · have nodup := tracks.nodup
    rw [keys_toList] at nodup
    exact nodup.of_map _
  · exact tracks.mem_names
  · intro key default
    obtain ⟨entry, setting, here, same, got⟩ | ⟨absent, got⟩ := tracks.get key
    · have typed := toValue_eq_contents same
      rw [Table.configGetInt, got, here]
      cases setting with
      | int value =>
          rw [if_pos typed.1]
          exact typed.2
      | string value => rw [typed.1, if_neg (by decide)]
      | bool value => rw [typed.1, if_neg (by decide)]
    · rw [Table.configGetInt, got, absent]
  · intro key default
    obtain ⟨entry, setting, here, same, got⟩ | ⟨absent, got⟩ := tracks.get key
    · have typed := toValue_eq_contents same
      rw [Table.configGetString, got, here]
      cases setting with
      | int value => rw [typed.1, if_neg (by decide)]
      | string value =>
          rw [if_pos typed.1]
          exact congrArg some typed.2
      | bool value => rw [typed.1, if_neg (by decide)]
    · rw [Table.configGetString, got, absent]
  · intro key default
    obtain ⟨entry, setting, here, same, got⟩ | ⟨absent, got⟩ := tracks.get key
    · have typed := toValue_eq_contents same
      rw [Table.configGetBool, got, here]
      cases setting with
      | int value => rw [typed.1, if_neg (by decide)]
      | string value => rw [typed.1, if_neg (by decide)]
      | bool value =>
          rw [if_pos typed.1]
          exact typed.2
    · rw [Table.configGetBool, got, absent]

end Runs

/-- The table is a map after some calls with few keys and short strings if and only if no key is
too long for its array. -/
theorem refines_settings_iff {table : Table} (clean : table.Clean) {calls : List Call}
    {keys : List CString} (few : keys.length ≤ maxEntries)
    (among : ∀ call ∈ calls, call.key ∈ keys)
    (fits : ∀ call ∈ calls, ∀ text, call.setting = .string text →
      text.val.length ≤ valueMax - 1) :
    Refines (calls.foldl Table.call table.configInit) (settings calls) ↔
      ∀ call ∈ calls, call.key.val.length < keyMax := by
  constructor
  · intro refines call member
    have set : (settings calls call.key).isSome :=
      isSome_settings.mpr (List.mem_map_of_mem member)
    obtain ⟨i, -, named⟩ := List.mem_map.mp ((refines.mem_names call.key).mpr set)
    have kept : (calls.foldl Table.call table.configInit).Clean :=
      clean_run ⟨clean.key, clean.value⟩
    rw [← named]
    exact kept.length_name i
  · intro short
    exact (tracks_run clean few among fits short).refines

/-- A string of some letters. -/
def letters (n : Nat) : CString :=
  ⟨List.replicate n 'a'.toUInt8, fun c member => by
    rw [List.eq_of_mem_replicate member]
    decide⟩

theorem length_letters (n : Nat) : (letters n).val.length = n := List.length_replicate

theorem clean_static : Table.static.Clean := ⟨fun _ => rfl, fun _ => rfl⟩

/-- A key of 31 characters is set twice, with different types. -/
theorem refines_settings_iff_twice :
    Refines ([⟨letters 31, .int 50⟩, ⟨letters 31, .bool true⟩].foldl Table.call
        Table.static.configInit)
      (settings [⟨letters 31, .int 50⟩, ⟨letters 31, .bool true⟩]) := by
  have same : ∀ call ∈ [⟨letters 31, .int 50⟩, (⟨letters 31, .bool true⟩ : Call)],
      call.key = letters 31 ∧ ∀ text, call.setting ≠ .string text := by
    intro call member
    cases member with
    | head => exact ⟨rfl, nofun⟩
    | tail _ member =>
        rw [List.mem_singleton.mp member]
        exact ⟨rfl, nofun⟩
  apply (@refines_settings_iff Table.static clean_static _ [letters 31] (by simp) _ _).mpr
  · intro call member
    rw [(same call member).1, length_letters]
    decide
  · intro call member
    exact List.mem_singleton.mpr (same call member).1
  · intro call member text kind
    exact absurd kind ((same call member).2 text)

/-- A key of 32 characters is set to a number, and getting the number gives the default. -/
theorem not_refines_settings :
    ¬∀ (table : Table) (calls : List Call) (keys : List CString), table.Clean →
        keys.length ≤ maxEntries → (∀ call ∈ calls, call.key ∈ keys) →
        (∀ call ∈ calls, ∀ text, call.setting = .string text → text.val.length ≤ valueMax - 1) →
        Refines (calls.foldl Table.call table.configInit) (settings calls) := by
  intro claimed
  have refines := claimed Table.static [⟨letters 32, .int 5⟩] [letters 32] clean_static
    (by simp) (fun call member => by
      rw [List.mem_singleton.mp member]
      exact List.mem_singleton_self _)
    (fun call member text kind => by
      rw [List.mem_singleton.mp member] at kind
      cases kind)
  have got := refines.getInt (letters 32) 0
  have kept : (Table.static.configInit.call ⟨letters 32, .int 5⟩).Clean :=
    (Table.Clean.toList_configSetInt ⟨clean_static.key, clean_static.value⟩ 5).1
  have long : keyMax ≤ (letters 32).val.length := (length_letters 32).ge
  have set : settings ([] ++ [⟨letters 32, .int 5⟩]) (letters 32) = some (.int 5) := by
    rw [settings_append]
    exact Function.update_self _ _ _
  rw [List.foldl_cons, List.foldl_nil, Table.configGetInt, kept.get_of_long long,
    ← List.nil_append [_], set] at got
  revert got
  decide

end Charis.Config
