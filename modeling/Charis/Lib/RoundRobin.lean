import Mathlib.Data.Fintype.Card
import Mathlib.Data.List.FinRange
import Mathlib.Data.Nat.ModEq
import Mathlib.Logic.Function.Basic

/-!
# Tables that are filled in turn

A table of fixed size is filled slot by slot, and from the first slot again when it is
full.  A key that is in the table gets a new value in place.  So a key is found, with the
last value that was learned for it, until as many other keys as there are slots have been
inserted after it.
-/

namespace Charis.Lib

/-- A table with `size + 1` slots, and the slot that is filled next. -/
structure RoundRobin (size : Nat) (κ ν : Type*) where
  slots : Fin (size + 1) → Option (κ × ν)
  next : Fin (size + 1)

namespace RoundRobin

variable {size : Nat} {κ ν : Type*} {table : RoundRobin size κ ν} {slot : Fin (size + 1)}
  {entry : κ × ν}

/-- Put an entry into a slot. -/
def put (table : RoundRobin size κ ν) (slot : Fin (size + 1)) (entry : κ × ν) :
    RoundRobin size κ ν :=
  { table with slots := Function.update table.slots slot (some entry) }

/-- Put an entry into the next slot. -/
def insert (table : RoundRobin size κ ν) (entry : κ × ν) : RoundRobin size κ ν :=
  { table.put table.next entry with next := table.next + 1 }

@[simp] theorem slots_put_self : (table.put slot entry).slots slot = some entry :=
  Function.update_self ..

theorem slots_put_of_ne {other : Fin (size + 1)} (apart : other ≠ slot) :
    (table.put slot entry).slots other = table.slots other :=
  Function.update_of_ne apart ..

theorem slots_insert : (table.insert entry).slots = (table.put table.next entry).slots := rfl

theorem next_insert : (table.insert entry).next.val = (table.next.val + 1) % (size + 1) := by
  rw [insert, Fin.val_add, Fin.val_one', Nat.add_mod_mod]

variable [DecidableEq κ] {key : κ}

/-- The slot of a key. -/
def slotOf (table : RoundRobin size κ ν) (key : κ) : Option (Fin (size + 1)) :=
  (List.finRange (size + 1)).find? fun slot => (table.slots slot).any fun entry => entry.1 = key

/-- The value of a key. -/
def lookup (table : RoundRobin size κ ν) (key : κ) : Option ν :=
  (table.slotOf key).bind fun slot => (table.slots slot).map Prod.snd

/-- Learn the value of a key. -/
def learn (table : RoundRobin size κ ν) (entry : κ × ν) : RoundRobin size κ ν :=
  match table.slotOf entry.1 with
  | some slot => table.put slot entry
  | none => table.insert entry

theorem slotOf_some (found : table.slotOf key = some slot) :
    ∃ value, table.slots slot = some (key, value) := by
  have holds := List.find?_some found
  rw [Option.any_eq_true] at holds
  obtain ⟨⟨other, value⟩, stored, same⟩ := holds
  rw [decide_eq_true_eq] at same
  exact ⟨value, by rw [stored, ← same]⟩

theorem slotOf_none (missing : table.slotOf key = none) (stored : table.slots slot = some entry) :
    entry.1 ≠ key := by
  intro same
  have absent := List.find?_eq_none.mp missing slot (List.mem_finRange slot)
  rw [stored, Option.any_some, decide_eq_true_eq] at absent
  exact absent same

theorem slotOf_isSome {value : ν} (stored : table.slots slot = some (key, value)) :
    ∃ other, table.slotOf key = some other := by
  cases found : table.slotOf key with
  | none => exact absurd rfl (slotOf_none found stored)
  | some other => exact ⟨other, rfl⟩

/-- What a table holds after some keys have been inserted, the last one first, and when
`latest` is the last value that was learned for each key. -/
structure Recalls (table : RoundRobin size κ ν) (inserted : List κ) (latest : κ → Option ν) :
    Prop where
  unique : ∀ {slot slot' entry entry'}, table.slots slot = some entry →
    table.slots slot' = some entry' → entry.1 = entry'.1 → slot = slot'
  /-- The slots before the next one hold the last keys. -/
  recent : ∀ {age key}, age ≤ size → inserted[age]? = some key →
    ∃ slot value, table.slots slot = some (key, value) ∧
      (slot.val + (age + 1)) % (size + 1) = table.next.val
  /-- As many keys in a row as there are slots differ. -/
  apart : ∀ later, ((inserted.drop later).take (size + 1)).Nodup
  value : ∀ {slot entry}, table.slots slot = some entry → latest entry.1 = some entry.2
  learned : ∀ {key value}, latest key = some value → key ∈ inserted

namespace Recalls

variable {inserted : List κ} {latest : κ → Option ν}

omit [DecidableEq κ] in
/-- Before anything is learned. -/
theorem empty (none : ∀ slot, table.slots slot = none) :
    table.Recalls [] fun _ => Option.none := by
  constructor
  · intro slot _ entry _ stored
    rw [none slot] at stored
    cases stored
  · intro age key _ found
    cases found
  · intro later
    rw [List.drop_nil, List.take_nil]
    exact .nil
  · intro slot entry stored
    rw [none slot] at stored
    cases stored
  · intro key value found
    cases found

/-- A key in the table gets its value in place. -/
theorem replace (recalls : table.Recalls inserted latest) {old : ν}
    (stored : table.slots slot = some (entry.1, old)) :
    (table.put slot entry).Recalls inserted
      (Function.update latest entry.1 (some entry.2)) := by
  have kept : ∀ {other entry'}, (table.put slot entry).slots other = some entry' →
      ∃ old', table.slots other = some (entry'.1, old') := by
    intro other entry' found
    by_cases same : other = slot
    · subst same
      rw [slots_put_self, Option.some.injEq] at found
      rw [← found]
      exact ⟨old, stored⟩
    · rw [slots_put_of_ne same] at found
      exact ⟨entry'.2, found⟩
  constructor
  · intro first second entry' entry'' found found' same
    obtain ⟨_, before⟩ := kept found
    obtain ⟨_, before'⟩ := kept found'
    exact recalls.unique before before' same
  · intro age key young found
    obtain ⟨place, value, here, distance⟩ := recalls.recent young found
    by_cases same : place = slot
    · subst same
      rw [stored, Option.some.injEq, Prod.mk.injEq] at here
      refine ⟨place, entry.2, ?_, distance⟩
      rw [slots_put_self, ← here.1]
    · refine ⟨place, value, ?_, distance⟩
      rw [slots_put_of_ne same]
      exact here
  · exact recalls.apart
  · intro place entry' found
    by_cases same : place = slot
    · subst same
      rw [slots_put_self, Option.some.injEq] at found
      rw [found, Function.update_self]
    · rw [slots_put_of_ne same] at found
      rw [Function.update_of_ne]
      · exact recalls.value found
      · intro equal
        exact same (recalls.unique found stored equal)
  · intro key value found
    by_cases same : key = entry.1
    · have known := recalls.value stored
      rw [same]
      exact recalls.learned known
    · rw [Function.update_of_ne same] at found
      exact recalls.learned found

theorem slot_ne_next (place next : Fin (size + 1)) {age : Nat} (young : age + 1 ≤ size)
    (distance : (place.val + (age + 1)) % (size + 1) = next.val) : place ≠ next := by
  intro same
  rw [same] at distance
  have around : next.val + (age + 1) ≡ next.val [MOD size + 1] := by
    rw [Nat.ModEq, distance, Nat.mod_eq_of_lt next.isLt]
  have divides : size + 1 ∣ age + 1 := Nat.left_modEq_add_iff.mp around.symm
  have large := Nat.le_of_dvd (Nat.succ_pos age) divides
  omega

/-- A key that is not in the table is put into the next slot. -/
theorem insert (recalls : table.Recalls inserted latest)
    (missing : table.slotOf entry.1 = none) :
    (table.insert entry).Recalls (entry.1 :: inserted)
      (Function.update latest entry.1 (some entry.2)) := by
  have cases : ∀ {place entry'},
      (table.insert entry).slots place = some entry' →
      (place = table.next ∧ entry' = entry) ∨
        (table.slots place = some entry' ∧ entry'.1 ≠ entry.1) := by
    intro place entry' found
    by_cases same : place = table.next
    · rw [same, slots_insert, slots_put_self, Option.some.injEq] at found
      exact .inl ⟨same, found.symm⟩
    · rw [slots_insert, slots_put_of_ne same] at found
      exact .inr ⟨found, slotOf_none missing found⟩
  constructor
  · intro first second entry' entry'' found found' same
    rcases cases found with ⟨here, equal⟩ | ⟨before, other⟩
    · rcases cases found' with ⟨here', -⟩ | ⟨-, other'⟩
      · rw [here, here']
      · exact absurd (same.symm.trans (congrArg Prod.fst equal)) other'
    · rcases cases found' with ⟨-, equal'⟩ | ⟨before', -⟩
      · exact absurd (same.trans (congrArg Prod.fst equal')) other
      · exact recalls.unique before before' same
  · intro age key young found
    cases age with
    | zero =>
        refine ⟨table.next, entry.2, ?_, next_insert.symm⟩
        rw [List.getElem?_cons_zero, Option.some.injEq] at found
        rw [slots_insert, slots_put_self, ← found]
    | succ age =>
    rw [List.getElem?_cons_succ] at found
    obtain ⟨place, value, here, distance⟩ := recalls.recent (Nat.le_of_succ_le young) found
    refine ⟨place, value, ?_, ?_⟩
    · rw [slots_insert, slots_put_of_ne (slot_ne_next place table.next young distance)]
      exact here
    · rw [next_insert, ← distance, Nat.mod_add_mod, Nat.add_assoc place.val]
  · intro later
    cases later with
    | succ later => exact recalls.apart later
    | zero =>
    rw [List.drop_zero, List.take_succ_cons, List.nodup_cons]
    constructor
    · intro member
      obtain ⟨age, inside, found⟩ := List.mem_iff_getElem.mp member
      rw [List.length_take] at inside
      rw [List.getElem_take] at found
      have young : age ≤ size := by omega
      obtain ⟨place, value, here, -⟩ :=
        recalls.recent young ((List.getElem?_eq_getElem (by omega)).trans (congrArg some found))
      exact slotOf_none missing here rfl
    · have all := recalls.apart 0
      rw [List.drop_zero] at all
      exact all.sublist (List.take_sublist_take_left (Nat.le_succ size))
  · intro place entry' found
    rcases cases found with ⟨-, equal⟩ | ⟨before, other⟩
    · rw [equal, Function.update_self]
    · rw [Function.update_of_ne other]
      exact recalls.value before
  · intro key value found
    by_cases same : key = entry.1
    · rw [same]
      exact List.mem_cons_self
    · rw [Function.update_of_ne same] at found
      exact List.mem_cons_of_mem _ (recalls.learned found)

/-- Learning an entry: the key is inserted if it is missing. -/
theorem learn (recalls : table.Recalls inserted latest) (entry : κ × ν) :
    (table.learn entry).Recalls
      ((if (table.slotOf entry.1).isNone then [entry.1] else []) ++ inserted)
      (Function.update latest entry.1 (some entry.2)) := by
  unfold RoundRobin.learn
  cases found : table.slotOf entry.1 with
  | some slot =>
      obtain ⟨_, stored⟩ := slotOf_some found
      exact recalls.replace stored
  | none => exact recalls.insert found

/-- Behind a key there are different keys, or more of them than fit. -/
theorem age_le (recalls : table.Recalls inserted latest)
    (few : (inserted.takeWhile (· ≠ key)).toFinset.card ≤ size) :
    (inserted.takeWhile (· ≠ key)).length ≤ size := by
  generalize behind : inserted.takeWhile (· ≠ key) = newer at few
  by_contra many
  rw [not_le] at many
  have window : newer.drop (newer.length - (size + 1)) =
      (inserted.drop (newer.length - (size + 1))).take (size + 1) := by
    obtain ⟨older, split⟩ : newer <+: inserted := behind ▸ List.takeWhile_prefix _
    have shape : inserted.drop (newer.length - (size + 1)) =
        newer.drop (newer.length - (size + 1)) ++ older := by
      rw [← split, List.drop_append_of_le_length (Nat.sub_le _ _)]
    have length : (newer.drop (newer.length - (size + 1))).length = size + 1 := by
      rw [List.length_drop]
      omega
    rw [shape, List.take_append_of_le_length length.ge, List.take_of_length_le length.le]
  have distinct : (newer.drop (newer.length - (size + 1))).Nodup :=
    window ▸ recalls.apart (newer.length - (size + 1))
  have inside : (newer.drop (newer.length - (size + 1))).toFinset ⊆ newer.toFinset := by
    intro other member
    rw [List.mem_toFinset] at member ⊢
    exact List.mem_of_mem_drop member
  have count := Finset.card_le_card inside
  rw [List.toFinset_card_of_nodup distinct, List.length_drop] at count
  omega

/-- A key is found with its last value as long as no more other keys than fit have been
inserted after it. -/
theorem lookup_eq (recalls : table.Recalls inserted latest) {value : ν}
    (learned : latest key = some value)
    (few : (inserted.takeWhile (· ≠ key)).toFinset.card ≤ size) :
    table.lookup key = some value := by
  have young := recalls.age_le few
  have here : inserted[(inserted.takeWhile (· ≠ key)).length]? = some key := by
    have member := recalls.learned learned
    clear few young learned recalls
    induction inserted with
    | nil => cases member
    | cons first rest ih =>
    by_cases same : first = key
    · rw [List.takeWhile_cons_of_neg (by simpa using same), same]
      rfl
    · rw [List.takeWhile_cons_of_pos (by simpa using same), List.length_cons,
        List.getElem?_cons_succ]
      exact ih ((List.mem_cons.mp member).resolve_left fun equal => same equal.symm)
  obtain ⟨slot, old, stored, -⟩ := recalls.recent young here
  obtain ⟨found, slotOf⟩ := slotOf_isSome stored
  obtain ⟨current, holds⟩ := slotOf_some slotOf
  have latestValue := recalls.value holds
  rw [learned, Option.some.injEq] at latestValue
  rw [lookup, slotOf, Option.bind_some, holds, Option.map_some, latestValue]

end Recalls

end RoundRobin

end Charis.Lib
