import Charis.Lib.RoundRobin
import Charis.Net.World

/-!
# The cache of neighbours

The cache is a table that is filled in turn, with the addresses of neighbours as keys.
Entries that are not valid count as empty slots.
-/

namespace Charis.Net

open Charis.Lib

/-- The bit of an Ethernet address that marks a group. -/
def Mac.isMulticast (mac : Mac) : Bool := mac.getLsbD 40

/-- What `arp_cache_learn` takes. -/
def ArpAccepts (learn : Ipv4 × Mac) : Prop :=
  learn.1 ≠ 0 ∧ learn.2 ≠ 0 ∧ learn.2.isMulticast = false

instance : DecidablePred ArpAccepts := fun learn =>
  inferInstanceAs (Decidable (learn.1 ≠ 0 ∧ learn.2 ≠ 0 ∧ learn.2.isMulticast = false))

/-- Some calls of `arp_cache_learn`. -/
def arpLearnAll (stack : Stack) (learns : List (Ipv4 × Mac)) : Stack :=
  learns.foldl (fun stack learn => arpCacheLearn stack learn.1 learn.2) stack

/-- The addresses that get a new entry, in this order. -/
def arpInsertions (stack : Stack) : List (Ipv4 × Mac) → List Ipv4
  | [] => []
  | learn :: rest =>
      (if ArpAccepts learn ∧ stack.findArp learn.1 = none then [learn.1] else []) ++
        arpInsertions (arpCacheLearn stack learn.1 learn.2) rest

/-- The last Ethernet address that was accepted for an address. -/
def lastLearned (learns : List (Ipv4 × Mac)) (ip : Ipv4) : Option Mac :=
  (learns.reverse.find? fun learn => decide (ArpAccepts learn ∧ learn.1 = ip)).map Prod.snd

/-- The addresses that were inserted after the last insertion of an address. -/
def insertedSince (ip : Ipv4) (insertions : List Ipv4) : List Ipv4 :=
  insertions.reverse.takeWhile (· ≠ ip)

/-- What a slot of the cache holds. -/
def ArpEntry.content (entry : ArpEntry) : Option (Ipv4 × Mac) :=
  if entry.valid then some (entry.ip, entry.mac) else none

/-- The valid entries. -/
def Stack.arpTable (stack : Stack) : RoundRobin 15 Ipv4 Mac where
  slots slot := (stack.arpCache slot).content
  next := stack.arpCacheNext

section Table

variable {stack : Stack} {ip : Ipv4} {mac : Mac} {slot : Fin 16}

theorem arpTable_slots_eq_some :
    stack.arpTable.slots slot = some (ip, mac) ↔
      (stack.arpCache slot).valid = true ∧ (stack.arpCache slot).ip = ip ∧
        (stack.arpCache slot).mac = mac := by
  simp [Stack.arpTable, ArpEntry.content]

theorem findArp_eq_slotOf (stack : Stack) (ip : Ipv4) :
    stack.findArp ip = stack.arpTable.slotOf ip := by
  rw [Stack.findArp, RoundRobin.slotOf]
  congr 1
  funext slot
  simp only [Stack.arpTable, ArpEntry.content]
  cases (stack.arpCache slot).valid with
  | true => simp
  | false => simp

theorem findArp_mac (stack : Stack) (ip : Ipv4) :
    (stack.findArp ip).map (fun slot => (stack.arpCache slot).mac) =
      stack.arpTable.lookup ip := by
  rw [findArp_eq_slotOf, RoundRobin.lookup]
  cases found : stack.arpTable.slotOf ip with
  | none => rfl
  | some slot =>
      obtain ⟨mac, stored⟩ := RoundRobin.slotOf_some found
      rw [Option.bind_some, Option.map_some, stored, Option.map_some,
        (arpTable_slots_eq_some.mp stored).2.2]

theorem arpTable_learn {learn : Ipv4 × Mac} (accepts : ArpAccepts learn) (stack : Stack) :
    (arpCacheLearn stack learn.1 learn.2).arpTable = stack.arpTable.learn learn := by
  obtain ⟨ip, mac, single⟩ := accepts
  have taken : ¬ (learn.1 = 0 ∨ learn.2 = 0 ∨ learn.2.getLsbD 40 = true) := by
    rintro (zero | zero | group)
    · exact ip zero
    · exact mac zero
    · exact Bool.false_ne_true (single.symm.trans group)
  have put : ∀ (slot : Fin 16) (entry : ArpEntry),
      (fun other => (Function.update stack.arpCache slot entry other).content) =
        Function.update stack.arpTable.slots slot entry.content :=
    fun slot entry => Function.comp_update ArpEntry.content stack.arpCache slot entry
  rw [arpCacheLearn, if_neg taken, findArp_eq_slotOf, RoundRobin.learn]
  cases found : stack.arpTable.slotOf learn.1 with
  | some slot =>
      obtain ⟨old, stored⟩ := RoundRobin.slotOf_some found
      obtain ⟨valid, address, -⟩ := arpTable_slots_eq_some.mp stored
      have content : ({ stack.arpCache slot with mac := learn.2 } : ArpEntry).content =
          some learn := by
        rw [ArpEntry.content, if_pos valid, address]
      dsimp only
      rw [Stack.arpTable, put, content]
      rfl
  | none =>
      dsimp only
      rw [Stack.arpTable, put]
      rfl

/-- Any other pair is left out. -/
theorem arpCacheLearn_of_rejected {learn : Ipv4 × Mac} (rejects : ¬ ArpAccepts learn)
    (stack : Stack) : arpCacheLearn stack learn.1 learn.2 = stack := by
  rw [arpCacheLearn, if_pos]
  by_contra taken
  apply rejects
  simp only [not_or, Bool.not_eq_true] at taken
  exact taken

end Table

section History

variable {stack : Stack} {learns : List (Ipv4 × Mac)}

theorem arpInsertions_append (stack : Stack) (learns more : List (Ipv4 × Mac)) :
    arpInsertions stack (learns ++ more) =
      arpInsertions stack learns ++ arpInsertions (arpLearnAll stack learns) more := by
  induction learns generalizing stack with
  | nil => rfl
  | cons learn rest ih =>
      rw [List.cons_append, arpInsertions, ih, arpInsertions, List.append_assoc]
      rfl

theorem arpLearnAll_append (stack : Stack) (learns more : List (Ipv4 × Mac)) :
    arpLearnAll stack (learns ++ more) = arpLearnAll (arpLearnAll stack learns) more :=
  List.foldl_append

theorem lastLearned_append_singleton (learns : List (Ipv4 × Mac)) (learn : Ipv4 × Mac) :
    lastLearned (learns ++ [learn]) =
      if ArpAccepts learn then Function.update (lastLearned learns) learn.1 (some learn.2)
      else lastLearned learns := by
  funext ip
  rw [lastLearned, List.reverse_append, List.reverse_singleton, List.singleton_append]
  by_cases accepts : ArpAccepts learn
  · rw [if_pos accepts]
    by_cases same : learn.1 = ip
    · rw [List.find?_cons_of_pos (by simp [accepts, same]), ← same, Function.update_self]
      rfl
    · rw [List.find?_cons_of_neg (by simp [same]), Function.update_of_ne (Ne.symm same)]
      rfl
  · rw [if_neg accepts, List.find?_cons_of_neg (by simp [accepts])]
    rfl

theorem lastLearned_accepted {ip : Ipv4} {mac : Mac} (last : lastLearned learns ip = some mac) :
    ArpAccepts (ip, mac) := by
  rw [lastLearned, Option.map_eq_some_iff] at last
  obtain ⟨learn, found, same⟩ := last
  have holds := List.find?_some found
  rw [decide_eq_true_eq] at holds
  rw [← holds.2, ← same]
  exact holds.1

/-- After any calls the cache holds what was inserted last, with the last value for each
address. -/
theorem arpRecalls (empty : ∀ slot, (stack.arpCache slot).valid = false)
    (learns : List (Ipv4 × Mac)) :
    (arpLearnAll stack learns).arpTable.Recalls (arpInsertions stack learns).reverse
      (lastLearned learns) := by
  induction learns using List.reverseRecOn with
  | nil =>
      apply RoundRobin.Recalls.empty
      intro slot
      simp [arpLearnAll, Stack.arpTable, ArpEntry.content, empty slot]
  | append_singleton learns learn ih =>
  rw [arpLearnAll_append, arpInsertions_append, List.reverse_append,
    lastLearned_append_singleton]
  simp only [arpInsertions, List.append_nil]
  change (arpCacheLearn (arpLearnAll stack learns) learn.1 learn.2).arpTable.Recalls _ _
  by_cases accepts : ArpAccepts learn
  · have step := ih.learn learn
    rw [← findArp_eq_slotOf] at step
    rw [arpTable_learn accepts, if_pos accepts]
    cases found : (arpLearnAll stack learns).findArp learn.1 with
    | none =>
        rw [found] at step
        rw [if_pos ⟨accepts, rfl⟩]
        exact step
    | some slot =>
        rw [found] at step
        rw [if_neg (fun both => nomatch both.2)]
        exact step
  · rw [arpCacheLearn_of_rejected accepts, if_neg accepts,
      if_neg (fun both => accepts both.1)]
    exact ih

end History

/-- The valid entries have different addresses, and each of them can be learned. -/
structure ArpSound (stack : Stack) : Prop where
  unique : ∀ {slot slot'}, (stack.arpCache slot).valid = true →
    (stack.arpCache slot').valid = true →
    (stack.arpCache slot).ip = (stack.arpCache slot').ip → slot = slot'
  ip : ∀ {slot}, (stack.arpCache slot).valid = true → (stack.arpCache slot).ip ≠ 0
  mac : ∀ {slot}, (stack.arpCache slot).valid = true → (stack.arpCache slot).mac ≠ 0
  single : ∀ {slot}, (stack.arpCache slot).valid = true →
    (stack.arpCache slot).mac.isMulticast = false

/-- An address is resolved, as `net_stack_resolve_ipv4` does it once the stack is
configured. -/
structure Resolves (stack : Stack) (ip : Ipv4) (mac : Mac) : Prop where
  found : (stack.findArp ip).map (fun slot => (stack.arpCache slot).mac) = some mac
  resolved : stack.ready = true → stack.ipIsConfigured = true →
    netStackResolveIpv4 stack ip = (some mac, stack)

theorem resolves_of_found {stack : Stack} {ip : Ipv4} {mac : Mac} (given : ip ≠ 0)
    (found : (stack.findArp ip).map (fun slot => (stack.arpCache slot).mac) = some mac) :
    Resolves stack ip mac := by
  refine ⟨found, ?_⟩
  intro ready configured
  have same : stack.ensureReady = stack := if_pos ready
  obtain ⟨slot, place, value⟩ := Option.map_eq_some_iff.mp found
  rw [netStackResolveIpv4, same]
  simp only [configured, given, Bool.not_true, Bool.false_eq_true, or_self, if_false, place, value]

/-- However the cache has been filled, it is sound, and an address that was learned is
resolved to the last value as long as at most 15 other addresses have been inserted after
it. -/
theorem arp_cache_recalls {stack : Stack} (empty : ∀ slot, (stack.arpCache slot).valid = false)
    (learns : List (Ipv4 × Mac)) :
    ArpSound (arpLearnAll stack learns) ∧
      ∀ ip mac, lastLearned learns ip = some mac →
        (insertedSince ip (arpInsertions stack learns)).toFinset.card ≤ 15 →
        Resolves (arpLearnAll stack learns) ip mac := by
  have recalls := arpRecalls empty learns
  have accepted : ∀ {slot}, ((arpLearnAll stack learns).arpCache slot).valid = true →
      ArpAccepts (((arpLearnAll stack learns).arpCache slot).ip,
        ((arpLearnAll stack learns).arpCache slot).mac) := by
    intro slot valid
    have stored := arpTable_slots_eq_some.mpr ⟨valid, rfl, rfl⟩
    exact lastLearned_accepted (recalls.value stored)
  constructor
  · constructor
    · intro slot slot' valid valid' same
      exact recalls.unique (arpTable_slots_eq_some.mpr ⟨valid, rfl, rfl⟩)
        (arpTable_slots_eq_some.mpr ⟨valid', rfl, rfl⟩) same
    · intro slot valid
      exact (accepted valid).1
    · intro slot valid
      exact (accepted valid).2.1
    · intro slot valid
      exact (accepted valid).2.2
  · intro ip mac last few
    apply resolves_of_found (lastLearned_accepted last).1
    rw [findArp_mac]
    exact recalls.lookup_eq last few

/-- A configured stack that has heard of nobody. -/
def lonelyStack : Stack :=
  { neighbourWorld.stack with arpCache := fun _ => ⟨0, 0, false⟩, arpCacheNext := 0 }

/-- The gateway gets another card while other machines are heard of. -/
def heardOf : List (Ipv4 × Mac) :=
  [(0x0A000202, 0x525500000202), (0x0A000203, 0x525500000203), (0, 0x525500000204),
    (0x0A000204, 0xFFFFFFFFFFFF), (0x0A000202, 0x525500000205)]

theorem arp_cache_recalls_gateway :
    Resolves (arpLearnAll lonelyStack heardOf) 0x0A000202 0x525500000205 :=
  (arp_cache_recalls (fun _ => rfl) heardOf).2 0x0A000202 0x525500000205 (by decide +kernel)
    (by decide +kernel)

end Charis.Net
