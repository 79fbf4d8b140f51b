import Charis.Net.Stack

/-!
# The table of UDP ports

The table of ports is a map from ports to handlers with room for eight ports, whatever slots they
are in.
-/

namespace Charis.Net

/-- The calls that change the table. -/
inductive PortCall
  | bind (port : BitVec 16) (handler : Option UdpHandler)
  | unbind (port : BitVec 16)

def Stack.callPort (stack : Stack) : PortCall → Bool × Stack
  | .bind port handler => netUdpBind stack port handler
  | .unbind port => (true, netUdpUnbind stack port)

/-- What the calls return, and the stack after them. -/
def Stack.callPorts (stack : Stack) : List PortCall → List Bool × Stack
  | [] => ([], stack)
  | call :: calls =>
      let rest := (stack.callPort call).2.callPorts calls
      ((stack.callPort call).1 :: rest.1, rest.2)

/-- The handlers of the ports. -/
abbrev PortMap := BitVec 16 → Option UdpHandler

namespace PortMap

def bound (ports : PortMap) : Set (BitVec 16) := {port | (ports port).isSome}

open Classical in
/-- A port is bound anew, or there is room for one more. -/
noncomputable def callPort (ports : PortMap) : PortCall → Bool × PortMap
  | .bind port handler =>
      if port ≠ 0 ∧ handler.isSome ∧ ((ports port).isSome ∨ ports.bound.ncard < 8) then
        (true, Function.update ports port handler)
      else (false, ports)
  | .unbind port => (true, Function.update ports port none)

noncomputable def callPorts (ports : PortMap) : List PortCall → List Bool × PortMap
  | [] => ([], ports)
  | call :: calls =>
      let rest := callPorts (ports.callPort call).2 calls
      ((ports.callPort call).1 :: rest.1, rest.2)

end PortMap

/-- Every port of the map is in one slot, with its handler. -/
structure Tabulates (bindings : Fin 8 → UdpBinding) (ports : PortMap) : Prop where
  handler : ∀ slot, (bindings slot).port ≠ 0 →
    (bindings slot).handler = ports (bindings slot).port ∧ (bindings slot).handler.isSome
  free : ∀ slot, (bindings slot).port = 0 → (bindings slot).handler = none
  distinct : ∀ slot other, (bindings slot).port ≠ 0 →
    (bindings slot).port = (bindings other).port → slot = other
  listed : ∀ port, (ports port).isSome → ∃ slot, (bindings slot).port = port ∧ port ≠ 0

namespace Tabulates

variable {bindings : Fin 8 → UdpBinding} {ports : PortMap} {slot : Fin 8} {port : BitVec 16}

theorem bound_eq (table : Tabulates bindings ports) :
    ports.bound = (fun slot => (bindings slot).port) '' {slot | (bindings slot).port ≠ 0} := by
  ext port
  constructor
  · intro bound
    obtain ⟨slot, here, nonzero⟩ := table.listed port bound
    refine ⟨slot, ?_, here⟩
    change (bindings slot).port ≠ 0
    rwa [here]
  · rintro ⟨slot, used, rfl⟩
    change (ports (bindings slot).port).isSome
    rw [← (table.handler slot used).1]
    exact (table.handler slot used).2

/-- There is room for another port exactly if a slot is free. -/
theorem room_iff (table : Tabulates bindings ports) :
    ports.bound.ncard < 8 ↔ ∃ slot, (bindings slot).port = 0 := by
  have count : ports.bound.ncard = {slot | (bindings slot).port ≠ 0}.ncard := by
    rw [table.bound_eq]
    apply Set.InjOn.ncard_image
    intro slot used other _ same
    exact table.distinct slot other used same
  rw [count]
  constructor
  · intro fewer
    by_contra full
    have all : {slot | (bindings slot).port ≠ 0} = Set.univ :=
      Set.eq_univ_of_forall fun slot zero => full ⟨slot, zero⟩
    rw [all, Set.ncard_univ, Nat.card_eq_fintype_card, Fintype.card_fin] at fewer
    exact absurd fewer (Nat.lt_irrefl 8)
  · rintro ⟨slot, zero⟩
    have fewer := Set.ncard_lt_card (s := {slot | (bindings slot).port ≠ 0})
      (fun all => (all ▸ Set.mem_univ slot : slot ∈ {slot | (bindings slot).port ≠ 0}) zero)
    rwa [Nat.card_eq_fintype_card, Fintype.card_fin] at fewer

/-- A slot that is free or has a port gets the port with a handler, or becomes free. -/
theorem change (table : Tabulates bindings ports) (nonzero : port ≠ 0) {binding : UdpBinding}
    (old : (bindings slot).port = port ∨ (bindings slot).port = 0)
    (alone : ∀ other, other ≠ slot → (bindings other).port ≠ port)
    (fits : binding.port = port ∧ binding.handler.isSome ∨
      binding.port = 0 ∧ binding.handler = none) :
    Tabulates (Function.update bindings slot binding)
      (Function.update ports port binding.handler) where
  handler := by
    intro other used
    by_cases here : other = slot
    · rw [here, Function.update_self] at used ⊢
      obtain ⟨same, some⟩ | ⟨zero, -⟩ := fits
      · exact ⟨by rw [same, Function.update_self], some⟩
      · exact absurd zero used
    · rw [Function.update_of_ne here] at used ⊢
      rw [Function.update_of_ne (alone other here)]
      exact table.handler other used
  free := by
    intro other zero
    by_cases here : other = slot
    · rw [here, Function.update_self] at zero ⊢
      obtain ⟨same, -⟩ | ⟨-, none⟩ := fits
      · exact absurd (same.symm.trans zero) nonzero
      · exact none
    · rw [Function.update_of_ne here] at zero ⊢
      exact table.free other zero
  distinct := by
    -- no other slot has the port of the new binding
    have apart : ∀ other, other ≠ slot → binding.port ≠ 0 → (bindings other).port ≠ binding.port := by
      intro other different used
      obtain ⟨same, -⟩ | ⟨zero, -⟩ := fits
      · exact same ▸ alone other different
      · exact absurd zero used
    intro first second used same
    by_cases here : first = slot
    · by_contra different
      rw [here] at different
      rw [here, Function.update_self] at used same
      rw [Function.update_of_ne (Ne.symm different)] at same
      exact apart second (Ne.symm different) used same.symm
    · rw [Function.update_of_ne here] at used same
      by_cases there : second = slot
      · rw [there, Function.update_self] at same
        exact absurd same (apart first here (same ▸ used))
      · rw [Function.update_of_ne there] at same
        exact table.distinct first second used same
  listed := by
    intro other bound
    by_cases same : other = port
    · rw [same, Function.update_self] at bound
      obtain ⟨own, -⟩ | ⟨-, none⟩ := fits
      · exact ⟨slot, by rw [Function.update_self, own, same], same ▸ nonzero⟩
      · rw [none] at bound
        cases bound
    · rw [Function.update_of_ne same] at bound
      obtain ⟨place, here, some⟩ := table.listed other bound
      refine ⟨place, ?_, some⟩
      rw [Function.update_of_ne, here]
      rintro rfl
      rw [here] at old
      exact old.elim same some

/-- The search of the handler of a port finds the one of the map. -/
theorem find_eq (table : Tabulates bindings ports) (port : BitVec 16) :
    ((List.finRange 8).find? fun slot =>
      (bindings slot).port = port && (bindings slot).handler.isSome).bind
        (fun slot => (bindings slot).handler) = ports port := by
  cases found : (List.finRange 8).find? _ with
  | some slot =>
      have match' := List.find?_some found
      rw [Bool.and_eq_true, decide_eq_true_eq] at match'
      have used : (bindings slot).port ≠ 0 := by
        intro zero
        rw [table.free slot zero] at match'
        cases match'.2
      rw [Option.bind_some, (table.handler slot used).1, match'.1]
  | none =>
  rw [Option.bind_none, eq_comm, ← Option.not_isSome_iff_eq_none]
  intro bound
  obtain ⟨slot, here, nonzero⟩ := table.listed port bound
  have missed := List.find?_eq_none.mp found slot (List.mem_finRange slot)
  rw [here, Bool.and_eq_true, decide_eq_true_eq] at missed
  exact missed ⟨rfl, (table.handler slot (here ▸ nonzero)).2⟩

end Tabulates

section Calls

variable {stack : Stack} {ports : PortMap}

/-- A call returns what it does for the map, and the table stands for the map after it. -/
theorem Tabulates.callPort (table : Tabulates stack.udpBindings ports) (call : PortCall) :
    (stack.callPort call).1 = (ports.callPort call).1 ∧
      Tabulates (stack.callPort call).2.udpBindings (ports.callPort call).2 := by
  have unlisted {port : BitVec 16}
      (missing : (List.finRange 8).find? (fun slot => (stack.udpBindings slot).port = port) = none) :
      ∀ slot, (stack.udpBindings slot).port ≠ port := fun slot => by
    simpa using List.find?_eq_none.mp missing slot (List.mem_finRange slot)
  have unbound {port : BitVec 16} (missing : ∀ slot, (stack.udpBindings slot).port ≠ port) :
      ports port = none := by
    rw [← Option.not_isSome_iff_eq_none]
    intro bound
    obtain ⟨slot, here, -⟩ := table.listed port bound
    exact missing slot here
  have alone {port : BitVec 16} {slot : Fin 8} (nonzero : port ≠ 0)
      (here : (stack.udpBindings slot).port = port) :
      ∀ other, other ≠ slot → (stack.udpBindings other).port ≠ port := by
    intro other different same
    exact different (table.distinct other slot (same ▸ nonzero) (same.trans here.symm))
  cases call with
  | bind port handler =>
      rw [Stack.callPort, PortMap.callPort, netUdpBind]
      by_cases zero : port = 0
      · rw [if_pos (by simp [zero]), if_neg (fun both => both.1 zero)]
        exact ⟨rfl, table⟩
      by_cases missing : handler = none
      · rw [if_pos (by simp [missing]), if_neg (by simp [missing])]
        exact ⟨rfl, table⟩
      have given : handler.isSome := Option.isSome_iff_ne_none.mpr missing
      rw [if_neg (by simpa [missing] using zero)]
      split
      · next slot found =>
        have here : (stack.udpBindings slot).port = port := by simpa using List.find?_some found
        have bound := table.handler slot (here ▸ zero)
        rw [if_pos ⟨zero, given, .inl (by rw [← here, ← bound.1]; exact bound.2)⟩]
        exact ⟨rfl, table.change zero (.inl here) (alone zero here) (.inl ⟨rfl, given⟩)⟩
      next missing =>
      split
      · next slot found =>
        have free : (stack.udpBindings slot).port = 0 := by simpa using List.find?_some found
        rw [if_pos ⟨zero, given, .inr (table.room_iff.mpr ⟨slot, free⟩)⟩]
        exact ⟨rfl, table.change zero (.inr free) (fun other _ => unlisted missing other)
          (.inl ⟨rfl, given⟩)⟩
      · next full =>
        rw [if_neg]
        · exact ⟨rfl, table⟩
        · rintro ⟨-, -, again | room⟩
          · rw [unbound (unlisted missing)] at again
            cases again
          · obtain ⟨slot, free⟩ := table.room_iff.mp room
            exact unlisted full slot free
  | unbind port =>
  refine ⟨rfl, ?_⟩
  rw [Stack.callPort, PortMap.callPort, netUdpUnbind]
  have nothing (missing : ports port = none) :
      Tabulates stack.udpBindings (Function.update ports port none) := by
    rwa [← missing, Function.update_eq_self]
  by_cases zero : port = 0
  · rw [if_pos zero]
    apply nothing
    rw [← Option.not_isSome_iff_eq_none]
    intro bound
    obtain ⟨-, -, nonzero⟩ := table.listed port bound
    exact nonzero zero
  rw [if_neg zero]
  split
  · next slot found =>
    have here : (stack.udpBindings slot).port = port := by simpa using List.find?_some found
    exact table.change zero (.inl here) (alone zero here) (.inr ⟨rfl, rfl⟩)
  · next missing => exact nothing (unbound (unlisted missing))

/-- From an empty table on every sequence of calls returns what it does for a map with room for
eight ports, and a port is found with the handler that it has in the map. -/
theorem ports_refine_map (stack : Stack) (calls : List PortCall) :
    let after := Stack.callPorts { stack with udpBindings := fun _ => ⟨0, none⟩ } calls
    let ports := PortMap.callPorts (fun _ => none) calls
    after.1 = ports.1 ∧ ∀ port, after.2.udpHandler port = ports.2 port := by
  have table : Tabulates (fun _ => ⟨0, none⟩) fun _ => none :=
    ⟨fun _ used => absurd rfl used, fun _ _ => rfl, fun _ _ used => absurd rfl used,
      fun _ bound => by cases bound⟩
  generalize same : ({ stack with udpBindings := fun _ => ⟨0, none⟩ } : Stack) = start
  have table : Tabulates start.udpBindings fun _ => none := same ▸ table
  clear same
  generalize (fun _ => none : PortMap) = ports at table
  induction calls generalizing start ports with
  | nil => exact ⟨rfl, table.find_eq⟩
  | cons call calls ih =>
      obtain ⟨answer, table'⟩ := table.callPort call
      obtain ⟨answers, handlers⟩ := ih _ _ table'
      exact ⟨congrArg₂ List.cons answer answers, handlers⟩

end Calls

end Charis.Net
