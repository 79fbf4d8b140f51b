import Charis.Il.Compiler
import Charis.Il.Histories

/-!
# The compiler and the interpreter agree

A text in postfix notation means what it prints when it is evaluated over the integers modulo
2 ^ 64.  Its instructions are those of its tokens, one for each, and the interpreter prints the
same.
-/

namespace Charis.Il

open Charis.Lib Charis.Net Charis.Text

/-- A word of a text. -/
inductive Token where
  | number (digits : List UInt8) (proper : digits ≠ [] ∧ digits.all isDigit = true)
  | add
  | sub
  | mul
  | eq
  | print
  | halt

/-- The number that digits stand for. -/
def decimal (digits : List UInt8) : Nat :=
  digits.foldl (fun value c => value * 10 + (c - '0'.toUInt8).toNat) 0

namespace Token

/-- How a token is written. -/
def text : Token → List UInt8
  | .number digits _ => digits
  | .add => ['+'.toUInt8]
  | .sub => ['-'.toUInt8]
  | .mul => ['*'.toUInt8]
  | .eq => ['='.toUInt8, '='.toUInt8]
  | .print => ['p'.toUInt8]
  | .halt => ['h'.toUInt8]

/-- The instruction for a token. -/
def instruction : Token → Instruction
  | .number digits _ => ⟨ilLoadi, UInt64.ofNat (decimal digits)⟩
  | .add => ⟨ilAdd, 0⟩
  | .sub => ⟨ilSub, 0⟩
  | .mul => ⟨ilMul, 0⟩
  | .eq => ⟨ilEq, 0⟩
  | .print => ⟨ilPrint, 0⟩
  | .halt => ⟨ilHalt, 0⟩

end Token

/-- A character between tokens. -/
def IsBlank (c : UInt8) : Prop := c = ' '.toUInt8 ∨ c = '\n'.toUInt8 ∨ c = '\t'.toUInt8

/-- Tokens are written one after the other with blanks between them. -/
inductive Written : List Token → List UInt8 → Prop
  | done : Written [] []
  | blank {tokens : List Token} {c : UInt8} {rest : List UInt8} :
      IsBlank c → Written tokens rest → Written tokens (c :: rest)
  | token {tokens : List Token} {token : Token} {rest : List UInt8} :
      (∀ c ∈ rest.head?, IsBlank c) → Written tokens rest →
      Written (token :: tokens) (token.text ++ rest)

/-- The result of an operator on the two values on top of a stack. -/
def operate (operator : Nat → Nat → Nat) : List Nat → Option (List Nat)
  | b :: a :: stack => some (operator a b % 2 ^ 64 :: stack)
  | _ => none

/-- The values that tokens print over the integers modulo 2 ^ 64, up to the first that halts.
There are none if an operator lacks its operands or the stack does not have room. -/
def evaluate : List Token → List Nat → Option (List Nat)
  | [], _ => some []
  | .number digits _ :: tokens, stack =>
      if stack.length < maxStack then evaluate tokens (decimal digits % 2 ^ 64 :: stack) else none
  | .add :: tokens, stack => (operate (fun a b => a + b) stack).bind (evaluate tokens)
  | .sub :: tokens, stack => (operate (fun a b => a + (2 ^ 64 - b)) stack).bind (evaluate tokens)
  | .mul :: tokens, stack => (operate (fun a b => a * b) stack).bind (evaluate tokens)
  | .eq :: tokens, stack =>
      (operate (fun a b => if a = b then 1 else 0) stack).bind (evaluate tokens)
  | .print :: tokens, value :: stack => (evaluate tokens stack).map (value :: ·)
  | .print :: _, [] => none
  | .halt :: _, _ => some []

section Compiling

variable {text rest digits : List UInt8} {tokens : List Token} {s s' s'' : Scanner}

/-- The compiler gets from one state to another. -/
def Leads (text : List UInt8) (s s' : Scanner) : Prop :=
  ∃ rounds, ∀ more, compileLoop text (rounds + more) s = compileLoop text more s'

/-- A round is made in front of a character. -/
theorem leads_round (room : s.out.length < maxInstructions - 1) {c : UInt8} (filled : c ≠ 0)
    (here : charAt text s.i = c) : Leads text s (scanStep text c (s.peek text 0).2) := by
  refine ⟨1, ?_⟩
  intro more
  rw [Nat.add_comm, compileLoop_succ, here, if_pos ⟨filled, room⟩]

theorem charAt_of_drop {c : UInt8} {i : Nat} (there : text.drop i = c :: rest) :
    charAt text i = c := by
  have first := charAt_drop text i 0
  rw [there, Nat.add_zero] at first
  exact first.symm

theorem drop_succ_of_drop {c : UInt8} {i : Nat} (there : text.drop i = c :: rest) :
    text.drop (i + 1) = rest := by
  rw [← List.drop_drop, there]
  rfl

theorem not_digit_of_blank {c : UInt8} (blank : IsBlank c) :
    isDigit c = false ∧ charValue c = none ∧ c ≠ 0 := by
  rcases blank with rfl | rfl | rfl
  · decide
  · decide
  · decide

theorem charValue_of_isDigit : ∀ c, isDigit c = true →
    charValue c = some (c - '0'.toUInt8).toNat ∧ ¬10 ≤ (c - '0'.toUInt8).toNat := by
  decide +kernel

theorem digitCount_append (proper : ∀ c ∈ digits, isDigit c = true)
    (separated : ∀ c ∈ rest.head?, IsBlank c) : digitCount (digits ++ rest) = digits.length := by
  induction digits with
  | nil =>
      cases rest with
      | nil => rfl
      | cons c rest =>
          have blank := separated c rfl
          exact if_neg (by simp [(not_digit_of_blank blank).1])
  | cons c digits ih =>
      rw [List.cons_append, digitCount, if_pos (proper c List.mem_cons_self),
        ih fun c mem => proper c (List.mem_cons_of_mem _ mem)]
      rfl

/-- `katoi` reads digits up to a blank, modulo 2 ^ 64. -/
theorem katoiLoop_append (proper : ∀ c ∈ digits, isDigit c = true)
    (separated : ∀ c ∈ rest.head?, IsBlank c) (value : Nat) :
    katoiLoop 10 (value % 2 ^ 64) (digits ++ rest) =
      digits.foldl (fun value c => value * 10 + (c - '0'.toUInt8).toNat) value % 2 ^ 64 := by
  induction digits generalizing value with
  | nil =>
      cases rest with
      | nil => rfl
      | cons c rest =>
          have none := (not_digit_of_blank (separated c rfl)).2.1
          rw [List.nil_append, katoiLoop, none]
          rfl
  | cons c digits ih =>
  obtain ⟨digit, small⟩ := charValue_of_isDigit c (proper c List.mem_cons_self)
  rw [List.cons_append, katoiLoop, digit]
  dsimp only
  rw [if_neg small, List.foldl_cons, ← ih fun c mem => proper c (List.mem_cons_of_mem _ mem)]
  congr 1
  omega

theorem katoi_append (proper : ∀ c ∈ digits, isDigit c = true)
    (separated : ∀ c ∈ rest.head?, IsBlank c) :
    UInt64.ofNat (katoi (digits ++ rest) 10) = UInt64.ofNat (decimal digits) := by
  have read := katoiLoop_append proper separated 0
  rw [Nat.zero_mod] at read
  rw [katoi, if_neg (by omega), read, ← decimal]
  apply UInt64.toNat_inj.mp
  rw [UInt64.toNat_ofNat', UInt64.toNat_ofNat', Nat.mod_mod]

theorem leads_blank {c : UInt8} (blank : IsBlank c) (room : s.out.length < maxInstructions - 1)
    (there : text.drop s.i = c :: rest) :
    ∃ s', Leads text s s' ∧ text.drop s'.i = rest ∧ s'.out = s.out := by
  refine ⟨_, leads_round room (not_digit_of_blank blank).2.2 (charAt_of_drop there), ?_⟩
  have blank : c = ' '.toUInt8 ∨ c = '\n'.toUInt8 ∨ c = '\t'.toUInt8 := blank
  rw [scanStep, if_pos blank]
  exact ⟨drop_succ_of_drop there, rfl⟩

theorem leads_token (token : Token) (room : s.out.length < maxInstructions - 1)
    (separated : ∀ c ∈ rest.head?, IsBlank c) (there : text.drop s.i = token.text ++ rest) :
    ∃ s', Leads text s s' ∧ text.drop s'.i = rest ∧ s'.out = s.out ++ [token.instruction] := by
  have sign : ∀ c instr, c ≠ 0 → (∀ s, scanStep text c s = (s.emit instr).advance 1) →
      text.drop s.i = c :: rest →
      ∃ s', Leads text s s' ∧ text.drop s'.i = rest ∧ s'.out = s.out ++ [instr] := by
    intro c instr filled translated there
    refine ⟨_, leads_round room filled (charAt_of_drop there), ?_⟩
    rw [translated]
    exact ⟨drop_succ_of_drop there, rfl⟩
  cases token with
  | number digits proper =>
      obtain ⟨some, all⟩ := proper
      have digit := List.all_eq_true.mp all
      cases digits with
      | nil => exact absurd rfl some
      | cons c digits =>
      have first := digit c List.mem_cons_self
      have filled : c ≠ 0 := by
        rintro rfl
        exact absurd first (by decide)
      have solid : ¬(c = ' '.toUInt8 ∨ c = '\n'.toUInt8 ∨ c = '\t'.toUInt8) := by
        intro blank
        have none := (not_digit_of_blank blank).1
        rw [first] at none
        cases none
      have there : text.drop s.i = c :: digits ++ rest := there
      refine ⟨_, leads_round room filled (charAt_of_drop there), ?_⟩
      rw [scanStep, if_neg solid, if_pos first]
      constructor
      · change text.drop (s.i + digitCount (text.drop s.i)) = rest
        rw [there, digitCount_append digit separated, ← List.drop_drop, there,
          List.drop_left]
      · change s.out ++ [_] = _
        rw [Scanner.peek]
        dsimp only
        rw [there, katoi_append digit separated]
        rfl
  | add => exact sign '+'.toUInt8 _ (by decide) (fun _ => rfl) there
  | sub => exact sign '-'.toUInt8 _ (by decide) (fun _ => rfl) there
  | mul => exact sign '*'.toUInt8 _ (by decide) (fun _ => rfl) there
  | print => exact sign 'p'.toUInt8 _ (by decide) (fun _ => rfl) there
  | halt => exact sign 'h'.toUInt8 _ (by decide) (fun _ => rfl) there
  | eq =>
  have there : text.drop s.i = '='.toUInt8 :: '='.toUInt8 :: rest := there
  have behind := drop_succ_of_drop there
  refine ⟨_, leads_round room (by decide) (charAt_of_drop there), ?_⟩
  have second : charAt text ((s.peek text 0).2.i + 1) = '='.toUInt8 := charAt_of_drop behind
  have step : ∀ s : Scanner, scanStep text '='.toUInt8 s =
      if charAt text (s.i + 1) = '='.toUInt8 then
        ((s.peek text 1).2.emit ⟨ilEq, 0⟩).advance 2
      else (s.peek text 1).2 :=
    fun _ => rfl
  rw [step, if_pos second]
  exact ⟨drop_succ_of_drop behind, rfl⟩

/-- The compiler translates a text token by token. -/
theorem compileLoop_written (written : Written tokens rest)
    (room : s.out.length + tokens.length ≤ maxInstructions - 1) (there : text.drop s.i = rest) :
    ∃ rounds, (compileLoop text rounds s).1 = true ∧
      (compileLoop text rounds s).2.out = s.out ++ tokens.map Token.instruction := by
  have onward : ∀ {s s' : Scanner} {out : List Instruction}, Leads text s s' →
      (∃ rounds, (compileLoop text rounds s').1 = true ∧
        (compileLoop text rounds s').2.out = out) →
      ∃ rounds, (compileLoop text rounds s).1 = true ∧
        (compileLoop text rounds s).2.out = out := by
    intro s s' out leads ended
    obtain ⟨rounds, same⟩ := leads
    obtain ⟨more, ended⟩ := ended
    exact ⟨rounds + more, by rwa [same]⟩
  induction written generalizing s with
  | done =>
      have behind := List.drop_eq_nil_iff.mp there
      refine ⟨1, ?_⟩
      rw [compileLoop_succ, if_neg (by simp [charAt_of_length_le behind])]
      exact ⟨rfl, (List.append_nil _).symm⟩
  | @blank tokens c rest blank _ ih =>
      by_cases more : s.out.length < maxInstructions - 1
      · obtain ⟨s', leads, there', same⟩ := leads_blank blank more there
        rw [← same] at room ⊢
        exact onward leads (ih room there')
      · -- there is no room left, and all tokens have been translated
        have none : tokens = [] := List.eq_nil_of_length_eq_zero (by omega)
        refine ⟨1, ?_⟩
        rw [compileLoop_succ, if_neg fun going => more going.2, none]
        exact ⟨rfl, (List.append_nil _).symm⟩
  | @token tokens token rest separated _ ih =>
  rw [List.length_cons] at room
  obtain ⟨s', leads, there', out⟩ := leads_token token (by omega) separated there
  apply onward leads
  have fewer : s'.out.length + tokens.length ≤ maxInstructions - 1 := by
    rw [out, List.length_append, List.length_singleton]
    omega
  have rest := ih fewer there'
  rwa [out, List.append_assoc] at rest

end Compiling

/-! ## Running -/

section Running

variable {config : Config} {tokens rest : List Token} {values : List Nat}
  {program : Nat → Instruction}

/-- The values on the stack of a configuration. -/
def Config.numbers (config : Config) : List Nat := config.stack.map UInt64.toNat

/-- An operator on 64-bit numbers does what it should modulo 2 ^ 64. -/
theorem perform_binary {operator : UInt64 → UInt64 → UInt64} {operator' : Nat → Nat → Nat}
    {stack : List Nat}
    (agree : ∀ a b, (operator a b).toNat = operator' a.toNat b.toNat % 2 ^ 64)
    (result : operate operator' config.numbers = some stack) :
    (config.perform (.binary operator)).numbers = stack ∧
      config.perform (.binary operator) =
        { config with stack := (config.perform (.binary operator)).stack } := by
  obtain ⟨ip, values, running, output⟩ := config
  match values with
  | [] => cases result
  | [_] => cases result
  | b :: a :: values =>
      have result := Option.some.inj result
      refine ⟨?_, rfl⟩
      rw [← result, ← agree]
      rfl

/-- From a configuration the program comes to its end, with an output. -/
def Config.Prints (config : Config) (program : Nat → Instruction) (output : List (List UInt8)) :
    Prop :=
  ∃ rounds, ¬(config.run program rounds).Going ∧ (config.run program rounds).output = output

theorem Config.Prints.of_step {config' : Config} {output : List (List UInt8)}
    (step : config.step program = config') (prints : config'.Prints program output) :
    config.Prints program output := by
  obtain ⟨rounds, done⟩ := prints
  exact ⟨rounds + 1, by rwa [Config.run_succ, step]⟩

/-- Behind the tokens there is nothing to do. -/
theorem prints_nops (nops : ∀ k, config.ip ≤ k → program k = ⟨ilNop, 0⟩) :
    config.Prints program config.output := by
  generalize left : maxInstructions - config.ip = remaining
  induction remaining generalizing config with
  | zero =>
      refine ⟨0, ?_, rfl⟩
      intro going
      have inside : config.ip < maxInstructions := going.2
      omega
  | succ remaining ih =>
  by_cases going : config.Going
  · have step : config.step program = { config with ip := config.ip + 1 } := by
      rw [Config.step_of_going going, nops _ (Nat.le_refl _)]
      rfl
    apply Config.Prints.of_step step
    apply @ih { config with ip := config.ip + 1 }
      (fun k above => nops k (Nat.le_of_succ_le above))
    change maxInstructions - (config.ip + 1) = remaining
    omega
  · exact ⟨0, going, rfl⟩

/-- The interpreter prints what the tokens mean. -/
theorem prints_tokens (few : tokens.length ≤ maxInstructions)
    (translated : ∀ k (inside : k < tokens.length), program k = tokens[k].instruction)
    (nops : ∀ k, tokens.length ≤ k → program k = ⟨ilNop, 0⟩) (running : config.running = true)
    (there : tokens.drop config.ip = rest) (meaning : evaluate rest config.numbers = some values) :
    config.Prints program (config.output ++ values.map (numeral 10)) := by
  induction rest generalizing config values with
  | nil =>
      have values_eq : values = [] := (Option.some.inj meaning).symm
      have behind := List.drop_eq_nil_iff.mp there
      rw [values_eq, List.map_nil, List.append_nil]
      exact prints_nops fun k above => nops k (behind.trans above)
  | cons token rest ih =>
  have inside : config.ip < tokens.length := by
    apply Nat.lt_of_not_le
    intro behind
    rw [List.drop_eq_nil_of_le behind] at there
    cases there
  have here : tokens[config.ip] = token ∧ tokens.drop (config.ip + 1) = rest := by
    rw [List.drop_eq_getElem_cons inside] at there
    exact List.cons.inj there
  have step : config.step program =
      Config.perform (decode token.instruction) { config with ip := config.ip + 1 } := by
    rw [Config.step_of_going ⟨running, inside.trans_le few⟩, translated _ inside, here.1]
  -- the run goes on from the configuration after the token
  have onward : ∀ {config' : Config} {values' : List Nat}, config.step program = config' →
      config'.running = true → config'.ip = config.ip + 1 →
      evaluate rest config'.numbers = some values' →
      config.Prints program (config'.output ++ values'.map (numeral 10)) := by
    intro config' values' taken running' ip meaning'
    exact .of_step taken (ih running' (ip ▸ here.2) meaning')
  have operator : ∀ (operator : UInt64 → UInt64 → UInt64) (operator' : Nat → Nat → Nat),
      decode token.instruction = .binary operator →
      (∀ a b, (operator a b).toNat = operator' a.toNat b.toNat % 2 ^ 64) →
      (operate operator' config.numbers).bind (evaluate rest) = some values →
      config.Prints program (config.output ++ values.map (numeral 10)) := by
    intro operator operator' decoded agree meaning
    obtain ⟨stack, result, meaning⟩ := Option.bind_eq_some_iff.mp meaning
    obtain ⟨top, same⟩ := @perform_binary { config with ip := config.ip + 1 } _ _ _ agree result
    rw [decoded, same] at step
    rw [same] at top
    rw [← top] at meaning
    have done := @onward _ values step running rfl meaning
    exact done
  cases token with
  | number digits proper =>
      rw [evaluate] at meaning
      split at meaning
      next room =>
        rw [Config.numbers, List.length_map] at room
        have pushed : config.step program =
            { config with
              ip := config.ip + 1
              stack := UInt64.ofNat (decimal digits) :: config.stack } :=
          step.trans (if_pos room)
        apply onward pushed running rfl
        rw [Config.numbers, List.map_cons, UInt64.toNat_ofNat']
        exact meaning
      next => cases meaning
  | add =>
      apply operator (fun a b => a + b) (fun a b => a + b) rfl _ meaning
      intro a b
      exact UInt64.toNat_add a b
  | sub =>
      apply operator (fun a b => a - b) (fun a b => a + (2 ^ 64 - b)) rfl _ meaning
      intro a b
      rw [UInt64.toNat_sub, Nat.add_comm]
  | mul =>
      apply operator (fun a b => a * b) (fun a b => a * b) rfl _ meaning
      intro a b
      exact UInt64.toNat_mul a b
  | eq =>
      apply operator (fun a b => if a = b then 1 else 0) (fun a b => if a = b then 1 else 0) rfl
        _ meaning
      intro a b
      by_cases same : a = b
      · rw [if_pos same, if_pos (congrArg UInt64.toNat same)]
        rfl
      · rw [if_neg same, if_neg fun equal => same (UInt64.toNat_inj.mp equal)]
        rfl
  | print =>
      obtain ⟨ip, stack, running', output⟩ := config
      cases stack with
      | nil => cases meaning
      | cons value stack =>
      obtain ⟨values', meaning', rfl⟩ := Option.map_eq_some_iff.mp meaning
      have printed : Config.Prints _ program
          ((output ++ [kutoa value.toNat 10]) ++ values'.map (numeral 10)) :=
        onward step running rfl meaning'
      have text : kutoa value.toNat 10 = numeral 10 value.toNat :=
        kutoa_eq_numeral (by decide) (by decide) value.toNat_lt
      rw [text, List.append_assoc] at printed
      exact printed
  | halt =>
  have values_eq : values = [] := (Option.some.inj meaning).symm
  refine ⟨1, ?_⟩
  rw [Config.run_succ, Config.run_zero, step, values_eq]
  refine ⟨?_, (List.append_nil _).symm⟩
  intro going
  exact absurd going.1 Bool.false_ne_true

end Running

/-- A text in postfix notation is compiled, and running it in a fresh runtime prints what the text
means, in decimal. -/
theorem compile_and_run {tokens : List Token} {text : List UInt8} {values : List Nat}
    (written : Written tokens text) (few : tokens.length ≤ maxInstructions - 1)
    (meaning : evaluate tokens [] = some values) :
    ∃ rounds, (ilCompileSource text rounds).1 = true ∧
      (ilLoadProgram ilCreate (ilCompileSource text rounds).2.out).1 = true ∧
      ∃ rounds',
        ¬(ilRun (ilLoadProgram ilCreate (ilCompileSource text rounds).2.out).2 rounds').Going ∧
        (ilRun (ilLoadProgram ilCreate (ilCompileSource text rounds).2.out).2 rounds').output =
          values.map (numeral 10) := by
  have limit : maxInstructions = 4096 := rfl
  obtain ⟨rounds, ended, out⟩ := @compileLoop_written text text tokens {} written
    (by rwa [List.length_nil, Nat.zero_add]) rfl
  rw [List.nil_append] at out
  refine ⟨rounds, ended, ?_⟩
  rw [ilCompileSource, out]
  have fits : (tokens.map Token.instruction).length ≤ maxInstructions := by
    rw [List.length_map]
    omega
  refine ⟨by rw [ilLoadProgram, if_neg (Nat.not_lt.mpr fits)], ?_⟩
  have translated : ∀ k (inside : k < tokens.length),
      (ilLoadProgram ilCreate (tokens.map Token.instruction)).2.instructions k =
        tokens[k].instruction := by
    intro k inside
    rw [loaded_of_load fits _ _ (by rwa [List.length_map]), List.getElem_map]
  have nops : ∀ k, tokens.length ≤ k →
      (ilLoadProgram ilCreate (tokens.map Token.instruction)).2.instructions k = ⟨ilNop, 0⟩ := by
    intro k behind
    exact kept_of_load fits _ (by rwa [List.length_map])
  obtain ⟨rounds', stopped, printed⟩ := @prints_tokens {} tokens tokens values _ (by omega)
    translated nops rfl rfl meaning
  rw [← view_ilRun] at stopped printed
  exact ⟨rounds', stopped, printed⟩

/-- `12 3 - p 5 h p`. -/
def sampleTokens : List Token :=
  [.number (ascii "12") (by decide), .number (ascii "3") (by decide), .sub, .print,
    .number (ascii "5") (by decide), .halt, .print]

theorem sampleTokens_written : Written sampleTokens (ascii "12 3 - p 5 h p") := by
  have space : IsBlank ' '.toUInt8 := .inl rfl
  have separated : ∀ rest : List UInt8, ∀ c ∈ (' '.toUInt8 :: rest).head?, IsBlank c := by
    intro rest c first
    cases first
    exact space
  have last : Written [.print] (ascii "p") := @Written.token [] .print [] nofun .done
  have six := @Written.token _ .halt _ (separated _) (.blank space last)
  have five := @Written.token _ (.number (ascii "5") (by decide)) _ (separated _)
    (.blank space six)
  have four := @Written.token _ .print _ (separated _) (.blank space five)
  have three := @Written.token _ .sub _ (separated _) (.blank space four)
  have two := @Written.token _ (.number (ascii "3") (by decide)) _ (separated _)
    (.blank space three)
  exact @Written.token _ (.number (ascii "12") (by decide)) _ (separated _) (.blank space two)

theorem sample_prints_nine :
    ∃ rounds, (ilCompileSource (ascii "12 3 - p 5 h p") rounds).1 = true ∧
      (ilLoadProgram ilCreate (ilCompileSource (ascii "12 3 - p 5 h p") rounds).2.out).1 = true ∧
      ∃ rounds',
        ¬(ilRun (ilLoadProgram ilCreate
          (ilCompileSource (ascii "12 3 - p 5 h p") rounds).2.out).2 rounds').Going ∧
        (ilRun (ilLoadProgram ilCreate
          (ilCompileSource (ascii "12 3 - p 5 h p") rounds).2.out).2 rounds').output =
            [9].map (numeral 10) :=
  compile_and_run sampleTokens_written (by decide) (by decide)

end Charis.Il
