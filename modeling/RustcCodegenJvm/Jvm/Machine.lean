import RustcCodegenJvm.Jvm.ConstantPool

/-!
# Executing JVM method bodies

A small-step machine for one method activation. Constants, stack shuffles,
integer and long arithmetic, conversions between them, locals, branches,
switches, returns and exception dispatch are interpreted. Everything that
touches the heap, calls a method, allocates or computes on floats is external:
an environment gives its outcome from the instruction, the operand stack and an
arbitrary world, so a theorem for every environment is a theorem for every
outcome of calls and heap accesses.
-/

namespace RustcCodegenJvm.Jvm

/-- A stack or local value; a reference is null or an object identity. -/
inductive Value
  | int (value : JInt)
  | long (value : JLong)
  | float (bits : BitVec 32)
  | double (bits : BitVec 64)
  | reference (object : Option Nat)
deriving DecidableEq

namespace Value

def kind : Value → LocalKind
  | int _ => .int
  | long _ => .long
  | float _ => .float
  | double _ => .double
  | reference _ => .reference

def isWide (value : Value) : Bool := value.kind.width == 2

end Value

/-- Local slots. A two-slot value is stored at its first slot. -/
abbrev Locals := Nat → Option Value

namespace Locals

def read (locals : Locals) (kind : LocalKind) (slot : Nat) : Option Value :=
  (locals slot).filter (fun value => value.kind = kind)

def wideAt (locals : Locals) (slot : Nat) : Bool :=
  (locals slot).any Value.isWide

/-- Storing a value destroys every value it overlaps. -/
def write (locals : Locals) (slot : Nat) (value : Value) : Locals := fun other =>
  if other = slot then some value
  else if other = slot + 1 ∧ value.isWide then none
  else if other + 1 = slot ∧ locals.wideAt other then none
  else locals other

end Locals

/-- What an instruction does to the operand stack, when it does nothing else. -/
inductive StackEffect
  | done (stack : List Value)
  | external
  | stuck

def IconstValue.value : IconstValue → JInt
  | m1 => -1
  | zero => 0
  | one => 1
  | two => 2
  | three => 3
  | four => 4
  | five => 5

def fconstBits : Fin 3 → BitVec 32
  | 0 => 0x00000000
  | 1 => 0x3f800000
  | 2 => 0x40000000

def dconstBits : Fin 2 → BitVec 64
  | 0 => 0x0000000000000000
  | 1 => 0x3ff0000000000000

def ConstantKey.value : ConstantKey → Option Value
  | .integer value => some (.int value)
  | .float bits => some (.float bits)
  | .long value => some (.long value)
  | .double bits => some (.double bits)
  | _ => none

/-- A numeric constant is pushed; strings, classes and the like are external. -/
def loadPooled (pool : ConstantPool) (index : Nat) (stack : List Value) : StackEffect :=
  match (pool.get index).bind ConstantKey.value with
  | some value => .done (value :: stack)
  | none => .external

/-- Two's-complement arithmetic; `none` is a division by zero. -/
def ArithmeticOp.apply {width : Nat} (op : ArithmeticOp) (left right : BitVec width) :
    Option (BitVec width) :=
  match op with
  | add => some (left + right)
  | sub => some (left - right)
  | mul => some (left * right)
  | div => if right = 0 then none else some (left.sdiv right)
  | rem => if right = 0 then none else some (left.srem right)

def ShiftOp.applyInt : ShiftOp → JInt → JInt → JInt
  | shl => ishl
  | shr => ishr
  | ushr => iushr

def ShiftOp.applyLong : ShiftOp → JLong → JInt → JLong
  | shl => lshl
  | shr => lshr
  | ushr => lushr

def BitwiseOp.apply {width : Nat} (op : BitwiseOp) (left right : BitVec width) : BitVec width :=
  match op with
  | and => left &&& right
  | or => left ||| right
  | xor => left ^^^ right

/-- The integer conversions; the ones that involve floats are external. -/
def Conversion.apply : Conversion → Value → Option Value
  | i2l, .int value => some (.long (value.signExtend 64))
  | l2i, .long value => some (.int (value.setWidth 32))
  | i2b, .int value => some (.int ((value.setWidth 8).signExtend 32))
  | i2c, .int value => some (.int ((value.setWidth 16).setWidth 32))
  | i2s, .int value => some (.int ((value.setWidth 16).signExtend 32))
  | _, _ => none

def Conversion.isInteger : Conversion → Bool
  | i2l | l2i | i2b | i2c | i2s => true
  | _ => false

def StackEffect.ofOption : Option (List Value) → StackEffect
  | some stack => .done stack
  | none => .stuck

/-! The stack shuffles see the width of the values they move. -/

def Stack.pop : List Value → Option (List Value)
  | value :: rest => if value.isWide then none else some rest
  | [] => none

def Stack.pop2 : List Value → Option (List Value)
  | first :: rest => if first.isWide then some rest else Stack.pop rest
  | [] => none

def Stack.dup : List Value → Option (List Value)
  | value :: rest => if value.isWide then none else some (value :: value :: rest)
  | [] => none

def Stack.dupX1 : List Value → Option (List Value)
  | first :: second :: rest =>
    if first.isWide || second.isWide then none else some (first :: second :: first :: rest)
  | _ => none

def Stack.dupX2 : List Value → Option (List Value)
  | first :: second :: rest =>
    if first.isWide then none
    else if second.isWide then some (first :: second :: first :: rest)
    else match rest with
      | third :: rest =>
        if third.isWide then none else some (first :: second :: third :: first :: rest)
      | [] => none
  | _ => none

def Stack.dup2 : List Value → Option (List Value)
  | first :: rest =>
    if first.isWide then some (first :: first :: rest)
    else match rest with
      | second :: rest =>
        if second.isWide then none else some (first :: second :: first :: second :: rest)
      | [] => none
  | [] => none

def Stack.dup2X1 : List Value → Option (List Value)
  | first :: second :: rest =>
    if second.isWide then none
    else if first.isWide then some (first :: second :: first :: rest)
    else match rest with
      | third :: rest =>
        if third.isWide then none
        else some (first :: second :: third :: first :: second :: rest)
      | [] => none
  | _ => none

def Stack.dup2X2 : List Value → Option (List Value)
  | first :: second :: rest =>
    if first.isWide then
      if second.isWide then some (first :: second :: first :: rest)
      else match rest with
        | third :: rest =>
          if third.isWide then none else some (first :: second :: third :: first :: rest)
        | [] => none
    else if second.isWide then none
    else match rest with
      | third :: rest =>
        if third.isWide then some (first :: second :: third :: first :: second :: rest)
        else match rest with
          | fourth :: rest =>
            if fourth.isWide then none
            else some (first :: second :: third :: fourth :: first :: second :: rest)
          | [] => none
      | [] => none
  | _ => none

def Stack.swap : List Value → Option (List Value)
  | first :: second :: rest =>
    if first.isWide || second.isWide then none else some (second :: first :: rest)
  | _ => none

/-- Integer arithmetic; a division by zero is left to the environment. -/
def arithmeticEffect (op : ArithmeticOp) : NumericKind → List Value → StackEffect
  | .int, .int right :: .int left :: rest =>
    match op.apply left right with
    | some result => .done (.int result :: rest)
    | none => .external
  | .long, .long right :: .long left :: rest =>
    match op.apply left right with
    | some result => .done (.long result :: rest)
    | none => .external
  | .float, _ => .external
  | .double, _ => .external
  | _, _ => .stuck

def negateEffect : NumericKind → List Value → StackEffect
  | .int, .int value :: rest => .done (.int (-value) :: rest)
  | .long, .long value :: rest => .done (.long (-value) :: rest)
  | .float, _ => .external
  | .double, _ => .external
  | _, _ => .stuck

def shiftEffect (op : ShiftOp) : WordKind → List Value → StackEffect
  | .int, .int distance :: .int value :: rest => .done (.int (op.applyInt value distance) :: rest)
  | .long, .int distance :: .long value :: rest =>
    .done (.long (op.applyLong value distance) :: rest)
  | _, _ => .stuck

def bitwiseEffect (op : BitwiseOp) : WordKind → List Value → StackEffect
  | .int, .int right :: .int left :: rest => .done (.int (op.apply left right) :: rest)
  | .long, .long right :: .long left :: rest => .done (.long (op.apply left right) :: rest)
  | _, _ => .stuck

def convertEffect (conversion : Conversion) (stack : List Value) : StackEffect :=
  if conversion.isInteger then
    match stack with
    | value :: rest =>
      match conversion.apply value with
      | some result => .done (result :: rest)
      | none => .stuck
    | [] => .stuck
  else .external

def lcmpEffect : List Value → StackEffect
  | .long right :: .long left :: rest => .done (.int (compareSigned left right) :: rest)
  | _ => .stuck

/-- The effect of an instruction that only works on the operand stack. Every
instruction that needs more than the stack and the pool is external. -/
def stackEffect (pool : ConstantPool) (instruction : Instruction) (stack : List Value) :
    StackEffect :=
  match instruction with
  | .nop => .done stack
  | .aconstNull => .done (.reference none :: stack)
  | .iconst value => .done (.int value.value :: stack)
  | .lconst value => .done (.long (BitVec.ofNat 64 value.val) :: stack)
  | .fconst value => .done (.float (fconstBits value) :: stack)
  | .dconst value => .done (.double (dconstBits value) :: stack)
  | .bipush value => .done (.int (value.signExtend 32) :: stack)
  | .sipush value => .done (.int (value.signExtend 32) :: stack)
  | .ldc index => loadPooled pool index stack
  | .ldcW index => loadPooled pool index stack
  | .ldc2W index => loadPooled pool index stack
  | .pop => .ofOption (Stack.pop stack)
  | .pop2 => .ofOption (Stack.pop2 stack)
  | .dup => .ofOption (Stack.dup stack)
  | .dupX1 => .ofOption (Stack.dupX1 stack)
  | .dupX2 => .ofOption (Stack.dupX2 stack)
  | .dup2 => .ofOption (Stack.dup2 stack)
  | .dup2X1 => .ofOption (Stack.dup2X1 stack)
  | .dup2X2 => .ofOption (Stack.dup2X2 stack)
  | .swap => .ofOption (Stack.swap stack)
  | .arithmetic op kind => arithmeticEffect op kind stack
  | .negate kind => negateEffect kind stack
  | .shift op kind => shiftEffect op kind stack
  | .bitwise op kind => bitwiseEffect op kind stack
  | .convert conversion => convertEffect conversion stack
  | .lcmp => lcmpEffect stack
  | _ => .external

/-- Whether a conditional branch is taken, and the stack without its operands. -/
def Condition.test : Condition → List Value → Option (Bool × List Value)
  | ifeq, .int value :: rest => some (value == 0, rest)
  | ifne, .int value :: rest => some (value != 0, rest)
  | iflt, .int value :: rest => some (value.slt 0, rest)
  | ifge, .int value :: rest => some (!value.slt 0, rest)
  | ifgt, .int value :: rest => some ((0 : JInt).slt value, rest)
  | ifle, .int value :: rest => some (!(0 : JInt).slt value, rest)
  | ifIcmpeq, .int right :: .int left :: rest => some (left == right, rest)
  | ifIcmpne, .int right :: .int left :: rest => some (left != right, rest)
  | ifIcmplt, .int right :: .int left :: rest => some (left.slt right, rest)
  | ifIcmpge, .int right :: .int left :: rest => some (!left.slt right, rest)
  | ifIcmpgt, .int right :: .int left :: rest => some (right.slt left, rest)
  | ifIcmple, .int right :: .int left :: rest => some (!right.slt left, rest)
  | ifAcmpeq, .reference right :: .reference left :: rest => some (left == right, rest)
  | ifAcmpne, .reference right :: .reference left :: rest => some (left != right, rest)
  | ifnull, .reference object :: rest => some (object == none, rest)
  | ifnonnull, .reference object :: rest => some (object != none, rest)
  | _, _ => none

inductive External (World : Type)
  | completes (stack : List Value) (world : World)
  | throws (exception : Nat) (world : World)
  | stuck

/-- Everything a method body can observe of the machine it runs on. -/
structure Environment (World : Type) where
  constants : ConstantPool
  perform : Instruction → List Value → World → External World
  catches : Nat → Nat → World → Bool

/-- A machine on which no external instruction has an outcome. -/
def Environment.isolated (constants : ConstantPool) : Environment Unit where
  constants := constants
  perform _ _ _ := .stuck
  catches _ _ _ := false

structure Code where
  instructions : List Instruction
  exceptionTable : List ExceptionTableEntry

structure Frame (World : Type) where
  pc : Nat
  stack : List Value
  locals : Locals
  world : World

inductive Outcome (World : Type)
  | running (frame : Frame World)
  | returned (value : Option Value) (world : World)
  | thrown (exception : Nat) (world : World)
  | stuck

def wideTarget (target : Int) : Option Nat :=
  if 0 ≤ target then some target.toNat else none

def relativeTarget (pc : Nat) (offset : Int) : Option Nat :=
  wideTarget (pc + offset)

def tableOffset (default low high : Int) (offsets : List Int) (key : Int) : Int :=
  if low ≤ key ∧ key ≤ high then (offsets[(key - low).toNat]?).getD default else default

def lookupOffset (default : Int) (pairs : List (Int × Int)) (key : Int) : Int :=
  (pairs.lookup key).getD default

variable {instruction : Instruction}

section Execution

variable {World : Type} (env : Environment World) (code : Code)

def findHandler (pc exception : Nat) (world : World) : Option ExceptionTableEntry :=
  code.exceptionTable.find? fun entry =>
    entry.covers pc && (entry.catchType == 0 || env.catches entry.catchType exception world)

def raise (frame : Frame World) (exception : Nat) (world : World) : Outcome World :=
  match findHandler env code frame.pc exception world with
  | some entry => .running ⟨entry.handlerPc, [.reference (some exception)], frame.locals, world⟩
  | none => .thrown exception world

def Frame.jump (frame : Frame World) (stack : List Value) (target : Option Nat) : Outcome World :=
  match target with
  | some pc => .running { frame with pc := pc, stack := stack }
  | none => .stuck

def performExternal (frame : Frame World) (instruction : Instruction) : Outcome World :=
  match env.perform instruction frame.stack frame.world with
  | .completes stack world => .running ⟨frame.pc + 1, stack, frame.locals, world⟩
  | .throws exception world => raise env code frame exception world
  | .stuck => .stuck

def increment (frame : Frame World) (slot : Nat) (amount : JInt) : Outcome World :=
  match frame.locals slot with
  | some (.int value) =>
    .running { frame with
      pc := frame.pc + 1, locals := frame.locals.write slot (.int (value + amount)) }
  | _ => .stuck

def execute (frame : Frame World) (instruction : Instruction) : Outcome World :=
  match instruction with
  | .load kind form =>
    match frame.locals.read kind form.slot with
    | some value => .running { frame with pc := frame.pc + 1, stack := value :: frame.stack }
    | none => .stuck
  | .store kind form =>
    match frame.stack with
    | value :: rest =>
      if value.kind = kind then
        .running { frame with
          pc := frame.pc + 1, stack := rest, locals := frame.locals.write form.slot value }
      else .stuck
    | [] => .stuck
  | .iinc slot amount => increment frame slot (amount.signExtend 32)
  | .iincW slot amount => increment frame slot (amount.signExtend 32)
  | .branch condition target =>
    match condition.test frame.stack with
    | some (taken, rest) =>
      .running { frame with pc := if taken then target else frame.pc + 1, stack := rest }
    | none => .stuck
  | .goto target => .running { frame with pc := target }
  | .gotoW target => frame.jump frame.stack (wideTarget target)
  | .tableswitch default low high offsets =>
    match frame.stack with
    | .int key :: rest =>
      frame.jump rest (relativeTarget frame.pc (tableOffset default low high offsets key.toInt))
    | _ => .stuck
  | .lookupswitch default pairs =>
    match frame.stack with
    | .int key :: rest =>
      frame.jump rest (relativeTarget frame.pc (lookupOffset default pairs key.toInt))
    | _ => .stuck
  | .valueReturn kind =>
    match frame.stack with
    | value :: _ => if value.kind = kind then .returned (some value) frame.world else .stuck
    | [] => .stuck
  | .voidReturn => .returned none frame.world
  | .jsr _ | .jsrW _ | .ret _ | .retW _ => .stuck
  | .athrow =>
    match frame.stack with
    | .reference (some exception) :: _ => raise env code frame exception frame.world
    | _ => performExternal env code frame .athrow
  | instruction =>
    match stackEffect env.constants instruction frame.stack with
    | .done stack => .running { frame with pc := frame.pc + 1, stack := stack }
    | .external => performExternal env code frame instruction
    | .stuck => .stuck

/-- The instructions that neither touch locals nor transfer control by themselves. -/
def Instruction.isPlain : Instruction → Bool
  | .load _ _ | .store _ _ | .iinc _ _ | .iincW _ _ | .branch _ _ | .goto _ | .gotoW _
  | .tableswitch _ _ _ _ | .lookupswitch _ _ | .valueReturn _ | .voidReturn
  | .jsr _ | .jsrW _ | .ret _ | .retW _ | .athrow => false
  | _ => true

theorem execute_plain (frame : Frame World) (plain : instruction.isPlain = true) :
    execute env code frame instruction =
      match stackEffect env.constants instruction frame.stack with
      | .done stack => .running { frame with pc := frame.pc + 1, stack := stack }
      | .external => performExternal env code frame instruction
      | .stuck => .stuck := by
  cases instruction <;> first | rfl | cases plain

theorem execute_done (frame : Frame World) {stack : List Value} (plain : instruction.isPlain = true)
    (effect : stackEffect env.constants instruction frame.stack = .done stack) :
    execute env code frame instruction =
      .running { frame with pc := frame.pc + 1, stack := stack } := by
  rw [execute_plain env code frame plain, effect]

def step (frame : Frame World) : Outcome World :=
  match code.instructions[frame.pc]? with
  | some instruction => execute env code frame instruction
  | none => .stuck

def Steps : Frame World → Frame World → Prop :=
  Relation.ReflTransGen fun before after => step env code before = .running after

/-- The method returns, from the frame, without an exception that leaves it. -/
def Returns (before : Frame World) (value : Option Value) (world : World) : Prop :=
  ∃ last, Steps env code before last ∧ step env code last = .returned value world

end Execution

/-! ### Instruction sequences inside a method -/

/-- The instructions stand in the method from the given index on. -/
def Code.Holds (code : Code) (base : Nat) (instructions : List Instruction) : Prop :=
  ∀ offset instruction, instructions[offset]? = some instruction →
    code.instructions[base + offset]? = some instruction

section Sequences

variable {World : Type} (env : Environment World)

/-- Placed at `base` in any method, the sequence runs from its start to its end,
takes the stack and locals from one state to the other, and leaves the world alone. -/
def Executes (base : Nat) (instructions : List Instruction)
    (before after : List Value × Locals) : Prop :=
  ∀ (code : Code) (world : World), code.Holds base instructions →
    Steps env code ⟨base, before.1, before.2, world⟩
      ⟨base + instructions.length, after.1, after.2, world⟩

variable {env}

variable {base : Nat} {first second : List Instruction}

theorem Code.Holds.left {code : Code}
    (holds : code.Holds base (first ++ second)) : code.Holds base first := by
  intro offset instruction found
  have bound : offset < first.length := (List.getElem?_eq_some_iff.mp found).1
  exact holds offset instruction (by rw [List.getElem?_append_left bound, found])

theorem Code.Holds.right {code : Code} (holds : code.Holds base (first ++ second)) :
    code.Holds (base + first.length) second := by
  intro offset instruction found
  have placed := holds (first.length + offset) instruction (by
    rw [List.getElem?_append_right (by omega), Nat.add_sub_cancel_left, found])
  rwa [← Nat.add_assoc] at placed

theorem Executes.nil (base : Nat) (state : List Value × Locals) :
    Executes env base [] state state :=
  fun _ _ _ => Relation.ReflTransGen.refl

theorem Executes.append
    {before middle after : List Value × Locals} (head : Executes env base first before middle)
    (tail : Executes env (base + first.length) second middle after) :
    Executes env base (first ++ second) before after := by
  intro code world holds
  have headRun := head code world holds.left
  have tailRun := tail code world holds.right
  rw [List.length_append, ← Nat.add_assoc]
  exact headRun.trans tailRun

theorem Executes.single {before after : List Value × Locals}
    (moves : ∀ (code : Code) (world : World),
      execute env code ⟨base, before.1, before.2, world⟩ instruction =
        .running ⟨base + 1, after.1, after.2, world⟩) :
    Executes env base [instruction] before after := by
  intro code world holds
  refine Relation.ReflTransGen.single ?_
  have present := holds 0 instruction rfl
  simp only [Nat.add_zero] at present
  simp only [step, present]
  exact moves code world

def stackRun (pool : ConstantPool) : List Instruction → List Value → Option (List Value)
  | [], stack => some stack
  | instruction :: rest, stack =>
    match instruction.isPlain, stackEffect pool instruction stack with
    | true, .done next => stackRun pool rest next
    | _, _ => none

theorem stack_run_append (pool : ConstantPool) (first second : List Instruction)
    (stack : List Value) :
    stackRun pool (first ++ second) stack = (stackRun pool first stack).bind (stackRun pool second) := by
  induction first generalizing stack with
  | nil => rfl
  | cons instruction rest ih =>
    simp only [List.cons_append, stackRun]
    split
    · exact ih _
    · rfl

theorem Executes.of_stack_run {instructions : List Instruction} {stack result : List Value}
    (ran : stackRun env.constants instructions stack = some result) (base : Nat)
    (locals : Locals) : Executes env base instructions (stack, locals) (result, locals) := by
  induction instructions generalizing stack base with
  | nil =>
    cases ran
    exact Executes.nil base _
  | cons instruction rest ih =>
    unfold stackRun at ran
    split at ran
    · rename_i next plain effect
      have head : Executes env base [instruction] (stack, locals) (next, locals) :=
        Executes.single fun code world => execute_done env code _ plain effect
      exact head.append (ih ran (base + 1))
    · cases ran

end Sequences

end RustcCodegenJvm.Jvm
