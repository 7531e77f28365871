import RustcCodegenJvm.Jvm.Word

/-!
# JVM instructions

The instruction list that `lower2` builds. Families of opcodes that differ only
in an operand kind are one constructor with that kind as an argument: the
thirty `xload` forms are `load`, the sixteen conditional branches are `branch`.

As in the source, the targets of branches and jumps are absolute instruction
indices (an `i32` for the wide jumps), and the offsets of the two switches are
relative to the index of the instruction that holds them. Indices are plain numbers here; the places
where the source converts one to a fixed width check the bound.
-/

namespace RustcCodegenJvm.Jvm

/-- The operand kind of a load, a store or a return. -/
inductive LocalKind
  | int | long | float | double | reference
deriving DecidableEq

namespace LocalKind

def width : LocalKind → Nat
  | long | double => 2
  | int | float | reference => 1

theorem width_pos (kind : LocalKind) : 0 < kind.width := by
  cases kind <;> decide

end LocalKind

/-- How a load or store encodes its slot: `iload_2`, `iload 2` or `wide iload 2`. -/
inductive LocalForm
  | fixed (slot : Fin 4)
  | narrow (slot : Nat)
  | wide (slot : Nat)
deriving DecidableEq

def LocalForm.slot : LocalForm → Nat
  | fixed slot => slot.val
  | narrow slot => slot
  | wide slot => slot

def LocalForm.ofSlot (slot : Nat) : LocalForm :=
  if small : slot < 4 then .fixed ⟨slot, small⟩
  else if slot ≤ 255 then .narrow slot
  else .wide slot

@[simp] theorem LocalForm.slot_of_slot (slot : Nat) : (LocalForm.ofSlot slot).slot = slot := by
  unfold LocalForm.ofSlot
  split_ifs <;> rfl

inductive Condition
  | ifeq | ifne | iflt | ifge | ifgt | ifle
  | ifIcmpeq | ifIcmpne | ifIcmplt | ifIcmpge | ifIcmpgt | ifIcmple
  | ifAcmpeq | ifAcmpne | ifnull | ifnonnull
deriving DecidableEq

inductive NumericKind
  | int | long | float | double
deriving DecidableEq

inductive WordKind
  | int | long
deriving DecidableEq

inductive ArithmeticOp
  | add | sub | mul | div | rem
deriving DecidableEq

inductive ShiftOp
  | shl | shr | ushr
deriving DecidableEq

inductive BitwiseOp
  | and | or | xor
deriving DecidableEq

inductive Conversion
  | i2l | i2f | i2d | l2i | l2f | l2d | f2i | f2l | f2d | d2i | d2l | d2f
  | i2b | i2c | i2s
deriving DecidableEq

inductive IconstValue
  | m1 | zero | one | two | three | four | five
deriving DecidableEq

inductive ArrayKind
  | int | long | float | double | reference | byte | char | short
deriving DecidableEq

inductive ArrayType
  | boolean | char | float | double | byte | short | int | long
deriving DecidableEq

inductive FieldAccess
  | getstatic | putstatic | getfield | putfield
deriving DecidableEq

inductive InvokeKind
  | virtual | special | static
deriving DecidableEq

inductive ReservedOpcode
  | wide | breakpoint | impdep1 | impdep2
deriving DecidableEq

-- Named, so that the numerals of the instructions below need no proof of their own.
instance neZeroTwo : NeZero 2 := ⟨by decide⟩
instance neZeroThree : NeZero 3 := ⟨by decide⟩
instance neZeroFour : NeZero 4 := ⟨by decide⟩

inductive Instruction
  | nop
  | aconstNull
  | iconst (value : IconstValue)
  | lconst (value : Fin 2)
  | fconst (value : Fin 3)
  | dconst (value : Fin 2)
  | bipush (value : BitVec 8)
  | sipush (value : BitVec 16)
  | ldc (index : Nat)
  | ldcW (index : Nat)
  | ldc2W (index : Nat)
  | load (kind : LocalKind) (form : LocalForm)
  | store (kind : LocalKind) (form : LocalForm)
  | arrayLoad (kind : ArrayKind)
  | arrayStore (kind : ArrayKind)
  | pop | pop2 | dup | dupX1 | dupX2 | dup2 | dup2X1 | dup2X2 | swap
  | arithmetic (op : ArithmeticOp) (kind : NumericKind)
  | negate (kind : NumericKind)
  | shift (op : ShiftOp) (kind : WordKind)
  | bitwise (op : BitwiseOp) (kind : WordKind)
  | iinc (slot : Nat) (amount : BitVec 8)
  | iincW (slot : Nat) (amount : BitVec 16)
  | convert (conversion : Conversion)
  | lcmp | fcmpl | fcmpg | dcmpl | dcmpg
  | branch (condition : Condition) (target : Nat)
  | goto (target : Nat)
  | gotoW (target : Int)
  | jsr (target : Nat)
  | jsrW (target : Int)
  | ret (slot : Nat)
  | retW (slot : Nat)
  | tableswitch (default low high : Int) (offsets : List Int)
  | lookupswitch (default : Int) (pairs : List (Int × Int))
  | valueReturn (kind : LocalKind)
  | voidReturn
  | field (access : FieldAccess) (index : Nat)
  | invoke (kind : InvokeKind) (index : Nat)
  | invokeinterface (index count : Nat)
  | invokedynamic (index : Nat)
  | new (index : Nat)
  | newarray (elements : ArrayType)
  | anewarray (index : Nat)
  | arraylength
  | athrow
  | checkcast (index : Nat)
  | instanceof (index : Nat)
  | monitorenter
  | monitorexit
  | multianewarray (index dimensions : Nat)
  | reserved (opcode : ReservedOpcode)
deriving DecidableEq

/-- One row of a method's exception table: `range_pc` is half open, and a
`catch_type` of zero catches every exception. -/
structure ExceptionTableEntry where
  rangeStart : Nat
  rangeEnd : Nat
  handlerPc : Nat
  catchType : Nat
deriving DecidableEq

def ExceptionTableEntry.covers (entry : ExceptionTableEntry) (pc : Nat) : Bool :=
  entry.rangeStart ≤ pc && pc < entry.rangeEnd

end RustcCodegenJvm.Jvm
