import Vpoline.Lib.Bytes

/-!
# A Fragment of RV64GC

Registers, decoding and execution for the instructions a system call
trampoline is made of, together with every load and store of the I, F, D and
C extensions.

`decode` and `decodeCompressed` follow the encoding tables of the
unprivileged ISA field by field. Compressed loads and stores decode to the
instruction they abbreviate, so `exec` has one case for each operation and
the two lengths differ only in the address of the next instruction, which
`exec` takes as an argument.

`exec` also takes a translation `ρ` of data addresses. The identity is the
plain machine; another `ρ` is the machine whose data accesses land elsewhere,
which is how an emulated access is specified.

Register `x0` reads as zero and ignores writes. The register file is still a
total function, with an unused entry at `0`, so that `get` and `set` are the
only places that know about it.

## Main definitions

* `Instr`: The instructions.
* `Core`: A hart's registers, program counter and memory.
* `exec`: The effect of one instruction.
* `decode`: Decoding a 32-bit instruction word.
* `decodeCompressed`: Decoding a 16-bit load or store.

## Theorems

* `get_set_self`, `get_set_other`: Reading a register after a write.
* `set_zero`, `get_zero`: Writes to `x0` are dropped, and it reads as zero.
* `get_set`: Both cases in one rewrite rule.
-/

namespace Vpoline

abbrev Word := BitVec 64

abbrev Reg := Fin 32

/-- Numerals name registers. -/
instance instNeZeroReg : NeZero 32 := Nat.instNeZeroSucc

namespace RV64

abbrev zero : Reg := 0
abbrev ra : Reg := 1
abbrev sp : Reg := 2
abbrev gp : Reg := 3
abbrev tp : Reg := 4
abbrev t0 : Reg := 5
abbrev t1 : Reg := 6
abbrev t2 : Reg := 7
abbrev a0 : Reg := 10
abbrev a1 : Reg := 11
abbrev a2 : Reg := 12
abbrev a3 : Reg := 13
abbrev a4 : Reg := 14
abbrev a5 : Reg := 15
abbrev a6 : Reg := 16
abbrev a7 : Reg := 17
abbrev t3 : Reg := 28
abbrev t4 : Reg := 29
abbrev t5 : Reg := 30
abbrev t6 : Reg := 31

-- Floating-point registers are numbered separately: `ft0` is `f0`.
abbrev ft0 : Reg := 0
abbrev ft1 : Reg := 1
abbrev ft2 : Reg := 2
abbrev ft3 : Reg := 3
abbrev ft4 : Reg := 4
abbrev ft5 : Reg := 5
abbrev ft6 : Reg := 6
abbrev ft7 : Reg := 7
abbrev fa0 : Reg := 10
abbrev fa1 : Reg := 11
abbrev fa2 : Reg := 12
abbrev fa3 : Reg := 13
abbrev fa4 : Reg := 14
abbrev fa5 : Reg := 15
abbrev fa6 : Reg := 16
abbrev fa7 : Reg := 17
abbrev ft8 : Reg := 28
abbrev ft9 : Reg := 29
abbrev ft10 : Reg := 30
abbrev ft11 : Reg := 31

/-- The numbers of the saved registers, `s0`-`s11` and `fs0`-`fs11`. -/
def calleeSaved (r : Reg) : Bool :=
  r == 8 || r == 9 || (18 ≤ r && r ≤ 27)

/-- Access widths. -/
inductive Width
  | byte
  | half
  | word
  | double
deriving DecidableEq, Repr

def Width.bytes : Width → Nat
  | .byte => 1
  | .half => 2
  | .word => 4
  | .double => 8

inductive Instr
  | lui (rd : Reg) (imm : BitVec 20)
  | addi (rd rs1 : Reg) (imm : BitVec 12)
  | ori (rd rs1 : Reg) (imm : BitVec 12)
  | slli (rd rs1 : Reg) (shamt : BitVec 6)
  | srli (rd rs1 : Reg) (shamt : BitVec 6)
  | or (rd rs1 rs2 : Reg)
  | and (rd rs1 rs2 : Reg)
  | load (w : Width) (unsigned : Bool) (rd rs1 : Reg) (imm : BitVec 12)
  | store (w : Width) (rs2 rs1 : Reg) (imm : BitVec 12)
  | fload (w : Width) (rd rs1 : Reg) (imm : BitVec 12)
  | fstore (w : Width) (rs2 rs1 : Reg) (imm : BitVec 12)
  | jal (rd : Reg) (imm : BitVec 21)
  | jalr (rd rs1 : Reg) (imm : BitVec 12)
  | ecall
  | ebreak
deriving DecidableEq, Repr

/-- The integer register file. Entry `0` is never read or written. -/
abbrev Regs := Reg → Word

def Regs.get (x : Regs) (r : Reg) : Word :=
  if r = 0 then 0 else x r

def Regs.set (x : Regs) (r : Reg) (v : Word) : Regs :=
  if r = 0 then x else fun q => if q = r then v else x q

theorem get_set_self (x : Regs) (r : Reg) (v : Word) (h : r ≠ 0) :
    (x.set r v).get r = v := by
  simp only [Regs.get, Regs.set, if_neg h, if_true]

theorem get_set_other (x : Regs) (r q : Reg) (v : Word) (h : q ≠ r) :
    (x.set r v).get q = x.get q := by
  simp only [Regs.get, Regs.set]
  by_cases hr : r = 0
  · rw [if_pos hr]
  · simp only [if_neg hr, if_neg h]

theorem set_zero (x : Regs) (v : Word) : x.set 0 v = x := by
  simp only [Regs.set, if_true]

/-- Reading after a write, as one rewrite rule for concrete registers. -/
theorem get_set (x : Regs) (r q : Reg) (v : Word) :
    (x.set r v).get q = if q = r ∧ r ≠ 0 then v else x.get q := by
  by_cases h : q = r ∧ r ≠ 0
  · rw [if_pos h, h.1, get_set_self _ _ _ h.2]
  · rw [if_neg h]
    by_cases hq : q = r
    · have hr : r = 0 := not_not.mp (fun hne => h ⟨hq, hne⟩)
      rw [hr, set_zero]
    · exact get_set_other _ _ _ _ hq

theorem get_zero (x : Regs) : x.get 0 = 0 := by
  simp only [Regs.get, if_true]

/-- A hart: program counter, integer and floating-point registers, memory. -/
structure Core where
  pc : Addr
  x : Regs
  f : Reg → Word
  mem : Mem

namespace Core

def get (c : Core) (r : Reg) : Word :=
  c.x.get r

def set (c : Core) (r : Reg) (v : Word) : Core :=
  { c with x := c.x.set r v }

def setF (c : Core) (r : Reg) (v : Word) : Core :=
  { c with f := fun q => if q = r then v else c.f q }

def goto (c : Core) (a : Addr) : Core :=
  { c with pc := a }

def setMem (c : Core) (m : Mem) : Core :=
  { c with mem := m }

end Core

/-- An integer load extends to 64 bits, with sign or with zeros. -/
def extend (unsigned : Bool) {n : Nat} (v : BitVec n) : Word :=
  if unsigned then v.setWidth 64 else v.signExtend 64

/-- A narrower floating-point value is NaN-boxed: the bits above it are ones. -/
def box {n : Nat} (v : BitVec n) : Word :=
  v.setWidth 64 ||| (BitVec.allOnes 64 <<< n)

theorem extend_double (v : Word) : extend false v = v := by
  simp only [extend, Bool.false_eq_true, if_false, BitVec.signExtend_eq]

theorem box_double (v : Word) : box v = v := by
  have hmask : BitVec.allOnes 64 <<< 64 = 0#64 := by decide
  rw [box, hmask, BitVec.setWidth_eq, BitVec.or_zero]

/-- The effective address of a load or store. -/
def effective (x : Regs) (rs1 : Reg) (imm : BitVec 12) : Addr :=
  x.get rs1 + imm.signExtend 64

/-- One instruction, with `next` the address after it and `ρ` translating
    data addresses. Traps into the environment are `none`. -/
def exec (ρ : Addr → Addr) (next : Addr) (c : Core) : Instr → Option Core
  | .lui rd imm => some ((c.set rd ((imm ++ 0#12).signExtend 64)).goto next)
  | .addi rd rs1 imm => some ((c.set rd (c.get rs1 + imm.signExtend 64)).goto next)
  | .ori rd rs1 imm => some ((c.set rd (c.get rs1 ||| imm.signExtend 64)).goto next)
  | .slli rd rs1 shamt => some ((c.set rd (c.get rs1 <<< shamt.toNat)).goto next)
  | .srli rd rs1 shamt => some ((c.set rd (c.get rs1 >>> shamt.toNat)).goto next)
  | .or rd rs1 rs2 => some ((c.set rd (c.get rs1 ||| c.get rs2)).goto next)
  | .and rd rs1 rs2 => some ((c.set rd (c.get rs1 &&& c.get rs2)).goto next)
  | .load w u rd rs1 imm =>
      some ((c.set rd (extend u (c.mem.read (ρ (effective c.x rs1 imm)) w.bytes))).goto next)
  | .store w rs2 rs1 imm =>
      some ((c.setMem (c.mem.write (ρ (effective c.x rs1 imm)) w.bytes
        ((c.get rs2).setWidth _))).goto next)
  | .fload w rd rs1 imm =>
      some ((c.setF rd (box (c.mem.read (ρ (effective c.x rs1 imm)) w.bytes))).goto next)
  | .fstore w rs2 rs1 imm =>
      some ((c.setMem (c.mem.write (ρ (effective c.x rs1 imm)) w.bytes
        ((c.f rs2).setWidth _))).goto next)
  | .jal rd imm => some ((c.set rd next).goto (c.pc + imm.signExtend 64))
  | .jalr rd rs1 imm =>
      some ((c.set rd next).goto ((c.get rs1 + imm.signExtend 64) &&& ~~~1))
  | .ecall => none
  | .ebreak => none

/-- A register field of an instruction. -/
def regField {n : Nat} (w : BitVec n) (start : Nat) : Reg :=
  (w.extractLsb' start 5).toFin

/-- The I-type immediate. -/
def immI (w : BitVec 32) : BitVec 12 :=
  w.extractLsb' 20 12

/-- The S-type immediate. -/
def immS (w : BitVec 32) : BitVec 12 :=
  w.extractLsb' 25 7 ++ w.extractLsb' 7 5

/-- The J-type immediate, bit 0 included. -/
def immJ (w : BitVec 32) : BitVec 21 :=
  w.extractLsb' 31 1 ++ w.extractLsb' 12 8 ++ w.extractLsb' 20 1 ++ w.extractLsb' 21 10 ++ 0#1

/-- The width and extension of an integer load, from its `funct3` field. -/
def loadKind (funct3 : BitVec 3) : Option (Width × Bool) :=
  if funct3 = 0 then some (.byte, false)
  else if funct3 = 1 then some (.half, false)
  else if funct3 = 2 then some (.word, false)
  else if funct3 = 3 then some (.double, false)
  else if funct3 = 4 then some (.byte, true)
  else if funct3 = 5 then some (.half, true)
  else if funct3 = 6 then some (.word, true)
  else none

/-- The width of an integer store. -/
def storeKind (funct3 : BitVec 3) : Option Width :=
  if funct3 = 0 then some .byte
  else if funct3 = 1 then some .half
  else if funct3 = 2 then some .word
  else if funct3 = 3 then some .double
  else none

/-- The width of a floating-point load or store of the F and D extensions. -/
def floatKind (funct3 : BitVec 3) : Option Width :=
  if funct3 = 2 then some .word
  else if funct3 = 3 then some .double
  else none

/-- Decoding of the 32-bit loads and stores. -/
def decodeAccess (w : BitVec 32) : Option Instr :=
  let op := w.extractLsb' 0 7
  let funct3 := w.extractLsb' 12 3
  if op = 0b0000011 then
    (loadKind funct3).map (fun k => .load k.1 k.2 (regField w 7) (regField w 15) (immI w))
  else if op = 0b0000111 then
    (floatKind funct3).map (fun k => .fload k (regField w 7) (regField w 15) (immI w))
  else if op = 0b0100011 then
    (storeKind funct3).map (fun k => .store k (regField w 20) (regField w 15) (immS w))
  else if op = 0b0100111 then
    (floatKind funct3).map (fun k => .fstore k (regField w 20) (regField w 15) (immS w))
  else none

/-- Decoding of the other 32-bit instructions of the fragment. -/
def decodeOther (w : BitVec 32) : Option Instr :=
  let op := w.extractLsb' 0 7
  let funct3 := w.extractLsb' 12 3
  let rd := regField w 7
  let rs1 := regField w 15
  if op = 0b0110111 then some (.lui rd (w.extractLsb' 12 20))
  else if op = 0b0010011 then
    if funct3 = 0 then some (.addi rd rs1 (immI w))
    else if funct3 = 6 then some (.ori rd rs1 (immI w))
    else if funct3 = 1 ∧ w.extractLsb' 26 6 = 0 then some (.slli rd rs1 (w.extractLsb' 20 6))
    else if funct3 = 5 ∧ w.extractLsb' 26 6 = 0 then some (.srli rd rs1 (w.extractLsb' 20 6))
    else none
  else if op = 0b0110011 then
    if funct3 = 6 ∧ w.extractLsb' 25 7 = 0 then some (.or rd rs1 (regField w 20))
    else if funct3 = 7 ∧ w.extractLsb' 25 7 = 0 then some (.and rd rs1 (regField w 20))
    else none
  else if op = 0b1101111 then some (.jal rd (immJ w))
  else if op = 0b1100111 then
    if funct3 = 0 then some (.jalr rd rs1 (immI w)) else none
  else if w = 0x00000073 then some .ecall
  else if w = 0x00100073 then some .ebreak
  else none

/-- Decoding of a 32-bit instruction word. -/
def decode (w : BitVec 32) : Option Instr :=
  (decodeAccess w).or (decodeOther w)

/-- A three-bit register field names one of `x8`-`x15`, or `f8`-`f15`. -/
def regFieldC (w : BitVec 16) (start : Nat) : Reg :=
  (0b01#2 ++ w.extractLsb' start 3).toFin

/-- The offset of `C.LW` and `C.SW`. -/
def immCW (w : BitVec 16) : BitVec 12 :=
  (w.extractLsb' 5 1 ++ w.extractLsb' 10 3 ++ w.extractLsb' 6 1 ++ 0#2).setWidth 12

/-- The offset of `C.LD`, `C.FLD`, `C.SD` and `C.FSD`. -/
def immCD (w : BitVec 16) : BitVec 12 :=
  (w.extractLsb' 5 2 ++ w.extractLsb' 10 3 ++ 0#3).setWidth 12

/-- The offset of `C.LWSP`. -/
def immLWSP (w : BitVec 16) : BitVec 12 :=
  (w.extractLsb' 2 2 ++ w.extractLsb' 12 1 ++ w.extractLsb' 4 3 ++ 0#2).setWidth 12

/-- The offset of `C.LDSP` and `C.FLDSP`. -/
def immLDSP (w : BitVec 16) : BitVec 12 :=
  (w.extractLsb' 2 3 ++ w.extractLsb' 12 1 ++ w.extractLsb' 5 2 ++ 0#3).setWidth 12

/-- The offset of `C.SWSP`. -/
def immSWSP (w : BitVec 16) : BitVec 12 :=
  (w.extractLsb' 7 2 ++ w.extractLsb' 9 4 ++ 0#2).setWidth 12

/-- The offset of `C.SDSP` and `C.FSDSP`. -/
def immSDSP (w : BitVec 16) : BitVec 12 :=
  (w.extractLsb' 7 3 ++ w.extractLsb' 10 3 ++ 0#3).setWidth 12

/-- Decoding of the 16-bit loads and stores. The stack-pointer loads into an
    integer register are reserved when that register is `x0`. -/
def decodeCompressed (w : BitVec 16) : Option Instr :=
  let quadrant := w.extractLsb' 0 2
  let funct3 := w.extractLsb' 13 3
  if quadrant = 0 then
    let rs1 := regFieldC w 7
    let r := regFieldC w 2
    if funct3 = 1 then some (.fload .double r rs1 (immCD w))
    else if funct3 = 2 then some (.load .word false r rs1 (immCW w))
    else if funct3 = 3 then some (.load .double false r rs1 (immCD w))
    else if funct3 = 5 then some (.fstore .double r rs1 (immCD w))
    else if funct3 = 6 then some (.store .word r rs1 (immCW w))
    else if funct3 = 7 then some (.store .double r rs1 (immCD w))
    else none
  else if quadrant = 2 then
    let rd := regField w 7
    let rs2 := regField w 2
    if funct3 = 1 then some (.fload .double rd sp (immLDSP w))
    else if funct3 = 2 ∧ rd ≠ 0 then some (.load .word false rd sp (immLWSP w))
    else if funct3 = 3 ∧ rd ≠ 0 then some (.load .double false rd sp (immLDSP w))
    else if funct3 = 5 then some (.fstore .double rs2 sp (immSDSP w))
    else if funct3 = 6 then some (.store .word rs2 sp (immSWSP w))
    else if funct3 = 7 then some (.store .double rs2 sp (immSDSP w))
    else none
  else none

end RV64

end Vpoline
