import Vpoline.Lib.RV64

/-!
# The Injected Code

The instruction words `patcher.c` writes around `relocated_gp`, and the
assembly of `main.c` they lead to.

A patched `ecall` is `jalr gp, gp, 0`, so it jumps to whatever `gp` holds and
leaves the return address in `gp`. `setupShadowPageTrampoline` is what it
lands on: twenty words at `relocated_gp` that open a 304-byte frame, spill
the four registers they are about to use, rebuild the address of
`asm_syscall_hook` from two 32-bit halves, and jump there. `setupReturn` is
the way back: fourteen words that end right below `relocated_gp` with a
`jalr gp, gp, 0` of their own, whose link value is `relocated_gp` again.

The words are kept as the source has them, in hexadecimal, and decoded by the
machine. The assembly is kept as a list of statements: which of them the
assembler compresses, and how it expands `la` and `call`, is not in the
source, so a statement has an address but no encoding.

## Main definitions

* `splitImmediate`: The `lui` and `addi` fields that rebuild a 32-bit half.
* `setupShadowPageTrampoline`: The words written at `relocated_gp`.
* `setupReturn`: The words written at `relocated_gp - 56`.
* `patchedEcall`: The word that replaces an `ecall`.
* `Stmt`: A statement of the inline assembly.
* `asmSyscallHook`: The assembly the trampoline jumps to.
* `syscallNoIntercept`: The assembly hooks call to reach the kernel.

## Theorems

* `length_trampoline`, `length_return`: The sizes of the two code pieces.
-/

namespace Vpoline

open RV64

/-- `RET_SEQUENCE_SIZE`: fourteen words of four bytes. -/
def retSequenceSize : Nat := 56

/-- The word that replaces an `ecall`: `jalr gp, gp, 0`. -/
def patchedEcall : BitVec 32 := 0x000181e7

/-- The fields with which `lui` and `addi` rebuild `half`. `addi` sign-extends
    its immediate, so a low part above 2047 borrows from the upper one. -/
def splitImmediate (half : BitVec 32) : BitVec 32 × BitVec 32 :=
  let luiImmField := half &&& 0xfffff000
  if half % 4096 ≠ 0 then
    let addiImmField := half - luiImmField
    if addiImmField > 2047 then (luiImmField + 4096, -(4096 - addiImmField))
    else (luiImmField, addiImmField)
  else (luiImmField, 0)

/-- The trampoline towards `dst`, the address of `asm_syscall_hook`. -/
def setupShadowPageTrampoline (dst : Addr) : List (BitVec 32) :=
  let upper32 : BitVec 32 := ((dst &&& 0xffffffff00000000) >>> 32).setWidth 32
  let lower32 : BitVec 32 := dst.setWidth 32
  let upper := splitImmediate upper32
  let lower := splitImmediate lower32
  [ 0xed010113,                          -- addi sp, sp, -304
    0x00513023,                          -- sd t0, 0(sp)
    0x00613423,                          -- sd t1, 8(sp)
    0x00713823,                          -- sd t2, 16(sp)
    0x01c13c23,                          -- sd t3, 24(sp)
    0x000002b7 ||| upper.1,              -- lui t0, ...
    0x00028293 ||| (upper.2 <<< 20),     -- addi t0, t0, ...
    0x02029293,                          -- slli t0, t0, 32
    0x00000e37 ||| lower.1,              -- lui t3, ...
    0x000e0e13 ||| (lower.2 <<< 20),     -- addi t3, t3, ...
    0x7ffff337,                          -- lui t1, 0x7ffff
    0x7ff06393,                          -- ori t2, zero, 0x7ff
    0x00139393,                          -- slli t2, t2, 1
    0x0013e393,                          -- ori t2, t2, 1
    0x00736333,                          -- or t1, t1, t2
    0x00131313,                          -- slli t1, t1, 1
    0x00136313,                          -- ori t1, t1, 1
    0x006e7e33,                          -- and t3, t3, t1
    0x01c2e2b3,                          -- or t0, t0, t3
    0x00028067 ]                         -- jalr zero, t0, 0

theorem length_trampoline (dst : Addr) : (setupShadowPageTrampoline dst).length = 20 := rfl

/-- The three return paths, which share the final `jalr gp, gp, 0`. -/
def setupReturn : List (BitVec 32) :=
  [ -- path for already handled system calls
    0x12013183,  -- ld gp, 288(sp)
    0x00013283,  -- ld t0, 0(sp)
    0x13010113,  -- addi sp, sp, 304
    0x0280006f,  -- j before_gp[13]
    -- normal system call path
    0x00000073,  -- ecall
    0x12013183,  -- ld gp, 288(sp)
    0x00013283,  -- ld t0, 0(sp)
    0x13010113,  -- addi sp, sp, 304
    0x0140006f,  -- j before_gp[13]
    -- clone/clone3 path
    0x12013183,  -- ld gp, 288(sp)
    0x00013283,  -- ld t0, 0(sp)
    0x13010113,  -- addi sp, sp, 304
    0x00000073,  -- ecall
    0x000181e7 ] -- jalr gp, gp, 0

theorem length_return : 4 * setupReturn.length = retSequenceSize := rfl

/-- The jump targets inside `asm_syscall_hook`. -/
inductive Label
  | handledEcall
  | returnPrelude
  | doClone
  | doRtSigreturn
deriving DecidableEq, Repr

/-- A statement of the inline assembly. The only symbol loaded by `la` is
    `relocated_global_pointer`, and the only function called is
    `syscall_hook`. -/
inductive Stmt
  | ins (i : Instr)
  | la (rd : Reg)
  | beq (rs1 rs2 : Reg) (target : Label)
  | j (target : Label)
  | call
deriving DecidableEq, Repr

namespace Stmt

def mv (rd rs : Reg) : Stmt := .ins (.addi rd rs 0)

def li (rd : Reg) (imm : BitVec 12) : Stmt := .ins (.addi rd zero imm)

def addi (rd rs : Reg) (imm : BitVec 12) : Stmt := .ins (.addi rd rs imm)

def srli (rd rs : Reg) (shamt : BitVec 6) : Stmt := .ins (.srli rd rs shamt)

def ld (rd : Reg) (off : BitVec 12) (rs : Reg) : Stmt := .ins (.load .double false rd rs off)

def sd (rs2 : Reg) (off : BitVec 12) (rs : Reg) : Stmt := .ins (.store .double rs2 rs off)

def fld (rd : Reg) (off : BitVec 12) (rs : Reg) : Stmt := .ins (.fload .double rd rs off)

def fsd (rs2 : Reg) (off : BitVec 12) (rs : Reg) : Stmt := .ins (.fstore .double rs2 rs off)

def beqz (rs : Reg) (target : Label) : Stmt := .beq rs zero target

def jalr (rd rs : Reg) (imm : BitVec 12) : Stmt := .ins (.jalr rd rs imm)

def ecall : Stmt := .ins .ecall

def ebreak : Stmt := .ins .ebreak

def ret : Stmt := .ins (.jalr zero ra 0)

end Stmt

open Stmt

/-- From the entry of `asm_syscall_hook` to the `rt_sigreturn` check. -/
def hookEntry : List Stmt :=
  [ sd gp 288 sp,
    mv t1 gp,
    la t0,
    ld gp 0 t0,
    li t0 139,  -- __NR_rt_sigreturn
    beq a7 t0 .doRtSigreturn ]

/-- The caller-saved registers go to the frame, except `a0` and `t0`-`t3`. -/
def hookSave : List Stmt :=
  [ sd ra 32 sp,
    sd a1 40 sp,
    sd a2 48 sp,
    sd a3 56 sp,
    sd a4 64 sp,
    sd a5 72 sp,
    sd a6 80 sp,
    sd a7 88 sp,
    sd t4 96 sp,
    sd t5 104 sp,
    sd t6 112 sp,
    fsd fa0 120 sp,
    fsd fa1 128 sp,
    fsd fa2 136 sp,
    fsd fa3 144 sp,
    fsd fa4 152 sp,
    fsd fa5 160 sp,
    fsd fa6 168 sp,
    fsd fa7 176 sp,
    fsd ft0 184 sp,
    fsd ft1 192 sp,
    fsd ft2 200 sp,
    fsd ft3 208 sp,
    fsd ft4 216 sp,
    fsd ft5 224 sp,
    fsd ft6 232 sp,
    fsd ft7 240 sp,
    fsd ft8 248 sp,
    fsd ft9 256 sp,
    fsd ft10 264 sp,
    fsd ft11 272 sp,
    mv a6 t1 ]

/-- After `syscall_hook` returns, `a1` says which way out to take. -/
def hookRestore : List Stmt :=
  [ mv t0 a1,
    ld t1 8 sp,
    ld t2 16 sp,
    ld t3 24 sp,
    ld ra 32 sp,
    ld a1 40 sp,
    ld a2 48 sp,
    ld a3 56 sp,
    ld a4 64 sp,
    ld a5 72 sp,
    ld a6 80 sp,
    ld a7 88 sp,
    ld t4 96 sp,
    ld t5 104 sp,
    ld t6 112 sp,
    fld fa0 120 sp,
    fld fa1 128 sp,
    fld fa2 136 sp,
    fld fa3 144 sp,
    fld fa4 152 sp,
    fld fa5 160 sp,
    fld fa6 168 sp,
    fld fa7 176 sp,
    fld ft0 184 sp,
    fld ft1 192 sp,
    fld ft2 200 sp,
    fld ft3 208 sp,
    fld ft4 216 sp,
    fld ft5 224 sp,
    fld ft6 232 sp,
    fld ft7 240 sp,
    fld ft8 248 sp,
    fld ft9 256 sp,
    fld ft10 264 sp,
    fld ft11 272 sp ]

/-- The choice between the forwarded and the handled way out. -/
def hookDispatch : List Stmt :=
  [ beqz t0 .returnPrelude,
    srli t0 t0 1,
    beqz t0 .handledEcall,
    ebreak ]

/-- A jump to `relocated_global_pointer + off`. -/
def retJump (off : BitVec 12) : List Stmt :=
  [ la t0,
    ld t0 0 t0,
    addi t0 t0 off,
    jalr zero t0 0 ]

def handledEcallBlock : List Stmt := retJump (-56)

def returnPreludeBlock : List Stmt :=
  [ li t0 220,  -- __NR_clone
    beq a7 t0 .doClone,
    li t0 435,  -- __NR_clone3
    beq a7 t0 .doClone ] ++ retJump (-40)

def doCloneBlock : List Stmt := retJump (-20)

def doRtSigreturnBlock : List Stmt :=
  [ ld t1 8 sp,
    ld t2 16 sp,
    ld t3 24 sp,
    j .returnPrelude ]

/-- `asm_syscall_hook`, in the order of the source. -/
def asmSyscallHook : List Stmt :=
  hookEntry ++ hookSave ++ [call] ++ hookRestore ++ hookDispatch ++ handledEcallBlock
    ++ returnPreludeBlock ++ doCloneBlock ++ doRtSigreturnBlock

/-- The position of a label in `asm_syscall_hook`. -/
def Label.index : Label → Nat
  | .handledEcall =>
      (hookEntry ++ hookSave ++ [call] ++ hookRestore ++ hookDispatch).length
  | .returnPrelude =>
      (hookEntry ++ hookSave ++ [call] ++ hookRestore ++ hookDispatch ++ handledEcallBlock).length
  | .doClone =>
      (hookEntry ++ hookSave ++ [call] ++ hookRestore ++ hookDispatch ++ handledEcallBlock
        ++ returnPreludeBlock).length
  | .doRtSigreturn =>
      (hookEntry ++ hookSave ++ [call] ++ hookRestore ++ hookDispatch ++ handledEcallBlock
        ++ returnPreludeBlock ++ doCloneBlock).length

/-- `syscall_no_intercept`: the arguments move down by one register. -/
def syscallNoIntercept : List Stmt :=
  [ mv a7 a0,
    mv a0 a1,
    mv a1 a2,
    mv a2 a3,
    mv a3 a4,
    mv a4 a5,
    mv a5 a6,
    ecall,
    ret ]

/-- The two pieces of assembly in `main.c`. -/
inductive Prog
  | asmSyscallHook
  | syscallNoIntercept
deriving DecidableEq, Repr

def Prog.text : Prog → List Stmt
  | .asmSyscallHook => Vpoline.asmSyscallHook
  | .syscallNoIntercept => Vpoline.syscallNoIntercept

end Vpoline
