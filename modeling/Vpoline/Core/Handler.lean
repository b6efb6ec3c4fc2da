import Vpoline.Core.Layout

/-!
# The Fault Handler

`segfault_handler` of `sigsegv_handler.c`: emulation of a load or store that
faulted in the execute-only range.

The handler sees the interrupted registers through a `ucontext_t`. Its
general register array has the program counter at index 0, where the
architecture has the register that is always zero, so the emulation has to
treat that index by hand. A 16-bit halfword is fetched first, and its two low
bits say whether the instruction is that halfword or a whole word.

Every branch is kept with its message. In a `DEBUG` build most errors trap
instead of exiting, and the flag is a parameter.

## Main definitions

* `UContext`: The machine context of a signal.
* `getField`: A field of an instruction word.
* `emulateLoadInstruction`, `emulateFloadInstruction`,
  `emulateStoreInstruction`, `emulateFstoreInstruction`: The four 32-bit
  families.
* `emulateCLoadStoreInstruction`, `emulateSpRelCLoadStoreInstruction`: The two
  16-bit families.
* `segfaultHandler`: The handler.
-/

namespace Vpoline

open RV64

/-- The registers of `uc_mcontext`. `gregs 0` is the program counter. -/
structure UContext where
  gregs : Reg → Word
  fpregs : Reg → Word

/-- `REG_PC`. -/
abbrev regPc : Reg := 0

/-- An index into one of the two register arrays. The fields that are used as
    one have at most five bits. -/
def regIndex (r : BitVec 8) : Reg := Fin.ofNat 32 r.toNat

def UContext.setGreg (ctx : UContext) (r : BitVec 8) (v : Word) : UContext :=
  { ctx with gregs := fun q => if q = regIndex r then v else ctx.gregs q }

def UContext.setFpreg (ctx : UContext) (r : BitVec 8) (v : Word) : UContext :=
  { ctx with fpregs := fun q => if q = regIndex r then v else ctx.fpregs q }

def UContext.advance (ctx : UContext) (pcStep : Word) : UContext :=
  { ctx with gregs := fun q => if q = regPc then ctx.gregs regPc + pcStep else ctx.gregs q }

/-- `get_field`: `len` bits from `start`, as a `uint8_t`. -/
def getField (instr : BitVec 32) (start len : Nat) : BitVec 8 :=
  ((instr >>> start) &&& (((1 : BitVec 32) <<< len) - 1)).setWidth 8

-- The constants of `rv_opcodes.h`.
abbrev loadOpcode : BitVec 8 := 0x03
abbrev lbFunct3 : BitVec 8 := 0x0
abbrev lhFunct3 : BitVec 8 := 0x1
abbrev lwFunct3 : BitVec 8 := 0x2
abbrev ldFunct3 : BitVec 8 := 0x3
abbrev lbuFunct3 : BitVec 8 := 0x4
abbrev lhuFunct3 : BitVec 8 := 0x5
abbrev lwuFunct3 : BitVec 8 := 0x6
abbrev floadOpcode : BitVec 8 := 0x07
abbrev flwFunct3 : BitVec 8 := 0x2
abbrev fldFunct3 : BitVec 8 := 0x3
abbrev storeOpcode : BitVec 8 := 0x23
abbrev sbFunct3 : BitVec 8 := 0x0
abbrev shFunct3 : BitVec 8 := 0x1
abbrev swFunct3 : BitVec 8 := 0x2
abbrev sdFunct3 : BitVec 8 := 0x3
abbrev fstoreOpcode : BitVec 8 := 0x27
abbrev fswFunct3 : BitVec 8 := 0x2
abbrev fsdFunct3 : BitVec 8 := 0x3
abbrev c0Opcode : BitVec 8 := 0x00
abbrev cFldFunct3 : BitVec 8 := 0x1
abbrev cLwFunct3 : BitVec 8 := 0x2
abbrev cLdFunct3 : BitVec 8 := 0x3
abbrev cFsdFunct3 : BitVec 8 := 0x5
abbrev cSwFunct3 : BitVec 8 := 0x6
abbrev cSdFunct3 : BitVec 8 := 0x7
abbrev c2Opcode : BitVec 8 := 0x02
abbrev cFldspFunct3 : BitVec 8 := 0x1
abbrev cLwspFunct3 : BitVec 8 := 0x2
abbrev cLdspFunct3 : BitVec 8 := 0x3
abbrev cFsdspFunct3 : BitVec 8 := 0x5
abbrev cSwspFunct3 : BitVec 8 := 0x6
abbrev cSdspFunct3 : BitVec 8 := 0x7

/-- `rvc_reg_map`: the registers a three-bit field can name. -/
def rvcRegMap : List (BitVec 8) := [8, 9, 10, 11, 12, 13, 14, 15]

/-- An error the `DEBUG` build turns into a trap. -/
def unrecognized (debug : Bool) (message : String) : Stop :=
  if debug then .trap message else .exit message

/-- `emulate_load_instruction`. Nothing is read for a load into `x0`, whatever
    its `funct3` field. -/
def emulateLoadInstruction (debug : Bool) (ctx : UContext) (m : Mem) (funct3 rd : BitVec 8)
    (backupAddr : Addr) : Except Stop UContext :=
  if rd = 0 then .ok ctx
  else if funct3 = lbFunct3 then .ok (ctx.setGreg rd ((m.read backupAddr 1).signExtend 64))
  else if funct3 = lhFunct3 then .ok (ctx.setGreg rd ((m.read backupAddr 2).signExtend 64))
  else if funct3 = lwFunct3 then .ok (ctx.setGreg rd ((m.read backupAddr 4).signExtend 64))
  else if funct3 = ldFunct3 then .ok (ctx.setGreg rd (m.read backupAddr 8))
  else if funct3 = lbuFunct3 then .ok (ctx.setGreg rd ((m.read backupAddr 1).setWidth 64))
  else if funct3 = lhuFunct3 then .ok (ctx.setGreg rd ((m.read backupAddr 2).setWidth 64))
  else if funct3 = lwuFunct3 then .ok (ctx.setGreg rd ((m.read backupAddr 4).setWidth 64))
  else .error (unrecognized debug
    "Error: Unrecognized funct3 field for LOAD instruction\n")

/-- `emulate_fload_instruction`, with the NaN boxing of `FLW`. -/
def emulateFloadInstruction (debug : Bool) (ctx : UContext) (m : Mem) (funct3 rd : BitVec 8)
    (backupAddr : Addr) : Except Stop UContext :=
  if funct3 = flwFunct3 then
    .ok (ctx.setFpreg rd (0xFFFFFFFF00000000 ||| (m.read backupAddr 4).setWidth 64))
  else if funct3 = fldFunct3 then .ok (ctx.setFpreg rd (m.read backupAddr 8))
  else .error (unrecognized debug
    "Error: Unrecognized funct3 field for FLOAD instruction\n")

/-- The value of a source register: index 0 is not a register. -/
def UContext.source (ctx : UContext) (rs2 : BitVec 8) : Word :=
  if rs2 = 0 then 0 else ctx.gregs (regIndex rs2)

/-- `emulate_store_instruction`. -/
def emulateStoreInstruction (debug : Bool) (ctx : UContext) (m : Mem) (funct3 rs2 : BitVec 8)
    (backupAddr : Addr) : Except Stop Mem :=
  if funct3 = sbFunct3 then .ok (m.write backupAddr 1 ((ctx.source rs2).setWidth 8))
  else if funct3 = shFunct3 then .ok (m.write backupAddr 2 ((ctx.source rs2).setWidth 16))
  else if funct3 = swFunct3 then .ok (m.write backupAddr 4 ((ctx.source rs2).setWidth 32))
  else if funct3 = sdFunct3 then .ok (m.write backupAddr 8 (ctx.source rs2))
  else .error (unrecognized debug
    "Error: Unrecognized funct3 field for STORE instruction\n")

/-- `emulate_fstore_instruction`. -/
def emulateFstoreInstruction (debug : Bool) (ctx : UContext) (m : Mem) (funct3 rs2 : BitVec 8)
    (backupAddr : Addr) : Except Stop Mem :=
  if funct3 = fswFunct3 then
    .ok (m.write backupAddr 4 ((ctx.fpregs (regIndex rs2)).setWidth 32))
  else if funct3 = fsdFunct3 then .ok (m.write backupAddr 8 (ctx.fpregs (regIndex rs2)))
  else .error (unrecognized debug
    "Error: Unrecognized funct3 field for FSTORE instruction\n")

/-- `emulate_c_load_store_instruction`, for loads and stores alike. -/
def emulateCLoadStoreInstruction (debug : Bool) (ctx : UContext) (m : Mem)
    (funct3 reg : BitVec 8) (backupAddr : Addr) : Except Stop (UContext × Mem) :=
  if funct3 = cFldFunct3 then .ok (ctx.setFpreg reg (m.read backupAddr 8), m)
  else if funct3 = cLwFunct3 then
    .ok (ctx.setGreg reg ((m.read backupAddr 4).signExtend 64), m)
  else if funct3 = cLdFunct3 then .ok (ctx.setGreg reg (m.read backupAddr 8), m)
  else if funct3 = cFsdFunct3 then .ok (ctx, m.write backupAddr 8 (ctx.fpregs (regIndex reg)))
  else if funct3 = cSwFunct3 then
    .ok (ctx, m.write backupAddr 4 ((ctx.gregs (regIndex reg)).setWidth 32))
  else if funct3 = cSdFunct3 then .ok (ctx, m.write backupAddr 8 (ctx.gregs (regIndex reg)))
  else .error (unrecognized debug
    "Error: Unrecognized funct3 field for non-SP relative compressed instruction\n")

/-- `emulate_sp_rel_c_load_store_instruction`. -/
def emulateSpRelCLoadStoreInstruction (debug : Bool) (ctx : UContext) (m : Mem)
    (funct3 rd rs2 : BitVec 8) (backupAddr : Addr) : Except Stop (UContext × Mem) :=
  if funct3 = cFldspFunct3 then .ok (ctx.setFpreg rd (m.read backupAddr 8), m)
  else if funct3 = cLwspFunct3 then
    .ok (if rd ≠ 0 then ctx.setGreg rd ((m.read backupAddr 4).signExtend 64) else ctx, m)
  else if funct3 = cLdspFunct3 then
    .ok (if rd ≠ 0 then ctx.setGreg rd (m.read backupAddr 8) else ctx, m)
  else if funct3 = cFsdspFunct3 then
    .ok (ctx, m.write backupAddr 8 (ctx.fpregs (regIndex rs2)))
  else if funct3 = cSwspFunct3 then
    .ok (ctx, m.write backupAddr 4 ((ctx.source rs2).setWidth 32))
  else if funct3 = cSdspFunct3 then .ok (ctx, m.write backupAddr 8 (ctx.source rs2))
  else .error (unrecognized debug
    "Error: Unrecognized funct3 field for SP relative compressed instruction\n")

/-- The dispatch on the opcode of a 32-bit instruction. -/
def emulate32 (debug : Bool) (ctx : UContext) (m : Mem) (instr : BitVec 32)
    (backupAddr : Addr) : Except Stop (UContext × Mem) :=
  let opcode := getField instr 0 7
  let funct3 := getField instr 12 3
  let rd := getField instr 7 5
  let rs2 := getField instr 20 5
  if opcode = loadOpcode then
    (emulateLoadInstruction debug ctx m funct3 rd backupAddr).map (fun ctx' => (ctx', m))
  else if opcode = floadOpcode then
    (emulateFloadInstruction debug ctx m funct3 rd backupAddr).map (fun ctx' => (ctx', m))
  else if opcode = storeOpcode then
    (emulateStoreInstruction debug ctx m funct3 rs2 backupAddr).map (fun m' => (ctx, m'))
  else if opcode = fstoreOpcode then
    (emulateFstoreInstruction debug ctx m funct3 rs2 backupAddr).map (fun m' => (ctx, m'))
  else .error (unrecognized debug
    ("Error: Unimplemented 32-bit instruction causing fault at XOM region. Opcode: "
      ++ hex opcode.toNat ++ "\n"))

/-- The dispatch on the quadrant of a 16-bit instruction. -/
def emulate16 (debug : Bool) (ctx : UContext) (m : Mem) (cInstr : BitVec 16)
    (backupAddr : Addr) : Except Stop (UContext × Mem) :=
  let instr := cInstr.setWidth 32
  let opcode := getField instr 0 2
  let funct3 := getField instr 13 3
  if opcode = c0Opcode then
    let reg := rvcRegMap.getD (getField instr 2 3).toNat 0
    emulateCLoadStoreInstruction debug ctx m funct3 reg backupAddr
  else if opcode = c2Opcode then
    emulateSpRelCLoadStoreInstruction debug ctx m funct3 (getField instr 7 5)
      (getField instr 2 5) backupAddr
  -- The one error that does not depend on the build.
  else .error (.exit
    ("Error: Unimplemented 16-bit instruction causing fault at XOM region. Opcode: "
      ++ hex opcode.toNat ++ "\n"))

/-- `segfault_handler` for a fault at `siAddr`, in the context `ctx` and the
    memory `m`. -/
def segfaultHandler (debug : Bool) (rsi : ReturnSequenceInfo) (siAddr : Addr) (ctx : UContext)
    (m : Mem) : Except Stop (UContext × Mem) :=
  match backupAddr rsi siAddr with
  | none => .error (outsideXom debug siAddr)
  | some backup =>
      let pc := ctx.gregs regPc
      let cInstr : BitVec 16 := m.read pc 2
      -- A word is read only if the first half announces one.
      let is32bit := cInstr &&& 0x3 = 0x3
      if is32bit then
        (emulate32 debug ctx m (m.read pc 4) backup).map (fun r => (r.1.advance 4, r.2))
      else
        (emulate16 debug ctx m cInstr backup).map (fun r => (r.1.advance 2, r.2))

end Vpoline
