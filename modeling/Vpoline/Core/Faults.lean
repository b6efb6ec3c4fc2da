import Vpoline.Core.Disasm
import Vpoline.Core.Handler

/-!
# The Fault Handler on Protected Memory

`segfault_handler` reads the instruction that faulted and performs its access
on the original data. Both may fault in turn. The handler is installed with
`SA_NODEFER`, so a fault inside it is not held back: the handler runs once
more, for the address of that fault. Outside the execute-only range it resets
`SIGSEGV` to its default action and raises it.

`Core.Handler` takes every access to succeed. Here each of its functions has a
`Touch` beside it, the access that it makes to the original data, if any: the
functions stay as they are, and an access that the protection does not allow
ends them before they have any effect.

## Main definitions

* `Space`: Memory with protections.
* `Ended`: How the handler ends a process.
* `allowed`: The protection of all bytes of an access.
* `Touch`: An access of an emulation function.
* `loadTouch`, `floadTouch`, `storeTouch`, `fstoreTouch`, `cTouch`,
  `spRelTouch`: The six families.
* `Space.segfaultHandler`: The handler, with its accesses checked.
* `Ended.nested`: What becomes of a fault inside the handler.
-/

namespace Vpoline

/-- Memory, and what each byte of it may be used for. -/
structure Space where
  mem : Mem
  prot : Addr → Prot

/-- How the handler ends a process. -/
inductive Ended
  | stop (reason : Stop)
  /-- An access to `address` that the protection does not allow. -/
  | segv (address : Addr)

inductive AccessKind
  | read
  | write
deriving DecidableEq, Repr

def Prot.allows (prot : Prot) : AccessKind → Bool
  | .read => prot.read
  | .write => prot.write

/-- Every byte of an access may be accessed. -/
def allowed (prot : Addr → Prot) (kind : AccessKind) (a : Addr) (size : Nat) : Bool :=
  (List.range size).all (fun k => (prot (a + BitVec.ofNat 64 k)).allows kind)

/-- An access to `backup_addr`. -/
structure Touch where
  kind : AccessKind
  size : Nat
deriving DecidableEq, Repr

/-- The access of `emulate_load_instruction`. There is none for `x0`. -/
def loadTouch (funct3 rd : BitVec 8) : Option Touch :=
  if rd = 0 then none
  else if funct3 = lbFunct3 then some ⟨.read, 1⟩
  else if funct3 = lhFunct3 then some ⟨.read, 2⟩
  else if funct3 = lwFunct3 then some ⟨.read, 4⟩
  else if funct3 = ldFunct3 then some ⟨.read, 8⟩
  else if funct3 = lbuFunct3 then some ⟨.read, 1⟩
  else if funct3 = lhuFunct3 then some ⟨.read, 2⟩
  else if funct3 = lwuFunct3 then some ⟨.read, 4⟩
  else none

/-- The access of `emulate_fload_instruction`. -/
def floadTouch (funct3 : BitVec 8) : Option Touch :=
  if funct3 = flwFunct3 then some ⟨.read, 4⟩
  else if funct3 = fldFunct3 then some ⟨.read, 8⟩
  else none

/-- The access of `emulate_store_instruction`. -/
def storeTouch (funct3 : BitVec 8) : Option Touch :=
  if funct3 = sbFunct3 then some ⟨.write, 1⟩
  else if funct3 = shFunct3 then some ⟨.write, 2⟩
  else if funct3 = swFunct3 then some ⟨.write, 4⟩
  else if funct3 = sdFunct3 then some ⟨.write, 8⟩
  else none

/-- The access of `emulate_fstore_instruction`. -/
def fstoreTouch (funct3 : BitVec 8) : Option Touch :=
  if funct3 = fswFunct3 then some ⟨.write, 4⟩
  else if funct3 = fsdFunct3 then some ⟨.write, 8⟩
  else none

/-- The access of `emulate_c_load_store_instruction`. -/
def cTouch (funct3 : BitVec 8) : Option Touch :=
  if funct3 = cFldFunct3 then some ⟨.read, 8⟩
  else if funct3 = cLwFunct3 then some ⟨.read, 4⟩
  else if funct3 = cLdFunct3 then some ⟨.read, 8⟩
  else if funct3 = cFsdFunct3 then some ⟨.write, 8⟩
  else if funct3 = cSwFunct3 then some ⟨.write, 4⟩
  else if funct3 = cSdFunct3 then some ⟨.write, 8⟩
  else none

/-- The access of `emulate_sp_rel_c_load_store_instruction`. -/
def spRelTouch (funct3 rd : BitVec 8) : Option Touch :=
  if funct3 = cFldspFunct3 then some ⟨.read, 8⟩
  else if funct3 = cLwspFunct3 then if rd ≠ 0 then some ⟨.read, 4⟩ else none
  else if funct3 = cLdspFunct3 then if rd ≠ 0 then some ⟨.read, 8⟩ else none
  else if funct3 = cFsdspFunct3 then some ⟨.write, 8⟩
  else if funct3 = cSwspFunct3 then some ⟨.write, 4⟩
  else if funct3 = cSdspFunct3 then some ⟨.write, 8⟩
  else none

/-- The access that is made for a 32-bit instruction. -/
def touch32 (instr : BitVec 32) : Option Touch :=
  let opcode := getField instr 0 7
  let funct3 := getField instr 12 3
  if opcode = loadOpcode then loadTouch funct3 (getField instr 7 5)
  else if opcode = floadOpcode then floadTouch funct3
  else if opcode = storeOpcode then storeTouch funct3
  else if opcode = fstoreOpcode then fstoreTouch funct3
  else none

/-- The access that is made for a 16-bit instruction. -/
def touch16 (cInstr : BitVec 16) : Option Touch :=
  let instr := cInstr.setWidth 32
  let opcode := getField instr 0 2
  let funct3 := getField instr 13 3
  if opcode = c0Opcode then cTouch funct3
  else if opcode = c2Opcode then spRelTouch funct3 (getField instr 7 5)
  else none

/-- What an emulation function gives if its access is allowed. -/
def checked {α : Type} (prot : Addr → Prot) (touch : Option Touch) (backup : Addr)
    (run : Except Stop α) : Except Ended α :=
  match touch with
  | none => run.mapError .stop
  | some t =>
      if allowed prot t.kind backup t.size then run.mapError .stop else .error (.segv backup)

/-- `segfault_handler`, with its accesses to the text and to the original data
    checked. -/
def Space.segfaultHandler (debug : Bool) (rsi : ReturnSequenceInfo) (siAddr : Addr)
    (ctx : UContext) (s : Space) : Except Ended (UContext × Mem) :=
  let run := Vpoline.segfaultHandler debug rsi siAddr ctx s.mem
  match backupAddr rsi siAddr with
  | none => run.mapError .stop
  | some backup =>
      let pc := ctx.gregs regPc
      -- The faulting instruction is read as data, which execute-only text does not allow.
      if allowed s.prot .read pc 2 = false then .error (.segv pc)
      else
        let cInstr : BitVec 16 := s.mem.read pc 2
        if cInstr &&& 0x3 = 0x3 then
          if allowed s.prot .read pc 4 = false then .error (.segv pc)
          else checked s.prot (touch32 (s.mem.read pc 4)) backup run
        else checked s.prot (touch16 cInstr) backup run

/-- A fault inside the handler runs the handler again. Inside the range it would
    go on to emulate an instruction of its own, which is left open here. -/
def Ended.nested (debug : Bool) (rsi : ReturnSequenceInfo) : Ended → Ended
  | .stop reason => .stop reason
  | .segv a => if (backupAddr rsi a).isSome then .segv a else .stop (outsideXom debug a)

end Vpoline
