import Vpoline.Core.Handler
import Vpoline.Theory.Relocation

/-!
# The Fault Handler Implements the ISA

An access to the execute-only range faults, the handler emulates it, and the
program goes on. The result is the instruction as the architecture defines
it, with its data access performed at the redirected address.

The two sides are independent. The handler reads fields with shifts and
masks, dispatches on them and works on the register arrays of a signal
context. The architecture decodes by encoding tables and works on a hart.
`getField_eq` connects the fields, `contextOf` and `resume` connect the
context to the hart, and from there on there is one lemma for each of the
four things an access can do: load into an integer register, load into a
floating-point register, or store from either.

A run mixes accesses that fault with accesses that do not. `faultingStep` is
the machine the program really runs on, `aliasedStep` the machine on which
the execute-only range is just another name for the original data.

## Main definitions

* `contextOf`, `resume`: A hart as a signal context, and back.
* `fetchAccess`: The load or store at the program counter.
* `redirect`: The translation the handler applies to addresses.
* `faultingStep`, `aliasedStep`: The two machines.

## Theorems

* `getField_eq`: A field is a slice of the instruction.
* `resume_greg`, `resume_fpreg`, `resume_mem`: Returning from the handler.
* `emulate32_access`, `emulate16_access`: The two dispatches.
* `handler_access`: The handler on a load or store.
* `handler_other`: The handler on anything else.
* `faultingStep_eq`: One step of the two machines.
* `emulator_correct`: The handler implements the ISA.
-/

namespace Vpoline

open RV64

/-- The context the kernel saves for a hart that faulted. -/
def contextOf (c : Core) : UContext :=
  ⟨fun r => if r = regPc then c.pc else c.x r, c.f⟩

/-- The hart that `sigreturn` makes of a context. The unused entry of the
    register file has no counterpart in the context. -/
def resume (c : Core) (ctx : UContext) (m : Mem) : Core :=
  ⟨ctx.gregs regPc, fun r => if r = 0 then c.x 0 else ctx.gregs r, ctx.fpregs, m⟩

/-- The load or store at `pc`, with the address after it. The low two bits of
    the first halfword give its length. -/
def fetchAccess (m : Mem) (pc : Addr) : Option (Instr × Addr) :=
  let half : BitVec 16 := m.read pc 2
  if half.extractLsb' 0 2 = 3 then (decodeAccess (m.read pc 4)).map (fun i => (i, pc + 4))
  else (decodeCompressed half).map (fun i => (i, pc + 2))

/-- The address a load or store accesses. -/
def accessAddr (x : Regs) : Instr → Addr
  | .load _ _ _ rs1 imm => effective x rs1 imm
  | .store _ _ rs1 imm => effective x rs1 imm
  | .fload _ _ rs1 imm => effective x rs1 imm
  | .fstore _ _ rs1 imm => effective x rs1 imm
  | _ => 0

/-- Where an access to the execute-only range is performed instead. -/
def redirect (rsi : ReturnSequenceInfo) (a : Addr) : Addr :=
  rsi.startAddrPage + (a - rsi.retSequencePageAddr)

section Fields

theorem getField_eq (w : BitVec 32) (start len : Nat) (hlen : len ≤ 8) :
    getField w start len = (w.extractLsb' start len).setWidth 8 := by
  have hmask : ((1 : BitVec 32) <<< len - 1).toNat = 2 ^ len - 1 := by
    have hpow : 2 ^ len ≤ 2 ^ 8 := Nat.pow_le_pow_right (by omega) hlen
    have hpos := Nat.two_pow_pos len
    have hshift : ((1 : BitVec 32) <<< len).toNat = 2 ^ len := by
      rw [BitVec.toNat_shiftLeft, Nat.shiftLeft_eq]
      exact (congrArg (· % 2 ^ 32) (Nat.one_mul (2 ^ len))).trans (Nat.mod_eq_of_lt (by omega))
    rw [BitVec.toNat_sub_of_le (by rw [BitVec.le_def, hshift]; exact hpos), hshift]
    rfl
  apply BitVec.eq_of_toNat_eq
  rw [getField, BitVec.toNat_setWidth, BitVec.toNat_and, hmask, BitVec.toNat_ushiftRight,
    Nat.and_two_pow_sub_one_eq_mod, BitVec.toNat_setWidth, BitVec.extractLsb'_toNat]

/-- The same for a halfword, which C promotes to a word first. -/
theorem getField_half (c : BitVec 16) (start len : Nat) (hlen : len ≤ 8) :
    getField (c.setWidth 32) start len = (c.extractLsb' start len).setWidth 8 := by
  rw [getField_eq _ _ _ hlen]
  refine congrArg (BitVec.setWidth 8) (BitVec.eq_of_toNat_eq ?_)
  rw [BitVec.extractLsb'_toNat, BitVec.extractLsb'_toNat, BitVec.toNat_setWidth,
    Nat.mod_eq_of_lt (Nat.lt_of_lt_of_le c.isLt (by decide))]

theorem regIndex_field : ∀ r : BitVec 5, regIndex (r.setWidth 8) = r.toFin := by decide

theorem field_eq_zero : ∀ r : BitVec 5, r.setWidth 8 = (0 : BitVec 8) ↔ r = 0 := by decide

theorem toFin_eq_zero : ∀ r : BitVec 5, r.toFin = 0 ↔ r = 0 := by decide

theorem rvcRegMap_field : ∀ r : BitVec 3,
    rvcRegMap.getD (r.setWidth 8).toNat 0 = (0b01#2 ++ r : BitVec 5).setWidth 8 := by decide

theorem rvc_ne_zero : ∀ r : BitVec 3, (0b01#2 ++ r : BitVec 5) ≠ 0 := by decide

theorem funct3_cases : ∀ f : BitVec 3,
    f = 0 ∨ f = 1 ∨ f = 2 ∨ f = 3 ∨ f = 4 ∨ f = 5 ∨ f = 6 ∨ f = 7 := by decide

end Fields

section Resume

variable (c : Core) (n v : Word) (r : BitVec 5)

/-- The entry that holds the program counter does not get into the registers. -/
theorem resume_x (pc : Word) : (fun q : Reg => if q = 0 then c.x 0
    else if q = 0 then pc else if q = 0 then c.pc else c.x q) = c.x := by
  funext q
  by_cases hq : q = 0
  · rw [if_pos hq, hq]
  · rw [if_neg hq, if_neg hq, if_neg hq]

/-- Returning after an integer load, which is dropped for `x0`. -/
theorem resume_greg : resume c
    ((if r = 0 then contextOf c else (contextOf c).setGreg (r.setWidth 8) v).advance n) c.mem
      = (c.set r.toFin v).goto (c.pc + n) := by
  by_cases hr : r = 0
  · rw [if_pos hr, hr]
    have hzero : c.set (0 : BitVec 5).toFin v = c := by
      rw [Core.set, show (0 : BitVec 5).toFin = 0 by decide, set_zero]
    rw [hzero]
    simp only [resume, UContext.advance, contextOf, Core.goto, if_true, resume_x]
  · -- The register that is written is not the one that holds the pc.
    have hfin : r.toFin ≠ 0 := fun h => hr ((toFin_eq_zero r).mp h)
    rw [if_neg hr]
    simp only [resume, UContext.advance, UContext.setGreg, contextOf, regIndex_field, Core.set,
      Core.goto, if_true, if_neg hfin.symm, Core.mk.injEq, true_and, and_true]
    funext q
    simp only [Regs.set, if_neg hfin]
    by_cases hq : q = 0
    · rw [if_pos hq, hq, if_neg hfin.symm]
    · rw [if_neg hq, if_neg hq, if_neg hq]

/-- Returning after a floating-point load. -/
theorem resume_fpreg : resume c (((contextOf c).setFpreg (r.setWidth 8) v).advance n) c.mem
    = (c.setF r.toFin v).goto (c.pc + n) := by
  simp only [resume, UContext.advance, UContext.setFpreg, contextOf, regIndex_field, Core.setF,
    Core.goto, if_true, resume_x]

/-- Returning after a store. -/
theorem resume_mem (m : Mem) : resume c ((contextOf c).advance n) m
    = (c.setMem m).goto (c.pc + n) := by
  simp only [resume, UContext.advance, contextOf, Core.setMem, Core.goto, if_true, resume_x]

/-- A source register read through the context. -/
theorem source_contextOf : (contextOf c).source (r.setWidth 8) = c.get r.toFin := by
  rw [UContext.source, Core.get, Regs.get]
  by_cases hr : r = 0
  · rw [if_pos ((field_eq_zero r).mpr hr), if_pos ((toFin_eq_zero r).mpr hr)]
  · have hfin : r.toFin ≠ 0 := fun h => hr ((toFin_eq_zero r).mp h)
    rw [if_neg (fun h => hr ((field_eq_zero r).mp h)), if_neg hfin, regIndex_field]
    exact if_neg hfin

end Resume

section Families

variable {c : Core} {b : Addr} {debug : Bool} {f : BitVec 3} {r : BitVec 5}

theorem emulateLoad_spec {k : Width × Bool} (hk : loadKind f = some k) :
    emulateLoadInstruction debug (contextOf c) c.mem (f.setWidth 8) (r.setWidth 8) b
      = .ok (if r = 0 then contextOf c
        else (contextOf c).setGreg (r.setWidth 8) (extend k.2 (c.mem.read b k.1.bytes))) := by
  by_cases hr : r = 0
  · rw [if_pos hr, emulateLoadInstruction, if_pos ((field_eq_zero r).mpr hr)]
  · rw [if_neg hr, emulateLoadInstruction, if_neg (fun h => hr ((field_eq_zero r).mp h))]
    rcases funct3_cases f with rfl | rfl | rfl | rfl | rfl | rfl | rfl | rfl
    all_goals
      simp +decide only [loadKind, if_true, if_false, Option.some.injEq, reduceCtorEq] at hk
    all_goals
      subst hk
      simp +decide only [if_true, if_false, extend, Width.bytes, BitVec.signExtend_eq]

theorem emulateFload_spec {k : Width} (hk : floatKind f = some k) :
    emulateFloadInstruction debug (contextOf c) c.mem (f.setWidth 8) (r.setWidth 8) b
      = .ok ((contextOf c).setFpreg (r.setWidth 8) (box (c.mem.read b k.bytes))) := by
  have hmask : BitVec.allOnes 64 <<< 32 = (0xFFFFFFFF00000000 : Word) := by decide
  rcases funct3_cases f with rfl | rfl | rfl | rfl | rfl | rfl | rfl | rfl
  all_goals
    simp +decide only [floatKind, if_true, if_false, Option.some.injEq, reduceCtorEq] at hk
  · subst hk
    simp +decide only [emulateFloadInstruction, if_true, box, Width.bytes, hmask, BitVec.or_comm]
  · subst hk
    simp +decide only [emulateFloadInstruction, if_true, if_false, Width.bytes, box_double]

theorem emulateStore_spec {k : Width} (hk : storeKind f = some k) :
    emulateStoreInstruction debug (contextOf c) c.mem (f.setWidth 8) (r.setWidth 8) b
      = .ok (c.mem.write b k.bytes ((c.get r.toFin).setWidth _)) := by
  rw [emulateStoreInstruction, source_contextOf]
  rcases funct3_cases f with rfl | rfl | rfl | rfl | rfl | rfl | rfl | rfl
  all_goals
    simp +decide only [storeKind, if_true, if_false, Option.some.injEq, reduceCtorEq] at hk
  all_goals
    subst hk
    simp +decide only [if_true, if_false, Width.bytes, BitVec.setWidth_eq]

theorem emulateFstore_spec {k : Width} (hk : floatKind f = some k) :
    emulateFstoreInstruction debug (contextOf c) c.mem (f.setWidth 8) (r.setWidth 8) b
      = .ok (c.mem.write b k.bytes ((c.f r.toFin).setWidth _)) := by
  rw [emulateFstoreInstruction, regIndex_field]
  rcases funct3_cases f with rfl | rfl | rfl | rfl | rfl | rfl | rfl | rfl
  all_goals
    simp +decide only [floatKind, if_true, if_false, Option.some.injEq, reduceCtorEq] at hk
  all_goals
    subst hk
    simp +decide only [if_true, if_false, Width.bytes, BitVec.setWidth_eq, contextOf]

/-- A load of reserved width: nothing happens for `x0`, and any other
    destination is an error. -/
theorem emulateLoad_other {ctx : UContext} {m : Mem} {q : UContext × Mem}
    (hk : loadKind f = none)
    (hrun : (emulateLoadInstruction debug ctx m (f.setWidth 8) (r.setWidth 8) b).map
      (fun ctx' => (ctx', m)) = .ok q) : q = (ctx, m) := by
  rw [emulateLoadInstruction] at hrun
  by_cases hr : r.setWidth 8 = (0 : BitVec 8)
  · rw [if_pos hr] at hrun
    exact (Except.ok.inj hrun).symm
  · rw [if_neg hr] at hrun
    rcases funct3_cases f with rfl | rfl | rfl | rfl | rfl | rfl | rfl | rfl
    all_goals
      simp +decide only [if_false, reduceCtorEq, Except.map] at hk hrun

theorem emulateFload_other {ctx : UContext} {m : Mem} (hk : floatKind f = none) :
    emulateFloadInstruction debug ctx m (f.setWidth 8) (r.setWidth 8) b
      = .error (unrecognized debug
        "Error: Unrecognized funct3 field for FLOAD instruction\n") := by
  rw [emulateFloadInstruction]
  rcases funct3_cases f with rfl | rfl | rfl | rfl | rfl | rfl | rfl | rfl
  all_goals
    simp +decide only [if_false] at hk ⊢

theorem emulateStore_other {ctx : UContext} {m : Mem} (hk : storeKind f = none) :
    emulateStoreInstruction debug ctx m (f.setWidth 8) (r.setWidth 8) b
      = .error (unrecognized debug
        "Error: Unrecognized funct3 field for STORE instruction\n") := by
  rw [emulateStoreInstruction]
  rcases funct3_cases f with rfl | rfl | rfl | rfl | rfl | rfl | rfl | rfl
  all_goals
    simp +decide only [if_false] at hk ⊢

theorem emulateFstore_other {ctx : UContext} {m : Mem} (hk : floatKind f = none) :
    emulateFstoreInstruction debug ctx m (f.setWidth 8) (r.setWidth 8) b
      = .error (unrecognized debug
        "Error: Unrecognized funct3 field for FSTORE instruction\n") := by
  rw [emulateFstoreInstruction]
  rcases funct3_cases f with rfl | rfl | rfl | rfl | rfl | rfl | rfl | rfl
  all_goals
    simp +decide only [if_false] at hk ⊢

end Families

section Dispatch

variable {c : Core} {b : Addr} {debug : Bool} {ρ : Addr → Addr} {ins : Instr}

theorem opcode_load : ∀ op : BitVec 7, op.setWidth 8 = loadOpcode ↔ op = 0b0000011 := by decide

theorem opcode_fload : ∀ op : BitVec 7, op.setWidth 8 = floadOpcode ↔ op = 0b0000111 := by decide

theorem opcode_store : ∀ op : BitVec 7, op.setWidth 8 = storeOpcode ↔ op = 0b0100011 := by decide

theorem opcode_fstore : ∀ op : BitVec 7, op.setWidth 8 = fstoreOpcode ↔ op = 0b0100111 := by
  decide

theorem quadrant_c0 : ∀ q : BitVec 2, q.setWidth 8 = c0Opcode ↔ q = 0 := by decide

theorem quadrant_c2 : ∀ q : BitVec 2, q.setWidth 8 = c2Opcode ↔ q = 2 := by decide

/-- The dispatch of a 32-bit instruction, its fields written as slices. -/
theorem emulate32_eq (ctx : UContext) (m : Mem) (w : BitVec 32) :
    emulate32 debug ctx m w b =
      if w.extractLsb' 0 7 = 0b0000011 then
        (emulateLoadInstruction debug ctx m ((w.extractLsb' 12 3).setWidth 8)
          ((w.extractLsb' 7 5).setWidth 8) b).map (fun ctx' => (ctx', m))
      else if w.extractLsb' 0 7 = 0b0000111 then
        (emulateFloadInstruction debug ctx m ((w.extractLsb' 12 3).setWidth 8)
          ((w.extractLsb' 7 5).setWidth 8) b).map (fun ctx' => (ctx', m))
      else if w.extractLsb' 0 7 = 0b0100011 then
        (emulateStoreInstruction debug ctx m ((w.extractLsb' 12 3).setWidth 8)
          ((w.extractLsb' 20 5).setWidth 8) b).map (fun m' => (ctx, m'))
      else if w.extractLsb' 0 7 = 0b0100111 then
        (emulateFstoreInstruction debug ctx m ((w.extractLsb' 12 3).setWidth 8)
          ((w.extractLsb' 20 5).setWidth 8) b).map (fun m' => (ctx, m'))
      else .error (unrecognized debug
        ("Error: Unimplemented 32-bit instruction causing fault at XOM region. Opcode: "
          ++ hex (getField w 0 7).toNat ++ "\n")) := by
  simp only [emulate32]
  rw [getField_eq w 12 3 (by decide), getField_eq w 7 5 (by decide),
    getField_eq w 20 5 (by decide)]
  simp only [getField_eq w 0 7 (by decide), opcode_load, opcode_fload, opcode_store,
    opcode_fstore]

/-- The dispatch of a 16-bit instruction, its fields written as slices. -/
theorem emulate16_eq (ctx : UContext) (m : Mem) (h : BitVec 16) :
    emulate16 debug ctx m h b =
      if h.extractLsb' 0 2 = 0 then
        emulateCLoadStoreInstruction debug ctx m ((h.extractLsb' 13 3).setWidth 8)
          ((0b01#2 ++ h.extractLsb' 2 3 : BitVec 5).setWidth 8) b
      else if h.extractLsb' 0 2 = 2 then
        emulateSpRelCLoadStoreInstruction debug ctx m ((h.extractLsb' 13 3).setWidth 8)
          ((h.extractLsb' 7 5).setWidth 8) ((h.extractLsb' 2 5).setWidth 8) b
      else .error (.exit
        ("Error: Unimplemented 16-bit instruction causing fault at XOM region. Opcode: "
          ++ hex (getField (h.setWidth 32) 0 2).toNat ++ "\n")) := by
  simp only [emulate16]
  rw [getField_half h 13 3 (by decide), getField_half h 7 5 (by decide),
    getField_half h 2 5 (by decide), getField_half h 2 3 (by decide), rvcRegMap_field]
  simp only [getField_half h 0 2 (by decide), quadrant_c0, quadrant_c2]

/-- A 32-bit load or store, emulated at the translated address. -/
theorem emulate32_access (debug : Bool) {w : BitVec 32} (hdec : decodeAccess w = some ins)
    (hb : ρ (accessAddr c.x ins) = b) :
    ∃ r, emulate32 debug (contextOf c) c.mem w b = .ok r ∧
      exec ρ (c.pc + 4) c ins = some (resume c (r.1.advance 4) r.2) := by
  rw [emulate32_eq]
  simp only [decodeAccess] at hdec
  -- The opcodes, in the order in which they are tested.
  by_cases hload : w.extractLsb' 0 7 = 0b0000011
  · rw [if_pos hload] at hdec ⊢
    rcases Option.map_eq_some_iff.mp hdec with ⟨k, hk, rfl⟩
    rw [emulateLoad_spec hk]
    refine ⟨_, rfl, ?_⟩
    rw [resume_greg, ← hb]
    rfl
  · rw [if_neg hload] at hdec ⊢
    by_cases hfload : w.extractLsb' 0 7 = 0b0000111
    · rw [if_pos hfload] at hdec ⊢
      rcases Option.map_eq_some_iff.mp hdec with ⟨k, hk, rfl⟩
      rw [emulateFload_spec hk]
      refine ⟨_, rfl, ?_⟩
      rw [resume_fpreg, ← hb]
      rfl
    · rw [if_neg hfload] at hdec ⊢
      by_cases hstore : w.extractLsb' 0 7 = 0b0100011
      · rw [if_pos hstore] at hdec ⊢
        rcases Option.map_eq_some_iff.mp hdec with ⟨k, hk, rfl⟩
        rw [emulateStore_spec hk]
        refine ⟨_, rfl, ?_⟩
        rw [resume_mem, ← hb]
        rfl
      · rw [if_neg hstore] at hdec ⊢
        by_cases hfstore : w.extractLsb' 0 7 = 0b0100111
        · rw [if_pos hfstore] at hdec ⊢
          rcases Option.map_eq_some_iff.mp hdec with ⟨k, hk, rfl⟩
          rw [emulateFstore_spec hk]
          refine ⟨_, rfl, ?_⟩
          rw [resume_mem, ← hb]
          rfl
        · rw [if_neg hfstore] at hdec
          exact absurd hdec (by simp only [reduceCtorEq, not_false_eq_true])

/-- A compressed load or store through a register, emulated. The registers it
    can name are not `x0`. -/
theorem emulateC_access {h : BitVec 16} (hq : h.extractLsb' 0 2 = 0)
    (hdec : decodeCompressed h = some ins) (hb : ρ (accessAddr c.x ins) = b) :
    ∃ r, emulateCLoadStoreInstruction debug (contextOf c) c.mem ((h.extractLsb' 13 3).setWidth 8)
        ((0b01#2 ++ h.extractLsb' 2 3 : BitVec 5).setWidth 8) b = .ok r ∧
      exec ρ (c.pc + 2) c ins = some (resume c (r.1.advance 2) r.2) := by
  simp only [decodeCompressed] at hdec
  rw [if_pos hq] at hdec
  have hne := rvc_ne_zero (h.extractLsb' 2 3)
  -- The three-bit fields name `x8` to `x15`.
  have hgreg : ∀ v : Word, resume c (((contextOf c).setGreg
      ((0b01#2 ++ h.extractLsb' 2 3 : BitVec 5).setWidth 8) v).advance 2) c.mem
      = (c.set (regFieldC h 2) v).goto (c.pc + 2) := fun v => by
    have hres := resume_greg c 2 v (0b01#2 ++ h.extractLsb' 2 3)
    rw [if_neg hne] at hres
    exact hres
  have hsource : (contextOf c).gregs (regIndex ((0b01#2 ++ h.extractLsb' 2 3 : BitVec 5).setWidth
      8)) = c.get (regFieldC h 2) := by
    have hsrc := source_contextOf c (0b01#2 ++ h.extractLsb' 2 3)
    rw [UContext.source, if_neg (fun hz => hne ((field_eq_zero _).mp hz))] at hsrc
    exact hsrc
  rw [emulateCLoadStoreInstruction]
  rcases funct3_cases (h.extractLsb' 13 3) with hf | hf | hf | hf | hf | hf | hf | hf
  all_goals
    rw [hf] at hdec ⊢
    simp +decide only [if_true, if_false, Option.some.injEq, reduceCtorEq] at hdec
  · -- C.FLD
    subst hdec
    refine ⟨_, rfl, ?_⟩
    rw [resume_fpreg, ← hb, ← box_double (c.mem.read _ 8)]
    rfl
  · -- C.LW
    subst hdec
    refine ⟨_, rfl, ?_⟩
    rw [hgreg, ← hb]
    rfl
  · -- C.LD
    subst hdec
    refine ⟨_, rfl, ?_⟩
    rw [hgreg, ← hb, ← extend_double (c.mem.read _ 8)]
    rfl
  · -- C.FSD
    subst hdec
    refine ⟨_, rfl, ?_⟩
    rw [resume_mem, ← hb, regIndex_field]
    simp only [exec, Width.bytes, BitVec.setWidth_eq, contextOf, accessAddr, regFieldC]
  · -- C.SW
    subst hdec
    refine ⟨_, rfl, ?_⟩
    rw [resume_mem, ← hb, hsource]
    rfl
  · -- C.SD
    subst hdec
    refine ⟨_, rfl, ?_⟩
    rw [resume_mem, ← hb, hsource]
    simp only [exec, Width.bytes, BitVec.setWidth_eq, accessAddr]

/-- A compressed load or store through the stack pointer, emulated. -/
theorem emulateSpRelC_access {h : BitVec 16} (hq : h.extractLsb' 0 2 = 2)
    (hdec : decodeCompressed h = some ins) (hb : ρ (accessAddr c.x ins) = b) :
    ∃ r, emulateSpRelCLoadStoreInstruction debug (contextOf c) c.mem
        ((h.extractLsb' 13 3).setWidth 8) ((h.extractLsb' 7 5).setWidth 8)
        ((h.extractLsb' 2 5).setWidth 8) b = .ok r ∧
      exec ρ (c.pc + 2) c ins = some (resume c (r.1.advance 2) r.2) := by
  simp only [decodeCompressed] at hdec
  rw [if_neg (by rw [hq]; decide), if_pos hq] at hdec
  have hrd : regField h 7 = (h.extractLsb' 7 5).toFin := rfl
  -- The loads are reserved for `x0`, and dropped by the handler.
  have hgreg : ∀ v : Word, regField h 7 ≠ 0 → resume c ((if (h.extractLsb' 7 5).setWidth 8 ≠
      (0 : BitVec 8) then (contextOf c).setGreg ((h.extractLsb' 7 5).setWidth 8) v
      else contextOf c).advance 2) c.mem = (c.set (regField h 7) v).goto (c.pc + 2) := by
    intro v hne
    have hr : h.extractLsb' 7 5 ≠ 0 := fun hz => hne (hrd.trans ((toFin_eq_zero _).mpr hz))
    have hres := resume_greg c 2 v (h.extractLsb' 7 5)
    rw [if_neg hr] at hres
    rw [if_pos (fun hz => hr ((field_eq_zero _).mp hz))]
    exact hres
  rw [emulateSpRelCLoadStoreInstruction, source_contextOf]
  rcases funct3_cases (h.extractLsb' 13 3) with hf | hf | hf | hf | hf | hf | hf | hf
  all_goals
    rw [hf] at hdec ⊢
    simp +decide only [if_true, if_false, Option.some.injEq, reduceCtorEq, false_and, true_and]
      at hdec
  · -- C.FLDSP
    subst hdec
    refine ⟨_, rfl, ?_⟩
    rw [resume_fpreg, ← hb, ← box_double (c.mem.read _ 8)]
    rfl
  · -- C.LWSP
    by_cases hz : regField h 7 = 0
    · rw [if_neg (fun hn => hn hz)] at hdec
      exact absurd hdec (by simp only [reduceCtorEq, not_false_eq_true])
    · rw [if_pos hz, Option.some.injEq] at hdec
      subst hdec
      refine ⟨_, rfl, ?_⟩
      rw [hgreg _ hz, ← hb]
      rfl
  · -- C.LDSP
    by_cases hz : regField h 7 = 0
    · rw [if_neg (fun hn => hn hz)] at hdec
      exact absurd hdec (by simp only [reduceCtorEq, not_false_eq_true])
    · rw [if_pos hz, Option.some.injEq] at hdec
      subst hdec
      refine ⟨_, rfl, ?_⟩
      rw [hgreg _ hz, ← hb, ← extend_double (c.mem.read _ 8)]
      rfl
  · -- C.FSDSP
    subst hdec
    refine ⟨_, rfl, ?_⟩
    rw [resume_mem, ← hb, regIndex_field]
    simp only [exec, Width.bytes, BitVec.setWidth_eq, contextOf, accessAddr, regField]
  · -- C.SWSP
    subst hdec
    refine ⟨_, rfl, ?_⟩
    rw [resume_mem, ← hb]
    rfl
  · -- C.SDSP
    subst hdec
    refine ⟨_, rfl, ?_⟩
    rw [resume_mem, ← hb]
    simp only [exec, Width.bytes, BitVec.setWidth_eq, accessAddr, regField]

/-- A 16-bit load or store, emulated at the translated address. -/
theorem emulate16_access (debug : Bool) {h : BitVec 16} (hdec : decodeCompressed h = some ins)
    (hb : ρ (accessAddr c.x ins) = b) :
    ∃ r, emulate16 debug (contextOf c) c.mem h b = .ok r ∧
      exec ρ (c.pc + 2) c ins = some (resume c (r.1.advance 2) r.2) := by
  rw [emulate16_eq]
  by_cases h0 : h.extractLsb' 0 2 = 0
  · rw [if_pos h0]
    exact emulateC_access h0 hdec hb
  · rw [if_neg h0]
    by_cases h2 : h.extractLsb' 0 2 = 2
    · rw [if_pos h2]
      exact emulateSpRelC_access h2 hdec hb
    · simp only [decodeCompressed] at hdec
      rw [if_neg h0, if_neg h2] at hdec
      exact absurd hdec (by simp only [reduceCtorEq, not_false_eq_true])

/-- A 32-bit word that is not an access is rejected, or loads into `x0` with a
    reserved width and is dropped. -/
theorem emulate32_other {ctx : UContext} {m : Mem} {w : BitVec 32} {r : UContext × Mem}
    (hdec : decodeAccess w = none) (hrun : emulate32 debug ctx m w b = .ok r) :
    r = (ctx, m) := by
  rw [emulate32_eq] at hrun
  simp only [decodeAccess] at hdec
  by_cases hload : w.extractLsb' 0 7 = 0b0000011
  · rw [if_pos hload] at hdec hrun
    exact emulateLoad_other (Option.map_eq_none_iff.mp hdec) hrun
  · rw [if_neg hload] at hdec hrun
    by_cases hfload : w.extractLsb' 0 7 = 0b0000111
    · rw [if_pos hfload] at hdec hrun
      rw [emulateFload_other (Option.map_eq_none_iff.mp hdec)] at hrun
      exact absurd hrun (by simp only [Except.map, reduceCtorEq, not_false_eq_true])
    · rw [if_neg hfload] at hdec hrun
      by_cases hstore : w.extractLsb' 0 7 = 0b0100011
      · rw [if_pos hstore] at hdec hrun
        rw [emulateStore_other (Option.map_eq_none_iff.mp hdec)] at hrun
        exact absurd hrun (by simp only [Except.map, reduceCtorEq, not_false_eq_true])
      · rw [if_neg hstore] at hdec hrun
        by_cases hfstore : w.extractLsb' 0 7 = 0b0100111
        · rw [if_pos hfstore] at hdec hrun
          rw [emulateFstore_other (Option.map_eq_none_iff.mp hdec)] at hrun
          exact absurd hrun (by simp only [Except.map, reduceCtorEq, not_false_eq_true])
        · rw [if_neg hfstore] at hrun
          exact absurd hrun (by simp only [reduceCtorEq, not_false_eq_true])

/-- A halfword that is not an access is rejected, or loads into `x0` through
    the stack pointer and is dropped. -/
theorem emulate16_other {ctx : UContext} {m : Mem} {h : BitVec 16} {r : UContext × Mem}
    (hdec : decodeCompressed h = none) (hrun : emulate16 debug ctx m h b = .ok r) :
    r = (ctx, m) := by
  rw [emulate16_eq] at hrun
  simp only [decodeCompressed] at hdec
  by_cases h0 : h.extractLsb' 0 2 = 0
  · rw [if_pos h0] at hdec hrun
    rw [emulateCLoadStoreInstruction] at hrun
    rcases funct3_cases (h.extractLsb' 13 3) with hf | hf | hf | hf | hf | hf | hf | hf
    all_goals
      rw [hf] at hdec hrun
      simp +decide only [if_true, if_false, reduceCtorEq] at hdec hrun
  · rw [if_neg h0] at hdec hrun
    by_cases h2 : h.extractLsb' 0 2 = 2
    · rw [if_pos h2] at hdec hrun
      rw [emulateSpRelCLoadStoreInstruction] at hrun
      have hzero : regField h 7 = 0 → (h.extractLsb' 7 5).setWidth 8 = (0 : BitVec 8) :=
        fun hz => (field_eq_zero _).mpr ((toFin_eq_zero _).mp hz)
      rcases funct3_cases (h.extractLsb' 13 3) with hf | hf | hf | hf | hf | hf | hf | hf
      all_goals
        rw [hf] at hdec hrun
        simp +decide only [if_true, if_false, reduceCtorEq, false_and, true_and, Except.ok.injEq,
          ite_eq_right_iff, imp_false, not_not, ne_eq] at hdec hrun
      all_goals
        rw [if_neg (fun hn => hn (hzero hdec))] at hrun
        exact hrun.symm
    · rw [if_neg h2] at hrun
      exact absurd hrun (by simp only [reduceCtorEq, not_false_eq_true])

end Dispatch

section Handler

variable {rsi : ReturnSequenceInfo} {debug : Bool}

/-- The test for a 32-bit instruction: the two low bits. -/
theorem is32bit_iff (h : BitVec 16) : h &&& 0x3 = 0x3 ↔ h.extractLsb' 0 2 = 3 := by
  have hmask : (h &&& 0x3).toNat = h.toNat % 4 := by
    rw [BitVec.toNat_and]
    exact Nat.and_two_pow_sub_one_eq_mod h.toNat 2
  have hlow : (h.extractLsb' 0 2).toNat = h.toNat % 4 := by
    rw [BitVec.extractLsb'_toNat, Nat.shiftRight_zero]
  rw [← BitVec.toNat_inj, ← BitVec.toNat_inj, hmask, hlow]
  exact Iff.rfl

/-- The handler on a fault it accepts. -/
theorem segfaultHandler_eq {f b : Addr} (hb : backupAddr rsi f = some b) (ctx : UContext)
    (m : Mem) : segfaultHandler debug rsi f ctx m =
      if (m.read (ctx.gregs regPc) 2 : BitVec 16).extractLsb' 0 2 = 3 then
        (emulate32 debug ctx m (m.read (ctx.gregs regPc) 4) b).map
          (fun r => (r.1.advance 4, r.2))
      else
        (emulate16 debug ctx m (m.read (ctx.gregs regPc) 2) b).map
          (fun r => (r.1.advance 2, r.2)) := by
  simp only [segfaultHandler, hb, is32bit_iff]

/-- On a load or store the handler succeeds, and returning from it is the
    instruction with its access at the redirected address. -/
theorem handler_access (debug : Bool) {ρ : Addr → Addr} {c : Core} {ins : Instr} {next b : Addr}
    (hfetch : fetchAccess c.mem c.pc = some (ins, next))
    (hb : backupAddr rsi (accessAddr c.x ins) = some b) (hρ : ρ (accessAddr c.x ins) = b) :
    ∃ r, segfaultHandler debug rsi (accessAddr c.x ins) (contextOf c) c.mem = .ok r ∧
      exec ρ next c ins = some (resume c r.1 r.2) := by
  rw [segfaultHandler_eq hb, show (contextOf c).gregs regPc = c.pc from rfl]
  simp only [fetchAccess] at hfetch
  by_cases h32 : (c.mem.read c.pc 2 : BitVec 16).extractLsb' 0 2 = 3
  · rw [if_pos h32] at hfetch ⊢
    rcases Option.map_eq_some_iff.mp hfetch with ⟨ins', hdec, hpair⟩
    rcases Prod.mk.inj hpair with ⟨rfl, rfl⟩
    rcases emulate32_access debug hdec hρ with ⟨r, hr, hexec⟩
    exact ⟨_, congrArg (Except.map _) hr, hexec⟩
  · rw [if_neg h32] at hfetch ⊢
    rcases Option.map_eq_some_iff.mp hfetch with ⟨ins', hdec, hpair⟩
    rcases Prod.mk.inj hpair with ⟨rfl, rfl⟩
    rcases emulate16_access debug hdec hρ with ⟨r, hr, hexec⟩
    exact ⟨_, congrArg (Except.map _) hr, hexec⟩

theorem ok_of_map_eq_ok {ε α β : Type} {f : α → β} {e : Except ε α} {v : β}
    (h : e.map f = .ok v) : ∃ u, e = .ok u ∧ f u = v := by
  cases e with
  | error err => exact absurd h (by simp only [Except.map, reduceCtorEq, not_false_eq_true])
  | ok u => exact ⟨u, rfl, Except.ok.inj h⟩

/-- On anything else the handler stops the process, or skips the instruction:
    no register other than the program counter and no memory changes. -/
theorem handler_other {c : Core} {f : Addr} {r : UContext × Mem}
    (hfetch : fetchAccess c.mem c.pc = none)
    (hrun : segfaultHandler debug rsi f (contextOf c) c.mem = .ok r) :
    r.2 = c.mem ∧ r.1.fpregs = c.f ∧ ∀ q, q ≠ regPc → r.1.gregs q = c.x q := by
  have hadvance : ∀ n : Word, ((contextOf c).advance n).fpregs = c.f ∧
      ∀ q, q ≠ regPc → ((contextOf c).advance n).gregs q = c.x q := fun n =>
    ⟨rfl, fun q hq => (if_neg hq).trans (if_neg hq)⟩
  cases hb : backupAddr rsi f with
  | none =>
      rw [segfaultHandler, hb] at hrun
      exact absurd hrun (by simp only [reduceCtorEq, not_false_eq_true])
  | some b =>
      rw [segfaultHandler_eq hb, show (contextOf c).gregs regPc = c.pc from rfl] at hrun
      simp only [fetchAccess] at hfetch
      by_cases h32 : (c.mem.read c.pc 2 : BitVec 16).extractLsb' 0 2 = 3
      · rw [if_pos h32] at hfetch hrun
        rcases ok_of_map_eq_ok hrun with ⟨q, hq, rfl⟩
        rw [emulate32_other (Option.map_eq_none_iff.mp hfetch) hq]
        exact ⟨rfl, hadvance 4⟩
      · rw [if_neg h32] at hfetch hrun
        rcases ok_of_map_eq_ok hrun with ⟨q, hq, rfl⟩
        rw [emulate16_other (Option.map_eq_none_iff.mp hfetch) hq]
        exact ⟨rfl, hadvance 2⟩

end Handler

section Machines

/-- The number of bytes a load or store accesses. -/
def accessBytes : Instr → Nat
  | .load w _ _ _ _ => w.bytes
  | .store w _ _ _ => w.bytes
  | .fload w _ _ _ => w.bytes
  | .fstore w _ _ _ => w.bytes
  | _ => 1

/-- Naturally aligned accesses: the address is a multiple of the width. -/
def NaturallyAligned (x : Regs) (ins : Instr) : Prop :=
  (accessAddr x ins).toNat % accessBytes ins = 0

instance (x : Regs) (ins : Instr) : Decidable (NaturallyAligned x ins) :=
  inferInstanceAs (Decidable (_ = _))

/-- The address that `a` is another name for. -/
def aliasOf (rsi : ReturnSequenceInfo) (a : Addr) : Addr :=
  (backupAddr rsi a).getD a

/-- One load or store on the machine the program runs on: in the execute-only
    range it faults, and the handler runs. -/
def faultingStep (debug : Bool) (rsi : ReturnSequenceInfo) (c : Core) : Option Core :=
  match fetchAccess c.mem c.pc with
  | none => none
  | some (ins, next) =>
      if ¬ NaturallyAligned c.x ins then none
      else if (backupAddr rsi (accessAddr c.x ins)).isSome then
        match segfaultHandler debug rsi (accessAddr c.x ins) (contextOf c) c.mem with
        | .ok r => some (resume c r.1 r.2)
        | .error _ => none
      else exec id next c ins

/-- One load or store on a machine without faults, where the range aliases the
    original data. -/
def aliasedStep (rsi : ReturnSequenceInfo) (c : Core) : Option Core :=
  match fetchAccess c.mem c.pc with
  | none => none
  | some (ins, next) =>
      if ¬ NaturallyAligned c.x ins then none else exec (aliasOf rsi) next c ins

/-- `n` loads and stores in a row. -/
def accessRun (step : Core → Option Core) : Nat → Core → Option Core
  | 0, c => some c
  | n + 1, c => (step c).bind (accessRun step n)

variable {rsi : ReturnSequenceInfo}

/-- An access outside the range is performed where it says. -/
theorem exec_outside {c : Core} {ins : Instr} {next : Addr}
    (h : backupAddr rsi (accessAddr c.x ins) = none) :
    exec id next c ins = exec (aliasOf rsi) next c ins := by
  cases ins <;> try rfl
  all_goals
    simp only [accessAddr] at h
    simp only [exec, aliasOf, h, Option.getD_none, id_eq]

theorem faultingStep_eq (debug : Bool) (rsi : ReturnSequenceInfo) (c : Core) :
    faultingStep debug rsi c = aliasedStep rsi c := by
  rw [faultingStep, aliasedStep]
  cases hfetch : fetchAccess c.mem c.pc with
  | none => rfl
  | some p =>
      rcases p with ⟨ins, next⟩
      by_cases hal : NaturallyAligned c.x ins
      · simp only [hal, not_true_eq_false, if_false]
        cases hb : backupAddr rsi (accessAddr c.x ins) with
        | none => exact exec_outside hb
        | some b =>
            have hρ : aliasOf rsi (accessAddr c.x ins) = b := by
              rw [aliasOf, hb, Option.getD_some]
            rcases handler_access debug hfetch hb hρ with ⟨r, hr, hexec⟩
            simp only [Option.isSome_some, if_true, hr, hexec]
      · simp only [hal, not_false_eq_true, if_true]

theorem accessRun_eq (debug : Bool) (rsi : ReturnSequenceInfo) (n : Nat) (c : Core) :
    accessRun (faultingStep debug rsi) n c = accessRun (aliasedStep rsi) n c := by
  induction n generalizing c with
  | zero => rfl
  | succ n ih =>
      rw [accessRun, accessRun, faultingStep_eq]
      exact congrArg _ (funext ih)

/-- A range made of whole words, as every range of pages is. -/
structure RangeOfWords (rsi : ReturnSequenceInfo) : Prop where
  start : rsi.retSequencePageAddr.toNat % 8 = 0
  size : rsi.protectionSize.toNat % 8 = 0
  nonempty : 0 < rsi.protectionSize.toNat
  fits : rsi.retSequencePageAddr.toNat + rsi.protectionSize.toNat ≤ 2 ^ 64

theorem accessBytes_cases (ins : Instr) :
    accessBytes ins = 1 ∨ accessBytes ins = 2 ∨ accessBytes ins = 4 ∨ accessBytes ins = 8 := by
  cases ins <;> simp only [accessBytes]
  case load w _ _ _ _ => cases w <;> decide
  case store w _ _ _ => cases w <;> decide
  case fload w _ _ _ => cases w <;> decide
  case fstore w _ _ _ => cases w <;> decide
  all_goals decide

theorem accessBytes_pos (ins : Instr) : 0 < accessBytes ins := by
  rcases accessBytes_cases ins with hw | hw | hw | hw <;> omega

/-- A naturally aligned access lies on one side of the boundary, so that its
    bytes are aliased one by one. -/
theorem aliasOf_bytewise (hr : RangeOfWords rsi) {x : Regs} {ins : Instr}
    (hal : NaturallyAligned x ins) {i : Nat} (hi : i < accessBytes ins) :
    aliasOf rsi (accessAddr x ins + BitVec.ofNat 64 i)
      = aliasOf rsi (accessAddr x ins) + BitVec.ofNat 64 i := by
  have hstart := hr.start
  have hsize := hr.size
  have hpos := hr.nonempty
  have hfits := hr.fits
  rw [NaturallyAligned] at hal
  generalize accessAddr x ins = a at hal ⊢
  have ha := a.isLt
  -- The access does not leave the doubleword it starts in.
  have hword : a.toNat % 8 + i < 8 := by
    rcases accessBytes_cases ins with hn | hn | hn | hn
    all_goals
      rw [hn] at hal hi
      omega
  have hsum : (a + BitVec.ofNat 64 i).toNat = a.toNat + i := by
    rw [BitVec.toNat_add, BitVec.toNat_ofNat, Nat.mod_eq_of_lt (by omega : i < 2 ^ 64)]
    exact Nat.mod_eq_of_lt (by omega)
  have hend : (xomEnd rsi).toNat
      = rsi.retSequencePageAddr.toNat + rsi.protectionSize.toNat - 1 := by
    rw [xomEnd, xomStart]
    bv_omega
  have hlow : a + BitVec.ofNat 64 i < xomStart rsi ↔ a < xomStart rsi := by
    rw [BitVec.lt_def, BitVec.lt_def, hsum, xomStart]
    omega
  have hhigh : a + BitVec.ofNat 64 i > xomEnd rsi ↔ a > xomEnd rsi := by
    rw [gt_iff_lt, gt_iff_lt, BitVec.lt_def, BitVec.lt_def, hsum, hend]
    omega
  simp only [aliasOf, backupAddr, hlow, hhigh]
  by_cases hout : a < xomStart rsi ∨ a > xomEnd rsi
  · rw [if_pos hout, if_pos hout]
    rfl
  · rw [if_neg hout, if_neg hout, Option.getD_some, Option.getD_some]
    bv_omega

end Machines

/-- The fault handler implements the ISA. On a load or store it gives the
    registers and memory of the instruction with its access redirected. On any
    other instruction it gives an error or changes the program counter alone.
    A run of loads and stores is the run of the machine whose execute-only
    range names the bytes of the original data. -/
theorem emulator_correct (debug : Bool) (rsi : ReturnSequenceInfo) :
    (∀ (c : Core) (ins : Instr) (next b : Addr), fetchAccess c.mem c.pc = some (ins, next) →
      backupAddr rsi (accessAddr c.x ins) = some b →
      ∃ r, segfaultHandler debug rsi (accessAddr c.x ins) (contextOf c) c.mem = .ok r ∧
        exec (redirect rsi) next c ins = some (resume c r.1 r.2)) ∧
    (∀ (c : Core) (f : Addr) (r : UContext × Mem), fetchAccess c.mem c.pc = none →
      segfaultHandler debug rsi f (contextOf c) c.mem = .ok r →
      r.2 = c.mem ∧ r.1.fpregs = c.f ∧ ∀ q, q ≠ regPc → r.1.gregs q = c.x q) ∧
    (∀ (n : Nat) (c : Core),
      accessRun (faultingStep debug rsi) n c = accessRun (aliasedStep rsi) n c) ∧
    (RangeOfWords rsi → ∀ (x : Regs) (ins : Instr) (i : Nat), NaturallyAligned x ins →
      i < accessBytes ins → aliasOf rsi (accessAddr x ins + BitVec.ofNat 64 i)
        = aliasOf rsi (accessAddr x ins) + BitVec.ofNat 64 i) := by
  refine ⟨?_, ?_, accessRun_eq debug rsi, ?_⟩
  · intro c ins next b hfetch hb
    exact handler_access debug hfetch hb (backupAddr_eq hb).symm
  · intro c f r hfetch hrun
    exact handler_other hfetch hrun
  · intro hr x ins i hal hi
    exact aliasOf_bytewise hr hal hi

/-- `lw a0, 0(gp)` at `0x1000`, with `gp` in the execute-only page of a process
    whose original `gp` is `0x12800`. -/
def faultingLoad : Core :=
  ⟨0x1000, fun r => if r = gp then 0x7f0000000800 else 0, fun _ => 0,
    (Mem.write (fun _ => 0) 0x1000 4 0x0001a503#32).write 0x12800 4 0xfffffffe#32⟩

/-- The load faults, and emulating it reads the original data. -/
theorem emulator_correct_load :
    ∃ g, layout 0x12800 4096 (some 0x7f0000000000) = .ok g ∧
      ∃ r, segfaultHandler false g.rsi 0x7f0000000800 (contextOf faultingLoad) faultingLoad.mem
          = .ok r ∧
        exec (redirect g.rsi) 0x1004 faultingLoad (.load .word false a0 gp 0)
          = some (resume faultingLoad r.1 r.2) :=
  ⟨_, rfl, (emulator_correct false _).1 faultingLoad (.load .word false a0 gp 0) 0x1004 0x12800
    (by decide) (by decide)⟩

end Vpoline
