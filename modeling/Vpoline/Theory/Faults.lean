import Vpoline.Core.Faults
import Vpoline.Theory.Relocated

/-!
# The Faults of the Program Itself

A program may fault on its own account: it dereferences a null pointer, or
writes to a page that it has made read-only. Natively that is the end of it.
Under vpoline the same signal first goes to `segfault_handler`, which has to
tell such a fault from one that vpoline has brought about by moving `gp`, and
an access relative to `gp` faults in any case, whether the program is entitled
to it or not.

This module compares the two processes on memory with protections. As long as
the program gets through, both go on alike. If it is killed, then so it is
under vpoline, at the same instruction: the handler performs the access on the
original data, faults there itself, and finds that address outside of its
range. The address is the native one, and a `DEBUG` build prints it.

There is one access that makes a difference. The handler does nothing for a
load into `x0`, so one that is relative to `gp` survives even where the native
one is killed.

## Main definitions

* `accessKind`, `nullLoad`: Loads and stores.
* `Footprint`: The only bytes that an emulation accesses.
* `Code.protectedNative`, `Code.protectedRelocated`: One instruction on
  protected memory.
* `protectedRun`: A number of instructions.
* `Guarded`: The protections of the two processes.
* `AtReadableInstruction`: What the program is held to.
* `SameOutcome`: Two outcomes that agree.

## Theorems

* `emulate32_footprint`, `emulate16_footprint`: The accesses that are checked are
  the ones that are made.
* `touch32_access`, `touch16_access`: They are those of the instruction.
* `handler_checked`: The handler on protected memory.
* `protected_step`: One instruction.
* `nullLoad_survives`: The access that makes a difference.
* `faults_alike`: Every run.
-/

namespace Vpoline

open RV64

/-- What a load or store does to its bytes. -/
def accessKind : Instr → AccessKind
  | .store .. => .write
  | .fstore .. => .write
  | _ => .read

/-- A load whose result is dropped. -/
def nullLoad : Instr → Bool
  | .load _ _ rd _ _ => rd == 0
  | _ => false

/-! ## What the emulation functions access -/

section Footprints

variable {b : Addr} {ctx : UContext} {debug : Bool}

/-- A function of memory that accesses `touch` at `b` and nothing else: it writes
    no other bytes, and the context that it gives depends on no others. -/
def Footprint (touch : Option Touch) (b : Addr) (run : Mem → Except Stop (UContext × Mem)) :
    Prop :=
  ∀ m r, run m = .ok r →
    (∀ a, (∀ t, touch = some t → t.kind = .write → t.size ≤ (a - b).toNat) → r.2 a = m a) ∧
    ∀ m', (∀ t, touch = some t → t.kind = .read → ∀ i, i < t.size →
      m' (b + BitVec.ofNat 64 i) = m (b + BitVec.ofNat 64 i)) → ∃ r', run m' = .ok r' ∧ r'.1 = r.1

namespace Footprint

theorem read (size : Nat) (f : BitVec (8 * size) → UContext) :
    Footprint (some ⟨.read, size⟩) b (fun m => .ok (f (m.read b size), m)) := by
  intro m r hr
  rcases Except.ok.inj hr with rfl
  refine ⟨fun a _ => rfl, fun m' hm' => ⟨_, rfl, ?_⟩⟩
  have hread : m'.read b size = m.read b size :=
    Mem.read_congr (fun i hi => hm' _ rfl rfl i hi)
  exact congrArg f hread

theorem write (size : Nat) (v : BitVec (8 * size)) :
    Footprint (some ⟨.write, size⟩) b (fun m => .ok (ctx, m.write b size v)) := by
  intro m r hr
  rcases Except.ok.inj hr with rfl
  exact ⟨fun a ha => Mem.write_outside (ha _ rfl rfl), fun m' _ => ⟨_, rfl, rfl⟩⟩

theorem ok : Footprint none b (fun m => .ok (ctx, m)) := by
  intro m r hr
  rcases Except.ok.inj hr with rfl
  exact ⟨fun _ _ => rfl, fun m' _ => ⟨_, rfl, rfl⟩⟩

theorem error {touch : Option Touch} (stop : Stop) : Footprint touch b (fun _ => .error stop) :=
  fun _ _ hr => absurd hr (by simp only [reduceCtorEq, not_false_eq_true])

theorem ite {p : Prop} [Decidable p] {t t' : Option Touch}
    {run run' : Mem → Except Stop (UContext × Mem)} (h : p → Footprint t b run)
    (h' : ¬ p → Footprint t' b run') :
    Footprint (if p then t else t') b (fun m => if p then run m else run' m) := by
  by_cases hp : p
  · simp only [hp, if_true]
    exact h hp
  · simp only [hp, if_false]
    exact h' hp

end Footprint

theorem emulateLoad_footprint (funct3 rd : BitVec 8) :
    Footprint (loadTouch funct3 rd) b (fun m =>
      (emulateLoadInstruction debug ctx m funct3 rd b).map (fun ctx' => (ctx', m))) := by
  have hload : ∀ size (extend : BitVec (8 * size) → BitVec 64), Footprint (some ⟨.read, size⟩) b
      (fun m => .ok (ctx.setGreg rd (extend (m.read b size)), m)) :=
    fun size extend => .read size (fun v => ctx.setGreg rd (extend v))
  simp only [emulateLoadInstruction, loadTouch, apply_ite (Except.map _)]
  exact .ite (fun _ => .ok) (fun _ => .ite (fun _ => hload 1 (BitVec.signExtend 64)) (fun _ =>
    .ite (fun _ => hload 2 (BitVec.signExtend 64)) (fun _ =>
    .ite (fun _ => hload 4 (BitVec.signExtend 64)) (fun _ => .ite (fun _ => hload 8 id) (fun _ =>
    .ite (fun _ => hload 1 (BitVec.setWidth 64)) (fun _ =>
    .ite (fun _ => hload 2 (BitVec.setWidth 64)) (fun _ =>
    .ite (fun _ => hload 4 (BitVec.setWidth 64)) (fun _ => .error _))))))))

theorem emulateFload_footprint (funct3 rd : BitVec 8) :
    Footprint (floadTouch funct3) b (fun m =>
      (emulateFloadInstruction debug ctx m funct3 rd b).map (fun ctx' => (ctx', m))) := by
  simp only [emulateFloadInstruction, floadTouch, apply_ite (Except.map _)]
  exact .ite (fun _ => .read 4 (fun v => ctx.setFpreg rd (0xffffffff00000000 ||| v.setWidth 64)))
    (fun _ => .ite (fun _ => .read 8 _) (fun _ => .error _))

theorem emulateStore_footprint (funct3 rs2 : BitVec 8) :
    Footprint (storeTouch funct3) b (fun m =>
      (emulateStoreInstruction debug ctx m funct3 rs2 b).map (fun m' => (ctx, m'))) := by
  simp only [emulateStoreInstruction, storeTouch, apply_ite (Except.map _)]
  exact .ite (fun _ => .write 1 _) (fun _ => .ite (fun _ => .write 2 _) (fun _ =>
    .ite (fun _ => .write 4 _) (fun _ => .ite (fun _ => .write 8 _) (fun _ => .error _))))

theorem emulateFstore_footprint (funct3 rs2 : BitVec 8) :
    Footprint (fstoreTouch funct3) b (fun m =>
      (emulateFstoreInstruction debug ctx m funct3 rs2 b).map (fun m' => (ctx, m'))) := by
  simp only [emulateFstoreInstruction, fstoreTouch, apply_ite (Except.map _)]
  exact .ite (fun _ => .write 4 _) (fun _ => .ite (fun _ => .write 8 _) (fun _ => .error _))

theorem emulateC_footprint (funct3 reg : BitVec 8) :
    Footprint (cTouch funct3) b (fun m =>
      emulateCLoadStoreInstruction debug ctx m funct3 reg b) := by
  simp only [emulateCLoadStoreInstruction, cTouch]
  exact .ite (fun _ => .read 8 _) (fun _ =>
    .ite (fun _ => .read 4 (fun v => ctx.setGreg reg (v.signExtend 64))) (fun _ =>
    .ite (fun _ => .read 8 _) (fun _ => .ite (fun _ => .write 8 _) (fun _ =>
    .ite (fun _ => .write 4 _) (fun _ => .ite (fun _ => .write 8 _) (fun _ => .error _))))))

theorem emulateSpRelC_footprint (funct3 rd rs2 : BitVec 8) :
    Footprint (spRelTouch funct3 rd) b (fun m =>
      emulateSpRelCLoadStoreInstruction debug ctx m funct3 rd rs2 b) := by
  -- A load into `x0` reads nothing.
  have hload : ∀ (size : Nat) (f : BitVec (8 * size) → UContext),
      Footprint (if rd ≠ 0 then some ⟨.read, size⟩ else none) b
        (fun m => .ok (if rd ≠ 0 then f (m.read b size) else ctx, m)) := by
    intro size f
    by_cases hrd : rd ≠ 0
    · simp only [if_pos hrd]
      exact .read size f
    · simp only [if_neg hrd]
      exact .ok
  simp only [emulateSpRelCLoadStoreInstruction, spRelTouch]
  exact .ite (fun _ => .read 8 _) (fun _ =>
    .ite (fun _ => hload 4 (fun v => ctx.setGreg rd (v.signExtend 64))) (fun _ =>
    .ite (fun _ => hload 8 _) (fun _ => .ite (fun _ => .write 8 _) (fun _ =>
    .ite (fun _ => .write 4 _) (fun _ => .ite (fun _ => .write 8 _) (fun _ => .error _))))))

/-- A 32-bit instruction is emulated with the access that is checked. -/
theorem emulate32_footprint (instr : BitVec 32) :
    Footprint (touch32 instr) b (fun m => emulate32 debug ctx m instr b) := by
  simp only [emulate32, touch32]
  exact .ite (fun _ => emulateLoad_footprint _ _) (fun _ =>
    .ite (fun _ => emulateFload_footprint _ _) (fun _ =>
    .ite (fun _ => emulateStore_footprint _ _) (fun _ =>
    .ite (fun _ => emulateFstore_footprint _ _) (fun _ => .error _))))

/-- And so is a 16-bit one. -/
theorem emulate16_footprint (cInstr : BitVec 16) :
    Footprint (touch16 cInstr) b (fun m => emulate16 debug ctx m cInstr b) := by
  simp only [emulate16, touch16]
  exact .ite (fun _ => emulateC_footprint _ _) (fun _ =>
    .ite (fun _ => emulateSpRelC_footprint _ _ _) (fun _ => .error _))

end Footprints

/-! ## What the handler accesses -/

section Touches

variable {f : BitVec 3} {r : BitVec 5} {ins : Instr}

theorem loadTouch_spec {k : Width × Bool} (hk : loadKind f = some k) :
    loadTouch (f.setWidth 8) (r.setWidth 8)
      = if r = 0 then none else some ⟨.read, k.1.bytes⟩ := by
  by_cases hr : r = 0
  · rw [if_pos hr, loadTouch, if_pos ((field_eq_zero r).mpr hr)]
  · rw [if_neg hr, loadTouch, if_neg (fun h => hr ((field_eq_zero r).mp h))]
    -- Seven widths and one reserved value.
    rcases funct3_cases f with rfl | rfl | rfl | rfl | rfl | rfl | rfl | rfl
    all_goals
      simp +decide only [loadKind, if_true, if_false, Option.some.injEq, reduceCtorEq] at hk
    all_goals
      subst hk
      decide

/-- The other three families, whose accesses depend on `funct3` alone. -/
theorem touch_spec : ∀ f : BitVec 3,
    (∀ k ∈ floatKind f, floadTouch (f.setWidth 8) = some ⟨.read, k.bytes⟩ ∧
      fstoreTouch (f.setWidth 8) = some ⟨.write, k.bytes⟩) ∧
    ∀ k ∈ storeKind f, storeTouch (f.setWidth 8) = some ⟨.write, k.bytes⟩ := by
  decide

/-- The access that an instruction asks for, apart from loads into `x0`. -/
def accessTouch (ins : Instr) : Option Touch :=
  if nullLoad ins then none else some ⟨accessKind ins, accessBytes ins⟩

theorem touch32_access {w : BitVec 32} (hdec : decodeAccess w = some ins) :
    touch32 w = accessTouch ins := by
  simp only [touch32]
  rw [getField_eq w 12 3 (by decide), getField_eq w 7 5 (by decide)]
  simp only [getField_eq w 0 7 (by decide), opcode_load, opcode_fload, opcode_store,
    opcode_fstore]
  simp only [decodeAccess] at hdec
  -- The opcodes, in the order in which they are tested.
  by_cases hload : w.extractLsb' 0 7 = 0b0000011
  · rw [if_pos hload] at hdec ⊢
    rcases Option.map_eq_some_iff.mp hdec with ⟨k, hk, rfl⟩
    rw [loadTouch_spec hk, accessTouch]
    by_cases hr : w.extractLsb' 7 5 = 0
    · rw [if_pos hr, if_pos (by simp only [nullLoad, regField, hr]; rfl)]
    · rw [if_neg hr, if_neg]
      · rfl
      · simp only [nullLoad, regField, beq_iff_eq]
        exact fun hz => hr ((toFin_eq_zero _).mp hz)
  · rw [if_neg hload] at hdec ⊢
    by_cases hfload : w.extractLsb' 0 7 = 0b0000111
    · rw [if_pos hfload] at hdec ⊢
      rcases Option.map_eq_some_iff.mp hdec with ⟨k, hk, rfl⟩
      exact ((touch_spec _).1 k hk).1
    · rw [if_neg hfload] at hdec ⊢
      by_cases hstore : w.extractLsb' 0 7 = 0b0100011
      · rw [if_pos hstore] at hdec ⊢
        rcases Option.map_eq_some_iff.mp hdec with ⟨k, hk, rfl⟩
        exact (touch_spec _).2 k hk
      · rw [if_neg hstore] at hdec ⊢
        by_cases hfstore : w.extractLsb' 0 7 = 0b0100111
        · rw [if_pos hfstore] at hdec ⊢
          rcases Option.map_eq_some_iff.mp hdec with ⟨k, hk, rfl⟩
          exact ((touch_spec _).1 k hk).2
        · rw [if_neg hfstore] at hdec
          exact absurd hdec (by simp only [reduceCtorEq, not_false_eq_true])

theorem touch16_access {h : BitVec 16} (hdec : decodeCompressed h = some ins) :
    touch16 h = accessTouch ins := by
  simp only [touch16]
  rw [getField_half h 13 3 (by decide), getField_half h 7 5 (by decide)]
  simp only [getField_half h 0 2 (by decide), quadrant_c0, quadrant_c2]
  simp only [decodeCompressed] at hdec
  by_cases h0 : h.extractLsb' 0 2 = 0
  · rw [if_pos h0] at hdec ⊢
    -- The registers of this quadrant do not include `x0`.
    have hne : ∀ r : BitVec 3, ((0b01#2 ++ r : BitVec 5).toFin == (0 : Reg)) = false := by decide
    rcases funct3_cases (h.extractLsb' 13 3) with hf | hf | hf | hf | hf | hf | hf | hf
    all_goals
      rw [hf] at hdec ⊢
      simp +decide only [if_true, if_false, Option.some.injEq, reduceCtorEq] at hdec
    all_goals
      rw [← hdec]
      simp +decide [cTouch, accessTouch, nullLoad, accessKind, accessBytes, regFieldC, hne,
        Width.bytes]
  · rw [if_neg h0] at hdec ⊢
    by_cases h2 : h.extractLsb' 0 2 = 2
    · rw [if_pos h2] at hdec ⊢
      have hrd : regField h 7 = (h.extractLsb' 7 5).toFin := rfl
      -- Loads into `x0` are reserved here.
      have hload : ∀ {w : Width} {imm : BitVec 12}, regField h 7 ≠ 0 →
          (if (h.extractLsb' 7 5).setWidth 8 ≠ (0 : BitVec 8) then some ⟨.read, w.bytes⟩ else none)
            = accessTouch (.load w false (regField h 7) sp imm) := by
        intro w imm hne
        have hr : (h.extractLsb' 7 5).setWidth 8 ≠ (0 : BitVec 8) := fun hz =>
          hne (hrd.trans ((toFin_eq_zero _).mpr ((field_eq_zero _).mp hz)))
        rw [if_pos hr, accessTouch, if_neg (by simpa only [nullLoad, beq_iff_eq] using hne)]
        rfl
      rcases funct3_cases (h.extractLsb' 13 3) with hf | hf | hf | hf | hf | hf | hf | hf
      all_goals
        rw [hf] at hdec ⊢
        simp +decide only [if_true, if_false, Option.some.injEq, reduceCtorEq, false_and, true_and]
          at hdec
      · rw [← hdec]
        rfl
      · by_cases hz : regField h 7 = 0
        · rw [if_neg (fun hn => hn hz)] at hdec
          exact absurd hdec (by simp only [reduceCtorEq, not_false_eq_true])
        · rw [if_pos hz, Option.some.injEq] at hdec
          rw [← hdec, ← hload hz]
          rfl
      · by_cases hz : regField h 7 = 0
        · rw [if_neg (fun hn => hn hz)] at hdec
          exact absurd hdec (by simp only [reduceCtorEq, not_false_eq_true])
        · rw [if_pos hz, Option.some.injEq] at hdec
          rw [← hdec, ← hload hz]
          rfl
      all_goals
        rw [← hdec]
        rfl
    · rw [if_neg h2] at hdec
      exact absurd hdec (by simp only [reduceCtorEq, not_false_eq_true])

end Touches

/-! ## The handler -/

section Handler

variable {debug : Bool} {rsi : ReturnSequenceInfo} {prot prot' : Addr → Prot} {kind : AccessKind}
  {a : Addr} {size : Nat}

theorem allowed_congr
    (h : ∀ i, i < size → prot' (a + BitVec.ofNat 64 i) = prot (a + BitVec.ofNat 64 i)) :
    allowed prot' kind a size = allowed prot kind a size := by
  unfold allowed
  rw [Bool.eq_iff_iff, List.all_eq_true, List.all_eq_true]
  refine forall₂_congr (fun i hi => ?_)
  rw [h i (List.mem_range.mp hi)]

theorem allowed_read (h : ∀ i, i < size → (prot (a + BitVec.ofNat 64 i)).read = true) :
    allowed prot .read a size = true :=
  List.all_eq_true.mpr (fun i hi => h i (List.mem_range.mp hi))

/-- A byte that may be executed only is in the way of every access. -/
theorem not_allowed (hsize : 0 < size) (h : prot a = ⟨false, false, true⟩) :
    allowed prot kind a size = false := by
  refine List.all_eq_false.mpr ⟨0, List.mem_range.mpr hsize, ?_⟩
  rw [show a + BitVec.ofNat 64 0 = a from BitVec.add_zero _, h]
  cases kind <;> decide

/-- Faults outside the range are not the handler's. -/
theorem segfaultHandler_outside (hb : backupAddr rsi a = none) (ctx : UContext) (m : Mem) :
    Space.segfaultHandler debug rsi a ctx ⟨m, prot⟩ = .error (.stop (outsideXom debug a)) := by
  simp only [Space.segfaultHandler, segfaultHandler, hb]
  rfl

/-- The handler on protected memory: its only access besides the instruction is
    the one that the instruction asks for. -/
theorem handler_checked {c : Core} {ins : Instr} {next b : Addr}
    (hfetch : fetchAccess c.mem c.pc = some (ins, next))
    (hb : backupAddr rsi (accessAddr c.x ins) = some b)
    (htext : ∀ i, i < instrLength c.mem c.pc → (prot (c.pc + BitVec.ofNat 64 i)).read = true) :
    Space.segfaultHandler debug rsi (accessAddr c.x ins) (contextOf c) ⟨c.mem, prot⟩
      = checked prot (accessTouch ins) b
        (segfaultHandler debug rsi (accessAddr c.x ins) (contextOf c) c.mem) := by
  have hpc : (contextOf c).gregs regPc = c.pc := rfl
  -- Reading the instruction does not fault, neither its first half nor the second.
  have hshort : allowed prot .read c.pc 2 = true :=
    allowed_read (fun i hi => htext i (Nat.lt_of_lt_of_le hi (two_le_instrLength _ _)))
  simp only [Space.segfaultHandler, hb, hpc, hshort, is32bit_iff, Bool.true_eq_false, if_false]
  simp only [fetchAccess] at hfetch
  unfold instrLength at htext
  by_cases h32 : (c.mem.read c.pc 2 : BitVec 16).extractLsb' 0 2 = 3
  · rw [if_pos h32] at hfetch htext ⊢
    rcases Option.map_eq_some_iff.mp hfetch with ⟨ins', hdec, hpair⟩
    rcases Prod.mk.inj hpair with ⟨rfl, rfl⟩
    rw [if_neg (by rw [allowed_read htext]; decide), touch32_access hdec]
  · rw [if_neg h32] at hfetch ⊢
    rcases Option.map_eq_some_iff.mp hfetch with ⟨ins', hdec, hpair⟩
    rcases Prod.mk.inj hpair with ⟨rfl, rfl⟩
    rw [touch16_access hdec]

end Handler

/-! ## Two processes on protected memory -/

/-- One instruction on the plain machine. An access that is not allowed is the
    end of the process. -/
def Code.protectedNative (code : Code) (prot : Addr → Prot) (n : Core) :
    Option (Except Ended Core) :=
  match fetchAccess n.mem n.pc with
  | some (ins, next) =>
      if allowed prot (accessKind ins) (accessAddr n.x ins) (accessBytes ins) then
        (exec id next n ins).map .ok
      else some (.error (.segv (accessAddr n.x ins)))
  | none => (code.other n).map .ok

/-- One instruction with the handler behind loads and stores. An aligned access
    is within one page, so that the address of the fault is its address. -/
def Code.protectedRelocated (code : Code) (debug : Bool) (rsi : ReturnSequenceInfo)
    (prot : Addr → Prot) (c : Core) : Option (Except Ended Core) :=
  match fetchAccess c.mem c.pc with
  | some (ins, next) =>
      if allowed prot (accessKind ins) (accessAddr c.x ins) (accessBytes ins) then
        (exec id next c ins).map .ok
      else
        match Space.segfaultHandler debug rsi (accessAddr c.x ins) (contextOf c) ⟨c.mem, prot⟩ with
        | .ok r => some (.ok (resume c r.1 r.2))
        | .error ended => some (.error (ended.nested debug rsi))
  | none => (code.other c).map .ok

/-- A number of instructions, up to the end of the process. -/
def protectedRun (step : Core → Option (Except Ended Core)) :
    Nat → Core → Option (Except Ended Core)
  | 0, c => some (.ok c)
  | k + 1, c =>
      match step c with
      | some (.ok c') => protectedRun step k c'
      | r => r

/-- The protections of the two processes: the same for the program's bytes, and
    the fresh pages may be executed only. -/
structure Guarded (shared : Addr → Prop) (rsi : ReturnSequenceInfo) (prot prot' : Addr → Prot) :
    Prop where
  same : ∀ a, shared a → prot' a = prot a
  xom : ∀ a, (backupAddr rsi a).isSome → prot' a = ⟨false, false, true⟩

/-- What the program is held to: its text can be read, and it does not load into
    `x0` relative to `gp`. -/
structure AtReadableInstruction (code : Code) (shared : Addr → Prop) (rsi : ReturnSequenceInfo)
    (prot : Addr → Prot) (n : Core) : Prop extends AtOwnInstruction code shared rsi n where
  readable : ∀ i, i < instrLength n.mem n.pc → (prot (n.pc + BitVec.ofNat 64 i)).read = true
  used : ∀ ins next, fetchAccess n.mem n.pc = some (ins, next) → baseReg ins = gp →
    nullLoad ins = false

/-- Two outcomes that agree. If the first process goes on then so does the second,
    in a state that `R` relates. If the first is killed by a fault, then the second
    is by the handler, which is told the same address. Only a `DEBUG` build prints
    it. -/
structure SameOutcome (debug : Bool) (R : Core → Core → Prop) (r r' : Option (Except Ended Core)) :
    Prop where
  goes : ∀ n, r = some (.ok n) → ∃ c, r' = some (.ok c) ∧ R n c
  killed : ∀ e, r = some (.error e) →
    ∃ a, e = .segv a ∧ r' = some (.error (.stop (outsideXom debug a)))

theorem SameOutcome.ok {debug : Bool} {R : Core → Core → Prop} {n c : Core} (h : R n c) :
    SameOutcome debug R (some (.ok n)) (some (.ok c)) := by
  refine ⟨fun n' hn => ?_, fun e he => ?_⟩
  · rcases Except.ok.inj (Option.some.inj hn) with rfl
    exact ⟨c, rfl, h⟩
  · exact absurd (Option.some.inj he) (by simp only [reduceCtorEq, not_false_eq_true])

theorem SameOutcome.segv {debug : Bool} {R : Core → Core → Prop} (a : Addr) :
    SameOutcome debug R (some (.error (.segv a))) (some (.error (.stop (outsideXom debug a)))) := by
  refine ⟨fun n hn => ?_, fun e he => ?_⟩
  · exact absurd (Option.some.inj hn) (by simp only [reduceCtorEq, not_false_eq_true])
  · rcases Except.error.inj (Option.some.inj he) with rfl
    exact ⟨a, rfl, rfl⟩

section Processes

variable {shared : Addr → Prop} {vgp : Addr} {n c n' : Core} {code : Code} {debug : Bool}
  {sysconf : BitVec 64} {page : Addr} {g : Globals} {k : Nat} {prot prot' : Addr → Prot}
  {ins : Instr} {next : Addr}

/-- The handler reads the same instruction, from text that it may read. -/
theorem CoreMirrors.readable (h : CoreMirrors shared vgp g.rsi.relocatedGp n c)
    (hg : Guarded shared g.rsi prot prot') (hat : AtReadableInstruction code shared g.rsi prot n) :
    ∀ i, i < instrLength c.mem c.pc → (prot' (c.pc + BitVec.ofNat 64 i)).read = true := by
  have hlen : instrLength c.mem c.pc = instrLength n.mem n.pc := by
    unfold instrLength
    rw [h.pc, h.read_short hat.bytes]
  intro i hi
  rw [hlen] at hi
  rw [h.pc, hg.same _ (hat.bytes i hi)]
  exact hat.readable i hi

/-- An access relative to `gp` always faults. The handler performs it where the
    native process does, if it performs it and is allowed to. -/
theorem protected_gp (hl : PageLayout vgp sysconf page g k) (hoff : 56 ≤ vgp.toNat % 2 ^ k)
    (hapart : ∀ a, shared a → backupAddr g.rsi a = none)
    (h : CoreMirrors shared vgp g.rsi.relocatedGp n c) (hg : Guarded shared g.rsi prot prot')
    (hfetch : fetchAccess c.mem c.pc = some (ins, next)) (huse : UsesGp shared g.rsi n ins)
    (htext : ∀ i, i < instrLength c.mem c.pc → (prot' (c.pc + BitVec.ofNat 64 i)).read = true)
    (hbase : baseReg ins = gp) (hexec : exec id next n ins = some n') :
    ∃ c', CoreMirrors shared vgp g.rsi.relocatedGp n' c' ∧
      code.protectedRelocated debug g.rsi prot' c =
        if nullLoad ins = true ∨
            allowed prot (accessKind ins) (accessAddr n.x ins) (accessBytes ins) = true then
          some (.ok c')
        else some (.error (.stop (outsideXom debug (accessAddr n.x ins)))) := by
  have hins := fetchAccess_isAccess hfetch
  have hb := huse.backup h hins (hl.redirectsBack hoff) hbase
  -- The first fault is certain, and the second is the one that the native process has.
  have hdenied : allowed prot' (accessKind ins) (accessAddr c.x ins) (accessBytes ins) = false :=
    not_allowed (accessBytes_pos ins) (hg.xom _ (by rw [hb]; rfl))
  have hsame : allowed prot' (accessKind ins) (accessAddr n.x ins) (accessBytes ins)
      = allowed prot (accessKind ins) (accessAddr n.x ins) (accessBytes ins) :=
    allowed_congr (fun i hi => hg.same _ (huse.bytes i hi))
  have hredirect : redirect g.rsi (accessAddr c.x ins) = accessAddr n.x ins :=
    (backupAddr_eq hb).symm
  -- Without protections the handler mirrors the native access.
  rcases access_mirrors hins h huse.data huse.bytes hredirect hexec with ⟨c', hc', hmirror, _⟩
  rcases handler_access debug hfetch hb hredirect with ⟨r, hr, hresume⟩
  rw [hc'] at hresume
  refine ⟨c', hmirror, ?_⟩
  simp only [Code.protectedRelocated, hfetch, hdenied, Bool.false_eq_true, if_false]
  rw [handler_checked hfetch hb htext, hr, accessTouch, Option.some.inj hresume]
  by_cases hnull : nullLoad ins = true
  -- The handler drops a load into `x0` before it gets to the access.
  · rw [if_pos hnull, if_pos (Or.inl hnull)]
    rfl
  · rw [if_neg hnull]
    simp only [checked, hsame]
    by_cases hallow : allowed prot (accessKind ins) (accessAddr n.x ins) (accessBytes ins) = true
    · rw [if_pos hallow, if_pos (Or.inr hallow)]
      rfl
    · rw [if_neg hallow, if_neg (not_or.mpr ⟨hnull, hallow⟩)]
      simp only [Ended.nested, huse.outside hapart, Option.isSome_none, Bool.false_eq_true,
        if_false]

theorem isAccess_exec (hins : isAccess ins = true) (next : Addr) (n : Core) :
    ∃ n', exec id next n ins = some n' := by
  cases ins with
  | load | store | fload | fstore => exact ⟨_, rfl⟩
  | _ => exact absurd hins (by simp only [isAccess, Bool.false_eq_true, not_false_eq_true])

/-- One instruction. -/
theorem protected_step (hl : PageLayout vgp sysconf page g k) (hoff : 56 ≤ vgp.toNat % 2 ^ k)
    (hapart : ∀ a, shared a → backupAddr g.rsi a = none)
    (hblind : OtherBlind shared vgp g.rsi.relocatedGp code.other)
    (hg : Guarded shared g.rsi prot prot') (h : CoreMirrors shared vgp g.rsi.relocatedGp n c)
    (hat : AtReadableInstruction code shared g.rsi prot n) :
    SameOutcome debug (CoreMirrors shared vgp g.rsi.relocatedGp) (code.protectedNative prot n)
      (code.protectedRelocated debug g.rsi prot' c) := by
  have hsame := h.fetchAccess hat.bytes
  unfold Code.protectedNative
  cases hfetch : fetchAccess n.mem n.pc with
  | none =>
      rw [hfetch] at hsame
      unfold Code.protectedRelocated
      simp only [hsame]
      -- Other instructions are not checked, so they cannot be killed.
      refine ⟨fun n' hn => ?_, fun e he => ?_⟩
      · rcases Option.map_eq_some_iff.mp hn with ⟨n₀, hn₀, heq⟩
        rcases Except.ok.inj heq with rfl
        rcases hblind.runs n c _ h hn₀ with ⟨c', hc', hmirror⟩
        exact ⟨c', by rw [hc']; rfl, hmirror⟩
      · rcases Option.map_eq_some_iff.mp he with ⟨n₀, _, heq⟩
        exact absurd heq (by simp only [reduceCtorEq, not_false_eq_true])
  | some p =>
      rcases p with ⟨ins, next⟩
      rw [hfetch] at hsame
      have huse := hat.access ins next hfetch
      have hins := fetchAccess_isAccess hfetch
      rcases isAccess_exec hins next n with ⟨n', hexec⟩
      simp only [hexec, Option.map_some]
      -- The two outcomes, decided by the native protection.
      have hcases : ∃ c', CoreMirrors shared vgp g.rsi.relocatedGp n' c' ∧
          code.protectedRelocated debug g.rsi prot' c =
            if allowed prot (accessKind ins) (accessAddr n.x ins) (accessBytes ins) then
              some (.ok c')
            else some (.error (.stop (outsideXom debug (accessAddr n.x ins)))) := by
        by_cases hbase : baseReg ins = gp
        · rcases protected_gp hl hoff hapart h hg hsame huse (h.readable hg hat) hbase hexec with
            ⟨c', hmirror, hc'⟩
          refine ⟨c', hmirror, ?_⟩
          rw [hc', hat.used ins next hfetch hbase]
          simp only [Bool.false_eq_true, false_or]
        · -- Other accesses have the same address in both processes.
          have haddr : accessAddr c.x ins = accessAddr n.x ins :=
            accessAddr_base hins n.x c.x (h.regs _ hbase)
          have hallowed : allowed prot' (accessKind ins) (accessAddr n.x ins) (accessBytes ins)
              = allowed prot (accessKind ins) (accessAddr n.x ins) (accessBytes ins) :=
            allowed_congr (fun i hi => hg.same _ (huse.bytes i hi))
          have hid : id (accessAddr c.x ins) = accessAddr n.x ins := haddr
          rcases access_mirrors hins h huse.data huse.bytes hid hexec with ⟨c', hc', hmirror, _⟩
          refine ⟨c', hmirror, ?_⟩
          simp only [Code.protectedRelocated, hsame, haddr, hallowed, hc',
            segfaultHandler_outside (huse.outside hapart), Ended.nested, Option.map_some]
      rcases hcases with ⟨c', hmirror, hc'⟩
      rw [hc']
      by_cases hallow : allowed prot (accessKind ins) (accessAddr n.x ins) (accessBytes ins) = true
      · rw [if_pos hallow, if_pos hallow]
        exact .ok hmirror
      · rw [if_neg hallow, if_neg hallow]
        exact .segv _

/-- The access that makes a difference: a load into `x0` relative to `gp` goes
    through, whatever the protection of the original data. -/
theorem nullLoad_survives (hl : PageLayout vgp sysconf page g k)
    (hoff : 56 ≤ vgp.toNat % 2 ^ k) (hapart : ∀ a, shared a → backupAddr g.rsi a = none)
    (hg : Guarded shared g.rsi prot prot') (h : CoreMirrors shared vgp g.rsi.relocatedGp n c)
    (hfetch : fetchAccess c.mem c.pc = some (ins, next)) (huse : UsesGp shared g.rsi n ins)
    (htext : ∀ i, i < instrLength c.mem c.pc → (prot' (c.pc + BitVec.ofNat 64 i)).read = true)
    (hbase : baseReg ins = gp) (hnull : nullLoad ins = true) :
    ∃ c', code.protectedRelocated debug g.rsi prot' c = some (.ok c') := by
  rcases isAccess_exec (fetchAccess_isAccess hfetch) next n with ⟨n', hexec⟩
  rcases protected_gp hl hoff hapart h hg hfetch huse htext hbase hexec with ⟨c', _, hc'⟩
  refine ⟨c', ?_⟩
  rw [hc', if_pos (Or.inl hnull)]

end Processes

/-! ## A load from a page that cannot be read -/

/-- `lw a0, 0(gp)` in the native process. -/
def lockedNative : Core := { pageNative.toCore with pc := 0x40004 }

/-- The same under vpoline. -/
def lockedCore : Core := { lockedNative with x := lockedNative.x.set gp 0x7f0000000800 }

/-- The text can be read and executed, and the data cannot be accessed. -/
def lockedProt (a : Addr) : Prot :=
  if 0x40000 ≤ a.toNat ∧ a.toNat < 0x41000 then ⟨true, false, true⟩ else ⟨false, false, false⟩

/-- The same, and the fresh page. -/
def lockedProt' (a : Addr) : Prot :=
  if (backupAddr pageGlobals.rsi a).isSome then ⟨false, false, true⟩ else lockedProt a

theorem locked_apart (a : Addr) (h : pageProgram.shared a) :
    backupAddr pageGlobals.rsi a = none :=
  (page_relocated.apart a h).2.2

theorem locked_guarded : Guarded pageProgram.shared pageGlobals.rsi lockedProt lockedProt' := by
  refine ⟨fun a ha => ?_, fun a ha => if_pos ha⟩
  simp only [lockedProt', locked_apart a ha, Option.isSome_none, Bool.false_eq_true, if_false]

theorem locked_mirrors :
    CoreMirrors pageProgram.shared 0x12800 pageGlobals.rsi.relocatedGp lockedNative lockedCore :=
  ⟨rfl, fun _ hr => get_set_other _ _ _ _ hr, rfl, rfl, rfl, fun _ _ => rfl⟩

theorem locked_fetch : fetchAccess lockedNative.mem lockedNative.pc
    = some (.load .word false a0 gp 0, 0x40008) := by
  decide

theorem locked_readable :
    AtReadableInstruction pageCode pageProgram.shared pageGlobals.rsi lockedProt lockedNative := by
  have hlen : instrLength lockedNative.mem lockedNative.pc = 4 := by decide
  have hpc : lockedNative.pc = 0x40004 := rfl
  have haddr : accessAddr lockedNative.x (.load .word false a0 gp 0) = 0x12800 := by decide
  refine ⟨⟨Or.inl rfl, fun i hi => Or.inl ?_, fun ins next hfetch => ?_⟩, fun i hi => ?_,
    fun ins next hfetch _ => ?_⟩
  · rw [hlen] at hi
    rw [hpc]
    bv_omega
  · rw [locked_fetch, Option.some.injEq, Prod.mk.injEq] at hfetch
    rw [← hfetch.1]
    refine ⟨by decide, by decide, fun i hi => Or.inr ?_, fun _ => by decide⟩
    have hi4 : i < 4 := hi
    rw [haddr]
    bv_omega
  · rw [hlen] at hi
    have htext : lockedProt (0x40004 + BitVec.ofNat 64 i) = ⟨true, false, true⟩ :=
      if_pos (by bv_omega)
    exact congrArg Prot.read htext
  · rw [locked_fetch, Option.some.injEq, Prod.mk.injEq] at hfetch
    rw [← hfetch.1]
    decide

end Vpoline
