import Vpoline.Lib.RV64

/-!
# Straight-Line Code over a Stack Frame

Symbolic execution of code that computes in registers and spills to a frame
at the stack pointer, while the memory below the stack pointer is being
overwritten by someone else.

A `Sym` is what such code can rely on: the two register files, and the
doublewords it has put at known offsets from the stack pointer. Nothing else
in memory is recorded, because nothing else is stable. `Sym.exec` computes on
that; it gives up on an instruction that moves the stack pointer or touches
memory outside the frame, which is where a proof has to say something about
the program at hand.

`Models` ties a `Sym` to a real hart, and two lemmas make it useful.
`exec_models` says the real instruction does what the symbolic one does.
`Models.perturb` says a change to the volatile memory below the stack pointer
between two instructions is invisible.

## Main definitions

* `FrameAt`: A frame of volatile memory that does not wrap.
* `Sym`: Registers and known frame slots.
* `Sym.exec`: One instruction, symbolically.
* `Sym.ofCore`: The most a symbolic state can know about a hart.
* `Sym.run`: A list of instructions, symbolically.
* `Models`: A hart in a state a `Sym` describes.

## Theorems

* `FrameAt.read_slot`: A slot is not volatile while the frame is open.
* `models_self`: A hart is described by all it has.
* `Models.perturb`: Volatile memory below the frame may change.
* `read_slot_write`: A spilled slot is read back, and others are kept.
* `exec_models`: Symbolic execution is sound for one instruction.
-/

namespace Vpoline

open RV64

/-- The volatile bytes of a frame: `size` of them from `base`, no wrap. -/
structure FrameAt (vol : Addr → Prop) (base : Addr) (size : Nat) : Prop where
  small : size < 2048
  fits : base.toNat + size < 2 ^ 64
  vol : ∀ a, base ≤ a → a < base + BitVec.ofNat 64 size → vol a

/-- Two register files and the doublewords known to be in the frame. -/
structure Sym where
  x : Regs
  f : Reg → Word
  slots : Nat → Option Word

namespace Sym

/-- Write an integer register other than the stack pointer. -/
def setX (y : Sym) (rd : Reg) (v : Word) : Option Sym :=
  if rd = sp then none else some { y with x := y.x.set rd v }

def setF (y : Sym) (rd : Reg) (v : Word) : Sym :=
  { y with f := fun q => if q = rd then v else y.f q }

/-- Put a doubleword at offset `o`, forgetting what it overlaps. -/
def spill (y : Sym) (o : Nat) (v : Word) : Sym :=
  { y with slots := fun q => if q = o then some v
      else if q + 8 ≤ o ∨ o + 8 ≤ q then y.slots q else none }

/-- One instruction, if it stays inside a frame of `size` bytes. -/
def exec (size : Nat) (y : Sym) : Instr → Option Sym
  | .lui rd imm => y.setX rd ((imm ++ 0#12).signExtend 64)
  | .addi rd rs1 imm => y.setX rd (y.x.get rs1 + imm.signExtend 64)
  | .ori rd rs1 imm => y.setX rd (y.x.get rs1 ||| imm.signExtend 64)
  | .slli rd rs1 shamt => y.setX rd (y.x.get rs1 <<< shamt.toNat)
  | .srli rd rs1 shamt => y.setX rd (y.x.get rs1 >>> shamt.toNat)
  | .or rd rs1 rs2 => y.setX rd (y.x.get rs1 ||| y.x.get rs2)
  | .and rd rs1 rs2 => y.setX rd (y.x.get rs1 &&& y.x.get rs2)
  | .store .double rs2 rs1 imm =>
      if rs1 = sp ∧ imm.toNat + 8 ≤ size then some (y.spill imm.toNat (y.x.get rs2)) else none
  | .fstore .double rs2 rs1 imm =>
      if rs1 = sp ∧ imm.toNat + 8 ≤ size then some (y.spill imm.toNat (y.f rs2)) else none
  | .load .double false rd rs1 imm =>
      if rs1 = sp then (y.slots imm.toNat).bind (y.setX rd) else none
  | .fload .double rd rs1 imm =>
      if rs1 = sp then (y.slots imm.toNat).map (y.setF rd) else none
  | _ => none

/-- Everything a hart has: its registers and whatever is in its frame. -/
def ofCore (base : Addr) (size : Nat) (c : Core) : Sym :=
  ⟨c.x, c.f, fun o => if o + 8 ≤ size then some (c.mem.read (base + BitVec.ofNat 64 o) 8)
    else none⟩

def run (size : Nat) (y : Sym) : List Instr → Option Sym
  | [] => some y
  | i :: is => (y.exec size i).bind (fun y' => y'.run size is)

end Sym

/-- The hart `c` is as `y` describes, with the frame at `base`; its memory
    differs from `m` only in volatile bytes below the frame's top. -/
structure Models (vol : Addr → Prop) (base : Addr) (size : Nat) (m : Mem) (y : Sym)
    (c : Core) : Prop where
  x : c.x = y.x
  f : c.f = y.f
  sp : y.x sp = base
  slots : ∀ o v, y.slots o = some v →
    o + 8 ≤ size ∧ c.mem.read (base + BitVec.ofNat 64 o) 8 = v
  mem : AgreeAbove vol (base + BitVec.ofNat 64 size) m c.mem

section Soundness

variable {vol : Addr → Prop} {base : Addr} {size : Nat} {m : Mem} {y y' : Sym} {c : Core}

theorem FrameAt.base_le_top (hf : FrameAt vol base size) :
    base ≤ base + BitVec.ofNat 64 size := by
  have := hf.fits
  bv_omega

/-- The frame lies at or above its base, so a change below the base is not
    seen by a read of one of its slots. -/
theorem FrameAt.read_slot {m' : Mem} (hf : FrameAt vol base size) (h : AgreeAbove vol base m m')
    {o : Nat} (ho : o + 8 ≤ size) :
    m'.read (base + BitVec.ofNat 64 o) 8 = m.read (base + BitVec.ofNat 64 o) 8 := by
  refine h.read (fun k hk hlt => ?_)
  have := hf.fits
  bv_omega

/-- A small non-negative offset from the frame's base, as the machine adds it. -/
theorem signExtend_small (imm : BitVec 12) (h : imm.toNat < 2048) :
    imm.signExtend 64 = BitVec.ofNat 64 imm.toNat := by
  have hmsb : imm.msb = false := by
    rw [BitVec.msb_eq_decide, decide_eq_false_iff_not]
    omega
  rw [BitVec.signExtend_eq_setWidth_of_msb_false hmsb]
  bv_omega

/-- A hart with its stack pointer at `base`, described by all it has. -/
theorem models_self (hsp : c.x RV64.sp = base) :
    Models vol base size c.mem (Sym.ofCore base size c) c := by
  refine ⟨rfl, rfl, hsp, fun o v hv => ?_, AgreeAbove.refl _ _ _⟩
  simp only [Sym.ofCore] at hv
  split at hv
  · rename_i ho
    exact ⟨ho, Option.some.inj hv⟩
  · exact absurd hv (by simp only [reduceCtorEq, not_false_eq_true])

theorem Models.perturb {m' : Mem} (hf : FrameAt vol base size)
    (h : Models vol base size m y c) (hm : AgreeAbove vol base c.mem m') :
    Models vol base size m y { c with mem := m' } := by
  refine ⟨h.x, h.f, h.sp, fun o v hv => ?_, h.mem.trans (hm.mono hf.base_le_top)⟩
  rcases h.slots o v hv with ⟨hfit, hval⟩
  exact ⟨hfit, (hf.read_slot hm hfit).trans hval⟩

/-- What a spill does to the frame: the new slot reads back, and a slot that
    does not overlap it keeps its value. -/
theorem read_slot_write (hf : FrameAt vol base size) (o o' : Nat) (v : Word)
    (ho : o + 8 ≤ size) (ho' : o' + 8 ≤ size) (hdis : o' + 8 ≤ o ∨ o + 8 ≤ o') :
    (c.mem.write (base + BitVec.ofNat 64 o) 8 v).read (base + BitVec.ofNat 64 o') 8
      = c.mem.read (base + BitVec.ofNat 64 o') 8 := by
  apply Mem.read_write_of_disjoint
  intro j hj
  have hfits := hf.fits
  have hsmall := hf.small
  bv_omega

/-- A store into the frame is a spill. -/
theorem Models.spill (hf : FrameAt vol base size) (h : Models vol base size m y c)
    (o : Nat) (v : Word) (ho : o + 8 ≤ size) :
    Models vol base size m (y.spill o v)
      { c with mem := c.mem.write (base + BitVec.ofNat 64 o) 8 v } := by
  refine ⟨h.x, h.f, h.sp, fun q w hq => ?_, fun a ha => ?_⟩
  · simp only [Sym.spill] at hq
    by_cases hqo : q = o
    · rw [if_pos hqo, Option.some.injEq] at hq
      subst hqo hq
      exact ⟨ho, Mem.read_write_same _ _ _ _ (by omega)⟩
    · rw [if_neg hqo] at hq
      by_cases hdis : q + 8 ≤ o ∨ o + 8 ≤ q
      · rw [if_pos hdis] at hq
        rcases h.slots q w hq with ⟨hfit, hval⟩
        exact ⟨hfit, (read_slot_write hf o q v ho hfit hdis).trans hval⟩
      · -- A slot that the store overlaps is forgotten.
        rw [if_neg hdis] at hq
        exact absurd hq (by simp only [reduceCtorEq, not_false_eq_true])
  · -- Outside the volatile bytes below the top there is nothing of the frame.
    rw [← h.mem a ha]
    apply Mem.write_outside
    by_contra hin
    have hfits := hf.fits
    have hsmall := hf.small
    refine ha ⟨hf.vol a ?_ ?_, ?_⟩ <;> bv_omega

theorem Models.setX {v : Word} {rd : Reg} (h : Models vol base size m y c)
    (hy : y.setX rd v = some y') : Models vol base size m y' { c with x := c.x.set rd v } := by
  simp only [Sym.setX] at hy
  by_cases hsp : rd = RV64.sp
  · rw [if_pos hsp] at hy
    exact absurd hy (by simp only [reduceCtorEq, not_false_eq_true])
  · rw [if_neg hsp, Option.some.injEq] at hy
    subst hy
    refine ⟨?_, h.f, ?_, h.slots, h.mem⟩
    · simp only [h.x]
    · have hget := get_set_other y.x rd RV64.sp v (fun hc => hsp hc.symm)
      simp only [Regs.get] at hget
      exact hget.trans h.sp

theorem Models.setF {v : Word} {rd : Reg} (h : Models vol base size m y c) :
    Models vol base size m (y.setF rd v) (c.setF rd v) :=
  ⟨h.x, by simp only [Sym.setF, Core.setF, h.f], h.sp, h.slots, h.mem⟩

theorem Models.goto {a : Addr} (h : Models vol base size m y c) :
    Models vol base size m y (c.goto a) :=
  ⟨h.x, h.f, h.sp, h.slots, h.mem⟩

/-- The address a frame access computes. -/
theorem Models.effective_slot (hf : FrameAt vol base size) (h : Models vol base size m y c)
    (imm : BitVec 12) (ho : imm.toNat + 8 ≤ size) :
    effective c.x RV64.sp imm = base + BitVec.ofNat 64 imm.toNat := by
  have hsmall := hf.small
  have hsp : c.x.get RV64.sp = base := by
    rw [h.x]
    exact h.sp
  rw [effective, hsp, signExtend_small imm (by omega)]

/-- A slot the symbolic state knows is what a load from the frame finds. -/
theorem Models.read_slot (hf : FrameAt vol base size) (h : Models vol base size m y c)
    (imm : BitVec 12) (v : Word) (hv : y.slots imm.toNat = some v) :
    c.mem.read (effective c.x RV64.sp imm) 8 = v := by
  rcases h.slots _ _ hv with ⟨hfit, hval⟩
  rw [h.effective_slot hf imm hfit]
  exact hval

/-- The real instruction does what the symbolic one does. -/
theorem exec_models (hf : FrameAt vol base size) (h : Models vol base size m y c)
    (i : Instr) (next : Addr) (hy : y.exec size i = some y') :
    ∃ c', RV64.exec id next c i = some c' ∧ c'.pc = next ∧ Models vol base size m y' c' := by
  have hget : ∀ r, c.get r = y.x.get r := fun r => by rw [Core.get, h.x]
  -- Register computations all go through `setX`.
  have hreg : ∀ rd v, y.setX rd v = some y' →
      Models vol base size m y' ((c.set rd v).goto next) := fun rd v hv => (h.setX hv).goto
  cases i with
  | lui rd imm => exact ⟨_, rfl, rfl, hreg _ _ hy⟩
  | addi rd rs1 imm => exact ⟨_, rfl, rfl, hreg _ _ (by rw [hget]; exact hy)⟩
  | ori rd rs1 imm => exact ⟨_, rfl, rfl, hreg _ _ (by rw [hget]; exact hy)⟩
  | slli rd rs1 shamt => exact ⟨_, rfl, rfl, hreg _ _ (by rw [hget]; exact hy)⟩
  | srli rd rs1 shamt => exact ⟨_, rfl, rfl, hreg _ _ (by rw [hget]; exact hy)⟩
  | or rd rs1 rs2 => exact ⟨_, rfl, rfl, hreg _ _ (by rw [hget, hget]; exact hy)⟩
  | and rd rs1 rs2 => exact ⟨_, rfl, rfl, hreg _ _ (by rw [hget, hget]; exact hy)⟩
  | load w u rd rs1 imm =>
      cases w <;> cases u <;> simp only [Sym.exec, reduceCtorEq] at hy
      by_cases hrs : rs1 = sp
      · rw [if_pos hrs] at hy
        rcases Option.bind_eq_some_iff.mp hy with ⟨v, hv, hset⟩
        subst hrs
        have hval := h.read_slot hf imm v hv
        refine ⟨_, rfl, rfl, hreg _ _ ?_⟩
        rw [← hset]
        congr 1
        exact (extend_double _).trans hval
      · rw [if_neg hrs] at hy
        exact absurd hy (by simp only [reduceCtorEq, not_false_eq_true])
  | fload w rd rs1 imm =>
      cases w <;> simp only [Sym.exec, reduceCtorEq] at hy
      by_cases hrs : rs1 = sp
      · rw [if_pos hrs] at hy
        rcases Option.map_eq_some_iff.mp hy with ⟨v, hv, hset⟩
        subst hrs
        have hval := h.read_slot hf imm v hv
        refine ⟨_, rfl, rfl, ?_⟩
        rw [← hset, ← (box_double _).trans hval]
        exact h.setF.goto
      · rw [if_neg hrs] at hy
        exact absurd hy (by simp only [reduceCtorEq, not_false_eq_true])
  | store w rs2 rs1 imm =>
      cases w <;> simp only [Sym.exec, reduceCtorEq] at hy
      by_cases hrs : rs1 = sp ∧ imm.toNat + 8 ≤ size
      · rw [if_pos hrs, Option.some.injEq] at hy
        rcases hrs with ⟨rfl, ho⟩
        refine ⟨_, rfl, rfl, ?_⟩
        have haddr : id (effective c.x sp imm) = base + BitVec.ofNat 64 imm.toNat :=
          h.effective_slot hf imm ho
        rw [← hy, haddr, ← hget]
        exact (h.spill hf imm.toNat _ ho).goto
      · rw [if_neg hrs] at hy
        exact absurd hy (by simp only [reduceCtorEq, not_false_eq_true])
  | fstore w rs2 rs1 imm =>
      cases w <;> simp only [Sym.exec, reduceCtorEq] at hy
      by_cases hrs : rs1 = sp ∧ imm.toNat + 8 ≤ size
      · rw [if_pos hrs, Option.some.injEq] at hy
        rcases hrs with ⟨rfl, ho⟩
        refine ⟨_, rfl, rfl, ?_⟩
        have haddr : id (effective c.x sp imm) = base + BitVec.ofNat 64 imm.toNat :=
          h.effective_slot hf imm ho
        rw [← hy, haddr, ← h.f]
        exact (h.spill hf imm.toNat _ ho).goto
      · rw [if_neg hrs] at hy
        exact absurd hy (by simp only [reduceCtorEq, not_false_eq_true])
  | jal rd imm => exact absurd hy (by simp only [Sym.exec, reduceCtorEq, not_false_eq_true])
  | jalr rd rs1 imm =>
      exact absurd hy (by simp only [Sym.exec, reduceCtorEq, not_false_eq_true])
  | ecall => exact absurd hy (by simp only [Sym.exec, reduceCtorEq, not_false_eq_true])
  | ebreak => exact absurd hy (by simp only [Sym.exec, reduceCtorEq, not_false_eq_true])

end Soundness

end Vpoline
