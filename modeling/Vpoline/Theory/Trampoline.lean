import Vpoline.Core.Machine
import Vpoline.Lib.SaveRestore
import Vpoline.Lib.Straight

/-!
# Rebuilding an Address in Code

The trampoline carries the address of `asm_syscall_hook` as two 32-bit halves
spread over four immediate fields. What makes the reassembly delicate is that
both `lui` and `addi` sign-extend: a half whose low twelve bits exceed 2047
needs its upper field raised by one, and a half with its top bit set comes
back with ones above it. The upper half is shifted left by 32, which discards
them, and the lower half is masked.

`splitImmediate_sum` is the arithmetic: the two fields add up to the half
they were taken from, modulo `2 ^ 32`, in every case of the borrow. The rest
is decoding and evaluation. The words are decoded once, into
`trampolineBody`, and the body is then run symbolically; its effect on the
registers is stated by `trampoline_run`.

`trampoline_correct` is about the words by themselves, from any state of the
machine. The frame may lie anywhere, across the end of the address space too.

## Main definitions

* `luiImm`, `addiImm`: The immediate fields of a half, as decoded.
* `trampolineSlots`: The registers the trampoline spills.
* `trampolineCompute`: The fourteen instructions that rebuild `dst`.
* `trampolineBody`: The trampoline between opening the frame and jumping.
* `trampolineInstrs`: The trampoline.
* `Materialised`: The effect of the whole trampoline.

## Theorems

* `setWidth_signExtend`: Truncating a sign extension.
* `signExtend_setWidth_small`: Sign extension recovers a small constant.
* `splitImmediate_sum`: The two fields add up to the half.
* `decode_lui_field`, `decode_addi_field`: Decoding a word with a field.
* `materialised`: The six-instruction mask puts the halves together.
* `trampoline_decode`: The words decode to the body.
* `compute_run`: The computation puts `dst` into `t0`.
* `trampoline_run`: The body spills `t0`-`t3` and loads `dst` into `t0`.
* `saves_run`: The four stores, on the machine.
* `open_run`: Everything before the jump.
* `trampoline_correct`: The twenty words, on the machine.
-/

namespace Vpoline

open RV64

/-- Truncating a sign extension is a shorter sign extension. -/
theorem setWidth_signExtend {n w v : Nat} (x : BitVec n) (h : v ≤ w) :
    (x.signExtend w).setWidth v = x.signExtend v := by
  apply BitVec.eq_of_getLsbD_eq
  intro i hi
  rw [BitVec.getLsbD_setWidth, BitVec.getLsbD_signExtend, BitVec.getLsbD_signExtend,
    decide_eq_true hi, decide_eq_true (by omega : i < w)]
  simp only [Bool.true_and]

/-- A constant in the range of a 12-bit immediate survives the encoding. -/
theorem signExtend_setWidth_small (v : BitVec 32)
    (hlo : -2048 ≤ v.toInt) (hhi : v.toInt < 2048) :
    (v.setWidth 12).signExtend 32 = v := by
  apply BitVec.eq_of_toInt_eq
  rw [BitVec.toInt_signExtend_of_le (by omega), BitVec.toInt_setWidth]
  rw [BitVec.toInt_eq_toNat_cond] at hlo hhi ⊢
  have hlt := v.isLt
  rw [Int.bmod_def]
  split <;> split <;> omega

theorem toNat_luiField (half : BitVec 32) :
    (half &&& 0xfffff000).toNat = half.toNat - half.toNat % 4096 :=
  toNat_alignDown half 4096 12 (by omega) rfl

/-- The upper field is a multiple of 4096, so `lui` can hold it. -/
theorem splitImmediate_fst_low (half : BitVec 32) :
    (splitImmediate half).1.toNat % 4096 = 0 := by
  have hmask := toNat_luiField half
  have hlt := half.isLt
  simp only [splitImmediate]
  split
  · split
    · rw [BitVec.toNat_add, hmask]
      have : (4096 : BitVec 32).toNat = 4096 := rfl
      omega
    · simp only []
      omega
  · simp only []
    omega

/-- The lower field is in the range of a 12-bit immediate. -/
theorem splitImmediate_snd_range (half : BitVec 32) :
    -2048 ≤ (splitImmediate half).2.toInt ∧ (splitImmediate half).2.toInt < 2048 := by
  have hmask := toNat_luiField half
  have hlt := half.isLt
  have hlow : (half - (half &&& 0xfffff000)).toNat = half.toNat % 4096 := by
    rw [BitVec.toNat_sub_of_le (by rw [BitVec.le_def]; omega)]
    omega
  have hgt : ∀ w : BitVec 32, w > 2047 ↔ 2047 < w.toNat := fun w => Iff.rfl
  simp only [splitImmediate]
  split
  · split
    · -- A lower part above 2047 becomes negative and is made up for by `lui`.
      rename_i hbig
      rw [hgt, hlow] at hbig
      have hneg : (-(4096 - (half - (half &&& 0xfffff000)))).toNat
          = 2 ^ 32 - (4096 - half.toNat % 4096) := by
        bv_omega
      rw [BitVec.toInt_eq_toNat_cond, hneg]
      split <;> omega
    · rename_i hsmall
      rw [hgt, hlow] at hsmall
      rw [BitVec.toInt_eq_toNat_cond, hlow]
      split <;> omega
  · simp only [BitVec.ofNat_eq_ofNat, BitVec.toInt_zero]
    omega

/-- The two fields add up to the half they were taken from. -/
theorem splitImmediate_sum (half : BitVec 32) :
    (splitImmediate half).1 + (splitImmediate half).2 = half := by
  have hmask := toNat_luiField half
  simp only [splitImmediate]
  split
  · split <;> bv_omega
  · rename_i hzero
    have hmod : half.toNat % 4096 = 0 := by
      have := congrArg BitVec.toNat (not_not.mp hzero)
      rw [BitVec.toNat_umod] at this
      exact this
    bv_omega

/-- The immediate of the `lui` for a half. -/
def luiImm (half : BitVec 32) : BitVec 20 :=
  (splitImmediate half).1.extractLsb' 12 20

/-- The immediate of the `addi` for a half. -/
def addiImm (half : BitVec 32) : BitVec 12 :=
  (splitImmediate half).2.setWidth 12

theorem luiImm_append (half : BitVec 32) :
    luiImm half ++ 0#12 = (splitImmediate half).1 := by
  have hlow := splitImmediate_fst_low half
  apply BitVec.eq_of_toNat_eq
  rw [BitVec.toNat_append, luiImm, BitVec.extractLsb'_toNat]
  have hlt := (splitImmediate half).1.isLt
  simp only [Nat.shiftLeft_eq, Nat.shiftRight_eq_div_pow, BitVec.toNat_ofNat, Nat.zero_mod,
    Nat.or_zero]
  omega

theorem decode_lui_field (c : BitVec 12) (u : BitVec 20)
    (hop : c.extractLsb' 0 7 = 0b0110111) :
    decode (u ++ c) = some (.lui (c.extractLsb' 7 5).toFin u) := by
  have h1 : (u ++ c).extractLsb' 0 7 = 0b0110111#7 := by
    rw [BitVec.extractLsb'_append_eq_of_add_le (by omega), hop]
    rfl
  have h2 : (u ++ c).extractLsb' 7 5 = c.extractLsb' 7 5 :=
    BitVec.extractLsb'_append_eq_of_add_le (by omega)
  have h3 : (u ++ c).extractLsb' 12 20 = u := BitVec.extractLsb'_append_eq_left
  simp [decode, decodeAccess, decodeOther, regField, h1, h2, h3]

theorem decode_addi_field (c : BitVec 20) (v : BitVec 12)
    (hop : c.extractLsb' 0 7 = 0b0010011) (hf : c.extractLsb' 12 3 = 0) :
    decode (v ++ c)
      = some (.addi (c.extractLsb' 7 5).toFin (c.extractLsb' 15 5).toFin v) := by
  have h1 : (v ++ c).extractLsb' 0 7 = 0b0010011#7 := by
    rw [BitVec.extractLsb'_append_eq_of_add_le (by omega), hop]
    rfl
  have h2 : (v ++ c).extractLsb' 7 5 = c.extractLsb' 7 5 :=
    BitVec.extractLsb'_append_eq_of_add_le (by omega)
  have h3 : (v ++ c).extractLsb' 12 3 = 0#3 := by
    rw [BitVec.extractLsb'_append_eq_of_add_le (by omega), hf]
    rfl
  have h4 : (v ++ c).extractLsb' 15 5 = c.extractLsb' 15 5 :=
    BitVec.extractLsb'_append_eq_of_add_le (by omega)
  have h5 : (v ++ c).extractLsb' 20 12 = v := BitVec.extractLsb'_append_eq_left
  simp [decode, decodeAccess, decodeOther, regField, immI, h1, h2, h3, h4, h5]

/-- A half's `lui` word, as its immediate followed by the fixed fields. -/
theorem lui_word (c : BitVec 12) (half : BitVec 32) :
    (0#20 ++ c) ||| (splitImmediate half).1 = luiImm half ++ c := by
  rw [← luiImm_append, BitVec.or_append, BitVec.zero_or, BitVec.or_zero]

/-- A half's `addi` word, as its immediate followed by the fixed fields. -/
theorem addi_word (c : BitVec 20) (half : BitVec 32) :
    (0#12 ++ c) ||| ((splitImmediate half).2 <<< 20) = addiImm half ++ c := by
  have hshift : (splitImmediate half).2 <<< 20 = addiImm half ++ 0#20 := by
    rw [BitVec.shiftLeft_eq_concat_of_lt (by omega), addiImm,
      BitVec.setWidth_eq_extractLsb' (by omega)]
    rfl
  rw [hshift, BitVec.or_append, BitVec.zero_or, BitVec.or_zero]

/-- What `lui` and `addi` leave in a register, in its low half. -/
theorem setWidth_materialised (half : BitVec 32) :
    ((luiImm half ++ 0#12).signExtend 64 + (addiImm half).signExtend 64).setWidth 32 = half := by
  have hrange := splitImmediate_snd_range half
  have hlui : ((luiImm half ++ 0#12).signExtend 64).setWidth 32 = (splitImmediate half).1 := by
    rw [luiImm_append, setWidth_signExtend _ (by omega), BitVec.signExtend_eq]
  have haddi : ((addiImm half).signExtend 64).setWidth 32 = (splitImmediate half).2 := by
    rw [addiImm, setWidth_signExtend _ (by omega)]
    exact signExtend_setWidth_small _ hrange.1 hrange.2
  rw [BitVec.setWidth_add _ _ (by omega), hlui, haddi, splitImmediate_sum]

/-- The upper half of `dst`, as the source takes it. -/
def dstUpper (dst : Addr) : BitVec 32 :=
  ((dst &&& 0xffffffff00000000) >>> 32).setWidth 32

/-- The lower half of `dst`. -/
def dstLower (dst : Addr) : BitVec 32 :=
  dst.setWidth 32

/-- The upper half shifted into place and the lower half masked make `dst`. -/
theorem materialised (dst : Addr) (u l mask : Word) (hmask : mask = 0xffffffff)
    (hu : u.setWidth 32 = dstUpper dst) (hl : l.setWidth 32 = dstLower dst) :
    u <<< 32 ||| (l &&& mask) = dst := by
  subst hmask
  apply BitVec.eq_of_getLsbD_eq
  intro i hi
  have hmask : (0xffffffff : Word).getLsbD i = decide (i < 32) := by
    have h : (0xffffffff : Word) = BitVec.ofNat 64 (2 ^ 32 - 1) := rfl
    rw [h, BitVec.getLsbD_ofNat, Nat.testBit_two_pow_sub_one, decide_eq_true hi, Bool.true_and]
  rw [BitVec.getLsbD_or, BitVec.getLsbD_shiftLeft, BitVec.getLsbD_and, hmask]
  -- The low bits come from `l`, the high ones from `u`.
  by_cases hlow : i < 32
  · have hbit := congrArg (fun v => BitVec.getLsbD v i) hl
    simp only [dstLower, BitVec.getLsbD_setWidth, decide_eq_true hlow, Bool.true_and] at hbit
    simp only [decide_eq_true hlow, decide_eq_true hi, Bool.not_true, Bool.and_false,
      Bool.false_and, Bool.false_or, Bool.and_true, hbit]
  · have hbit := congrArg (fun v => BitVec.getLsbD v (i - 32)) hu
    have hm : (0xffffffff00000000 : Word).getLsbD i = true := by
      have h : (0xffffffff00000000 : Word) = BitVec.allOnes 64 <<< 32 := by decide
      rw [h, BitVec.getLsbD_shiftLeft, decide_eq_true hi, decide_eq_false hlow,
        BitVec.getLsbD_allOnes, decide_eq_true (by omega : i - 32 < 64)]
      rfl
    simp only [dstUpper, BitVec.getLsbD_setWidth, decide_eq_true (by omega : i - 32 < 32),
      Bool.true_and, BitVec.getLsbD_ushiftRight, BitVec.getLsbD_and,
      show 32 + (i - 32) = i by omega, hm, Bool.and_true] at hbit
    simp only [decide_eq_false hlow, decide_eq_true hi, Bool.not_false, Bool.and_true,
      Bool.true_and, hbit, Bool.and_false, Bool.or_false]

/-- The registers the trampoline spills before it uses them. -/
def trampolineSlots : List Slot :=
  [⟨false, t0, 0⟩, ⟨false, t1, 8⟩, ⟨false, t2, 16⟩, ⟨false, t3, 24⟩]

/-- The trampoline's computation of `dst`. -/
def trampolineCompute (dst : Addr) : List Instr :=
  [ .lui t0 (luiImm (dstUpper dst)),
    .addi t0 t0 (addiImm (dstUpper dst)),
    .slli t0 t0 32,
    .lui t3 (luiImm (dstLower dst)),
    .addi t3 t3 (addiImm (dstLower dst)),
    .lui t1 0x7ffff,
    .ori t2 zero 0x7ff,
    .slli t2 t2 1,
    .ori t2 t2 1,
    .or t1 t1 t2,
    .slli t1 t1 1,
    .ori t1 t1 1,
    .and t3 t3 t1,
    .or t0 t0 t3 ]

/-- The trampoline between opening the frame and jumping. -/
def trampolineBody (dst : Addr) : List Instr :=
  trampolineSlots.map Slot.save ++ trampolineCompute dst

/-- All of its instructions. -/
def trampolineInstrs (dst : Addr) : List Instr :=
  Instr.addi sp sp (-304) :: trampolineBody dst ++ [Instr.jalr zero t0 0]

/-- The words of the trampoline, decoded. -/
theorem trampoline_decode (dst : Addr) :
    (setupShadowPageTrampoline dst).map decode = (trampolineInstrs dst).map some := by
  have hlui5 := decode_lui_field 0x2b7 (luiImm (dstUpper dst)) (by decide)
  have haddi6 := decode_addi_field 0x28293 (addiImm (dstUpper dst)) (by decide) (by decide)
  have hlui8 := decode_lui_field 0xe37 (luiImm (dstLower dst)) (by decide)
  have haddi9 := decode_addi_field 0xe0e13 (addiImm (dstLower dst)) (by decide) (by decide)
  rw [← lui_word] at hlui5 hlui8
  rw [← addi_word] at haddi6 haddi9
  -- The words with a field are the fifth, sixth, eighth and ninth.
  refine congrArg₂ List.cons (by decide) (congrArg₂ List.cons (by decide)
    (congrArg₂ List.cons (by decide) (congrArg₂ List.cons (by decide)
    (congrArg₂ List.cons (by decide) (congrArg₂ List.cons hlui5
    (congrArg₂ List.cons haddi6 (congrArg₂ List.cons (by decide)
    (congrArg₂ List.cons hlui8 (congrArg₂ List.cons haddi9 ?_)))))))))
  decide

/-- The word of an instruction. -/
theorem trampoline_word {dst : Addr} {k : Nat} {ins : Instr}
    (h : (trampolineInstrs dst)[k]? = some ins) :
    ((setupShadowPageTrampoline dst).map decode)[k]? = some (some ins) := by
  rw [trampoline_decode, List.getElem?_map, h]
  rfl

/-- The body starts behind the first instruction. -/
theorem trampolineInstrs_body {dst : Addr} {k : Nat} {ins : Instr}
    (h : (trampolineBody dst)[k]? = some ins) : (trampolineInstrs dst)[k + 1]? = some ins := by
  rw [trampolineInstrs, List.cons_append, List.getElem?_cons_succ, List.getElem?_append_left
    (List.getElem?_eq_some_iff.mp h).1, h]

theorem trampolineInstrs_get (dst : Addr) {k : Nat} (hk : k < 20) :
    ∃ ins, (trampolineInstrs dst)[k]? = some ins := by
  have hlen : (trampolineInstrs dst).length = 20 := rfl
  exact ⟨_, List.getElem?_eq_getElem (by omega)⟩

theorem compute_run (dst : Addr) (y : Sym) :
    ∃ y', y.run 304 (trampolineCompute dst) = some y' ∧ y'.x.get t0 = dst ∧
      (∀ r, r ≠ t0 → r ≠ t1 → r ≠ t2 → r ≠ t3 → y'.x.get r = y.x.get r) ∧
      y'.f = y.f ∧ y'.slots = y.slots := by
  rcases y with ⟨x, f, slots⟩
  simp +decide only [trampolineCompute, Sym.run, Sym.exec, Sym.setX, Option.bind_some, get_set,
    get_zero, if_true, if_false, Option.some.injEq, exists_eq_left', and_true]
  refine ⟨materialised dst _ _ _ (by decide) (setWidth_materialised _) (setWidth_materialised _),
    fun r h0 h1 h2 h3 => ?_⟩
  simp only [h0, h1, h2, h3, if_false]

/-- The body spills `t0`-`t3`, loads `dst` into `t0`, and changes nothing
    else of the registers. -/
theorem trampoline_run (dst : Addr) (y : Sym) :
    ∃ y', y.run 304 (trampolineBody dst) = some y' ∧ y'.x.get t0 = dst ∧
      (∀ r, r ≠ t0 → r ≠ t1 → r ≠ t2 → r ≠ t3 → y'.x.get r = y.x.get r) ∧
      y'.f = y.f ∧ (∀ k ∈ trampolineSlots, y'.slots k.off = some (y.value k)) := by
  rcases run_saves (show 304 < 2048 by omega) trampolineSlots y (by decide) (by decide)
    with ⟨y1, hrun1, hx1, hf1, hslots1, _⟩
  rcases compute_run dst y1 with ⟨y2, hrun2, ht0, hother, hf2, hslots2⟩
  refine ⟨y2, ?_, ht0, ?_, hf2.trans hf1, ?_⟩
  · rw [trampolineBody, run_append, hrun1, Option.bind_some, hrun2]
  · intro r h0 h1 h2 h3
    rw [hother r h0 h1 h2 h3, hx1]
  · intro k hk
    rw [hslots2]
    exact hslots1 k hk

/-- The memory after four doublewords have been stored at `a`. -/
def spilled (m : Mem) (a : Addr) (v₀ v₁ v₂ v₃ : Word) : Mem :=
  (((m.write a 8 v₀).write (a + 8) 8 v₁).write (a + 16) 8 v₂).write (a + 24) 8 v₃

theorem spilled_outside {m : Mem} {a b : Addr} {v₀ v₁ v₂ v₃ : Word}
    (h : 32 ≤ (b - a).toNat) : spilled m a v₀ v₁ v₂ v₃ b = m b := by
  unfold spilled
  rw [Mem.write_outside (by bv_omega), Mem.write_outside (by bv_omega),
    Mem.write_outside (by bv_omega), Mem.write_outside (by omega)]

/-- Each doubleword is read back: the stores do not overlap. -/
theorem read_spilled (m : Mem) (a : Addr) (v₀ v₁ v₂ v₃ : Word) :
    (spilled m a v₀ v₁ v₂ v₃).read a 8 = v₀ ∧ (spilled m a v₀ v₁ v₂ v₃).read (a + 8) 8 = v₁ ∧
      (spilled m a v₀ v₁ v₂ v₃).read (a + 16) 8 = v₂ ∧
      (spilled m a v₀ v₁ v₂ v₃).read (a + 24) 8 = v₃ := by
  unfold spilled
  refine ⟨?_, ?_, ?_, Mem.read_write_same _ _ 8 _ (by decide)⟩
  · rw [Mem.read_write_of_disjoint _ _ _ _ _ _ (fun j hj => by bv_omega),
      Mem.read_write_of_disjoint _ _ _ _ _ _ (fun j hj => by bv_omega),
      Mem.read_write_of_disjoint _ _ _ _ _ _ (fun j hj => by bv_omega)]
    exact Mem.read_write_same _ _ 8 _ (by decide)
  · rw [Mem.read_write_of_disjoint _ _ _ _ _ _ (fun j hj => by bv_omega),
      Mem.read_write_of_disjoint _ _ _ _ _ _ (fun j hj => by bv_omega)]
    exact Mem.read_write_same _ _ 8 _ (by decide)
  · rw [Mem.read_write_of_disjoint _ _ _ _ _ _ (fun j hj => by bv_omega)]
    exact Mem.read_write_same _ _ 8 _ (by decide)

/-- The four stores, with the frame at the stack pointer. -/
theorem saves_run (c : Core) :
    ∃ c', execAll c (trampolineSlots.map Slot.save) = some c' ∧ c'.x = c.x ∧ c'.f = c.f ∧
      c'.mem = spilled c.mem (c.get sp) (c.get t0) (c.get t1) (c.get t2) (c.get t3) := by
  have h0 : (0 : BitVec 12).signExtend 64 = 0#64 := by decide
  have h8 : (8 : BitVec 12).signExtend 64 = 8 := by decide
  have h16 : (16 : BitVec 12).signExtend 64 = 16 := by decide
  have h24 : (24 : BitVec 12).signExtend 64 = 24 := by decide
  refine ⟨_, rfl, rfl, rfl, ?_⟩
  show Mem.write (Mem.write (Mem.write (Mem.write c.mem
    (c.get sp + (0 : BitVec 12).signExtend 64) 8 ((c.get t0).setWidth 64))
    (c.get sp + (8 : BitVec 12).signExtend 64) 8 ((c.get t1).setWidth 64))
    (c.get sp + (16 : BitVec 12).signExtend 64) 8 ((c.get t2).setWidth 64))
    (c.get sp + (24 : BitVec 12).signExtend 64) 8 ((c.get t3).setWidth 64) = _
  rw [h0, h8, h16, h24, BitVec.add_zero, BitVec.setWidth_eq, BitVec.setWidth_eq,
    BitVec.setWidth_eq, BitVec.setWidth_eq, spilled]

/-- The effect of the trampoline: it has jumped to `dst` with a frame of 304
    bytes open and `t0`-`t3` in it, and nothing else has changed. -/
structure Materialised (dst : Addr) (c c' : Core) : Prop where
  pc : c'.pc = dst
  sp : c'.get sp = c.get sp - 304
  spill0 : c'.mem.read (c.get RV64.sp - 304) 8 = c.get t0
  spill8 : c'.mem.read (c.get RV64.sp - 304 + 8) 8 = c.get t1
  spill16 : c'.mem.read (c.get RV64.sp - 304 + 16) 8 = c.get t2
  spill24 : c'.mem.read (c.get RV64.sp - 304 + 24) 8 = c.get t3
  regs : ∀ r, r ≠ RV64.sp → r ≠ t0 → r ≠ t1 → r ≠ t2 → r ≠ t3 → c'.get r = c.get r
  floats : c'.f = c.f
  mem : ∀ a, 32 ≤ (a - (c.get RV64.sp - 304)).toNat → c'.mem a = c.mem a

/-- The nineteen instructions before the jump. -/
theorem open_run (dst : Addr) (c : Core) :
    ∃ c', execAll c (.addi sp sp (-304) :: trampolineBody dst) = some c' ∧ c'.get t0 = dst ∧
      c'.get sp = c.get sp - 304 ∧
      (∀ r, r ≠ sp → r ≠ t0 → r ≠ t1 → r ≠ t2 → r ≠ t3 → c'.get r = c.get r) ∧ c'.f = c.f ∧
      c'.mem = spilled c.mem (c.get sp - 304) (c.get t0) (c.get t1) (c.get t2) (c.get t3) := by
  have hopen : c.get sp + (-304 : BitVec 12).signExtend 64 = c.get sp - 304 := by
    have himm : (-304 : BitVec 12).signExtend 64 = -304#64 := by decide
    rw [himm, BitVec.sub_eq_add_neg]
    rfl
  -- The frame is open and nothing is spilled yet.
  have hget : ∀ r, r ≠ sp → ((c.set sp (c.get sp - 304)).goto (c.pc + 4)).get r = c.get r :=
    fun r hr => get_set_other _ _ _ _ hr
  have hsp : ((c.set sp (c.get sp - 304)).goto (c.pc + 4)).get sp = c.get sp - 304 :=
    get_set_self _ _ _ (by decide)
  rcases saves_run ((c.set sp (c.get sp - 304)).goto (c.pc + 4)) with ⟨c₁, hc₁, hx₁, hf₁, hm₁⟩
  rw [hsp, hget t0 (by decide), hget t1 (by decide), hget t2 (by decide), hget t3 (by decide)]
    at hm₁
  rcases compute_run dst ⟨c₁.x, c₁.f, fun _ => none⟩ with ⟨y, hy, ht0, hother, _, _⟩
  have hreg : (trampolineCompute dst).all registerOnly = true := rfl
  rcases execAll_register (trampolineCompute dst) _ y c₁ (List.all_eq_true.mp hreg) rfl hy
    with ⟨c₂, hc₂, hx₂, hf₂, hm₂⟩
  have hkept : ∀ r, r ≠ t0 → r ≠ t1 → r ≠ t2 → r ≠ t3 →
      c₂.get r = ((c.set sp (c.get sp - 304)).goto (c.pc + 4)).get r := by
    intro r h0 h1 h2 h3
    rw [Core.get, hx₂, hother r h0 h1 h2 h3, Core.get, hx₁]
  refine ⟨c₂, ?_, ?_, ?_, ?_, hf₂.trans hf₁, hm₂.trans hm₁⟩
  · rw [execAll, exec, hopen, Option.bind_some, trampolineBody, execAll_append, hc₁,
      Option.bind_some, hc₂]
  · rw [Core.get, hx₂, ht0]
  · rw [hkept sp (by decide) (by decide) (by decide) (by decide), hsp]
  · intro r hr h0 h1 h2 h3
    rw [hkept r h0 h1 h2 h3, hget r hr]

/-- The twenty words, from any state of the machine and for any even
    destination. -/
theorem trampoline_correct (dst base : Addr) (heven : EvenAddr dst) (c : Core) :
    ∃ c', runWords base (setupShadowPageTrampoline dst) 20 (c.goto base) = some c' ∧
      Materialised dst c c' := by
  have hsmall : 4 * (setupShadowPageTrampoline dst).length < 2 ^ 64 := by
    rw [length_trampoline]
    decide
  have hseq : (Instr.addi sp sp (-304) :: trampolineBody dst).all sequential = true := rfl
  rcases open_run dst (c.goto base) with ⟨c₁, hc₁, ht0, hsp, hregs, hf, hm⟩
  rcases runWords_block hsmall _ [] (c.goto base) c₁ (trampoline_decode dst)
    (List.all_eq_true.mp hseq) (BitVec.add_zero base).symm hc₁ with ⟨hrun, hpc⟩
  -- The last word jumps through `t0`, which is even.
  have hjump : runWords base (setupShadowPageTrampoline dst) 1 c₁ = some (c₁.goto dst) := by
    have htarget : dst + (0 : BitVec 12).signExtend 64 = dst := by
      rw [show (0 : BitVec 12).signExtend 64 = 0#64 by decide, BitVec.add_zero]
    rw [runWords, stepWord_eq (trampoline_decode dst) hsmall hpc, exec, ht0, htarget]
    have heven' := jumpTarget_even heven
    unfold jumpTarget at heven'
    rw [heven', Core.set, set_zero]
    rfl
  have hm : c₁.mem = spilled c.mem (c.get sp - 304) (c.get t0) (c.get t1) (c.get t2) (c.get t3) :=
    hm
  rcases read_spilled c.mem (c.get sp - 304) (c.get t0) (c.get t1) (c.get t2) (c.get t3)
    with ⟨h0, h8, h16, h24⟩
  rw [← hm] at h0 h8 h16 h24
  refine ⟨c₁.goto dst, ?_, rfl, hsp, h0, h8, h16, h24, hregs, hf, fun a ha => ?_⟩
  · have hrun : runWords base (setupShadowPageTrampoline dst) 19 (c.goto base) = some c₁ := hrun
    rw [show 20 = 19 + 1 by rfl, runWords_add, hrun, Option.bind_some, hjump]
  · show c₁.mem a = c.mem a
    rw [hm]
    exact spilled_outside ha

/-- A destination with both halves at the corner of the borrow. -/
theorem trampoline_correct_corner :
    ∃ c', runWords 0x10000 (setupShadowPageTrampoline 0x7ffff800fffff802) 20
        ((⟨0, fun _ => 0, fun _ => 0, fun _ => 0⟩ : Core).goto 0x10000) = some c' ∧
      Materialised 0x7ffff800fffff802 ⟨0, fun _ => 0, fun _ => 0, fun _ => 0⟩ c' :=
  trampoline_correct 0x7ffff800fffff802 0x10000 (by decide) _

end Vpoline
