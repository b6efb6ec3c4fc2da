import Vpoline.Theory.Run
import Vpoline.Theory.Trampoline

/-!
# From a Patched Site to `syscall_hook`

The entry path of an interception: the patched `jalr`, the trampoline, and
`asm_syscall_hook` up to its call of the C function.

Along the way the context moves from registers to the frame in three
instalments. The trampoline spills the four registers it computes with, the
first line of `asm_syscall_hook` stores the return address that the patched
`jalr` left in `gp`, and the save block stores the remaining caller-saved
registers. `Saved` collects what the frame then holds, and `Called` what a C
function finds on entry.

## Main definitions

* `frameBase`: Where the trampoline puts its frame.
* `Entered`: What is known at the `rt_sigreturn` check.
* `hookSlots`: The registers `asm_syscall_hook` saves.
* `contextSlots`: Every register with a slot in the frame.
* `Saved`: The context of the site is in the frame.
* `Called`: The thread at the entry of `syscall_hook`.

## Theorems

* `frameAt_of_room`: There is room for the frame.
* `site_jump`: The patched site jumps to the trampoline.
* `trampoline_inevitably`: The trampoline reaches `asm_syscall_hook`.
* `jumped_entered`, `site_entered`: From the site to the `rt_sigreturn` check.
* `entered_call`: From the check to the call of `syscall_hook`.
* `jumped_called`, `site_called`: Both together.
-/

namespace Vpoline

open RV64

variable {K : Type} {env : Env K}

/-- The base of the frame that the trampoline opens below `p`. -/
def frameBase (p : Addr) : Addr := p - BitVec.ofNat 64 frameSize

theorem frameBase_top (p : Addr) : frameBase p + BitVec.ofNat 64 frameSize = p := by
  simp only [frameBase]
  bv_omega

theorem frameAt_of_room {p : Addr} (h : Room env p) :
    FrameAt env.stack (frameBase p) frameSize := by
  have hfits := h.fits
  have hframe : frameSize = 304 := rfl
  have hc := env.cframe_small
  refine ⟨by decide, ?_, fun a hlo hhi => h.stack a ?_ ?_⟩
  · simp only [frameBase, hframe] at hfits ⊢
    bv_omega
  · simp only [frameBase, hframe] at hlo hfits ⊢
    bv_omega
  · rw [frameBase_top] at hhi
    exact hhi

/-- The patched site jumps to the trampoline with its return address in `gp`. -/
theorem site_jump {s : Conf K} (hs : AtSite env s) :
    (∃ c', Quiet env s c') ∧ ∀ c', Step env s c' →
      After env s c' env.rgp (s.x.set gp (s.pc + 4)) := by
  have hfetch : Fetched env s (.jalr gp gp 0) (s.pc + 4) := by
    intro m hm c'
    have hword : m.read s.pc 4 = patchedEcall := by
      rw [← hs.word]
      exact hm.read (fun k hk hst => hs.text k hk hst.1)
    have hdec : decode (m.read s.pc 4) = some (.jalr gp gp 0) := by
      rw [hword]
      decide
    exact exec_word_iff (c := { s with mem := m }) hs.region hdec
  exact step_jalr hfetch hs.gp env.rgp_even

/-- Each instruction of the trampoline is fetched at its place. -/
theorem placed_trampoline {m : Mem} (hm : Installed env m) :
    Placed env m (fun j => env.rgp + BitVec.ofNat 64 (4 * j)) (trampolineInstrs env.dst) := by
  intro i ins hi
  exact fetches_trampoline hm (trampoline_word hi)

/-- The frame right after it has been opened: no slot is known yet. -/
theorem models_open {m : Mem} {c c' : Conf K} {pc : Addr}
    (hmem : AgreeAbove env.stack (c.x sp) m c.mem)
    (ha : After env c c' pc (c.x.set sp (frameBase (c.x sp)))) :
    Models env.stack (frameBase (c.x sp)) frameSize m
      ⟨c.x.set sp (frameBase (c.x sp)), c.f, fun _ => none⟩ c'.toCore := by
  refine ⟨ha.x, ha.f, rfl, fun o v hv => ?_, ?_⟩
  · exact absurd hv (by simp only [reduceCtorEq, not_false_eq_true])
  · rw [frameBase_top]
    exact hmem.trans ha.mem

/-- The trampoline, started anywhere with room below its stack pointer:
    `t0`-`t3` go to the frame, and control to `asm_syscall_hook`. -/
theorem trampoline_inevitably {m : Mem} {c : Conf K} (hm : Installed env m)
    (hroom : Room env (c.x sp)) (hpc : c.pc = env.rgp)
    (hmem : AgreeAbove env.stack (c.x sp) m c.mem) :
    Surely (Calm env) (Step env) (fun c' => c'.pc = env.dst ∧ ∃ y,
      Models env.stack (frameBase (c.x sp)) frameSize m y c'.toCore ∧
      (∀ r, r ≠ sp → r ≠ t0 → r ≠ t1 → r ≠ t2 → r ≠ t3 → y.x.get r = c.get r) ∧
      y.f = c.f ∧ (∀ k ∈ trampolineSlots, y.slots k.off = some (c.get k.reg)) ∧
      SameGhost c c') c := by
  have hf := frameAt_of_room hroom
  have hplaced := placed_trampoline hm
  -- The first instruction opens the frame.
  have hopen : Fetched env c (.addi sp sp (-304)) (env.rgp + BitVec.ofNat 64 4) :=
    (hplaced 0 _ rfl).fetched (hpc.trans (BitVec.add_zero _).symm) (own_of_agree hmem)
  have hbase : c.get sp + (-304 : BitVec 12).signExtend 64 = frameBase (c.x sp) := by
    have hsp : c.get sp = c.x sp := rfl
    have himm : (-304 : BitVec 12).signExtend 64 = -304 := by decide
    rw [hsp, himm, frameBase, frameSize]
    bv_omega
  rcases step_addi hopen with ⟨hex, hall⟩
  rw [hbase] at hall
  have hin : ¬ Leaves env c.pc := by
    rw [hpc, ← BitVec.add_zero env.rgp]
    exact inside_trampoline (k := 0) (by decide)
  refine Surely.next c (calm_step hin hex) (fun c1 hc1 => ?_)
  have ha1 := hall c1 hc1
  have hmod1 := models_open hmem ha1
  -- The body computes the target in `t0`.
  rcases trampoline_run env.dst ⟨c.x.set sp (frameBase (c.x sp)), c.f, fun _ => none⟩ with
    ⟨y, hrun, hdst, hother, hyf, hslots⟩
  have hbody : Placed env m (fun j => env.rgp + BitVec.ofNat 64 (4 * (j + 1)))
      (trampolineBody env.dst) := by
    intro j ins hj
    exact hplaced (j + 1) ins (trampolineInstrs_body hj)
  have hlen : (trampolineBody env.dst).length = 18 := rfl
  refine (run_segment hf _ _ _ c1 hbody (fun j hj => inside_trampoline (by omega)) hrun hmod1
    ha1.pc).trans ?_
  rintro c2 ⟨hpc2, hmod2, hghost2⟩
  -- The last instruction jumps to it.
  have hjump : Fetched env c2 (.jalr zero t0 0) (env.rgp + BitVec.ofNat 64 80) :=
    (hplaced 19 _ rfl).fetched hpc2 (own_of_agree hmod2.mem)
  have ht0 : c2.get t0 = env.dst := by
    rw [Core.get, hmod2.x]
    exact hdst
  rcases step_jalr hjump ht0 (env.loc_even _ _) with ⟨hex2, hall2⟩
  refine Surely.single (calm_step (hpc2 ▸ inside_trampoline (by omega)) hex2) (fun c3 hc3 => ?_)
  have ha3 := hall2 c3 hc3
  rw [set_zero] at ha3
  have hmod3 := hmod2.after hf ha3 ((congrFun hmod2.x sp).trans hmod2.sp)
  rw [hmod2.x] at hmod3
  refine ⟨ha3.pc, y, hmod3, ?_, hyf, ?_, (ha1.ghost.trans hghost2).trans ha3.ghost⟩
  · intro r hsp h0 h1 h2 h3
    rw [hother r h0 h1 h2 h3, get_set_other _ _ _ _ hsp]
    rfl
  · intro k hk
    rw [hslots k hk]
    -- None of the spilled registers is the stack pointer.
    have hval : ∀ j ∈ trampolineSlots, j.float = false ∧ j.reg ≠ sp := by decide
    rcases hval k hk with ⟨hfl, hsp⟩
    simp only [Sym.value, hfl, Bool.false_eq_true, if_false]
    rw [get_set_other _ _ _ _ hsp]
    rfl

/-- The registers that the way to the `rt_sigreturn` check overwrites. -/
def entryClobbered : List Reg := [sp, gp, t0, t1, t2, t3]

/-- What registers and frame hold at the `rt_sigreturn` check of a thread
    that came from the site `s`. -/
structure Entered (env : Env K) (s : Conf K) (y : Sym) : Prop where
  gp : y.x.get gp = env.rgp
  t0 : y.x.get t0 = 139
  t1 : y.x.get t1 = s.pc + 4
  other : ∀ r, r ∉ entryClobbered → y.x.get r = s.get r
  f : y.f = s.f
  temps : ∀ k ∈ trampolineSlots, y.slots k.off = some (s.get k.reg)
  ret : y.slots 288 = some (s.pc + 4)

/-- The statements of `asm_syscall_hook` that save the return address. -/
def saveReturn : List Instr := [.store .double gp sp 288, .addi t1 gp 0]

theorem saveReturn_run (y : Sym) :
    y.run frameSize saveReturn = some
      ⟨y.x.set t1 (y.x.get gp), y.f, (y.spill 288 (y.x.get gp)).slots⟩ := by
  have hext : (0 : BitVec 12).signExtend 64 = 0#64 := by decide
  have hoff : (288 : BitVec 12).toNat = 288 := by decide
  simp +decide only [saveReturn, Sym.run, Sym.exec, Sym.setX, Sym.spill, frameSize, hext, hoff,
    BitVec.add_zero, if_true, if_false, Option.bind_some]

/-- From the trampoline to the `rt_sigreturn` check, behind the patched site. -/
theorem jumped_entered {s c1 : Conf K} (hs : AtSite env s)
    (ha1 : After env s c1 env.rgp (s.x.set gp (s.pc + 4))) :
    Surely (Calm env) (Step env) (fun c => c.pc = env.loc .asmSyscallHook 5 ∧ ∃ y,
      Models env.stack (frameBase (s.x sp)) frameSize s.mem y c.toCore ∧
      Entered env s y ∧ SameGhost s c) c1 := by
  have hf := frameAt_of_room hs.room
  have hsp1 : c1.x sp = s.x sp := by rw [ha1.x]; rfl
  refine (trampoline_inevitably hs.installed (hsp1 ▸ hs.room) ha1.pc (hsp1 ▸ ha1.mem)).trans ?_
  rintro c2 ⟨hpc2, y2, hmod2, hother2, hf2, hslots2, hghost2⟩
  rw [hsp1] at hmod2
  have hget1 : ∀ r, r ≠ gp → c1.get r = s.get r := fun r hr => by
    rw [Core.get, ha1.x]
    exact get_set_other _ _ _ _ hr
  have hgp2 : y2.x.get gp = s.pc + 4 := by
    rw [hother2 gp (by decide) (by decide) (by decide) (by decide) (by decide), Core.get, ha1.x]
    exact get_set_self _ _ _ (by decide)
  -- The return address is stored and copied to `t1`.
  have hplaced : Placed env s.mem (fun j => env.loc .asmSyscallHook (0 + j)) saveReturn :=
    placed_stmts s.mem rfl
  have hlen : saveReturn.length = 2 := rfl
  refine (run_segment hf _ _ _ c2 hplaced (fun j hj => inside_asm (by omega)) (saveReturn_run y2)
    hmod2 hpc2).trans ?_
  rintro c3 ⟨hpc3, hmod3, hghost3⟩
  rw [hgp2] at hmod3
  -- `gp` is reloaded through the address in `t0`.
  rcases step_la t0 hpc3 rfl with ⟨hex3, hall3⟩
  refine Surely.next c3 (calm_step (hpc3 ▸ inside_asm (by decide)) hex3) (fun c4 hc4 => ?_)
  have ha4 := hall3 c4 hc4
  have hmod4 := hmod3.after hf ha4 ((congrFun hmod3.x sp).trans hmod3.sp)
  have hld : Fetched env c4 (.load .double false gp t0 0) (env.loc .asmSyscallHook 4) :=
    (fetches_stmt (p := .asmSyscallHook) (i := 3) s.mem rfl).fetched ha4.pc
      (own_of_agree hmod4.mem)
  have ht04 : c4.get t0 = env.rgpVar := by
    rw [Core.get, ha4.x]
    exact get_set_self _ _ _ (by decide)
  rcases step_load_rgp hld ht04 (installed_of_own hs.installed (own_of_agree hmod4.mem)) with
    ⟨hex4, hall4⟩
  refine Surely.next c4 (calm_step (ha4.pc ▸ inside_asm (by decide)) hex4) (fun c5 hc5 => ?_)
  have ha5 := hall4 c5 hc5
  have hmod5 := hmod4.after hf ha5 ((congrFun hmod4.x sp).trans hmod4.sp)
  -- `t0` gets the number to compare with.
  have hli : Fetched env c5 (.addi t0 zero 139) (env.loc .asmSyscallHook 5) :=
    (fetches_stmt (p := .asmSyscallHook) (i := 4) s.mem rfl).fetched ha5.pc
      (own_of_agree hmod5.mem)
  rcases step_addi hli with ⟨hex5, hall5⟩
  refine Surely.single (calm_step (ha5.pc ▸ inside_asm (by decide)) hex5) (fun c6 hc6 => ?_)
  have ha6 := hall5 c6 hc6
  have hmod6 := hmod5.after hf ha6 ((congrFun hmod5.x sp).trans hmod5.sp)
  have himm : c5.get zero + (139 : BitVec 12).signExtend 64 = 139 := by
    rw [Core.get, get_zero]
    decide
  rw [himm, ha5.x, ha4.x, hmod3.x] at hmod6
  refine ⟨ha6.pc, _, hmod6, ?_, ((((ha1.ghost.trans hghost2).trans hghost3).trans
    ha4.ghost).trans ha5.ghost).trans ha6.ghost⟩
  constructor
  · simp +decide only [get_set, if_true, if_false]
  · simp +decide only [get_set, if_true, if_false]
  · simp +decide only [get_set, if_true, if_false]
  · intro r hr
    simp only [entryClobbered, List.mem_cons, List.not_mem_nil, or_false, not_or] at hr
    rcases hr with ⟨hsp, hgp, h0, h1, h2, h3⟩
    rw [get_set_other _ _ _ _ h0, get_set_other _ _ _ _ hgp, get_set_other _ _ _ _ h0,
      get_set_other _ _ _ _ h1, hother2 r hsp h0 h1 h2 h3, hget1 r hgp]
  · exact hf2.trans ha1.f
  · intro k hk
    -- The trampoline's slots are below the return address.
    have hlow : ∀ j ∈ trampolineSlots, j.off + 8 ≤ 288 ∧ j.reg ≠ gp := by decide
    rcases hlow k hk with ⟨hoff, hreg⟩
    simp only [Sym.spill]
    rw [if_neg (by omega), if_pos (Or.inl hoff), hslots2 k hk, hget1 _ hreg]
  · simp only [Sym.spill, if_true]

/-- From the patched site to the `rt_sigreturn` check. -/
theorem site_entered {s : Conf K} (hs : AtSite env s) :
    Inevitably (Step env) (fun c => c.pc = env.loc .asmSyscallHook 5 ∧ ∃ y,
      Models env.stack (frameBase (s.x sp)) frameSize s.mem y c.toCore ∧
      Entered env s y ∧ SameGhost s c) s := by
  rcases site_jump hs with ⟨⟨c, hc⟩, hall⟩
  exact Inevitably.next s ⟨c, hc.step⟩ (fun c1 hc1 => (jumped_entered hs (hall c1 hc1)).inevitably)

/-- The registers `asm_syscall_hook` saves before it calls `syscall_hook`. -/
def hookSlots : List Slot :=
  [⟨false, ra, 32⟩, ⟨false, a1, 40⟩, ⟨false, a2, 48⟩, ⟨false, a3, 56⟩, ⟨false, a4, 64⟩,
    ⟨false, a5, 72⟩, ⟨false, a6, 80⟩, ⟨false, a7, 88⟩, ⟨false, t4, 96⟩, ⟨false, t5, 104⟩,
    ⟨false, t6, 112⟩, ⟨true, fa0, 120⟩, ⟨true, fa1, 128⟩, ⟨true, fa2, 136⟩, ⟨true, fa3, 144⟩,
    ⟨true, fa4, 152⟩, ⟨true, fa5, 160⟩, ⟨true, fa6, 168⟩, ⟨true, fa7, 176⟩, ⟨true, ft0, 184⟩,
    ⟨true, ft1, 192⟩, ⟨true, ft2, 200⟩, ⟨true, ft3, 208⟩, ⟨true, ft4, 216⟩, ⟨true, ft5, 224⟩,
    ⟨true, ft6, 232⟩, ⟨true, ft7, 240⟩, ⟨true, ft8, 248⟩, ⟨true, ft9, 256⟩, ⟨true, ft10, 264⟩,
    ⟨true, ft11, 272⟩]

/-- The save block is the save of its slots, and `a6` as an argument. -/
theorem hookSave_eq :
    hookSave = (hookSlots.map Slot.save ++ [Instr.addi a6 t1 0]).map Stmt.ins := by
  decide

/-- Every register that has a slot in the frame. -/
def contextSlots : List Slot := trampolineSlots ++ hookSlots

/-- The frame of the site `s` holds its context and its return address. -/
structure Saved (s : Conf K) (m : Mem) : Prop where
  context : ∀ k ∈ contextSlots,
    m.read (frameBase (s.x sp) + BitVec.ofNat 64 k.off) 8 = k.value s.toCore
  ret : m.read (frameBase (s.x sp) + BitVec.ofNat 64 288) 8 = s.pc + 4

/-- A thread that came from the site `s` at the entry of `syscall_hook`. -/
structure Called (env : Env K) (s c : Conf K) : Prop where
  pc : c.pc = env.syscallHook
  ra : c.x ra = env.loc .asmSyscallHook 39
  sp : c.x sp = frameBase (s.x sp)
  gp : c.x gp = env.rgp
  other : ∀ r, r ∉ zero :: RV64.ra :: a6 :: entryClobbered → c.x r = s.x r
  f : c.f = s.f
  saved : Saved s c.mem
  mem : AgreeAbove env.stack (s.x RV64.sp) s.mem c.mem
  ghost : SameGhost s c

/-- The save block, run from the `rt_sigreturn` check. -/
theorem hookSave_run {s : Conf K} {y : Sym} (h : Entered env s y) :
    ∃ y', y.run frameSize (hookSlots.map Slot.save ++ [Instr.addi a6 t1 0]) = some y' ∧
      y'.x = y.x.set a6 (s.pc + 4) ∧ y'.f = y.f ∧
      (∀ k ∈ contextSlots, y'.slots k.off = some (k.value s.toCore)) ∧
      y'.slots 288 = some (s.pc + 4) := by
  have hfit : ∀ k ∈ hookSlots, k.off + 8 ≤ frameSize := by decide
  have hpair : hookSlots.Pairwise (fun j k => Apart j.off k.off) := by decide
  rcases run_saves (by decide) hookSlots y hfit hpair with ⟨y1, hrun, hx, hf, hslot, hother⟩
  have hext : (0 : BitVec 12).signExtend 64 = 0#64 := by decide
  have hmv : y1.run frameSize [Instr.addi a6 t1 0]
      = some { y1 with x := y1.x.set a6 (s.pc + 4) } := by
    simp +decide only [Sym.run, Sym.exec, Sym.setX, hext, BitVec.add_zero, if_false,
      Option.bind_some, hx, h.t1]
  refine ⟨{ y1 with x := y1.x.set a6 (s.pc + 4) }, ?_, congrArg (fun x => x.set a6 (s.pc + 4)) hx,
    hf, ?_, ?_⟩
  · rw [run_append, hrun, Option.bind_some, hmv]
  · intro k hk
    rcases List.mem_append.mp hk with ht | hh
    · -- The trampoline's slots are apart from the ones saved here.
      have hapart : ∀ t ∈ trampolineSlots, t.float = false ∧ ∀ j ∈ hookSlots,
          Apart t.off j.off := by decide
      rw [hother k.off (hapart k ht).2, h.temps k ht, Slot.value, (hapart k ht).1]
      rfl
    · have hkeep : ∀ j ∈ hookSlots, j.float = false → j.reg ∉ entryClobbered := by decide
      rw [hslot k hh]
      congr 1
      simp only [Sym.value, Slot.value]
      by_cases hfl : k.float = true
      · rw [if_pos hfl, if_pos hfl, h.f]
      · rw [if_neg hfl, if_neg hfl, h.other _ (hkeep k hh (Bool.eq_false_iff.mpr hfl))]
  · have hapart : ∀ j ∈ hookSlots, Apart 288 j.off := by decide
    exact (hother 288 hapart).trans h.ret

/-- From the check to the entry of `syscall_hook`, for any system call but
    `rt_sigreturn`. -/
theorem entered_call {s c : Conf K} {y : Sym} (hroom : Room env (s.x sp))
    (ha7 : s.get a7 ≠ 139) (hpc : c.pc = env.loc .asmSyscallHook 5)
    (hmod : Models env.stack (frameBase (s.x sp)) frameSize s.mem y c.toCore)
    (hent : Entered env s y) (hghost : SameGhost s c) :
    Surely (Calm env) (Step env) (Called env s) c := by
  have hf := frameAt_of_room hroom
  -- The branch is not taken.
  rcases step_beq a7 t0 .doRtSigreturn hpc rfl with ⟨hex, hall⟩
  have hne : c.get a7 ≠ c.get t0 := by
    rw [Core.get, Core.get, hmod.x, hent.t0, hent.other a7 (by decide)]
    exact ha7
  rw [if_neg hne] at hall
  refine Surely.next c (calm_step (hpc ▸ inside_asm (by decide)) hex) (fun c1 hc1 => ?_)
  have ha1 := hall c1 hc1
  have hmod1 := hmod.after hf ha1 ((congrFun hmod.x sp).trans hmod.sp)
  rw [hmod.x] at hmod1
  -- The save block.
  rcases hookSave_run hent with ⟨y2, hrun, hx2, hf2, hslots2, hret2⟩
  have hplaced : Placed env s.mem (fun j => env.loc .asmSyscallHook (6 + j))
      (hookSlots.map Slot.save ++ [Instr.addi a6 t1 0]) := placed_stmts s.mem hookSave_eq
  have hlen : (hookSlots.map Slot.save ++ [Instr.addi a6 t1 0]).length = 32 := rfl
  refine (run_segment hf _ _ _ c1 hplaced (fun j hj => inside_asm (by omega)) hrun hmod1
    ha1.pc).trans ?_
  rintro c2 ⟨hpc2, hmod2, hghost2⟩
  -- The call.
  rcases step_call (i := 38) hpc2 rfl with ⟨hex2, hall2⟩
  refine Surely.single (calm_step (hpc2 ▸ inside_asm (by decide)) hex2) (fun c3 hc3 => ?_)
  have ha3 := hall2 c3 hc3
  have hmod3 := hmod2.after hf ha3 ((congrFun hmod2.x sp).trans hmod2.sp)
  have hx3 : c3.x = (y.x.set a6 (s.pc + 4)).set ra (env.loc .asmSyscallHook 39) := by
    rw [ha3.x, hmod2.x, hx2]
  refine ⟨ha3.pc, by rw [hx3]; rfl, (congrFun ha3.x sp).trans ((congrFun hmod2.x sp).trans
    hmod2.sp), ?_, ?_, hmod3.f.trans (hf2.trans hent.f), ⟨?_, ?_⟩, ?_,
    ((hghost.trans ha1.ghost).trans hghost2).trans ha3.ghost⟩
  · rw [hx3]
    exact hent.gp
  · intro r hr
    simp only [List.mem_cons, not_or] at hr
    rcases hr with ⟨h0, hra, ha6, hrest⟩
    have hget := hent.other r (by simpa only [entryClobbered, List.mem_cons] using hrest)
    simp only [Core.get, Regs.get, if_neg h0] at hget
    rw [hx3, ← hget]
    simp +decide only [Regs.set, if_false, if_neg hra, if_neg ha6]
  · intro k hk
    exact (hmod3.slots _ _ (hslots2 k hk)).2
  · exact (hmod3.slots _ _ hret2).2
  · have hmem := hmod3.mem
    rw [frameBase_top] at hmem
    exact hmem

/-- From the trampoline to the entry of `syscall_hook`, behind the patched site. -/
theorem jumped_called {s c1 : Conf K} (hs : AtSite env s) (ha7 : s.get a7 ≠ 139)
    (ha1 : After env s c1 env.rgp (s.x.set gp (s.pc + 4))) :
    Surely (Calm env) (Step env) (Called env s) c1 := by
  refine (jumped_entered hs ha1).trans ?_
  rintro c ⟨hpc, y, hmod, hent, hghost⟩
  exact entered_call hs.room ha7 hpc hmod hent hghost

/-- From a patched site to the entry of `syscall_hook`. -/
theorem site_called {s : Conf K} (hs : AtSite env s) (ha7 : s.get a7 ≠ 139) :
    Inevitably (Step env) (Called env s) s := by
  refine (site_entered hs).trans ?_
  rintro c ⟨hpc, y, hmod, hent, hghost⟩
  exact (entered_call hs.room ha7 hpc hmod hent hghost).inevitably

end Vpoline
