import Vpoline.Theory.Entry

/-!
# From `syscall_hook` Back to the Site

The way out of an interception: the restore block of `asm_syscall_hook`, the
choice between its three exits, and the return words below `relocated_gp`.

After the restore block the thread is almost the one that left the site.
`Restored` says what is still missing: `t0` and the return address are in the
frame, `sp` is the frame's base, and `a0` holds whatever `syscall_hook` put
there. Everything between the restore block and the return words only moves
`t0`, so it preserves `Restored` step by step. `Unwound` is the next stage,
with the frame closed and the return address in `gp`, and `Resumed` the last:
the thread is behind the site, and the final `jalr gp, gp, 0` has turned `gp`
back into `relocated_gp` because it sits right below it.

## Main definitions

* `Answered`: The thread as `syscall_hook` hands it back.
* `Restored`: The context is back, except for `t0`, `sp` and `gp`.
* `Unwound`: The frame is closed and `gp` holds the return address.
* `Resumed`: The thread is behind the site.

## Theorems

* `answered_restored`: The restore block.
* `dispatch_forward`, `dispatch_handled`: The choice by `a1`.
* `retJump_inevitably`: The jump to a return path.
* `prelude_inevitably`: The choice between the last two return paths.
* `unwind_inevitably`: The three instructions that close the frame.
* `final_jump`: The shared last instruction.
* `handled_resumed`: The whole path for handled system calls.
* `forwarded_resumed`: The normal path after its system call.
-/

namespace Vpoline

open RV64

variable {K : Type} {env : Env K}

/-- A thread of the site `s` right after `syscall_hook` has returned. -/
structure Answered (env : Env K) (s c : Conf K) : Prop where
  pc : c.pc = env.loc .asmSyscallHook 39
  sp : c.x sp = frameBase (s.x sp)
  gp : c.x gp = env.rgp
  tp : c.x tp = s.x tp
  callee : ∀ r, calleeSaved r → c.x r = s.x r
  calleeF : ∀ r, calleeSaved r → c.f r = s.f r
  saved : Saved s c.mem
  installed : Installed env c.mem

/-- A thread of the site `s` whose context is back, `t0`, `sp` and `gp`
    excepted; `v` is in `a0`, and memory is `m` but for the stack below the
    site. -/
structure Restored (env : Env K) (s : Conf K) (m : Mem) (v : Word) (c : Conf K) : Prop where
  sp : c.x sp = frameBase (s.x sp)
  gp : c.x gp = env.rgp
  a0 : c.get a0 = v
  other : ∀ r, r ∉ [RV64.a0, t0, RV64.sp, RV64.gp] → c.get r = s.get r
  f : c.f = s.f
  temp : c.mem.read (frameBase (s.x RV64.sp) + BitVec.ofNat 64 0) 8 = s.get t0
  ret : c.mem.read (frameBase (s.x RV64.sp) + BitVec.ofNat 64 288) 8 = s.pc + 4
  mem : AgreeAbove env.stack (s.x RV64.sp) m c.mem

/-- The slots the restore block loads: all but `t0`. -/
def restoreSlots : List Slot := contextSlots.tail

theorem hookRestore_eq :
    hookRestore = (Instr.addi t0 a1 0 :: restoreSlots.map Slot.restore).map Stmt.ins := by
  decide

/-- Every integer register is restored, preserved by C, or left to the return
    words. -/
theorem restore_covers : ∀ r : Reg, r ∉ [a0, t0, sp, gp] →
    r = 0 ∨ (∃ k ∈ restoreSlots, k.float = false ∧ k.reg = r) ∨
    (r = tp ∨ calleeSaved r) ∧ ∀ k ∈ restoreSlots, k.float = true ∨ r ≠ k.reg := by
  decide

/-- Every floating-point register is restored or preserved by C. -/
theorem restore_coversF : ∀ r : Reg,
    (∃ k ∈ restoreSlots, k.float = true ∧ k.reg = r) ∨
    calleeSaved r ∧ ∀ k ∈ restoreSlots, k.float = false ∨ r ≠ k.reg := by
  decide

/-- The restore block on any frame that holds the context of `s`. -/
theorem hookRestore_run {s : Conf K} {y : Sym}
    (hslots : ∀ k ∈ restoreSlots, y.slots k.off = some (k.value s.toCore))
    (htp : y.x.get tp = s.get tp) (hcallee : ∀ r, calleeSaved r → y.x.get r = s.get r)
    (hcalleeF : ∀ r, calleeSaved r → y.f r = s.f r) :
    ∃ y', y.run frameSize (Instr.addi t0 a1 0 :: restoreSlots.map Slot.restore) = some y' ∧
      y'.slots = y.slots ∧ y'.x.get t0 = y.x.get a1 ∧ y'.x.get a0 = y.x.get a0 ∧
      y'.x.get gp = y.x.get gp ∧
      (∀ r, r ∉ [a0, t0, sp, gp] → y'.x.get r = s.get r) ∧ y'.f = s.f := by
  have hext : (0 : BitVec 12).signExtend 64 = 0#64 := by decide
  have hhead : y.exec frameSize (Instr.addi t0 a1 0)
      = some { y with x := y.x.set t0 (y.x.get a1) } := by
    simp +decide only [Sym.exec, Sym.setX, hext, BitVec.add_zero, if_false]
  have hoff : ∀ k ∈ restoreSlots, k.off < 4096 := by decide
  have hregs : ∀ k ∈ restoreSlots, k.float = false → k.reg ≠ sp ∧ k.reg ≠ 0 := by decide
  rcases run_restores frameSize (fun k => k.value s.toCore) restoreSlots
    { y with x := y.x.set t0 (y.x.get a1) } (fun k hk => ⟨hslots k hk, hoff k hk⟩) hregs
    (by decide) with ⟨y', hrun, hkeep, hval, hother⟩
  -- An integer register outside the list keeps its value.
  have hx : ∀ r, (∀ k ∈ restoreSlots, k.float = true ∨ r ≠ k.reg) →
      y'.x.get r = (y.x.set t0 (y.x.get a1)).get r := by
    intro r hr
    refine hother ⟨false, r, 0⟩ (fun k hk => (hr k hk).imp (fun hk' => ?_) id)
    rw [hk']
    exact Bool.false_ne_true
  refine ⟨y', ?_, hkeep, ?_, ?_, ?_, ?_, ?_⟩
  · rw [Sym.run, hhead, Option.bind_some, hrun]
  · rw [hx t0 (by decide), get_set_self _ _ _ (by decide)]
  · rw [hx a0 (by decide), get_set_other _ _ _ _ (by decide)]
  · rw [hx gp (by decide), get_set_other _ _ _ _ (by decide)]
  · intro r hr
    have ht0 : r ≠ t0 := fun h => hr (by rw [h]; decide)
    rcases restore_covers r hr with rfl | ⟨k, hk, hfl, rfl⟩ | ⟨hpres, hout⟩
    · rw [get_zero]
      rfl
    · have hv := hval k hk
      simp only [Sym.value, Slot.value, hfl, Bool.false_eq_true, if_false] at hv
      exact hv
    · rw [hx r hout, get_set_other _ _ _ _ ht0]
      rcases hpres with rfl | hsaved
      · exact htp
      · exact hcallee r hsaved
  · funext r
    rcases restore_coversF r with ⟨k, hk, hfl, rfl⟩ | ⟨hsaved, hout⟩
    · have hv := hval k hk
      simp only [Sym.value, Slot.value, hfl, if_true] at hv
      exact hv
    · rw [← hcalleeF r hsaved]
      refine hother ⟨true, r, 0⟩ (fun k hk => (hout k hk).imp (fun hk' => ?_) id)
      rw [hk']
      exact Bool.false_ne_true.symm

/-- From the return of `syscall_hook` to the dispatch, through the restore
    block. -/
theorem answered_restored {s c : Conf K} (hroom : Room env (s.x sp))
    (h : Answered env s c) :
    Surely (Calm env) (Step env) (fun c' => c'.pc = env.loc .asmSyscallHook 74 ∧
      Restored env s c.mem (c.get a0) c' ∧ c'.get t0 = c.get a1 ∧ SameGhost c c') c := by
  have hf := frameAt_of_room hroom
  have hmod : Models env.stack (frameBase (s.x sp)) frameSize c.mem
      (Sym.ofCore (frameBase (s.x sp)) frameSize c.toCore) c.toCore := models_self h.sp
  have hfit : ∀ k ∈ contextSlots, k.off + 8 ≤ frameSize := by decide
  have hcontext : ∀ k ∈ restoreSlots, k ∈ contextSlots := fun k hk => List.mem_of_mem_tail hk
  rcases hookRestore_run (s := s) (y := Sym.ofCore (frameBase (s.x sp)) frameSize c.toCore)
    (fun k hk => by
      simp only [Sym.ofCore]
      rw [if_pos (hfit k (hcontext k hk)), h.saved.context k (hcontext k hk)])
    h.tp
    (fun r hr => by
      have h0 : r ≠ 0 := fun h0 => absurd hr (by rw [h0]; decide)
      simp only [Sym.ofCore, Core.get, Regs.get, if_neg h0]
      exact h.callee r hr)
    h.calleeF with ⟨y', hrun, hslots, ht0, ha0, hgp, hother, hf'⟩
  have hplaced : Placed env c.mem (fun j => env.loc .asmSyscallHook (39 + j))
      (Instr.addi t0 a1 0 :: restoreSlots.map Slot.restore) := placed_stmts c.mem hookRestore_eq
  have hlen : (Instr.addi t0 a1 0 :: restoreSlots.map Slot.restore).length = 35 := rfl
  refine (run_segment hf _ _ _ c hplaced (fun j hj => inside_asm (by omega)) hrun hmod
    h.pc).mono ?_
  rintro c' ⟨hpc', hmod', hghost'⟩
  -- The frame is read, never written, so its slots are still there.
  have hslot : ∀ o, o + 8 ≤ frameSize →
      c'.mem.read (frameBase (s.x sp) + BitVec.ofNat 64 o) 8
        = c.mem.read (frameBase (s.x sp) + BitVec.ofNat 64 o) 8 := by
    intro o ho
    refine (hmod'.slots o _ ?_).2
    rw [hslots]
    simp only [Sym.ofCore]
    rw [if_pos ho]
  have hmem := hmod'.mem
  rw [frameBase_top] at hmem
  refine ⟨hpc', ⟨(congrFun hmod'.x sp).trans hmod'.sp, ?_, ?_, ?_, hmod'.f.trans hf', ?_, ?_,
    hmem⟩, ?_, hghost'⟩
  · have hgp' : c'.get gp = c.get gp := by
      rw [Core.get, hmod'.x]
      exact hgp
    exact hgp'.trans h.gp
  · rw [Core.get, hmod'.x]
    exact ha0
  · intro r hr
    rw [Core.get, hmod'.x]
    exact hother r hr
  · rw [hslot 0 (by decide)]
    exact h.saved.context ⟨false, t0, 0⟩ (by decide)
  · rw [hslot 288 (by decide)]
    exact h.saved.ret
  · rw [Core.get, hmod'.x]
    exact ht0

section Exits

variable {s c : Conf K} {m : Mem} {v : Word}

/-- An instruction that only sets `t0` does not disturb what has been
    restored. -/
theorem Restored.after {c' : Conf K} {pc : Addr} {w : Word} (hroom : Room env (s.x RV64.sp))
    (h : Restored env s m v c) (ha : After env c c' pc (c.x.set t0 w)) :
    Restored env s m v c' := by
  have hf := frameAt_of_room hroom
  have hget : ∀ r, r ≠ t0 → c'.get r = c.get r := fun r hr => by
    rw [Core.get, ha.x]
    exact get_set_other _ _ _ _ hr
  have hmem : AgreeAbove env.stack (frameBase (s.x RV64.sp)) c.mem c'.mem := h.sp ▸ ha.mem
  refine ⟨(hget RV64.sp (by decide)).trans h.sp, (hget RV64.gp (by decide)).trans h.gp,
    (hget RV64.a0 (by decide)).trans h.a0, ?_, ha.f.trans h.f, ?_, ?_, ?_⟩
  · intro r hr
    have ht0 : r ≠ t0 := fun heq => hr (by rw [heq]; decide)
    exact (hget r ht0).trans (h.other r hr)
  · exact (hf.read_slot hmem (by decide)).trans h.temp
  · exact (hf.read_slot hmem (by decide)).trans h.ret
  · have htop := hf.base_le_top
    rw [frameBase_top] at htop
    exact h.mem.trans (hmem.mono htop)

/-- The same for one that sets nothing. -/
theorem Restored.after_same {c' : Conf K} {pc : Addr} (hroom : Room env (s.x RV64.sp))
    (h : Restored env s m v c) (ha : After env c c' pc c.x) : Restored env s m v c' := by
  refine h.after (w := c.x t0) hroom ⟨ha.pc, ?_, ha.f, ha.mem, ha.ghost⟩
  rw [ha.x]
  funext r
  by_cases hr : r = t0
  · rw [hr]
    rfl
  · simp +decide only [Regs.set, if_false, if_neg hr]

/-- `a1 = 0`: the call is to be forwarded. -/
theorem dispatch_forward (hroom : Room env (s.x sp)) (h : Restored env s m v c)
    (hpc : c.pc = env.loc .asmSyscallHook 74) (ht0 : c.get t0 = 0) :
    Surely (Calm env) (Step env) (fun c' =>
      c'.pc = env.loc .asmSyscallHook Label.returnPrelude.index ∧
      Restored env s m v c' ∧ SameGhost c c') c := by
  rcases step_beq t0 zero .returnPrelude hpc rfl with ⟨hex, hall⟩
  rw [if_pos (show c.get t0 = c.get zero from ht0)] at hall
  refine Surely.single (calm_step (hpc ▸ inside_asm (by decide)) hex) (fun c1 hc1 => ?_)
  have ha1 := hall c1 hc1
  exact ⟨ha1.pc, h.after_same hroom ha1, ha1.ghost⟩

/-- `a1 = 1`: the hook has handled the call. -/
theorem dispatch_handled (hroom : Room env (s.x sp)) (h : Restored env s m v c)
    (hpc : c.pc = env.loc .asmSyscallHook 74) (ht0 : c.get t0 = 1) :
    Surely (Calm env) (Step env) (fun c' =>
      c'.pc = env.loc .asmSyscallHook Label.handledEcall.index ∧
      Restored env s m v c' ∧ SameGhost c c') c := by
  rcases step_beq t0 zero .returnPrelude hpc rfl with ⟨hex, hall⟩
  have hne : c.get t0 ≠ c.get zero := by
    rw [ht0]
    exact show (1 : Word) ≠ 0 by decide
  rw [if_neg hne] at hall
  refine Surely.next c (calm_step (hpc ▸ inside_asm (by decide)) hex) (fun c1 hc1 => ?_)
  have ha1 := hall c1 hc1
  have h1 := h.after_same hroom ha1
  -- `srli t0, t0, 1` turns the 1 into a 0.
  have hsrli : Fetched env c1 (.srli t0 t0 1) (env.loc .asmSyscallHook 76) :=
    (fetches_stmt (p := .asmSyscallHook) (i := 75) m rfl).fetched ha1.pc (own_of_agree h1.mem)
  have hval : c1.get t0 >>> (1 : BitVec 6).toNat = 0 := by
    have heq : c1.get t0 = 1 := by
      rw [Core.get, ha1.x]
      exact ht0
    rw [heq]
    decide
  rcases step_fetched (x := c1.x.set t0 0) hsrli
    (by simp only [ne_eq, reduceCtorEq, not_false_eq_true])
    (fun m _ => by rw [← hval]; rfl) with ⟨hex1, hall1⟩
  refine Surely.next c1 (calm_step (ha1.pc ▸ inside_asm (by decide)) hex1) (fun c2 hc2 => ?_)
  have ha2 := hall1 c2 hc2
  have h2 := h1.after hroom ha2
  rcases step_beq t0 zero .handledEcall ha2.pc rfl with ⟨hex2, hall2⟩
  have heq : c2.get t0 = c2.get zero := by
    rw [Core.get, ha2.x]
    rfl
  rw [if_pos heq] at hall2
  refine Surely.single (calm_step (ha2.pc ▸ inside_asm (by decide)) hex2) (fun c3 hc3 => ?_)
  have ha3 := hall2 c3 hc3
  exact ⟨ha3.pc, h2.after_same hroom ha3, (ha1.ghost.trans ha2.ghost).trans ha3.ghost⟩

/-- `retJump`: four statements that jump to return word `i`. -/
theorem retJump_inevitably {i j : Nat} {off : BitVec 12} (hroom : Room env (s.x sp))
    (hm : Installed env m) (h : Restored env s m v c)
    (htext : ((Prog.asmSyscallHook.text.drop i).take 4) = retJump off)
    (hpc : c.pc = env.loc .asmSyscallHook i)
    (hoff : env.rgp + off.signExtend 64 = returnWord env j) :
    Surely (Calm env) (Step env) (fun c' => c'.pc = returnWord env j ∧
      Restored env s m v c' ∧ SameGhost c c') c := by
  have hstmt : ∀ k, k < 4 → Prog.asmSyscallHook.text[i + k]? = (retJump off)[k]? := by
    intro k hk
    rw [← htext, List.getElem?_take_of_lt hk, List.getElem?_drop]
  have hlt : i + 4 ≤ 98 := by
    have hlen := congrArg List.length htext
    rw [List.length_take, List.length_drop, show (retJump off).length = 4 from rfl,
      show Prog.asmSyscallHook.text.length = 98 from rfl] at hlen
    omega
  -- `la t0, relocated_global_pointer`.
  rcases step_la t0 hpc (hstmt 0 (by decide)) with ⟨hex, hall⟩
  refine Surely.next c (calm_step (hpc ▸ inside_asm (by omega)) hex) (fun c1 hc1 => ?_)
  have ha1 := hall c1 hc1
  have h1 := h.after hroom ha1
  -- `ld t0, 0(t0)`.
  have hld : Fetched env c1 (.load .double false t0 t0 0) (env.loc .asmSyscallHook (i + 1 + 1)) :=
    (fetches_stmt (p := .asmSyscallHook) m (hstmt 1 (by decide))).fetched ha1.pc
      (own_of_agree h1.mem)
  have ht01 : c1.get t0 = env.rgpVar := by
    rw [Core.get, ha1.x]
    exact get_set_self _ _ _ (by decide)
  rcases step_load_rgp hld ht01 (installed_of_own hm (own_of_agree h1.mem)) with ⟨hex1, hall1⟩
  refine Surely.next c1 (calm_step (ha1.pc ▸ inside_asm (by omega)) hex1) (fun c2 hc2 => ?_)
  have ha2 := hall1 c2 hc2
  have h2 := h1.after hroom ha2
  -- `addi t0, t0, off`.
  have hadd : Fetched env c2 (.addi t0 t0 off) (env.loc .asmSyscallHook (i + 2 + 1)) :=
    (fetches_stmt (p := .asmSyscallHook) m (hstmt 2 (by decide))).fetched ha2.pc
      (own_of_agree h2.mem)
  have ht02 : c2.get t0 + off.signExtend 64 = returnWord env j := by
    have heq : c2.get t0 = env.rgp := by
      rw [Core.get, ha2.x]
      exact get_set_self _ _ _ (by decide)
    rw [heq]
    exact hoff
  rcases step_addi hadd with ⟨hex2, hall2⟩
  rw [ht02] at hall2
  refine Surely.next c2 (calm_step (ha2.pc ▸ inside_asm (by omega)) hex2) (fun c3 hc3 => ?_)
  have ha3 := hall2 c3 hc3
  have h3 := h2.after hroom ha3
  -- `jr t0`.
  have hjump : Fetched env c3 (.jalr zero t0 0) (env.loc .asmSyscallHook (i + 3 + 1)) :=
    (fetches_stmt (p := .asmSyscallHook) m (hstmt 3 (by decide))).fetched ha3.pc
      (own_of_agree h3.mem)
  have ht03 : c3.get t0 = returnWord env j := by
    rw [Core.get, ha3.x]
    exact get_set_self _ _ _ (by decide)
  have heven : EvenAddr (returnWord env j) := by
    have hrgp := env.rgp_even
    simp only [EvenAddr, returnWord] at hrgp ⊢
    bv_omega
  rcases step_jalr hjump ht03 heven with ⟨hex3, hall3⟩
  refine Surely.single (calm_step (ha3.pc ▸ inside_asm (by omega)) hex3) (fun c4 hc4 => ?_)
  have ha4 := hall3 c4 hc4
  rw [set_zero] at ha4
  exact ⟨ha4.pc, h3.after_same hroom ha4,
    ((ha1.ghost.trans ha2.ghost).trans ha3.ghost).trans ha4.ghost⟩

/-- The two comparisons of `return_prelude`: `li t0, nr` and `beq a7, t0`. -/
theorem compare_inevitably {i : Nat} (nr : BitVec 12) (hroom : Room env (s.x sp))
    (h : Restored env s m v c)
    (hli : Prog.asmSyscallHook.text[i]? = some (.ins (.addi t0 zero nr)))
    (hbeq : Prog.asmSyscallHook.text[i + 1]? = some (.beq a7 t0 .doClone))
    (hpc : c.pc = env.loc .asmSyscallHook i) :
    Surely (Calm env) (Step env) (fun c' =>
      c'.pc = (if s.get a7 = nr.signExtend 64 then env.loc .asmSyscallHook Label.doClone.index
        else env.loc .asmSyscallHook (i + 2)) ∧
      Restored env s m v c' ∧ SameGhost c c') c := by
  have hfetch : Fetched env c (.addi t0 zero nr) (env.loc .asmSyscallHook (i + 1)) :=
    (fetches_stmt (p := .asmSyscallHook) m hli).fetched hpc (own_of_agree h.mem)
  have hlt : i + 1 < 98 := (List.getElem?_eq_some_iff.mp hbeq).1
  rcases step_addi hfetch with ⟨hex, hall⟩
  refine Surely.next c (calm_step (hpc ▸ inside_asm (by omega)) hex) (fun c1 hc1 => ?_)
  have ha1 := hall c1 hc1
  have h1 := h.after hroom ha1
  rcases step_beq a7 t0 .doClone ha1.pc hbeq with ⟨hex1, hall1⟩
  have ha7 : c1.get a7 = s.get a7 := h1.other a7 (by decide)
  have ht0 : c1.get t0 = nr.signExtend 64 := by
    rw [Core.get, ha1.x, get_set_self _ _ _ (by decide), Core.get, get_zero]
    exact BitVec.zero_add _
  rw [ha7, ht0] at hall1
  refine Surely.single (calm_step (ha1.pc ▸ inside_asm hlt) hex1) (fun c2 hc2 => ?_)
  have ha2 := hall1 c2 hc2
  exact ⟨ha2.pc, h1.after_same hroom ha2, ha1.ghost.trans ha2.ghost⟩

/-- The system calls that need the context restored before they are issued. -/
def isClone (nr : Word) : Prop := nr = 220 ∨ nr = 435

instance (nr : Word) : Decidable (isClone nr) :=
  inferInstanceAs (Decidable (nr = 220 ∨ nr = 435))

/-- `return_prelude` ends at return word 9 for `clone` and `clone3`, and at
    return word 4 for every other system call. -/
theorem prelude_inevitably (hroom : Room env (s.x sp)) (hm : Installed env m)
    (h : Restored env s m v c)
    (hpc : c.pc = env.loc .asmSyscallHook Label.returnPrelude.index) :
    Surely (Calm env) (Step env) (fun c' =>
      c'.pc = returnWord env (if isClone (s.get a7) then 9 else 4) ∧
      Restored env s m v c' ∧ SameGhost c c') c := by
  have h220 : (220 : BitVec 12).signExtend 64 = 220 := by decide
  have h435 : (435 : BitVec 12).signExtend 64 = 435 := by decide
  -- Both comparisons lead to the same jump.
  have hclone : ∀ c1 : Conf K, isClone (s.get a7) → Restored env s m v c1 →
      c1.pc = env.loc .asmSyscallHook Label.doClone.index → SameGhost c c1 →
      Surely (Calm env) (Step env) (fun c' =>
        c'.pc = returnWord env (if isClone (s.get a7) then 9 else 4) ∧
        Restored env s m v c' ∧ SameGhost c c') c1 := by
    intro c1 hnr h1 hpc1 hghost1
    rw [if_pos hnr]
    have hoff : env.rgp + (-20 : BitVec 12).signExtend 64 = returnWord env 9 :=
      rgp_add_offset env (by decide)
    refine (retJump_inevitably hroom hm h1 (i := Label.doClone.index) (by decide) hpc1
      hoff).mono ?_
    rintro c2 ⟨hpc2, h2, hghost2⟩
    exact ⟨hpc2, h2, hghost1.trans hghost2⟩
  -- `clone` is tested first, then `clone3`.
  refine (compare_inevitably (i := 82) 220 hroom h rfl rfl hpc).trans ?_
  rintro c1 ⟨hpc1, h1, hghost1⟩
  rw [h220] at hpc1
  by_cases hnr : s.get a7 = 220
  · rw [if_pos hnr] at hpc1
    exact hclone c1 (Or.inl hnr) h1 hpc1 hghost1
  · rw [if_neg hnr] at hpc1
    refine (compare_inevitably (i := 84) 435 hroom h1 rfl rfl hpc1).trans ?_
    rintro c2 ⟨hpc2, h2, hghost2⟩
    rw [h435] at hpc2
    by_cases hnr3 : s.get a7 = 435
    · rw [if_pos hnr3] at hpc2
      exact hclone c2 (Or.inr hnr3) h2 hpc2 (hghost1.trans hghost2)
    · rw [if_neg hnr3] at hpc2
      rw [if_neg (fun hc => hc.elim hnr hnr3)]
      have hoff : env.rgp + (-40 : BitVec 12).signExtend 64 = returnWord env 4 :=
        rgp_add_offset env (by decide)
      refine (retJump_inevitably hroom hm h2 (i := 86) (by decide) hpc2 hoff).mono ?_
      rintro c3 ⟨hpc3, h3, hghost3⟩
      exact ⟨hpc3, h3, (hghost1.trans hghost2).trans hghost3⟩

/-- A thread of the site `s` whose frame is closed: only `a0` and `gp` differ
    from the site. -/
structure Unwound (env : Env K) (s : Conf K) (m : Mem) (v : Word) (c : Conf K) : Prop where
  gp : c.x gp = s.pc + 4
  a0 : c.get a0 = v
  other : ∀ r, r ≠ RV64.a0 → r ≠ RV64.gp → c.get r = s.get r
  f : c.f = s.f
  mem : AgreeAbove env.stack (s.x sp) m c.mem

/-- A thread behind the site `s`, with `v` in `a0` and nothing else changed. -/
structure Resumed (env : Env K) (s : Conf K) (m : Mem) (v : Word) (c : Conf K) : Prop where
  pc : c.pc = s.pc + 4
  gp : c.x gp = env.rgp
  a0 : c.get a0 = v
  other : ∀ r, r ≠ RV64.a0 → r ≠ RV64.gp → c.get r = s.get r
  f : c.f = s.f
  mem : AgreeAbove env.stack (s.x sp) m c.mem

/-- A return word is fetched at its place. -/
theorem fetched_returnWord {i : Nat} {ins : Instr} (hm : Installed env m)
    (hi : (setupReturn.map decode)[i]? = some (some ins)) (hpc : c.pc = returnWord env i)
    {p : Addr} (hmem : AgreeAbove env.stack p m c.mem) :
    Fetched env c ins (returnWord env (i + 1)) :=
  (fetches_return hm hi).fetched hpc (own_of_agree hmem)

/-- The three instructions every return path has: `gp` and `t0` are loaded
    and the frame is closed. -/
theorem unwind_inevitably {i : Nat} (hi : i < 10) (hroom : Room env (s.x sp))
    (hm : Installed env m) (h : Restored env s m v c) (hpc : c.pc = returnWord env i)
    (hwords : ((setupReturn.map decode).drop i).take 3
      = [some (.load .double false gp sp 288), some (.load .double false t0 sp 0),
        some (.addi sp sp 304)]) :
    Surely (Calm env) (Step env) (fun c' => c'.pc = returnWord env (i + 3) ∧
      Unwound env s m v c' ∧ SameGhost c c') c := by
  have hf := frameAt_of_room hroom
  have htop := hf.base_le_top
  rw [frameBase_top] at htop
  have hword : ∀ k, k < 3 → (setupReturn.map decode)[i + k]?
      = [some (Instr.load .double false gp sp 288), some (.load .double false t0 sp 0),
        some (.addi sp sp 304)][k]? := by
    intro k hk
    rw [← hwords, List.getElem?_take_of_lt hk, List.getElem?_drop]
  -- ld gp, 288(sp)
  rcases step_load_frame hf h.sp (by decide)
    (fetched_returnWord hm (hword 0 (by decide)) hpc h.mem) with ⟨hex, hall⟩
  refine Surely.next c (calm_step (hpc ▸ inside_return (by omega)) hex) (fun c1 hc1 => ?_)
  have ha1 := hall c1 hc1
  have hsp1 : c1.x sp = frameBase (s.x sp) := by
    rw [ha1.x]
    exact h.sp
  have hkeep1 : AgreeAbove env.stack (frameBase (s.x sp)) c.mem c1.mem := h.sp ▸ ha1.mem
  have hmem1 : AgreeAbove env.stack (s.x sp) m c1.mem := h.mem.trans (hkeep1.mono htop)
  have hgp1 : c.mem.read (frameBase (s.x sp) + BitVec.ofNat 64 (288 : BitVec 12).toNat) 8
      = s.pc + 4 := h.ret
  rw [hgp1] at ha1
  -- ld t0, 0(sp)
  rcases step_load_frame hf hsp1 (by decide)
    (fetched_returnWord hm (hword 1 (by decide)) ha1.pc hmem1) with ⟨hex1, hall1⟩
  refine Surely.next c1 (calm_step (ha1.pc ▸ inside_return (by omega)) hex1) (fun c2 hc2 => ?_)
  have ha2 := hall1 c2 hc2
  have hsp2 : c2.x sp = frameBase (s.x sp) := by
    rw [ha2.x]
    exact hsp1
  have hmem2 : AgreeAbove env.stack (s.x sp) m c2.mem := hmem1.trans ((hsp1 ▸ ha2.mem).mono htop)
  have ht02 : c1.mem.read (frameBase (s.x sp) + BitVec.ofNat 64 (0 : BitVec 12).toNat) 8
      = s.get t0 := by
    rw [← h.temp]
    exact hf.read_slot hkeep1 (o := 0) (by decide)
  rw [ht02] at ha2
  -- addi sp, sp, 304
  rcases step_addi (fetched_returnWord hm (hword 2 (by decide)) ha2.pc hmem2) with
    ⟨hex2, hall2⟩
  refine Surely.single (calm_step (ha2.pc ▸ inside_return (by omega)) hex2) (fun c3 hc3 => ?_)
  have ha3 := hall2 c3 hc3
  have hsp3 : c2.get sp + (304 : BitVec 12).signExtend 64 = s.get sp := by
    have himm : (304 : BitVec 12).signExtend 64 = BitVec.ofNat 64 frameSize := by decide
    rw [himm]
    exact (congrArg (· + BitVec.ofNat 64 frameSize) hsp2).trans (frameBase_top _)
  have hmem3 : AgreeAbove env.stack (frameBase (s.x sp)) c2.mem c3.mem := hsp2 ▸ ha3.mem
  rw [hsp3, ha2.x, ha1.x] at ha3
  refine ⟨ha3.pc, ⟨?_, ?_, ?_, ha3.f.trans (ha2.f.trans (ha1.f.trans h.f)),
    hmem2.trans (hmem3.mono htop)⟩, (ha1.ghost.trans ha2.ghost).trans ha3.ghost⟩
  · rw [ha3.x]
    rfl
  · rw [Core.get, ha3.x]
    exact h.a0
  · intro r ha0 hgp
    rw [Core.get, ha3.x]
    by_cases hsp : r = sp
    · rw [hsp, get_set_self _ _ _ (by decide)]
    · rw [get_set_other _ _ _ _ hsp]
      by_cases ht0 : r = t0
      · rw [ht0, get_set_self _ _ _ (by decide)]
      · rw [get_set_other _ _ _ _ ht0, get_set_other _ _ _ _ hgp]
        refine h.other r (fun hmem => ?_)
        simp only [List.mem_cons, List.not_mem_nil, or_false] at hmem
        rcases hmem with h1 | h1 | h1 | h1
        · exact ha0 h1
        · exact ht0 h1
        · exact hsp h1
        · exact hgp h1

/-- The word right below `relocated_gp`, which all return paths end in: its
    link value is `relocated_gp`. -/
theorem final_jump (hm : Installed env m) (heven : EvenAddr s.pc)
    (hpc : c.pc = returnWord env 13) (h : Unwound env s m v c) :
    (∃ c', Step env c c') ∧ ∀ c', Step env c c' → Resumed env s m v c' ∧ SameGhost c c' := by
  have hfetch : Fetched env c (.jalr gp gp 0) (returnWord env 14) :=
    fetched_returnWord hm (by decide) hpc h.mem
  have heven4 : EvenAddr (s.pc + 4) := by
    simp only [EvenAddr] at heven ⊢
    bv_omega
  have hlink : returnWord env 14 = env.rgp := by
    simp only [returnWord]
    bv_omega
  rcases step_jalr hfetch (show c.get gp = s.pc + 4 from h.gp) heven4 with ⟨⟨d, hd⟩, hall⟩
  refine ⟨⟨d, hd.step⟩, fun c' hc' => ?_⟩
  have ha := hall c' hc'
  have hsp : c.x sp = s.x sp := h.other sp (by decide) (by decide)
  rw [hlink] at ha
  refine ⟨⟨ha.pc, ?_, ?_, ?_, ha.f.trans h.f, h.mem.trans (hsp ▸ ha.mem)⟩, ha.ghost⟩
  · rw [ha.x]
    rfl
  · rw [Core.get, ha.x]
    exact h.a0
  · intro r ha0 hgp
    rw [Core.get, ha.x, get_set_other _ _ _ _ hgp]
    exact h.other r ha0 hgp

/-- A jump inside the return words, seen from a closed frame. -/
theorem Unwound.jump {i : Nat} {imm : BitVec 21} (hm : Installed env m)
    (hi : (setupReturn.map decode)[i]? = some (some (.jal zero imm)))
    (hpc : c.pc = returnWord env i)
    (himm : returnWord env i + imm.signExtend 64 = returnWord env 13)
    (h : Unwound env s m v c) :
    Inevitably (Step env) (fun c' => c'.pc = returnWord env 13 ∧ Unwound env s m v c' ∧
      SameGhost c c') c := by
  have hsp : c.x RV64.sp = s.x RV64.sp := h.other RV64.sp (by decide) (by decide)
  rcases step_jal (fetched_returnWord hm hi hpc h.mem) (hpc ▸ himm) with ⟨⟨d, hd⟩, hall⟩
  refine Inevitably.single ⟨d, hd.step⟩ (fun c' hc' => ?_)
  have ha := hall c' hc'
  refine ⟨ha.pc, ⟨?_, ?_, ?_, ha.f.trans h.f, h.mem.trans (hsp ▸ ha.mem)⟩, ha.ghost⟩
  · rw [ha.x]
    exact h.gp
  · rw [Core.get, ha.x]
    exact h.a0
  · intro r ha0 hgp
    rw [Core.get, ha.x]
    exact h.other r ha0 hgp

/-- A return path that closes the frame with word `i` and jumps to the end. -/
theorem unwind_resumed {i : Nat} {imm : BitVec 21} (hlt : i < 10) (hroom : Room env (s.x sp))
    (heven : EvenAddr s.pc) (hm : Installed env m) (h : Restored env s m v c)
    (hpc : c.pc = returnWord env i)
    (hwords : ((setupReturn.map decode).drop i).take 3
      = [some (.load .double false gp sp 288), some (.load .double false t0 sp 0),
        some (.addi sp sp 304)])
    (hi : (setupReturn.map decode)[i + 3]? = some (some (.jal zero imm)))
    (himm : returnWord env (i + 3) + imm.signExtend 64 = returnWord env 13) :
    Inevitably (Step env) (fun c' => Resumed env s m v c' ∧ SameGhost c c') c := by
  refine (unwind_inevitably hlt hroom hm h hpc hwords).inevitably.trans ?_
  rintro c1 ⟨hpc1, h1, hghost1⟩
  refine (h1.jump hm hi hpc1 himm).trans ?_
  rintro c2 ⟨hpc2, h2, hghost2⟩
  rcases final_jump hm heven hpc2 h2 with ⟨hex, hall⟩
  refine Inevitably.single hex (fun c3 hc3 => ?_)
  rcases hall c3 hc3 with ⟨h3, hghost3⟩
  exact ⟨h3, (hghost1.trans hghost2).trans hghost3⟩

/-- The return path of handled system calls, from the dispatch on. -/
theorem handled_resumed (hroom : Room env (s.x sp)) (heven : EvenAddr s.pc)
    (hm : Installed env m) (h : Restored env s m v c)
    (hpc : c.pc = env.loc .asmSyscallHook 74) (ht0 : c.get t0 = 1) :
    Inevitably (Step env) (fun c' => Resumed env s m v c' ∧ SameGhost c c') c := by
  refine (dispatch_handled hroom h hpc ht0).inevitably.trans ?_
  rintro c1 ⟨hpc1, h1, hghost1⟩
  have hoff : env.rgp + (-56 : BitVec 12).signExtend 64 = returnWord env 0 :=
    rgp_add_offset env (by decide)
  refine (retJump_inevitably hroom hm h1 (i := Label.handledEcall.index) (by decide) hpc1
    hoff).inevitably.trans ?_
  rintro c2 ⟨hpc2, h2, hghost2⟩
  have himm : returnWord env 3 + (40 : BitVec 21).signExtend 64 = returnWord env 13 :=
    returnWord_jump env (by decide)
  refine (unwind_resumed (by decide) hroom heven hm h2 hpc2 (by decide) (by decide) himm).mono ?_
  rintro c3 ⟨h3, hghost3⟩
  exact ⟨h3, (hghost1.trans hghost2).trans hghost3⟩

/-- The normal return path after its system call. -/
theorem forwarded_resumed (hroom : Room env (s.x sp)) (heven : EvenAddr s.pc)
    (hm : Installed env m) (h : Restored env s m v c) (hpc : c.pc = returnWord env 5) :
    Inevitably (Step env) (fun c' => Resumed env s m v c' ∧ SameGhost c c') c := by
  have himm : returnWord env 8 + (20 : BitVec 21).signExtend 64 = returnWord env 13 :=
    returnWord_jump env (by decide)
  exact unwind_resumed (by decide) hroom heven hm h hpc (by decide) (by decide) himm

end Exits

end Vpoline
