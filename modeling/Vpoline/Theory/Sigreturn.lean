import Vpoline.Theory.Transparency

/-!
# `rt_sigreturn`

The one system call that vpoline does not offer to the hook. The kernel finds
the signal frame at the stack pointer, so the call has to be issued with the
stack pointer of the site.

`asm_syscall_hook` branches off before it saves anything, reloads `t1`-`t3`,
and joins the forwarded path at `return_prelude`. That path issues its system
call at return word 4, before the three instructions that close the frame. So
the call is issued with everything as at the site except the stack pointer,
which is still 304 bytes below it.

## Main definitions

* `Issuing`: A thread about to execute a system call.
* `ForwardedInContext`: The call is issued with the stack pointer and the
  registers of the site.

## Theorems

* `step_trace`, `run_trace`: The trace only grows.
* `issuing_trace`: It grows at a system call.
* `entered_sigreturn`: The early exit of `asm_syscall_hook`.
* `sigreturn_issues`: The call is issued inside the open frame.
* `sigreturn_never_in_context`: It is never issued in the context of the site.
-/

namespace Vpoline

open RV64

variable {K : Type} {env : Env K}

/-- The thread is about to execute a system call. -/
def Issuing (env : Env K) (c : Conf K) : Prop := ∃ next, Fetched env c .ecall next

/-- The registers that `rt_sigreturn` is to be issued with, `sp` apart. -/
def sigreturnRegs : List Reg :=
  [a0, a1, a2, a3, a4, a5, a6, a7, ra, t1, t2, t3, t4, t5, t6]

/-- vpoline has not called the hook, and issues its first system call with
    the stack pointer and the registers of the site. -/
structure IssuedInContext (env : Env K) (s c : Conf K) : Prop where
  issuing : Issuing env c
  trace : c.trace = s.trace
  sp : c.x sp = s.x sp
  regs : ∀ r ∈ sigreturnRegs, c.get r = s.get r

/-- On every run from the site `s`, the call is issued in its context. -/
def ForwardedInContext (env : Env K) (s : Conf K) : Prop :=
  Inevitably (Step env) (IssuedInContext env s) s

theorem execInstr_trace {next : Addr} {c c' : Conf K} {ins : Instr}
    (h : ExecInstr env next c ins c') : c.trace <+: c'.trace := by
  cases h with
  | step _ core _ => exact List.prefix_rfl
  | ecall res m k' _ => exact List.prefix_append _ _

/-- An instruction forgets nothing that has been observed. -/
theorem exec_trace {c c' : Conf K} (he : Exec env c c') : c.trace <+: c'.trace := by
  simp only [Exec] at he
  split at he
  · rcases he with ⟨ins, _, hins⟩
    exact execInstr_trace hins
  · rcases he with ⟨stmt, _, hstmt⟩
    cases hstmt with
    | ins i _ hins => exact execInstr_trace hins
    | la rd => exact List.prefix_rfl
    | beq rs1 rs2 target => exact List.prefix_rfl
    | j target => exact List.prefix_rfl
    | call => exact List.prefix_rfl
  · rcases he with hnull | ⟨act, hcall⟩
    · refine ⟨[], ?_⟩
      rw [List.append_nil, hnull.trace]
    · rw [hcall.trace]
      exact List.prefix_append _ _
  · rcases he with ⟨act, rest, hret⟩
    rw [hret.trace]
    exact List.prefix_append _ _
  · exact env.foreign_trace _ _ he

theorem step_trace {c c' : Conf K} (h : Step env c c') : c.trace <+: c'.trace := by
  rcases h with ⟨m, _, he⟩
  exact exec_trace (c := { c with mem := m }) he

theorem run_trace {c c' : Conf K} (h : Relation.ReflTransGen (Step env) c c') :
    c.trace <+: c'.trace :=
  invariant_run (I := fun d => c.trace <+: d.trace) (fun _ _ ht hst => ht.trans (step_trace hst))
    List.prefix_rfl h

/-- After a system call the trace is longer for good. -/
theorem issuing_trace {c c' d : Conf K} (h : Issuing env c) (hstep : Step env c c')
    (hrun : Relation.ReflTransGen (Step env) c' d) : d.trace ≠ c.trace := by
  rcases h with ⟨next, hfetch⟩
  -- The call itself is recorded, and nothing is ever removed.
  rcases (step_ecall hfetch c').mp hstep with ⟨m, res, m', k', _, _, rfl⟩
  intro heq
  have hlen := (run_trace hrun).length_le
  rw [heq] at hlen
  simp only [Conf.afterEcall, List.length_append, List.length_singleton] at hlen
  omega

/-- The three temporaries the early exit reloads. -/
theorem sigreturn_run {s : Conf K} {y : Sym} (h : Entered env s y) :
    ∃ y', y.run frameSize (trampolineSlots.tail.map Slot.restore) = some y' ∧
      y'.slots = y.slots ∧ y'.x.get gp = env.rgp ∧
      (∀ r, r ∉ [t0, sp, gp] → y'.x.get r = s.get r) ∧ y'.f = s.f := by
  have htail : ∀ k ∈ trampolineSlots.tail, k ∈ trampolineSlots ∧ k.off < 4096 := by decide
  have hregs : ∀ k ∈ trampolineSlots.tail, k.float = false → k.reg ≠ sp ∧ k.reg ≠ 0 := by decide
  rcases run_restores frameSize (fun k => s.get k.reg) trampolineSlots.tail y
    (fun k hk => ⟨h.temps k (htail k hk).1, (htail k hk).2⟩) hregs (by decide) with
    ⟨y', hrun, hslots, hval, hother⟩
  have hint : ∀ k ∈ trampolineSlots.tail, k.float = false := by decide
  refine ⟨y', hrun, hslots, ?_, ?_, ?_⟩
  · -- `gp` is not among the registers that are reloaded.
    have hgp := hother ⟨false, gp, 0⟩ (by decide)
    exact hgp.trans h.gp
  · intro r hr
    by_cases hin : r ∈ entryClobbered
    · -- What is left of the clobbered registers are the three temporaries.
      have hslot : ∀ q : Reg, q ∉ [t0, sp, gp] → q ∈ entryClobbered →
          ∃ k ∈ trampolineSlots.tail, k.reg = q := by decide
      rcases hslot r hr hin with ⟨k, hk, rfl⟩
      have hv := hval k hk
      simp only [Sym.value, hint k hk, Bool.false_eq_true, if_false] at hv
      exact hv
    · have hout : ∀ q : Reg, q ∉ entryClobbered → ∀ k ∈ trampolineSlots.tail,
          OtherReg ⟨false, q, 0⟩ k := by decide
      exact (hother ⟨false, r, 0⟩ (hout r hin)).trans (h.other r hin)
  · funext r
    have hout : ∀ q : Reg, ∀ k ∈ trampolineSlots.tail, OtherReg ⟨true, q, 0⟩ k := by decide
    exact (hother ⟨true, r, 0⟩ (hout r)).trans (congrFun h.f r)

/-- From the `rt_sigreturn` check to `return_prelude`, by the early exit. -/
theorem entered_sigreturn {s c : Conf K} {y : Sym} (hroom : Room env (s.x sp))
    (ha7 : s.get a7 = 139) (hpc : c.pc = env.loc .asmSyscallHook 5)
    (hmod : Models env.stack (frameBase (s.x sp)) frameSize s.mem y c.toCore)
    (hent : Entered env s y) :
    Surely (Calm env) (Step env) (fun c' =>
      c'.pc = env.loc .asmSyscallHook Label.returnPrelude.index ∧
      Restored env s s.mem (s.get a0) c' ∧ SameGhost c c') c := by
  have hf := frameAt_of_room hroom
  -- The branch is taken.
  rcases step_beq a7 t0 .doRtSigreturn hpc rfl with ⟨hex, hall⟩
  have heq : c.get a7 = c.get t0 := by
    rw [Core.get, Core.get, hmod.x, hent.t0, hent.other a7 (by decide)]
    exact ha7
  rw [if_pos heq] at hall
  refine Surely.next c (calm_step (hpc ▸ inside_asm (by decide)) hex) (fun c1 hc1 => ?_)
  have ha1 := hall c1 hc1
  have hmod1 := hmod.after hf ha1 ((congrFun hmod.x sp).trans hmod.sp)
  rw [hmod.x] at hmod1
  -- Three reloads and a jump.
  rcases sigreturn_run hent with ⟨y2, hrun, hslots, hgp, hother, hf2⟩
  have hplaced : Placed env s.mem (fun j => env.loc .asmSyscallHook (94 + j))
      (trampolineSlots.tail.map Slot.restore) := placed_stmts s.mem (by decide)
  have hlen : (trampolineSlots.tail.map Slot.restore).length = 3 := rfl
  refine (run_segment hf _ _ _ c1 hplaced (fun j hj => inside_asm (by omega)) hrun hmod1
    ha1.pc).trans ?_
  rintro c2 ⟨hpc2, hmod2, hghost2⟩
  rcases step_j .returnPrelude hpc2 rfl with ⟨hex2, hall2⟩
  refine Surely.single (calm_step (hpc2 ▸ inside_asm (by decide)) hex2) (fun c3 hc3 => ?_)
  have ha3 := hall2 c3 hc3
  have hmod3 := hmod2.after hf ha3 ((congrFun hmod2.x sp).trans hmod2.sp)
  rw [hmod2.x] at hmod3
  have hget : ∀ r, r ∉ [t0, sp, gp] → c3.get r = s.get r := fun r hr => by
    rw [Core.get, hmod3.x]
    exact hother r hr
  have hmem := hmod3.mem
  rw [frameBase_top] at hmem
  refine ⟨ha3.pc, ⟨(congrFun hmod3.x sp).trans hmod3.sp, (congrFun hmod3.x gp).trans hgp,
    hget a0 (by decide), fun r hr => hget r (fun h => hr (List.mem_cons_of_mem _ h)),
    hmod3.f.trans hf2, ?_, ?_, hmem⟩, (ha1.ghost.trans hghost2).trans ha3.ghost⟩
  · refine (hmod3.slots 0 _ ?_).2
    rw [hslots]
    exact hent.temps ⟨false, t0, 0⟩ (by decide)
  · refine (hmod3.slots 288 _ ?_).2
    rw [hslots]
    exact hent.ret

/-- Every run from a site with `rt_sigreturn` issues the call without having
    called the hook, with every register of the site but `t0`, `sp` and `gp`,
    and with the stack pointer 304 bytes too low. -/
theorem sigreturn_issues {s : Conf K} (hs : AtSite env s) (ha7 : s.get a7 = 139) :
    Inevitably (Step env) (fun c => Issuing env c ∧ c.trace = s.trace ∧
      c.x sp = frameBase (s.x sp) ∧ ∀ r, r ∉ [t0, sp, gp] → c.get r = s.get r) s := by
  refine (site_entered hs).trans ?_
  rintro c ⟨hpc, y, hmod, hent, hghost⟩
  refine ((entered_sigreturn hs.room ha7 hpc hmod hent).trans ?_).inevitably
  rintro c1 ⟨hpc1, h1, hghost1⟩
  refine (prelude_inevitably hs.room hs.installed h1 hpc1).mono ?_
  rintro c2 ⟨hpc2, h2, hghost2⟩
  -- The prelude tests for `clone` and `clone3`, and takes the normal path.
  have hnr : ¬ isClone (s.get a7) := by
    rw [ha7]
    decide
  rw [if_neg hnr] at hpc2
  refine ⟨⟨_, fetched_returnWord hs.installed (by decide) hpc2 h2.mem⟩,
    ((hghost.trans hghost1).trans hghost2).trace, h2.sp, fun r hr => ?_⟩
  by_cases ha0 : r = a0
  · rw [ha0]
    exact h2.a0
  · exact h2.other r (fun h => hr ((List.mem_cons.mp h).resolve_left ha0))

theorem frameBase_ne (p : Addr) : frameBase p ≠ p := by
  have hframe : frameSize = 304 := rfl
  rw [frameBase, hframe]
  bv_omega

/-- A first system call with another stack pointer excludes one in context:
    only one of the two can be the first. -/
theorem not_forwardedInContext {s : Conf K}
    (h : Inevitably (Step env) (fun c => Issuing env c ∧ c.trace = s.trace ∧
      c.x sp = frameBase (s.x sp)) s) : ¬ ForwardedInContext env s := by
  intro hctx
  have hboth : ∃ c, Relation.ReflTransGen (Step env) s c ∧
      (Issuing env c ∧ c.trace = s.trace ∧ c.x sp = frameBase (s.x sp)) ∧
      IssuedInContext env s c := by
    -- On one run both are met, and neither can come after the other.
    refine Inevitably.meet ?_ ?_ h hctx
    · rintro c c' d ⟨hissue, htrace, _⟩ hstep hrun hin
      exact issuing_trace hissue hstep hrun (hin.trace.trans htrace.symm)
    · rintro c c' d hin hstep hrun ⟨_, htrace, _⟩
      exact issuing_trace hin.issuing hstep hrun (htrace.trans hin.trace.symm)
  rcases hboth with ⟨c, _, ⟨_, _, hsp⟩, hin⟩
  rw [hin.sp] at hsp
  exact frameBase_ne _ hsp.symm

/-- `rt_sigreturn` is never issued in the context of its site. -/
theorem sigreturn_never_in_context {s : Conf K} (hs : AtSite env s) (ha7 : s.get a7 = 139) :
    ¬ ForwardedInContext env s :=
  not_forwardedInContext ((sigreturn_issues hs ha7).mono
    (fun _ h => ⟨h.1, h.2.1, h.2.2.1⟩))

/-- The site of the flat process, for example. -/
theorem sigreturn_never_in_context_flat :
    ¬ ForwardedInContext (flatEnv (flatHook 1) flatKernel (flatHook_trace 1))
      (flatSite (flatEnv (flatHook 1) flatKernel (flatHook_trace 1)) 0x50000 139 0) :=
  sigreturn_never_in_context (flatSite_atSite _ _ _) rfl

/-- There the call is issued with the stack pointer at `0x7ffefed0`, while the
    signal frame is at `0x7fff0000`. -/
theorem sigreturn_wrong_sp :
    (flatSite (flatEnv (flatHook 1) flatKernel (flatHook_trace 1)) 0x50000 139 0).x sp
        = 0x7fff0000 ∧
      Inevitably (Step (flatEnv (flatHook 1) flatKernel (flatHook_trace 1)))
        (fun c => Issuing (flatEnv (flatHook 1) flatKernel (flatHook_trace 1)) c ∧
          c.trace = [] ∧ c.x sp = 0x7ffefed0)
        (flatSite (flatEnv (flatHook 1) flatKernel (flatHook_trace 1)) 0x50000 139 0) ∧
      ¬ ForwardedInContext (flatEnv (flatHook 1) flatKernel (flatHook_trace 1))
        (flatSite (flatEnv (flatHook 1) flatKernel (flatHook_trace 1)) 0x50000 139 0) := by
  have hsite : AtSite (flatEnv (flatHook 1) flatKernel (flatHook_trace 1))
      (flatSite (flatEnv (flatHook 1) flatKernel (flatHook_trace 1)) 0x50000 139 0) :=
    flatSite_atSite _ _ _
  have hissues := sigreturn_issues hsite rfl
  refine ⟨rfl, hissues.mono (fun c h => ⟨h.1, h.2.1, h.2.2.1.trans ?_⟩),
    not_forwardedInContext (hissues.mono (fun _ h => ⟨h.1, h.2.1, h.2.2.1⟩))⟩
  exact show frameBase 0x7fff0000 = 0x7ffefed0 by decide

end Vpoline
