import Vpoline.Theory.Return

/-!
# Calling the Hook

`syscall_hook` and the contract between vpoline and a hook.

`HookEntry` is what vpoline promises a hook: the system call number and its
six arguments, a place for the result, and a stack pointer below both frames.
`Returned` is what a hook owes in return, which is the calling convention:
the stack pointer and the preserved registers are back, and the live frames,
vpoline's code and its activation record are as they were. Everything else
may have changed, memory included.

`syscall_hook` itself is one step each way. What the compiler spilled is in
the activation record, and `HookEntered` keeps track of it for the way back.

## Main definitions

* `InFrame`: The bytes of the frame of a site.
* `hookSp`, `resultCell`: Where the hook finds its stack and its result.
* `HookEntry`: A thread at the first instruction of the hook.
* `HookEntered`: The same, with the context saved below.
* `Returned`: A hook has returned as the calling convention asks.

## Theorems

* `called_null`: `syscall_hook` without a hook.
* `called_hook`: `syscall_hook` calls the hook.
* `returned_answered`: `syscall_hook` after the hook has returned.
-/

namespace Vpoline

open RV64

variable {K : Type} {env : Env K}

/-- The bytes of the frame the trampoline opened for the site `s`. -/
def InFrame (s : Conf K) (a : Addr) : Prop := frameBase (s.x sp) ≤ a ∧ a < s.x sp

/-- The stack pointer a hook is entered with. -/
def hookSp (env : Env K) (s : Conf K) : Addr :=
  frameBase (s.x sp) - BitVec.ofNat 64 env.cframe

/-- The variable `result` of `syscall_hook`. -/
def resultCell (env : Env K) (s : Conf K) : Addr := hookSp env s + BitVec.ofNat 64 env.resultOff

/-- A thread of the site `s` at the first instruction of the hook. -/
structure HookEntry (env : Env K) (s e : Conf K) : Prop where
  hook : env.hookFn s.mem ≠ 0
  pc : e.pc = jumpTarget (env.hookFn s.mem)
  number : e.x a0 = s.x a7
  arg0 : e.x a1 = s.x a0
  arg1 : e.x a2 = s.x a1
  arg2 : e.x a3 = s.x a2
  arg3 : e.x a4 = s.x a3
  arg4 : e.x a5 = s.x a4
  arg5 : e.x a6 = s.x a5
  result : e.x a7 = resultCell env s
  ra : e.x ra = env.hookRet
  sp : e.x sp = hookSp env s
  gp : e.x gp = env.rgp
  tp : e.x tp = s.x tp
  mem : AgreeAbove env.stack (s.x RV64.sp) s.mem e.mem
  kst : e.kst = s.kst
  trace : e.trace = s.trace ++ [.hookCall e.toCore s.kst]

/-- The same together with what is waiting below: the saved context and the
    activation record of `syscall_hook`. -/
structure HookEntered (env : Env K) (s : Conf K) (act : Activation) (e : Conf K) : Prop
    extends HookEntry env s e where
  activations : e.activations = act :: s.activations
  act_a0 : act.a0 = s.x a0
  act_ra : act.ra = env.loc .asmSyscallHook 39
  callee : ∀ r, calleeSaved r → act.saved r = some (s.x r) ∨ act.saved r = none ∧ e.x r = s.x r
  calleeF : ∀ r, calleeSaved r →
    act.savedF r = some (s.f r) ∨ act.savedF r = none ∧ e.f r = s.f r
  saved : Saved s e.mem

/-- A hook that was entered in `e` has returned in `r` as the calling
    convention asks, with the bytes `live` untouched. -/
structure Returned (env : Env K) (live : Addr → Prop) (e r : Conf K) : Prop where
  pc : r.pc = jumpTarget (e.x ra)
  sp : r.x sp = e.x sp
  gp : r.x gp = e.x gp
  tp : r.x tp = e.x tp
  callee : ∀ q, calleeSaved q → r.x q = e.x q
  calleeF : ∀ q, calleeSaved q → r.f q = e.f q
  live : ∀ a, live a → r.mem a = e.mem a
  installed : Installed env r.mem
  activations : r.activations = e.activations
  trace : e.trace <+: r.trace

theorem hookFn_of_own {m m' : Mem} (heq : ∀ a, env.own a → m' a = m a) :
    env.hookFn m' = env.hookFn m := by
  refine Mem.read_congr (fun k hk => heq _ (Or.inr (Or.inr ?_)))
  bv_omega

/-- A slot reads the same in memories that agree on the frame. -/
theorem read_inFrame {s : Conf K} {m m' : Mem} (hroom : Room env (s.x sp))
    (heq : ∀ a, InFrame s a → m' a = m a) {o : Nat} (ho : o + 8 ≤ frameSize) :
    m'.read (frameBase (s.x sp) + BitVec.ofNat 64 o) 8
      = m.read (frameBase (s.x sp) + BitVec.ofNat 64 o) 8 := by
  have hf := frameAt_of_room hroom
  have htop := frameBase_top (s.x sp)
  refine Mem.read_congr (fun k hk => heq _ ?_)
  have hfits := hf.fits
  have hsmall := hf.small
  constructor <;> bv_omega

/-- Saved contexts survive any change outside the frame. -/
theorem Saved.of_frame {s : Conf K} {m m' : Mem} (hroom : Room env (s.x sp)) (h : Saved s m)
    (heq : ∀ a, InFrame s a → m' a = m a) : Saved s m' := by
  have hfit : ∀ k ∈ contextSlots, k.off + 8 ≤ frameSize := by decide
  exact ⟨fun k hk => (read_inFrame hroom heq (hfit k hk)).trans (h.context k hk),
    (read_inFrame hroom heq (by decide)).trans h.ret⟩

/-- The frame is not below its base. -/
theorem inFrame_not_below {s : Conf K} {a : Addr} (h : InFrame s a) :
    ¬ (env.stack a ∧ a < frameBase (s.x sp)) := by
  rintro ⟨_, hlt⟩
  have hle := h.1
  bv_omega

/-- A thread about to execute `syscall_hook`. -/
theorem step_syscallHook {s c : Conf K} (h : Called env s c) (c' : Conf K) :
    Step env c c' ↔ ∃ m, AgreeAbove env.stack (frameBase (s.x sp)) c.mem m ∧
      (SyscallHookNull env { c with mem := m } c' ∨
        ∃ act, SyscallHookCall env act { c with mem := m } c') := by
  have hregion : env.region c.pc = .syscallHook := by
    rw [h.pc]
    exact env.region_syscallHook
  simp only [Step, Exec, hregion, h.sp]

/-- The value of `hook_fn` has not changed since the site. -/
theorem Called.hookFn {s c : Conf K} {m : Mem} (h : Called env s c)
    (hm : AgreeAbove env.stack (frameBase (s.x RV64.sp)) c.mem m) :
    env.hookFn m = env.hookFn s.mem :=
  (hookFn_of_own (own_of_agree hm)).trans (hookFn_of_own (own_of_agree h.mem))

/-- Without a hook, `syscall_hook` answers that the call is to be forwarded. -/
theorem called_null {s c : Conf K} (hroom : Room env (s.x sp)) (hinst : Installed env s.mem)
    (h : Called env s c) (hnull : env.hookFn s.mem = 0) :
    (∃ c', Quiet env c c') ∧ ∀ c', Step env c c' → Answered env s c' ∧
      c'.get a0 = s.get a0 ∧ c'.get a1 = 0 ∧ AgreeAbove env.stack (s.x sp) s.mem c'.mem ∧
      SameGhost s c' := by
  have hf := frameAt_of_room hroom
  have htop := hf.base_le_top
  rw [frameBase_top] at htop
  have hother : ∀ r, r ∉ zero :: ra :: a6 :: entryClobbered → c.x r = s.x r := h.other
  refine ⟨quiet_syscallHook h.pc, fun c' hc' => ?_⟩
  rcases (step_syscallHook h c').mp hc' with ⟨m, hm, hnil | ⟨act, hcall⟩⟩
  · -- What the C code may change is below the frame of the site.
    have hkeep : AgreeAbove env.stack (frameBase (s.x sp)) c.mem c'.mem := by
      have hmem := hnil.mem
      rw [show ({ c with mem := m } : Conf K).x sp = frameBase (s.x sp) from h.sp] at hmem
      exact hm.trans hmem
    have hmem : AgreeAbove env.stack (s.x sp) s.mem c'.mem := h.mem.trans (hkeep.mono htop)
    refine ⟨⟨?_, hnil.sp.trans h.sp, hnil.gp.trans h.gp, ?_, ?_, ?_, ?_, ?_⟩, ?_, hnil.a1, hmem,
      h.ghost.trans ⟨hnil.activations, hnil.kst, hnil.trace⟩⟩
    · rw [hnil.pc]
      exact (congrArg jumpTarget h.ra).trans (jumpTarget_even (env.loc_even _ _))
    · exact hnil.tp.trans (hother tp (by decide))
    · intro r hr
      have hout : ∀ q, calleeSaved q → q ∉ zero :: ra :: a6 :: entryClobbered := by decide
      exact (hnil.saved r hr).trans (hother r (hout r hr))
    · intro r hr
      exact (hnil.savedF r hr).trans (congrFun h.f r)
    · exact h.saved.of_frame hroom (fun a ha => hkeep a (inFrame_not_below ha))
    · exact installed_of_own hinst (own_of_agree hmem)
    · exact hnil.a0.trans (hother a0 (by decide))
  · -- There is no hook to be called.
    exact absurd ((h.hookFn hm).trans hnull) hcall.hook

/-- With a hook, `syscall_hook` calls it. -/
theorem called_hook {s c : Conf K} (hroom : Room env (s.x sp)) (h : Called env s c)
    (hhook : env.hookFn s.mem ≠ 0) :
    (∃ c', Quiet env c c') ∧ ∀ c', Step env c c' → ∃ act, HookEntered env s act c' := by
  have hf := frameAt_of_room hroom
  have htop := hf.base_le_top
  rw [frameBase_top] at htop
  have hother : ∀ r, r ∉ zero :: ra :: a6 :: entryClobbered → c.x r = s.x r := h.other
  refine ⟨quiet_syscallHook h.pc, fun e he => ?_⟩
  rcases (step_syscallHook h e).mp he with ⟨m, hm, hnil | ⟨act, hcall⟩⟩
  · -- The null test reads the same variable as at the site.
    exact absurd ((h.hookFn hm).symm.trans hnil.null) hhook
  · have hsp : ({ c with mem := m } : Conf K).x sp = frameBase (s.x sp) := h.sp
    have hkeep : AgreeAbove env.stack (frameBase (s.x sp)) c.mem e.mem := by
      have hmem := hcall.mem
      rw [hsp] at hmem
      exact hm.trans hmem
    have hout : ∀ q, calleeSaved q → q ∉ zero :: ra :: a6 :: entryClobbered := by decide
    refine ⟨act, ⟨⟨hhook, ?_, ?_, ?_, ?_, ?_, ?_, ?_, ?_, ?_, hcall.ra, ?_, ?_, ?_, ?_, ?_, ?_⟩,
      ?_, ?_, ?_, ?_, ?_, ?_⟩⟩
    · rw [hcall.pc]
      exact congrArg jumpTarget (h.hookFn hm)
    · -- The arguments move up by one, behind the number of the call.
      exact hcall.a0.trans (hother a7 (by decide))
    · exact hcall.a1.trans (hother a0 (by decide))
    · exact hcall.a2.trans (hother a1 (by decide))
    · exact hcall.a3.trans (hother a2 (by decide))
    · exact hcall.a4.trans (hother a3 (by decide))
    · exact hcall.a5.trans (hother a4 (by decide))
    · exact hcall.a6.trans (hother a5 (by decide))
    · -- The eighth argument is the cell for the result.
      rw [hcall.a7, hsp]
      rfl
    · rw [hcall.sp, hsp]
      rfl
    · exact hcall.gp.trans h.gp
    · exact hcall.tp.trans (hother tp (by decide))
    · exact h.mem.trans (hkeep.mono htop)
    · exact hcall.kst.trans h.ghost.kst
    · rw [hcall.trace, ← h.ghost.trace, ← h.ghost.kst]
    · rw [hcall.activations, ← h.ghost.activations]
    · exact hcall.act_a0.trans (hother a0 (by decide))
    · exact hcall.act_ra.trans h.ra
    -- What the compiler spills are values of the site.
    · intro r hr
      rw [← hother r (hout r hr)]
      exact hcall.saved r hr
    · intro r hr
      rw [← h.f]
      exact hcall.savedF r hr
    · exact h.saved.of_frame hroom (fun a ha => hkeep a (inFrame_not_below ha))

/-- The frame of `syscall_hook` lies between the hook's stack pointer and the
    frame of the site. -/
theorem hookSp_le {s : Conf K} (hroom : Room env (s.x sp)) :
    hookSp env s ≤ frameBase (s.x sp) := by
  have hfits := hroom.fits
  have hsmall := env.cframe_small
  have hframe : frameSize = 304 := rfl
  simp only [hookSp, frameBase, hframe] at hfits ⊢
  bv_omega

theorem hookSp_add {s : Conf K} :
    hookSp env s + BitVec.ofNat 64 env.cframe = frameBase (s.x sp) := by
  simp only [hookSp]
  bv_omega

/-- What `syscall_hook` makes of a hook's answer. -/
structure Decoded (env : Env K) (s r c : Conf K) : Prop where
  answered : Answered env s c
  a0 : c.get a0 = if forwardToKernel r.x then s.get RV64.a0 else r.mem.read (resultCell env s) 8
  a1 : c.get a1 = if forwardToKernel r.x then 0 else 1
  mem : AgreeAbove env.stack (s.x sp) r.mem c.mem
  activations : c.activations = s.activations
  kst : c.kst = r.kst
  trace : ∃ m, AgreeAbove env.stack (hookSp env s) r.mem m ∧
    c.trace = r.trace ++ [.hookReturn { r.toCore with mem := m } r.kst]

/-- `syscall_hook` turns a hook's answer into its own. -/
theorem returned_answered {s e r : Conf K} {act : Activation} {live : Addr → Prop}
    (hroom : Room env (s.x sp)) (he : HookEntered env s act e) (hr : Returned env live e r)
    (hlive : ∀ a, InFrame s a → live a) :
    (∃ c', Quiet env r c') ∧ ∀ c', Step env r c' → Decoded env s r c' := by
  have hpc : r.pc = env.hookRet := by
    rw [hr.pc, he.ra]
    exact jumpTarget_even env.hookRet_even
  have hsp : r.x sp = hookSp env s := hr.sp.trans he.sp
  have hacts : r.activations = act :: s.activations := hr.activations.trans he.activations
  have hstep : ∀ c', Step env r c' ↔ ∃ m, AgreeAbove env.stack (hookSp env s) r.mem m ∧
      ∃ act' rest, SyscallHookReturn env act' rest { r with mem := m } c' := by
    intro c'
    have hregion : env.region r.pc = .hookReturn := by
      rw [hpc]
      exact env.region_hookRet
    simp only [Step, Exec, hregion, hsp]
  refine ⟨quiet_hookRet hpc (hacts ▸ List.cons_ne_nil _ _), fun c' hc' => ?_⟩
  rcases (hstep c').mp hc' with ⟨m, hm, act', rest, hret⟩
  have hpend : act :: s.activations = act' :: rest := hacts.symm.trans hret.pending
  rw [List.cons.injEq] at hpend
  -- The record that `syscall_hook` returns with is the one that the call left.
  rcases hpend with ⟨rfl, rfl⟩
  have hf := frameAt_of_room hroom
  have htop := hf.base_le_top
  rw [frameBase_top] at htop
  have hsp' : ({ r with mem := m } : Conf K).x sp = hookSp env s := hsp
  have hkeep : AgreeAbove env.stack (frameBase (s.x sp)) r.mem c'.mem := by
    have hmem := hret.mem
    rw [hsp', hookSp_add] at hmem
    exact (hm.mono (hookSp_le hroom)).trans hmem
  -- The result is in the frame of `syscall_hook`, above the stack pointer.
  have hresult : m.read (resultCell env s) 8 = r.mem.read (resultCell env s) 8 := by
    refine hm.read (fun k hk hlt => ?_)
    have hfits := hroom.fits
    have hsmall := env.cframe_small
    have hres := env.result_fits
    have hframe : frameSize = 304 := rfl
    simp only [resultCell, hookSp, frameBase, hframe] at hfits hlt
    bv_omega
  refine ⟨⟨?_, ?_, ?_, ?_, ?_, ?_, ?_, ?_⟩, ?_, hret.a1, hkeep.mono htop, hret.activations,
    hret.kst, ⟨m, hm, hret.trace⟩⟩
  · rw [hret.pc, he.act_ra]
    exact jumpTarget_even (env.loc_even _ _)
  · rw [hret.sp, hsp', hookSp_add]
  · exact hret.gp.trans (hr.gp.trans he.gp)
  · exact hret.tp.trans (hr.tp.trans he.tp)
  -- A preserved register comes from the record if it was spilled, and from the hook if
  -- not.
  · intro q hq
    rw [hret.saved q hq]
    rcases he.callee q hq with hsome | ⟨hnone, hkept⟩
    · rw [hsome, Option.getD_some]
    · rw [hnone, Option.getD_none]
      exact (hr.callee q hq).trans hkept
  · intro q hq
    rw [hret.savedF q hq]
    rcases he.calleeF q hq with hsome | ⟨hnone, hkept⟩
    · rw [hsome, Option.getD_some]
    · rw [hnone, Option.getD_none]
      exact (hr.calleeF q hq).trans hkept
  -- The frame was among the live bytes, so the hook has kept it.
  · exact he.saved.of_frame hroom
      (fun a ha => (hkeep a (inFrame_not_below ha)).trans (hr.live a (hlive a ha)))
  · exact installed_of_own hr.installed (own_of_agree hkeep)
  · have ha0 := hret.a0
    rw [hsp', he.act_a0] at ha0
    refine ha0.trans ?_
    exact congrArg (fun v => if forwardToKernel r.x then s.get RV64.a0 else v) hresult

end Vpoline
