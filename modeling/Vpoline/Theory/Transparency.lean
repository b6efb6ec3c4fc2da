import Vpoline.Theory.Hook
import Vpoline.Theory.Install

/-!
# An Interception Is Transparent

From any patched site, every run of the machine ends behind the site with the
registers it started with. What happens in between is a system call, or what
the hook made of it.

`Transparent` is the statement, with one case for each thing that can happen:
there is no hook, the hook asks for the call to be forwarded, or it handles
the call itself. `Forwarded` describes the one system call vpoline issues.

The hook is arbitrary code, and it may run into patched sites of its own.
`HookRun` describes a run of such code as its author would: single steps, and
at a patched site whatever a system call does there. That a patched site
really does that is what is being proved, so the two definitions are tied
together by induction. A nested interception is a smaller derivation, since
hooks nest to a finite depth, and its frame joins the bytes that the hook
must leave alone.

What is asked of the kernel and of hooks is asked in the states that a run of
the process gets to, and in no others. A system call that would block
elsewhere, or that a hook would never forward, is of no concern.

## Main definitions

* `Issued`: The hart in which vpoline issues a system call.
* `KernelReturns`: The kernel answers that call and leaves vpoline's memory
  alone.
* `Forwarded`: The site has behaved like the system call.
* `HookAnswer`: The hook was called once and has returned.
* `Outcome`: The three things that can happen at a site.
* `Transparent`: The result of an interception.
* `Enters`, `ComesBack`: The states in which a hook is called and returns.
* `Interceptable`: A patched site in a process as vpoline expects it.
* `HookRun`: A run of a hook that may meet patched sites.

## Theorems

* `answered_word`: The forwarded path up to its return word.
* `forward_transparent`: The forwarded path.
* `site_hookEntered`: The way to the hook.
* `returned_forwarded`, `returned_handled`: The way back from it.
* `intercept`: An interception, given how the hook behaves.
* `HookRun.returns`: A hook returns, sites of its own included.
* `HookRun.of_inevitably`: Plain code is a special case.
* `interception_transparent`: An interception is transparent.
-/

namespace Vpoline

open RV64

variable {K : Type} {env : Env K}

/-- The hart in which vpoline issues the system call of the site `s`: all
    registers are those of the site, except the three that the return words
    have yet to restore. -/
structure Issued (env : Env K) (s : Conf K) (m : Mem) (k : Core) : Prop where
  regs : ∀ r, r ∉ [t0, sp, gp] → k.get r = s.get r
  f : k.f = s.f
  mem : AgreeAbove env.stack (s.x sp) m k.mem

/-- The live bytes below a hook called from the site `s`. -/
def withFrame (live : Addr → Prop) (s : Conf K) : Addr → Prop :=
  fun a => live a ∨ InFrame s a

/-- The kernel answers the system call of `s`, and does not write to vpoline's
    code or to the live frames. -/
def KernelReturns (env : Env K) (live : Addr → Prop) (s : Conf K) (m : Mem) (kst : K) : Prop :=
  ∀ k, Issued env s m k → (∃ res m' kst', env.kernel k kst res m' kst') ∧
    ∀ res m' kst', env.kernel k kst res m' kst' →
      Installed env m' ∧ ∀ a, withFrame live s a → m' a = k.mem a

/-- Behind the site `s`, as if it had been a system call issued with memory
    `m`, kernel state `kst` and the trace `tr`. -/
def Forwarded (env : Env K) (s : Conf K) (m : Mem) (kst : K) (tr : List (Event K))
    (c : Conf K) : Prop :=
  ∃ k res m', Issued env s m k ∧ env.kernel k kst res m' c.kst ∧
    c.trace = tr ++ [.ecall k kst] ∧ Resumed env s m' res c

/-- The hook was called once from the site `s`, and returned in `r`, which
    left the trace `tr`. -/
structure HookAnswer (env : Env K) (live : Addr → Prop) (s r : Conf K) (tr : List (Event K)) :
    Prop where
  returned : ∃ e, HookEntry env s e ∧ Returned env (withFrame live s) e r
  trace : ∃ m, AgreeAbove env.stack (hookSp env s) r.mem m ∧
    tr = r.trace ++ [.hookReturn { r.toCore with mem := m } r.kst]

/-- What can happen at the site `s`. -/
inductive Outcome (env : Env K) (live : Addr → Prop) (s c : Conf K) : Prop
  | noHook : env.hookFn s.mem = 0 → Forwarded env s s.mem s.kst s.trace c →
      Outcome env live s c
  | forwarded (r : Conf K) (tr : List (Event K)) : HookAnswer env live s r tr →
      forwardToKernel r.x = true → Forwarded env s r.mem r.kst tr c → Outcome env live s c
  | handled (r : Conf K) : HookAnswer env live s r c.trace → forwardToKernel r.x = false →
      c.kst = r.kst → Resumed env s r.mem (r.mem.read (resultCell env s) 8) c →
      Outcome env live s c

/-- The interception of the site `s` has ended in `c`. -/
structure Transparent (env : Env K) (live : Addr → Prop) (s c : Conf K) : Prop where
  outcome : Outcome env live s c
  installed : Installed env c.mem
  live : ∀ a, live a → c.mem a = s.mem a
  activations : c.activations = s.activations

/-- The hook of the site `s` has been called, and is about to run in `e`. -/
structure Enters (env : Env K) (s e : Conf K) : Prop where
  entry : HookEntry env s e
  reached : Relation.ReflTransGen (Step env) s e

/-- The hook that was called in `e` has come back in `r`, as it should. -/
structure ComesBack (env : Env K) (live : Addr → Prop) (e r : Conf K) : Prop where
  returned : Returned env live e r
  reached : Relation.ReflTransGen (Step env) e r

/-- A patched site with any system call but `rt_sigreturn`, in a process
    whose kernel answers the call if it is forwarded: without a hook in the
    state of the site, and with one in the states in which it comes back and
    asks for that. -/
structure Interceptable (env : Env K) (live : Addr → Prop) (s : Conf K) : Prop
    extends AtSite env s where
  number : s.get a7 ≠ 139
  above : ∀ a, live a → ¬ (env.stack a ∧ a < s.x sp)
  noHook : env.hookFn s.mem = 0 → KernelReturns env live s s.mem s.kst
  forwarded : ∀ e r, Enters env s e → ComesBack env (withFrame live s) e r →
    forwardToKernel r.x = true → KernelReturns env live s r.mem r.kst

/-- A run of a hook entered in `e`: it returns, or takes a step, or meets a
    patched site and goes on behind it. Whatever hook the site calls is a run
    of the same kind. -/
inductive HookRun (env : Env K) : (Addr → Prop) → Conf K → Conf K → Prop
  | ret (live : Addr → Prop) (e c : Conf K) : Returned env live e c → HookRun env live e c
  | run (live : Addr → Prop) (e c : Conf K) : (∃ c', Step env c c') →
      (∀ c', Step env c c' → HookRun env live e c') → HookRun env live e c
  | site (live : Addr → Prop) (e s : Conf K) : Interceptable env live s →
      (∀ e', Enters env s e' → HookRun env (withFrame live s) e' e') →
      (∀ s', Transparent env live s s' → Relation.ReflTransGen (Step env) s s' →
        HookRun env live e s') → HookRun env live e s

/-- The forwarded path up to the return word that continues it. -/
theorem answered_word {s c : Conf K} (hroom : Room env (s.x sp)) (h : Answered env s c)
    (ha0 : c.get a0 = s.get a0) (ha1 : c.get a1 = 0) :
    Surely (Calm env) (Step env) (fun c' =>
      c'.pc = returnWord env (if isClone (s.get a7) then 9 else 4) ∧
      Restored env s c.mem (s.get a0) c' ∧ SameGhost c c') c := by
  -- Restore the registers, branch on the answer, and branch on the number.
  refine (answered_restored hroom h).trans ?_
  rintro c1 ⟨hpc1, h1, ht1, hghost1⟩
  rw [ha0] at h1
  refine (dispatch_forward hroom h1 hpc1 (ht1.trans ha1)).trans ?_
  rintro c2 ⟨hpc2, h2, hghost2⟩
  refine (prelude_inevitably hroom h.installed h2 hpc2).mono ?_
  rintro c3 ⟨hpc3, h3, hghost3⟩
  exact ⟨hpc3, h3, (hghost1.trans hghost2).trans hghost3⟩

section Forward

variable {s c : Conf K} {m : Mem} {live : Addr → Prop}

/-- What has been restored does not depend on memory below the frame. -/
theorem Restored.rebase {m' : Mem} {v : Word} (hmem : AgreeAbove env.stack (s.x RV64.sp) m m')
    (h : Restored env s m' v c) : Restored env s m v c :=
  ⟨h.sp, h.gp, h.a0, h.other, h.f, h.temp, h.ret, hmem.trans h.mem⟩

/-- The registers of the system call at return word 4. -/
theorem Restored.issued (h : Restored env s m (s.get RV64.a0) c) : Issued env s m c.toCore := by
  refine ⟨fun r hr => ?_, h.f, h.mem⟩
  by_cases ha0 : r = RV64.a0
  · rw [ha0]
    exact h.a0
  · exact h.other r (fun hmem => hr ((List.mem_cons.mp hmem).resolve_left ha0))

/-- The registers of the one at return word 12. The frame is closed, so all but
    `gp` are those of the site. -/
theorem Unwound.issued (h : Unwound env s m (s.get RV64.a0) c) : Issued env s m c.toCore := by
  refine ⟨fun r hr => ?_, h.f, h.mem⟩
  by_cases ha0 : r = RV64.a0
  · rw [ha0]
    exact h.a0
  · exact h.other r ha0 (fun hgp => hr (by rw [hgp]; decide))

/-- A system call that vpoline issues for `s` steps if the kernel answers. -/
theorem issue_exists {next : Addr} {kst : K} (hkst : c.kst = kst)
    (hk : KernelReturns env live s m kst)
    (hfetch : Fetched env c .ecall next) (hissued : Issued env s m c.toCore) :
    ∃ c', Step env c c' := by
  rcases (hk c.toCore hissued).1 with ⟨res, m', kst', hker⟩
  exact ⟨_, (step_ecall hfetch _).mpr
    ⟨c.mem, res, m', kst', AgreeAbove.refl _ _ _, hkst ▸ hker, rfl⟩⟩

/-- What is known behind such a system call. -/
structure AfterIssue (env : Env K) (live : Addr → Prop) (s : Conf K) (m : Mem) (c c' : Conf K)
    (next : Addr) (k : Core) (res : Word) : Prop where
  issued : Issued env s m k
  kernel : env.kernel k c.kst res c'.mem c'.kst
  pc : c'.pc = next
  x : c'.x = c.x.set a0 res
  f : c'.f = c.f
  kmem : AgreeAbove env.stack (c.x sp) c.mem k.mem
  installed : Installed env c'.mem
  live : ∀ a, withFrame live s a → c'.mem a = k.mem a
  activations : c'.activations = c.activations
  trace : c'.trace = c.trace ++ [.ecall k c.kst]

theorem issue_after {next : Addr} {c' : Conf K} (hk : KernelReturns env live s m c.kst)
    (hfetch : Fetched env c .ecall next) (hissued : Issued env s m c.toCore)
    (hle : c.x sp ≤ s.x sp) (hstep : Step env c c') :
    ∃ k res, AfterIssue env live s m c c' next k res := by
  rcases (step_ecall hfetch c').mp hstep with ⟨m1, res, m', kst', hm1, hker, rfl⟩
  -- The kernel sees memory after one more disturbance.
  have hissued1 : Issued env s m { c.toCore with mem := m1 } :=
    ⟨hissued.regs, hissued.f, hissued.mem.trans (hm1.mono hle)⟩
  rcases (hk _ hissued1).2 res m' kst' hker with ⟨hinst, hlive⟩
  exact ⟨_, res, ⟨hissued1, hker, rfl, rfl, rfl, hm1, hinst, hlive, rfl, rfl⟩⟩

/-- What the forwarded path leaves behind. -/
def ForwardedFrom (env : Env K) (live : Addr → Prop) (s c c' : Conf K) (m : Mem) : Prop :=
  Forwarded env s m c.kst c.trace c' ∧ Installed env c'.mem ∧
    (∀ a, live a → c'.mem a = m a) ∧ c'.activations = c.activations

/-- The end of the forwarded path, once the thread is behind the site. -/
theorem AfterIssue.resumed {c1 c' : Conf K} {next : Addr} {k : Core} {res : Word}
    (habove : ∀ a, live a → ¬ (env.stack a ∧ a < s.x RV64.sp))
    (h : AfterIssue env live s m c c1 next k res) (hres : Resumed env s c1.mem res c')
    (hghost : SameGhost c1 c') : ForwardedFrom env live s c c' m := by
  refine ⟨⟨k, res, c1.mem, h.issued, ?_, ?_, hres⟩, ?_, ?_, ?_⟩
  · rw [hghost.kst]
    exact h.kernel
  · rw [hghost.trace, h.trace]
  · exact installed_of_own h.installed (own_of_agree hres.mem)
  · intro a ha
    rw [hres.mem a (habove a ha), h.live a (Or.inl ha), h.issued.mem a (habove a ha)]
  · rw [hghost.activations, h.activations]

/-- The normal return path, from its system call on. -/
theorem normal_forward (hroom : Room env (s.x sp)) (heven : EvenAddr s.pc)
    (hm : Installed env m) (habove : ∀ a, live a → ¬ (env.stack a ∧ a < s.x sp))
    (hk : KernelReturns env live s m c.kst) (h : Restored env s m (s.get a0) c)
    (hpc : c.pc = returnWord env 4) :
    Inevitably (Step env) (fun c' => ForwardedFrom env live s c c' m) c := by
  have hf := frameAt_of_room hroom
  have htop := hf.base_le_top
  rw [frameBase_top] at htop
  have hfetch : Fetched env c .ecall (returnWord env 5) :=
    fetched_returnWord hm (by decide) hpc h.mem
  refine Inevitably.next c (issue_exists rfl hk hfetch h.issued) (fun c1 hc1 => ?_)
  rcases issue_after hk hfetch h.issued (h.sp ▸ htop) hc1 with ⟨k, res, hafter⟩
  have hget : ∀ r, r ≠ a0 → c1.get r = c.get r := fun r hr => by
    rw [Core.get, hafter.x]
    exact get_set_other _ _ _ _ hr
  -- The frame is what it was: neither the noise nor the kernel wrote to it.
  have hslot : ∀ o, o + 8 ≤ frameSize →
      c1.mem.read (frameBase (s.x sp) + BitVec.ofNat 64 o) 8
        = c.mem.read (frameBase (s.x sp) + BitVec.ofNat 64 o) 8 := by
    intro o ho
    rw [read_inFrame hroom (fun a ha => hafter.live a (Or.inr ha)) ho]
    exact hf.read_slot (h.sp ▸ hafter.kmem) ho
  -- So the rest of the way is that of a restored context with the result in `a0`.
  have h1 : Restored env s c1.mem res c1 := by
    refine ⟨(hget sp (by decide)).trans h.sp, (hget gp (by decide)).trans h.gp, ?_, ?_,
      hafter.f.trans h.f, (hslot 0 (by decide)).trans h.temp,
      (hslot 288 (by decide)).trans h.ret, AgreeAbove.refl _ _ _⟩
    · rw [Core.get, hafter.x]
      exact get_set_self _ _ _ (by decide)
    · intro r hr
      have ha0 : r ≠ a0 := fun heq => hr (by rw [heq]; decide)
      exact (hget r ha0).trans (h.other r hr)
  refine (forwarded_resumed hroom heven hafter.installed h1 hafter.pc).mono ?_
  rintro c2 ⟨h2, hghost2⟩
  exact hafter.resumed habove h2 hghost2

/-- The return path of `clone` and `clone3` up to its system call: the
    context is complete, `gp` excepted. -/
theorem clone_unwound (hroom : Room env (s.x sp)) (hm : Installed env m)
    (h : Restored env s m (s.get a0) c) (hpc : c.pc = returnWord env 9) :
    Surely (Calm env) (Step env) (fun c' => c'.pc = returnWord env 12 ∧
      Unwound env s m (s.get a0) c' ∧ SameGhost c c') c :=
  unwind_inevitably (by decide) hroom hm h hpc (by decide)

/-- The return path of `clone` and `clone3`, from its system call on. -/
theorem clone_forward (heven : EvenAddr s.pc)
    (hm : Installed env m) (habove : ∀ a, live a → ¬ (env.stack a ∧ a < s.x sp))
    (hk : KernelReturns env live s m c.kst) (h : Unwound env s m (s.get a0) c)
    (hpc : c.pc = returnWord env 12) :
    Inevitably (Step env) (fun c' => ForwardedFrom env live s c c' m) c := by
  have hfetch : Fetched env c .ecall (returnWord env 13) :=
    fetched_returnWord hm (by decide) hpc h.mem
  have hsp : c.x sp = s.x sp := h.other sp (by decide) (by decide)
  refine Inevitably.next c (issue_exists rfl hk hfetch h.issued) (fun c1 hc1 => ?_)
  rcases issue_after hk hfetch h.issued (hsp ▸ BitVec.le_refl _) hc1 with ⟨k, res, hafter⟩
  have hget : ∀ r, r ≠ a0 → c1.get r = c.get r := fun r hr => by
    rw [Core.get, hafter.x]
    exact get_set_other _ _ _ _ hr
  -- Nothing is loaded behind this call, so nothing is asked of memory.
  have h1 : Unwound env s c1.mem res c1 := by
    refine ⟨(hget gp (by decide)).trans h.gp, ?_, ?_, hafter.f.trans h.f, AgreeAbove.refl _ _ _⟩
    · rw [Core.get, hafter.x]
      exact get_set_self _ _ _ (by decide)
    · intro r ha0 hgp
      exact (hget r ha0).trans (h.other r ha0 hgp)
  rcases final_jump hafter.installed heven hafter.pc h1 with ⟨hex, hall⟩
  refine Inevitably.single hex (fun c2 hc2 => ?_)
  rcases hall c2 hc2 with ⟨h2, hghost2⟩
  exact hafter.resumed habove h2 hghost2

theorem ForwardedFrom.of_same {c1 c' : Conf K} (hghost : SameGhost c c1)
    (h : ForwardedFrom env live s c1 c' m) : ForwardedFrom env live s c c' m := by
  simp only [ForwardedFrom, hghost.kst, hghost.trace, hghost.activations] at h ⊢
  exact h

/-- The forwarded path, by either of its return words. -/
theorem forward_transparent (hroom : Room env (s.x sp)) (heven : EvenAddr s.pc)
    (habove : ∀ a, live a → ¬ (env.stack a ∧ a < s.x sp)) (h : Answered env s c)
    (ha0 : c.get a0 = s.get a0) (ha1 : c.get a1 = 0)
    (hmem : AgreeAbove env.stack (s.x sp) m c.mem)
    (hk : KernelReturns env live s m c.kst) :
    Inevitably (Step env) (fun c' => ForwardedFrom env live s c c' m) c := by
  have hm : Installed env m := installed_of_own h.installed (own_of_agree hmem.symm)
  refine (answered_word hroom h ha0 ha1).inevitably.trans ?_
  rintro c1 ⟨hpc1, h1, hghost1⟩
  have h1 : Restored env s m (s.get a0) c1 := h1.rebase hmem
  by_cases hclone : isClone (s.get a7)
  · rw [if_pos hclone] at hpc1
    refine (clone_unwound hroom hm h1 hpc1).inevitably.trans ?_
    rintro c2 ⟨hpc2, h2, hghost2⟩
    have hghost := hghost1.trans hghost2
    refine (clone_forward heven hm habove (hghost.kst ▸ hk) h2 hpc2).mono (fun c' hc' => ?_)
    exact hc'.of_same hghost
  · rw [if_neg hclone] at hpc1
    refine (normal_forward hroom heven hm habove (hghost1.kst ▸ hk) h1 hpc1).mono
      (fun c' hc' => ?_)
    exact hc'.of_same hghost1

end Forward

/-- From a patched site to the hook. -/
theorem site_hookEntered {s : Conf K} (hs : AtSite env s) (ha7 : s.get a7 ≠ 139)
    (hhook : env.hookFn s.mem ≠ 0) :
    Inevitably (Step env) (fun e => ∃ act, HookEntered env s act e) s := by
  refine (site_called hs ha7).trans (fun c hc => ?_)
  rcases called_hook hs.room hc hhook with ⟨⟨c', hquiet⟩, hall⟩
  exact Inevitably.single ⟨c', hquiet.step⟩ hall

section Answer

variable {s e r : Conf K} {act : Activation} {live : Addr → Prop}

/-- From a hook that asks for forwarding to the end of the interception. -/
theorem returned_forwarded (hs : AtSite env s)
    (habove : ∀ a, live a → ¬ (env.stack a ∧ a < s.x sp)) (he : HookEntered env s act e)
    (hr : Returned env (withFrame live s) e r) (hfwd : forwardToKernel r.x = true)
    (hk : KernelReturns env live s r.mem r.kst) :
    Inevitably (Step env) (fun c => ∃ tr, HookAnswer env live s r tr ∧
      Forwarded env s r.mem r.kst tr c ∧ Installed env c.mem ∧
      (∀ a, live a → c.mem a = s.mem a) ∧ c.activations = s.activations) r := by
  rcases returned_answered hs.room he hr (fun a ha => Or.inr ha) with ⟨⟨c', hquiet⟩, hall⟩
  refine Inevitably.next r ⟨c', hquiet.step⟩ (fun c1 hc1 => ?_)
  have hdec := hall c1 hc1
  have hlive : ∀ a, live a → r.mem a = s.mem a := fun a ha =>
    (hr.live a (Or.inl ha)).trans (he.mem a (habove a ha))
  have ha0 := hdec.a0
  have ha1 := hdec.a1
  rw [if_pos hfwd] at ha0 ha1
  refine (forward_transparent hs.room hs.even habove hdec.answered ha0 ha1 hdec.mem
    (hdec.kst ▸ hk)).mono ?_
  rintro c2 ⟨hforw, hinst, hlive2, hacts⟩
  rw [hdec.kst] at hforw
  exact ⟨c1.trace, ⟨⟨e, he.toHookEntry, hr⟩, hdec.trace⟩, hforw, hinst,
    fun a ha => (hlive2 a ha).trans (hlive a ha), hacts.trans hdec.activations⟩

/-- From a hook that has handled the call to the end of the interception. -/
theorem returned_handled (hs : AtSite env s)
    (habove : ∀ a, live a → ¬ (env.stack a ∧ a < s.x sp)) (he : HookEntered env s act e)
    (hr : Returned env (withFrame live s) e r) (hfwd : forwardToKernel r.x = false) :
    Inevitably (Step env) (fun c => HookAnswer env live s r c.trace ∧ c.kst = r.kst ∧
      Resumed env s r.mem (r.mem.read (resultCell env s) 8) c ∧ Installed env c.mem ∧
      (∀ a, live a → c.mem a = s.mem a) ∧ c.activations = s.activations) r := by
  rcases returned_answered hs.room he hr (fun a ha => Or.inr ha) with ⟨⟨c', hquiet⟩, hall⟩
  refine Inevitably.next r ⟨c', hquiet.step⟩ (fun c1 hc1 => ?_)
  have hdec := hall c1 hc1
  have ha0 := hdec.a0
  have ha1 := hdec.a1
  -- `a1` is `1`, and the dispatch takes the path without a system call.
  rw [hfwd] at ha0 ha1
  refine (answered_restored hs.room hdec.answered).inevitably.trans ?_
  rintro c2 ⟨hpc2, h2, ht2, hghost2⟩
  refine (handled_resumed hs.room hs.even hdec.answered.installed h2 hpc2
    (ht2.trans ha1)).mono ?_
  rintro c3 ⟨h3, hghost3⟩
  have hghost := hghost2.trans hghost3
  -- The result is what the hook has put into its cell.
  have ha0' : c1.get a0 = r.mem.read (resultCell env s) 8 := ha0
  rw [ha0'] at h3
  have hres : Resumed env s r.mem (r.mem.read (resultCell env s) 8) c3 :=
    ⟨h3.pc, h3.gp, h3.a0, h3.other, h3.f, hdec.mem.trans h3.mem⟩
  refine ⟨⟨⟨e, he.toHookEntry, hr⟩, ?_⟩, hghost.kst.trans hdec.kst, hres,
    installed_of_own hdec.answered.installed (own_of_agree h3.mem), fun a ha => ?_,
    hghost.activations.trans hdec.activations⟩
  · rw [hghost.trace]
    exact hdec.trace
  · rw [hres.mem a (habove a ha), hr.live a (Or.inl ha), he.mem a (habove a ha)]

end Answer

/-- An interception, given that the hook returns as it should. -/
theorem intercept {s : Conf K} {live : Addr → Prop} (h : Interceptable env live s)
    (hhook : ∀ e, Enters env s e →
      Inevitably (Step env) (Returned env (withFrame live s) e) e) :
    Inevitably (Step env) (Transparent env live s) s := by
  by_cases hnull : env.hookFn s.mem = 0
  · -- Without a hook the call is forwarded.
    refine (site_called h.toAtSite h.number).trans (fun c hc => ?_)
    rcases called_null h.room h.installed hc hnull with ⟨⟨c', hquiet⟩, hall⟩
    refine Inevitably.next c ⟨c', hquiet.step⟩ (fun c1 hc1 => ?_)
    rcases hall c1 hc1 with ⟨hans, ha0, ha1, hmem, hghost⟩
    refine (forward_transparent h.room h.even h.above hans ha0 ha1 hmem
      (hghost.kst ▸ h.noHook hnull)).mono (fun c2 hc2 => ?_)
    rcases hc2.of_same hghost with ⟨hfwd, hinst, hlive, hacts⟩
    exact ⟨Outcome.noHook hnull hfwd, hinst, hlive, hacts⟩
  · -- With one its answer decides.
    refine (site_hookEntered h.toAtSite h.number hnull).along.trans ?_
    rintro e ⟨⟨act, hent⟩, hreached⟩
    have henters : Enters env s e := ⟨hent.toHookEntry, hreached⟩
    refine (hhook e henters).along.trans ?_
    rintro r ⟨hr, hback⟩
    cases hfwd : forwardToKernel r.x with
    | true =>
        refine (returned_forwarded h.toAtSite h.above hent hr hfwd
          (h.forwarded e r henters ⟨hr, hback⟩ hfwd)).mono ?_
        rintro c ⟨tr, hans, hforw, hinst, hlive, hacts⟩
        exact ⟨Outcome.forwarded r tr hans hfwd hforw, hinst, hlive, hacts⟩
    | false =>
        refine (returned_handled h.toAtSite h.above hent hr hfwd).mono ?_
        rintro c ⟨hans, hkst, hres, hinst, hlive, hacts⟩
        exact ⟨Outcome.handled r hans hfwd hkst hres, hinst, hlive, hacts⟩

/-- A hook returns, whatever patched sites it meets. The induction is on the
    run, and so on the nesting: the hook of a nested site has a run of its
    own. -/
theorem HookRun.returns {live : Addr → Prop} {e c : Conf K} (h : HookRun env live e c) :
    Inevitably (Step env) (Returned env live e) c := by
  induction h with
  | ret live e c hret => exact Inevitably.now c hret
  | run live e c hex _ ih => exact Inevitably.next c hex ih
  -- The hypotheses for the nested hook are all that `intercept` asks for.
  | site live e s hs _ _ ihhook ihrest =>
      exact (intercept hs ihhook).along.trans (fun s' hs' => ihrest s' hs'.1 hs'.2)

/-- Code that just obeys the calling convention is a run of a hook. -/
theorem HookRun.of_inevitably {live : Addr → Prop} {e c : Conf K}
    (h : Inevitably (Step env) (Returned env live e) c) : HookRun env live e c := by
  induction h with
  | now c hret => exact HookRun.ret live e c hret
  | next c hex _ ih => exact HookRun.run live e c hex ih

/-- The interception of a patched site is transparent, for every hook and
    every nesting of hooks. -/
theorem interception_transparent {live : Addr → Prop} {s : Conf K}
    (h : Interceptable env live s)
    (hhook : ∀ e, Enters env s e → HookRun env (withFrame live s) e e) :
    Inevitably (Step env) (Transparent env live s) s :=
  intercept h (fun e he => (hhook e he).returns)

/-- A hook of the flat process that answers at once obeys the calling convention. -/
theorem flatHook_returned {foreign : Conf K → Conf K → Prop}
    {kernel : Core → K → Word → Mem → K → Prop}
    {htrace : ∀ c c', foreign c c' → c.trace <+: c'.trace} {v hook nr : Word} {kst : K}
    {e : Conf K} {m : Mem}
    (he : HookEntry (flatEnv foreign kernel htrace)
      (flatSite (flatEnv foreign kernel htrace) hook nr kst) e)
    (hm : AgreeAbove (flatEnv foreign kernel htrace).stack (e.x sp) e.mem m) :
    Returned (flatEnv foreign kernel htrace)
      (withFrame (fun _ => False) (flatSite (flatEnv foreign kernel htrace) hook nr kst)) e
      { e with pc := jumpTarget (e.x ra), x := e.x.set a0 v, mem := m } := by
  have hne : ∀ q, calleeSaved q → q ≠ a0 := by decide
  refine ⟨rfl, rfl, rfl, rfl, fun q hq => ?_, fun _ _ => rfl, ?_, ?_, rfl, List.prefix_rfl⟩
  · simp +decide only [Regs.set, if_false, if_neg (hne q hq)]
  · -- The frame of the site lies above the hook's stack pointer.
    rintro a (hfalse | hin)
    · exact hfalse.elim
    · have hsite : AtSite (flatEnv foreign kernel htrace) _ := flatSite_atSite hook nr kst
      have hle := hookSp_le hsite.room
      exact hm a (he.sp ▸ AgreeAbove.stable_mono hle (inFrame_not_below hin))
  · exact installed_of_own (installed_of_own (flatSite_installed hook nr kst)
      (own_of_agree he.mem)) (own_of_agree hm)

/-- So every run of it comes back. -/
theorem flatHook_returns {kernel : Core → K → Word → Mem → K → Prop} {v hook nr : Word} {kst : K}
    {e : Conf K} (hook_eq : hook = 0x50000)
    (he : HookEntry (flatEnv (flatHook v) kernel (flatHook_trace v))
      (flatSite (flatEnv (flatHook v) kernel (flatHook_trace v)) hook nr kst) e) :
    Inevitably (Step (flatEnv (flatHook v) kernel (flatHook_trace v)))
      (fun r => Returned (flatEnv (flatHook v) kernel (flatHook_trace v))
        (withFrame (fun _ => False)
          (flatSite (flatEnv (flatHook v) kernel (flatHook_trace v)) hook nr kst)) e r ∧
        r.x a0 = v ∧ AgreeAbove (flatEnv (flatHook v) kernel (flatHook_trace v)).stack (e.x sp)
          e.mem r.mem ∧ r.kst = e.kst ∧ r.trace = e.trace) e := by
  have hpc : e.pc = 0x50000 := by
    rw [he.pc, flatSite_hookFn, hook_eq]
    decide
  have hregion : flatRegion e.pc = .foreign := by
    rw [hpc]
    decide
  refine Inevitably.single ⟨_, (flat_step_foreign hregion _).mpr ⟨e.mem, AgreeAbove.refl _ _ _,
    hpc, rfl⟩⟩ (fun c' hc' => ?_)
  rcases (flat_step_foreign hregion c').mp hc' with ⟨m, hm, _, rfl⟩
  exact ⟨flatHook_returned he hm, rfl, hm, rfl, rfl⟩

/-- A site of the flat process, with a hook that asks for forwarding. -/
theorem interception_transparent_flat :
    Inevitably (Step (flatEnv (flatHook 1) flatKernel (flatHook_trace 1)))
      (Transparent (flatEnv (flatHook 1) flatKernel (flatHook_trace 1)) (fun _ => False)
        (flatSite (flatEnv (flatHook 1) flatKernel (flatHook_trace 1)) 0x50000 64 0))
      (flatSite (flatEnv (flatHook 1) flatKernel (flatHook_trace 1)) 0x50000 64 0) := by
  refine interception_transparent ⟨flatSite_atSite _ _ _, ?_, fun _ h => h.elim, ?_, ?_⟩
    (fun e he => HookRun.of_inevitably ((flatHook_returns rfl he.entry).mono (fun _ h => h.1)))
  · exact show (64 : Word) ≠ 139 by decide
  -- There is a hook, and the kernel writes nothing.
  · intro hnull
    rw [flatSite_hookFn] at hnull
    exact absurd hnull (by decide)
  · intro e r _ hr _ k hk
    refine ⟨⟨0, k.mem, r.kst + 1, rfl, rfl, rfl⟩, ?_⟩
    rintro res m' kst' ⟨_, rfl, _⟩
    exact ⟨installed_of_own hr.returned.installed (own_of_agree hk.mem), fun _ _ => rfl⟩

end Vpoline
