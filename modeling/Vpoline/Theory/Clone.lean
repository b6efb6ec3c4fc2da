import Vpoline.Theory.Transparency

/-!
# `clone` and `clone3`

A system call that returns twice. The parent and the child both come back
from the same `ecall`, possibly on different stacks and possibly sharing the
memory the frame was in, so nothing may be left to restore from the frame by
then. The third return path therefore closes the frame first and issues the
call last. Only `gp` is not yet its old self at that point, and the one
instruction left rebuilds it from the program counter, without a load.

`CloneIssue` is a thread about to issue the call. `Spawned` relates it to
either thread that comes out, whatever the kernel put in `a0`, `sp` and `tp`
and whatever has become of memory.

## Main definitions

* `CloneIssue`: A thread about to issue `clone` with the context of the site.
* `Spawned`: A thread that came out of a `clone`.
* `Rejoins`: It needs one register-only instruction to get behind the site.

## Theorems

* `spawned_parent`: The parent is such a thread.
* `spawned_rejoins`: What every thread that comes out does.
* `answered_issue`: From the answer of `syscall_hook` to the system call.
* `clone_context`: Every site reaches its `clone` in the context of the site.
-/

namespace Vpoline

open RV64

variable {K : Type} {env : Env K}

/-- A thread of the site `s` about to issue its system call: every register
    is that of the site, `gp` excepted, and vpoline has issued no call yet. -/
structure CloneIssue (env : Env K) (live : Addr → Prop) (s c : Conf K) : Prop where
  pc : c.pc = returnWord env 12
  ecall : decode (c.mem.read c.pc 4) = some .ecall
  regs : ∀ r, r ≠ gp → c.get r = s.get r
  f : c.f = s.f
  trace : env.hookFn s.mem = 0 ∧ c.trace = s.trace ∨ ∃ r, HookAnswer env live s r c.trace

/-- A thread that came out of the system call issued in `c`, parent or child. -/
structure Spawned (env : Env K) (c p : Conf K) : Prop where
  pc : p.pc = c.pc + 4
  regs : ∀ r, r ∉ [a0, sp, tp] → p.get r = c.get r
  f : p.f = c.f
  installed : Installed env p.mem

/-- The thread `p` gets to `a` by one instruction that reads no memory, and
    that changes `gp` alone. -/
structure Rejoins (env : Env K) (a : Addr) (p : Conf K) : Prop where
  word : decode (p.mem.read p.pc 4) = some (.jalr gp gp 0)
  exists_step : ∃ p', Step env p p'
  after : ∀ p', Step env p p' → After env p p' a (p.x.set gp env.rgp)

theorem returnWord_succ (env : Env K) (i : Nat) :
    returnWord env i + 4 = returnWord env (i + 1) := by
  simp only [returnWord]
  bv_omega

/-- What is in memory at a return word. -/
theorem Installed.decode_returnWord {m : Mem} {i : Nat} {ins : Instr} (hm : Installed env m)
    (hi : (setupReturn.map decode)[i]? = some (some ins)) :
    decode (m.read (returnWord env i) 4) = some ins := by
  rw [List.getElem?_map, Option.map_eq_some_iff] at hi
  rcases hi with ⟨w, hw, hdec⟩
  rcases List.getElem?_eq_some_iff.mp hw with ⟨hlt, hget⟩
  rw [returnWord, hm.ret i hlt, hget]
  exact hdec

/-- The parent goes on behind its system call with a new `a0`. -/
theorem spawned_parent {c p : Conf K} (hc : c.pc = returnWord env 12)
    (hinst : Installed env c.mem) (hstep : Step env c p) (hp : Installed env p.mem) :
    Spawned env c p := by
  have hfetch : Fetched env c .ecall (returnWord env 13) :=
    fetched_returnWord hinst (by decide) hc (AgreeAbove.refl env.stack 0 c.mem)
  rcases (step_ecall hfetch p).mp hstep with ⟨m, res, m', kst', _, _, rfl⟩
  refine ⟨?_, fun r hr => ?_, rfl, hp⟩
  · rw [hc, returnWord_succ]
    rfl
  -- The call changes `a0` alone, and that is not among the registers in question.
  · have ha0 : r ≠ a0 := fun h => hr (by rw [h]; decide)
    exact get_set_other c.x a0 r res ha0

/-- Any thread that comes out of the call needs a single jump, whose target
    is in `gp` and whose link value is `relocated_gp`. -/
theorem spawned_rejoins {c p : Conf K} {a : Addr} (hc : c.pc = returnWord env 12)
    (hgp : c.x gp = a) (heven : EvenAddr a) (hp : Spawned env c p) : Rejoins env a p := by
  have hpc : p.pc = returnWord env 13 := by
    rw [hp.pc, hc, returnWord_succ]
  -- The jump is the last return word, so the link value is the address behind them all.
  have hlink : returnWord env 14 = env.rgp := by
    simp only [returnWord]
    bv_omega
  have hfetch : Fetched env p (.jalr gp gp 0) (returnWord env 14) :=
    fetched_returnWord hp.installed (by decide) hpc (AgreeAbove.refl env.stack 0 p.mem)
  have htarget : p.get gp = a := (hp.regs gp (by decide)).trans hgp
  rcases step_jalr hfetch htarget heven with ⟨⟨p', hquiet⟩, hall⟩
  rw [hlink] at hall
  refine ⟨?_, ⟨p', hquiet.step⟩, hall⟩
  rw [hpc]
  exact hp.installed.decode_returnWord (by decide)

/-- From the answer of `syscall_hook` to the system call. -/
theorem answered_issue {s c : Conf K} (hroom : Room env (s.x sp)) (hnr : isClone (s.get a7))
    (h : Answered env s c) (ha0 : c.get a0 = s.get a0) (ha1 : c.get a1 = 0) :
    Surely (Calm env) (Step env) (fun c' => c'.pc = returnWord env 12 ∧
      Unwound env s c.mem (s.get a0) c' ∧ SameGhost c c') c := by
  refine (answered_word hroom h ha0 ha1).trans ?_
  rintro c1 ⟨hpc1, h1, hghost1⟩
  rw [if_pos hnr] at hpc1
  refine (clone_unwound hroom h.installed h1 hpc1).mono ?_
  rintro c2 ⟨hpc2, h2, hghost2⟩
  exact ⟨hpc2, h2, hghost1.trans hghost2⟩

/-- A closed frame at the last `ecall` is a thread about to issue `clone`. -/
theorem Unwound.cloneIssue {live : Addr → Prop} {s c : Conf K} {m : Mem} (heven : EvenAddr s.pc)
    (hm : Installed env m) (hpc : c.pc = returnWord env 12)
    (h : Unwound env s m (s.get RV64.a0) c)
    (htrace : env.hookFn s.mem = 0 ∧ c.trace = s.trace ∨ ∃ r, HookAnswer env live s r c.trace) :
    CloneIssue env live s c ∧
      (∀ p, Step env c p → Installed env p.mem → Spawned env c p) ∧
      ∀ p, Spawned env c p → Rejoins env (s.pc + 4) p := by
  have hinst : Installed env c.mem := installed_of_own hm (own_of_agree h.mem)
  have heven4 : EvenAddr (s.pc + 4) := by
    simp only [EvenAddr] at heven ⊢
    bv_omega
  -- `a0` comes from the answer, and every other register from the frame.
  refine ⟨⟨hpc, ?_, fun r hgp => ?_, h.f, htrace⟩, fun p => spawned_parent hpc hinst,
    fun p hp => spawned_rejoins hpc h.gp heven4 hp⟩
  · rw [hpc]
    exact hinst.decode_returnWord (by decide)
  · by_cases ha0 : r = RV64.a0
    · rw [ha0]
      exact h.a0
    · exact h.other r ha0 hgp

/-- Every site with `clone` or `clone3` issues its system call in the context
    of the site, and whatever threads come out rejoin behind the site. -/
theorem clone_context {live : Addr → Prop} {s : Conf K} (hs : AtSite env s)
    (hnr : isClone (s.get a7))
    (hhook : ∀ e, HookEntry env s e → Inevitably (Step env)
      (fun r => Returned env (withFrame live s) e r ∧ forwardToKernel r.x = true) e) :
    Inevitably (Step env) (fun c => CloneIssue env live s c ∧
      (∀ p, Step env c p → Installed env p.mem → Spawned env c p) ∧
      ∀ p, Spawned env c p → Rejoins env (s.pc + 4) p) s := by
  have hne : s.get a7 ≠ 139 := by
    rcases hnr with h | h <;> rw [h] <;> decide
  by_cases hnull : env.hookFn s.mem = 0
  · -- Without a hook the call is forwarded.
    refine (site_called hs hne).trans (fun c hc => ?_)
    rcases called_null hs.room hs.installed hc hnull with ⟨⟨c', hquiet⟩, hall⟩
    refine Inevitably.next c ⟨c', hquiet.step⟩ (fun c1 hc1 => ?_)
    rcases hall c1 hc1 with ⟨hans, ha0, ha1, _, hghost⟩
    refine (answered_issue hs.room hnr hans ha0 ha1).inevitably.mono ?_
    rintro c2 ⟨hpc2, h2, hghost2⟩
    exact h2.cloneIssue hs.even hans.installed hpc2
      (Or.inl ⟨hnull, hghost2.trace.trans hghost.trace⟩)
  · -- With one it is forwarded because the hook says so.
    refine (site_hookEntered hs hne hnull).trans ?_
    rintro e ⟨act, hent⟩
    refine (hhook e hent.toHookEntry).trans ?_
    rintro r ⟨hr, hfwd⟩
    rcases returned_answered hs.room hent hr (fun a ha => Or.inr ha) with ⟨⟨c', hquiet⟩, hallr⟩
    refine Inevitably.next r ⟨c', hquiet.step⟩ (fun c1 hc1 => ?_)
    have hdec := hallr c1 hc1
    have ha0 := hdec.a0
    have ha1 := hdec.a1
    rw [if_pos hfwd] at ha0 ha1
    refine (answered_issue hs.room hnr hdec.answered ha0 ha1).inevitably.mono ?_
    rintro c2 ⟨hpc2, h2, hghost2⟩
    refine h2.cloneIssue hs.even hdec.answered.installed hpc2 (Or.inr ⟨r, ⟨e, hent.toHookEntry,
      hr⟩, ?_⟩)
    rw [hghost2.trace]
    exact hdec.trace

/-- `clone` in the flat process, with a hook that asks for forwarding. -/
theorem clone_context_flat :
    Inevitably (Step (flatEnv (flatHook 1) flatKernel (flatHook_trace 1)))
      (fun c => CloneIssue (flatEnv (flatHook 1) flatKernel (flatHook_trace 1)) (fun _ => False)
          (flatSite (flatEnv (flatHook 1) flatKernel (flatHook_trace 1)) 0x50000 220 0) c ∧
        (∀ p, Step (flatEnv (flatHook 1) flatKernel (flatHook_trace 1)) c p →
          Installed (flatEnv (flatHook 1) flatKernel (flatHook_trace 1)) p.mem →
          Spawned (flatEnv (flatHook 1) flatKernel (flatHook_trace 1)) c p) ∧
        ∀ p, Spawned (flatEnv (flatHook 1) flatKernel (flatHook_trace 1)) c p →
          Rejoins (flatEnv (flatHook 1) flatKernel (flatHook_trace 1)) (0x40000 + 4) p)
      (flatSite (flatEnv (flatHook 1) flatKernel (flatHook_trace 1)) 0x50000 220 0) := by
  refine clone_context (flatSite_atSite _ _ _) (Or.inl rfl) (fun e he => ?_)
  refine (flatHook_returns rfl he).mono (fun r hr => ⟨hr.1, ?_⟩)
  rw [forwardToKernel, hr.2.1]
  decide

end Vpoline
