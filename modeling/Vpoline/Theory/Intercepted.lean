import Vpoline.Core.Threads
import Vpoline.Theory.Clone
import Vpoline.Theory.Signals

/-!
# An Interception as a Run of a Thread

The results about signals and threads say what no run of a thread does. Here
are the runs that it does have: from a patched site to the hook, and from a hook
that asks for the call to be forwarded to the system call.

`Theory.Transparency` is about a machine on which anything below the stack
pointer may change between two instructions. The steps of a thread are fewer.
They write nothing that they should not write, and control gets into vpoline
only where vpoline offers it. The stages of an interception come with `Surely`,
so from each of their states there is a `Calm` step, and `Calm.traced` says that
such a step is one of a thread among others. Together they are a run.

## Main definitions

* `OffStack`: The patched sites are not on the stack.
* `AtIssue`: A thread about to issue the system call that its hook consented to.
* `workerEnv`: A process whose hook consents to everything.

## Theorems

* `Calm.traced`, `calm_run`: A calm run is a run of a thread.
* `site_hook_surely`: From a site to the hook.
* `returned_issue_surely`: From the hook to the system call.
* `interception_run`: From the site to the system call.
* `AtIssue.traced`: The system call.
-/

namespace Vpoline

open RV64

variable {K : Type} {env : Env K} {sites allowed : Addr → Prop}

/-- The patched sites are in code, and so not on the stack. -/
def OffStack (env : Env K) (sites : Addr → Prop) : Prop :=
  ∀ s, sites s → ∀ a, (a - s).toNat < 4 → ¬ env.stack a

theorem Quiet.kept (hoff : OffStack env sites) {c c' : Conf K} (h : Quiet env c c') :
    Kept env sites c.mem c'.mem := by
  rintro a (hown | ⟨s, hs, hlt⟩)
  · exact h.mem a (env.own_not_stack a hown)
  · exact h.mem a (hoff s hs a hlt)

/-- A calm step is a step of a thread that nothing else happens to. -/
theorem Calm.traced (hoff : OffStack env sites) {c c' : Conf K} (h : Calm env c c')
    (contexts : List Context) :
    TracedStep env sites allowed ⟨c, contexts⟩ ⟨c', contexts⟩ := by
  have hne : env.region c.pc ≠ .foreign := fun hf => h.inside (Or.inl hf)
  -- What is asked of foreign code and of landings is not asked here: the step starts
  -- inside.
  refine ⟨.exec c c' contexts h.exec (h.kept hoff) (fun hf => absurd hf hne)
    (fun hl => absurd hl h.inside), ?_⟩
  rintro (hf | hctx)
  · exact absurd hf hne
  · exact absurd rfl hctx

theorem calm_run (hoff : OffStack env sites) {c c' : Conf K}
    (h : Relation.ReflTransGen (Calm env) c c') (contexts : List Context) :
    Relation.ReflTransGen (TracedStep env sites allowed) ⟨c, contexts⟩ ⟨c', contexts⟩ :=
  h.lift (fun d => (⟨d, contexts⟩ : Thread K)) (fun _ _ hstep => hstep.traced hoff contexts)

/-- A thread about to issue the system call of the site `s`, whose hook came
    back in `r` and asked for it. -/
structure AtIssue (env : Env K) (s r c : Conf K) : Prop where
  pc : c.pc = returnWord env (if isClone (s.get a7) then 12 else 4)
  issued : Issued env s r.mem c.toCore
  installed : Installed env c.mem
  /-- Behind `clone`, one jump is left. -/
  back : isClone (s.get a7) → c.x gp = s.pc + 4
  activations : c.activations = s.activations
  kst : c.kst = r.kst
  trace : ∃ m, c.trace = r.trace ++ [.hookReturn { r.toCore with mem := m } r.kst]

section Stages

variable {s e r c : Conf K} {act : Activation} {live : Addr → Prop}

/-- From a patched site to the hook. -/
theorem site_hook_surely (hsites : PatchedSites env sites) (hsite : sites s.pc)
    (hs : AtSite env s) (ha7 : s.get a7 ≠ 139) (hhook : env.hookFn s.mem ≠ 0) :
    Surely (Calm env) (Step env) (fun e => ∃ act, HookEntered env s act e) s := by
  rcases site_jump hs with ⟨hex, hall⟩
  refine Surely.next s (calm_step (inside_site hsites hsite) hex) (fun c1 hc1 => ?_)
  refine (jumped_called hs ha7 (hall c1 hc1)).trans (fun c hc => ?_)
  rcases called_hook hs.room hc hhook with ⟨hex', hall'⟩
  exact Surely.single (calm_step (hc.pc ▸ inside_syscallHook) hex') hall'

/-- From a hook that asks for forwarding to the system call. -/
theorem returned_issue_surely (hs : AtSite env s) (he : HookEntered env s act e)
    (hr : Returned env (withFrame live s) e r) (hfwd : forwardToKernel r.x = true) :
    Surely (Calm env) (Step env) (AtIssue env s r) r := by
  -- `syscall_hook` takes the answer of the hook and returns to the assembly.
  rcases returned_answered hs.room he hr (fun a ha => Or.inr ha) with ⟨hex, hall⟩
  have hpc : r.pc = env.hookRet := by
    rw [hr.pc, he.ra]
    exact jumpTarget_even env.hookRet_even
  refine Surely.next r (calm_step (hpc ▸ inside_hookRet) hex) (fun c1 hc1 => ?_)
  have hdec := hall c1 hc1
  have ha0 := hdec.a0
  have ha1 := hdec.a1
  rw [if_pos hfwd] at ha0 ha1
  rcases hdec.trace with ⟨m, _, htrace⟩
  -- The registers come back, up to the return word that `a1` selects.
  refine (answered_word hs.room hdec.answered ha0 ha1).trans ?_
  rintro c2 ⟨hpc2, h2, hghost2⟩
  have h2 : Restored env s r.mem (s.get a0) c2 := h2.rebase hdec.mem
  -- Behind `clone` the frame is gone before the call is made, since the child has another
  -- stack.
  by_cases hclone : isClone (s.get a7)
  · rw [if_pos hclone] at hpc2
    refine (clone_unwound hs.room hr.installed h2 hpc2).mono ?_
    rintro c3 ⟨hpc3, h3, hghost3⟩
    have hghost := hghost2.trans hghost3
    exact ⟨by rw [hpc3, if_pos hclone], h3.issued,
      installed_of_own hr.installed (own_of_agree h3.mem), fun _ => h3.gp,
      hghost.activations.trans hdec.activations, hghost.kst.trans hdec.kst, m,
      hghost.trace.trans htrace⟩
  · rw [if_neg hclone] at hpc2
    exact Surely.now c2 ⟨by rw [hpc2, if_neg hclone], h2.issued,
      installed_of_own hr.installed (own_of_agree h2.mem), fun h => absurd h hclone,
      hghost2.activations.trans hdec.activations, hghost2.kst.trans hdec.kst, m,
      hghost2.trace.trans htrace⟩

/-- The hook that was called in `e` has a run that comes back in `r`, asks for
    the call and makes none itself. -/
structure Consents (env : Env K) (sites allowed live : Addr → Prop) (contexts : List Context)
    (e r : Conf K) : Prop where
  run : Relation.ReflTransGen (TracedStep env sites allowed) ⟨e, contexts⟩ ⟨r, contexts⟩
  returned : Returned env live e r
  forward : forwardToKernel r.x = true
  trace : r.trace = e.trace

/-- A thread at a patched site has a run to the system call, if its hook has
    one on which it consents. -/
theorem interception_run (hsites : PatchedSites env sites) (hoff : OffStack env sites)
    (hsite : sites s.pc) (hs : AtSite env s) (ha7 : s.get a7 ≠ 139)
    (hhook : env.hookFn s.mem ≠ 0) {contexts : List Context}
    (hconsent : ∀ e, HookEntry env s e →
      ∃ r, Consents env sites allowed (withFrame live s) contexts e r) :
    ∃ e r c, HookEntry env s e ∧ Consents env sites allowed (withFrame live s) contexts e r ∧
      AtIssue env s r c ∧
      Relation.ReflTransGen (TracedStep env sites allowed) ⟨s, contexts⟩ ⟨c, contexts⟩ := by
  -- To the hook, through the hook, and on to the system call.
  rcases (site_hook_surely hsites hsite hs ha7 hhook).reaches with ⟨e, hrun, act, he⟩
  rcases hconsent e he.toHookEntry with ⟨r, hr⟩
  rcases (returned_issue_surely hs he hr.returned hr.forward).reaches with ⟨c, hrun', hc⟩
  exact ⟨e, r, c, he.toHookEntry, hr, hc,
    (calm_run hoff hrun contexts).trans (hr.run.trans (calm_run hoff hrun' contexts))⟩

/-- What has been recorded by then. -/
theorem AtIssue.recorded {contexts : List Context} (h : AtIssue env s r c)
    (he : HookEntry env s e) (hr : Consents env sites allowed live contexts e r) :
    ∃ m, c.trace = s.trace ++ [.hookCall e.toCore s.kst,
      .hookReturn { r.toCore with mem := m } r.kst] := by
  rcases h.trace with ⟨m, htrace⟩
  refine ⟨m, ?_⟩
  rw [htrace, hr.trace, he.trace, List.append_assoc]
  rfl

/-- The return word behind the system call of a site. -/
def behindIssue (env : Env K) (s : Conf K) : Addr :=
  returnWord env (if isClone (s.get a7) then 13 else 5)

theorem AtIssue.issuesAt (h : AtIssue env s r c) : IssuesAt env c.pc (behindIssue env s) := by
  rw [h.pc, behindIssue]
  by_cases hclone : isClone (s.get a7)
  · rw [if_pos hclone, if_pos hclone]
    exact Or.inr (Or.inl ⟨rfl, rfl⟩)
  · rw [if_neg hclone, if_neg hclone]
    exact Or.inl ⟨rfl, rfl⟩

/-- The system call itself, if the kernel answers and writes no code. -/
theorem AtIssue.traced (h : AtIssue env s r c) {res : Word} {m : Mem} {kst : K}
    (hker : env.kernel c.toCore c.kst res m kst) (hkept : Kept env sites c.mem m)
    (contexts : List Context) :
    TracedStep env sites allowed ⟨c, contexts⟩
      ⟨c.afterEcall (behindIssue env s) res m kst, contexts⟩ := by
  -- The two places are words of the return sequence, and one proof does for both.
  have hword : ∀ i, i < 13 → c.pc = returnWord env i → (setupReturn.map decode)[i]?
      = some (some .ecall) → returnWord env (i + 1) = behindIssue env s →
      TracedStep env sites allowed ⟨c, contexts⟩
        ⟨c.afterEcall (behindIssue env s) res m kst, contexts⟩ := by
    intro i hi hpc hdec hnext
    have hin : ¬ Leaves env c.pc := hpc ▸ inside_return hi
    have hexec := (fetches_return h.installed hdec c _ hpc (fun _ _ => rfl)).mpr
      (.ecall res m kst hker)
    rw [← hnext]
    refine ⟨.exec c _ contexts hexec hkept (fun hf => absurd (Or.inl hf) hin)
      (fun hl => absurd hl hin), ?_⟩
    rintro (hf | hctx)
    · exact absurd (Or.inl hf) hin
    · exact absurd rfl hctx
  rcases h.issuesAt with ⟨hpc, hnext⟩ | ⟨hpc, hnext⟩ | ⟨hpc, hnext⟩
  · exact hword 4 (by decide) hpc (by decide) hnext.symm
  · exact hword 12 (by decide) hpc (by decide) hnext.symm
  -- The third place that issues system calls is in the assembly, and a return word is
  -- not.
  · have hregion := env.region_loc .syscallNoIntercept 7 (by decide)
    rw [← hpc, h.pc, returnWord, env.region_return _ (by split <;> decide)] at hregion
    exact absurd hregion (by simp only [reduceCtorEq, not_false_eq_true])

end Stages

/-! ## A process whose hook consents -/

/-- A program that makes its system call over and over again, and a hook that
    asks for forwarding. -/
def worker (c c' : Conf Nat) : Prop :=
  -- The program is back at the site as soon as it has its answer.
  flatHook 1 c c' ∨ c.pc = 0x40004 ∧ c' = { c with pc := 0x40000 }

theorem worker_trace (c c' : Conf Nat) (h : worker c c') : c.trace <+: c'.trace := by
  rcases h with hhook | ⟨_, rfl⟩
  · exact flatHook_trace 1 c c' hhook
  · exact List.prefix_rfl

/-- The flat process with both. -/
def workerEnv : Env Nat := flatEnv worker flatKernel worker_trace

/-- A thread at the site, with a number in `a7`. -/
def workerSite (nr : Word) : Conf Nat := flatSite workerEnv 0x50000 nr 0

theorem worker_sites : PatchedSites workerEnv flatSites := flatSites_patched

theorem worker_hookFn (nr : Word) : workerEnv.hookFn (workerSite nr).mem = 0x50000 :=
  flatSite_hookFn 0x50000 nr 0

theorem worker_hook (nr : Word) : workerEnv.hookFn (workerSite nr).mem ≠ 0 := by
  rw [worker_hookFn]
  decide

theorem worker_fresh (nr : Word) : Fresh workerEnv flatSites ⟨workerSite nr, []⟩ := by
  refine ⟨⟨flatSite_installed 0x50000 nr 0, ?_, fun _ => Or.inl ?_⟩, Or.inl ⟨Or.inr rfl, rfl⟩,
    rfl, rfl⟩
  · rintro a rfl
    exact flatSite_word _ 0x50000 nr 0 rfl rfl
  · rw [worker_hookFn, jumpTarget_even (by decide)]
    exact show flatRegion 0x50000 = .foreign by decide

theorem worker_offStack : OffStack workerEnv flatSites := by
  rintro s rfl a ha ⟨hlo, _⟩
  bv_omega

/-- A step of the code outside vpoline. -/
theorem worker_step {c c' : Conf Nat} (hregion : flatRegion c.pc = .foreign) (h : worker c c')
    (hmem : c'.mem = c.mem) (hforeign : ForeignStep c c') (htrace : c'.trace = c.trace)
    (hland : Lands workerEnv flatSites c'.pc) (contexts : List Context) :
    TracedStep workerEnv flatSites allowed ⟨c, contexts⟩ ⟨c', contexts⟩ := by
  have hr : workerEnv.region c.pc = .foreign := hregion
  refine ⟨.exec c c' contexts ?_ (fun a _ => by rw [hmem]) (fun _ => hforeign) (fun _ => hland),
    fun _ => ⟨[], by rw [htrace, List.append_nil], fun e he => absurd he List.not_mem_nil⟩⟩
  simp only [Exec, hr]
  exact h

theorem worker_consents {nr : Word} {e : Conf Nat} (contexts : List Context)
    (he : HookEntry workerEnv (workerSite nr) e) :
    ∃ r, Consents workerEnv flatSites allowed (withFrame (fun _ => False) (workerSite nr))
      contexts e r := by
  -- The hook returns in one step, with `a0` set to ask for the call.
  have hpc : e.pc = 0x50000 := by
    rw [he.pc, worker_hookFn]
    decide
  have hregion : flatRegion e.pc = .foreign := by
    rw [hpc]
    decide
  have hback : jumpTarget (e.x ra) = workerEnv.hookRet := by
    rw [he.ra]
    exact jumpTarget_even workerEnv.hookRet_even
  refine ⟨{ e with pc := jumpTarget (e.x ra), x := e.x.set a0 1 }, .single ?_,
    flatHook_returned he (AgreeAbove.refl _ _ _), rfl, rfl⟩
  exact worker_step hregion (Or.inl ⟨hpc, rfl⟩) rfl ⟨rfl, rfl⟩ rfl (Or.inr (Or.inr hback)) contexts

/-- The run of a worker thread to its system call. -/
theorem worker_issues (allowed : Addr → Prop) {nr : Word} (hnr : nr ≠ 139) :
    ∃ e r c m, AtIssue workerEnv (workerSite nr) r c ∧
      c.trace = [.hookCall e 0, .hookReturn { r.toCore with mem := m } r.kst] ∧
      Relation.ReflTransGen (TracedStep workerEnv flatSites allowed) ⟨workerSite nr, []⟩
        ⟨c, []⟩ := by
  rcases interception_run (s := workerSite nr) worker_sites worker_offStack rfl
    (flatSite_atSite 0x50000 nr 0) hnr (worker_hook nr) (fun e he => worker_consents [] he) with
    ⟨e, r, c, he, hr, hc, hrun⟩
  rcases hc.recorded he hr with ⟨m, htrace⟩
  exact ⟨e.toCore, r, c, m, hc, htrace, hrun⟩

end Vpoline
