import Vpoline.Theory.Mediation

/-!
# Every Thread of a Process

What has been shown for one thread holds for every thread of a process, in any
interleaving of their instructions and signals, for the threads that are
started along the way as well.

Threads meet in memory. vpoline keeps nothing there that one thread could
spoil for another: its code, its two variables and the patched sites are not
written, and the rest of what it does is in registers and on the thread's own
stack. That `Kept` is all that one thread relies on and all that each of them
guarantees is what the rule for pools asks for. A thread that `clone` starts
is born inside vpoline, behind the system call, at one of the places that its
parent could be at.

## Main definitions

* `KnownAndAccounted`: What holds of every thread.

## Theorems

* `SigStep.kept`: No step writes code or vpoline's variables.
* `KnownAndAccounted.step`, `KnownAndAccounted.stable`,
  `KnownAndAccounted.born`: The conditions of the rule.
* `threads_mediated`: Every thread of every run.
* `thread_run`, `thread_spawn`: The runs of one thread are runs of the process.
-/

namespace Vpoline

open RV64

variable {K : Type} {env : Env K} {sites : Addr → Prop}

theorem SigStep.kept {allowed : Addr → Prop} {t t' : Thread K}
    (h : SigStep env sites allowed t t') : Kept env sites t.conf.mem t'.conf.mem := by
  cases h with
  | exec c c' contexts _ hk _ _ => exact hk
  | deliver c h contexts _ _ _ hk => exact hk
  | sigreturn c ctx contexts => exact fun _ _ => rfl

/-- What holds of every thread: it is at a known place, and if there is a hook
    then its account is in order. -/
structure KnownAndAccounted (env : Env K) (sites : Addr → Prop) (l : Local K) (s : Mem × K) :
    Prop where
  known : AtKnownPlace env sites (l.thread s)
  ledger : env.hookFn s.1 ≠ 0 → Ledger env sites (l.thread s)

theorem KnownAndAccounted.step (hs : PatchedSites env sites) {l l' : Local K} {s s' : Mem × K}
    (h : KnownAndAccounted env sites l s)
    (hstep : LocalStep env sites (fun pc => ¬ GpWindow env pc) l s l' s') :
    KnownAndAccounted env sites l' s' ∧ Kept env sites s.1 s'.1 := by
  have hkept : Kept env sites s.1 s'.1 := hstep.1.kept
  refine ⟨⟨h.known.step hs hstep.1, fun hhook => ?_⟩, hkept⟩
  rw [hkept.hookFn] at hhook
  exact (h.ledger hhook).step hs hstep.1 hstep.2

/-- A thread does not notice the steps of the others. -/
theorem KnownAndAccounted.stable {l : Local K} {s s' : Mem × K}
    (h : KnownAndAccounted env sites l s)
    (hk : Kept env sites s.1 s'.1) : KnownAndAccounted env sites l s' := by
  have hknown : AtKnownPlace env sites (l.thread s') :=
    ⟨h.known.loaded.kept hk, h.known.place, h.known.returns, h.known.contexts⟩
  refine ⟨hknown, fun hhook => ?_⟩
  have hbefore := h.ledger (by rwa [hk.hookFn] at hhook)
  exact ⟨hknown, hhook, hbefore.checked, hbefore.contexts, hbefore.sourced, hbefore.balance⟩

/-- The windows are in injected code and in `asm_syscall_hook`. -/
theorem GpWindow.region {pc : Addr} (h : GpWindow env pc) :
    env.region pc = .words ∨ ∃ i, env.region pc = .asm .asmSyscallHook i := by
  rcases h with ⟨i, hi, rfl⟩ | ⟨i, hi, rfl⟩ | ⟨i, hi, rfl⟩
  · exact Or.inl (env.region_trampoline i hi)
  · have hlt : i < 98 := by omega
    exact Or.inr ⟨i, env.region_loc .asmSyscallHook i hlt⟩
  · have hsmall : ∀ i ∈ borrowedWords, i < 14 := by decide
    exact Or.inl (env.region_return i (hsmall i hi))

/-- Behind the system calls of vpoline, `gp` is in place or about to be set. -/
theorem Place.of_issued {pc next : Addr} {x x' : Regs} (hissue : IssuesAt env pc next)
    (h : Place env sites next x) (hgp : x'.get gp = x.get gp) : Place env sites next x' := by
  -- The first return word behind a system call, and the end of
  -- `syscall_no_intercept`, are outside the windows.
  rcases hissue with ⟨_, rfl⟩ | ⟨_, rfl⟩ | ⟨_, rfl⟩
  · refine .ret 5 (by decide) rfl (fun _ => hgp.trans (h.gp_of_not_window ?_))
    rintro (⟨i, hi, hpc⟩ | ⟨i, hi, hpc⟩ | ⟨i, hi, hpc⟩)
    · rw [returnWord] at hpc
      bv_omega
    · exact loc_ne_returnWord (by omega) (by decide) hpc.symm
    · have hsmall : ∀ i ∈ borrowedWords, i < 14 ∧ i ≠ 5 := by decide
      have hi14 := hsmall i hi
      simp only [returnWord] at hpc
      bv_omega
  · exact .ret 13 (by decide) rfl (fun hnb => absurd (by decide) hnb)
  · refine .noIntercept 8 (by decide) rfl (hgp.trans (h.gp_of_not_window ?_))
    have hregion := env.region_loc .syscallNoIntercept 8 (by decide)
    intro hw
    rcases hw.region with hwords | ⟨i, hasm⟩
    · rw [hregion] at hwords
      exact absurd hwords (by simp only [reduceCtorEq, not_false_eq_true])
    · rw [hregion, Region.asm.injEq] at hasm
      exact absurd hasm.1 (by simp only [reduceCtorEq, not_false_eq_true])

/-- A thread is at a known place and accounted for when it is born. -/
theorem KnownAndAccounted.born (hs : PatchedSites env sites) {l l' c : Local K} {s s' : Mem × K}
    (h : KnownAndAccounted env sites l s)
    (hstep : LocalStep env sites (fun pc => ¬ GpWindow env pc) l s l' s')
    (hborn : Born env sites l l' c) : KnownAndAccounted env sites c s' := by
  have hafter := (h.step hs hstep).1
  -- Where it is and what it owes is all that there is to a thread without history.
  have hstart : ∀ {c : Local K}, Newborn c → Place env sites c.current.pc c.current.x →
      Checked env c.current.pc c.current.x → ¬ Owes env c.current.pc c.current.x →
      KnownAndAccounted env sites c s' := by
    intro c hnew hplace hchecked hnone
    have hknown : AtKnownPlace env sites (c.thread s') := by
      refine ⟨hafter.known.loaded, hplace, ?_, ?_⟩
      · show Returns env c.current.activations
        rw [hnew.activations]
        exact fun act hact => absurd hact List.not_mem_nil
      · show ∀ ctx ∈ c.contexts, _
        rw [hnew.contexts]
        exact fun ctx hctx => absurd hctx List.not_mem_nil
    exact ⟨hknown, fun hhook =>
      .opened hknown hhook hchecked hnone hnew.contexts hnew.trace⟩
  cases hborn with
  | clone hissue hpc hregs hnew =>
      have hgp : c.current.x.get gp = l'.current.x.get gp :=
        hregs gp (by decide) (by decide) (by decide)
      have hplace : Place env sites l'.current.pc l'.current.x := hafter.known.place
      refine hstart hnew ?_ ?_ ?_ <;> rw [hpc]
      · exact hplace.of_issued hissue hgp
      · exact hissue.settled.1
      · exact hissue.settled.2
  | app hforeign happ hgp hnew =>
      -- Application code has `gp` in place, and leaves it alone.
      have hbefore : l.current.x.get gp = env.rgp := by
        refine h.known.place.gp_of_not_window ?_
        intro hw
        have hforeign' : env.region (l.thread s).conf.pc = .foreign := hforeign
        rcases hw.region with hwords | ⟨i, hasm⟩
        · rw [hforeign'] at hwords
          exact absurd hwords (by simp only [reduceCtorEq, not_false_eq_true])
        · rw [hforeign'] at hasm
          exact absurd hasm (by simp only [reduceCtorEq, not_false_eq_true])
      exact hstart hnew (.app happ (hgp.trans hbefore)) (happ.idle hs).checked
        (happ.idle hs).not_owes

/-- In every run of a process, whatever the order of its threads' instructions
    and of the signals outside the windows, and whichever threads are started:
    each thread finds `relocated_gp` at every patched site, and if there is a
    hook, then the thread's system calls come from where they may, and those
    that vpoline forwards are covered by what the hook has consented to in the
    same thread. -/
theorem threads_mediated (hs : PatchedSites env sites) {p p' : Pool (Mem × K) (Local K)}
    (h : ∀ i l, p.threads i = some l → Fresh env sites (l.thread p.shared) ∧ l.trace = [])
    (hrun : Relation.ReflTransGen (ThreadStep env sites (fun pc => ¬ GpWindow env pc)) p p')
    {i : Nat} {l : Local K} (hi : p'.threads i = some l) :
    (sites l.current.pc → l.current.x gp = env.rgp ∧
      ∀ c', Exec env (l.thread p'.shared).conf c' → c'.pc = env.rgp) ∧
    (env.hookFn p'.shared.1 ≠ 0 → (∀ e ∈ l.trace, e.sourced env) ∧
      l.trace.countP (Event.forwarded env) ≤ l.trace.countP Event.consent) := by
  have haccounted : KnownAndAccounted env sites l p'.shared := by
    refine pool_invariant (R := fun s s' => Kept env sites s.1 s'.1)
      (fun l s l' s' hl hstep => hl.step hs hstep)
      (fun l s l' s' c hl hstep hborn => hl.born hs hstep hborn)
      (fun l s s' hl hk => hl.stable hk) (fun j x hj => ?_) hrun i l hi
    rcases h j x hj with ⟨hfresh, htrace⟩
    exact ⟨hfresh.atKnownPlace, fun hhook => hfresh.ledger hs hhook htrace⟩
  refine ⟨fun hsite => ?_, fun hhook => ?_⟩
  · have hgp := haccounted.known.place.gp_at_site hs hsite
    exact ⟨hgp, fun c' he =>
      (site_step hs hsite (haccounted.known.loaded.text _ hsite) hgp he).1⟩
  · have hbalance := (haccounted.ledger hhook).balance
    refine ⟨(haccounted.ledger hhook).sourced, ?_⟩
    simp only [Local.thread] at hbalance
    omega

/-! ## A thread that starts another -/

/-- What a thread has for itself, and what it shares. -/
def Thread.toLocal (t : Thread K) : Local K := ⟨t.conf.context, t.contexts, t.conf.trace⟩

def Thread.shared (t : Thread K) : Mem × K := (t.conf.mem, t.conf.kst)

/-- A run of one thread is a run of the process. -/
theorem thread_run {allowed : Addr → Prop} {p : Pool (Mem × K) (Local K)} {i : Nat}
    {t t' : Thread K} (hi : p.threads i = some t.toLocal) (hshared : p.shared = t.shared)
    (hrun : Relation.ReflTransGen (TracedStep env sites allowed) t t') :
    Relation.ReflTransGen (ThreadStep env sites allowed) p
      ⟨t'.shared, Function.update p.threads i (some t'.toLocal)⟩ := by
  have hlift : Relation.ReflTransGen (fun a b => LocalStep env sites allowed a.1 a.2 b.1 b.2)
      (t.toLocal, t.shared) (t'.toLocal, t'.shared) :=
    hrun.lift (fun u : Thread K => (u.toLocal, u.shared)) (fun _ _ hstep => hstep)
  rw [← hshared] at hlift
  exact pool_run hi hlift

/-- A step at which a thread starts another. -/
theorem thread_spawn {allowed : Addr → Prop} {p : Pool (Mem × K) (Local K)} {i j : Nat}
    {t t' u : Thread K} (hi : p.threads i = some t.toLocal) (hj : p.threads j = none)
    (hshared : p.shared = t.shared) (hstep : TracedStep env sites allowed t t')
    (hborn : Born env sites t.toLocal t'.toLocal u.toLocal) :
    ThreadStep env sites allowed p
      ⟨t'.shared, Function.update (Function.update p.threads i (some t'.toLocal)) j
        (some u.toLocal)⟩ := by
  have hlocal : LocalStep env sites allowed t.toLocal t.shared t'.toLocal t'.shared := hstep
  rw [← hshared] at hlocal
  exact .spawn p i j _ _ _ _ hi hj hlocal hborn

/-- A hook stays installed. -/
theorem traced_hookFn {allowed : Addr → Prop} {t t' : Thread K}
    (hrun : Relation.ReflTransGen (TracedStep env sites allowed) t t')
    (h : env.hookFn t.conf.mem ≠ 0) : env.hookFn t'.conf.mem ≠ 0 := by
  induction hrun with
  | refl => exact h
  | tail _ hlast ih =>
      rw [hlast.1.kept.hookFn]
      exact ih

/-- A process with one thread, in front of `clone`. -/
def workerPool : Pool (Mem × Nat) (Local Nat) where
  shared := Thread.shared ⟨workerSite 220, []⟩
  threads i := if i = 0 then some (Thread.toLocal ⟨workerSite 220, []⟩) else none

theorem workerPool_fresh (i : Nat) (l : Local Nat) (hi : workerPool.threads i = some l) :
    Fresh workerEnv flatSites (l.thread workerPool.shared) ∧ l.trace = [] := by
  by_cases h0 : i = 0
  · simp only [workerPool, if_pos h0, Option.some.injEq] at hi
    rw [← hi]
    exact ⟨worker_fresh 220, rfl⟩
  · simp only [workerPool, if_neg h0, reduceCtorEq] at hi

/-- The thread that `clone` starts, with the registers of its parent. -/
def childOf (t : Thread K) : Thread K :=
  ⟨{ t.conf with activations := [], trace := [] }, []⟩

/-- The child has one jump to go, and is back at the site one instruction later. -/
theorem child_returns (allowed : Addr → Prop) {c : Conf Nat} (hm : Installed workerEnv c.mem)
    (hpc : c.pc = returnWord workerEnv 13) (hgp : c.x gp = 0x40004) :
    ∃ d, Relation.ReflTransGen (TracedStep workerEnv flatSites allowed) ⟨c, []⟩ ⟨d, []⟩ ∧
      d.pc = 0x40000 := by
  have hfetch : Fetched workerEnv c (.jalr gp gp 0) (returnWord workerEnv 14) :=
    fetched_returnWord hm (by decide) hpc (AgreeAbove.refl workerEnv.stack 0 c.mem)
  rcases step_jalr hfetch hgp (by decide) with ⟨⟨c', hquiet⟩, hall⟩
  have hpc' : c'.pc = 0x40004 := (hall c' hquiet.step).pc
  have hne : workerEnv.region c.pc ≠ .foreign := by
    rw [hpc, returnWord, workerEnv.region_return 13 (by decide)]
    decide
  have hland : workerEnv.region c'.pc = .foreign := by
    rw [hpc']
    exact show flatRegion 0x40004 = .foreign by decide
  have hjump : TracedStep workerEnv flatSites allowed ⟨c, []⟩ ⟨c', []⟩ := by
    refine ⟨.exec c c' [] hquiet.exec (hquiet.kept worker_offStack) (fun hf => absurd hf hne)
      (fun _ => Or.inl (Or.inl hland)), ?_⟩
    rintro (hf | hctx)
    · exact absurd hf hne
    · exact absurd rfl hctx
  exact ⟨_, (Relation.ReflTransGen.single hjump).tail (worker_step hland (Or.inr ⟨hpc', rfl⟩) rfl
    ⟨rfl, rfl⟩ rfl (Or.inl (Or.inr rfl)) []), rfl⟩

/-- A process that goes through `clone`: the hook of the parent consents, the
    call is made, and the child comes to a patched site. -/
theorem threads_mediated_clone :
    ∃ p' parent child, Relation.ReflTransGen
        (ThreadStep workerEnv flatSites (fun pc => ¬ GpWindow workerEnv pc)) workerPool p' ∧
      p'.threads 0 = some parent ∧ p'.threads 1 = some child ∧
      parent.trace.countP (Event.forwarded workerEnv) = 1 ∧
      ((∀ e ∈ parent.trace, e.sourced workerEnv) ∧
        parent.trace.countP (Event.forwarded workerEnv) ≤ parent.trace.countP Event.consent) ∧
      flatSites child.current.pc ∧ child.current.x gp = workerEnv.rgp ∧
      ∀ c', Exec workerEnv (child.thread p'.shared).conf c' → c'.pc = workerEnv.rgp := by
  have hclone : isClone 220 := Or.inl rfl
  rcases worker_calls (fun pc => ¬ GpWindow workerEnv pc) (show (220 : Word) ≠ 139 by decide) with
    ⟨t, t', h⟩
  rcases child_returns (fun pc => ¬ GpWindow workerEnv pc) (c := (childOf t').conf)
    h.installed h.behind (h.back hclone) with ⟨d, hback, hpc⟩
  -- The parent goes to its system call, starts the child there, and the child goes on.
  have hissue := thread_run (p := workerPool) (i := 0) rfl rfl h.run
  have hspawn := hissue.tail (thread_spawn (i := 0) (j := 1) (u := childOf t') rfl rfl rfl h.step
    (.clone h.issues rfl (fun _ _ _ _ => rfl) ⟨rfl, rfl, rfl⟩))
  have hall := hspawn.trans (thread_run (i := 1) rfl rfl hback)
  have hbefore : workerEnv.hookFn t'.conf.mem ≠ 0 :=
    traced_hookFn (h.run.tail h.step) (worker_hook 220)
  have hhook := traced_hookFn hback hbefore
  have hparent := threads_mediated worker_sites workerPool_fresh hall (i := 0) rfl
  have hchild := threads_mediated worker_sites workerPool_fresh hall (i := 1) rfl
  exact ⟨_, _, _, hall, rfl, rfl, h.once, hparent.2 hhook, hpc, hchild.1 hpc⟩

end Vpoline
