import Vpoline.Theory.Install
import Vpoline.Theory.Place

/-!
# What `gp` Holds at a Patched Site

A patched site jumps to whatever is in `gp`, so every piece of application
code has to find `relocated_gp` there. vpoline borrows `gp` for the return
address of a site while it is on its way in and out. A handler that is
started meanwhile inherits the borrowed value, and the first patched site it
executes jumps to the instruction behind the interrupted one instead of to
the trampoline.

Outside these windows the law holds. Each step keeps the thread and every
pending context at a `Place`, so a handler that starts outside a window finds
`gp` as it should be, and so does the code it returns to.

## Main definitions

* `AtKnownPlace`: The invariant of a thread and of its pending contexts.
* `Fresh`: A thread that starts in application code, or out of `clone`.

## Theorems

* `AtKnownPlace.step`: One step, signals included.
* `gp_at_sites`: Every site finds `relocated_gp` if no signal is delivered in
  a window.
* `handler_inherits_return_address`: A signal in a window.
-/

namespace Vpoline

open RV64

variable {K : Type} {env : Env K} {sites : Addr → Prop}

/-- The invariant of a thread and of the contexts its handlers return to. -/
structure AtKnownPlace (env : Env K) (sites : Addr → Prop) (t : Thread K) : Prop where
  loaded : Loaded env sites t.conf.mem
  place : Place env sites t.conf.pc t.conf.x
  returns : Returns env t.conf.activations
  contexts : ∀ ctx ∈ t.contexts, Place env sites ctx.pc ctx.x ∧ Returns env ctx.activations

/-- One step of a thread, if no signal is delivered in a window. -/
theorem AtKnownPlace.step (hs : PatchedSites env sites) {t t' : Thread K}
    (h : AtKnownPlace env sites t)
    (hstep : SigStep env sites (fun pc => ¬ GpWindow env pc) t t') : AtKnownPlace env sites t' := by
  cases hstep with
  | exec c c' contexts he hk hf hl =>
      rcases h.place.step hs h.returns h.loaded he hf hl with ⟨hplace, hreturns⟩
      exact ⟨h.loaded.kept hk, hplace, hreturns, h.contexts⟩
  | deliver c hc contexts hallowed happ hf hk =>
      -- The handler inherits the interrupted `gp`.
      have hgp : c.x.get gp = env.rgp := h.place.gp_of_not_window hallowed
      refine ⟨h.loaded.kept hk, .app happ (hf.gp.trans hgp), ?_, ?_⟩
      · rw [hf.activations]
        exact h.returns
      · intro ctx hctx
        rcases List.mem_cons.mp hctx with rfl | hctx
        · exact ⟨h.place, h.returns⟩
        · exact h.contexts ctx hctx
  | sigreturn c ctx contexts =>
      rcases h.contexts ctx List.mem_cons_self with ⟨hplace, hreturns⟩
      exact ⟨h.loaded, hplace, hreturns, fun ctx' h' => h.contexts ctx' (List.mem_cons_of_mem _ h')⟩

/-- At a patched site no place but application code is possible. -/
theorem Place.gp_at_site (hs : PatchedSites env sites) {pc : Addr} {x : Regs}
    (h : Place env sites pc x) (hsite : sites pc) : x.get gp = env.rgp := by
  have hregion := hs.region pc hsite
  have hapart := hs.apart pc hsite
  cases h with
  | app _ hgp => exact hgp
  | entry hpc => bv_omega
  | body k y₀ y hk hpc _ _ => bv_omega
  | hook i hi hpc hregs =>
      rw [hpc, env.region_loc .asmSyscallHook i hi] at hregion
      exact absurd hregion (by simp only [reduceCtorEq, not_false_eq_true])
  | noIntercept i _ _ hgp => exact hgp
  | call _ _ hgp => exact hgp
  | hookRet _ hgp => exact hgp
  | ret i hi hpc hgp =>
      rw [returnWord] at hpc
      bv_omega

/-- A thread as it starts: in application code with `gp` in place, or behind
    the system call of `clone`, with the return address in `gp`. -/
structure Fresh (env : Env K) (sites : Addr → Prop) (t : Thread K) : Prop where
  loaded : Loaded env sites t.conf.mem
  starts : App env sites t.conf.pc ∧ t.conf.x gp = env.rgp ∨ t.conf.pc = returnWord env 13
  activations : t.conf.activations = []
  contexts : t.contexts = []

theorem Fresh.atKnownPlace {t : Thread K} (h : Fresh env sites t) : AtKnownPlace env sites t := by
  refine ⟨h.loaded, ?_, ?_, ?_⟩
  · rcases h.starts with ⟨happ, hgp⟩ | hpc
    · exact .app happ hgp
    · exact .ret 13 (by decide) hpc (fun hnb => absurd (by decide) hnb)
  · rw [h.activations]
    exact fun act hact => absurd hact List.not_mem_nil
  · rw [h.contexts]
    exact fun ctx hctx => absurd hctx List.not_mem_nil

/-- In every run in which no signal is delivered in a window, every patched
    site that is executed finds `relocated_gp` in `gp` and enters the
    trampoline. -/
theorem gp_at_sites (hs : PatchedSites env sites) {t t' : Thread K} (h : Fresh env sites t)
    (hrun : Relation.ReflTransGen (SigStep env sites (fun pc => ¬ GpWindow env pc)) t t')
    (hsite : sites t'.conf.pc) :
    t'.conf.x gp = env.rgp ∧ ∀ c', Exec env t'.conf c' → c'.pc = env.rgp := by
  have hknown : AtKnownPlace env sites t' :=
    invariant_run (fun _ _ hu hstep => hu.step hs hstep) h.atKnownPlace hrun
  have hgp := hknown.place.gp_at_site hs hsite
  exact ⟨hgp, fun c' he => (site_step hs hsite (hknown.loaded.text _ hsite) hgp he).1⟩

/-- A signal handler of the flat process at `0x60000`, which calls a function
    with a patched site. -/
def flatSignal (c c' : Conf Nat) : Prop :=
  c.pc = 0x60000 ∧ c' = { c with pc := 0x40000 }

theorem flatSignal_trace (c c' : Conf Nat) (h : flatSignal c c') : c.trace <+: c'.trace := by
  refine ⟨[], ?_⟩
  rw [List.append_nil, h.2]

/-- The flat process with that handler and no hook. -/
def signalEnv : Env Nat := flatEnv flatSignal flatKernel flatSignal_trace

def flatSites (a : Addr) : Prop := a = 0x40000

/-- A thread of the process at its patched site. -/
def signalThread : Thread Nat := ⟨flatSite signalEnv 0 64 0, []⟩

theorem flatSites_patched {foreign : Conf K → Conf K → Prop}
    {kernel : Core → K → Word → Mem → K → Prop}
    {htrace : ∀ c c', foreign c c' → c.trace <+: c'.trace} :
    PatchedSites (flatEnv foreign kernel htrace) flatSites := by
  refine ⟨?_, ?_⟩
  · rintro a rfl
    show flatRegion 0x40000 = .words
    decide
  · rintro a rfl
    show 136 ≤ ((0x40000 : Addr) - (0x10000 - 56)).toNat
    decide

theorem signalThread_fresh : Fresh signalEnv flatSites signalThread := by
  refine ⟨⟨flatSite_installed 0 64 0, ?_, fun h => ?_⟩, Or.inl ⟨Or.inr rfl, rfl⟩, rfl, rfl⟩
  · rintro a rfl
    exact flatSite_word _ 0 64 0 rfl rfl
  · exact absurd (flatSite_hookFn 0 64 0) h

/-- The handler runs to its patched site, whatever it interrupts. -/
theorem flatSignal_run (allowed : Addr → Prop) (c : Conf Nat) (contexts : List Context)
    (hallowed : allowed c.pc) :
    Relation.ReflTransGen (SigStep signalEnv flatSites allowed) ⟨c, contexts⟩
      ⟨{ c with pc := 0x40000 }, c.context :: contexts⟩ := by
  have hregion : signalEnv.region 0x60000 = .foreign := by
    show flatRegion 0x60000 = .foreign
    decide
  refine Relation.ReflTransGen.tail (Relation.ReflTransGen.single
    (SigStep.deliver c { c with pc := 0x60000 } contexts hallowed (Or.inl hregion) ⟨rfl, rfl⟩
      (fun _ _ => rfl))) ?_
  refine SigStep.exec { c with pc := 0x60000 } { c with pc := 0x40000 } _ ?_ (fun _ _ => rfl)
    (fun _ => ⟨rfl, rfl⟩) (fun _ => Or.inl (Or.inr rfl))
  simp only [Exec, hregion]
  exact ⟨rfl, rfl⟩

/-- A signal at the patched site itself does no harm. -/
theorem gp_at_sites_flat :
    ∃ t', Relation.ReflTransGen (SigStep signalEnv flatSites (fun pc => ¬ GpWindow signalEnv pc))
        signalThread t' ∧ t'.contexts ≠ [] ∧ flatSites t'.conf.pc ∧
      t'.conf.x gp = signalEnv.rgp ∧ ∀ c', Exec signalEnv t'.conf c' → c'.pc = signalEnv.rgp := by
  have hwindow : ¬ GpWindow signalEnv 0x40000 := by
    have hrgp : signalEnv.rgp = 0x10000 := rfl
    rintro (⟨i, hi, hpc⟩ | ⟨i, hi, hpc⟩ | ⟨i, hi, hpc⟩)
    · rw [hrgp] at hpc
      bv_omega
    · have hloc : (0x40000 : Addr) = 0x30000 + BitVec.ofNat 64 (4 * i) := hpc
      bv_omega
    · have hsmall : ∀ i ∈ borrowedWords, i < 14 := by decide
      have hi14 := hsmall i hi
      rw [returnWord, hrgp] at hpc
      bv_omega
  have hrun := flatSignal_run (fun pc => ¬ GpWindow signalEnv pc) signalThread.conf [] hwindow
  exact ⟨_, hrun, List.cons_ne_nil _ _, rfl,
    gp_at_sites flatSites_patched signalThread_fresh hrun rfl⟩

/-- The thread behind its patched site, in front of the trampoline. -/
def enteredConf : Conf Nat :=
  { flatSite signalEnv 0 64 0 with
    pc := 0x10000, x := (flatSite signalEnv 0 64 0).x.set gp 0x40004 }

/-- The handler that interrupts it there, at its own patched site. -/
def handlerConf : Conf Nat := { enteredConf with pc := 0x40000 }

/-- Where that site takes it. -/
def strayConf : Conf Nat :=
  { handlerConf with pc := 0x40004, x := handlerConf.x.set gp 0x40004 }

/-- A patched site of the flat process jumps to what is in `gp`. -/
theorem flat_site_exec {c c' : Conf Nat} (hpc : c.pc = 0x40000)
    (hmem : c.mem = (flatSite signalEnv 0 64 0).mem)
    (hc' : ExecInstr signalEnv (c.pc + 4) c (.jalr gp gp 0) c') : Exec signalEnv c c' := by
  refine (exec_word_iff ?_ ?_).mpr hc'
  · rw [hpc]
    exact flatSites_patched.region _ rfl
  · rw [hpc, hmem, flatSite_word signalEnv 0 64 0 rfl rfl]
    decide

/-- The patched site takes the thread to the trampoline. -/
theorem signal_entered (allowed : Addr → Prop) :
    SigStep signalEnv flatSites allowed signalThread ⟨enteredConf, []⟩ := by
  have hregion : signalEnv.region 0x40000 = .words := flatSites_patched.region _ rfl
  have hleaves : ¬ Leaves signalEnv 0x40000 := inside_site flatSites_patched rfl
  refine .exec _ _ _ (flat_site_exec rfl rfl (ExecInstr.step _ enteredConf.toCore rfl))
    (fun _ _ => rfl) (fun hf => ?_) (fun hl => absurd hl hleaves)
  exact absurd (hregion.symm.trans hf) (by decide)

/-- A signal in front of the first instruction of the trampoline: the handler
    starts with `0x40004` in `gp`, and its patched site jumps there. -/
theorem handler_inherits_return_address :
    ∃ t', Relation.ReflTransGen (SigStep signalEnv flatSites (fun _ => True)) signalThread t' ∧
      flatSites t'.conf.pc ∧ t'.conf.x gp = 0x40004 ∧ t'.conf.x gp ≠ signalEnv.rgp ∧
      ∃ c', Exec signalEnv t'.conf c' ∧ c'.pc = 0x40004 := by
  have hrest := flatSignal_run (fun _ => True) enteredConf [] trivial
  refine ⟨⟨handlerConf, [enteredConf.context]⟩, .head (signal_entered _) hrest, rfl, rfl, ?_,
    strayConf, flat_site_exec rfl rfl (ExecInstr.step _ strayConf.toCore rfl), rfl⟩
  show (0x40004 : Word) ≠ 0x10000
  decide

end Vpoline
