import Vpoline.Theory.Startup

/-!
# The Process Image After Startup

What a process consists of when control reaches the true `__libc_start_main`,
as one equation.

The constructor finds the `ecall`s of libc while it replaces them, mapping by
mapping and in place. `StartupInputs.sites` is the list that a reader of the
original memory would draw up. `startup_image` says that the image is the one
that has been set up, with `jalr gp, gp, 0` stored at the sites in the list and
each mapping protected as its line says, and that the layout is the one
computed from the original `gp`.

`Theory.Constructor` describes the process as a fold over the mappings, each of
which is decoded in the memory that the ones before it have left. Only here is
it needed that the mappings do not overlap.

## Main definitions

* `StartupInputs.sites`: The `ecall`s that are replaced.
* `LaidOut`: Mappings that do not overlap.
* `Proc.protectAll`: The protections of some mappings.
* `StartupInputs.image`: The image.

## Theorems

* `sectionSites_patchAll`: One mapping does not change the sites of another.
* `foldl_rewriteSection`: All mappings at once.
* `vpolineInit_returns`, `foldl_image`: The constructor.
* `startup_image`: The image.
-/

namespace Vpoline

/-- The `ecall`s of libc, as a reader of the original memory finds them. -/
def StartupInputs.sites (i : StartupInputs) : List Nat :=
  i.rewrites.flatMap (i.sectionSites i.mem)

/-- The mappings that are rewritten do not overlap. -/
def LaidOut (rewrites : List RewriteArgs) : Prop :=
  rewrites.Pairwise (fun args args' =>
    args.code.toNat + args.codeSize.toNat ≤ args'.code.toNat ∨
      args'.code.toNat + args'.codeSize.toNat ≤ args.code.toNat)

/-- Each mapping has the protection that its line says. -/
def Proc.protectAll (i : StartupInputs) (rewrites : List RewriteArgs) (p : Proc) : Proc :=
  rewrites.foldl
    (fun p args => p.protect i.sysconf args.code args.codeSize.toNat args.memProt) p

/-- The image of a process that has started with the layout `g`. -/
def StartupInputs.image (i : StartupInputs) (g : Globals) : Proc :=
  ((i.setUpProc g).patchAll i.sites).protectAll i i.rewrites

section Fields

variable (i : StartupInputs) (rewrites : List RewriteArgs) (p : Proc)

@[simp] theorem protectAll_mem : (p.protectAll i rewrites).mem = p.mem := by
  unfold Proc.protectAll
  induction rewrites generalizing p with
  | nil => rfl
  | cons args rewrites ih => exact ih _

@[simp] theorem protectAll_globals : (p.protectAll i rewrites).globals = p.globals := by
  unfold Proc.protectAll
  induction rewrites generalizing p with
  | nil => rfl
  | cons args rewrites ih => exact ih _

@[simp] theorem protectAll_gp : (p.protectAll i rewrites).gp = p.gp := by
  unfold Proc.protectAll
  induction rewrites generalizing p with
  | nil => rfl
  | cons args rewrites ih => exact ih _

end Fields

/-! ## All mappings -/

section Mappings

variable {i : StartupInputs} {rgp : Addr}

/-- Replacing the `ecall`s of one mapping does not change the sites of another. -/
theorem sectionSites_patchAll {args args' : RewriteArgs} {m : Mem} (h : Rewritable i rgp args)
    (h' : Rewritable i rgp args') (hne : args.code ≠ 0) (hne' : args'.code ≠ 0)
    (hapart : args.code.toNat + args.codeSize.toNat ≤ args'.code.toNat ∨
      args'.code.toNat + args'.codeSize.toNat ≤ args.code.toNat) :
    i.sectionSites (patchAll m (i.sectionSites m args)) args' = i.sectionSites m args' := by
  refine sectionSites_congr hne' (fun a hlow hhigh => patchAll_outside (fun p hp => ?_))
  have hin := sectionSites_inside h hne hp
  have hfits := h.fits
  have hfits' := h'.fits
  bv_omega

/-- The mappings, one after the other, are all stores and then all protections.
    The induction is on the mappings: the later ones are still what they were. -/
theorem foldl_rewriteSection {rewrites : List RewriteArgs} (hl : LaidOut rewrites)
    (h : ∀ args ∈ rewrites, Rewritable i rgp args ∧ args.code ≠ 0) (p : Proc) :
    rewrites.foldl (Proc.rewriteSection i) p
      = (p.patchAll (rewrites.flatMap (i.sectionSites p.mem))).protectAll i rewrites := by
  induction rewrites generalizing p with
  | nil => exact (Proc.patchAll_nil p).symm
  | cons args rewrites ih =>
      rcases List.pairwise_cons.mp hl with ⟨hapart, hrest⟩
      rcases List.forall_mem_cons.mp h with ⟨⟨hargs, hne⟩, hothers⟩
      have hsame : rewrites.flatMap (i.sectionSites (p.rewriteSection i args).mem)
          = rewrites.flatMap (i.sectionSites p.mem) := by
        refine congrArg List.flatten (List.map_congr_left (fun args' hmem => ?_))
        rcases hothers args' hmem with ⟨hargs', hne'⟩
        exact sectionSites_patchAll hargs hargs' hne hne' (hapart args' hmem)
      rw [List.foldl_cons, ih hrest hothers, hsame, List.flatMap_cons, ← Proc.patchAll_append]
      rfl

end Mappings

/-! ## The whole start -/

section Start

variable {i : StartupInputs} {g : Globals}

/-- The constructor gets to its end. -/
theorem vpolineInit_returns (hf : RewritableMaps i) (hskip : Skips i = false) (hup : SetsUp i)
    (hc : Completes i) (hg : layout i.gp i.sysconf i.mmap = .ok g) :
    ∃ s, i.initial.vpolineInit i = .ok (s, false) ∧
      s.proc = i.rewrites.foldl (Proc.rewriteSection i) (i.setUpProc g) := by
  have hinit := vpolineInit_spec hf
  cases hrun : i.initial.vpolineInit i with
  | error halted =>
      rw [hrun] at hinit
      rcases hinit.2.2 with hend | hend
      · exact absurd hup hend.1
      · exact absurd hc hend.2.1
  | ok r =>
      rw [hrun] at hinit
      rcases r with ⟨s, _ | _⟩
      · rcases hinit.2.2.2.2 with ⟨g', hg', hproc⟩
        rw [hg] at hg'
        cases hg'
        exact ⟨s, rfl, hproc⟩
      · exact absurd (hskip.symm.trans hinit.1) Bool.false_ne_true

/-- The mappings make the image out of the process that was set up. -/
theorem foldl_image (hf : RewritableMaps i) (hl : LaidOut i.rewrites)
    (hg : layout i.gp i.sysconf i.mmap = .ok g) :
    i.rewrites.foldl (Proc.rewriteSection i) (i.setUpProc g) = i.image g := by
  rcases layout_ok hg with ⟨page, hpage, _⟩
  rw [foldl_rewriteSection hl (fun args hmem => ⟨hf.rewritable page hpage args hmem,
    rewrites_nonzero hmem⟩)]
  unfold StartupInputs.image StartupInputs.sites
  refine congrArg (fun sites => ((i.setUpProc g).patchAll sites).protectAll i i.rewrites) ?_
  exact congrArg List.flatten (List.map_congr_left (fun args hmem =>
    sectionSites_setUpProc hf hg hmem))

/-- The true `__libc_start_main` is entered in the image. -/
theorem startup_yields (hf : RewritableMaps i) (hl : LaidOut i.rewrites) (hskip : Skips i = false)
    (hup : SetsUp i) (hc : Completes i) (hg : layout i.gp i.sysconf i.mmap = .ok g) :
    (startup i).state.proc = i.image g ∧ (startup i).skipped = false ∧
      (startup i).stopped = none := by
  rcases vpolineInit_returns hf hskip hup hc hg with ⟨s, hrun, hproc⟩
  rw [foldl_image hf hl hg] at hproc
  unfold startup
  rw [hrun]
  refine ⟨?_, rfl, rfl⟩
  -- `gp` is set back in between, and moved again.
  have hgp : (i.image g).gp = (i.image g).globals.rsi.relocatedGp := by
    unfold StartupInputs.image
    rw [protectAll_gp, protectAll_globals]
    rfl
  simp only [InitState.libcStartMain, InitState.moveGp, InitState.modify, InitState.call, hproc]
  rw [← hgp]

end Start

theorem pageStart_laidOut {m : Mem} : LaidOut (pageStart m).rewrites := by
  rw [pageStart_rewrites]
  exact List.pairwise_singleton _ _

theorem pageStart_sites {m : Mem} {sites : List Nat}
    (h : sectionEcalls (capstone knowsAll) 0x40000 0x1000 m = sites) :
    (pageStart m).sites = sites := by
  unfold StartupInputs.sites
  rw [pageStart_rewrites, List.flatMap_singleton]
  exact h

end Vpoline
