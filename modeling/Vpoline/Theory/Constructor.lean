import Vpoline.Theory.InPlace
import Vpoline.Theory.Maps
import Vpoline.Theory.SetUp

/-!
# The Second Half of the Constructor

Rewriting libc and loading the hook library, with `gp` moved and the injected
code in place.

`Settled` describes the process all the time: the stores go into the mappings
of libc, and those are apart from the injected code. What a mapping becomes is
`Proc.rewriteSection`, and what all of them become is the fold of it over the
mappings that the text lists. `activate_spec` says when the constructor gets to
its end, and what has been replaced if it does not.

No store faults here. A mapping may be written while it is rewritten, since
`mprotect` has said so.

## Main definitions

* `Same`: Nothing that the injected code depends on differs.
* `Live`, `Settled`: The injected code is in place at every call.
* `StartupInputs.rewrites`: The mappings that are rewritten.
* `StartupInputs.sectionSites`: The `ecall`s that are replaced in one of them.
* `Proc.rewriteSection`: What becomes of a process.
* `SectionPasses`, `MapsPass`, `HookPasses`: How far the constructor gets.
* `FindsIn`, `MapsFind`: There is an `ecall` to be replaced.
* `Rewritable`, `RewritableMaps`: What is relied on of the mappings.

## Theorems

* `follow_spec`: The stores of a sweep.
* `section_spec`: `disassemble_and_rewrite`.
* `rewriteCode_spec`: `rewrite_code`.
* `activate_spec`: The second half of the constructor.
-/

namespace Vpoline

/-! ## The injected code stays -/

/-- Nothing that the injected code depends on differs. -/
structure Same (p₀ p : Proc) : Prop where
  gp : p.gp = p₀.gp
  globals : p.globals = p₀.globals
  prot : ∀ a, (a - (p₀.globals.rsi.relocatedGp - 56)).toNat < 136 → p.prot a = p₀.prot a
  mem : ∀ a, (a - (p₀.globals.rsi.relocatedGp - 56)).toNat < 136 → p.mem a = p₀.mem a

theorem Same.refl (p : Proc) : Same p p := ⟨rfl, rfl, fun _ _ => rfl, fun _ _ => rfl⟩

theorem Same.symm {p₀ p : Proc} (h : Same p₀ p) : Same p p₀ := by
  refine ⟨h.gp.symm, h.globals.symm, fun a ha => ?_, fun a ha => ?_⟩
  · rw [h.globals] at ha
    exact (h.prot a ha).symm
  · rw [h.globals] at ha
    exact (h.mem a ha).symm

theorem Same.ready {dst : Addr} {p₀ p : Proc} (h : Same p₀ p) (hr : Ready dst p₀) :
    Ready dst p := by
  have hlen := length_trampoline dst
  refine ⟨?_, ?_, ?_⟩
  · rw [h.globals]
    refine hr.trampoline.congr (by rw [hlen]; decide) (fun b hb => h.mem b ?_)
    rw [hlen] at hb
    bv_omega
  · rw [h.globals]
    refine hr.returnSequence.congr (by decide) (fun b hb => h.mem b ?_)
    rw [length_return, retSequenceSize] at hb
    omega
  · intro a ha
    rw [h.globals] at ha
    rw [h.prot a ha]
    exact hr.executable a ha

/-- The injected code is in place, and was at each call made since the first
    `ecall` was replaced. -/
structure Live (p₀ : Proc) (s : InitState) : Prop where
  same : Same p₀ s.proc
  calls : ∀ c ∈ s.calls, c.2.patched ≠ [] → Same p₀ c.2 ∧ s.proc.patched ≠ []

/-- If an `ecall` is replaced, a call has been made since. -/
def Seen (s : InitState) : Prop :=
  s.proc.patched ≠ [] → ∃ c ∈ s.calls, c.2.patched ≠ []

/-- `Live`, with a call that shows it. -/
structure Settled (p₀ : Proc) (s : InitState) : Prop where
  live : Live p₀ s
  seen : Seen s

/-- The process after the `ecall`s at `sites` have been replaced. -/
def Proc.patchAll (p : Proc) (sites : List Nat) : Proc :=
  { p with
    mem := Vpoline.patchAll p.mem sites
    patched := p.patched ++ sites.map (BitVec.ofNat 64) }

theorem Proc.patchAll_nil (p : Proc) : p.patchAll [] = p := by
  unfold Proc.patchAll
  rw [List.map_nil, List.append_nil]
  rfl

theorem Proc.patchAll_append (p : Proc) (xs ys : List Nat) :
    (p.patchAll xs).patchAll ys = p.patchAll (xs ++ ys) := by
  simp only [Proc.patchAll, Vpoline.patchAll_append, List.map_append, List.append_assoc]

section Live

variable {p₀ : Proc} {s : InitState}

theorem Live.call (h : Live p₀ s) (fns : List LibcFn) : Live p₀ (s.call fns) := by
  refine ⟨h.same, fun c hc hp => ?_⟩
  rcases InitState.mem_call.mp hc with hc | ⟨fn, _, rfl⟩
  · exact h.calls c hc hp
  · exact ⟨h.same, hp⟩

theorem Live.debugCall (h : Live p₀ s) (i : StartupInputs) (fns : List LibcFn) :
    Live p₀ (s.debugCall i fns) := by
  rcases InitState.debugCall_cases i fns s with heq | heq <;> rw [heq]
  · exact h.call fns
  · exact h

/-- Replacing an `ecall` outside the injected code. -/
theorem Live.patch (h : Live p₀ s) {address : Nat}
    (hapart : ∀ k, k < 4 →
      136 ≤ (BitVec.ofNat 64 (address + k) - (p₀.globals.rsi.relocatedGp - 56)).toNat) :
    Live p₀ (s.modify (fun p => p.patchAll [address])) := by
  refine ⟨⟨h.same.gp, h.same.globals, h.same.prot, fun a ha => ?_⟩,
    fun c hc hp => ⟨(h.calls c hc hp).1, List.append_ne_nil_of_right_ne_nil _
      (List.cons_ne_nil _ _)⟩⟩
  show Mem.write s.proc.mem (BitVec.ofNat 64 address) 4 patchedEcall a = _
  rw [Mem.write_outside ?_]
  · exact h.same.mem a ha
  -- A byte of the stored word would be one of the injected code.
  · by_contra hlt
    have hk := hapart (a - BitVec.ofNat 64 address).toNat (by omega)
    rw [BitVec.ofNat_add, BitVec.ofNat_toNat, BitVec.setWidth_eq] at hk
    bv_omega

/-- Protecting pages that hold no injected code. -/
theorem Live.protect (h : Live p₀ s) {pageSize : BitVec 64} {addr : Addr} {len : Nat} (prot : Prot)
    (hapart : ∀ a : Addr, (a - addr).toNat < InitState.protectedSize pageSize len →
      136 ≤ (a - (p₀.globals.rsi.relocatedGp - 56)).toNat) :
    Live p₀ (s.modify (Proc.protect pageSize addr len prot)) := by
  refine ⟨⟨h.same.gp, h.same.globals, fun a ha => ?_, h.same.mem⟩, h.calls⟩
  refine Eq.trans (if_neg (fun hin => ?_)) (h.same.prot a ha)
  have hout := hapart a hin
  omega

/-- The next call shows it. -/
theorem Live.settled {fns : List LibcFn} (h : Live p₀ s) (hne : fns ≠ []) :
    Settled p₀ (s.call fns) := by
  refine ⟨h.call fns, fun hp => ?_⟩
  rcases List.exists_mem_of_ne_nil fns hne with ⟨fn, hfn⟩
  exact ⟨(fn, s.proc), InitState.mem_call.mpr (Or.inr ⟨fn, hfn, rfl⟩), hp⟩

theorem Settled.call (h : Settled p₀ s) (fns : List LibcFn) : Settled p₀ (s.call fns) := by
  refine ⟨h.live.call fns, fun hp => ?_⟩
  rcases h.seen hp with ⟨c, hc, hcp⟩
  exact ⟨c, InitState.mem_call.mpr (Or.inl hc), hcp⟩

theorem Settled.debugCall (h : Settled p₀ s) (i : StartupInputs) (fns : List LibcFn) :
    Settled p₀ (s.debugCall i fns) := by
  rcases InitState.debugCall_cases i fns s with heq | heq <;> rw [heq]
  · exact h.call fns
  · exact h

/-- Protecting is no store, so nothing new is to be seen. -/
theorem Settled.protect (h : Settled p₀ s) {pageSize : BitVec 64} {addr : Addr} {len : Nat}
    (prot : Prot)
    (hapart : ∀ a : Addr, (a - addr).toNat < InitState.protectedSize pageSize len →
      136 ≤ (a - (p₀.globals.rsi.relocatedGp - 56)).toNat) :
    Settled p₀ (s.modify (Proc.protect pageSize addr len prot)) :=
  ⟨h.live.protect prot hapart, h.seen⟩

/-- The stores of a sweep over bytes that may be written and hold no injected
    code. The induction is on the positions. -/
theorem follow_spec {i : StartupInputs} {sweep : List (Nat × Bool)} (h : Live p₀ s)
    (hw : ∀ p ∈ reported sweep, Writable s.proc.prot (BitVec.ofNat 64 p) 4)
    (hapart : ∀ p ∈ reported sweep, ∀ k, k < 4 →
      136 ≤ (BitVec.ofNat 64 (p + k) - (p₀.globals.rsi.relocatedGp - 56)).toNat) :
    ∃ s', (InitState.effects i).follow sweep s = .ok s' ∧
      s'.proc = s.proc.patchAll (reported sweep) ∧ Live p₀ s' := by
  induction sweep generalizing s with
  | nil => exact ⟨s, rfl, (Proc.patchAll_nil _).symm, h⟩
  | cons step sweep ih =>
      -- At most positions there is nothing to store.
      rcases step with ⟨p, _ | _⟩
      · exact ih (h.call [.csDisasmIter]) hw hapart
      · rw [reported_take] at hw hapart ⊢
        rcases List.forall_mem_cons.mp hw with ⟨hwp, hws⟩
        rcases List.forall_mem_cons.mp hapart with ⟨hap, haps⟩
        have hstore : (s.call [.csDisasmIter]).patch i p
            = .ok ((s.call [.csDisasmIter]).modify (fun q => q.patchAll [p])) := by
          unfold InitState.patch
          rw [store_writable (s := s.call [.csDisasmIter]) patchedEcall hwp]
          rfl
        rcases ih ((h.call [.csDisasmIter]).patch hap) hws haps with ⟨s', hrun, hproc, hlive⟩
        refine ⟨s', ?_, ?_, hlive⟩
        · have hpatch : (InitState.effects i).patch p ((InitState.effects i).disasm p s)
              = .ok ((s.call [.csDisasmIter]).modify (fun q => q.patchAll [p])) := hstore
          rw [Effects.follow, hpatch]
          exact hrun
        · rw [hproc]
          exact Proc.patchAll_append s.proc [p] (reported sweep)

end Live

theorem effects_storesWord (i : StartupInputs) : (InitState.effects i).StoresWord := by
  refine ⟨fun _ _ => rfl, fun p s s' h => ?_⟩
  have hpatch : s.patch i p = .ok s' := h
  unfold InitState.patch InitState.store at hpatch
  cases hun : s.proc.unwritable (BitVec.ofNat 64 p) with
  | some b =>
      simp only [hun] at hpatch
      cases hpatch
  | none =>
      simp only [hun] at hpatch
      cases hpatch
      rfl

/-! ## One mapping -/

/-- The mappings that are rewritten, in the order of the text. -/
def StartupInputs.rewrites (i : StartupInputs) : List RewriteArgs :=
  match i.maps with
  | .error _ => []
  | .ok text => textArgs text

theorem rewrites_nonzero {i : StartupInputs} {args : RewriteArgs} (h : args ∈ i.rewrites) :
    args.code ≠ 0 := by
  unfold StartupInputs.rewrites at h
  cases hmaps : i.maps with
  | error error =>
      rw [hmaps] at h
      exact absurd h List.not_mem_nil
  | ok text =>
      rw [hmaps] at h
      exact textArgs_nonzero h

/-- The address of the last byte of a mapping. -/
def RewriteArgs.last (args : RewriteArgs) : Nat := args.code.toNat + args.codeSize.toNat - 1

/-- A mapping is rewritten to the end: none of the calls fails. -/
def SectionPasses (i : StartupInputs) (args : RewriteArgs) : Prop :=
  (i.calls args.code).mprotect args.code args.codeSize ⟨true, true, true⟩ = none ∧
    (∃ context, interceptDisasmInit (i.calls args.code) args.last = .ok context) ∧
    (i.calls args.code).mprotect args.code args.codeSize args.memProt = none

/-- The `ecall`s that are replaced in a mapping. There are none unless its
    rewriting gets to the loop. -/
def StartupInputs.sectionSites (i : StartupInputs) (m : Mem) (args : RewriteArgs) : List Nat :=
  match (i.calls args.code).mprotect args.code args.codeSize ⟨true, true, true⟩,
    interceptDisasmInit (i.calls args.code) args.last with
  | none, .ok context => reported (readOnlySweep context m args.code.toNat)
  | _, _ => []

/-- What becomes of a process when a mapping is rewritten to the end. -/
def Proc.rewriteSection (i : StartupInputs) (p : Proc) (args : RewriteArgs) : Proc :=
  (p.patchAll (i.sectionSites p.mem args)).protect i.sysconf args.code args.codeSize.toNat
    args.memProt

/-- What is relied on of a mapping that is rewritten, for a relocated `gp`: it
    does not run past the end of memory, none of its pages holds injected code,
    and the disassembler that capstone returns for it is well behaved. -/
structure Rewritable (i : StartupInputs) (rgp : Addr) (args : RewriteArgs) : Prop where
  fits : args.code.toNat + args.codeSize.toNat ≤ 2 ^ 64
  apart : ∀ a, (a - args.code).toNat < InitState.protectedSize i.sysconf args.codeSize.toNat →
    136 ≤ (a - (rgp - 56)).toNat
  wellBehaved : ∀ d, (i.calls args.code).csOpen = some d → WellBehaved d

theorem disasmInit_ok {calls : RewriteCalls} {last : Nat} {context : InterceptDisasmContext}
    (h : interceptDisasmInit calls last = .ok context) :
    calls.csOpen = some context.handle ∧ context.last = last := by
  unfold interceptDisasmInit at h
  cases hopen : calls.csOpen with
  | none =>
      rw [hopen] at h
      exact absurd h (by simp only [reduceCtorEq, not_false_eq_true])
  | some handle =>
      rw [hopen] at h
      simp only [] at h
      split_ifs at h
      cases h
      exact ⟨rfl, rfl⟩

/-- Rounding up to whole pages. -/
theorem le_protectedSize {pageSize : BitVec 64} (hpage : pageSize ≠ 0) (n : Nat) :
    n ≤ InitState.protectedSize pageSize n := by
  have hpos : 0 < pageSize.toNat := Nat.pos_of_ne_zero (fun h => hpage (BitVec.eq_of_toNat_eq h))
  have hdiv := Nat.div_add_mod (n + pageSize.toNat - 1) pageSize.toNat
  have hmod := Nat.mod_lt (n + pageSize.toNat - 1) hpos
  unfold InitState.protectedSize
  rw [Nat.mul_comm]
  omega

section Section

variable {i : StartupInputs} {args : RewriteArgs} {m m' : Mem}

/-- The sites of a mapping that gets to the loop. -/
theorem sectionSites_eq {context : InterceptDisasmContext}
    (hbefore : (i.calls args.code).mprotect args.code args.codeSize ⟨true, true, true⟩ = none)
    (hinit : interceptDisasmInit (i.calls args.code) args.last = .ok context) (m : Mem) :
    i.sectionSites m args = reported (readOnlySweep context m args.code.toNat) := by
  unfold StartupInputs.sectionSites
  rw [hbefore, hinit]

/-- A mapping has no sites, or those of the sweep over it. -/
theorem sectionSites_cases (i : StartupInputs) (args : RewriteArgs) :
    (∀ m, i.sectionSites m args = []) ∨ ∃ d, (i.calls args.code).csOpen = some d ∧
      ∀ m, i.sectionSites m args = sectionEcalls d args.code args.codeSize m := by
  cases hbefore : (i.calls args.code).mprotect args.code args.codeSize ⟨true, true, true⟩ with
  | some error =>
      refine Or.inl (fun m => ?_)
      unfold StartupInputs.sectionSites
      rw [hbefore]
  | none =>
      cases hinit : interceptDisasmInit (i.calls args.code) args.last with
      | error stop =>
          refine Or.inl (fun m => ?_)
          unfold StartupInputs.sectionSites
          rw [hbefore, hinit]
      | ok context =>
          rcases disasmInit_ok hinit with ⟨hopen, hlast⟩
          refine Or.inr ⟨context.handle, hopen, fun m => ?_⟩
          rw [sectionSites_eq hbefore hinit]
          unfold sectionEcalls
          rw [← RewriteArgs.last, ← hlast]

variable {rgp : Addr}

/-- The sites are words of the mapping. -/
theorem sectionSites_inside (h : Rewritable i rgp args) (hne : args.code ≠ 0) {p : Nat}
    (hp : p ∈ i.sectionSites m args) :
    args.code.toNat ≤ p ∧ p + 4 ≤ args.code.toNat + args.codeSize.toNat := by
  rcases sectionSites_cases i args with hnone | ⟨d, hopen, hsites⟩
  · rw [hnone] at hp
    exact absurd hp List.not_mem_nil
  · rw [hsites] at hp
    exact sectionEcalls_inside (h.wellBehaved d hopen) (by bv_omega) hp

/-- They depend on its bytes. -/
theorem sectionSites_congr (hne : args.code ≠ 0)
    (h : ∀ a, args.code.toNat ≤ a → a < args.code.toNat + args.codeSize.toNat →
      m' (BitVec.ofNat 64 a) = m (BitVec.ofNat 64 a)) :
    i.sectionSites m' args = i.sectionSites m args := by
  rcases sectionSites_cases i args with hnone | ⟨d, _, hsites⟩
  · rw [hnone, hnone]
  · rw [hsites, hsites]
    exact sectionEcalls_congr (by bv_omega) h

/-- They are in pages without injected code. -/
theorem sectionSites_apart (h : Rewritable i rgp args) (hpage : i.sysconf ≠ 0)
    (hne : args.code ≠ 0) {p : Nat} (hp : p ∈ i.sectionSites m args) {k : Nat} (hk : k < 4) :
    136 ≤ (BitVec.ofNat 64 (p + k) - (rgp - 56)).toNat := by
  have hin := sectionSites_inside h hne hp
  have hfits := h.fits
  have hround := le_protectedSize hpage args.codeSize.toNat
  refine h.apart _ ?_
  bv_omega

/-- The state in which the loop over a mapping starts. -/
def InitState.opened (i : StartupInputs) (args : RewriteArgs) (s : InitState) : InitState :=
  (((s.debugCall i [.write]).call [.mprotect]).modify (Proc.protect i.sysconf args.code
    args.codeSize.toNat ⟨true, true, true⟩)).call (disasmInitCalls (i.calls args.code))

theorem opened_proc (i : StartupInputs) (args : RewriteArgs) (s : InitState) :
    (s.opened i args).proc
      = s.proc.protect i.sysconf args.code args.codeSize.toNat ⟨true, true, true⟩ := by
  unfold InitState.opened
  rw [InitState.call_proc, InitState.modify, InitState.call_proc, InitState.debugCall_proc]

theorem opened_mem (i : StartupInputs) (args : RewriteArgs) (s : InitState) :
    (s.opened i args).proc.mem = s.proc.mem := by
  rw [opened_proc]
  rfl

theorem opened_patched (i : StartupInputs) (args : RewriteArgs) (s : InitState) :
    (s.opened i args).proc.patched = s.proc.patched := by
  rw [opened_proc]
  rfl

/-- Of two protections of a mapping the last one counts. -/
theorem protect_patchAll_protect (p : Proc) (sites : List Nat) (prot prot' : Prot) :
    ((p.protect i.sysconf args.code args.codeSize.toNat prot).patchAll sites).protect i.sysconf
        args.code args.codeSize.toNat prot'
      = (p.patchAll sites).protect i.sysconf args.code args.codeSize.toNat prot' := by
  simp only [Proc.protect, Proc.patchAll, Proc.mk.injEq, true_and, and_true]
  funext a
  by_cases hin : (a - args.code).toNat < InitState.protectedSize i.sysconf args.codeSize.toNat
  · rw [if_pos hin, if_pos hin]
  · rw [if_neg hin, if_neg hin, if_neg hin]

variable {p₀ : Proc} {s : InitState} {context : InterceptDisasmContext}

/-- The loop gets to its end: the mapping may be written. -/
theorem loop_spec (h : Rewritable i p₀.globals.rsi.relocatedGp args) (hpage : i.sysconf ≠ 0)
    (hne : args.code ≠ 0) (hlive : Live p₀ s)
    (hbefore : (i.calls args.code).mprotect args.code args.codeSize ⟨true, true, true⟩ = none)
    (hinit : interceptDisasmInit (i.calls args.code) args.last = .ok context) :
    ∃ s', (InitState.effects i).rewriteLoop context args.code.toNat (s.opened i args) = .ok s' ∧
      s'.proc = (s.opened i args).proc.patchAll (i.sectionSites s.proc.mem args) ∧
      Live p₀ s' := by
  rcases disasmInit_ok hinit with ⟨hopen, hlast⟩
  have hfits := h.fits
  have hround := le_protectedSize hpage args.codeSize.toNat
  have hopened : Live p₀ (s.opened i args) :=
    (((hlive.debugCall i [.write]).call [.mprotect]).protect ⟨true, true, true⟩ h.apart).call _
  have hmem : (InitState.effects i).mem (s.opened i args) = s.proc.mem := opened_mem i args s
  rw [rewriteLoop_follow (effects_storesWord i) (h.wellBehaved _ hopen)
    (by rw [hlast, RewriteArgs.last]; bv_omega) _ args.code.toNat _ (Nat.le_refl _), hmem,
    sectionSites_eq hbefore hinit]
  refine follow_spec hopened (fun p hp k hk => ?_) (fun p hp k hk => ?_)
  -- The first `mprotect` has made the whole mapping writable.
  · rw [← sectionSites_eq hbefore hinit] at hp
    have hin := sectionSites_inside h hne hp
    have hbyte : (BitVec.ofNat 64 p + BitVec.ofNat 64 k - args.code).toNat
        < InitState.protectedSize i.sysconf args.codeSize.toNat := by bv_omega
    rw [opened_proc]
    simp only [Proc.protect, if_pos hbyte]
  · rw [← sectionSites_eq hbefore hinit] at hp
    exact sectionSites_apart h hpage hne hp hk

theorem disasmInit_isFault {calls : RewriteCalls} {last : Nat} {stop : Stop}
    (h : interceptDisasmInit calls last = .error stop) : stop.isFault = false := by
  unfold interceptDisasmInit at h
  split at h
  · cases h
    rfl
  · split_ifs at h <;> (cases h; rfl)

/-- `disassemble_and_rewrite`: it gets to its end if no call fails, and if one
    does, what the loop has replaced is there. -/
theorem section_spec (h : Rewritable i p₀.globals.rsi.relocatedGp args) (hpage : i.sysconf ≠ 0)
    (hne : args.code ≠ 0) (hlive : Live p₀ s) :
    EndsIn
      (fun s' => SectionPasses i args ∧ Settled p₀ s' ∧ s'.proc = s.proc.rewriteSection i args)
      (fun halted => ¬ SectionPasses i args ∧ Settled p₀ halted.state ∧
        halted.stop.isFault = false ∧
        halted.state.proc.patched
          = (s.proc.patchAll (i.sectionSites s.proc.mem args)).patched)
      (s.disassembleAndRewrite i args.code args.codeSize args.memProt) := by
  have hentry := (hlive.debugCall i [.write]).call [.mprotect]
  have hproc : ((s.debugCall i [.write]).call [.mprotect]).proc = s.proc :=
    InitState.debugCall_proc i _ s
  unfold InitState.disassembleAndRewrite Effects.disassembleAndRewrite
  cases hbefore : (i.calls args.code).mprotect args.code args.codeSize ⟨true, true, true⟩ with
  | some error =>
      -- Without write permission nothing is replaced.
      have hnone : i.sectionSites s.proc.mem args = [] := by
        unfold StartupInputs.sectionSites
        rw [hbefore]
      refine ⟨fun hpass => ?_, hentry.settled (List.cons_ne_nil _ _), rfl, ?_⟩
      · exact Option.some_ne_none error (hbefore.symm.trans hpass.1)
      · rw [hnone, Proc.patchAll_nil]
        exact congrArg Proc.patched hproc
  | none =>
      have hopened : Live p₀ (s.opened i args) :=
        (hentry.protect ⟨true, true, true⟩ h.apart).call _
      cases hinit : interceptDisasmInit (i.calls args.code)
          (args.code.toNat + args.codeSize.toNat - 1) with
      | error stop =>
          -- Nor without a disassembler.
          have hnone : i.sectionSites s.proc.mem args = [] := by
            unfold StartupInputs.sectionSites RewriteArgs.last
            rw [hbefore, hinit]
          refine ⟨?_, hopened.settled (List.cons_ne_nil _ _), disasmInit_isFault hinit, ?_⟩
          · rintro ⟨_, ⟨context, hok⟩, _⟩
            rw [RewriteArgs.last, hinit] at hok
            exact absurd hok (by simp only [reduceCtorEq, not_false_eq_true])
          · rw [hnone, Proc.patchAll_nil]
            exact opened_patched i args s
      | ok context =>
          -- The loop gets to its end; only the last `mprotect` can still fail.
          rcases loop_spec h hpage hne hlive hbefore hinit with ⟨s', hrun, hproc', hlive'⟩
          have hrun' : (InitState.effects i).rewriteLoop context args.code.toNat
              ((InitState.effects i).call (disasmInitCalls (i.calls args.code))
                ((InitState.effects i).protect args.code args.codeSize ⟨true, true, true⟩
                  ((InitState.effects i).call [.mprotect]
                    ((InitState.effects i).debugCall [.write] s)))) = .ok s' := hrun
          rw [opened_proc] at hproc'
          simp only [hrun']
          cases hafter : (i.calls args.code).mprotect args.code args.codeSize args.memProt with
          | some error =>
              refine ⟨fun hpass => ?_, (hlive'.call _).settled (List.cons_ne_nil _ _), rfl, ?_⟩
              · exact Option.some_ne_none error (hafter.symm.trans hpass.2.2)
              · have hpatched := congrArg Proc.patched hproc'
                exact hpatched
          | none =>
              refine ⟨⟨hbefore, ⟨context, hinit⟩, hafter⟩,
                ((hlive'.settled (List.cons_ne_nil _ _)).protect args.memProt h.apart).debugCall
                  i _, ?_⟩
              refine Eq.trans (InitState.debugCall_proc i _ _) ?_
              show Proc.protect _ _ _ _ s'.proc = _
              rw [hproc']
              exact protect_patchAll_protect s.proc _ _ _

end Section

/-! ## All mappings -/

/-- An `ecall` is found in one of the mappings that are reached. -/
def FindsIn (i : StartupInputs) (m : Mem) : List RewriteArgs → Prop
  | [] => False
  | args :: rest => i.sectionSites m args ≠ [] ∨ (SectionPasses i args ∧ FindsIn i m rest)

/-- The text of the mappings is read and all of them pass. -/
def MapsPass (i : StartupInputs) : Prop :=
  (∃ text, i.maps = .ok text) ∧ ∀ args ∈ i.rewrites, SectionPasses i args

/-- An `ecall` is found in libc, in a process with memory `m`. -/
def MapsFind (i : StartupInputs) (m : Mem) : Prop := FindsIn i m i.rewrites

/-- There is no hook library, or it is loaded. -/
def HookPasses (i : StartupInputs) : Prop := i.hook = .unset ∨ i.hook = .loaded 0

/-- What is relied on while libc is rewritten: there is a page size, and the
    mappings that are rewritten are as `Rewritable` says, for the `gp` that is
    relocated to the page that `mmap` returns. Nothing is asked of the other
    lines of the memory map, among them that of the fresh page. -/
structure RewritableMaps (i : StartupInputs) : Prop where
  pageSize : i.sysconf ≠ 0
  rewritable : ∀ page, i.mmap = some page → ∀ args ∈ i.rewrites,
    Rewritable i (page + i.gp % i.sysconf) args

section Mappings

variable {i : StartupInputs} {p₀ p₁ : Proc} {s : InitState}

/-- Mappings that pass are only looked at. -/
theorem findsIn_append {m : Mem} {done rest : List RewriteArgs}
    (h : ∀ args ∈ done, SectionPasses i args) :
    FindsIn i m (done ++ rest) ↔
      (∃ args ∈ done, i.sectionSites m args ≠ []) ∨ FindsIn i m rest := by
  induction done with
  | nil => simp only [List.nil_append, List.not_mem_nil, false_and, exists_false, false_or]
  | cons args done ih =>
      rcases List.forall_mem_cons.mp h with ⟨hargs, hdone⟩
      simp only [List.cons_append, FindsIn, hargs, true_and, ih hdone, List.mem_cons, or_and_right,
        exists_or, exists_eq_left, or_assoc]

/-- What is replaced in the end was there in the beginning. The first mapping
    with something to replace is reached with the memory as it was. -/
theorem patched_foldl (done : List RewriteArgs) (p : Proc) :
    (done.foldl (Proc.rewriteSection i) p).patched = [] ↔
      p.patched = [] ∧ ∀ args ∈ done, i.sectionSites p.mem args = [] := by
  induction done generalizing p with
  | nil => simp only [List.foldl_nil, List.not_mem_nil, false_imp_iff, implies_true, and_true]
  | cons args done ih =>
      rw [List.foldl_cons, ih, List.forall_mem_cons]
      -- Memory is still what it was as long as nothing has been replaced.
      by_cases hsites : i.sectionSites p.mem args = []
      · have hsame : p.rewriteSection i args
            = p.protect i.sysconf args.code args.codeSize.toNat args.memProt := by
          unfold Proc.rewriteSection
          rw [hsites, Proc.patchAll_nil]
        rw [hsame]
        simp only [Proc.protect, hsites, true_and]
      · have hne : (p.rewriteSection i args).patched ≠ [] := by
          intro hnil
          rcases List.append_eq_nil_iff.mp hnil with ⟨_, hmap⟩
          exact hsites (List.map_eq_nil_iff.mp hmap)
        simp only [hne, hsites, false_and, and_false]

/-- If all mappings pass, then something is replaced exactly if there was
    something to be found. -/
theorem replaced_iff {p : Proc} (hp : p.patched = [])
    (hpass : ∀ args ∈ i.rewrites, SectionPasses i args) :
    (i.rewrites.foldl (Proc.rewriteSection i) p).patched ≠ [] ↔ MapsFind i p.mem := by
  have hfind : FindsIn i p.mem (i.rewrites ++ []) ↔ _ ∨ _ := findsIn_append hpass
  rw [List.append_nil] at hfind
  rw [ne_eq, patched_foldl, hp, MapsFind, hfind, FindsIn]
  simp only [true_and, not_forall, exists_prop, or_false, ne_eq]

/-- Between two mappings: those that are done have passed, and the process is
    what they have made of it. -/
structure Rewriting (i : StartupInputs) (p₀ p₁ : Proc) (rest : List RewriteArgs) (s : InitState) :
    Prop where
  settled : Settled p₀ s
  done : ∃ done, i.rewrites = done ++ rest ∧ (∀ args ∈ done, SectionPasses i args) ∧
    s.proc = done.foldl (Proc.rewriteSection i) p₁

/-- The process ended in one of them, by a decision of its own. -/
structure Interrupted (i : StartupInputs) (p₀ p₁ : Proc) (halted : Halted) : Prop where
  settled : Settled p₀ halted.state
  fault : halted.stop.isFault = false
  patched : halted.state.proc.patched ≠ [] ↔ MapsFind i p₁.mem

theorem recorder_keeps (rest : List RewriteArgs) :
    (InitState.recorder i).Keeps (Rewriting i p₀ p₁ rest) := by
  constructor
  · intro fns s h
    exact ⟨h.settled.call fns, h.done⟩
  · intro fns s h
    refine ⟨h.settled.debugCall i fns, ?_⟩
    rw [show ((InitState.recorder i).debugCall fns s).proc = s.proc from
      InitState.debugCall_proc i fns s]
    exact h.done

/-- One more mapping. -/
theorem rewriting_step (hpage : i.sysconf ≠ 0) (hp₁ : p₁.patched = [])
    (hrewritable : ∀ args ∈ i.rewrites, Rewritable i p₀.globals.rsi.relocatedGp args)
    {args : RewriteArgs} {rest : List RewriteArgs} (h : Rewriting i p₀ p₁ (args :: rest) s) :
    EndsIn (Rewriting i p₀ p₁ rest)
      (fun halted => (∃ args ∈ i.rewrites, ¬ SectionPasses i args) ∧
        Interrupted i p₀ p₁ halted)
      (s.disassembleAndRewrite i args.code args.codeSize args.memProt) := by
  rcases h.done with ⟨done, hsplit, hpass, hproc⟩
  have hmem : args ∈ i.rewrites := by
    rw [hsplit]
    exact List.mem_append_right _ List.mem_cons_self
  refine (section_spec (hrewritable args hmem) hpage (rewrites_nonzero hmem)
    h.settled.live).mono ?_ ?_
  · rintro s' ⟨hargs, hsettled, hproc'⟩
    refine ⟨hsettled, done ++ [args], ?_, ?_, ?_⟩
    · rw [hsplit, List.append_assoc, List.singleton_append]
    · intro a ha
      rcases List.mem_append.mp ha with ha | ha
      · exact hpass a ha
      · rw [List.mem_singleton.mp ha]
        exact hargs
    · rw [List.foldl_append, ← hproc, hproc']
      rfl
  · rintro halted ⟨hargs, hsettled, hstop, hpatched⟩
    refine ⟨⟨args, hmem, hargs⟩, hsettled, hstop, ?_⟩
    -- The mapping that did not pass is the last one that is looked at.
    have hempty : halted.state.proc.patched = [] ↔
        ((done ++ [args]).foldl (Proc.rewriteSection i) p₁).patched = [] := by
      rw [hpatched, List.foldl_append, ← hproc]
      rfl
    rw [ne_eq, hempty, patched_foldl, hp₁, MapsFind, hsplit, findsIn_append hpass, FindsIn]
    simp only [true_and, hargs, false_and, or_false, List.mem_append, List.mem_singleton, or_imp,
      forall_and, forall_eq, not_and_or, not_forall, exists_prop, ne_eq]

/-- `rewrite_code`. -/
theorem rewriteCode_spec (hpage : i.sysconf ≠ 0) (hp₁ : p₁.patched = [])
    (hrewritable : ∀ args ∈ i.rewrites, Rewritable i p₀.globals.rsi.relocatedGp args)
    (hsettled : Settled p₀ s) (hproc : s.proc = p₁) :
    EndsIn
      (fun s' => MapsPass i ∧ Settled p₀ s' ∧
        s'.proc = i.rewrites.foldl (Proc.rewriteSection i) p₁)
      (fun halted => ¬ MapsPass i ∧ Interrupted i p₀ p₁ halted) (s.rewriteCode i) := by
  have hopened := (hsettled.debugCall i [.write]).call [.fopen]
  have hproc' : ((s.debugCall i [.write]).call [.fopen]).proc = p₁ := by
    rw [InitState.call_proc, InitState.debugCall_proc, hproc]
  unfold InitState.rewriteCode Recorder.rewriteCode
  cases hmaps : i.maps with
  -- `fopen` has failed, and there is no text to speak of.
  | error error =>
      refine ⟨?_, hopened.call _, rfl, ?_⟩
      · rintro ⟨⟨text, htext⟩, _⟩
        rw [hmaps] at htext
        exact absurd htext (by simp only [reduceCtorEq, not_false_eq_true])
      · have hempty : ((s.debugCall i [.write]).call [.fopen]).proc.patched = [] := by
          rw [hproc', hp₁]
        have hnone : ¬ MapsFind i p₁.mem := by
          unfold MapsFind StartupInputs.rewrites
          rw [hmaps]
          exact not_false
        exact ⟨fun hne => absurd hempty hne, fun h => absurd h hnone⟩
  | ok text =>
      have hrewrites : i.rewrites = textArgs text := by
        unfold StartupInputs.rewrites
        rw [hmaps]
      have hinitial : Rewriting i p₀ p₁ (textArgs text) ((s.debugCall i [.write]).call [.fopen]) :=
        ⟨hopened, [], hrewrites, fun _ h => absurd h List.not_mem_nil, hproc'⟩
      -- The invariant is `Rewriting`, with the mappings that are still to come.
      have hlines := rewriteLines_rule recorder_keeps
        (fun args rest s h => rewriting_step hpage hp₁ hrewritable h) hinitial
      have hstart : (InitState.recorder i).call [.fopen]
          ((InitState.recorder i).debugCall [.write] s)
            = (s.debugCall i [.write]).call [.fopen] := rfl
      simp only [hstart]
      cases hrun : (InitState.recorder i).rewriteLines (InitState.disassembleAndRewrite i) text
          ((s.debugCall i [.write]).call [.fopen]) with
      | error halted =>
          rw [hrun] at hlines
          refine ⟨fun hpass => ?_, hlines.2⟩
          rcases hlines.1 with ⟨args, hargs, hno⟩
          exact hno (hpass.2 args hargs)
      | ok s' =>
          rw [hrun] at hlines
          -- None are left, so all of them have passed.
          rcases hlines with ⟨hsettled', done, hdone, hpass, hproc''⟩
          rw [List.append_nil] at hdone
          rw [← hdone] at hpass hproc''
          refine ⟨⟨⟨text, hmaps⟩, hpass⟩, (hsettled'.call _).debugCall i _, ?_⟩
          exact Eq.trans (InitState.debugCall_proc i _ _) hproc''

theorem loadHookLib_spec (hsettled : Settled p₀ s) :
    EndsIn (fun s' => HookPasses i ∧ Settled p₀ s' ∧ s'.proc = s.proc)
      (fun halted => ¬ HookPasses i ∧ Settled p₀ halted.state ∧
        halted.stop.isFault = false ∧ halted.state.proc = s.proc) (s.loadHookLib i) := by
  have henv := hsettled.call [.getenv]
  unfold InitState.loadHookLib HookPasses
  cases hhook : i.hook with
  | unset => exact ⟨Or.inl rfl, henv.call _, rfl⟩
  | dlopenFails error =>
      refine ⟨?_, (henv.call _).call _, rfl, rfl⟩
      simp only [reduceCtorEq, or_self, not_false_eq_true]
  | dlsymFails error =>
      refine ⟨?_, (henv.call _).call _, rfl, rfl⟩
      simp only [reduceCtorEq, or_self, not_false_eq_true]
  | loaded initState =>
      by_cases hz : initState = 0
      · simp only [if_pos hz]
        rw [hz]
        exact ⟨Or.inr rfl, henv.call _, rfl⟩
      · simp only [if_neg hz]
        refine ⟨?_, (henv.call _).call _, rfl, rfl⟩
        simp only [reduceCtorEq, HookLib.loaded.injEq, hz, or_self, not_false_eq_true]

/-- The second half of the constructor: it keeps the injected code, gets to its
    end if nothing fails, and has replaced what is found in the mappings that it
    got to. -/
theorem activate_spec (hpage : i.sysconf ≠ 0) (hp₁ : p₁.patched = [])
    (hrewritable : ∀ args ∈ i.rewrites, Rewritable i p₀.globals.rsi.relocatedGp args)
    (hsettled : Settled p₀ s) (hproc : s.proc = p₁) :
    EndsIn
      (fun s' => (MapsPass i ∧ HookPasses i) ∧ Settled p₀ s' ∧
        s'.proc = i.rewrites.foldl (Proc.rewriteSection i) p₁)
      (fun halted => ¬ (MapsPass i ∧ HookPasses i) ∧ Interrupted i p₀ p₁ halted)
      (s.activate i) := by
  have hstart : (s.debugCall i [.printf]).proc = p₁ := by rw [InitState.debugCall_proc, hproc]
  refine EndsIn.bind ((rewriteCode_spec hpage hp₁ hrewritable (hsettled.debugCall i [.printf])
    hstart).mono (fun _ h => h) (fun halted h => ⟨fun hpass => h.1 hpass.1, h.2⟩)) ?_
  rintro s' ⟨hpass, hsettled', hproc'⟩
  refine (loadHookLib_spec (hsettled'.debugCall i [.printf])).mono ?_ ?_
  · rintro s'' ⟨hhook, hsettled'', hproc''⟩
    refine ⟨⟨hpass, hhook⟩, hsettled'', ?_⟩
    rw [hproc'', InitState.debugCall_proc, hproc']
  · rintro halted ⟨hhook, hsettled'', hstop, hproc''⟩
    refine ⟨fun h => hhook h.2, hsettled'', hstop, ?_⟩
    -- All mappings have passed by then.
    rw [hproc'', InitState.debugCall_proc, hproc']
    exact replaced_iff hp₁ hpass.2

end Mappings

end Vpoline
