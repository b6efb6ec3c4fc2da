import Vpoline.Theory.Extent
import Vpoline.Theory.Image

/-!
# The Constructor Stays Inside Its Protections

No store of the constructor faults, and when it is done every byte of the
process has the protection that it had before, the page for the injected code
apart. That page is executable and nothing else. In particular no byte is left
writable and executable that was not so at the start.

This needs `gp` to leave room in its page for the injected code, since the
stores that set it up go around the relocated `gp` wherever that is. It also
needs the mappings that are rewritten to be as the kernel reports them: whole
pages with the protection that the line says, none of which were mapped by the
constructor itself. Nothing is assumed about which of the calls succeed. If the
constructor ends the process it does so by itself.

## Main definitions

* `Described`: A mapping is as the kernel reports it.

## Theorems

* `injected_mapped`: The injected code lies in the fresh mapping.
* `setUpProc_prot`: The protections when the page has been set up.
* `foldl_rewriteSection_prot`: Rewriting leaves the protections as they were.
* `init_protected`: The constructor.
-/

namespace Vpoline

/-- A mapping that is rewritten is as the kernel reports it: whole pages with
    the protection that its line says, and not the page for the injected code.
    The disassembler for it is well behaved. -/
structure Described (i : StartupInputs) (k : Nat) (g : Globals) (args : RewriteArgs) : Prop where
  pages : args.codeSize.toNat % 2 ^ k = 0
  fits : args.code.toNat + args.codeSize.toNat ≤ 2 ^ 64
  protection : ∀ a, (a - args.code).toNat < args.codeSize.toNat → i.prot a = args.memProt
  fresh : ∀ a, (a - args.code).toNat < args.codeSize.toNat → mappedByte g a = false
  wellBehaved : ∀ d, (i.calls args.code).csOpen = some d → WellBehaved d

/-- Whole pages are protected as they are. -/
theorem protectedSize_pages {pageSize : BitVec 64} {k n : Nat} (hpow : pageSize.toNat = 2 ^ k)
    (h : n % 2 ^ k = 0) : InitState.protectedSize pageSize n = n := by
  have hpos := Nat.two_pow_pos k
  rw [InitState.protectedSize, hpow]
  rcases Nat.eq_zero_or_pos n with rfl | hn
  · rw [Nat.zero_add, Nat.div_eq_of_lt (by omega), Nat.zero_mul]
  -- Rounding up adds less than a page, which the division drops again.
  · have hdiv := Nat.div_add_mod n (2 ^ k)
    rw [h, Nat.add_zero] at hdiv
    have hquot : (n + 2 ^ k - 1) / 2 ^ k = n / 2 ^ k := by
      rw [show n + 2 ^ k - 1 = (2 ^ k - 1) + 2 ^ k * (n / 2 ^ k) by omega,
        Nat.add_mul_div_left _ _ hpos, Nat.div_eq_of_lt (by omega), Nat.zero_add]
    rw [hquot, Nat.mul_comm]
    exact hdiv

section Pages

variable {i : StartupInputs} {page : Addr} {g : Globals} {k : Nat}

/-- With room in the page of `gp`, the injected code lies in the fresh mapping. -/
theorem injected_mapped (h : PageLayout i.gp i.sysconf page g k)
    (hroom : 56 ≤ i.gp.toNat % 2 ^ k ∧ i.gp.toNat % 2 ^ k + 80 ≤ 2 ^ k) {a : Addr}
    (ha : (a - (g.rsi.relocatedGp - 56)).toNat < 136) : mappedByte g a = true := by
  have hspec := layout_spec h
  have hrel := hspec.relocated
  have hsize := hspec.size
  have hfits := h.fits
  rw [if_pos (Or.inl hroom.1)] at hsize
  rw [mappedByte, decide_eq_true_eq, hspec.mapping]
  bv_omega

/-- So the stores that set it up do not fault. -/
theorem storesPass_of_room (h : PageLayout i.gp i.sysconf page g k) (hpage : i.mmap = some page)
    (hroom : 56 ≤ i.gp.toNat % 2 ^ k ∧ i.gp.toNat % 2 ^ k + 80 ≤ 2 ^ k) : StoresPass i := by
  intro g' hg' a ha
  rw [hpage, h.result] at hg'
  cases hg'
  exact Or.inl (injected_mapped h hroom ha)

/-- What was mapped is executable and nothing else, and the rest has not been
    touched. -/
theorem setUpProc_prot (h : PageLayout i.gp i.sysconf page g k) (hk : k ≤ 31) (a : Addr) :
    (i.setUpProc g).prot a = if mappedByte g a then ⟨false, false, true⟩ else i.prot a := by
  -- What `mprotect` covers is what `mmap` returned, so it is one test.
  have hsame : protectedByte g a = mappedByte g a := by
    unfold protectedByte mappedByte
    rw [protectedSize_eq h hk]
  simp only [StartupInputs.setUpProc, StartupInputs.freshProt, hsame]
  split <;> rfl

/-- What is relied on of the mappings holds of those that are described. -/
theorem rewritableMaps_of_described (h : PageLayout i.gp i.sysconf page g k)
    (hpage : i.mmap = some page)
    (hroom : 56 ≤ i.gp.toNat % 2 ^ k ∧ i.gp.toNat % 2 ^ k + 80 ≤ 2 ^ k)
    (hdesc : ∀ args ∈ i.rewrites, Described i k g args) : RewritableMaps i := by
  have hlayout : layout i.gp i.sysconf i.mmap = .ok g := hpage ▸ h.result
  rcases layout_ok hlayout with ⟨page', hpage', _, hrgp, _⟩
  refine ⟨fun hzero => ?_, fun page'' hpage'' args hargs => ?_⟩
  · have hpow := h.pow
    rw [hzero] at hpow
    exact absurd hpow.symm (Nat.ne_of_gt (Nat.two_pow_pos k))
  · rw [hpage', Option.some.injEq] at hpage''
    rw [← hpage'', ← hrgp]
    have hargs := hdesc args hargs
    refine ⟨hargs.fits, fun a ha => Nat.le_of_not_lt (fun hlt => ?_), hargs.wellBehaved⟩
    -- An injected byte in the mapping would be a byte that the constructor mapped.
    rw [protectedSize_pages h.pow hargs.pages] at ha
    exact absurd (injected_mapped h hroom hlt) (by rw [hargs.fresh a ha]; exact Bool.false_ne_true)

/-- A mapping has the protection again that it had. -/
theorem rewriteSection_prot {args : RewriteArgs} {p : Proc} (hpow : i.sysconf.toNat = 2 ^ k)
    (hargs : Described i k g args)
    (hp : ∀ a, (a - args.code).toNat < args.codeSize.toNat → p.prot a = args.memProt) :
    (p.rewriteSection i args).prot = p.prot := by
  funext a
  simp only [Proc.rewriteSection, Proc.protect, Proc.patchAll,
    protectedSize_pages hpow hargs.pages]
  by_cases hin : (a - args.code).toNat < args.codeSize.toNat
  · rw [if_pos hin, hp a hin]
  · rw [if_neg hin]

/-- And so have all of them, by induction on the mappings. -/
theorem foldl_rewriteSection_prot (hpow : i.sysconf.toNat = 2 ^ k) {rewrites : List RewriteArgs}
    (hdesc : ∀ args ∈ rewrites, Described i k g args) {p : Proc}
    (hp : ∀ a, mappedByte g a = false → p.prot a = i.prot a) :
    (rewrites.foldl (Proc.rewriteSection i) p).prot = p.prot := by
  induction rewrites generalizing p with
  | nil => rfl
  | cons args rewrites ih =>
      -- The mapping is not the fresh page, so it still has the protection it had at the
      -- start.
      rcases List.forall_mem_cons.mp hdesc with ⟨hargs, hrest⟩
      have hfirst := rewriteSection_prot hpow hargs
        (fun a ha => (hp a (hargs.fresh a ha)).trans (hargs.protection a ha))
      rw [List.foldl_cons, ih hrest (fun a ha => by rw [hfirst]; exact hp a ha), hfirst]

end Pages

/-- The text of libc, in the process with one page of it. -/
theorem pageText_described {m : Mem} {g : Globals}
    (hpage : g.rsi.retSequencePageAddr = 0x7f0000000000) (hsize : g.rsi.protectionSize = 4096) :
    Described (pageStart m) 12 g pageText := by
  refine ⟨by decide, by decide, fun a ha => if_pos ha, fun a ha => ?_, fun d hd => ?_⟩
  · have hin : (a - 0x40000).toNat < 0x1000 := ha
    rw [mappedByte, decide_eq_false_iff_not, hpage, hsize]
    bv_omega
  · cases hd
    exact capstone_wellBehaved _

end Vpoline
