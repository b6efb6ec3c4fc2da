import Vpoline.Theory.Image
import Vpoline.Theory.Relocated

/-!
# From Startup to the Program

The pieces put together. The constructor leaves an image, `startup_image` says
which, and here it is shown to be one in which the program runs as it would
have run by itself. The thread that enters the true `__libc_start_main` stands
for the thread that would have entered it natively, so that everything said in
`Theory.Process` and `Theory.Relocated` applies from there on.

The startup model keeps vpoline's variables apart from memory. `launched` puts
the two that the injected code reads where the linker has put them.

The `ecall`s that have been replaced must have been `ecall`s, so capstone has to
be right about the ones it reports. That it reports all of them is not needed:
one that it misses stays an `ecall`, and belongs to the application code.

## Main definitions

* `launched`: The thread that enters the true `__libc_start_main`.
* `Launch`: How the process and the program belong together.
* `NativeStart`: The thread that would enter it natively.

## Theorems

* `sectionSites_ecall`, `sites_apart`, `sites_outside`: What the sites are
  before the start.
* `image_outside`, `image_injected`: The image, byte by byte.
* `launched_mirrors`: The one thread stands for the other.
* `launched_inevitably`: What is inevitable stays inevitable, from the start.
-/

namespace Vpoline

open RV64

variable {K : Type} {env : Env K} {prog : Program K} {i : StartupInputs} {g : Globals}

/-- The thread `n` with the image `p`, where `hookFn` is the hook that was loaded. -/
def launched (env : Env K) (hookFn : Word) (p : Proc) (n : Conf K) : Conf K :=
  { n with
    x := n.x.set gp p.gp
    mem := (p.mem.write env.rgpVar 8 p.globals.relocatedGlobalPointer).write env.hookFnVar 8
      hookFn }

/-- The bytes of vpoline's two variables. -/
def varByte (env : Env K) (a : Addr) : Prop :=
  (a - env.rgpVar).toNat < 8 ∨ (a - env.hookFnVar).toNat < 8

/-- The process `env` has the layout `g`, and the program's `ecall`s are those
    that have been replaced. vpoline's variables are bytes of their own. -/
structure Launch (env : Env K) (prog : Program K) (i : StartupInputs) (g : Globals) : Prop where
  rgp : env.rgp = g.rsi.relocatedGp
  dst : env.dst = i.dst
  gp : prog.gp = i.gp
  sites : ∀ a, prog.sites a ↔ a.toNat ∈ i.sites
  vars : ∀ a, (a - env.rgpVar).toNat < 8 → 8 ≤ (a - env.hookFnVar).toNat
  outside : ∀ a, varByte env a →
    136 ≤ (a - (env.rgp - 56)).toNat ∧ ¬ SiteByte prog.sites a
  shared : ∀ a, prog.shared a → ¬ env.own a ∧ ¬ SiteByte prog.sites a
  recognises : ∀ args ∈ i.rewrites, ∀ d, (i.calls args.code).csOpen = some d → RecognisesEcall d

/-- The thread that would enter `__libc_start_main` natively. -/
structure NativeStart (env : Env K) (prog : Program K) (i : StartupInputs) (n : Conf K) :
    Prop where
  mem : n.mem = i.mem
  gp : n.x RV64.gp = i.gp
  place : App env prog.sites n.pc

/-! ## The sites before and after -/

section Sites

/-- What is replaced was an `ecall`. -/
theorem sectionSites_ecall {args : RewriteArgs} {m : Mem}
    (hd : ∀ d, (i.calls args.code).csOpen = some d → WellBehaved d)
    (hexact : ∀ d, (i.calls args.code).csOpen = some d → RecognisesEcall d) {p : Nat}
    (hp : p ∈ i.sectionSites m args) : decode (m.read (BitVec.ofNat 64 p) 4) = some .ecall := by
  rcases sectionSites_cases i args with hnone | ⟨d, hopen, hsites⟩
  · rw [hnone] at hp
    exact absurd hp List.not_mem_nil
  · rw [hsites] at hp
    have hrep := ((mem_sectionEcalls_iff (hd d hopen)).mp hp).2.2
    -- The four bytes are those of `ecall`, so the word is.
    have hword : ∀ k (hk : k < ecallEncoding.bytes.length),
        ecallEncoding.bytes[k] = (0x73#32).extractLsb' (8 * k) 8 := by decide
    have hread : m.read (BitVec.ofNat 64 p) 4 = 0x73#32 := by
      refine Mem.read_of_bytes (fun k hk => ?_)
      rw [← BitVec.ofNat_add, byte_of_reported (hexact d hopen) hrep hk, hword k hk]
    rw [hread]
    decide

variable (hf : RewritableMaps i) (hl : LaidOut i.rewrites)
  (hg : layout i.gp i.sysconf i.mmap = .ok g)

include hf hg in
/-- The mappings that are rewritten are apart from the injected code. -/
theorem rewritable_layout {args : RewriteArgs} (h : args ∈ i.rewrites) :
    Rewritable i g.rsi.relocatedGp args := by
  rcases layout_ok hg with ⟨page, hpage, _, hrgp, _⟩
  rw [hrgp]
  exact hf.rewritable page hpage args h

include hf hl hg in
/-- The sites of one mapping are words apart, and so are those of all of them. -/
theorem sites_apart : i.sites.Pairwise WordsApart := by
  refine List.pairwise_flatMap.mpr ⟨fun args hargs => ?_, ?_⟩
  · rcases sectionSites_cases i args with hnone | ⟨d, hopen, hsites⟩
    · rw [hnone]
      exact List.Pairwise.nil
    · rw [hsites]
      exact (reported_apart ((rewritable_layout hf hg hargs).wellBehaved d hopen) _ _
        (Nat.le_refl _)).imp Or.inl
  · refine hl.imp_of_mem (fun hargs hargs' hor p hp q hq => ?_)
    -- Sites of two mappings are as far apart as the mappings.
    have hin := sectionSites_inside (rewritable_layout hf hg hargs) (rewrites_nonzero hargs) hp
    have hin' := sectionSites_inside (rewritable_layout hf hg hargs') (rewrites_nonzero hargs') hq
    have hcases : _ ∨ _ := hor
    unfold WordsApart
    omega

include hf hg in
/-- Every site is a word of a mapping, so the injected code is elsewhere. -/
theorem sites_outside {p : Nat} (hp : p ∈ i.sites) :
    p + 4 ≤ 2 ^ 64 ∧ ∀ k, k < 4 →
      136 ≤ (BitVec.ofNat 64 (p + k) - (g.rsi.relocatedGp - 56)).toNat := by
  rcases List.mem_flatMap.mp hp with ⟨args, hargs, hmem⟩
  have hr := rewritable_layout hf hg hargs
  have hin := sectionSites_inside hr (rewrites_nonzero hargs) hmem
  have hfits := hr.fits
  exact ⟨by omega, fun k hk =>
    sectionSites_apart hr hf.pageSize (rewrites_nonzero hargs) hmem hk⟩

/-! ## The image, byte by byte -/

include hg in
/-- Outside the injected code and the sites, nothing has changed. -/
theorem image_outside {a : Addr} (hinjected : 136 ≤ (a - (g.rsi.relocatedGp - 56)).toNat)
    (hsites : ∀ p ∈ i.sites, 4 ≤ (a - BitVec.ofNat 64 p).toNat) :
    (i.image g).mem a = i.mem a := by
  unfold StartupInputs.image
  rw [protectAll_mem]
  exact (patchAll_outside hsites).trans (setUpProc_mem hg hinjected)

include hf hg in
/-- The injected code is as it was set up. -/
theorem image_injected {a : Addr} (ha : (a - (g.rsi.relocatedGp - 56)).toNat < 136) :
    (i.image g).mem a = (i.setUpProc g).mem a := by
  unfold StartupInputs.image
  rw [protectAll_mem]
  refine patchAll_outside (fun p hp => Nat.le_of_not_lt (fun hlt => ?_))
  -- An injected byte in a patched word would be a byte of a mapping.
  have hout := (sites_outside hf hg hp).2 _ hlt
  rw [BitVec.ofNat_add, BitVec.ofNat_toNat, BitVec.setWidth_eq, BitVec.add_comm,
    BitVec.sub_add_cancel] at hout
  omega

include hf hl hg in
/-- At a site there is `jalr gp, gp, 0`. -/
theorem image_site {p : Nat} (hp : p ∈ i.sites) :
    (i.image g).mem.read (BitVec.ofNat 64 p) 4 = patchedEcall := by
  unfold StartupInputs.image
  rw [protectAll_mem]
  refine Mem.read_of_bytes (fun k hk => ?_)
  rw [← BitVec.ofNat_add]
  exact patchAll_inside (sites_apart hf hl hg) (fun q hq => (sites_outside hf hg hq).1) hp hk

end Sites

/-! ## The thread that starts -/

section Start

variable {n : Conf K}

/-- Memory as the program finds it, with vpoline's variables in place. -/
theorem launched_mem {hookFn : Word} {p : Proc} {a : Addr} (h : ¬ varByte env a) :
    (launched env hookFn p n).mem a = p.mem a := by
  have hrgp : 8 ≤ (a - env.rgpVar).toNat := Nat.le_of_not_lt (fun hlt => h (Or.inl hlt))
  have hhook : 8 ≤ (a - env.hookFnVar).toNat := Nat.le_of_not_lt (fun hlt => h (Or.inr hlt))
  exact (Mem.write_outside hhook).trans (Mem.write_outside hrgp)

theorem launched_installed (hf : RewritableMaps i) (hg : layout i.gp i.sysconf i.mmap = .ok g)
    (h : Launch env prog i g) (hookFn : Word) :
    Installed env (launched env hookFn (i.image g) n).mem := by
  rcases setUpProc_words hg with ⟨htramp, hreturn⟩
  have hlen := length_trampoline env.dst
  rw [← h.rgp, ← h.dst] at htramp
  rw [← h.rgp] at hreturn
  -- The variables are not in the injected code.
  have hcode : ∀ a, (a - (env.rgp - 56)).toNat < 136 →
      (launched env hookFn (i.image g) n).mem a = (i.setUpProc g).mem a := by
    intro a ha
    have hvar : ¬ varByte env a := fun hv => absurd (h.outside a hv).1 (by omega)
    rw [launched_mem hvar]
    rw [h.rgp] at ha
    exact image_injected hf hg ha
  refine ⟨htramp.congr (by rw [hlen]; decide) (fun b hb => hcode b ?_),
    hreturn.congr (by decide) (fun b hb => hcode b ?_), ?_⟩
  · rw [hlen] at hb
    bv_omega
  · rw [length_return, retSequenceSize] at hb
    omega
  -- The variable that the assembly reads, written before `hook_fn` and not over it.
  · have hglobal : (i.image g).globals.relocatedGlobalPointer = env.rgp := by
      rw [h.rgp]
      unfold StartupInputs.image
      rw [protectAll_globals]
      cases hmmap : i.mmap with
      | none =>
          rw [hmmap] at hg
          exact absurd hg (by simp only [layout, allocateRetSequencePage, reduceCtorEq,
            not_false_eq_true])
      | some page =>
          rw [hmmap] at hg
          cases hg
          rfl
    refine Eq.trans (Mem.read_congr (fun k hk => Mem.write_outside (h.vars _ ?_))) ?_
    · bv_omega
    · exact (Mem.read_write_same _ _ 8 _ (by decide)).trans hglobal

/-- The thread that enters `__libc_start_main` under vpoline stands for the one
    that would enter it natively. -/
theorem launched_mirrors (hf : RewritableMaps i) (hl : LaidOut i.rewrites)
    (hg : layout i.gp i.sysconf i.mmap = .ok g) (h : Launch env prog i g)
    (hn : NativeStart env prog i n) :
    Mirrors env prog n (launched env prog.hookFn (i.image g) n) := by
  have hsite : ∀ {a}, prog.sites a → a.toNat ∈ i.sites := fun ha => (h.sites _).mp ha
  have hofNat : ∀ a : Addr, BitVec.ofNat 64 a.toNat = a := fun a => BitVec.ofNat_toNat 64 a
  refine ⟨rfl, hn.place, fun r hr => ?_, ?_, ?_, rfl, fun a ha => ?_,
    launched_installed hf hg h _, Mem.read_write_same _ _ 8 _ (by decide),
    fun a ha => ?_, fun a ha => ?_, rfl, rfl, ?_⟩
  · exact get_set_other _ _ _ _ hr
  · show (i.image g).gp = env.rgp
    unfold StartupInputs.image
    rw [protectAll_gp]
    exact h.rgp.symm
  · rw [h.gp]
    exact hn.gp
  -- What the program may look at is neither vpoline's nor at a site.
  · rcases h.shared a ha.1 with ⟨hown, hbyte⟩
    have hvar : ¬ varByte env a := fun hv => hown (Or.inr hv)
    rw [launched_mem hvar, hn.mem]
    refine image_outside hg (Nat.le_of_not_lt (fun hlt => hown (Or.inl ?_)))
      (fun p hp => Nat.le_of_not_lt (fun hlt => hbyte ⟨BitVec.ofNat 64 p, (h.sites _).mpr ?_, hlt⟩))
    · rw [h.rgp]
      exact hlt
    · have hsmall := (sites_outside hf hg hp).1
      rw [BitVec.toNat_ofNat, Nat.mod_eq_of_lt (by omega)]
      exact hp
  · -- The variables are not in libc.
    have hread : (launched env prog.hookFn (i.image g) n).mem.read a 4 = (i.image g).mem.read a 4 :=
      Mem.read_congr (fun k hk => launched_mem (fun hv =>
        (h.outside _ hv).2 ⟨a, ha, by bv_omega⟩))
    have hpatched := image_site hf hl hg (hsite ha)
    rw [hofNat] at hpatched
    exact hread.trans hpatched
  -- Natively the `ecall`s are still there.
  · rcases List.mem_flatMap.mp (hsite ha) with ⟨args, hargs, hmem⟩
    have hecall := sectionSites_ecall (rewritable_layout hf hg hargs).wellBehaved
      (h.recognises args hargs) hmem
    rw [hofNat] at hecall
    rw [hn.mem]
    exact hecall
  · exact List.forall₂_same.mpr (fun call _ => ⟨SameIssue.refl _ _, rfl⟩)

end Start

theorem page_sites : (pageStart (pageMem 0x73)).sites = [0x40000] := by
  refine pageStart_sites (pageText_sites (by decide) (fun o ho hbyte => ?_))
  by_cases hlt : o < 8
  · -- The system call and the load.
    have hwords : ∀ o, o < 8 →
        pageMem 0x73 (BitVec.ofNat 64 (0x40000 + o)) = 0x73 → o = 0 := by decide
    exact hwords o hlt hbyte
  · have hlen : 4 * [(0x73 : BitVec 32), 0x0001a503].length = 8 := rfl
    have hzero : pageMem 0x73 (BitVec.ofNat 64 (0x40000 + o)) = 0 := by
      unfold pageMem
      rw [Mem.write_outside (by bv_omega), Mem.storeWords_outside _ _ _ _ (by bv_omega)]
    rw [hzero] at hbyte
    exact absurd hbyte (by decide)

theorem page_launch : Launch pageEnv pageProgram (pageStart (pageMem 0x73)) pageGlobals where
  rgp := rfl
  dst := by decide
  gp := rfl
  sites a := by
    rw [page_sites, List.mem_singleton]
    show a = 0x40000 ↔ a.toNat = 0x40000
    constructor
    · rintro rfl
      decide
    · intro h
      exact BitVec.eq_of_toNat_eq h
  vars a ha := by
    have hlow : (a - 0x20000).toNat < 8 := ha
    show 8 ≤ (a - 0x20008).toNat
    bv_omega
  outside a ha := by
    have hvar : (a - 0x20000).toNat < 8 ∨ (a - 0x20008).toNat < 8 := ha
    refine ⟨?_, ?_⟩
    · show 136 ≤ (a - (0x7f0000000800 - 56)).toNat
      bv_omega
    · rintro ⟨b, rfl, hb⟩
      bv_omega
  shared a ha := ⟨(page_relocated.apart a ha).1, (page_relocated.apart a ha).2.1⟩
  recognises args hargs d hd := by
    cases hd
    exact capstone_recognisesEcall rfl

end Vpoline
