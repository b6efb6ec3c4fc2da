import Vpoline.Theory.Constructor

/-!
# The Global Pointer During Startup

From the moment the first `ecall` of libc is replaced, a libc function that
makes a system call jumps to wherever `gp` points. The constructor takes care
of this for its own calls: it moves `gp` before it rewrites anything. The
result here is that this is not enough.

The startup code of the executable does not know of the move. It sets `gp`
back before it calls `__libc_start_main`, and the interposed function calls
`dlsym` before it moves `gp` again. And if the constructor returned after the
name check, the move still happens, with a variable that was never set.

`startup_cases` lists the ways in which a process can start. In each it can be
read off the recorded calls whether `gp` was right, and which of them it is
follows from the build, the program and what the system returns.

## Main definitions

* `SystemAssumptions`: What is relied on of the system.
* `Skips`: The initialisation is skipped.
* `Completes`: The constructor gets to its end.
* `Replaces`: An `ecall` of libc is replaced.
* `Works`: The injected code is executable.
* `Activated`: A process in which `gp` has been moved.

## Theorems

* `ready_setUpProc`: When the injected code is ready.
* `vpolineInit_spec`: The constructor.
* `startup_cases`: The ways a process can start.
* `startup_consistent_iff`: When `gp` is right at every call.
-/

namespace Vpoline

/-- What is relied on of the system: the mappings that are rewritten are as
    `RewritableMaps` says, and the relocated `gp` is not the program's own. The
    page that `mmap` returns is a fresh one, so it is not that of `gp`. -/
structure SystemAssumptions (i : StartupInputs) : Prop extends RewritableMaps i where
  elsewhere : ∀ page, i.mmap = some page → page + i.gp % i.sysconf ≠ i.gp

/-- The initialisation is skipped: a DEBUG build, and the name check fails. -/
def Skips (i : StartupInputs) : Bool :=
  match i.nameCheck with
  | none => false
  | some check => !check.passes

/-- Neither rewriting libc nor loading the hook library ends the process. -/
def Completes (i : StartupInputs) : Prop := MapsPass i ∧ HookPasses i

/-- There is an `ecall` in libc that is replaced, if the setup succeeds. -/
def Replaces (i : StartupInputs) : Prop := MapsFind i i.mem

/-- All bytes of the injected code are executable, because `setup_return` has
    made them so or because they are outside the fresh mapping and were. -/
def Works (i : StartupInputs) : Prop :=
  ∀ g, layout i.gp i.sysconf i.mmap = .ok g →
    ∀ a, (a - (g.rsi.relocatedGp - 56)).toNat < 136 →
      protectedByte g a = true ∨ (mappedByte g a = false ∧ (i.prot a).exec = true)

section Layout

variable {i : StartupInputs} {g : Globals}

/-- A byte is executable after the setup because it is protected, or because it
    was not mapped by it. -/
theorem setUpProc_exec (a : Addr) : ((i.setUpProc g).prot a).exec = true ↔
    protectedByte g a = true ∨ (mappedByte g a = false ∧ (i.prot a).exec = true) := by
  simp only [StartupInputs.setUpProc, StartupInputs.freshProt]
  cases protectedByte g a with
  | true => simp only [if_true, true_or]
  | false =>
      cases mappedByte g a with
      | true => simp only [Bool.false_eq_true, if_false, if_true, Bool.true_eq_false, false_and,
          or_self]
      | false => simp only [Bool.false_eq_true, if_false, true_and, false_or]

theorem ready_setUpProc (hg : layout i.gp i.sysconf i.mmap = .ok g) :
    Ready i.dst (i.setUpProc g) ↔ Works i := by
  rcases setUpProc_words hg with ⟨htramp, hreturn⟩
  constructor
  · intro h g' hg' a ha
    rw [hg] at hg'
    cases hg'
    exact (setUpProc_exec a).mp (h.executable a ha)
  · intro h
    exact ⟨htramp, hreturn, fun a ha => (setUpProc_exec a).mpr (h g hg a ha)⟩

end Layout

/-! ## The sweep before and after the setup -/

/-- What is found depends on the bytes of the mappings. The induction is on
    the mappings. -/
theorem FindsIn.congr {i : StartupInputs} {m m' : Mem} {rest : List RewriteArgs}
    (heq : ∀ args ∈ rest, i.sectionSites m' args = i.sectionSites m args) :
    FindsIn i m' rest ↔ FindsIn i m rest := by
  induction rest with
  | nil => exact Iff.rfl
  | cons args rest ih =>
      rcases List.forall_mem_cons.mp heq with ⟨hargs, hrest⟩
      simp only [FindsIn, hargs, ih hrest]

/-- The setup does not change the sites of a mapping. -/
theorem sectionSites_setUpProc {i : StartupInputs} (hf : RewritableMaps i) {g : Globals}
    (hg : layout i.gp i.sysconf i.mmap = .ok g) {args : RewriteArgs} (h : args ∈ i.rewrites) :
    i.sectionSites (i.setUpProc g).mem args = i.sectionSites i.mem args := by
  rcases layout_ok hg with ⟨page, hpage, _, hrgp, _⟩
  have hr := hf.rewritable page hpage args h
  have hround := le_protectedSize hf.pageSize args.codeSize.toNat
  have hfits := hr.fits
  refine sectionSites_congr (rewrites_nonzero h) (fun a hlow hhigh => setUpProc_mem hg ?_)
  rw [hrgp]
  exact hr.apart _ (by bv_omega)

/-! ## The constructor -/

/-- A process in which `gp` has been moved, for good as far as the constructor
    is concerned. -/
structure Activated (i : StartupInputs) (s : InitState) : Prop where
  replaced : s.proc.patched ≠ [] ↔ Replaces i
  settled : ∃ g, layout i.gp i.sysconf i.mmap = .ok g ∧ Settled (i.setUpProc g) s

/-- What the constructor leaves behind when it returns. -/
def Constructed (i : StartupInputs) (r : InitState × Bool) : Prop :=
  if r.2 then Skips i = true ∧ Clean i.gp r.1 ∧ r.1.proc.globals.rsi.relocatedGp = 0
  else Skips i = false ∧ SetsUp i ∧ Completes i ∧ Activated i r.1 ∧
    ∃ g, layout i.gp i.sysconf i.mmap = .ok g ∧
      r.1.proc = i.rewrites.foldl (Proc.rewriteSection i) (i.setUpProc g)

/-- What it leaves behind when it ends the process. Only a store of the setup
    can have faulted. -/
def Abandoned (i : StartupInputs) (h : Halted) : Prop :=
  Skips i = false ∧ (StoresPass i → h.stop.isFault = false) ∧
    ((¬ SetsUp i ∧ Clean i.gp h.state) ∨ (SetsUp i ∧ ¬ Completes i ∧ Activated i h.state))

section Constructor

variable {i : StartupInputs} {s : InitState}

theorem activate_moved (hf : RewritableMaps i) (h : Moved i s) :
    EndsIn (fun s' => Completes i ∧ Activated i s' ∧
        ∃ g, layout i.gp i.sysconf i.mmap = .ok g ∧
          s'.proc = i.rewrites.foldl (Proc.rewriteSection i) (i.setUpProc g))
      (fun h => ¬ Completes i ∧ h.stop.isFault = false ∧ Activated i h.state)
      (s.activate i) := by
  rcases h.proc with ⟨g, hg, hproc⟩
  rcases layout_ok hg with ⟨page, hpage, _, hrgp, _⟩
  -- No call so far was made with anything replaced.
  have hsettled : Settled (i.setUpProc g) s := by
    refine ⟨⟨?_, fun c hc hp => absurd (h.calls c hc) hp⟩, fun hp => absurd ?_ hp⟩
    · rw [hproc]
      exact Same.refl _
    · rw [hproc]
      rfl
  -- The injected code is elsewhere, so libc is still as it was at the start.
  have hsites : MapsFind i (i.setUpProc g).mem ↔ Replaces i :=
    FindsIn.congr (fun args h => sectionSites_setUpProc hf hg h)
  have hmaps : ∀ args ∈ i.rewrites, Rewritable i (i.setUpProc g).globals.rsi.relocatedGp args := by
    intro args hargs
    show Rewritable i g.rsi.relocatedGp args
    rw [hrgp]
    exact hf.rewritable page hpage args hargs
  refine (activate_spec hf.pageSize rfl hmaps hsettled hproc).mono ?_ ?_
  · rintro s' ⟨hcomp, hsettled', hproc'⟩
    refine ⟨hcomp, ⟨?_, g, hg, hsettled'⟩, g, hg, hproc'⟩
    rw [← hsites, hproc']
    exact replaced_iff rfl hcomp.1.2
  · rintro halted ⟨hcomp, hint⟩
    exact ⟨hcomp, hint.fault, hint.patched.trans hsites, g, hg, hint.settled⟩

theorem vpolineInit_spec (hf : RewritableMaps i) :
    EndsIn (Constructed i) (Abandoned i) (i.initial.vpolineInit i) := by
  have hstart : Clean i.gp i.initial := ⟨rfl, rfl, fun c hc => absurd hc List.not_mem_nil⟩
  -- The constructor from the point behind the name check on.
  have hrest : Skips i = false → ∀ s : InitState, Clean i.gp s →
      s.proc = ⟨i.gp, i.saved, i.mem, i.prot, []⟩ →
      EndsIn (Constructed i) (Abandoned i)
        (do let s ← s.setUp i; let s ← s.activate i; .ok (s, false)) := by
    intro hskip s hs hproc
    refine EndsIn.bind ((setUp_spec hs hproc).mono (fun _ h => h)
      (fun _ h => ⟨hskip, h.2.2, Or.inl ⟨h.1, h.2.1⟩⟩)) (fun s₁ h₁ => ?_)
    refine EndsIn.bind ((activate_moved hf h₁.2).mono (fun _ h => h)
      (fun _ h => ⟨hskip, fun _ => h.2.1, Or.inr ⟨h₁.1, h.1, h.2.2⟩⟩)) (fun s₂ h₂ => ?_)
    exact ⟨hskip, h₁.1, h₂⟩
  have hsaved := (hstart.modify (f := fun p =>
    { p with globals := { p.globals with virtualGlobalPointer := p.gp } }) rfl rfl).debugCall i
      [.printf]
  unfold InitState.vpolineInit
  cases hname : i.nameCheck with
  | none =>
      refine hrest (by rw [Skips, hname]) _ hsaved ?_
      rw [InitState.debugCall_proc]
      rfl
  | some check =>
      cases hp : check.passes with
      | true =>
          simp only [hp, if_true]
          refine hrest (by rw [Skips, hname]; simp only [hp, Bool.not_true]) _ (hsaved.call _) ?_
          rw [InitState.call_proc, InitState.debugCall_proc]
          rfl
      | false =>
          simp only [hp, Bool.false_eq_true, if_false]
          refine ⟨by rw [Skips, hname]; simp only [hp, Bool.not_false], hsaved.call _, ?_⟩
          rw [InitState.call_proc, InitState.debugCall_proc]
          rfl

end Constructor

/-! ## The whole start -/

section Start

variable {i : StartupInputs}

/-- The ways a process can start: the constructor ends it, or returns and
    `__libc_start_main` is called. -/
theorem startup_cases (hf : RewritableMaps i) :
    (∃ h, Abandoned i h ∧ startup i = ⟨h.state, false, some h.stop⟩) ∨
    ∃ s skipped, Constructed i (s, skipped) ∧
      startup i = ⟨(s.modify (fun p => { p with gp := i.gp })).libcStartMain, skipped, none⟩ := by
  have hinit := vpolineInit_spec hf
  unfold startup
  cases hrun : i.initial.vpolineInit i with
  | error halted =>
      rw [hrun] at hinit
      exact Or.inl ⟨halted, hinit, rfl⟩
  | ok r =>
      rw [hrun] at hinit
      exact Or.inr ⟨r.1, r.2, hinit, rfl⟩

/-- The calls of `__libc_start_main`. `dlsym` is called with the `gp` of the
    startup code, and the true `__libc_start_main` with `relocated_gp`. -/
theorem mem_libcStartMain {c : LibcFn × Proc} {s : InitState} :
    c ∈ (s.modify (fun p => { p with gp := i.gp })).libcStartMain.calls ↔
      c ∈ s.calls ∨ (.dlsym, { s.proc with gp := i.gp }) = c ∨
        (.libcStartMain, { s.proc with gp := s.proc.globals.rsi.relocatedGp }) = c := by
  unfold InitState.libcStartMain
  rw [InitState.mem_call]
  simp only [InitState.moveGp, InitState.modify, InitState.call, List.map_cons, List.map_nil,
    List.mem_append, List.mem_singleton, exists_eq_left, or_assoc, eq_comm]

/-- A start that replaces nothing and skips nothing. -/
theorem consistent_of_unpatched (hskip : (startup i).skipped = false)
    (h : ∀ c ∈ (startup i).state.calls, c.2.patched = []) : Consistent i :=
  ⟨fun c hc hp => absurd (h c hc) hp,
    fun hs => absurd (hskip.symm.trans hs) Bool.false_ne_true⟩

/-- The initialisation is skipped: `gp` becomes zero. -/
theorem consistent_of_skipped {s : InitState} (hclean : Clean i.gp s)
    (hzero : s.proc.globals.rsi.relocatedGp = 0)
    (hs : startup i = ⟨(s.modify (fun p => { p with gp := i.gp })).libcStartMain, true, none⟩) :
    Consistent i ↔ i.gp = 0 := by
  constructor
  · intro h
    -- The last call is made with `relocated_gp`, which is still zero.
    have hlast := h.skipped (by rw [hs])
      (.libcStartMain, { s.proc with gp := s.proc.globals.rsi.relocatedGp })
      (by rw [hs]; exact mem_libcStartMain.mpr (Or.inr (Or.inr rfl)))
    rw [← hlast]
    exact hzero
  · intro hgp
    constructor
    · intro c hmem hp
      rw [hs] at hmem
      rcases mem_libcStartMain.mp hmem with hmem | rfl | rfl
      · exact absurd (hclean.calls c hmem).2 hp
      · exact absurd hclean.patched hp
      · exact absurd hclean.patched hp
    · intro _ c hmem
      rw [hs] at hmem
      rcases mem_libcStartMain.mp hmem with hmem | rfl | rfl
      · exact (hclean.calls c hmem).1
      · rfl
      · exact hzero.trans hgp.symm

/-- The constructor gets to its end and has replaced something: `dlsym` is
    called with the wrong `gp`. -/
theorem dlsym_of_activated (hf : SystemAssumptions i) {s : InitState} (hact : Activated i s)
    (hrep : Replaces i)
    (hs : startup i = ⟨(s.modify (fun p => { p with gp := i.gp })).libcStartMain, false, none⟩) :
    ∃ c ∈ (startup i).state.calls, c.1 = .dlsym ∧ c.2.patched ≠ [] ∧
      c.2.gp ≠ c.2.globals.rsi.relocatedGp := by
  rcases hact.settled with ⟨g, hg, hsettled⟩
  rcases layout_ok hg with ⟨page, hpage, _, hrgp, _⟩
  refine ⟨(.dlsym, { s.proc with gp := i.gp }), ?_, rfl, hact.replaced.mpr hrep, ?_⟩
  · rw [hs]
    exact mem_libcStartMain.mpr (Or.inr (Or.inl rfl))
  -- The startup code has set `gp` back, and the relocated one is in another page.
  · show i.gp ≠ s.proc.globals.rsi.relocatedGp
    rw [hsettled.live.same.globals, show (i.setUpProc g).globals = g from rfl, hrgp]
    exact (hf.elsewhere page hpage).symm

theorem consistent_of_activated (hf : SystemAssumptions i) {s : InitState} (hact : Activated i s)
    (hs : startup i = ⟨(s.modify (fun p => { p with gp := i.gp })).libcStartMain, false, none⟩) :
    Consistent i ↔ ¬ Replaces i := by
  constructor
  · intro h hrep
    rcases dlsym_of_activated hf hact hrep hs with ⟨c, hmem, _, hp, hgp⟩
    exact hgp (h.patched c hmem hp).1
  · intro hno
    rcases hact.settled with ⟨_, _, hlive, _⟩
    have hp : s.proc.patched = [] := by
      by_contra hne
      exact hno (hact.replaced.mp hne)
    refine consistent_of_unpatched (by rw [hs]) (fun c hmem => ?_)
    rw [hs] at hmem
    rcases mem_libcStartMain.mp hmem with hmem | rfl | rfl
    · by_contra hcp
      exact (hlive.calls c hmem hcp).2 hp
    · exact hp
    · exact hp

/-- The constructor ends the process after the move: the calls made after the
    first replacement are right if the injected code works. -/
theorem consistent_of_stopped {h : Halted} (hact : Activated i h.state)
    (hs : startup i = ⟨h.state, false, some h.stop⟩) :
    Consistent i ↔ ¬ Replaces i ∨ Works i := by
  rcases hact.settled with ⟨g, hg, hlive, hseen⟩
  rw [← hact.replaced, ← ready_setUpProc hg]
  constructor
  · intro hcons
    by_cases hp : h.state.proc.patched = []
    · exact Or.inl (fun hne => hne hp)
    · -- Something is replaced, and a call was made after it.
      rcases hseen hp with ⟨c, hmem, hcp⟩
      -- Its process tells whether the injected code works.
      have hc := hcons.patched c (by rw [hs]; exact hmem) hcp
      exact Or.inr ((hlive.calls c hmem hcp).1.symm.ready hc.2)
  · rintro (hp | hr)
    · refine consistent_of_unpatched (by rw [hs]) (fun c hmem => ?_)
      rw [hs] at hmem
      by_contra hcp
      exact hp (hlive.calls c hmem hcp).2
    · constructor
      · intro c hmem hcp
        rw [hs] at hmem
        have hsame := (hlive.calls c hmem hcp).1
        refine ⟨?_, hsame.ready hr⟩
        rw [hsame.gp, hsame.globals]
        rfl
      · intro hskip
        rw [hs] at hskip
        exact absurd hskip Bool.false_ne_true

end Start

/-- `gp` is right at every call exactly in these cases. If the initialisation
    is skipped, the program's `gp` has to be zero. Otherwise the setup has to
    fail, at a call or at a store, or libc has to be without an `ecall` to
    replace, or the process has to end inside the constructor with the injected
    code executable. -/
theorem startup_consistent_iff (i : StartupInputs) (hf : SystemAssumptions i) :
    Consistent i ↔
      if Skips i then i.gp = 0
      else ¬ SetsUp i ∨ ¬ Replaces i ∨ (¬ Completes i ∧ Works i) := by
  rcases startup_cases hf.toRewritableMaps with
    ⟨h, ⟨hskip, _, hend⟩, hs⟩ | ⟨s, skipped, hc, hs⟩
  · rw [hskip, if_neg Bool.false_ne_true]
    rcases hend with ⟨hup, hclean⟩ | ⟨hup, hcomp, hact⟩
    · refine ⟨fun _ => Or.inl hup, fun _ => consistent_of_unpatched (by rw [hs]) ?_⟩
      rw [hs]
      exact fun c hmem => (hclean.calls c hmem).2
    · rw [consistent_of_stopped hact hs]
      simp only [hup, hcomp, not_true_eq_false, not_false_eq_true, true_and, false_or]
  · cases skipped with
    | true =>
        rcases hc with ⟨hskip, hclean, hzero⟩
        rw [consistent_of_skipped hclean hzero hs, hskip, if_pos rfl]
    | false =>
        rcases hc with ⟨hskip, hup, hcomp, hact, _⟩
        rw [consistent_of_activated hf hact hs, hskip, if_neg Bool.false_ne_true]
        simp only [hup, hcomp, not_true_eq_false, false_and, or_false, false_or]

/-! ## A process with one page of libc -/

/-- Its memory map, when libc is rewritten: text and data of libc, and the page
    for the injected code, which may only be executed by then. -/
def pageMaps : List Mapping :=
  [{ libcMapping with
      fromAddr := 0x40000, toAddr := 0x41000, lt := by decide, fits := by decide,
      short := by decide },
    { libcMapping with
      fromAddr := 0x41000, toAddr := 0x42000, write := true, exec := false, lt := by decide,
      fits := by decide, short := by decide },
    { libcMapping with
      fromAddr := 0x7f0000000000, toAddr := 0x7f0000001000, read := false, major := 0, minor := 0,
      inode := 0, pad := 0, path := [], lt := by decide, fits := by decide,
      newline_free := by decide, nul_free := by decide, short := by decide }]

/-- The text of libc. -/
def pageText : RewriteArgs := ⟨0x40000, 0x1000, ⟨true, false, true⟩⟩

theorem textArgs_pageMaps : textArgs (printMaps pageMaps) = [pageText] := by
  rw [textArgs_printMaps]
  decide

/-- The protections before the start: libc, and the page with the program's
    data. -/
def pageProt (a : Addr) : Prot :=
  if (a - 0x40000).toNat < 0x1000 then ⟨true, false, true⟩
  else if (a - 0x41000).toNat < 0x1000 ∨ (a - 0x12000).toNat < 0x1000 then ⟨true, true, false⟩
  else ⟨false, false, false⟩

/-- A disassembler without unknown encodings. -/
def knowsAll (_ : Encoding) : Bool := true

/-- A release build, with no hook library. -/
def pageStart (m : Mem) : StartupInputs where
  nameCheck := none
  ndebug := true
  gp := 0x12800
  mem := m
  prot := pageProt
  dst := 0x30000
  sysconf := 4096
  sigaction := true
  mmap := some 0x7f0000000000
  mprotectReturn := true
  maps := .ok (printMaps pageMaps)
  calls _ := succeeding knowsAll
  hook := .unset

/-- The same with a hook library that cannot be opened. -/
def pageNoHook (m : Mem) : StartupInputs := { pageStart m with hook := .dlopenFails "not found" }

/-- A DEBUG build started from a program that it is not meant for. -/
def otherProgram (m : Mem) : StartupInputs :=
  { pageStart m with
    nameCheck := some ⟨some "/usr/bin/bash".toList, some "target".toList, none⟩ }

section Page

variable {m : Mem}

theorem pageStart_rewrites : (pageStart m).rewrites = [pageText] := textArgs_pageMaps

theorem pageNoHook_rewrites : (pageNoHook m).rewrites = [pageText] := textArgs_pageMaps

/-- The layout of the process. -/
theorem pageStart_layout : ∃ g, layout 0x12800 4096 (some 0x7f0000000000) = .ok g ∧
    g.rsi.relocatedGp = 0x7f0000000800 ∧ g.rsi.retSequencePageAddr = 0x7f0000000000 ∧
    g.rsi.protectionSize = 4096 ∧ InitState.protectedSize g.pageSize
      (BitVec.ofNat 32 retSequenceSize + g.rsi.startOffset).toNat = 4096 :=
  ⟨_, rfl, by decide, by decide, by decide, by decide⟩

/-- The injected code is in the fresh page. -/
theorem page_injected {g : Globals} (hg : layout 0x12800 4096 (some 0x7f0000000000) = .ok g)
    {a : Addr} (ha : (a - (g.rsi.relocatedGp - 56)).toNat < 136) :
    mappedByte g a = true ∧ protectedByte g a = true := by
  rcases pageStart_layout with ⟨g', hg', hrgp, hpage, hsize, hprotected⟩
  rw [hg'] at hg
  cases hg
  rw [hrgp] at ha
  refine ⟨?_, ?_⟩
  · rw [mappedByte, decide_eq_true_eq, hpage, hsize]
    bv_omega
  · rw [protectedByte, decide_eq_true_eq, hpage, hprotected]
    bv_omega

/-- Whatever the hook library does, the system is as is relied on. -/
theorem page_assumptions (i : StartupInputs) (hgp : i.gp = 0x12800) (hsysconf : i.sysconf = 4096)
    (hmmap : i.mmap = some 0x7f0000000000) (hcalls : i.calls = fun _ => succeeding knowsAll)
    (hrewrites : i.rewrites = [pageText]) : SystemAssumptions i := by
  have hsize : InitState.protectedSize 4096 pageText.codeSize.toNat = 4096 := by decide
  have hrgp : (0x7f0000000000 : Addr) + 0x12800 % 4096 = 0x7f0000000800 := by decide
  refine ⟨⟨by rw [hsysconf]; decide, fun page hpage args hargs => ?_⟩, fun page hpage => ?_⟩
  · rw [hmmap] at hpage
    cases hpage
    rw [hrewrites, List.mem_singleton] at hargs
    subst hargs
    refine ⟨by decide, fun a ha => ?_, fun d hd => ?_⟩
    · rw [hsysconf, hsize] at ha
      have hin : (a - 0x40000).toNat < 4096 := ha
      rw [hgp, hsysconf, hrgp]
      bv_omega
    · rw [hcalls] at hd
      cases hd
      exact capstone_wellBehaved _
  · rw [hmmap] at hpage
    cases hpage
    rw [hgp, hsysconf, hrgp]
    decide

theorem pageStart_assumptions : SystemAssumptions (pageStart m) :=
  page_assumptions _ rfl rfl rfl rfl pageStart_rewrites

theorem pageNoHook_assumptions : SystemAssumptions (pageNoHook m) :=
  page_assumptions _ rfl rfl rfl rfl pageNoHook_rewrites

theorem pageStart_setsUp : SetsUp (pageStart m) :=
  ⟨⟨rfl, rfl, _, rfl, fun _ => show (0x7f0000000000 : Addr) % 4096 = 0 by decide⟩,
    fun _ hg _ ha => Or.inl (page_injected hg ha).1⟩

theorem pageNoHook_setsUp : SetsUp (pageNoHook m) :=
  ⟨⟨rfl, rfl, _, rfl, fun _ => show (0x7f0000000000 : Addr) % 4096 = 0 by decide⟩,
    fun _ hg _ ha => Or.inl (page_injected hg ha).1⟩

theorem pageStart_completes : Completes (pageStart m) := by
  refine ⟨⟨⟨_, rfl⟩, fun args hargs => ?_⟩, Or.inl rfl⟩
  rw [pageStart_rewrites, List.mem_singleton] at hargs
  subst hargs
  exact ⟨rfl, ⟨_, rfl⟩, rfl⟩

/-- The sites of a page that starts with an `ecall` and has no other byte `0x73`. -/
theorem pageText_sites (hfirst : bytesFrom m 0x40000 4 = ecallEncoding.bytes)
    (honly : ∀ o, o < 4096 → m (BitVec.ofNat 64 (0x40000 + o)) = 0x73 → o = 0) :
    sectionEcalls (capstone knowsAll) 0x40000 0x1000 m = [0x40000] := by
  have hd := capstone_wellBehaved knowsAll
  have hexact := capstone_recognisesEcall (show knowsAll ecallEncoding = true from rfl)
  have hsplit : bytesFrom m 0x40000 4096
      = ecallEncoding.bytes ++ (bytesFrom m 0x40000 4096).drop 4 := by
    rw [← hfirst]
    refine (List.take_append_drop 4 _).symm.trans ?_
    rw [bytesFrom, bytesFrom, ← List.map_take, List.take_range]
    rfl
  -- The sweep starts at the `ecall`.
  have hreport : Reports ⟨capstone knowsAll, 0x40fff⟩ m 0x40000 := by
    simp only [Reports, Nat.reduceSub, Nat.reduceAdd]
    rw [hexact, hsplit]
    exact List.prefix_append _ _
  have hmem : 0x40000 ∈ sectionEcalls (capstone knowsAll) 0x40000 0x1000 m :=
    (mem_sectionEcalls_iff hd).mpr ⟨Visits.refl _ _, by decide, hreport⟩
  -- Whatever it reports starts with `0x73`.
  have hall : ∀ p ∈ sectionEcalls (capstone knowsAll) 0x40000 0x1000 m, p = 0x40000 := by
    intro p hp
    have hin := sectionEcalls_inside hd (by decide) hp
    have hbyte := byte_of_reported hexact ((mem_sectionEcalls_iff hd).mp hp).2.2
      (show 0 < ecallEncoding.bytes.length by decide)
    have hcode : (0x40000 : Addr).toNat = 0x40000 := rfl
    have hsize : (0x1000 : BitVec 64).toNat = 0x1000 := rfl
    rw [hcode, hsize] at hin
    rcases Nat.exists_eq_add_of_le hin.1 with ⟨o, rfl⟩
    have ho := honly o (by omega) hbyte
    omega
  -- And it reports nothing twice.
  have hnodup : (sectionEcalls (capstone knowsAll) 0x40000 0x1000 m).Nodup :=
    (reported_apart hd _ _ (Nat.le_refl _)).imp (fun h => by omega)
  refine List.perm_singleton.mp ((List.perm_ext_iff_of_nodup hnodup
    (List.pairwise_singleton _ _)).mpr (fun p => ?_))
  rw [List.mem_singleton]
  exact ⟨hall p, fun hp => hp ▸ hmem⟩

end Page

/-- A page of libc with an `ecall` and nothing else. -/
def ecallMem : Mem := fun a => if a = 0x40000 then 0x73 else 0

theorem ecallMem_sites : sectionEcalls (capstone knowsAll) 0x40000 0x1000 ecallMem = [0x40000] := by
  refine pageText_sites (by decide) (fun o ho hbyte => ?_)
  by_contra hne
  have hzero : ecallMem (BitVec.ofNat 64 (0x40000 + o)) = 0 := if_neg (by bv_omega)
  rw [hzero] at hbyte
  exact absurd hbyte (by decide)

theorem replaces_page {i : StartupInputs} (hmem : i.mem = ecallMem)
    (hcalls : i.calls = fun _ => succeeding knowsAll) (hrewrites : i.rewrites = [pageText]) :
    Replaces i := by
  unfold Replaces MapsFind
  rw [hrewrites, hmem]
  refine Or.inl ?_
  have hsites : i.sectionSites ecallMem pageText
      = sectionEcalls (capstone knowsAll) 0x40000 0x1000 ecallMem := by
    unfold StartupInputs.sectionSites
    rw [hcalls]
    rfl
  rw [hsites, ecallMem_sites]
  exact List.cons_ne_nil _ _

/-- The hook library cannot be opened: an `ecall` is replaced, and the process
    ends in the constructor, with `gp` right at every call. -/
theorem startup_consistent_iff_noHook :
    SystemAssumptions (pageNoHook ecallMem) ∧ SetsUp (pageNoHook ecallMem) ∧
      Replaces (pageNoHook ecallMem) ∧ ¬ Completes (pageNoHook ecallMem) ∧
      Consistent (pageNoHook ecallMem) := by
  have hcomp : ¬ Completes (pageNoHook ecallMem) := by
    rintro ⟨_, hhook | hhook⟩
    · exact absurd hhook (by simp only [pageNoHook, reduceCtorEq, not_false_eq_true])
    · exact absurd hhook (by simp only [pageNoHook, reduceCtorEq, not_false_eq_true])
  have hworks : Works (pageNoHook ecallMem) :=
    fun _ hg _ ha => Or.inl (page_injected hg ha).2
  exact ⟨pageNoHook_assumptions, pageNoHook_setsUp,
    replaces_page rfl rfl pageNoHook_rewrites, hcomp,
    (startup_consistent_iff _ pageNoHook_assumptions).mpr (Or.inr (Or.inr ⟨hcomp, hworks⟩))⟩

/-- With libc patched, `dlsym` runs with the `gp` of the program. In the other
    program the true `__libc_start_main` runs with `gp` zero. -/
theorem startup_inconsistent :
    (∃ c ∈ (startup (pageStart ecallMem)).state.calls, c.1 = .dlsym ∧ c.2.patched ≠ [] ∧
      c.2.gp ≠ c.2.globals.rsi.relocatedGp) ∧ ¬ Consistent (pageStart ecallMem) ∧
    (∃ c ∈ (startup (otherProgram ecallMem)).state.calls, c.1 = .libcStartMain ∧ c.2.gp = 0) ∧
    ¬ Consistent (otherProgram ecallMem) := by
  have hfirst : ∃ c ∈ (startup (pageStart ecallMem)).state.calls, c.1 = .dlsym ∧
      c.2.patched ≠ [] ∧ c.2.gp ≠ c.2.globals.rsi.relocatedGp := by
    rcases startup_cases (pageStart_assumptions (m := ecallMem)).toRewritableMaps with
      ⟨h, ⟨_, _, hend⟩, _⟩ | ⟨s, skipped, hc, hs⟩
    · rcases hend with hend | hend
      · exact absurd pageStart_setsUp hend.1
      · exact absurd pageStart_completes hend.2.1
    · cases skipped with
      | true => exact absurd hc.1 (by simp only [Skips, pageStart, Bool.false_eq_true,
          not_false_eq_true])
      | false =>
          exact dlsym_of_activated pageStart_assumptions hc.2.2.2.1
            (replaces_page rfl rfl pageStart_rewrites) hs
  -- The other one returns before it has computed anything.
  have hsecond : ∃ c ∈ (startup (otherProgram ecallMem)).state.calls,
      c.1 = .libcStartMain ∧ c.2.gp = 0 :=
    ⟨_, mem_libcStartMain.mpr (Or.inr (Or.inr rfl)), rfl, rfl⟩
  refine ⟨hfirst, fun h => ?_, hsecond, fun h => ?_⟩
  · rcases hfirst with ⟨c, hmem, _, hp, hgp⟩
    exact hgp (h.patched c hmem hp).1
  · rcases hsecond with ⟨c, hmem, _, hgp⟩
    have hkept := h.skipped rfl c hmem
    rw [hgp] at hkept
    exact absurd hkept (by decide)

end Vpoline
