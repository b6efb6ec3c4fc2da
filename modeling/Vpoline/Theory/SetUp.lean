import Vpoline.Core.Startup
import Vpoline.Lib.Ends

/-!
# The First Half of the Constructor

From `define_ret_sequence_info` to the move of `gp`: how each function ends,
what it does to the process, and in which state it makes its calls into libc.

`Clean` describes a process before `gp` is moved, and every function keeps it.
`setUp_spec` says when the setup succeeds and which process it then leaves, and
that otherwise the process ends with nothing replaced.

Whether the setup succeeds is decided by what the system returns and by where
`gp` is in its page. `SetsUp` says how, without running anything. The stores are
part of it: the trampoline and the return sequence take 136 bytes around the
relocated `gp`, and those outside the fresh mapping are stored only if
something else is mapped there and may be written.

## Main definitions

* `Clean`: Nothing is replaced yet and `gp` is untouched.
* `Writable`: Bytes that may be written.
* `StoresPass`: The stores of the setup do not fault.
* `SetsUp`: The setup succeeds.
* `StartupInputs.setUpProc`: The process it leaves.
* `Stop.isFault`: A process that was ended by a fault.

## Theorems

* `storeWords_spec`: Stores, checked.
* `injected_spec`: The injected code.
* `setUp_spec`: The first half of the constructor.
* `setUpProc_mem`, `setUpProc_words`: The memory it leaves.
-/

namespace Vpoline

namespace InitState

theorem mem_call {c : LibcFn × Proc} {fns : List LibcFn} {s : InitState} :
    c ∈ (s.call fns).calls ↔ c ∈ s.calls ∨ ∃ fn ∈ fns, (fn, s.proc) = c := by
  simp only [call, List.mem_append, List.mem_map]

/-- A debug call is a call or nothing. -/
theorem debugCall_cases (i : StartupInputs) (fns : List LibcFn) (s : InitState) :
    s.debugCall i fns = s.call fns ∨ s.debugCall i fns = s := by
  unfold debugCall
  by_cases h : i.debug = true
  · exact Or.inl (if_pos h)
  · exact Or.inr (if_neg h)

@[simp] theorem call_proc (fns : List LibcFn) (s : InitState) : (s.call fns).proc = s.proc := rfl

@[simp] theorem debugCall_proc (i : StartupInputs) (fns : List LibcFn) (s : InitState) :
    (s.debugCall i fns).proc = s.proc := by
  rcases debugCall_cases i fns s with h | h <;> rw [h]
  rfl

end InitState

/-- The process was ended by a fault, and not by a decision of its own. -/
def Stop.isFault : Stop → Bool
  | .exit _ => false
  | .trap _ => true
  | .raise => true
  | .abort _ => false

/-! ## Before `gp` is moved -/

/-- Nothing is replaced yet, and `gp` is what the startup code made it. -/
structure Clean (start : Addr) (s : InitState) : Prop where
  gp : s.proc.gp = start
  patched : s.proc.patched = []
  calls : ∀ c ∈ s.calls, c.2.gp = start ∧ c.2.patched = []

namespace Clean

variable {start : Addr} {s : InitState}

theorem call (h : Clean start s) (fns : List LibcFn) : Clean start (s.call fns) := by
  refine ⟨h.gp, h.patched, fun c hc => ?_⟩
  rcases InitState.mem_call.mp hc with hc | ⟨fn, _, rfl⟩
  · exact h.calls c hc
  · exact ⟨h.gp, h.patched⟩

theorem debugCall (h : Clean start s) (i : StartupInputs) (fns : List LibcFn) :
    Clean start (s.debugCall i fns) := by
  rcases InitState.debugCall_cases i fns s with heq | heq <;> rw [heq]
  · exact h.call fns
  · exact h

theorem modify (h : Clean start s) {f : Proc → Proc} (hgp : (f s.proc).gp = s.proc.gp)
    (hpatched : (f s.proc).patched = s.proc.patched) : Clean start (s.modify f) :=
  ⟨hgp.trans h.gp, hpatched.trans h.patched, h.calls⟩

end Clean

/-! ## Stores -/

/-- The `n` bytes at `a` may be written. -/
def Writable (prot : Addr → Prot) (a : Addr) (n : Nat) : Prop :=
  ∀ k, k < n → (prot (a + BitVec.ofNat 64 k)).write = true

theorem unwritable_eq_none_iff {p : Proc} {a : Addr} :
    p.unwritable a = none ↔ Writable p.prot a 4 := by
  simp only [Proc.unwritable, List.find?_eq_none, List.mem_map, List.mem_range,
    forall_exists_index, and_imp, forall_apply_eq_imp_iff₂, Bool.not_eq_true', Bool.not_eq_false,
    Writable]

/-- The process after some words have been stored. -/
def Proc.storeWords (a : Addr) (ws : List (BitVec 32)) (p : Proc) : Proc :=
  { p with mem := p.mem.storeWords a ws }

section Stores

variable {i : StartupInputs} {start : Addr}

theorem store_writable {s : InitState} {a : Addr} (w : BitVec 32) (h : Writable s.proc.prot a 4) :
    s.store i a w = .ok (s.modify (fun p => { p with mem := p.mem.write a 4 w })) := by
  unfold InitState.store
  rw [unwritable_eq_none_iff.mpr h]

/-- Stores go through exactly if all of their bytes may be written. The
    induction is on the words. -/
theorem storeWords_spec (ws : List (BitVec 32)) {a : Addr} {s : InitState} (h : Clean start s) :
    EndsIn
      (fun s' => Writable s.proc.prot a (4 * ws.length) ∧ s' = s.modify (Proc.storeWords a ws))
      (fun halted => ¬ Writable s.proc.prot a (4 * ws.length) ∧ Clean start halted.state)
      (s.storeWords i a ws) := by
  induction ws generalizing a s with
  | nil => exact ⟨fun k hk => absurd hk (Nat.not_lt_zero k), rfl⟩
  | cons w ws ih =>
      -- The first word, and the rest of them.
      have hsplit : Writable s.proc.prot a (4 * (w :: ws).length) ↔
          Writable s.proc.prot a 4 ∧ Writable s.proc.prot (a + 4) (4 * ws.length) := by
        rw [List.length_cons]
        constructor
        · intro hall
          refine ⟨fun k hk => hall k (by omega), fun k hk => ?_⟩
          rw [show a + 4 + BitVec.ofNat 64 k = a + BitVec.ofNat 64 (4 + k) by bv_omega]
          exact hall (4 + k) (by omega)
        · rintro ⟨hfirst, hrest⟩ k hk
          by_cases hlt : k < 4
          · exact hfirst k hlt
          · have hk' := hrest (k - 4) (by omega)
            rw [show a + 4 + BitVec.ofNat 64 (k - 4) = a + BitVec.ofNat 64 k by bv_omega] at hk'
            exact hk'
      rw [InitState.storeWords]
      cases hun : s.proc.unwritable a with
      | some b =>
          have hstore : s.store i a w
              = s.halt (InitState.faultCalls i) (outsideXom i.debug b) := by
            unfold InitState.store
            rw [hun]
          rw [hstore]
          refine ⟨fun hall => ?_, h.call _⟩
          rw [unwritable_eq_none_iff.mpr (hsplit.mp hall).1] at hun
          exact absurd hun (by simp only [reduceCtorEq, not_false_eq_true])
      | none =>
          have hfirst := unwritable_eq_none_iff.mp hun
          rw [store_writable w hfirst]
          refine (ih (a := a + 4) (h.modify rfl rfl)).mono ?_ ?_
          · rintro s' ⟨hrest, rfl⟩
            exact ⟨hsplit.mpr ⟨hfirst, hrest⟩, rfl⟩
          · rintro halted ⟨hrest, hclean⟩
            exact ⟨fun hall => hrest (hsplit.mp hall).2, hclean⟩

end Stores

/-! ## Setting up the injected code -/

/-- What may be done with a byte when the page is mapped and not protected yet. -/
def StartupInputs.freshProt (i : StartupInputs) (g : Globals) (a : Addr) : Prot :=
  if mappedByte g a then ⟨true, true, false⟩ else i.prot a

/-- The stores of the setup do not fault: each of the 136 bytes is in the fresh
    mapping, or may be written anyway. -/
def StoresPass (i : StartupInputs) : Prop :=
  ∀ g, layout i.gp i.sysconf i.mmap = .ok g →
    ∀ a, (a - (g.rsi.relocatedGp - 56)).toNat < 136 →
      mappedByte g a = true ∨ (i.prot a).write = true

/-- The calls of the setup succeed: the handler is registered, the page is
    mapped where the assertion accepts it, and it can be made executable. -/
def SetUpCallsPass (i : StartupInputs) : Prop :=
  i.sigaction = true ∧ i.mprotectReturn = true ∧
    ∃ page, i.mmap = some page ∧ (i.ndebug = false → page % i.sysconf = 0)

/-- The setup succeeds. -/
def SetsUp (i : StartupInputs) : Prop := SetUpCallsPass i ∧ StoresPass i

/-- The globals when the constructor has saved `gp`. -/
def StartupInputs.saved (i : StartupInputs) : Globals :=
  { Globals.zero with virtualGlobalPointer := i.gp }

/-- The process when the setup has succeeded, for the layout `g`. -/
def StartupInputs.setUpProc (i : StartupInputs) (g : Globals) : Proc where
  gp := g.rsi.relocatedGp
  globals := g
  mem := (i.mem.storeWords g.rsi.relocatedGp (setupShadowPageTrampoline i.dst)).storeWords
    g.rsi.startAddr setupReturn
  prot a := if protectedByte g a then ⟨false, false, true⟩ else i.freshProt g a
  patched := []

/-- What the setup has established when it succeeds. -/
structure Moved (i : StartupInputs) (s : InitState) : Prop where
  proc : ∃ g, layout i.gp i.sysconf i.mmap = .ok g ∧ s.proc = i.setUpProc g
  calls : ∀ c ∈ s.calls, c.2.patched = []

section SetUp

variable {i : StartupInputs} {s : InitState}

theorem initTrapHandler_spec (h : Clean i.gp s) :
    EndsIn (fun s' => i.sigaction = true ∧ Clean i.gp s' ∧ s'.proc = s.proc)
      (fun h => i.sigaction = false ∧ Clean i.gp h.state ∧ h.stop.isFault = false)
      (s.initTrapHandler i) := by
  unfold InitState.initTrapHandler
  cases hs : i.sigaction with
  | true => exact ⟨rfl, h.call _, rfl⟩
  | false => exact ⟨rfl, (h.call _).call _, rfl⟩

theorem allocateRetSequencePage_spec (h : Clean i.gp s) :
    EndsIn (fun s' => Clean i.gp s' ∧
        ∃ g, allocateRetSequencePage i.mmap s.proc.globals = .ok g ∧
          s'.proc = { s.proc with
            globals := g
            prot := fun a => if mappedByte g a then ⟨true, true, false⟩ else s.proc.prot a })
      (fun h => i.mmap = none ∧ Clean i.gp h.state ∧ h.stop.isFault = false)
      (s.allocateRetSequencePage i) := by
  unfold InitState.allocateRetSequencePage
  cases hmap : i.mmap with
  | none => exact ⟨rfl, (h.call _).call _, rfl⟩
  -- The fresh mapping may be read and written.
  | some page =>
      refine ⟨((h.call _).debugCall i _).modify rfl rfl, _, rfl, ?_⟩
      simp only [InitState.modify, InitState.debugCall_proc, InitState.call_proc]

theorem setupShadowPageTrampoline_spec (h : Clean i.gp s) :
    EndsIn (fun s' => Writable s.proc.prot s.proc.globals.rsi.relocatedGp 80 ∧ Clean i.gp s' ∧
        s'.proc = s.proc.storeWords s.proc.globals.rsi.relocatedGp
          (setupShadowPageTrampoline i.dst))
      (fun h => ¬ Writable s.proc.prot s.proc.globals.rsi.relocatedGp 80 ∧ Clean i.gp h.state)
      (s.setupShadowPageTrampoline i) := by
  have hspec := storeWords_spec (i := i) (setupShadowPageTrampoline i.dst)
    (a := s.proc.globals.rsi.relocatedGp) (h.debugCall i [.printf])
  rw [length_trampoline, InitState.debugCall_proc] at hspec
  -- The debug call in front does not change the process.
  refine hspec.mono ?_ (fun _ h => h)
  rintro s' ⟨hw, rfl⟩
  refine ⟨hw, (h.debugCall i _).modify rfl rfl, ?_⟩
  rw [InitState.modify, InitState.debugCall_proc]

theorem setupReturn_spec (h : Clean i.gp s) :
    EndsIn (fun s' => i.mprotectReturn = true ∧
        (i.ndebug = false →
          s.proc.globals.rsi.retSequencePageAddr % s.proc.globals.pageSize = 0) ∧
        Writable s.proc.prot s.proc.globals.rsi.startAddr 56 ∧ Clean i.gp s' ∧
        s'.proc = { s.proc with
          mem := s.proc.mem.storeWords s.proc.globals.rsi.startAddr setupReturn
          prot := fun a =>
            if protectedByte s.proc.globals a then ⟨false, false, true⟩ else s.proc.prot a })
      (fun h => (i.mprotectReturn = false ∨
          (i.ndebug = false ∧
            s.proc.globals.rsi.retSequencePageAddr % s.proc.globals.pageSize ≠ 0) ∨
          ¬ Writable s.proc.prot s.proc.globals.rsi.startAddr 56) ∧ Clean i.gp h.state ∧
        (Writable s.proc.prot s.proc.globals.rsi.startAddr 56 → h.stop.isFault = false))
      (s.setupReturn i) := by
  unfold InitState.setupReturn
  by_cases hassert : i.ndebug = false ∧
      s.proc.globals.rsi.retSequencePageAddr % s.proc.globals.pageSize ≠ 0
  · -- The assertion fails before anything is stored.
    simp only [if_pos hassert]
    exact ⟨Or.inr (Or.inl hassert), h.call _, fun _ => rfl⟩
  · simp only [if_neg hassert]
    have hstores := storeWords_spec (i := i) setupReturn (a := s.proc.globals.rsi.startAddr)
      (h.debugCall i [.printf])
    rw [length_return, retSequenceSize, InitState.debugCall_proc] at hstores
    refine EndsIn.bind (hstores.mono (fun _ h => h) (fun halted hh => ?_)) ?_
    · exact ⟨Or.inr (Or.inr hh.1), hh.2, fun hw => absurd hw hh.1⟩
    · rintro s' ⟨hw, rfl⟩
      have hstored : Clean i.gp ((s.debugCall i [.printf]).modify
          (Proc.storeWords s.proc.globals.rsi.startAddr setupReturn)) :=
        (h.debugCall i _).modify rfl rfl
      cases hp : i.mprotectReturn with
      | true =>
          refine ⟨rfl, fun hn => ?_, hw, ((hstored.debugCall i _).call _).modify rfl rfl, ?_⟩
          · by_contra hne
            exact hassert ⟨hn, hne⟩
          · simp only [InitState.modify, InitState.call_proc, InitState.debugCall_proc,
              Proc.storeWords, Proc.protect, protectedByte, decide_eq_true_eq]
      | false => exact ⟨Or.inl rfl, ((hstored.debugCall i _).call _).call _, fun _ => rfl⟩

/-- The fields of the layout that the constructor uses. -/
theorem allocate_ok {mmap : Option Addr} {g g' : Globals}
    (h : allocateRetSequencePage mmap g = .ok g') :
    ∃ page, mmap = some page ∧ g'.rsi.retSequencePageAddr = page ∧
      g'.rsi.relocatedGp = page + g.rsi.gpOffset ∧ g'.pageSize = g.pageSize ∧
      g'.rsi.startAddr = g'.rsi.relocatedGp - 56 := by
  cases mmap with
  | none => exact absurd h (by simp only [allocateRetSequencePage, reduceCtorEq, not_false_eq_true])
  | some page =>
      cases h
      exact ⟨page, rfl, rfl, rfl, rfl, rfl⟩

theorem layout_ok {g : Globals} (hg : layout i.gp i.sysconf i.mmap = .ok g) :
    ∃ page, i.mmap = some page ∧ g.rsi.retSequencePageAddr = page ∧
      g.rsi.relocatedGp = page + i.gp % i.sysconf ∧ g.pageSize = i.sysconf ∧
      g.rsi.startAddr = g.rsi.relocatedGp - 56 := allocate_ok hg

/-- The two pieces of code lie one below the other. -/
theorem writable_injected {prot : Addr → Prot} {rgp : Addr} :
    Writable prot rgp 80 ∧ Writable prot (rgp - 56) 56 ↔
      ∀ a, (a - (rgp - 56)).toNat < 136 → (prot a).write = true := by
  constructor
  · rintro ⟨hhigh, hlow⟩ a ha
    -- The return sequence comes first, and the trampoline is right behind it.
    by_cases hlt : (a - (rgp - 56)).toNat < 56
    · have hbyte := hlow _ hlt
      rw [BitVec.ofNat_toNat, BitVec.setWidth_eq, BitVec.add_comm, BitVec.sub_add_cancel] at hbyte
      exact hbyte
    · have hbyte := hhigh (a - rgp).toNat (by bv_omega)
      rw [BitVec.ofNat_toNat, BitVec.setWidth_eq, BitVec.add_comm, BitVec.sub_add_cancel] at hbyte
      exact hbyte
  · intro h
    exact ⟨fun k hk => h _ (by bv_omega), fun k hk => h _ (by bv_omega)⟩

/-- The stores pass if the bytes may be written when the page is mapped. -/
theorem storesPass_iff {g : Globals} (hg : layout i.gp i.sysconf i.mmap = .ok g) :
    StoresPass i ↔ Writable (i.freshProt g) g.rsi.relocatedGp 80 ∧
      Writable (i.freshProt g) g.rsi.startAddr 56 := by
  rcases layout_ok hg with ⟨_, _, _, _, _, hstart⟩
  -- A byte of the fresh mapping may be written, and any other if it could be before.
  have hbyte : ∀ a, (i.freshProt g a).write = true ↔
      mappedByte g a = true ∨ (i.prot a).write = true := by
    intro a
    unfold StartupInputs.freshProt
    by_cases hm : mappedByte g a = true
    · simp only [hm, if_true, true_or]
    · simp only [hm, if_false, false_or, Bool.false_eq_true]
  rw [hstart, writable_injected]
  simp only [hbyte]
  constructor
  · exact fun h => h g hg
  · intro h g' hg'
    rw [hg] at hg'
    cases hg'
    exact h

/-- If `setup_return` fails then the setup was not to succeed. -/
theorem setupReturn_fails {g : Globals} (hg : layout i.gp i.sysconf i.mmap = .ok g)
    (hfail : i.mprotectReturn = false ∨
      (i.ndebug = false ∧ g.rsi.retSequencePageAddr % g.pageSize ≠ 0) ∨
      ¬ Writable (i.freshProt g) g.rsi.startAddr 56) : ¬ SetsUp i := by
  rcases layout_ok hg with ⟨page, hmap, haddr, _, hsize, _⟩
  rintro ⟨⟨_, hprot, page', hmap', haligned⟩, hstores⟩
  rw [hmap, Option.some.injEq] at hmap'
  subst hmap'
  rcases hfail with hfail | ⟨hn, hne⟩ | hw
  · rw [hfail] at hprot
    exact absurd hprot Bool.false_ne_true
  · refine hne ?_
    rw [haddr, hsize]
    exact haligned hn
  · exact hw ((storesPass_iff hg).mp hstores).2

/-- From the fresh mapping on: both pieces of code are stored, the mapping is
    protected and `gp` is moved. -/
theorem injected_spec {g : Globals} (hg : layout i.gp i.sysconf i.mmap = .ok g)
    (hsig : i.sigaction = true) (h : Clean i.gp s)
    (hproc : s.proc = ⟨i.gp, g, i.mem, i.freshProt g, []⟩) :
    EndsIn (fun s' => SetsUp i ∧ Moved i s')
      (fun h => ¬ SetsUp i ∧ Clean i.gp h.state ∧ (StoresPass i → h.stop.isFault = false))
      (do
        let s ← (s.debugCall i [.printf]).setupShadowPageTrampoline i
        let s ← (s.debugCall i [.printf]).setupReturn i
        .ok s.moveGp) := by
  have hpass := storesPass_iff hg
  have htramp := setupShadowPageTrampoline_spec (h.debugCall i [.printf])
  rw [InitState.debugCall_proc, hproc] at htramp
  refine EndsIn.bind (htramp.mono (fun _ h => h) ?_) (fun s₃ h₃ => ?_)
  · rintro halted ⟨hw, hclean⟩
    exact ⟨fun hup => hw (hpass.mp hup.2).1, hclean, fun hs => absurd (hpass.mp hs).1 hw⟩
  rcases h₃ with ⟨hw₃, hclean₃, hproc₃⟩
  -- The trampoline is stored, and the protections are still those of the fresh mapping.
  have hreturn := setupReturn_spec (hclean₃.debugCall i [.printf])
  rw [InitState.debugCall_proc, hproc₃] at hreturn
  refine EndsIn.bind (hreturn.mono (fun _ h => h) ?_) (fun s₄ h₄ => ?_)
  · rintro halted ⟨hfail, hclean, hstop⟩
    exact ⟨setupReturn_fails hg hfail, hclean, fun hs => hstop (hpass.mp hs).2⟩
  rcases h₄ with ⟨hprot, hassert, hw₄, hclean₄, hproc₄⟩
  rcases layout_ok hg with ⟨page, hmap, haddr, _, hsize, _⟩
  refine ⟨⟨⟨hsig, hprot, page, hmap, fun hn => ?_⟩, hpass.mpr ⟨hw₃, hw₄⟩⟩, ⟨g, hg, ?_⟩,
    fun c hc => (hclean₄.calls c hc).2⟩
  · rw [← haddr, ← hsize]
    exact hassert hn
  · rw [InitState.moveGp, InitState.modify, hproc₄]
    rfl

/-- The first half of the constructor: it ends the process with nothing
    replaced, or leaves the injected code in memory and `gp` pointing to it. -/
theorem setUp_spec (h : Clean i.gp s)
    (hproc : s.proc = ⟨i.gp, i.saved, i.mem, i.prot, []⟩) :
    EndsIn (fun s' => SetsUp i ∧ Moved i s')
      (fun h => ¬ SetsUp i ∧ Clean i.gp h.state ∧ (StoresPass i → h.stop.isFault = false))
      (s.setUp i) := by
  have hdef : Clean i.gp (s.defineRetSequenceInfo i) :=
    ((h.call _).modify rfl rfl).debugCall i _
  have hdefProc : (s.defineRetSequenceInfo i).proc
      = ⟨i.gp, defineRetSequenceInfo i.sysconf i.saved, i.mem, i.prot, []⟩ := by
    rw [InitState.defineRetSequenceInfo, InitState.debugCall_proc, InitState.modify,
      InitState.call_proc, hproc]
  refine EndsIn.bind ((initTrapHandler_spec hdef).mono (fun _ h => h) ?_) (fun s₁ h₁ => ?_)
  · rintro halted ⟨hsig, hclean, hstop⟩
    refine ⟨fun hup => ?_, hclean, fun _ => hstop⟩
    exact absurd (hsig.symm.trans hup.1.1) Bool.false_ne_true
  rcases h₁ with ⟨hsig, hclean₁, hproc₁⟩
  rw [hdefProc] at hproc₁
  refine EndsIn.bind ((allocateRetSequencePage_spec hclean₁).mono (fun _ h => h) ?_)
    (fun s₂ h₂ => ?_)
  · rintro halted ⟨hmap, hclean, hstop⟩
    refine ⟨fun hup => ?_, hclean, fun _ => hstop⟩
    rcases hup.1.2.2 with ⟨page, hpage, _⟩
    rw [hmap] at hpage
    exact absurd hpage (by simp only [reduceCtorEq, not_false_eq_true])
  rcases h₂ with ⟨hclean₂, g, hg, hproc₂⟩
  rw [hproc₁] at hg hproc₂
  -- The page is mapped, and the process is known from here on.
  exact injected_spec hg hsig hclean₂ hproc₂

/-- The stores of the setup stay inside the injected code. -/
theorem setUpProc_mem {g : Globals} (hg : layout i.gp i.sysconf i.mmap = .ok g) {a : Addr}
    (ha : 136 ≤ (a - (g.rsi.relocatedGp - 56)).toNat) : (i.setUpProc g).mem a = i.mem a := by
  rcases layout_ok hg with ⟨_, _, _, _, _, hstart⟩
  have hlen := length_trampoline i.dst
  show Mem.storeWords (Mem.storeWords i.mem _ _) _ _ a = _
  rw [hstart, Mem.storeWords_outside, Mem.storeWords_outside]
  · rw [hlen]
    bv_omega
  · rw [length_return, retSequenceSize]
    omega

/-- The setup leaves the two pieces of code in memory, one below the other. -/
theorem setUpProc_words {g : Globals} (hg : layout i.gp i.sysconf i.mmap = .ok g) :
    WordsAt (i.setUpProc g).mem g.rsi.relocatedGp (setupShadowPageTrampoline i.dst) ∧
      WordsAt (i.setUpProc g).mem (g.rsi.relocatedGp - 56) setupReturn := by
  rcases layout_ok hg with ⟨_, _, _, _, _, hstart⟩
  have hlen := length_trampoline i.dst
  constructor
  -- The return sequence is stored last, below the trampoline.
  · refine (wordsAt_storeWords _ i.mem _ (by rw [hlen]; decide)).congr (by rw [hlen]; decide)
      (fun b hb => ?_)
    rw [hlen] at hb
    show Mem.storeWords (Mem.storeWords i.mem _ _) _ _ b = _
    rw [hstart, Mem.storeWords_outside]
    rw [length_return, retSequenceSize]
    bv_omega
  · rw [← hstart]
    exact wordsAt_storeWords _ _ _ (by decide)

end SetUp

end Vpoline
