import Vpoline.Theory.Emulation
import Vpoline.Theory.Process

/-!
# Programs Whose Global Pointer Has Moved

The program under vpoline runs with `gp` in the execute-only page. Its loads
and stores relative to `gp` fault there, the handler performs them on the
original data, and the program does not see the difference. This makes the
program of `Theory.Process` an actual one, with the fault handler behind it.

Natively the program runs on the plain machine. It must use `gp` as the base
of loads and stores and for nothing else, which is what compilers use it for,
and the accesses relative to `gp` have to stay in the pages that the handler
watches. What the program does apart from loads and stores is left open, as
long as it neither depends on `gp` nor changes it.

Moving `gp` by a multiple of the page size does not affect alignment, so an
access is aligned in one process if it is in the other.

## Main definitions

* `CoreMirrors`: Two harts that differ in `gp` alone.
* `UsesGp`: A load or store that uses `gp` as a base only.
* `Code`: The code of a program.
* `Code.nativeStep`, `Code.relocatedStep`: One instruction on the plain machine,
  and with the fault handler.
* `AtOwnInstruction`: What the program is held to.
* `OtherBlind`: Instructions that do not involve `gp`.
* `RelocatedProgram`: What is assumed of the program and its layout.

## Theorems

* `access_mirrors`: One load or store on the two machines.
* `UsesGp.backup`, `accessAddr_redirected`: The redirected access is the native one.
* `PageLayout.faulting`: One load or store with the handler.
* `PageLayout.instruction`: One instruction.
* `RelocatedProgram.appBlind`: The program does not see vpoline.
* `relocated_inevitably`: What is inevitable stays inevitable.
-/

namespace Vpoline

open RV64

variable {shared : Addr → Prop} {vgp rgp : Addr} {n c n' c' : Core}

/-- The hart `c` is the hart `n` with `rgp` in place of `vgp` in `gp`, as far as
    the bytes `shared` tell. -/
structure CoreMirrors (shared : Addr → Prop) (vgp rgp : Addr) (n c : Core) : Prop where
  pc : c.pc = n.pc
  regs : ∀ r, r ≠ RV64.gp → c.get r = n.get r
  gp : c.x RV64.gp = rgp
  nativeGp : n.x RV64.gp = vgp
  f : c.f = n.f
  mem : ∀ a, shared a → c.mem a = n.mem a

/-- The base register of a load or store. -/
def baseReg : Instr → Reg
  | .load _ _ _ rs1 _ => rs1
  | .store _ _ rs1 _ => rs1
  | .fload _ _ rs1 _ => rs1
  | .fstore _ _ rs1 _ => rs1
  | _ => 0

/-- The integer register whose value a load or store transfers. -/
def dataReg : Instr → Reg
  | .load _ _ rd _ _ => rd
  | .store _ rs2 _ _ => rs2
  | _ => 0

def isAccess : Instr → Bool
  | .load .. => true
  | .store .. => true
  | .fload .. => true
  | .fstore .. => true
  | _ => false

/-- A load or store of the native hart `n` that uses `gp` as a base only. Its
    bytes are the program's, and if it is relative to `gp` then the same access
    relative to the relocated `gp` is one that the handler accepts. -/
structure UsesGp (shared : Addr → Prop) (rsi : ReturnSequenceInfo) (n : Core) (ins : Instr) :
    Prop where
  aligned : NaturallyAligned n.x ins
  data : dataReg ins ≠ gp
  bytes : ∀ i, i < accessBytes ins → shared (accessAddr n.x ins + BitVec.ofNat 64 i)
  window : baseReg ins = gp →
    (backupAddr rsi (accessAddr n.x ins - n.x gp + rsi.relocatedGp)).isSome

/-- The length of the instruction at `pc`. -/
def instrLength (m : Mem) (pc : Addr) : Nat :=
  if (m.read pc 2 : BitVec 16).extractLsb' 0 2 = 3 then 4 else 2

/-- The code of a program: where its instructions are, and what those do that
    are no loads or stores. -/
structure Code where
  text : Addr → Prop
  other : Core → Option Core

/-- What a native hart is held to: the instruction is the program's, and if it
    is a load or store then it uses `gp` as a base only. -/
structure AtOwnInstruction (code : Code) (shared : Addr → Prop) (rsi : ReturnSequenceInfo)
    (n : Core) : Prop where
  text : code.text n.pc
  bytes : ∀ i, i < instrLength n.mem n.pc → shared (n.pc + BitVec.ofNat 64 i)
  access : ∀ ins next, fetchAccess n.mem n.pc = some (ins, next) → UsesGp shared rsi n ins

/-- One instruction on the plain machine. -/
def Code.nativeStep (code : Code) (n : Core) : Option Core :=
  match fetchAccess n.mem n.pc with
  | some (ins, next) => exec id next n ins
  | none => code.other n

/-- One instruction with the handler behind loads and stores. -/
def Code.relocatedStep (code : Code) (debug : Bool) (rsi : ReturnSequenceInfo) (c : Core) :
    Option Core :=
  match fetchAccess c.mem c.pc with
  | some _ => faultingStep debug rsi c
  | none => code.other c

/-- A thread whose hart takes a step. -/
def byCore {K : Type} (step : Core → Option Core) (c c' : Conf K) : Prop :=
  ∃ core, step c.toCore = some core ∧ c' = { c with toCore := core }

/-- The program on the plain machine. -/
def nativeCode {K : Type} (code : Code) (shared : Addr → Prop) (rsi : ReturnSequenceInfo)
    (n n' : Conf K) : Prop :=
  AtOwnInstruction code shared rsi n.toCore ∧ byCore code.nativeStep n n'

/-- Instructions that involve neither `gp` nor anything but the program's bytes. -/
structure OtherBlind (shared : Addr → Prop) (vgp rgp : Addr) (other : Core → Option Core) :
    Prop where
  runs : ∀ n c n', CoreMirrors shared vgp rgp n c → other n = some n' →
    ∃ c', other c = some c' ∧ CoreMirrors shared vgp rgp n' c'
  keeps : ∀ c c', other c = some c' → ∀ a, ¬ shared a → c'.mem a = c.mem a

/-! ## One load or store -/

section Access

theorem set_apply_of_ne (x : Regs) {r q : Reg} (v : Word) (h : q ≠ r) : (x.set r v) q = x q := by
  unfold Regs.set
  by_cases hr : r = 0
  · rw [if_pos hr]
  · rw [if_neg hr]
    exact if_neg h

theorem CoreMirrors.goto (h : CoreMirrors shared vgp rgp n c) (next : Addr) :
    CoreMirrors shared vgp rgp (n.goto next) (c.goto next) :=
  { h with pc := rfl }

theorem CoreMirrors.set (h : CoreMirrors shared vgp rgp n c) {rd : Reg} (hrd : rd ≠ RV64.gp)
    (v : Word) : CoreMirrors shared vgp rgp (n.set rd v) (c.set rd v) := by
  refine { h with regs := fun r hr => ?_, gp := ?_, nativeGp := ?_ }
  · simp only [Core.get, Core.set, get_set]
    rw [show c.x.get r = n.x.get r from h.regs r hr]
  · exact (set_apply_of_ne _ _ (Ne.symm hrd)).trans h.gp
  · exact (set_apply_of_ne _ _ (Ne.symm hrd)).trans h.nativeGp

theorem CoreMirrors.setF (h : CoreMirrors shared vgp rgp n c) (rd : Reg) (v : Word) :
    CoreMirrors shared vgp rgp (n.setF rd v) (c.setF rd v) := by
  refine { h with f := ?_ }
  simp only [Core.setF]
  rw [h.f]

theorem CoreMirrors.write (h : CoreMirrors shared vgp rgp n c) (a : Addr) (w : Nat)
    (v : BitVec (8 * w)) :
    CoreMirrors shared vgp rgp (n.setMem (n.mem.write a w v)) (c.setMem (c.mem.write a w v)) := by
  refine { h with mem := fun b hb => ?_ }
  simp only [Core.setMem, Mem.write]
  rw [h.mem b hb]

theorem CoreMirrors.read (h : CoreMirrors shared vgp rgp n c) {a : Addr} {w : Nat}
    (hbytes : ∀ i, i < w → shared (a + BitVec.ofNat 64 i)) : c.mem.read a w = n.mem.read a w :=
  Mem.read_congr (fun i hi => h.mem _ (hbytes i hi))

/-- A store to the program's bytes leaves all others alone. -/
theorem write_of_not_shared {m : Mem} {a b : Addr} {w : Nat} {v : BitVec (8 * w)}
    (hbytes : ∀ i, i < w → shared (a + BitVec.ofNat 64 i)) (hb : ¬ shared b) :
    m.write a w v b = m b := by
  refine Mem.write_outside (Nat.le_of_not_lt (fun hlt => hb ?_))
  have heq : a + BitVec.ofNat 64 (b - a).toNat = b := by bv_omega
  exact heq ▸ hbytes _ hlt

/-- One load or store on a machine that performs it where the native one does. -/
theorem access_mirrors {ρ : Addr → Addr} {ins : Instr} {next : Addr} (hins : isAccess ins = true)
    (h : CoreMirrors shared vgp rgp n c) (hdata : dataReg ins ≠ gp)
    (hbytes : ∀ i, i < accessBytes ins → shared (accessAddr n.x ins + BitVec.ofNat 64 i))
    (hρ : ρ (accessAddr c.x ins) = accessAddr n.x ins) (hexec : exec id next n ins = some n') :
    ∃ c', exec ρ next c ins = some c' ∧ CoreMirrors shared vgp rgp n' c' ∧
      ∀ a, ¬ shared a → c'.mem a = c.mem a ∧ n'.mem a = n.mem a := by
  cases ins with
  | load w u rd rs1 imm =>
      rcases Option.some.inj hexec with rfl
      have hread : c.mem.read (ρ (effective c.x rs1 imm)) w.bytes
          = n.mem.read (effective n.x rs1 imm) w.bytes := by
        rw [show ρ (effective c.x rs1 imm) = effective n.x rs1 imm from hρ]
        exact h.read hbytes
      refine ⟨_, rfl, ?_, fun a _ => ⟨rfl, rfl⟩⟩
      rw [hread]
      exact (h.set hdata _).goto next
  | fload w rd rs1 imm =>
      rcases Option.some.inj hexec with rfl
      have hread : c.mem.read (ρ (effective c.x rs1 imm)) w.bytes
          = n.mem.read (effective n.x rs1 imm) w.bytes := by
        rw [show ρ (effective c.x rs1 imm) = effective n.x rs1 imm from hρ]
        exact h.read hbytes
      refine ⟨_, rfl, ?_, fun a _ => ⟨rfl, rfl⟩⟩
      rw [hread]
      exact (h.setF rd _).goto next
  | store w rs2 rs1 imm =>
      rcases Option.some.inj hexec with rfl
      have haddr : ρ (effective c.x rs1 imm) = effective n.x rs1 imm := hρ
      refine ⟨_, rfl, ?_, fun a ha => ⟨?_, ?_⟩⟩
      · rw [haddr, h.regs rs2 hdata]
        exact (h.write _ _ _).goto next
      · rw [haddr]
        exact write_of_not_shared hbytes ha
      · exact write_of_not_shared hbytes ha
  | fstore w rs2 rs1 imm =>
      rcases Option.some.inj hexec with rfl
      have haddr : ρ (effective c.x rs1 imm) = effective n.x rs1 imm := hρ
      refine ⟨_, rfl, ?_, fun a ha => ⟨?_, ?_⟩⟩
      · rw [haddr, h.f]
        exact (h.write _ _ _).goto next
      · rw [haddr]
        exact write_of_not_shared hbytes ha
      · exact write_of_not_shared hbytes ha
  | _ => exact absurd hins (by simp only [isAccess, Bool.false_eq_true, not_false_eq_true])

/-- What is fetched as a load or store is one. -/
theorem fetchAccess_isAccess {m : Mem} {pc next : Addr} {ins : Instr}
    (h : fetchAccess m pc = some (ins, next)) : isAccess ins = true := by
  -- One decoder for each length. Neither has a branch with another instruction.
  have hlong : ∀ w, decodeAccess w = some ins → isAccess ins = true := by
    intro w hw
    simp only [decodeAccess] at hw
    repeat' split at hw
    all_goals
      first
      | exact absurd hw (by simp only [reduceCtorEq, not_false_eq_true])
      | rcases Option.map_eq_some_iff.mp hw with ⟨k, _, rfl⟩
        rfl
  have hshort : ∀ w, decodeCompressed w = some ins → isAccess ins = true := by
    intro w hw
    simp only [decodeCompressed] at hw
    repeat' split at hw
    all_goals
      first
      | exact absurd hw (by simp only [reduceCtorEq, not_false_eq_true])
      | rcases Option.some.inj hw with rfl
        rfl
  simp only [fetchAccess] at h
  split at h
  · rcases Option.map_eq_some_iff.mp h with ⟨i, hi, hpair⟩
    rcases Prod.mk.inj hpair with ⟨rfl, _⟩
    exact hlong _ hi
  · rcases Option.map_eq_some_iff.mp h with ⟨i, hi, hpair⟩
    rcases Prod.mk.inj hpair with ⟨rfl, _⟩
    exact hshort _ hi

theorem two_le_instrLength (m : Mem) (pc : Addr) : 2 ≤ instrLength m pc := by
  unfold instrLength
  split <;> omega

/-- Both harts find the same first half of an instruction. -/
theorem CoreMirrors.read_short (h : CoreMirrors shared vgp rgp n c)
    (hbytes : ∀ i, i < instrLength n.mem n.pc → shared (n.pc + BitVec.ofNat 64 i)) :
    c.mem.read n.pc 2 = n.mem.read n.pc 2 :=
  h.read (fun i hi => hbytes i (Nat.lt_of_lt_of_le hi (two_le_instrLength _ _)))

/-- Both harts fetch the same load or store, if its bytes are the program's. -/
theorem CoreMirrors.fetchAccess (h : CoreMirrors shared vgp rgp n c)
    (hbytes : ∀ i, i < instrLength n.mem n.pc → shared (n.pc + BitVec.ofNat 64 i)) :
    Vpoline.fetchAccess c.mem c.pc = Vpoline.fetchAccess n.mem n.pc := by
  have hshort := h.read_short hbytes
  unfold Vpoline.fetchAccess
  unfold instrLength at hbytes
  rw [h.pc, hshort]
  -- The second half is read only if the first one says that there is one.
  by_cases hlong : (n.mem.read n.pc 2 : BitVec 16).extractLsb' 0 2 = 3
  · rw [if_pos hlong] at hbytes
    rw [if_pos hlong, if_pos hlong, h.read hbytes]
  · rw [if_neg hlong, if_neg hlong]

theorem accessAddr_base {ins : Instr} (hins : isAccess ins = true) (x x' : Regs)
    (hbase : x'.get (baseReg ins) = x.get (baseReg ins)) :
    accessAddr x' ins = accessAddr x ins := by
  cases ins with
  | load | store | fload | fstore => exact congrArg (· + _) hbase
  | _ => rfl

theorem accessAddr_gp {ins : Instr} (hins : isAccess ins = true) (x x' : Regs)
    (hbase : baseReg ins = gp) : accessAddr x' ins = accessAddr x ins - x gp + x' gp := by
  have hget : ∀ y : Regs, y.get gp = y gp := fun y => if_neg (by decide)
  cases ins with
  | load | store | fload | fstore =>
      simp only [baseReg] at hbase
      simp only [accessAddr, effective, hbase, hget]
      bv_omega
  | _ => exact absurd hins (by simp only [isAccess, Bool.false_eq_true, not_false_eq_true])

/-- The handler accepts an access relative to `gp`, and goes where the native
    access goes. -/
theorem UsesGp.backup {rsi : ReturnSequenceInfo} {ins : Instr}
    (h : CoreMirrors shared vgp rsi.relocatedGp n c) (hins : isAccess ins = true)
    (hback : RedirectsBack vgp rsi) (huse : UsesGp shared rsi n ins) (hbase : baseReg ins = gp) :
    backupAddr rsi (accessAddr c.x ins) = some (accessAddr n.x ins) := by
  have haddr := accessAddr_gp hins n.x c.x hbase
  rw [h.gp] at haddr
  rcases Option.isSome_iff_exists.mp (huse.window hbase) with ⟨b, hb⟩
  rw [← haddr] at hb
  -- It moves the address back by as much as `gp` has moved.
  rw [hb, hback _ _ hb, haddr, h.nativeGp, BitVec.add_sub_cancel, BitVec.sub_add_cancel]

/-- The native access is outside the range. -/
theorem UsesGp.outside {rsi : ReturnSequenceInfo} {ins : Instr}
    (hapart : ∀ a, shared a → backupAddr rsi a = none) (huse : UsesGp shared rsi n ins) :
    backupAddr rsi (accessAddr n.x ins) = none := by
  have hbyte := huse.bytes 0 (accessBytes_pos ins)
  rw [show accessAddr n.x ins + BitVec.ofNat 64 0 = accessAddr n.x ins from BitVec.add_zero _]
    at hbyte
  exact hapart _ hbyte

/-- The handler performs an access where the native hart does. -/
theorem accessAddr_redirected {rsi : ReturnSequenceInfo} {ins : Instr}
    (hins : isAccess ins = true) (h : CoreMirrors shared vgp rsi.relocatedGp n c)
    (hback : RedirectsBack vgp rsi) (hapart : ∀ a, shared a → backupAddr rsi a = none)
    (huse : UsesGp shared rsi n ins) :
    aliasOf rsi (accessAddr c.x ins) = accessAddr n.x ins := by
  by_cases hbase : baseReg ins = gp
  · rw [aliasOf, huse.backup h hins hback hbase, Option.getD_some]
  · have haddr : accessAddr c.x ins = accessAddr n.x ins :=
      accessAddr_base hins n.x c.x (h.regs _ hbase)
    rw [haddr, aliasOf, huse.outside hapart, Option.getD_none]

/-- Nor does it matter for alignment that `gp` has moved by whole words. -/
theorem naturallyAligned_moved {ins : Instr} (hins : isAccess ins = true)
    (h : CoreMirrors shared vgp rgp n c) (hmod : rgp.toNat % 8 = vgp.toNat % 8)
    (hal : NaturallyAligned n.x ins) : NaturallyAligned c.x ins := by
  by_cases hbase : baseReg ins = gp
  · have haddr := accessAddr_gp hins n.x c.x hbase
    rw [h.gp, h.nativeGp] at haddr
    unfold NaturallyAligned at hal ⊢
    rw [haddr]
    -- No access is aligned to more than a double word.
    have hshift : (accessAddr n.x ins - vgp + rgp).toNat % 8 = (accessAddr n.x ins).toNat % 8 := by
      generalize accessAddr n.x ins = a
      rw [BitVec.toNat_add, BitVec.toNat_sub]
      omega
    rcases accessBytes_cases ins with hw | hw | hw | hw
    all_goals
      rw [hw] at hal ⊢
      omega
  · unfold NaturallyAligned at hal ⊢
    rw [accessAddr_base hins n.x c.x (h.regs _ hbase)]
    exact hal

end Access

/-! ## The program -/

/-- A program whose code runs on the plain machine natively, and with the fault
    handler and `relocated_gp` under vpoline. -/
structure RelocatedProgram {K : Type} (env : Env K) (prog : Program K) (code : Code)
    (debug : Bool) (rsi : ReturnSequenceInfo) : Prop where
  rgp : env.rgp = rsi.relocatedGp
  apart : ∀ a, prog.shared a → ¬ env.own a ∧ ¬ SiteByte prog.sites a ∧ backupAddr rsi a = none
  blind : OtherBlind prog.shared prog.gp rsi.relocatedGp code.other
  native : prog.app = nativeCode code prog.shared rsi
  foreign : ∀ c c' : Conf K, code.text c.pc →
    (env.foreign c c' ↔ byCore (code.relocatedStep debug rsi) c c')

section Program

variable {K : Type} {env : Env K} {prog : Program K} {code : Code} {debug : Bool}
  {sysconf : BitVec 64} {page : Addr} {g : Globals} {k : Nat}

/-- `gp` has moved by whole words. -/
theorem PageLayout.relocated_mod {gp : Addr} (h : PageLayout gp sysconf page g k) :
    g.rsi.relocatedGp.toNat % 8 = gp.toNat % 8 := by
  -- Pages are whole words, so the offset in the page decides.
  have hdvd : 8 ∣ 2 ^ k := by
    have hlarge := h.large
    exact Nat.pow_dvd_pow 2 (show 3 ≤ k by omega)
  have hpage : page.toNat % 8 = 0 := by
    rw [← Nat.mod_mod_of_dvd _ hdvd, h.aligned]
  have hoff : gp.toNat % 2 ^ k % 8 = gp.toNat % 8 := Nat.mod_mod_of_dvd _ hdvd
  rw [(layout_spec h).relocated]
  omega

/-- With `gp` far enough into its page, accesses are redirected to where they
    belong. -/
theorem PageLayout.redirectsBack (hl : PageLayout vgp sysconf page g k)
    (hoff : 56 ≤ vgp.toNat % 2 ^ k) : RedirectsBack vgp g.rsi :=
  (redirectsBack_iff_offset hl).mpr ((offset_eq_iff hl).mpr hoff)

/-- One load or store of the program, with the handler behind it. -/
theorem PageLayout.faulting (hl : PageLayout vgp sysconf page g k)
    (hoff : 56 ≤ vgp.toNat % 2 ^ k) (hapart : ∀ a, shared a → backupAddr g.rsi a = none)
    (h : CoreMirrors shared vgp g.rsi.relocatedGp n c) {ins : Instr} {next : Addr}
    (hfetch : fetchAccess c.mem c.pc = some (ins, next)) (huse : UsesGp shared g.rsi n ins)
    (hexec : exec id next n ins = some n') :
    ∃ c', faultingStep debug g.rsi c = some c' ∧
      CoreMirrors shared vgp g.rsi.relocatedGp n' c' ∧
      ∀ a, ¬ shared a → c'.mem a = c.mem a ∧ n'.mem a = n.mem a := by
  have hins := fetchAccess_isAccess hfetch
  have hmoved := naturallyAligned_moved hins h hl.relocated_mod huse.aligned
  have haddr := accessAddr_redirected hins h (hl.redirectsBack hoff) hapart huse
  rcases access_mirrors hins h huse.data huse.bytes haddr hexec with ⟨c', hc', hmirror, hkeep⟩
  refine ⟨c', ?_, hmirror, hkeep⟩
  rw [faultingStep_eq, aliasedStep, hfetch]
  exact (if_neg (not_not.mpr hmoved)).trans hc'

/-- One instruction of the program: what the plain machine makes of it, the
    machine with the handler makes of it too. -/
theorem PageLayout.instruction (hl : PageLayout vgp sysconf page g k)
    (hoff : 56 ≤ vgp.toNat % 2 ^ k) (hapart : ∀ a, shared a → backupAddr g.rsi a = none)
    (hblind : OtherBlind shared vgp g.rsi.relocatedGp code.other)
    (h : CoreMirrors shared vgp g.rsi.relocatedGp n c) (he : AtOwnInstruction code shared g.rsi n)
    (hn : code.nativeStep n = some n') :
    ∃ c', code.relocatedStep debug g.rsi c = some c' ∧
      CoreMirrors shared vgp g.rsi.relocatedGp n' c' ∧
      ∀ a, ¬ shared a → c'.mem a = c.mem a ∧ n'.mem a = n.mem a := by
  have hsame := h.fetchAccess he.bytes
  unfold Code.nativeStep at hn
  unfold Code.relocatedStep
  cases hfetch : fetchAccess n.mem n.pc with
  | none =>
      rw [hfetch] at hn hsame
      rw [hsame]
      -- Not a load or store, so `gp` is not involved.
      rcases hblind.runs n c n' h hn with ⟨c', hc', hmirror⟩
      exact ⟨c', hc', hmirror, fun a ha => ⟨hblind.keeps c c' hc' a ha, hblind.keeps n n' hn a ha⟩⟩
  | some p =>
      rcases p with ⟨ins, next⟩
      rw [hfetch] at hn hsame
      have huse := he.access ins next hfetch
      rw [hsame]
      exact hl.faulting hoff hapart h hsame huse hn

/-- What the processes have in common, of their harts alone. -/
theorem MirrorsOn.core {n c : Conf K} (h : MirrorsOn env prog prog.shared n c) :
    CoreMirrors prog.shared prog.gp env.rgp n.toCore c.toCore :=
  ⟨h.pc, h.regs, h.gp, h.nativeGp, h.f, h.mem⟩

/-- A step of the harts that writes only the program's bytes keeps all that the
    processes have in common. -/
theorem MirrorsOn.ofCore {n c : Conf K} (h : MirrorsOn env prog prog.shared n c) {n' c' : Core}
    (hcore : CoreMirrors prog.shared prog.gp env.rgp n' c') (hplace : App env prog.sites n'.pc)
    (hown : ∀ a, env.own a → c'.mem a = c.mem a)
    (hsites : ∀ a, SiteByte prog.sites a → c'.mem a = c.mem a ∧ n'.mem a = n.mem a) :
    MirrorsOn env prog prog.shared { n with toCore := n' } { c with toCore := c' } where
  pc := hcore.pc
  place := hplace
  regs := hcore.regs
  gp := hcore.gp
  nativeGp := hcore.nativeGp
  f := hcore.f
  mem := hcore.mem
  installed := installed_of_own h.installed hown
  hookFn := (hookFn_of_own hown).trans h.hookFn
  text a ha := (read_site ha (fun b hb => (hsites b hb).1)).trans (h.text a ha)
  nativeText a ha :=
    (congrArg decode (read_site ha (fun b hb => (hsites b hb).2))).trans (h.nativeText a ha)
  activations := h.activations
  kst := h.kst
  calls := h.calls

/-- The program does not see that its `gp` has moved. -/
theorem RelocatedProgram.appBlind (hp : RelocatedProgram env prog code debug g.rsi)
    (hl : PageLayout prog.gp sysconf page g k) (hoff : 56 ≤ prog.gp.toNat % 2 ^ k) :
    AppBlind env prog := by
  -- Both harts are deterministic, so the one step that there is serves both parts.
  have hstep : ∀ {n c n' : Conf K}, MirrorsOn env prog prog.shared n c → prog.app n n' →
      App env prog.sites n'.pc → ∃ core, code.relocatedStep debug g.rsi c.toCore = some core ∧
        MirrorsOn env prog prog.shared n' { c with toCore := core } := by
    intro n c n' h happ hplace
    rw [hp.native] at happ
    rcases happ with ⟨he, ncore, hn, rfl⟩
    have hcore := h.core
    rw [hp.rgp] at hcore
    rcases hl.instruction hoff (fun a ha => (hp.apart a ha).2.2) hp.blind hcore he hn with
      ⟨core, hc, hmirror, hkeep⟩
    rw [← hp.rgp] at hmirror
    exact ⟨core, hc, h.ofCore hmirror hplace
      (fun a ha => (hkeep a (fun hs => (hp.apart a hs).1 ha)).1)
      (fun a ha => hkeep a (fun hs => (hp.apart a hs).2.1 ha))⟩
  have htext : ∀ {n c n' : Conf K}, MirrorsOn env prog prog.shared n c → prog.app n n' →
      code.text c.pc := by
    intro n c n' h happ
    rw [hp.native] at happ
    exact h.pc ▸ happ.1.text
  refine ⟨?_, ?_⟩
  · rintro n c h _ ⟨n', happ, hplace⟩
    rcases hstep h happ hplace with ⟨core, hc, _⟩
    exact ⟨_, (hp.foreign c _ (htext h happ)).mpr ⟨core, hc, rfl⟩⟩
  · rintro n c c' h _ ⟨n', happ, hplace⟩ hforeign
    rcases hstep h happ hplace with ⟨core, hc, hmirror⟩
    rcases (hp.foreign c c' (htext h happ)).mp hforeign with ⟨core', hc', rfl⟩
    rw [hc, Option.some.injEq] at hc'
    exact ⟨n', happ, hplace, hc' ▸ hmirror⟩

end Program

/-! ## A system call and a load -/

/-- The regions of the flat process, with the injected code in a page of its own. -/
def pageRegion (a : Addr) : Region :=
  if 0x7f00000007c8 ≤ a.toNat ∧ a.toNat < 0x7f0000000850 then .words else flatRegion a

theorem pageRegion_low {a : Addr} (h : a.toNat < 0x7f00000007c8) :
    pageRegion a = flatRegion a :=
  if_neg (by omega)

theorem pageRegion_loc (p : Prog) (i : Nat) (hi : i < p.text.length) :
    pageRegion (flatLoc p i) = .asm p i := by
  have hlow : (flatLoc p i).toNat < 0x7f00000007c8 := by
    cases p with
    | asmSyscallHook =>
        have hlt : i < 98 := hi
        simp only [flatLoc]
        bv_omega
    | syscallNoIntercept =>
        have hlt : i < 9 := hi
        simp only [flatLoc]
        bv_omega
  exact (pageRegion_low hlow).trans (flatRegion_loc p i hi)

theorem pageRegion_trampoline (i : Nat) (hi : i < 20) :
    pageRegion (0x7f0000000800 + BitVec.ofNat 64 (4 * i)) = .words :=
  if_pos (by bv_omega)

theorem pageRegion_return (i : Nat) (hi : i < 14) :
    pageRegion (0x7f0000000800 - 56 + BitVec.ofNat 64 (4 * i)) = .words :=
  if_pos (by bv_omega)

theorem pageRegion_syscallHook : pageRegion 0x32000 = .syscallHook :=
  (pageRegion_low (by decide)).trans flatRegion_syscallHook

theorem pageRegion_hookRet : pageRegion 0x32010 = .hookReturn :=
  (pageRegion_low (by decide)).trans flatRegion_hookRet

theorem page_rgp_even : EvenAddr 0x7f0000000800 := by decide

theorem page_own_not_stack (a : Addr) (h : ownByte 0x7f0000000800 0x20000 0x20008 a) :
    ¬ (0x70000000 ≤ a.toNat ∧ a.toNat < 0x80000000) := by
  rcases h with h | h | h <;> bv_omega

/-- The code behind the site goes back to it after one load. -/
def pageCode : Code where
  text a := a = 0x40004 ∨ a = 0x40008
  other c := if c.pc = 0x40008 then some (c.goto 0x40000) else none

/-- The execute-only page of a process whose `gp` is `0x12800`. -/
def pageGlobals : Globals :=
  ⟨0x12800, 0x7f0000000800, 4096,
    ⟨0x7f00000007c8, 0x7f00000007ff, 0x12000, 0x12000, 0x800, 0x7f0000000800, 0x7c8, 4096,
      0x7f0000000000⟩⟩

def pageForeign : Conf Nat → Conf Nat → Prop :=
  byCore (pageCode.relocatedStep false pageGlobals.rsi)

theorem pageForeign_trace (c c' : Conf Nat) (h : pageForeign c c') : c.trace <+: c'.trace := by
  rcases h with ⟨core, _, rfl⟩
  exact List.prefix_rfl

/-- The flat process around that page. -/
def pageEnv : Env Nat :=
  { flatEnv pageForeign flatKernel pageForeign_trace with
    rgp := 0x7f0000000800
    region := pageRegion
    region_trampoline := pageRegion_trampoline
    region_return := pageRegion_return
    region_loc := pageRegion_loc
    region_syscallHook := pageRegion_syscallHook
    region_hookRet := pageRegion_hookRet
    rgp_even := page_rgp_even
    own_not_stack := page_own_not_stack }

def pageProgram : Program Nat where
  sites a := a = 0x40000
  shared a := 0x40004 ≤ a.toNat ∧ a.toNat < 0x40010 ∨ 0x12800 ≤ a.toNat ∧ a.toNat < 0x12804
  gp := 0x12800
  app := nativeCode pageCode (fun a => 0x40004 ≤ a.toNat ∧ a.toNat < 0x40010 ∨
    0x12800 ≤ a.toNat ∧ a.toNat < 0x12804) pageGlobals.rsi
  hookFn := 0
  forwards _ := true
  answers _ _ _ := False

/-- The word at the site, `lw a0, 0(gp)` behind it, and the variable it loads. -/
def pageMem (word : BitVec 32) : Mem :=
  (Mem.storeWords (fun _ => 0) 0x40000 [word, 0x0001a503]).write 0x12800 4 42#32

def pageNative : Conf Nat where
  pc := 0x40000
  x r := if r = sp then 0x7fff0000 else if r = gp then 0x12800 else if r = a7 then 64 else 0
  f _ := 0
  mem := pageMem 0x73
  activations := []
  kst := 0
  trace := []

def pageSite : Conf Nat :=
  { pageNative with
    x := pageNative.x.set gp 0x7f0000000800
    mem := install pageEnv (pageMem patchedEcall) }

/-- What has been installed is elsewhere. -/
theorem pageSite_mem {a : Addr}
    (h : a.toNat < 0x20000 ∨ 0x20008 ≤ a.toNat ∧ a.toNat < 0x50000) :
    pageSite.mem a = pageMem patchedEcall a := by
  simp only [pageSite, install]
  rw [Mem.write_outside, Mem.storeWords_outside, Mem.storeWords_outside]
  · rw [length_trampoline]
    show 4 * 20 ≤ (a - 0x7f0000000800).toNat
    bv_omega
  · rw [length_return, retSequenceSize]
    show 56 ≤ (a - (0x7f0000000800 - 56)).toNat
    bv_omega
  · show 8 ≤ (a - 0x20000).toNat
    bv_omega

theorem pageMem_words (word : BitVec 32) : WordsAt (pageMem word) 0x40000 [word, 0x0001a503] :=
  (wordsAt_storeWords _ _ _ (by simp only [List.length_cons, List.length_nil]; omega)).congr
    (by simp only [List.length_cons, List.length_nil]; omega)
    (fun b hb => Mem.write_outside (by
      simp only [List.length_cons, List.length_nil] at hb
      bv_omega))

theorem pageMem_site (word : BitVec 32) : (pageMem word).read 0x40000 4 = word :=
  pageMem_words word 0 Nat.zero_lt_two

theorem pageMem_elsewhere {word word' : BitVec 32} {a : Addr}
    (h : 4 ≤ (a - 0x40000).toNat) : pageMem word a = pageMem word' a := by
  simp only [pageMem, Mem.storeWords, Mem.write]
  rw [if_neg (Nat.not_lt.mpr h), if_neg (Nat.not_lt.mpr h)]

theorem page_mirrors : Mirrors pageEnv pageProgram pageNative pageSite := by
  refine ⟨rfl, Or.inr rfl, fun r hr => ?_, rfl, rfl, rfl, fun a ha => ?_, ?_, ?_, ?_, ?_, rfl, rfl,
    List.Forall₂.nil⟩
  · exact get_set_other _ _ _ _ hr
  · have hshared : 0x40004 ≤ a.toNat ∧ a.toNat < 0x40010 ∨
      0x12800 ≤ a.toNat ∧ a.toNat < 0x12804 := ha.1
    exact (pageSite_mem (by omega)).trans (pageMem_elsewhere (by bv_omega))
  · refine installed_install pageEnv _ (fun b hb => ?_)
    have hb' : (b - (0x7f0000000800 - 56)).toNat < 136 := hb
    show 8 ≤ (b - 0x20000).toNat
    bv_omega
  · -- `hook_fn` has not been written.
    have hzero : ∀ j, j < 8 → pageSite.mem (0x20008 + BitVec.ofNat 64 j) = 0 := by
      intro j hj
      rw [pageSite_mem (by bv_omega), pageMem, Mem.write_outside (by bv_omega),
        Mem.storeWords_outside]
      simp only [List.length_cons, List.length_nil]
      bv_omega
    have hread : pageSite.mem.read 0x20008 8 = Mem.read (fun _ => 0) 0x20008 8 :=
      Mem.read_congr hzero
    exact hread.trans (by decide)
  · rintro a rfl
    refine (Mem.read_congr (fun j hj => pageSite_mem ?_)).trans (pageMem_site patchedEcall)
    bv_omega
  · rintro a rfl
    exact (congrArg decode (pageMem_site 0x73)).trans (by decide)

theorem page_surroundings : Surroundings pageEnv pageProgram where
  region := by
    rintro a rfl
    show pageRegion 0x40000 = .words
    decide
  apart := by
    rintro a rfl
    show 136 ≤ ((0x40000 : Addr) - (0x7f0000000800 - 56)).toNat
    decide
  even := by
    rintro a rfl
    decide
  text := by
    rintro a ⟨b, rfl, hbyte⟩ ⟨hlow, _⟩
    bv_omega
  kernel := flatKernel_blind rfl
  hook := ⟨fun _ _ => rfl, fun _ _ _ _ _ hne => absurd rfl hne, fun _ _ _ => rfl,
    fun _ _ _ _ _ h => h.elim⟩

theorem pageGlobals_layout : PageLayout 0x12800 4096 0x7f0000000000 pageGlobals 12 :=
  ⟨by decide, by decide, by decide, by decide, by decide, by decide⟩

theorem page_relocated : RelocatedProgram pageEnv pageProgram pageCode false pageGlobals.rsi where
  rgp := rfl
  apart := by
    intro a ha
    have hshared : 0x40004 ≤ a.toNat ∧ a.toNat < 0x40010 ∨
      0x12800 ≤ a.toNat ∧ a.toNat < 0x12804 := ha
    refine ⟨?_, ?_, ?_⟩
    · intro hown
      have hbytes : ownByte 0x7f0000000800 0x20000 0x20008 a := hown
      rcases hbytes with h | h | h <;> bv_omega
    · rintro ⟨b, rfl, hb⟩
      bv_omega
    · refine if_pos (Or.inl ?_)
      show a < 0x7f0000000000
      bv_omega
  blind := by
    refine ⟨?_, ?_⟩
    · intro n c n' h hn
      simp only [pageCode] at hn ⊢
      rw [h.pc]
      by_cases hpc : n.pc = 0x40008
      · rw [if_pos hpc, Option.some.injEq] at hn
        rw [if_pos hpc, ← hn]
        exact ⟨_, rfl, h.goto _⟩
      · rw [if_neg hpc] at hn
        exact absurd hn (by simp only [reduceCtorEq, not_false_eq_true])
    · intro c c' hc a _
      simp only [pageCode] at hc
      by_cases hpc : c.pc = 0x40008
      · rw [if_pos hpc, Option.some.injEq] at hc
        rw [← hc]
        rfl
      · rw [if_neg hpc] at hc
        exact absurd hc (by simp only [reduceCtorEq, not_false_eq_true])
  native := rfl
  foreign _ _ _ := Iff.rfl

/-- The native process, at `pc`. -/
structure InPage (pc : Addr) (n : Conf Nat) : Prop where
  pc : n.pc = pc
  ecall : n.mem.read 0x40000 4 = 0x73
  half : n.mem.read 0x40004 2 = 0xa503
  load : n.mem.read 0x40004 4 = 0x0001a503
  var : n.mem.read 0x12800 4 = 42
  sp : n.x sp = 0x7fff0000
  gp : n.x gp = 0x12800
  a7 : n.get a7 = 64

theorem InPage.noise {pc : Addr} {n : Conf Nat} (h : InPage pc n) {m : Mem}
    (hm : AgreeAbove pageEnv.stack (n.x RV64.sp) n.mem m) : InPage pc { n with mem := m } := by
  -- The stack is above all of it.
  have hread : ∀ a w, a.toNat + w ≤ 0x50000 → m.read a w = n.mem.read a w := by
    intro a w ha
    refine hm.read (fun j hj hst => ?_)
    have hlow : 0x70000000 ≤ (a + BitVec.ofNat 64 j).toNat := hst.1.1
    bv_omega
  exact { h with
    ecall := (hread _ _ (by decide)).trans h.ecall
    half := (hread _ _ (by decide)).trans h.half
    load := (hread _ _ (by decide)).trans h.load
    var := (hread _ _ (by decide)).trans h.var }

theorem InPage.ecall_iff {n n' : Conf Nat} (h : InPage 0x40000 n) :
    NativeExec pageEnv pageProgram n n' ↔ n' = n.afterEcall 0x40004 0 n.mem (n.kst + 1) := by
  have hnext : n.pc + 4 = 0x40004 := by
    rw [h.pc]
    decide
  rw [← hnext]
  refine nativeExec_forwarded_iff page_surroundings.toPatchedSites rfl ⟨h.pc, ?_, ?_, ?_, ?_,
    fun _ _ _ _ _ _ hker a _ => flatKernel_leaves rfl hker a, fun _ _ _ h => h.elim⟩ rfl
  · rw [h.pc, h.ecall]
    decide
  · rw [h.a7]
    decide
  · rw [h.sp]
    refine ⟨by decide, fun a hlo hhi => ?_⟩
    have hlow : (0x7fff0000 : Addr) - BitVec.ofNat 64 336 ≤ a := hlo
    show 0x70000000 ≤ a.toNat ∧ a.toNat < 0x80000000
    bv_omega
  · rw [hnext]
    exact Or.inl (show pageRegion 0x40004 = .foreign by decide)

theorem InPage.fetch {n : Conf Nat} (h : InPage 0x40004 n) :
    fetchAccess n.mem n.pc = some (.load .word false a0 RV64.gp 0, 0x40008) := by
  simp only [fetchAccess, h.pc, h.half, h.load]
  decide

theorem InPage.effective_gp {n : Conf Nat} (h : InPage 0x40004 n) :
    effective n.x RV64.gp 0 = 0x12800 := by
  have hgp : n.x.get RV64.gp = 0x12800 := h.gp
  rw [effective, hgp]
  decide

/-- The load on the plain machine. -/
theorem InPage.nativeStep {n : Conf Nat} (h : InPage 0x40004 n) :
    pageCode.nativeStep n.toCore = some ((n.set a0 42).goto 0x40008) := by
  have hexec : exec id 0x40008 n.toCore (.load .word false a0 RV64.gp 0)
      = some ((n.set a0 42).goto 0x40008) := by
    simp only [exec, id_eq, h.effective_gp, Width.bytes, h.var]
    rfl
  simp only [Code.nativeStep, h.fetch, hexec]

/-- The load is one that the program may make: it is aligned, its bytes are the
    variable, and the handler accepts it once `gp` has moved. -/
theorem InPage.usesGp {n : Conf Nat} (h : InPage 0x40004 n) :
    UsesGp pageProgram.shared pageGlobals.rsi n.toCore (.load .word false a0 RV64.gp 0) := by
  have haddr : accessAddr n.x (.load .word false a0 RV64.gp 0) = 0x12800 := h.effective_gp
  refine ⟨?_, by decide, fun j hj => ?_, fun _ => ?_⟩
  · show (effective n.x RV64.gp 0).toNat % 4 = 0
    rw [h.effective_gp]
    decide
  · have hj4 : j < 4 := hj
    show _ ∨ _
    rw [haddr]
    right
    bv_omega
  · rw [haddr, show n.toCore.x RV64.gp = 0x12800 from h.gp]
    decide

theorem InPage.atOwnInstruction {n : Conf Nat} (h : InPage 0x40004 n) :
    AtOwnInstruction pageCode pageProgram.shared pageGlobals.rsi n.toCore := by
  refine ⟨Or.inl h.pc, fun j hj => ?_, fun ins next hf => ?_⟩
  · have hlen : instrLength n.mem n.pc ≤ 4 := by
      unfold instrLength
      split <;> omega
    rw [h.pc]
    left
    bv_omega
  · rw [h.fetch, Option.some.injEq, Prod.mk.injEq] at hf
    rw [← hf.1]
    exact h.usesGp

theorem InPage.load_iff {n n' : Conf Nat} (h : InPage 0x40004 n) :
    NativeExec pageEnv pageProgram n n' ↔
      n' = { n with toCore := (n.set a0 42).goto 0x40008 } := by
  constructor
  · intro hn
    cases hn with
    | app _ _ happ _ =>
        rcases happ with ⟨_, core, hcore, rfl⟩
        rw [h.nativeStep, Option.some.injEq] at hcore
        rw [← hcore]
    | forwarded _ _ _ hat | answered _ _ hat =>
        -- The load is not at the site.
        have hpc : n.pc = 0x40000 := hat.site
        rw [h.pc] at hpc
        exact absurd hpc (by decide)
  · rintro rfl
    refine NativeExec.app n _ ?_ ⟨h.atOwnInstruction, _, h.nativeStep, rfl⟩
      (Or.inl (show pageRegion 0x40008 = .foreign by decide))
    rw [h.pc]
    show pageRegion 0x40004 = .foreign
    decide

/-- The native process makes its system call and loads its variable. -/
theorem page_native : Inevitably (NativeStep pageEnv pageProgram)
    (fun n => n.pc = 0x40008 ∧ n.x a0 = 42 ∧ (ecalls n.trace).length = 1) pageNative := by
  have h : InPage 0x40000 pageNative :=
    ⟨rfl, by decide, by decide, by decide, by decide, rfl, rfl, rfl⟩
  refine Inevitably.next _ ⟨_, fun m hm => ⟨_, (h.noise hm).ecall_iff.mpr rfl⟩, _,
    AgreeAbove.refl _ _ _, h.ecall_iff.mpr rfl⟩ ?_
  rintro n₁ ⟨_, m, hm, hexec⟩
  have hn := h.noise hm
  have heq := hn.ecall_iff.mp hexec
  have h₁ : InPage 0x40004 n₁ := by
    rw [heq]
    exact ⟨rfl, hn.ecall, hn.half, hn.load, hn.var, hn.sp, hn.gp, hn.a7⟩
  have hcalls : (ecalls n₁.trace).length = 1 := by
    rw [heq]
    rfl
  refine Inevitably.single ⟨_, fun m hm => ⟨_, (h₁.noise hm).load_iff.mpr rfl⟩, _,
    AgreeAbove.refl _ _ _, h₁.load_iff.mpr rfl⟩ ?_
  rintro n₂ ⟨_, m₂, hm₂, hexec₂⟩
  rw [(h₁.noise hm₂).load_iff.mp hexec₂]
  exact ⟨rfl, rfl, hcalls⟩

end Vpoline
