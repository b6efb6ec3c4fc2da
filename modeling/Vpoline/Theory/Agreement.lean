import Vpoline.Theory.Transparency

/-!
# Handling and Forwarding Agree

A hook has two ways to let a system call happen. It can return non-zero and
leave the call to vpoline, or it can issue the call itself with
`syscall_no_intercept`, store the result and return zero. The two take
different paths: one issues the call from the return words with the restored
registers, the other from `syscall_no_intercept` after an in-place rotation of
the argument registers, and they come back through different return words.

The result is that nobody can tell. For a kernel whose answer depends on the
number, the six arguments, the visible memory and its own state, there is one
final record, and every run of either kind ends in it.

`syscall_no_intercept` has a specification of its own, `NoIntercept`, which
the handling hook is described against.

## Main definitions

* `Env.withForeign`: The same process with another hook.
* `SameCall`: The kernel sees the same number and arguments.
* `NoIntercept`: What `syscall_no_intercept` does.
* `KernelFor`: A kernel that answers the call of a site, and always the same.
* `ForwardingHook`, `HandlingHook`: The two hooks.
* `ecalls`: The system calls in a trace.
* `Ends`: A final record.

## Theorems

* `shuffle_run`: The argument rotation.
* `noIntercept_inevitably`: `syscall_no_intercept` meets its specification.
* `Issued.callsAs`, `NoInterceptIssue.callsAs`: Both issue the call of the site.
* `forwarding_ends`, `handling_ends`: Where the two kinds of run end.
* `handle_forward_agree`: They end in the same record.
-/

namespace Vpoline

open RV64

variable {K : Type}

/-- The same process with other foreign code. -/
def Env.withForeign (env : Env K) (foreign : Conf K → Conf K → Prop)
    (htrace : ∀ c c', foreign c c' → c.trace <+: c'.trace) : Env K :=
  { env with foreign := foreign, foreign_trace := htrace }

/-- The registers the kernel reads: the number and the six arguments. -/
def callRegs : List Reg := [a0, a1, a2, a3, a4, a5, a7]

/-- The kernel sees the same number and the same arguments. -/
def SameCall (k k' : Core) : Prop := ∀ r ∈ callRegs, k'.x r = k.x r

/-- The system calls of a trace, with the kernel state they were issued in. -/
def ecalls (tr : List (Event K)) : List (Core × K) :=
  tr.filterMap (fun ev => match ev with
    | .ecall c k => some (c, k)
    | .hookCall _ _ => none
    | .hookReturn _ _ => none)

section NoIntercept

variable {env : Env K}

/-- The hart in which `syscall_no_intercept`, called in `c`, issues the call
    `a0(a1, …, a6)`. -/
structure NoInterceptIssue (env : Env K) (c : Conf K) (k : Core) : Prop where
  number : k.x a7 = c.x a0
  arg0 : k.x a0 = c.x a1
  arg1 : k.x a1 = c.x a2
  arg2 : k.x a2 = c.x a3
  arg3 : k.x a3 = c.x a4
  arg4 : k.x a4 = c.x a5
  arg5 : k.x a5 = c.x a6
  regs : ∀ r, r ∉ callRegs → k.get r = c.get r
  f : k.f = c.f
  mem : AgreeAbove env.stack (c.x sp) c.mem k.mem

/-- What `syscall_no_intercept`, called in `c`, has done when it is back in
    `d`: the call was issued in `k`, and the kernel left the memory `m'`. -/
structure NoIntercept (env : Env K) (c d : Conf K) (k : Core) (m' : Mem) : Prop where
  issue : NoInterceptIssue env c k
  kernel : env.kernel k c.kst (d.x a0) m' d.kst
  mem : AgreeAbove env.stack (c.x sp) m' d.mem
  pc : d.pc = c.x ra
  regs : ∀ r, r ∉ callRegs → d.get r = c.get r
  f : d.f = c.f
  activations : d.activations = c.activations
  trace : d.trace = c.trace ++ [.ecall k c.kst]

/-- The seven moves of `syscall_no_intercept`. -/
def shuffle : List Instr :=
  [.addi a7 a0 0, .addi a0 a1 0, .addi a1 a2 0, .addi a2 a3 0, .addi a3 a4 0, .addi a4 a5 0,
    .addi a5 a6 0]

/-- The moves are a rotation: each source is read before it is overwritten. -/
theorem shuffle_run (y : Sym) : ∃ y', y.run 0 shuffle = some y' ∧ y'.f = y.f ∧
    y'.slots = y.slots ∧ y'.x.get a7 = y.x.get a0 ∧ y'.x.get a0 = y.x.get a1 ∧
    y'.x.get a1 = y.x.get a2 ∧ y'.x.get a2 = y.x.get a3 ∧ y'.x.get a3 = y.x.get a4 ∧
    y'.x.get a4 = y.x.get a5 ∧ y'.x.get a5 = y.x.get a6 ∧
    ∀ r, r ∉ callRegs → y'.x.get r = y.x.get r := by
  have hext : (0 : BitVec 12).signExtend 64 = 0#64 := by decide
  refine ⟨⟨((((((y.x.set a7 (y.x.get a0)).set a0 (y.x.get a1)).set a1 (y.x.get a2)).set a2
    (y.x.get a3)).set a3 (y.x.get a4)).set a4 (y.x.get a5)).set a5 (y.x.get a6), y.f, y.slots⟩,
    ?_, rfl, rfl, ?_, ?_, ?_, ?_, ?_, ?_, ?_, ?_⟩
  · simp +decide only [shuffle, Sym.run, Sym.exec, Sym.setX, hext, BitVec.add_zero, if_false,
      Option.bind_some, get_set]
  · simp +decide only [get_set, if_true, if_false]
  · simp +decide only [get_set, if_true, if_false]
  · simp +decide only [get_set, if_true, if_false]
  · simp +decide only [get_set, if_true, if_false]
  · simp +decide only [get_set, if_true, if_false]
  · simp +decide only [get_set, if_true, if_false]
  · simp +decide only [get_set, if_true, if_false]
  · intro r hr
    simp only [callRegs, List.mem_cons, List.not_mem_nil, or_false, not_or] at hr
    rcases hr with ⟨h0, h1, h2, h3, h4, h5, h7⟩
    -- None of the seven is another register.
    rw [get_set_other _ _ _ _ h5, get_set_other _ _ _ _ h4, get_set_other _ _ _ _ h3,
      get_set_other _ _ _ _ h2, get_set_other _ _ _ _ h1, get_set_other _ _ _ _ h0,
      get_set_other _ _ _ _ h7]

/-- `syscall_no_intercept` up to its system call. -/
theorem noIntercept_issues {c : Conf K} (hpc : c.pc = env.loc .syscallNoIntercept 0) :
    Surely (Calm env) (Step env) (fun c' => c'.pc = env.loc .syscallNoIntercept 7 ∧
      NoInterceptIssue env c c'.toCore ∧ SameGhost c c') c := by
  -- The moves are run as frame code with an empty frame.
  have hf : FrameAt env.stack (c.x sp) 0 := by
    refine ⟨by decide, by bv_omega, fun a hlo hhi => ?_⟩
    bv_omega
  have hmod : Models env.stack (c.x sp) 0 c.mem (Sym.ofCore (c.x sp) 0 c.toCore) c.toCore :=
    models_self rfl
  rcases shuffle_run (Sym.ofCore (c.x sp) 0 c.toCore) with
    ⟨y', hrun, hyf, _, h7, h0, h1, h2, h3, h4, h5, hother⟩
  have hplaced : Placed env c.mem (fun j => env.loc .syscallNoIntercept (0 + j)) shuffle :=
    placed_stmts c.mem rfl
  have hlen : shuffle.length = 7 := rfl
  refine (run_segment hf _ _ _ c hplaced (fun j hj => inside_noIntercept (by omega)) hrun hmod
    hpc).mono ?_
  rintro c' ⟨hpc', hmod', hghost'⟩
  have hget : ∀ r, c'.get r = y'.x.get r := fun r => by rw [Core.get, hmod'.x]
  have hmem := hmod'.mem
  rw [BitVec.add_zero] at hmem
  exact ⟨hpc', ⟨(hget a7).trans h7, (hget a0).trans h0, (hget a1).trans h1, (hget a2).trans h2,
    (hget a3).trans h3, (hget a4).trans h4, (hget a5).trans h5,
    fun r hr => (hget r).trans (hother r hr), hmod'.f.trans hyf, hmem⟩, hghost'⟩

/-- `syscall_no_intercept` meets its specification, for a kernel that answers
    and leaves vpoline's code alone. -/
theorem noIntercept_inevitably {c : Conf K} (hpc : c.pc = env.loc .syscallNoIntercept 0)
    (hra : EvenAddr (c.x ra))
    (hk : ∀ k, NoInterceptIssue env c k → ∃ res m' kst', env.kernel k c.kst res m' kst') :
    Inevitably (Step env) (fun d => ∃ k m', NoIntercept env c d k m') c := by
  refine (noIntercept_issues hpc).inevitably.trans ?_
  rintro c1 ⟨hpc1, hissue, hghost1⟩
  have hfetch : Fetched env c1 .ecall (env.loc .syscallNoIntercept 8) :=
    (fetches_stmt (p := .syscallNoIntercept) (i := 7) c1.mem rfl).fetched hpc1 (fun _ _ => rfl)
  have hsp1 : c1.x sp = c.x sp := hissue.regs sp (by decide)
  refine Inevitably.next c1 ?_ (fun c2 hc2 => ?_)
  · rcases hk c1.toCore hissue with ⟨res, m', kst', hker⟩
    exact ⟨_, (step_ecall hfetch _).mpr ⟨c1.mem, res, m', kst', AgreeAbove.refl _ _ _,
      hghost1.kst ▸ hker, rfl⟩⟩
  · rcases (step_ecall hfetch c2).mp hc2 with ⟨m1, res, m', kst', hm1, hker, rfl⟩
    rw [hsp1] at hm1
    -- The last statement is a `ret`.
    have hret : Fetched env (Conf.afterEcall { c1 with mem := m1 }
        (env.loc .syscallNoIntercept 8) res m' kst') (.jalr zero ra 0)
        (env.loc .syscallNoIntercept 9) :=
      (fetches_stmt (p := .syscallNoIntercept) (i := 8) m' rfl).fetched rfl (fun _ _ => rfl)
    have hra1 : (Conf.afterEcall { c1 with mem := m1 } (env.loc .syscallNoIntercept 8) res m'
        kst').get ra = c.x ra :=
      (get_set_other c1.x a0 ra res (by decide)).trans (hissue.regs ra (by decide))
    rcases step_jalr hret hra1 hra with ⟨⟨c3, hquiet⟩, hall⟩
    refine Inevitably.single ⟨c3, hquiet.step⟩ (fun d hd => ?_)
    have had := hall d hd
    rw [set_zero] at had
    have hx : d.x = c1.x.set a0 res := had.x
    -- The kernel sees memory after one more disturbance.
    have hissue1 : NoInterceptIssue env c { c1.toCore with mem := m1 } :=
      ⟨hissue.number, hissue.arg0, hissue.arg1, hissue.arg2, hissue.arg3, hissue.arg4,
        hissue.arg5, hissue.regs, hissue.f, hissue.mem.trans hm1⟩
    refine ⟨_, m', hissue1, ?_, ?_, had.pc, fun r hr => ?_, had.f.trans hissue.f,
      had.ghost.activations.trans hghost1.activations, ?_⟩
    · have ha0 : d.x a0 = res := by rw [hx]; rfl
      rw [ha0, had.ghost.kst, ← hghost1.kst]
      exact hker
    · have hmem := had.mem
      rw [show (Conf.afterEcall { c1 with mem := m1 } (env.loc .syscallNoIntercept 8) res m'
        kst').x sp = c.x sp from hsp1] at hmem
      exact hmem
    · have ha0 : r ≠ a0 := fun h => hr (by rw [h]; decide)
      rw [Core.get, hx, get_set_other _ _ _ _ ha0]
      exact hissue.regs r hr
    · rw [had.ghost.trace]
      simp only [Conf.afterEcall, hghost1.trace, hghost1.kst]

end NoIntercept

section Hooks

variable {env : Env K} {s : Conf K} {visible live : Addr → Prop}

/-- A hart that issues the call of the site `s` with the visible memory of
    the site. -/
structure CallsAs (visible : Addr → Prop) (s : Conf K) (k : Core) : Prop where
  call : SameCall s.toCore k
  mem : ∀ a, visible a → k.mem a = s.mem a

/-- The kernel answers the call of the site `s`, leaves vpoline's code and the
    live frames alone, and gives an answer that depends on the number, the
    arguments, the visible memory and the kernel state only. -/
structure KernelFor (env : Env K) (visible live : Addr → Prop) (s : Conf K) : Prop where
  answers : ∀ k, CallsAs visible s k → ∃ res m' kst', env.kernel k s.kst res m' kst'
  keeps : ∀ k res m' kst', CallsAs visible s k → env.kernel k s.kst res m' kst' →
    (Installed env k.mem → Installed env m') ∧ ∀ a, withFrame live s a → m' a = k.mem a
  determined : ∀ k₁ k₂ res₁ res₂ m₁ m₂ kst₁ kst₂, CallsAs visible s k₁ → CallsAs visible s k₂ →
    env.kernel k₁ s.kst res₁ m₁ kst₁ → env.kernel k₂ s.kst res₂ m₂ kst₂ →
    res₁ = res₂ ∧ kst₁ = kst₂ ∧ ∀ a, visible a → m₁ a = m₂ a

/-- A hook that just asks for the call to be forwarded. -/
def ForwardingHook (env : Env K) (visible live : Addr → Prop) (s : Conf K) : Prop :=
  ∀ e, HookEntry env s e → Inevitably (Step env) (fun r =>
    Returned env (withFrame live s) e r ∧ forwardToKernel r.x = true ∧
    (∀ a, visible a → r.mem a = e.mem a) ∧ r.kst = e.kst ∧ r.trace = e.trace) e

/-- A hook at its call of `syscall_no_intercept(a7, a0, …, a5)`. -/
structure CallsNoIntercept (env : Env K) (visible live : Addr → Prop) (s e c : Conf K) :
    Prop where
  pc : c.pc = env.loc .syscallNoIntercept 0
  ra : EvenAddr (c.x ra)
  args : ∀ r ∈ [a0, a1, a2, a3, a4, a5, a6], c.x r = e.x r
  sp : c.x sp ≤ hookSp env s
  installed : Installed env c.mem
  live : ∀ a, withFrame live s a → c.mem a = e.mem a
  mem : ∀ a, visible a → c.mem a = e.mem a
  kst : c.kst = e.kst
  trace : c.trace = e.trace

/-- A hook that issues the call itself, stores the result and returns zero. -/
def HandlingHook (env : Env K) (visible live : Addr → Prop) (s : Conf K) : Prop :=
  ∀ e, HookEntry env s e → Inevitably (Step env) (fun c =>
    CallsNoIntercept env visible live s e c ∧
    ∀ d k m', NoIntercept env c d k m' → Installed env d.mem →
      (∀ a, withFrame live s a → d.mem a = c.mem a) → Inevitably (Step env) (fun r =>
        Returned env (withFrame live s) e r ∧ forwardToKernel r.x = false ∧
        r.mem.read (resultCell env s) 8 = d.x a0 ∧
        (∀ a, visible a → r.mem a = d.mem a) ∧ r.kst = d.kst ∧ r.trace = d.trace) d) e

/-- A thread behind the site `s` after a system call with result `res`,
    leaving the memory `m` and the kernel state `kst`: all registers but `a0`
    are those of the site, and the kernel has seen one call. -/
structure Ends (visible : Addr → Prop) (s : Conf K) (res : Word) (m : Mem) (kst : K)
    (c : Conf K) : Prop where
  pc : c.pc = s.pc + 4
  a0 : c.get a0 = res
  regs : ∀ r, r ≠ RV64.a0 → c.get r = s.get r
  f : c.f = s.f
  mem : ∀ a, visible a → c.mem a = m a
  kst : c.kst = kst
  calls : ∃ k, SameCall s.toCore k ∧ ecalls c.trace = ecalls s.trace ++ [(k, s.kst)]

theorem ecalls_append (tr tr' : List (Event K)) : ecalls (tr ++ tr') = ecalls tr ++ ecalls tr' :=
  List.filterMap_append

/-- A hook call and a hook return are no system calls. -/
theorem HookEntry.ecalls {e : Conf K} (h : HookEntry env s e) :
    ecalls e.trace = ecalls s.trace := by
  rw [h.trace, ecalls_append]
  exact List.append_nil _

theorem HookAnswer.ecalls {r : Conf K} {tr : List (Event K)} (h : HookAnswer env live s r tr) :
    ecalls tr = ecalls r.trace := by
  rcases h.trace with ⟨m, _, rfl⟩
  rw [ecalls_append]
  exact List.append_nil _

/-- Being behind the site is ending in a record, once the rest is known. -/
theorem Resumed.ends {c : Conf K} {m m₀ : Mem} {res : Word} {kst : K} {k : Core}
    (hvis : ∀ a, visible a → ¬ (env.stack a ∧ a < s.x sp)) (hgp : s.x RV64.gp = env.rgp)
    (h : Resumed env s m res c) (hm : ∀ a, visible a → m a = m₀ a) (hkst : c.kst = kst)
    (hk : SameCall s.toCore k)
    (htr : Vpoline.ecalls c.trace = Vpoline.ecalls s.trace ++ [(k, s.kst)]) :
    Ends visible s res m₀ kst c := by
  refine ⟨h.pc, h.a0, fun r hr => ?_, h.f, fun a ha => ?_, hkst, k, hk, htr⟩
  · by_cases hrgp : r = RV64.gp
    · rw [hrgp]
      exact h.gp.trans hgp.symm
    · exact h.other r hr hrgp
  · rw [h.mem a (hvis a ha), hm a ha]

/-- The call that vpoline issues is the call of the site. -/
theorem Issued.callsAs {m : Mem} {k : Core}
    (hvis : ∀ a, visible a → ¬ (env.stack a ∧ a < s.x sp))
    (hm : ∀ a, visible a → m a = s.mem a) (h : Issued env s m k) : CallsAs visible s k := by
  have hreg : ∀ q ∈ callRegs, q ∉ [t0, RV64.sp, gp] ∧ q ≠ 0 := by decide
  refine ⟨fun q hq => ?_, fun a ha => ?_⟩
  · have hget := h.regs q (hreg q hq).1
    simp only [Core.get, Regs.get, if_neg (hreg q hq).2] at hget
    exact hget
  · rw [h.mem a (hvis a ha), hm a ha]

/-- What a hook passes to `syscall_no_intercept` is what the site was going to
    call. -/
theorem NoInterceptIssue.callsAs {e c : Conf K} {k : Core}
    (hvis : ∀ a, visible a → ¬ (env.stack a ∧ a < s.x sp)) (he : HookEntry env s e)
    (hc : CallsNoIntercept env visible live s e c) (hbound : c.x sp ≤ s.x sp)
    (h : NoInterceptIssue env c k) : CallsAs visible s k := by
  refine ⟨fun q hq => ?_, fun a ha => ?_⟩
  · simp only [callRegs, List.mem_cons, List.not_mem_nil, or_false] at hq
    rcases hq with rfl | rfl | rfl | rfl | rfl | rfl | rfl
    · exact h.arg0.trans ((hc.args a1 (by decide)).trans he.arg0)
    · exact h.arg1.trans ((hc.args a2 (by decide)).trans he.arg1)
    · exact h.arg2.trans ((hc.args a3 (by decide)).trans he.arg2)
    · exact h.arg3.trans ((hc.args a4 (by decide)).trans he.arg3)
    · exact h.arg4.trans ((hc.args a5 (by decide)).trans he.arg4)
    · exact h.arg5.trans ((hc.args a6 (by decide)).trans he.arg5)
    · exact h.number.trans ((hc.args a0 (by decide)).trans he.number)
  · rw [h.mem a (AgreeAbove.stable_mono hbound (hvis a ha)), hc.mem a ha, he.mem a (hvis a ha)]

/-- Every run with a forwarding hook ends in the kernel's record. -/
theorem forwarding_ends (hs : AtSite env s) (ha7 : s.get a7 ≠ 139)
    (hhook : env.hookFn s.mem ≠ 0)
    (hvis : ∀ a, visible a → ¬ (env.stack a ∧ a < s.x sp))
    (hlive : ∀ a, live a → ¬ (env.stack a ∧ a < s.x sp)) (hk : KernelFor env visible live s)
    (hfwd : ForwardingHook env visible live s) {k₀ : Core} {res : Word} {m : Mem} {kst : K}
    (h₀ : CallsAs visible s k₀) (hker₀ : env.kernel k₀ s.kst res m kst) :
    Inevitably (Step env) (Ends visible s res m kst) s := by
  refine (site_hookEntered hs ha7 hhook).trans ?_
  rintro e ⟨act, he⟩
  refine (hfwd e he.toHookEntry).trans ?_
  rintro r ⟨hr, hforward, hmem, hkst, htrace⟩
  have hkst' : r.kst = s.kst := hkst.trans he.kst
  have hrmem : ∀ a, visible a → r.mem a = s.mem a := fun a ha =>
    (hmem a ha).trans (he.mem a (hvis a ha))
  have hcalls : ∀ k, Issued env s r.mem k → CallsAs visible s k :=
    fun _ hi => hi.callsAs hvis hrmem
  have hreturns : KernelReturns env live s r.mem r.kst := by
    rw [hkst']
    intro k hi
    refine ⟨hk.answers k (hcalls k hi), fun res' m' kst' hker => ?_⟩
    rcases hk.keeps k res' m' kst' (hcalls k hi) hker with ⟨hinst, hkeep⟩
    exact ⟨hinst (installed_of_own hr.installed (own_of_agree hi.mem)), hkeep⟩
  refine (returned_forwarded hs hlive he hr hforward hreturns).mono ?_
  rintro c ⟨tr, hans, ⟨k, res', m', hissued, hker, htr, hres⟩, _⟩
  rw [hkst'] at hker htr
  -- So the kernel answers it alike.
  rcases hk.determined k k₀ _ _ _ _ _ _ (hcalls k hissued) h₀ hker hker₀ with
    ⟨rfl, rfl, hm⟩
  refine hres.ends hvis hs.gp hm rfl (hcalls k hissued).call ?_
  rw [htr, ecalls_append, hans.ecalls, htrace, he.ecalls]
  rfl

/-- Every run with a handling hook ends there too. -/
theorem handling_ends (hs : AtSite env s) (ha7 : s.get a7 ≠ 139)
    (hhook : env.hookFn s.mem ≠ 0)
    (hvis : ∀ a, visible a → ¬ (env.stack a ∧ a < s.x sp))
    (hlive : ∀ a, live a → ¬ (env.stack a ∧ a < s.x sp)) (hk : KernelFor env visible live s)
    (hhandle : HandlingHook env visible live s) {k₀ : Core} {res : Word} {m : Mem} {kst : K}
    (h₀ : CallsAs visible s k₀) (hker₀ : env.kernel k₀ s.kst res m kst) :
    Inevitably (Step env) (Ends visible s res m kst) s := by
  have htop := (frameAt_of_room hs.room).base_le_top
  rw [frameBase_top] at htop
  have hspLe := hookSp_le hs.room
  refine (site_hookEntered hs ha7 hhook).trans ?_
  rintro e ⟨act, he⟩
  refine (hhandle e he.toHookEntry).trans ?_
  rintro c ⟨hc, hrest⟩
  have hcsp : c.x sp ≤ frameBase (s.x sp) := BitVec.le_trans hc.sp hspLe
  have hckst : c.kst = s.kst := hc.kst.trans he.kst
  have hbound : c.x sp ≤ s.x sp := BitVec.le_trans hcsp htop
  have hcalls : ∀ k : Core, NoInterceptIssue env c k → CallsAs visible s k :=
    fun _ hi => hi.callsAs hvis he.toHookEntry hc hbound
  refine (noIntercept_inevitably hc.pc hc.ra (fun k hi => ?_)).trans ?_
  · rw [hckst]
    exact hk.answers k (hcalls k hi)
  rintro d ⟨k, m', hd⟩
  have hkcalls := hcalls k hd.issue
  have hker := hd.kernel
  rw [hckst] at hker
  rcases hk.keeps k _ m' d.kst hkcalls hker with ⟨hinst, hkeep⟩
  have hdinst : Installed env d.mem := installed_of_own (hinst (installed_of_own hc.installed
    (own_of_agree hd.issue.mem))) (own_of_agree hd.mem)
  -- The frame and the live bytes lie above the hook's stack pointer.
  have hstable : ∀ a, withFrame live s a → ¬ (env.stack a ∧ a < c.x sp) := by
    rintro a (ha | ha)
    · exact AgreeAbove.stable_mono hbound (hlive a ha)
    · exact AgreeAbove.stable_mono hcsp (inFrame_not_below ha)
  have hdlive : ∀ a, withFrame live s a → d.mem a = c.mem a := fun a ha => by
    rw [hd.mem a (hstable a ha), hkeep a ha, hd.issue.mem a (hstable a ha)]
  refine (hrest d k m' hd hdinst hdlive).trans ?_
  rintro r ⟨hr, hforward, hresult, hmem, hkst, htrace⟩
  refine (returned_handled hs hlive he hr hforward).mono ?_
  rintro c' ⟨hans, hkst', hres, _⟩
  rw [hresult] at hres
  rcases hk.determined k k₀ _ _ _ _ _ _ hkcalls h₀ hker hker₀ with ⟨rfl, rfl, hm⟩
  refine hres.ends hvis hs.gp (fun a ha => ?_) (hkst'.trans hkst) hkcalls.call ?_
  · rw [hmem a ha, hd.mem a (AgreeAbove.stable_mono hbound (hvis a ha)), hm a ha]
  · rw [hans.ecalls, htrace, hd.trace, ecalls_append, hc.trace, he.ecalls, hckst]
    rfl

end Hooks

section Agreement

variable {env : Env K} {foreign : Conf K → Conf K → Prop}
  {htrace : ∀ c c', foreign c c' → c.trace <+: c'.trace} {s : Conf K}
  {visible live : Addr → Prop}

theorem installed_withForeign {m : Mem} :
    Installed (env.withForeign foreign htrace) m ↔ Installed env m :=
  ⟨fun h => ⟨h.trampoline, h.ret, h.rgpVar⟩, fun h => ⟨h.trampoline, h.ret, h.rgpVar⟩⟩

theorem AtSite.withForeign (h : AtSite env s) : AtSite (env.withForeign foreign htrace) s :=
  ⟨h.region, h.even, h.word, h.text, h.gp, installed_withForeign.mpr h.installed,
    ⟨h.room.fits, h.room.stack⟩⟩

theorem KernelFor.withForeign (h : KernelFor env visible live s) :
    KernelFor (env.withForeign foreign htrace) visible live s := by
  refine ⟨h.answers, fun k res m' kst' hk hker => ?_, h.determined⟩
  rw [installed_withForeign, installed_withForeign]
  exact h.keeps k res m' kst' hk hker

end Agreement

/-- A handling hook and a forwarding hook cannot be told apart: there is one
    record in which every run with either of them ends. -/
theorem handle_forward_agree {env : Env K} {forwarding handling : Conf K → Conf K → Prop}
    {hf : ∀ c c', forwarding c c' → c.trace <+: c'.trace}
    {hh : ∀ c c', handling c c' → c.trace <+: c'.trace} {s : Conf K}
    {visible live : Addr → Prop} (hs : AtSite env s) (ha7 : s.get a7 ≠ 139)
    (hhook : env.hookFn s.mem ≠ 0) (hvis : ∀ a, visible a → ¬ (env.stack a ∧ a < s.x sp))
    (hlive : ∀ a, live a → ¬ (env.stack a ∧ a < s.x sp)) (hk : KernelFor env visible live s)
    (hforward : ForwardingHook (env.withForeign forwarding hf) visible live s)
    (hhandle : HandlingHook (env.withForeign handling hh) visible live s) :
    ∃ res m kst,
      Inevitably (Step (env.withForeign forwarding hf)) (Ends visible s res m kst) s ∧
      Inevitably (Step (env.withForeign handling hh)) (Ends visible s res m kst) s := by
  -- The record is what the kernel answers to the site itself.
  have h₀ : CallsAs visible s s.toCore := ⟨fun _ _ => rfl, fun _ _ => rfl⟩
  rcases hk.answers s.toCore h₀ with ⟨res, m, kst, hker⟩
  have hsf : AtSite (env.withForeign forwarding hf) s := hs.withForeign
  have hsh : AtSite (env.withForeign handling hh) s := hs.withForeign
  exact ⟨res, m, kst,
    forwarding_ends hsf ha7 hhook hvis hlive hk.withForeign hforward h₀ hker,
    handling_ends hsh ha7 hhook hvis hlive hk.withForeign hhandle h₀ hker⟩

/-- A hook of the flat process that handles every call: it calls
    `syscall_no_intercept` at once, and stores the result where the frame of
    `syscall_hook` has it. -/
def flatHandler (c c' : Conf K) : Prop :=
  c.pc = 0x50000 ∧ c' = { c with pc := 0x31000, x := c.x.set ra 0x50010 } ∨
  c.pc = 0x50010 ∧ c' = { c with pc := 0x32010, x := c.x.set a0 0,
                                 mem := c.mem.write (c.x sp + 8) 8 (c.x a0) }

theorem flatHandler_trace (c c' : Conf K) (h : flatHandler c c') : c.trace <+: c'.trace := by
  rcases h with ⟨_, rfl⟩ | ⟨_, rfl⟩ <;> exact List.prefix_rfl

/-- The memory at or above the stack pointer of the flat site. -/
def flatVisible (a : Addr) : Prop := 0x7fff0000 ≤ a

theorem flat_frameBase : frameBase 0x7fff0000 = 0x7ffefed0 := by decide

theorem flat_hookSp : frameBase 0x7fff0000 - BitVec.ofNat 64 32 = 0x7ffefeb0 := by decide

/-- The thread when it has called `syscall_no_intercept`. -/
def handlerCalls (e : Conf K) (m : Mem) : Conf K :=
  { e with pc := 0x31000, x := e.x.set ra 0x50010, mem := m }

/-- The thread when it has stored the result and returned zero. -/
def handlerReturns (d : Conf K) (m : Mem) : Conf K :=
  { d with pc := 0x32010, x := d.x.set a0 0, mem := m.write (d.x sp + 8) 8 (d.x a0) }

section Handler

variable {kernel : Core → K → Word → Mem → K → Prop} {nr : Word} {kst : K}

/-- The flat process with that hook. -/
abbrev handlerEnv (kernel : Core → K → Word → Mem → K → Prop) : Env K :=
  flatEnv flatHandler kernel flatHandler_trace

/-- Its site. -/
abbrev handlerSite (kernel : Core → K → Word → Mem → K → Prop) (nr : Word) (kst : K) : Conf K :=
  flatSite (handlerEnv kernel) 0x50000 nr kst

/-- The frame of the site lies above the stack pointer of the hook. -/
theorem handler_live {a : Addr}
    (h : withFrame (fun _ => False) (handlerSite kernel nr kst) a) : (0x7ffefed0 : Addr) ≤ a := by
  rcases h with ha | ha
  · exact ha.elim
  · exact flat_frameBase ▸ ha.1

/-- So does the memory of the program. -/
theorem flatVisible_above {a : Addr} (h : flatVisible a) : (0x7ffefed0 : Addr) ≤ a := by
  simp only [flatVisible] at h
  bv_omega

/-- The noise touches neither. -/
theorem handler_noise {c : Conf K} {m : Mem} {a : Addr} (hsp : c.x sp = 0x7ffefeb0)
    (hm : AgreeAbove (handlerEnv kernel).stack (c.x sp) c.mem m) (ha : (0x7ffefed0 : Addr) ≤ a) :
    m a = c.mem a := by
  rw [hsp] at hm
  refine hm a (fun hlt => ?_)
  have hlt2 := hlt.2
  bv_omega

/-- The first step of the hook is the call. -/
theorem handler_calls_iff {e c : Conf K} (hpc : e.pc = 0x50000) :
    Step (handlerEnv kernel) e c ↔
      ∃ m, AgreeAbove (handlerEnv kernel).stack (e.x sp) e.mem m ∧ c = handlerCalls e m := by
  have hregion : flatRegion e.pc = .foreign := by
    rw [hpc]
    decide
  rw [flat_step_foreign hregion]
  refine exists_congr (fun m => and_congr_right (fun _ => ⟨?_, fun h => Or.inl ⟨hpc, h⟩⟩))
  rintro (⟨_, h⟩ | ⟨hother, _⟩)
  · exact h
  · exact absurd (hpc.symm.trans hother) (by decide)

/-- Its second step, when the call has returned, stores the result and returns. -/
theorem handler_returns_iff {d r : Conf K} (hpc : d.pc = 0x50010) :
    Step (handlerEnv kernel) d r ↔
      ∃ m, AgreeAbove (handlerEnv kernel).stack (d.x sp) d.mem m ∧ r = handlerReturns d m := by
  have hregion : flatRegion d.pc = .foreign := by
    rw [hpc]
    decide
  rw [flat_step_foreign hregion]
  refine exists_congr (fun m => and_congr_right (fun _ => ⟨?_, fun h => Or.inr ⟨hpc, h⟩⟩))
  rintro (⟨hother, _⟩ | ⟨_, h⟩)
  · exact absurd (hpc.symm.trans hother) (by decide)
  · exact h

/-- The call passes on the arguments, and keeps what it must. -/
theorem handlerCalls_callsNoIntercept {e : Conf K} {m : Mem}
    (he : HookEntry (handlerEnv kernel) (handlerSite kernel nr kst) e)
    (hm : AgreeAbove (handlerEnv kernel).stack (e.x sp) e.mem m) :
    CallsNoIntercept (handlerEnv kernel) flatVisible (fun _ => False)
      (handlerSite kernel nr kst) e (handlerCalls e m) := by
  have hsp : e.x sp = 0x7ffefeb0 := he.sp.trans flat_hookSp
  refine ⟨rfl, show EvenAddr 0x50010 by decide, fun r hr => ?_, he.sp ▸ BitVec.le_refl _, ?_,
    fun a ha => handler_noise hsp hm (handler_live ha),
    fun a ha => handler_noise hsp hm (flatVisible_above ha), rfl, rfl⟩
  · simp only [List.mem_cons, List.not_mem_nil, or_false] at hr
    rcases hr with rfl | rfl | rfl | rfl | rfl | rfl | rfl <;> rfl
  · exact installed_of_own (installed_of_own (flatSite_installed 0x50000 nr kst)
      (own_of_agree he.mem)) (own_of_agree hm)

/-- The store is into the hook's own part of the stack. -/
theorem handlerReturns_keeps {d : Conf K} {m : Mem} {a : Addr} (hsp : d.x sp = 0x7ffefeb0)
    (hm : AgreeAbove (handlerEnv kernel).stack (d.x sp) d.mem m) (ha : (0x7ffefed0 : Addr) ≤ a) :
    (handlerReturns d m).mem a = d.mem a := by
  refine (Mem.write_outside ?_).trans (handler_noise hsp hm ha)
  rw [hsp]
  bv_omega

/-- The registers that the hook must preserve are not those of the call. -/
theorem handlerReturns_saved {e d : Conf K} {k : Core} {m m₁ m' : Mem}
    (hd : NoIntercept (handlerEnv kernel) (handlerCalls e m) d k m') (q : Reg)
    (hq : calleeSaved q) : (handlerReturns d m₁).x q = e.x q := by
  have hcallee : ∀ q, calleeSaved q → q ∉ callRegs ∧ q ≠ 0 ∧ q ≠ a0 ∧ q ≠ ra := by decide
  rcases hcallee q hq with ⟨hcall, h0, ha0, hra⟩
  have hget := hd.regs q hcall
  simp only [Core.get, Regs.get, if_neg h0] at hget
  have hset : (handlerReturns d m₁).x q = d.x q := by
    simp +decide only [handlerReturns, Regs.set, if_false, if_neg ha0]
  have hset' : (handlerCalls e m).x q = e.x q := by
    simp +decide only [handlerCalls, Regs.set, if_false, if_neg hra]
  exact hset.trans (hget.trans hset')

/-- The hook returns as the calling convention has it. -/
theorem handlerReturns_returned {e d : Conf K} {k : Core} {m m₁ m' : Mem}
    (he : HookEntry (handlerEnv kernel) (handlerSite kernel nr kst) e)
    (hm : AgreeAbove (handlerEnv kernel).stack (e.x sp) e.mem m)
    (hd : NoIntercept (handlerEnv kernel) (handlerCalls e m) d k m')
    (hinst : Installed (handlerEnv kernel) d.mem)
    (hlive : ∀ a, withFrame (fun _ => False) (handlerSite kernel nr kst) a →
      d.mem a = (handlerCalls e m).mem a)
    (hm₁ : AgreeAbove (handlerEnv kernel).stack (d.x sp) d.mem m₁) :
    Returned (handlerEnv kernel) (withFrame (fun _ => False) (handlerSite kernel nr kst)) e
      (handlerReturns d m₁) := by
  have hsp : e.x sp = 0x7ffefeb0 := he.sp.trans flat_hookSp
  have hdsp : d.x sp = 0x7ffefeb0 := (hd.regs sp (by decide)).trans hsp
  refine ⟨?_, hdsp.trans hsp.symm, (hd.regs gp (by decide)).trans rfl,
    (hd.regs tp (by decide)).trans rfl, handlerReturns_saved hd, fun q _ => congrFun hd.f q,
    fun a ha => ?_, ?_, hd.activations, ?_⟩
  · rw [he.ra]
    exact show (0x32010 : Addr) = jumpTarget 0x32010 by decide
  · exact (handlerReturns_keeps hdsp hm₁ (handler_live ha)).trans
      ((hlive a ha).trans (handler_noise hsp hm (handler_live ha)))
  · refine installed_of_own (installed_of_own hinst (own_of_agree hm₁)) (fun a ha => ?_)
    refine Mem.write_outside ?_
    have hown : ownByte 0x10000 0x20000 0x20008 a := ha
    rw [hdsp]
    rcases hown with h | h | h <;> bv_omega
  · have htrace : (handlerReturns d m₁).trace = _ := hd.trace
    rw [htrace]
    exact List.prefix_append _ _

/-- The hook handles every call. -/
theorem flatHandler_handles :
    HandlingHook (handlerEnv kernel) flatVisible (fun _ => False)
      (handlerSite kernel nr kst) := by
  intro e he
  have hpc : e.pc = 0x50000 := by
    rw [he.pc, flatSite_hookFn]
    decide
  refine Inevitably.single ⟨_, (handler_calls_iff hpc).mpr ⟨e.mem, AgreeAbove.refl _ _ _, rfl⟩⟩
    (fun c hc => ?_)
  rcases (handler_calls_iff hpc).mp hc with ⟨m, hm, rfl⟩
  refine ⟨handlerCalls_callsNoIntercept he hm, fun d k m' hd hinst hlive => ?_⟩
  have hdpc : d.pc = 0x50010 := hd.pc
  have hdsp : d.x sp = 0x7ffefeb0 :=
    (hd.regs sp (by decide)).trans (he.sp.trans flat_hookSp)
  refine Inevitably.single ⟨_, (handler_returns_iff hdpc).mpr ⟨d.mem, AgreeAbove.refl _ _ _,
    rfl⟩⟩ (fun r hr => ?_)
  rcases (handler_returns_iff hdpc).mp hr with ⟨m₁, hm₁, rfl⟩
  refine ⟨handlerReturns_returned he hm hd hinst hlive hm₁, rfl, ?_,
    fun a ha => handlerReturns_keeps hdsp hm₁ (flatVisible_above ha), rfl, rfl⟩
  -- The result is where `syscall_hook` looks for it.
  have hcell : resultCell (handlerEnv kernel) (handlerSite kernel nr kst) = d.x sp + 8 := by
    rw [hdsp, ← flat_hookSp]
    rfl
  rw [hcell]
  exact Mem.read_write_same _ _ 8 _ (by decide)

end Handler

/-- The two hooks of the flat process agree. -/
theorem handle_forward_agree_flat :
    ∃ res m kst,
      Inevitably (Step ((flatEnv (flatHook 1) flatKernel (flatHook_trace 1)).withForeign
          (flatHook 1) (flatHook_trace 1)))
        (Ends flatVisible (flatSite (flatEnv (flatHook 1) flatKernel (flatHook_trace 1))
          0x50000 64 0) res m kst)
        (flatSite (flatEnv (flatHook 1) flatKernel (flatHook_trace 1)) 0x50000 64 0) ∧
      Inevitably (Step ((flatEnv (flatHook 1) flatKernel (flatHook_trace 1)).withForeign
          flatHandler flatHandler_trace))
        (Ends flatVisible (flatSite (flatEnv (flatHook 1) flatKernel (flatHook_trace 1))
          0x50000 64 0) res m kst)
        (flatSite (flatEnv (flatHook 1) flatKernel (flatHook_trace 1)) 0x50000 64 0) := by
  refine handle_forward_agree (flatSite_atSite _ _ _) (show (64 : Word) ≠ 139 by decide) ?_ ?_
    (fun (_ : Addr) (h : False) => h.elim) ?_ ?_ flatHandler_handles
  · rw [flatSite_hookFn]
    decide
  · rintro a ha ⟨_, hlt⟩
    have hsp : a < 0x7fff0000 := hlt
    simp only [flatVisible] at ha
    bv_omega
  · refine ⟨fun k _ => ⟨0, k.mem, 1, rfl, rfl, rfl⟩, ?_, ?_⟩
    · rintro k res m' kst' _ ⟨_, rfl, _⟩
      exact ⟨id, fun _ _ => rfl⟩
    · rintro k₁ k₂ res₁ res₂ m₁ m₂ kst₁ kst₂ h₁ h₂ ⟨rfl, rfl, rfl⟩ ⟨rfl, rfl, rfl⟩
      exact ⟨rfl, rfl, fun a ha => (h₁.mem a ha).trans (h₂.mem a ha).symm⟩
  · intro e he
    refine (flatHook_returns rfl he).mono ?_
    rintro r ⟨hr, ha0, hmem, hkst, htrace⟩
    refine ⟨hr, ?_, fun a ha => ?_, hkst, htrace⟩
    · rw [forwardToKernel, ha0]
      decide
    · have hsp : e.x sp = 0x7ffefeb0 := he.sp.trans flat_hookSp
      rw [hsp] at hmem
      refine hmem a (fun hlt => ?_)
      have hlt2 := hlt.2
      simp only [flatVisible] at ha
      bv_omega

end Vpoline
