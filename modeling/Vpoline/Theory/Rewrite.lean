import Vpoline.Theory.Sweep

/-!
# What the Rewriting Loop Replaces

`disassemble_and_rewrite` is meant to replace the `ecall`s of an instruction
stream and nothing else. It does so as long as the sweep stays on the
instruction boundaries, and this module says exactly when that is.

The first part is about any well-behaved disassembler. `rewriteLoop_spec` says
what the loop leaves in memory: the word `jalr gp, gp, 0` where a read-only
sweep finds an `ecall`, and everything else as it was.

The second part is about capstone, which fails on encodings it does not know.
The loop then advances by one byte, into the middle of an instruction.
`exact_iff_sweep` reduces exactness for one stream to the question where the
sweep finds `ecall`s. A stream of known instructions is fine, and
`all_known_of_sweep` is the converse over all streams: as soon as one encoding
is unknown there is a stream in which an `ecall` is missed, or in which the
bytes of two instructions are overwritten because they look like one.

## Main definitions

* `PatchedAt`: A memory with `jalr gp, gp, 0` stored at some addresses.
* `SectionAt`: A stream of instructions in memory.
* `Exact`: Every `ecall` is replaced and nothing else changes.
* `SweepsEcall`: The positions a read-only sweep reports.

## Theorems

* `rewriteLoop_spec`: What the loop leaves in memory.
* `PatchedAt.subset`: The stores can be read off the result.
* `exact_iff_sweep`: Exactness for one stream.
* `sweep_of_known`: Streams of known instructions.
* `all_known_of_sweep`: One unknown encoding is enough to fail.
* `rewrite_exact_iff`: When rewriting is exact.
-/

namespace Vpoline

/-- `m'` is `m` with `jalr gp, gp, 0` stored at the addresses in `P`. -/
structure PatchedAt (P : Addr → Prop) (m m' : Mem) : Prop where
  inside : ∀ a, P a → BytesAt m' a jalrEncoding.bytes
  outside : ∀ b, (∀ a, P a → 4 ≤ (b - a).toNat) → m' b = m b

section Patched

variable {P Q : Addr → Prop} {m m' : Mem}

theorem PatchedAt.congr (hiff : ∀ a, P a ↔ Q a) (h : PatchedAt P m m') : PatchedAt Q m m' :=
  ⟨fun a ha => h.inside a ((hiff a).mpr ha),
    fun b hb => h.outside b (fun a ha => hb a ((hiff a).mp ha))⟩

/-- Stores that do not overlap are all there afterwards. -/
theorem patchedAt_patchAll {ps : List Nat} (hapart : ps.Pairwise WordsApart)
    (hsmall : ∀ p ∈ ps, p + 4 ≤ 2 ^ 64) (m : Mem) :
    PatchedAt (fun a => ∃ p ∈ ps, a = BitVec.ofNat 64 p) m (patchAll m ps) := by
  have hbytes : ∀ k (hk : k < jalrEncoding.bytes.length),
      patchedEcall.extractLsb' (8 * k) 8 = jalrEncoding.bytes[k] := by decide
  constructor
  · rintro a ⟨p, hp, rfl⟩ i hi
    rw [← BitVec.ofNat_add, patchAll_inside hapart hsmall hp hi]
    exact hbytes i hi
  · intro b hb
    exact patchAll_outside (fun p hp => hb _ ⟨p, hp, rfl⟩)

/-- The stores can be read off the result: `0xe7` is the first byte of the
    word that is stored and none of its others. -/
theorem PatchedAt.subset (hP : PatchedAt P m m') (hQ : PatchedAt Q m m')
    (hm : ∀ a, P a → m a = 0x73) {a : Addr} (ha : P a) : Q a := by
  have hfirst : m' a = 0xe7 := by
    have h0 := hP.inside a ha 0 (by decide)
    rw [BitVec.add_zero] at h0
    exact h0
  by_contra hna
  -- Otherwise the byte is outside the other stores, or inside one of them.
  by_cases hout : ∀ q, Q q → 4 ≤ (a - q).toNat
  · rw [hQ.outside a hout, hm a ha] at hfirst
    exact absurd hfirst (by decide)
  · push Not at hout
    rcases hout with ⟨q, hq, hlt⟩
    have hbyte := hQ.inside q hq (a - q).toNat hlt
    have haddr : q + BitVec.ofNat 64 (a - q).toNat = a := by
      rw [BitVec.ofNat_toNat, BitVec.setWidth_eq]
      bv_omega
    rw [haddr, hfirst] at hbyte
    have hne : (a - q).toNat ≠ 0 := by
      intro hz
      refine hna ?_
      have heq : a = q := by bv_omega
      exact heq ▸ hq
    -- And only the first byte of a store is `0xe7`.
    have hothers : ∀ k (hk : k < jalrEncoding.bytes.length), k ≠ 0 →
        (0xe7 : Byte) ≠ jalrEncoding.bytes[k] := by decide
    exact hothers _ hlt hne hbyte

end Patched

section Loop

variable (context : InterceptDisasmContext) (m : Mem)

/-- A read-only sweep from `start` finds an `ecall` at the address `a`. -/
def Finds (start : Nat) (a : Addr) : Prop :=
  ∃ q, Visits (advance context m) start q ∧ q ≤ context.last ∧ Reports context m q ∧
    a = BitVec.ofNat 64 q

variable {context m}

/-- What the sweep finds is what it reports. -/
theorem finds_iff_reported (hd : WellBehaved context.handle) (start : Nat) (a : Addr) :
    Finds context m start a ↔
      ∃ p ∈ reported (readOnlySweep context m start), a = BitVec.ofNat 64 p := by
  refine exists_congr (fun p => ?_)
  rw [mem_reported_iff hd p _ _ (Nat.le_refl _), and_assoc, and_assoc]

/-- The loop terminates normally, and stores where a read-only sweep finds an
    `ecall`. -/
theorem rewriteLoop_spec (hd : WellBehaved context.handle) (hlast : context.last < 2 ^ 64)
    (start : Nat) (m : Mem) :
    ∃ m', rewriteLoop context start m = .ok m' ∧ PatchedAt (Finds context m start) m m' := by
  refine ⟨_, rewriteLoop_eq hd hlast start m, ?_⟩
  refine (patchedAt_patchAll ?_ (fun p hp => ?_) m).congr
    (fun a => (finds_iff_reported hd start a).symm)
  · exact (reported_apart hd _ _ (Nat.le_refl _)).imp Or.inl
  · rcases (mem_reported_iff hd p _ _ (Nat.le_refl _)).mp hp with ⟨_, hle, hr⟩
    have hend := (hr.fits hd hle).2
    omega

end Loop

section Capstone

variable {known : Encoding → Bool}

theorem capstone_some {bs : List Byte} {insn : CsInsn} (h : capstone known bs = some insn) :
    ∃ e, Encoding.ofBytes bs = some e ∧ known e = true ∧
      insn = ⟨if e = ecallEncoding then .ecall else .other, e.size⟩ := by
  unfold capstone at h
  cases hof : Encoding.ofBytes bs with
  | none =>
      rw [hof] at h
      exact absurd h (by simp only [reduceCtorEq, not_false_eq_true])
  | some e =>
      rw [hof] at h
      by_cases hk : known e = true
      · simp only [if_pos hk, Option.some.injEq] at h
        exact ⟨e, rfl, hk, h.symm⟩
      · simp only [if_neg hk] at h
        exact absurd h (by simp only [reduceCtorEq, not_false_eq_true])

theorem capstone_wellBehaved (known : Encoding → Bool) : WellBehaved (capstone known) := by
  refine ⟨?_, ?_, ?_⟩
  · intro bs insn h
    rcases capstone_some h with ⟨e, _, _, rfl⟩
    show e.size ≠ 0
    rcases e.size_cases with hs | hs <;> omega
  · intro bs insn h
    rcases capstone_some h with ⟨e, hof, _, rfl⟩
    exact Encoding.size_le_of_ofBytes hof
  · intro bs insn h hid
    rcases capstone_some h with ⟨e, _, _, rfl⟩
    by_cases he : e = ecallEncoding
    · rw [he]
      rfl
    · simp only [if_neg he] at hid
      exact absurd hid (by decide)

/-- How far a sweep of `bs` goes on from position `o`. -/
def sweepLen (known : Encoding → Bool) (bs : List Byte) (o : Nat) : Nat :=
  match Encoding.ofBytes (bs.drop o) with
  | none => 1
  | some e => if known e then e.size else 1

/-- A read-only sweep of `bs` reports an `ecall` at position `o`. -/
def SweepsEcall (known : Encoding → Bool) (bs : List Byte) (o : Nat) : Prop :=
  Visits (sweepLen known bs) 0 o ∧ o < bs.length ∧
    Encoding.ofBytes (bs.drop o) = some ecallEncoding

theorem sweepLen_known {bs : List Byte} {o : Nat} {e : Encoding}
    (hof : Encoding.ofBytes (bs.drop o) = some e) (hk : known e = true) :
    sweepLen known bs o = e.size := by
  unfold sweepLen
  rw [hof]
  simp only [if_pos hk]

theorem sweepLen_unknown {bs : List Byte} {o : Nat} {e : Encoding}
    (hof : Encoding.ofBytes (bs.drop o) = some e) (hk : known e ≠ true) :
    sweepLen known bs o = 1 := by
  unfold sweepLen
  rw [hof]
  simp only [if_neg hk]

/-- The bytes the loop hands to capstone are the rest of the section. -/
theorem bytesFrom_section {m : Mem} {code : Addr} {bs : List Byte} (hm : BytesAt m code bs)
    {o : Nat} (ho : o < bs.length) :
    bytesFrom m (code.toNat + o) (code.toNat + bs.length - 1 - (code.toNat + o) + 1)
      = bs.drop o := by
  have hsize : code.toNat + bs.length - 1 - (code.toNat + o) + 1 = bs.length - o := by omega
  rw [hsize]
  apply List.ext_getElem
  · rw [length_bytesFrom, List.length_drop]
  · intro k hk hk'
    rw [length_bytesFrom] at hk
    simp only [bytesFrom, List.getElem_map, List.getElem_range, List.getElem_drop]
    rw [← hm (o + k) (by omega)]
    refine congrArg m ?_
    rw [Nat.add_assoc, ofNat_toNat_add]

/-- What the loop finds in a section is what the sweep of its bytes reports. -/
theorem finds_iff_sweepsEcall (hecall : known ecallEncoding = true) {m : Mem} {code : Addr}
    {bs : List Byte} (hm : BytesAt m code bs) (hne : code.toNat ≠ 0) (a : Addr) :
    Finds ⟨capstone known, code.toNat + bs.length - 1⟩ m code.toNat a ↔
      ∃ o, SweepsEcall known bs o ∧ a = code + BitVec.ofNat 64 o := by
  -- Offsets in the section instead of addresses.
  have hlen : ∀ o, o < bs.length →
      advance ⟨capstone known, code.toNat + bs.length - 1⟩ m (code.toNat + o)
        = sweepLen known bs o := by
    intro o ho
    unfold advance sweepLen capstone
    simp only [bytesFrom_section hm ho]
    cases Encoding.ofBytes (bs.drop o) with
    | none => rfl
    | some e =>
        by_cases hk : known e = true
        · simp only [if_pos hk]
        · simp only [if_neg hk]
  have hrep : ∀ o, o < bs.length →
      (Reports ⟨capstone known, code.toNat + bs.length - 1⟩ m (code.toNat + o) ↔
        Encoding.ofBytes (bs.drop o) = some ecallEncoding) := by
    intro o ho
    unfold Reports
    simp only [bytesFrom_section hm ho]
    constructor
    · rintro ⟨insn, hinsn, hid⟩
      rcases capstone_some hinsn with ⟨e, hof, _, rfl⟩
      by_cases he : e = ecallEncoding
      · rw [hof, he]
      · simp only [if_neg he] at hid
        exact absurd hid (by decide)
    · intro hof
      refine ⟨⟨.ecall, 4⟩, ?_, rfl⟩
      simp only [capstone, hof, hecall, if_true]
      rfl
  constructor
  · rintro ⟨q, hv, hle, hr, rfl⟩
    rcases Nat.exists_eq_add_of_le hv.le with ⟨o, rfl⟩
    have ho : o < bs.length := by
      simp only at hle
      omega
    refine ⟨o, ⟨?_, ho, (hrep o ho).mp hr⟩, ofNat_toNat_add code o⟩
    refine Visits.congr (fun p _ hp => ?_) (Visits.shift.mp hv)
    exact (hlen p (by omega)).symm
  · rintro ⟨o, ⟨hv, ho, hof⟩, rfl⟩
    refine ⟨code.toNat + o, Visits.shift.mpr ?_, ?_, (hrep o ho).mpr hof,
      (ofNat_toNat_add code o).symm⟩
    · exact hv.congr (fun p _ hp => hlen p (by omega))
    · simp only
      omega

end Capstone

/-- An instruction stream in memory, as the caller of the loop has it: not at
    address zero, and not past the end of memory. -/
structure SectionAt (m : Mem) (code : Addr) (is : List Encoding) : Prop where
  nonzero : code ≠ 0
  fits : code.toNat + (stream is).length ≤ 2 ^ 64
  bytes : BytesAt m code (stream is)

/-- The calls around the loop succeed. -/
def succeedingWith (d : Disassembler) : RewriteCalls :=
  ⟨fun _ _ _ => none, some d, true, true, true⟩

/-- The function around the loop adds nothing when its calls succeed. -/
theorem disassembleAndRewrite_succeeding (d : Disassembler) (code : Addr) (size : BitVec 64)
    (memProt : Prot) (m : Mem) :
    disassembleAndRewrite (succeedingWith d) code size memProt m
      = rewriteLoop ⟨d, code.toNat + size.toNat - 1⟩ code.toNat m := by
  unfold disassembleAndRewrite rewriteLoop Effects.disassembleAndRewrite
  simp only [succeedingWith, interceptDisasmInit, Bool.true_eq_false, if_false, memEffects_call,
    memEffects_debugCall, memEffects_protect]
  cases memEffects.rewriteLoop ⟨d, code.toNat + size.toNat - 1⟩ code.toNat m with
  | error stop => rfl
  | ok m' => rfl

/-- The calls around the loop succeed, and capstone knows `known`. -/
def succeeding (known : Encoding → Bool) : RewriteCalls := succeedingWith (capstone known)

/-- What rewriting is meant to do to an instruction. -/
def patchEcall (e : Encoding) : Encoding := if e = ecallEncoding then jalrEncoding else e

/-- Rewriting is exact: every `ecall` of the stream is replaced by
    `jalr gp, gp, 0`, and no other byte changes. -/
def Exact (known : Encoding → Bool) (memProt : Prot) (code : Addr) (is : List Encoding)
    (m : Mem) : Prop :=
  ∃ m', disassembleAndRewrite (succeeding known) code (BitVec.ofNat 64 (stream is).length)
      memProt m = .ok m' ∧
    BytesAt m' code (stream (is.map patchEcall)) ∧
    ∀ a, (stream is).length ≤ (a - code).toNat → m' a = m a

section Exactness

variable {known : Encoding → Bool} {m m' : Mem} {code : Addr} {is : List Encoding}

theorem size_patchEcall (e : Encoding) : (patchEcall e).size = e.size := by
  unfold patchEcall
  by_cases he : e = ecallEncoding
  · rw [if_pos he, he]
    rfl
  · rw [if_neg he]

theorem SectionAt.toNat_ne_zero (h : SectionAt m code is) : code.toNat ≠ 0 :=
  fun hz => h.nonzero (BitVec.eq_of_toNat_eq hz)

theorem SectionAt.length_lt (h : SectionAt m code is) : (stream is).length < 2 ^ 64 := by
  have hfits := h.fits
  have hpos := h.toNat_ne_zero
  omega

/-- The addresses of the `ecall`s of a stream. -/
def EcallAt (code : Addr) (is : List Encoding) (a : Addr) : Prop :=
  ∃ o, Boundary is o ecallEncoding ∧ a = code + BitVec.ofNat 64 o

/-- Being patched at the `ecall`s is the same as holding the patched stream. -/
theorem patchedAt_ecalls_iff (h : SectionAt m code is) :
    PatchedAt (EcallAt code is) m m' ↔ BytesAt m' code (stream (is.map patchEcall)) ∧
      ∀ a, (stream is).length ≤ (a - code).toNat → m' a = m a := by
  have hlt := h.length_lt
  constructor
  · intro hpat
    constructor
    · rw [bytesAt_stream_iff]
      intro o e' hb'
      rcases Boundary.of_map size_patchEcall hb' with ⟨e, hb, rfl⟩
      unfold patchEcall
      by_cases he : e = ecallEncoding
      · rw [if_pos he]
        exact hpat.inside _ ⟨o, he ▸ hb, rfl⟩
      · rw [if_neg he]
        intro k hk
        rw [← bytesAt_stream_iff.mp h.bytes o e hb k hk]
        -- No `ecall` overlaps this instruction.
        refine hpat.outside _ ?_
        rintro a ⟨o', hb'', rfl⟩
        have hfits := hb.fits
        have hfits'' := hb''.fits
        have hsize : ecallEncoding.size = 4 := rfl
        have hk' : k < e.size := hk
        rcases hb.apart hb'' with ⟨_, heq⟩ | hlt' | hlt'
        · exact absurd heq he
        · bv_omega
        · bv_omega
    · intro a ha
      refine hpat.outside a ?_
      rintro b ⟨o, hb, rfl⟩
      have hfits := hb.fits
      have hsize : ecallEncoding.size = 4 := rfl
      bv_omega
  · rintro ⟨hbytes, hout⟩
    constructor
    · rintro a ⟨o, hb, rfl⟩
      have hjalr : patchEcall ecallEncoding = jalrEncoding := if_pos rfl
      rw [← hjalr]
      exact bytesAt_stream_iff.mp hbytes o _ (hb.map size_patchEcall)
    · intro b hb
      by_cases hin : (stream is).length ≤ (b - code).toNat
      · exact hout b hin
      · -- The byte belongs to an instruction that is not an `ecall`.
        rcases Boundary.cover is (Nat.lt_of_not_le hin) with ⟨o, e, hbd, hle, hlt'⟩
        have hfits := hbd.fits
        have hk : (b - code).toNat - o < e.bytes.length := by
          rw [Encoding.size] at hlt'
          omega
        have haddr : code + BitVec.ofNat 64 o + BitVec.ofNat 64 ((b - code).toNat - o) = b := by
          bv_omega
        have he : e ≠ ecallEncoding := by
          rintro rfl
          have h4 := hb _ ⟨o, hbd, rfl⟩
          have hsize : ecallEncoding.size = 4 := rfl
          bv_omega
        have hsame : patchEcall e = e := if_neg he
        have hm' := bytesAt_stream_iff.mp hbytes o _ (hbd.map size_patchEcall)
        rw [hsame] at hm'
        have hm := bytesAt_stream_iff.mp h.bytes o e hbd
        rw [← haddr, hm' _ hk, hm _ hk]

theorem disassembleAndRewrite_eq (memProt : Prot) (h : SectionAt m code is)
    (hloop : rewriteLoop ⟨capstone known, code.toNat + (stream is).length - 1⟩ code.toNat m
      = .ok m') :
    disassembleAndRewrite (succeeding known) code (BitVec.ofNat 64 (stream is).length) memProt m
      = .ok m' := by
  have hsize : (BitVec.ofNat 64 (stream is).length).toNat = (stream is).length := by
    rw [BitVec.toNat_ofNat, Nat.mod_eq_of_lt h.length_lt]
  have hrun := disassembleAndRewrite_succeeding (capstone known) code
    (BitVec.ofNat 64 (stream is).length) memProt m
  rw [hsize, hloop] at hrun
  exact hrun

/-- Rewriting a section succeeds, and stores where a read-only sweep of its
    bytes reports an `ecall`. -/
theorem rewrite_patchedAt (hecall : known ecallEncoding = true) (memProt : Prot)
    (h : SectionAt m code is) :
    ∃ m', disassembleAndRewrite (succeeding known) code (BitVec.ofNat 64 (stream is).length)
        memProt m = .ok m' ∧
      PatchedAt (fun a => ∃ o, SweepsEcall known (stream is) o ∧ a = code + BitVec.ofNat 64 o)
        m m' := by
  have hpos := h.toNat_ne_zero
  have hfits := h.fits
  rcases @rewriteLoop_spec ⟨capstone known, code.toNat + (stream is).length - 1⟩
    (capstone_wellBehaved known) (by simp only; omega) code.toNat m with ⟨m', hloop, hpat⟩
  exact ⟨m', disassembleAndRewrite_eq memProt h hloop,
    hpat.congr (finds_iff_sweepsEcall hecall h.bytes hpos)⟩

/-- Rewriting a stream is exact if and only if a read-only sweep of its bytes
    reports the `ecall`s of the stream and nothing else. -/
theorem exact_iff_sweep (hecall : known ecallEncoding = true) (memProt : Prot)
    (h : SectionAt m code is) :
    Exact known memProt code is m ↔
      ∀ o, SweepsEcall known (stream is) o ↔ Boundary is o ecallEncoding := by
  have hlt := h.length_lt
  rcases rewrite_patchedAt hecall memProt h with ⟨m', hrun, hpat⟩
  -- Offsets within the section are distinct as addresses.
  have hinj : ∀ o o' : Nat, o < (stream is).length → o' < (stream is).length →
      code + BitVec.ofNat 64 o = code + BitVec.ofNat 64 o' → o = o' := by
    intro o o' ho ho' heq
    bv_omega
  have hbound : ∀ o, Boundary is o ecallEncoding → o < (stream is).length := by
    intro o hb
    have hf := hb.fits
    have hsize : ecallEncoding.size = 4 := rfl
    omega
  constructor
  · rintro ⟨m'', hrun'', hspec⟩ o
    rw [hrun, Except.ok.injEq] at hrun''
    subst hrun''
    have hecalls := (patchedAt_ecalls_iff h).mpr hspec
    -- Both sets of addresses hold `0x73` before.
    have hbyte : ∀ o (_ : o < (stream is).length),
        Encoding.ofBytes ((stream is).drop o) = some ecallEncoding →
        m (code + BitVec.ofNat 64 o) = 0x73 := by
      intro o ho hof
      rcases Encoding.append_of_ofBytes hof with ⟨rest, hrest⟩
      have hget : ((stream is).drop o)[0]? = some 0x73 := by rw [hrest]; rfl
      rw [List.getElem?_drop, Nat.add_zero, List.getElem?_eq_getElem ho,
        Option.some.injEq] at hget
      rw [h.bytes o ho, hget]
    constructor
    · intro hs
      have hsub := hpat.subset hecalls (by
        rintro a ⟨o', hs', rfl⟩
        exact hbyte o' hs'.2.1 hs'.2.2) ⟨o, hs, rfl⟩
      rcases hsub with ⟨o', hb, heq⟩
      rw [hinj o o' hs.2.1 (hbound o' hb) heq]
      exact hb
    · intro hb
      have hsub := hecalls.subset hpat (by
        rintro a ⟨o', hb', rfl⟩
        exact hbyte o' (hbound o' hb') hb'.ofBytes) ⟨o, hb, rfl⟩
      rcases hsub with ⟨o', hs, heq⟩
      rw [hinj o o' (hbound o hb) hs.2.1 heq]
      exact hs
  · intro hsync
    refine ⟨m', hrun, (patchedAt_ecalls_iff h).mp (hpat.congr (fun a => ?_))⟩
    constructor
    · rintro ⟨o, hs, ha⟩
      exact ⟨o, (hsync o).mp hs, ha⟩
    · rintro ⟨o, hb, ha⟩
      exact ⟨o, (hsync o).mpr hb, ha⟩

end Exactness

section Sync

variable {known : Encoding → Bool} {is : List Encoding}

/-- A sweep of known instructions stays on the boundaries. -/
theorem sweep_of_known (hk : ∀ e ∈ is, known e = true) (o : Nat) :
    SweepsEcall known (stream is) o ↔ Boundary is o ecallEncoding := by
  have hmem : ∀ {is : List Encoding} {o : Nat} {e : Encoding}, Boundary is o e → e ∈ is := by
    intro is o e hb
    induction hb with
    | head e is => exact List.mem_cons_self
    | tail d h ih => exact List.mem_cons_of_mem d ih
  have hlen : ∀ o e, Boundary is o e → sweepLen known (stream is) o = e.size :=
    fun o e hb => sweepLen_known hb.ofBytes (hk e (hmem hb))
  constructor
  · rintro ⟨hv, ho, hof⟩
    rcases (visits_iff_boundary is _ hlen o ho).mp hv with ⟨e, hb⟩
    rw [hb.ofBytes, Option.some.injEq] at hof
    exact hof ▸ hb
  · intro hb
    have hfits := hb.fits
    have hsize : ecallEncoding.size = 4 := rfl
    have ho : o < (stream is).length := by omega
    exact ⟨(visits_iff_boundary is _ hlen o ho).mpr ⟨_, hb⟩, ho, hb.ofBytes⟩

/-- A sweep that steps over an `ecall` does not report it. -/
theorem not_sweeps_of_skip {p b : Nat} (hv : Visits (sweepLen known (stream is)) 0 p)
    (hlt : p < b) (hskip : b < p + sweepLen known (stream is) p) :
    ¬ SweepsEcall known (stream is) b := by
  rintro ⟨hb, _, _⟩
  have hgap := hv.gap hb hlt
  omega

/-- The encoding that the bytes `c 73 00 00` start with. -/
def leading (c : Byte) : Encoding :=
  if low : c &&& 3 = 3 then .long c 0x73 0 0 low else .short c 0x73 low

theorem ofBytes_leading (c : Byte) (rest : List Byte) :
    Encoding.ofBytes (c :: 0x73 :: 0 :: 0 :: rest) = some (leading c) := by
  unfold leading Encoding.ofBytes
  by_cases low : c &&& 3 = 3
  · simp only [dif_pos low]
  · simp only [dif_neg low]

theorem leading_size (c : Byte) : 1 < (leading c).size := by
  rcases (leading c).size_cases with hs | hs <;> omega

/-- What exactness of all short streams says about the sweep. -/
def InSync (known : Encoding → Bool) : Prop :=
  ∀ is : List Encoding, (stream is).length ≤ 8 →
    ∀ o, SweepsEcall known (stream is) o ↔ Boundary is o ecallEncoding

variable (hsync : InSync known)
include hsync

/-- `c 73 00 00 00 00` has an `ecall` inside its first instruction. If that
    were unknown, the sweep would report it. -/
theorem known_leading (c : Byte) : known (leading c) = true := by
  by_contra hk
  -- The stream, which depends on the length of the first instruction.
  have hstream : ∃ is, stream is = [c, 0x73, 0, 0, 0, 0] ∧ Boundary is 0 (leading c) := by
    unfold leading
    by_cases low : c &&& 3 = 3
    · rw [dif_pos low]
      exact ⟨[.long c 0x73 0 0 low, .short 0 0 (by decide)], rfl, Boundary.head _ _⟩
    · rw [dif_neg low]
      exact ⟨[.short c 0x73 low, .short 0 0 (by decide), .short 0 0 (by decide)], rfl,
        Boundary.head _ _⟩
  rcases hstream with ⟨is, hbytes, hhead⟩
  have hv : Visits (sweepLen known (stream is)) 0 1 := by
    have h1 := (Visits.refl (sweepLen known (stream is)) 0).step
    rw [sweepLen_unknown hhead.ofBytes hk] at h1
    exact h1
  have hs : SweepsEcall known (stream is) 1 := by
    refine ⟨hv, ?_, ?_⟩
    · rw [hbytes]
      exact (by decide : 1 < 6)
    · rw [hbytes]
      rfl
  have hb := (hsync is (by rw [hbytes]; exact (by decide : 6 ≤ 8)) 1).mp hs
  have hsize := leading_size c
  have hsize4 : ecallEncoding.size = 4 := rfl
  rcases hhead.apart hb with ⟨h01, _⟩ | hlt | hlt <;> omega

/-- The sweep never stops right before an `ecall`: it would step into it. -/
theorem not_visits_before {p : Nat} (c : Byte) (rest : List Byte)
    (hb : Boundary is (p + 1) ecallEncoding) (hshort : (stream is).length ≤ 8)
    (hdrop : (stream is).drop p = c :: ecallEncoding.bytes ++ rest) :
    ¬ Visits (sweepLen known (stream is)) 0 p := by
  intro hv
  have hof : Encoding.ofBytes ((stream is).drop p) = some (leading c) := by
    rw [hdrop]
    exact ofBytes_leading c (0 :: rest)
  have hlen := sweepLen_known hof (known_leading hsync c)
  have hsize := leading_size c
  exact not_sweeps_of_skip hv (Nat.lt_succ_self p) (by omega) ((hsync is hshort _).mpr hb)

theorem known_short (c0 c1 : Byte) (low : c0 &&& 3 ≠ 3) : known (.short c0 c1 low) = true := by
  by_contra hk
  -- `c0 c1` followed by an `ecall`.
  have hhead : Boundary [.short c0 c1 low, ecallEncoding] 0 (.short c0 c1 low) :=
    Boundary.head _ _
  have hecall : Boundary [.short c0 c1 low, ecallEncoding] 2 ecallEncoding :=
    Boundary.tail _ (Boundary.head _ _)
  have hv := (Visits.refl (sweepLen known (stream [.short c0 c1 low, ecallEncoding])) 0).step
  rw [sweepLen_unknown hhead.ofBytes hk] at hv
  exact not_visits_before hsync c1 [] hecall (by decide : 6 ≤ 8) rfl hv

/-- If a long encoding is unknown, so is the one that starts at its second
    byte and ends with the first byte of an `ecall`. -/
theorem unknown_shift {c0 c1 c2 c3 : Byte} {low : c0 &&& 3 = 3}
    (hk : known (.long c0 c1 c2 c3 low) ≠ true) :
    ∃ low1 : c1 &&& 3 = 3, known (.long c1 c2 c3 0x73 low1) ≠ true := by
  -- `c0 c1 c2 c3` followed by an `ecall`.
  have hhead : Boundary [.long c0 c1 c2 c3 low, ecallEncoding] 0 (.long c0 c1 c2 c3 low) :=
    Boundary.head _ _
  have hecall : Boundary [.long c0 c1 c2 c3 low, ecallEncoding] 4 ecallEncoding :=
    Boundary.tail _ (Boundary.head _ _)
  have hv1 := (Visits.refl (sweepLen known (stream [.long c0 c1 c2 c3 low, ecallEncoding])) 0).step
  rw [sweepLen_unknown hhead.ofBytes hk] at hv1
  by_cases low1 : c1 &&& 3 = 3
  · refine ⟨low1, fun hk1 => ?_⟩
    have hof : Encoding.ofBytes ((stream [.long c0 c1 c2 c3 low, ecallEncoding]).drop (0 + 1))
        = some (.long c1 c2 c3 0x73 low1) := dif_pos low1
    have hlen := sweepLen_known hof hk1
    have hsize : (Encoding.long c1 c2 c3 0x73 low1).size = 4 := rfl
    exact not_sweeps_of_skip hv1 (by omega) (by omega)
      ((hsync [.long c0 c1 c2 c3 low, ecallEncoding] (Nat.le_refl 8) 4).mpr hecall)
  · -- The second and third byte are a known instruction, and the sweep
    -- stops at the fourth, right before the `ecall`.
    have hof : Encoding.ofBytes ((stream [.long c0 c1 c2 c3 low, ecallEncoding]).drop (0 + 1))
        = some (.short c1 c2 low1) := dif_neg low1
    have hv3 := hv1.step
    rw [sweepLen_known hof (known_short hsync c1 c2 low1)] at hv3
    exact absurd hv3 (not_visits_before hsync c3 [] hecall (Nat.le_refl 8) rfl)

/-- One unknown encoding is enough to lose or to invent an `ecall` somewhere.
    Shifting an unknown encoding four times ends at `73 73 73 73`. -/
theorem all_known_of_sweep (e : Encoding) : known e = true := by
  cases e with
  | short c0 c1 low => exact known_short hsync c0 c1 low
  | long c0 c1 c2 c3 low =>
      by_contra hk
      rcases unknown_shift hsync hk with ⟨_, hk1⟩
      rcases unknown_shift hsync hk1 with ⟨_, hk2⟩
      rcases unknown_shift hsync hk2 with ⟨_, hk3⟩
      rcases unknown_shift hsync hk3 with ⟨low4, hk4⟩
      have hecall : Boundary [.long 0x73 0x73 0x73 0x73 low4, ecallEncoding] 4 ecallEncoding :=
        Boundary.tail _ (Boundary.head _ _)
      have hv1 := (Visits.refl
        (sweepLen known (stream [.long 0x73 0x73 0x73 0x73 low4, ecallEncoding])) 0).step
      rw [sweepLen_unknown rfl hk4] at hv1
      have hv2 := hv1.step
      rw [sweepLen_unknown rfl hk4] at hv2
      by_cases hk5 : known (.long 0x73 0x73 0x73 0 low4) = true
      · have hlen : sweepLen known (stream [.long 0x73 0x73 0x73 0x73 low4, ecallEncoding])
            (0 + 1 + 1) = 4 := sweepLen_known rfl hk5
        exact not_sweeps_of_skip hv2 (by omega) (by omega)
          ((hsync [.long 0x73 0x73 0x73 0x73 low4, ecallEncoding] (Nat.le_refl 8) 4).mpr hecall)
      · have hv3 := hv2.step
        rw [sweepLen_unknown rfl hk5] at hv3
        exact not_visits_before hsync 0x73 [] hecall (Nat.le_refl 8) rfl hv3

end Sync

/-- A stream by itself in memory. -/
def streamMem (is : List Encoding) : Mem := fun a => (stream is).getD (a - 0x1000).toNat 0

theorem sectionAt_streamMem {is : List Encoding} (hshort : (stream is).length ≤ 64) :
    SectionAt (streamMem is) 0x1000 is := by
  refine ⟨by decide, ?_, ?_⟩
  · have hcode : (0x1000 : Addr).toNat = 4096 := rfl
    omega
  · intro i hi
    have hoff : (0x1000 + BitVec.ofNat 64 i - 0x1000 : Addr).toNat = i := by bv_omega
    rw [streamMem, hoff, List.getD_eq_getElem _ _ hi]

/-- When rewriting is exact. For one stream, if the sweep reports the `ecall`s
    of the stream; in particular, if every instruction of it is known. For all
    streams, only if every encoding is known. -/
theorem rewrite_exact_iff {known : Encoding → Bool} (hecall : known ecallEncoding = true)
    (memProt : Prot) :
    (∀ code m is, SectionAt m code is → (Exact known memProt code is m ↔
      ∀ o, SweepsEcall known (stream is) o ↔ Boundary is o ecallEncoding)) ∧
    (∀ code m is, SectionAt m code is → (∀ e ∈ is, known e = true) →
      Exact known memProt code is m) ∧
    ((∀ code m is, SectionAt m code is → Exact known memProt code is m) ↔
      ∀ e, known e = true) := by
  have hone : ∀ code m is, SectionAt m code is → (∀ e ∈ is, known e = true) →
      Exact known memProt code is m := fun code m is h hk =>
    (exact_iff_sweep hecall memProt h).mpr (sweep_of_known hk)
  refine ⟨fun code m is h => exact_iff_sweep hecall memProt h, hone, ?_, ?_⟩
  · intro hall e
    refine all_known_of_sweep (fun is hshort => ?_) e
    have hsec := sectionAt_streamMem (Nat.le_trans hshort (by decide))
    exact (exact_iff_sweep hecall memProt hsec).mp (hall _ _ _ hsec)
  · intro hk code m is h
    exact hone code m is h (fun e _ => hk e)

/-- `vsetvli t0, a0, e32, m1, ta, ma`, an instruction of the vector extension. -/
def vsetvli : Encoding := .long 0xd7 0x72 0x05 0x0d (by decide)

/-- `mv a0, a0`. -/
def mvEncoding : Encoding := .long 0x13 0x05 0x05 0x00 (by decide)

def nopEncoding : Encoding := .long 0x13 0 0 0 (by decide)

/-- `ld s0, 0(s0)`, compressed. -/
def ldEncoding : Encoding := .short 0x00 0x60 (by decide)

/-- A disassembler without `vsetvli`. -/
def withoutVector (e : Encoding) : Bool := e != vsetvli

/-- One that also fails on the halfword `0x0000`, which is no instruction. -/
def withoutVectorOrZero (e : Encoding) : Bool := e != vsetvli && e != .short 0 0 (by decide)

/-- `ecall; vsetvli …; mv a0, a0; ld s0, 0(s0); ecall`. -/
def vectorStream : List Encoding :=
  [ecallEncoding, vsetvli, mvEncoding, ldEncoding, ecallEncoding]

/-- The positions of the sweep over it. The sweep leaves the boundaries at the
    vector instruction and is back at the `ld`, since the bytes before it look
    like the halfword `0x0000`. -/
theorem vectorStream_visits :
    Visits (sweepLen withoutVectorOrZero (stream vectorStream)) 0 14 :=
  (Visits.refl _ 0).step.step.step.step.step.step.step

/-- Both `ecall`s are replaced although one encoding is unknown. -/
theorem rewrite_exact_iff_vector :
    withoutVectorOrZero vsetvli = false ∧
    Exact withoutVectorOrZero ⟨true, false, true⟩ 0x1000 vectorStream
      (streamMem vectorStream) := by
  refine ⟨by decide, ((rewrite_exact_iff (by decide) _).1 _ _ _
    (sectionAt_streamMem (by decide))).mpr (fun o => ?_)⟩
  have honly : ∀ o, o < 18 → Encoding.ofBytes ((stream vectorStream).drop o)
      = some ecallEncoding → o = 0 ∨ o = 14 := by decide
  have hfirst : Boundary vectorStream 0 ecallEncoding := Boundary.head _ _
  have hlast : Boundary vectorStream 14 ecallEncoding :=
    Boundary.tail _ (Boundary.tail _ (Boundary.tail _ (Boundary.tail _ (Boundary.head _ _))))
  constructor
  · rintro ⟨_, ho, hof⟩
    rcases honly o ho hof with rfl | rfl
    · exact hfirst
    · exact hlast
  · intro hb
    have hfits := hb.fits
    have hlen : (stream vectorStream).length = 18 := rfl
    have hsize : ecallEncoding.size = 4 := rfl
    rcases honly o (by omega) hb.ofBytes with rfl | rfl
    · exact ⟨Visits.refl _ _, by decide, rfl⟩
    · exact ⟨vectorStream_visits, by decide, rfl⟩

/-- An `ecall` after a vector instruction is not replaced: the sweep resumes
    inside the vector instruction and steps over the first byte of the
    `ecall`. -/
theorem vector_hides_ecall :
    disassembleAndRewrite (succeeding withoutVector) 0x1000 8 ⟨true, false, true⟩
        (streamMem [vsetvli, ecallEncoding])
      = .ok (streamMem [vsetvli, ecallEncoding]) ∧
    (streamMem [vsetvli, ecallEncoding]).read 0x1004 4 = 0x00000073#32 ∧
    ¬ Exact withoutVector ⟨true, false, true⟩ 0x1000 [vsetvli, ecallEncoding]
      (streamMem [vsetvli, ecallEncoding]) := by
  have hsec := sectionAt_streamMem (show (stream [vsetvli, ecallEncoding]).length ≤ 64 by decide)
  have hknown : withoutVector ecallEncoding = true := by decide
  -- The sweep visits 0, 1 and 3, and goes on to 5.
  have hv3 : Visits (sweepLen withoutVector (stream [vsetvli, ecallEncoding])) 0 3 :=
    (Visits.refl _ 0).step.step
  have hnone : ∀ o, ¬ SweepsEcall withoutVector (stream [vsetvli, ecallEncoding]) o := by
    intro o hs
    have honly : ∀ o, o < 8 → Encoding.ofBytes ((stream [vsetvli, ecallEncoding]).drop o)
        = some ecallEncoding → o = 4 := by decide
    have ho := honly o hs.2.1 hs.2.2
    subst ho
    exact not_sweeps_of_skip hv3 (by decide) (by decide) hs
  rcases rewrite_patchedAt hknown ⟨true, false, true⟩ hsec with ⟨m', hrun, hpat⟩
  have hsame : m' = streamMem [vsetvli, ecallEncoding] := by
    funext a
    refine hpat.outside a ?_
    rintro b ⟨o, hs, _⟩
    exact absurd hs (hnone o)
  rw [hsame] at hrun
  refine ⟨hrun, by decide, fun hexact => ?_⟩
  exact hnone 4 (((exact_iff_sweep hknown _ hsec).mp hexact 4).mpr
    (Boundary.tail _ (Boundary.head _ _)))

end Vpoline
