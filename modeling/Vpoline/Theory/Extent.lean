import Vpoline.Core.Startup
import Vpoline.Theory.Relocation

/-!
# The Extent of the Fresh Mapping

How much memory is mapped for the injected code, how much of it is made
executable, and whether the code is inside.

The size of the mapping is computed from the pages of `gp - 56` and `gp - 1`,
before anything is relocated. The size of the protection is computed from the
relocated start of the return sequence, and the kernel rounds it up to whole
pages. The two computations share no intermediate value, and they agree:
`protectedSize_eq` goes through the three positions that `gp` can have in its
page.

The code itself is another matter. Nothing in either computation knows about
the trampoline, which goes above the relocated `gp`, and the return sequence
goes below it even when `gp` is within 56 bytes of the start of its page.
`injectedInside_iff` says what is left.

## Main definitions

* `InjectedInside`: The injected code lies in the mapping.

## Theorems

* `startOffset_spec`: The offset of the return sequence in its page.
* `protectedSize_eq`: As much is protected as is mapped.
* `protected_iff_redirected`: What is made executable is what is redirected.
* `injectedInside_iff`: When the code is inside the mapping.
-/

namespace Vpoline

section

variable {gp page : Addr} {sysconf : BitVec 64} {g : Globals} {k : Nat}

/-- The layout is that of the page size and the page it was computed for. -/
theorem PageLayout.fields (h : PageLayout gp sysconf page g k) :
    g.pageSize = sysconf ∧ g.rsi.startAddr = g.rsi.relocatedGp - 56 ∧
      g.rsi.startOffset = (g.rsi.startAddr % sysconf).setWidth 32 := by
  have hres := h.result
  simp only [layout, allocateRetSequencePage, defineRetSequenceInfo, Except.ok.injEq] at hres
  subst hres
  exact ⟨rfl, rfl, rfl⟩

/-- The offset of the relocated return sequence in its page. It is the offset
    of `gp` minus 56, with a page borrowed if that is negative. -/
theorem startOffset_spec (h : PageLayout gp sysconf page g k) (hk : k ≤ 31) :
    g.rsi.startOffset.toNat =
      if 56 ≤ gp.toNat % 2 ^ k then gp.toNat % 2 ^ k - 56 else gp.toNat % 2 ^ k + 2 ^ k - 56 := by
  rcases h.fields with ⟨_, hstart, hoffset⟩
  have hsmall : 2 ^ k ≤ 2 ^ 31 := Nat.pow_le_pow_right (by omega) hk
  have hlarge := h.page_large
  have hmod := Nat.mod_lt gp.toNat (Nat.two_pow_pos k)
  have hrel : g.rsi.relocatedGp.toNat % 2 ^ k = gp.toNat % 2 ^ k := by
    rw [(layout_spec h).relocated, Nat.add_mod, h.aligned, Nat.zero_add, Nat.mod_mod, Nat.mod_mod]
  have hrem := toNat_sub_mod g.rsi.relocatedGp (d := 56) (k := k) (by omega) (by omega)
  rw [hrel] at hrem
  rw [hoffset, hstart, BitVec.toNat_setWidth, BitVec.toNat_umod, h.pow]
  refine (congrArg (fun n => n % 2 ^ 32) hrem).trans ?_
  by_cases hle : 56 ≤ gp.toNat % 2 ^ k
  · simp only [if_pos hle]
    omega
  · simp only [if_neg hle]
    omega

/-- As much is protected as is mapped: one page, or two if the return sequence
    crosses into the page of `gp`. -/
theorem protectedSize_eq (h : PageLayout gp sysconf page g k) (hk : k ≤ 31) :
    InitState.protectedSize g.pageSize
        (BitVec.ofNat 32 retSequenceSize + g.rsi.startOffset).toNat
      = g.rsi.protectionSize.toNat := by
  have hoffset := startOffset_spec h hk
  have hsmall : 2 ^ k ≤ 2 ^ 31 := Nat.pow_le_pow_right (by omega) hk
  have hlarge := h.page_large
  have hmod := Nat.mod_lt gp.toNat (Nat.two_pow_pos k)
  have hsum : (BitVec.ofNat 32 retSequenceSize + g.rsi.startOffset).toNat
      = 56 + g.rsi.startOffset.toNat := by
    rw [BitVec.toNat_add, BitVec.toNat_ofNat, retSequenceSize]
    split at hoffset <;> omega
  rw [InitState.protectedSize, h.fields.1, h.pow, hsum, (layout_spec h).size, hoffset]
  -- `gp` far enough into its page, at its start, or in between.
  by_cases hle : 56 ≤ gp.toNat % 2 ^ k
  · rw [if_pos hle, if_pos (Or.inl hle), div_mul_eq_of_le (c := 0) (by omega) (by omega)]
    omega
  · by_cases hzero : gp.toNat % 2 ^ k = 0
    · rw [if_neg hle, if_pos (Or.inr hzero), div_mul_eq_of_le (c := 0) (by omega) (by omega)]
      omega
    · rw [if_neg hle, if_neg (by omega), div_mul_eq_of_le (c := 1) (by omega) (by omega)]
      omega

/-- What `setup_return` makes executable is what is mapped and what the fault
    handler redirects, and it is one page or two. -/
theorem protected_iff_redirected (h : PageLayout gp sysconf page g k) (hk : k ≤ 31) :
    InitState.protectedSize g.pageSize
        (BitVec.ofNat 32 retSequenceSize + g.rsi.startOffset).toNat
      = g.rsi.protectionSize.toNat ∧
    (g.rsi.protectionSize.toNat = 2 ^ k ∨ g.rsi.protectionSize.toNat = 2 * 2 ^ k) ∧
    (∀ a, protectedByte g a = mappedByte g a) ∧
    (∀ a, protectedByte g a = true ↔ xomStart g.rsi ≤ a ∧ a ≤ xomEnd g.rsi) ∧
    (∀ a, protectedByte g a = true ↔ (backupAddr g.rsi a).isSome = true) := by
  have hsize := protectedSize_eq h hk
  have hmapped : ∀ a, protectedByte g a = mappedByte g a := by
    intro a
    unfold protectedByte mappedByte
    rw [hsize]
  -- The mapping does not wrap around, so it is an interval of numbers.
  have hrange : ∀ a, protectedByte g a = true ↔
      page.toNat ≤ a.toNat ∧ a.toNat < page.toNat + g.rsi.protectionSize.toNat := by
    intro a
    have hfits := h.fits
    rw [hmapped, mappedByte, decide_eq_true_iff, (layout_spec h).mapping]
    bv_omega
  have hxom : ∀ a, (xomStart g.rsi ≤ a ∧ a ≤ xomEnd g.rsi) ↔
      (backupAddr g.rsi a).isSome = true := by
    intro a
    unfold backupAddr
    by_cases hout : a < xomStart g.rsi ∨ a > xomEnd g.rsi
    · rw [if_pos hout]
      simp only [Option.isSome_none, Bool.false_eq_true, iff_false]
      bv_omega
    · rw [if_neg hout]
      simp only [Option.isSome_some, iff_true]
      bv_omega
  refine ⟨hsize, ?_, hmapped, ?_, ?_⟩
  · rw [(layout_spec h).size]
    split
    · exact Or.inl rfl
    · exact Or.inr rfl
  · intro a
    rw [hrange, hxom, backupAddr_isSome h]
  · intro a
    rw [hrange, backupAddr_isSome h]

/-- A layout with two pages: `gp` is 16 bytes into its own. -/
theorem protected_iff_redirected_two :
    ∃ g, layout 0x12010 4096 (some 0x7f0000000000) = .ok g ∧
      InitState.protectedSize g.pageSize
          (BitVec.ofNat 32 retSequenceSize + g.rsi.startOffset).toNat
        = g.rsi.protectionSize.toNat ∧
      (g.rsi.protectionSize.toNat = 2 ^ 12 ∨ g.rsi.protectionSize.toNat = 2 * 2 ^ 12) ∧
      (∀ a, protectedByte g a = mappedByte g a) ∧
      (∀ a, protectedByte g a = true ↔ xomStart g.rsi ≤ a ∧ a ≤ xomEnd g.rsi) ∧
      (∀ a, protectedByte g a = true ↔ (backupAddr g.rsi a).isSome = true) :=
  ⟨_, rfl, protected_iff_redirected
    ⟨by decide, by decide, by decide, by decide, rfl, by decide⟩ (by decide)⟩

/-- The bytes that `setup_return` and `setup_shadow_page_trampoline` write are
    bytes of the mapping. -/
def InjectedInside (dst : Addr) (g : Globals) : Prop :=
  (∀ i, i < 4 * setupReturn.length →
    mappedByte g (g.rsi.startAddr + BitVec.ofNat 64 i) = true) ∧
  (∀ i, i < 4 * (setupShadowPageTrampoline dst).length →
    mappedByte g (g.rsi.relocatedGp + BitVec.ofNat 64 i) = true)

/-- The code is inside the mapping exactly if the 136 bytes around `gp` lie in
    the page of `gp`. -/
theorem injectedInside_iff (h : PageLayout gp sysconf page g k) (dst : Addr) :
    InjectedInside dst g ↔ 56 ≤ gp.toNat % 2 ^ k ∧ gp.toNat % 2 ^ k + 80 ≤ 2 ^ k := by
  have hspec := layout_spec h
  have hrel := hspec.relocated
  have hsize := hspec.size
  have hfits := h.fits
  have hlarge := h.page_large
  have hsmall := h.page_small
  have hmod := Nat.mod_lt gp.toNat (Nat.two_pow_pos k)
  have hstart := h.fields.2.1
  have hmapped : ∀ a, mappedByte g a = true ↔ (a - page).toNat < g.rsi.protectionSize.toNat := by
    intro a
    rw [mappedByte, decide_eq_true_iff, hspec.mapping]
  simp only [InjectedInside, hmapped, length_return, length_trampoline, retSequenceSize, hstart]
  constructor
  · rintro ⟨hreturn, htramp⟩
    -- The first byte of the return sequence and the last of the trampoline decide.
    have hfirst := hreturn 0 (by omega)
    have hlast := htramp 79 (by omega)
    have hlow : 56 ≤ gp.toNat % 2 ^ k := by
      by_contra hlt
      split at hsize <;> bv_omega
    refine ⟨hlow, ?_⟩
    rw [if_pos (Or.inl hlow)] at hsize
    bv_omega
  · rintro ⟨hlow, hhigh⟩
    rw [if_pos (Or.inl hlow)] at hsize
    constructor
    · intro i hi
      bv_omega
    · intro i hi
      bv_omega

/-- A `gp` in the middle of its page leaves room on both sides. -/
theorem injectedInside_iff_middle :
    ∃ g, layout 0x12800 4096 (some 0x7f0000000000) = .ok g ∧
      (InjectedInside 0x30000 g ↔ 56 ≤ (0x12800 : Addr).toNat % 2 ^ 12 ∧
        (0x12800 : Addr).toNat % 2 ^ 12 + 80 ≤ 2 ^ 12) :=
  ⟨_, rfl, injectedInside_iff
    ⟨by decide, by decide, by decide, by decide, rfl, by decide⟩ 0x30000⟩

/-- With `gp` 64 bytes below the end of its page the trampoline runs past the
    mapping, and with `gp` 16 bytes into its page the return sequence starts
    before it. -/
theorem injected_outside :
    (∃ g, layout 0x12fc0 4096 (some 0x7f0000000000) = .ok g ∧
      g.rsi.relocatedGp = 0x7f0000000fc0 ∧ g.rsi.protectionSize = 0x1000 ∧
      ¬ InjectedInside 0x30000 g) ∧
    ∃ g, layout 0x12010 4096 (some 0x7f0000000000) = .ok g ∧
      g.rsi.startAddr = 0x7effffffffd8 ∧ ¬ InjectedInside 0x30000 g := by
  constructor
  · refine ⟨_, rfl, by decide, by decide, fun h => ?_⟩
    exact absurd (h.2 79 (by decide)) (by decide)
  · refine ⟨_, rfl, by decide, fun h => ?_⟩
    exact absurd (h.1 0 (by decide)) (by decide)

end

end Vpoline
