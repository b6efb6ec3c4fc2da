import Vpoline.Core.Layout

/-!
# Undoing the Relocation of `gp`

Whether an access relative to the relocated `gp` reaches the byte it would
have reached before, as a question about where `gp` lies in its page.

`PageLayout` collects what is assumed about a process: a power-of-two page
size, an original `gp` that is not at the bottom of memory, and a mapping
that is page-aligned and inside the address space. `layout_spec` evaluates
the whole computation once under these assumptions, in natural numbers; the
results are arithmetic over it.

The handler's base `start_addr_page` is the page of `gp - 56`, while the new
`gp` has the offset that `gp` has in its own page. The two pages differ when
`gp` is within 56 bytes of the start of its page, and then every access is
redirected one page too low. The range that is protected is that of the
return sequence, so it covers the 4 KiB window that a 12-bit offset can span
only if that window happens to lie in the page of `gp`.

## Main definitions

* `PageLayout`: The assumptions on a process.
* `RedirectsBack`: Every accepted fault reaches its original address.
* `CatchesAll`: Every `gp`-relative access is in the protected range.

## Theorems

* `layout_spec`: The fields of the layout.
* `backupAddr_isSome`: Which addresses are accepted.
* `redirectsBack_iff`: When accesses reach their original address.
* `catchesAll_iff`: When every `gp`-relative access is caught.
-/

namespace Vpoline

/-- What is assumed of the process: page size `2 ^ k` of at least 4096, the
    original `gp` at least two pages above zero, and a page-aligned mapping
    `page` that ends inside the address space. -/
structure PageLayout (gp : Addr) (sysconf : BitVec 64) (page : Addr) (g : Globals)
    (k : Nat) : Prop where
  pow : sysconf.toNat = 2 ^ k
  large : 12 ≤ k
  above : 2 * 2 ^ k ≤ gp.toNat
  aligned : page.toNat % 2 ^ k = 0
  result : layout gp sysconf (some page) = .ok g
  fits : page.toNat + g.rsi.protectionSize.toNat ≤ 2 ^ 64

section

variable {gp page : Addr} {sysconf : BitVec 64} {g : Globals} {k : Nat}

theorem PageLayout.bits (h : PageLayout gp sysconf page g k) : k ≤ 62 := by
  by_contra hk
  have hpow : 2 ^ 63 ≤ 2 ^ k := Nat.pow_le_pow_right (by omega) (by omega)
  have hgp := gp.isLt
  have habove := h.above
  omega

theorem PageLayout.page_small (h : PageLayout gp sysconf page g k) : 2 ^ k ≤ 2 ^ 62 :=
  Nat.pow_le_pow_right (by omega) h.bits

theorem PageLayout.page_large (h : PageLayout gp sysconf page g k) : 4096 ≤ 2 ^ k :=
  Nat.pow_le_pow_right (n := 2) (by omega) h.large

/-- An address one to 56 bytes below `gp`, rounded down to its page: the page
    of `gp` or the one before, as the offset of `gp` decides. -/
theorem alignDown_below (h : PageLayout gp sysconf page g k) {d : Nat} (hd : d ≤ 56) :
    (alignDown (gp - BitVec.ofNat 64 d) sysconf).toNat
      = if d ≤ gp.toNat % 2 ^ k then gp.toNat - gp.toNat % 2 ^ k
        else gp.toNat - gp.toNat % 2 ^ k - 2 ^ k := by
  have hlarge := h.page_large
  have habove := h.above
  have hbits := h.bits
  have hmod := Nat.mod_lt gp.toNat (Nat.two_pow_pos k)
  have hsub : (gp - BitVec.ofNat 64 d).toNat = gp.toNat - d := by bv_omega
  have hrem := toNat_sub_mod gp (d := d) (k := k) (by omega) (by omega)
  rw [toNat_alignDown _ _ k (by omega) h.pow, hrem, hsub]
  by_cases hle : d ≤ gp.toNat % 2 ^ k
  · rw [if_pos hle, if_pos hle]
    omega
  · -- One page is borrowed, and there are at least two.
    rw [if_neg hle, if_neg hle]
    omega

/-- The layout in natural numbers: `off` is the offset of `gp` in its page. -/
structure LayoutSpec (gp page : Addr) (P : Nat) (g : Globals) : Prop where
  mapping : g.rsi.retSequencePageAddr = page
  relocated : g.rsi.relocatedGp.toNat = page.toNat + gp.toNat % P
  startPage : g.rsi.startAddrPage.toNat =
    if 56 ≤ gp.toNat % P then gp.toNat - gp.toNat % P else gp.toNat - gp.toNat % P - P
  size : g.rsi.protectionSize.toNat =
    if 56 ≤ gp.toNat % P ∨ gp.toNat % P = 0 then P else 2 * P

theorem layout_spec (h : PageLayout gp sysconf page g k) : LayoutSpec gp page (2 ^ k) g := by
  have hlarge := h.page_large
  have habove := h.above
  have hgp := gp.isLt
  have hmod := Nat.mod_lt gp.toNat (Nat.two_pow_pos k)
  have hstart := alignDown_below h (d := 56) (by omega)
  have hend := alignDown_below h (d := 1) (by omega)
  have hfits := h.fits
  have hres := h.result
  simp only [layout, allocateRetSequencePage, defineRetSequenceInfo, Except.ok.injEq] at hres
  have hoff : (gp % sysconf).toNat = gp.toNat % 2 ^ k := by
    rw [BitVec.toNat_umod, h.pow]
  -- The difference of the two pages is nothing or one page.
  have hsize : (alignDown (gp - 1) sysconf
      - alignDown (gp - BitVec.ofNat 64 retSequenceSize) sysconf + sysconf).toNat
      = if 56 ≤ gp.toNat % 2 ^ k ∨ gp.toNat % 2 ^ k = 0 then 2 ^ k else 2 * 2 ^ k := by
    have hle : (alignDown (gp - BitVec.ofNat 64 56) sysconf).toNat
        ≤ (alignDown (gp - BitVec.ofNat 64 1) sysconf).toNat := by
      rw [hstart, hend]
      split <;> split <;> omega
    have hpow := h.pow
    have hdiff : (alignDown (gp - BitVec.ofNat 64 1) sysconf
        - alignDown (gp - BitVec.ofNat 64 56) sysconf).toNat
        = (alignDown (gp - BitVec.ofNat 64 1) sysconf).toNat
          - (alignDown (gp - BitVec.ofNat 64 56) sysconf).toNat :=
      BitVec.toNat_sub_of_le hle
    have hsum := BitVec.toNat_add (alignDown (gp - BitVec.ofNat 64 1) sysconf
        - alignDown (gp - BitVec.ofNat 64 56) sysconf) sysconf
    rw [hdiff, hpow, hstart, hend] at hsum
    refine hsum.trans ?_
    split <;> split <;> split <;> omega
  subst hres
  refine ⟨rfl, ?_, hstart, hsize⟩
  -- The offset of `gp` is inside the mapping.
  have hfits' : page.toNat + gp.toNat % 2 ^ k < 2 ^ 64 := by
    refine Nat.lt_of_lt_of_le (Nat.add_lt_add_left ?_ _) hfits
    rw [hsize]
    split <;> omega
  show (page + gp % sysconf).toNat = _
  rw [BitVec.toNat_add, hoff, Nat.mod_eq_of_lt hfits']

/-- The handler accepts exactly the addresses of the mapping. -/
theorem backupAddr_isSome (h : PageLayout gp sysconf page g k) (f : Addr) :
    (backupAddr g.rsi f).isSome ↔
      page.toNat ≤ f.toNat ∧ f.toNat < page.toNat + g.rsi.protectionSize.toNat := by
  have hspec := layout_spec h
  have hlarge := h.page_large
  have hfits := h.fits
  have hsize := hspec.size
  have hpos : 1 ≤ g.rsi.protectionSize.toNat := by
    rw [hsize]
    split <;> omega
  simp only [backupAddr, xomEnd, xomStart, hspec.mapping]
  by_cases hout : f < page ∨ f > page + g.rsi.protectionSize - 1
  · rw [if_pos hout]
    simp only [Option.isSome_none, Bool.false_eq_true, false_iff]
    bv_omega
  · rw [if_neg hout]
    simp only [Option.isSome_some, true_iff]
    bv_omega

theorem backupAddr_eq {rsi : ReturnSequenceInfo} {f b : Addr} (h : backupAddr rsi f = some b) :
    b = rsi.startAddrPage + (f - rsi.retSequencePageAddr) := by
  rw [backupAddr] at h
  by_cases hout : f < xomStart rsi ∨ f > xomEnd rsi
  · rw [if_pos hout] at h
    exact absurd h (by simp only [reduceCtorEq, not_false_eq_true])
  · rw [if_neg hout, Option.some.injEq] at h
    exact h.symm

/-- Every fault the handler accepts is redirected to the address that the
    access would have had relative to the original `gp`. -/
def RedirectsBack (gp : Addr) (rsi : ReturnSequenceInfo) : Prop :=
  ∀ f b, backupAddr rsi f = some b → b = f - rsi.relocatedGp + gp

/-- Redirection is a translation, so it is right everywhere if it is right at
    the start of the mapping. -/
theorem redirectsBack_iff_offset (h : PageLayout gp sysconf page g k) :
    RedirectsBack gp g.rsi ↔
      g.rsi.relocatedGp - g.rsi.retSequencePageAddr = gp - g.rsi.startAddrPage := by
  constructor
  · intro hback
    have hacc : (backupAddr g.rsi page).isSome := by
      rw [backupAddr_isSome h]
      have hlarge := h.page_large
      have hsize := (layout_spec h).size
      refine ⟨Nat.le_refl _, Nat.lt_add_of_pos_right ?_⟩
      rw [hsize]
      split <;> omega
    rcases Option.isSome_iff_exists.mp hacc with ⟨b, hb⟩
    have hval := hback page b hb
    have hbase := backupAddr_eq hb
    rw [(layout_spec h).mapping] at hbase ⊢
    bv_omega
  · intro heq f b hb
    have hbase := backupAddr_eq hb
    bv_omega

theorem offset_eq_iff (h : PageLayout gp sysconf page g k) :
    g.rsi.relocatedGp - g.rsi.retSequencePageAddr = gp - g.rsi.startAddrPage ↔
      56 ≤ gp.toNat % 2 ^ k := by
  have hspec := layout_spec h
  have hlarge := h.page_large
  have habove := h.above
  have hmod := Nat.mod_lt gp.toNat (Nat.two_pow_pos k)
  have hrel := hspec.relocated
  have hstart := hspec.startPage
  rw [hspec.mapping]
  have hleft : (g.rsi.relocatedGp - page).toNat = gp.toNat % 2 ^ k := by bv_omega
  -- `start_addr_page` is one page lower if `gp - 56` is.
  have hright : (gp - g.rsi.startAddrPage).toNat
      = if 56 ≤ gp.toNat % 2 ^ k then gp.toNat % 2 ^ k else gp.toNat % 2 ^ k + 2 ^ k := by
    have hgp := gp.isLt
    split at hstart
    · rw [if_pos (by assumption)]
      bv_omega
    · rw [if_neg (by assumption)]
      bv_omega
  rw [← BitVec.toNat_inj, hleft, hright]
  by_cases h56 : 56 ≤ gp.toNat % 2 ^ k
  · rw [if_pos h56]
    exact ⟨fun _ => h56, fun _ => rfl⟩
  · rw [if_neg h56]
    constructor
    · intro heq
      omega
    · intro hc
      exact absurd hc h56

/-- Redirection undoes the relocation exactly if the return sequence fits
    below `gp` in the page of `gp`. -/
theorem redirectsBack_iff (h : PageLayout gp sysconf page g k) :
    (RedirectsBack gp g.rsi ↔ 56 ≤ gp.toNat % 2 ^ k) ∧
      (g.rsi.relocatedGp - g.rsi.retSequencePageAddr = gp - g.rsi.startAddrPage ↔
        56 ≤ gp.toNat % 2 ^ k) :=
  ⟨(redirectsBack_iff_offset h).trans (offset_eq_iff h), offset_eq_iff h⟩

/-- A `gp` in the middle of its page is relocated correctly. -/
theorem redirectsBack_iff_middle :
    ∃ g, layout 0x12800 4096 (some 0x7f0000000000) = .ok g ∧
      (RedirectsBack 0x12800 g.rsi ↔ 56 ≤ (0x12800 : Addr).toNat % 2 ^ 12) ∧
      (g.rsi.relocatedGp - g.rsi.retSequencePageAddr = 0x12800 - g.rsi.startAddrPage ↔
        56 ≤ (0x12800 : Addr).toNat % 2 ^ 12) :=
  ⟨_, rfl, redirectsBack_iff ⟨by decide, by decide, by decide, by decide, rfl, by decide⟩⟩

/-- With `gp` 16 bytes into its page, an access to `gp` itself is redirected
    to `0x11010`, one page below the original `gp`. -/
theorem redirected_too_low :
    ∃ g, layout 0x12010 4096 (some 0x7f0000000000) = .ok g ∧
      g.rsi.relocatedGp = 0x7f0000000010 ∧
      backupAddr g.rsi g.rsi.relocatedGp = some 0x11010 ∧ ¬ RedirectsBack 0x12010 g.rsi := by
  refine ⟨_, rfl, by decide, by decide, fun hback => ?_⟩
  exact absurd (hback 0x7f0000000010 0x11010 (by decide)) (by decide)

/-- Every access relative to the relocated `gp` faults in the protected range
    and is redirected. -/
def CatchesAll (rsi : ReturnSequenceInfo) : Prop :=
  ∀ imm : BitVec 12, (backupAddr rsi (rsi.relocatedGp + imm.signExtend 64)).isSome

theorem toInt_imm_bounds (imm : BitVec 12) : -2048 ≤ imm.toInt ∧ imm.toInt ≤ 2047 := by
  have := BitVec.le_toInt imm
  have := BitVec.toInt_lt (x := imm)
  omega

/-- Every `gp`-relative access is caught exactly if the 4 KiB window around
    `gp` lies in its page. -/
theorem catchesAll_iff (h : PageLayout gp sysconf page g k) :
    CatchesAll g.rsi ↔ 2048 ≤ gp.toNat % 2 ^ k ∧ gp.toNat % 2 ^ k + 2048 ≤ 2 ^ k := by
  have hspec := layout_spec h
  have hlarge := h.page_large
  have habove := h.above
  have hmod := Nat.mod_lt gp.toNat (Nat.two_pow_pos k)
  have hrel := hspec.relocated
  have hsize := hspec.size
  have hfits := h.fits
  have hsmall := h.page_small
  simp only [CatchesAll, backupAddr_isSome h]
  constructor
  · intro hall
    -- The two ends of the window decide.
    have hlow := hall (-2048)
    have hhigh := hall 2047
    rw [show (-2048 : BitVec 12).signExtend 64 = -2048 by decide] at hlow
    rw [show (2047 : BitVec 12).signExtend 64 = 2047 by decide] at hhigh
    have hoff : 2048 ≤ gp.toNat % 2 ^ k := by
      by_contra hlt
      split at hsize <;> bv_omega
    refine ⟨hoff, ?_⟩
    rw [if_pos (Or.inl (by omega))] at hsize
    bv_omega
  · rintro ⟨hlow, hhigh⟩ imm
    rw [if_pos (Or.inl (by omega))] at hsize
    have himm := toInt_imm_bounds imm
    have hnat : (imm.signExtend 64).toInt = imm.toInt := BitVec.toInt_signExtend_of_le (by omega)
    have hword : (imm.signExtend 64).toNat = (imm.toInt % 2 ^ 64).toNat := by
      rw [← hnat, BitVec.toInt_eq_toNat_cond]
      have := (imm.signExtend 64).isLt
      split <;> omega
    bv_omega

/-- A `gp` in the exact middle of a 4 KiB page is the one case for that size. -/
theorem catchesAll_iff_middle :
    ∃ g, layout 0x12800 4096 (some 0x7f0000000000) = .ok g ∧
      (CatchesAll g.rsi ↔ 2048 ≤ (0x12800 : Addr).toNat % 2 ^ 12 ∧
        (0x12800 : Addr).toNat % 2 ^ 12 + 2048 ≤ 2 ^ 12) :=
  ⟨_, rfl, catchesAll_iff ⟨by decide, by decide, by decide, by decide, rfl, by decide⟩⟩

/-- With `gp` at offset `0x900` of its page, the access at `gp + 2047` is
    outside the protected range. -/
theorem access_not_caught :
    ∃ g, layout 0x12900 4096 (some 0x7f0000000000) = .ok g ∧
      backupAddr g.rsi (g.rsi.relocatedGp + (2047 : BitVec 12).signExtend 64) = none ∧
      ¬ CatchesAll g.rsi := by
  refine ⟨_, rfl, by decide, fun hall => ?_⟩
  exact absurd (hall 2047) (by decide)

end

end Vpoline
