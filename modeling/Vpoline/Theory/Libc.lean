import Vpoline.Theory.Maps
import Vpoline.Theory.Rewrite

/-!
# From the Memory Map to the Rewritten libc

`rewrite_code` and `disassemble_and_rewrite` together: a text goes in, and
memory is changed. The mappings are rewritten one after the other, so a
mapping that comes late in the text is decoded in a memory that already has
been changed, and one that comes early must survive what follows.

For a map as the kernel prints it, with mappings that do not overlap, and a
disassembler that knows the instructions of libc, the outcome is what the
function is for: each executable mapping of libc holds its own instructions
with `jalr gp, gp, 0` in place of `ecall`, and everything else is as before.
Doing it once more changes nothing, so it does not matter how often vpoline is
loaded, as far as the text of libc is concerned.

## Main definitions

* `Mapping.covers`: The bytes of a mapping.
* `LibcText`: The instructions of libc are in memory.
* `LibcPatched`: They have been rewritten, and nothing else has.

## Theorems

* `mapping_patched`: One mapping.
* `mappings_patched`: All of them. The induction is on the mappings.
* `rewriteCode_libc`: `rewrite_code`, and a second run of it.
-/

namespace Vpoline

/-- The bytes of a mapping. -/
def Mapping.covers (mp : Mapping) (a : Addr) : Prop :=
  mp.fromAddr ≤ a.toNat ∧ a.toNat < mp.toAddr

/-- Each executable mapping of libc holds the instructions `code` says, all of
    them known. The kernel lists mappings by their addresses. -/
structure LibcText (known : Encoding → Bool) (code : Mapping → List Encoding) (m : Mem)
    (ms : List Mapping) : Prop where
  sorted : ms.Pairwise (fun mp mp' => mp.toAddr ≤ mp'.fromAddr)
  bytes : ∀ mp ∈ ms, mp.isRewritten = true →
    BytesAt m (BitVec.ofNat 64 mp.fromAddr) (stream (code mp))
  size : ∀ mp ∈ ms, mp.isRewritten = true → (stream (code mp)).length = mp.toAddr - mp.fromAddr
  known : ∀ mp ∈ ms, mp.isRewritten = true → ∀ e ∈ code mp, known e = true

/-- The instructions have been rewritten, and no other byte has changed. -/
structure LibcPatched (code : Mapping → List Encoding) (ms : List Mapping) (m m' : Mem) :
    Prop where
  bytes : ∀ mp ∈ ms, mp.isRewritten = true →
    BytesAt m' (BitVec.ofNat 64 mp.fromAddr) (stream ((code mp).map patchEcall))
  other : ∀ a, (∀ mp ∈ ms, mp.isRewritten = true → ¬ mp.covers a) → m' a = m a

section Mappings

variable {known : Encoding → Bool} {code : Mapping → List Encoding} {m m' : Mem}
  {mp : Mapping} {ms : List Mapping}

/-- The offset of a byte is inside the size of the mapping if the mapping
    covers it. -/
theorem Mapping.covers_iff (a : Addr) :
    mp.covers a ↔ (a - BitVec.ofNat 64 mp.fromAddr).toNat < mp.toAddr - mp.fromAddr := by
  have hlt := mp.lt
  have hfits := mp.fits
  unfold Mapping.covers
  constructor
  · rintro ⟨hlow, hhigh⟩
    bv_omega
  · intro h
    bv_omega

theorem Mapping.fromAddr_ne_zero (h : mp.isRewritten = true) : mp.fromAddr ≠ 0 := by
  simp only [Mapping.isRewritten, Bool.and_eq_true, decide_eq_true_eq] at h
  exact h.2

/-- What a stream in memory says about bytes is kept where no byte changes. -/
theorem bytesAt_of_covers {bs : List Byte} (hlen : bs.length = mp.toAddr - mp.fromAddr)
    (heq : ∀ a, mp.covers a → m' a = m a) (h : BytesAt m (BitVec.ofNat 64 mp.fromAddr) bs) :
    BytesAt m' (BitVec.ofNat 64 mp.fromAddr) bs := by
  intro k hk
  have hlt := mp.lt
  have hfits := mp.fits
  rw [heq _ (mp.covers_iff _ |>.mpr (by bv_omega))]
  exact h k hk

theorem LibcText.tail (h : LibcText known code m (mp :: ms)) : LibcText known code m ms :=
  ⟨h.sorted.of_cons, fun q hq => h.bytes q (List.mem_cons_of_mem _ hq),
    fun q hq => h.size q (List.mem_cons_of_mem _ hq),
    fun q hq => h.known q (List.mem_cons_of_mem _ hq)⟩

/-- Mappings that come later are elsewhere. -/
theorem LibcText.apart (h : LibcText known code m (mp :: ms)) {q : Mapping} (hq : q ∈ ms)
    {a : Addr} (ha : mp.covers a) : ¬ q.covers a := by
  have hle := List.rel_of_pairwise_cons h.sorted hq
  rintro ⟨hlow, _⟩
  have hhigh := ha.2
  omega

/-- The text in a memory that differs outside of it only. -/
theorem LibcText.congr (h : LibcText known code m ms)
    (heq : ∀ q ∈ ms, q.isRewritten = true → ∀ a, q.covers a → m' a = m a) :
    LibcText known code m' ms :=
  ⟨h.sorted, fun q hq hr => bytesAt_of_covers (h.size q hq hr) (heq q hq hr) (h.bytes q hq hr),
    h.size, h.known⟩

/-- Replacing `ecall` does not move anything. -/
theorem length_stream_patchEcall (is : List Encoding) :
    (stream (is.map patchEcall)).length = (stream is).length := by
  induction is with
  | nil => rfl
  | cons e is ih => rw [List.map_cons, length_stream_cons, length_stream_cons, size_patchEcall, ih]

/-- One mapping. -/
theorem mapping_patched (hecall : known ecallEncoding = true)
    (h : LibcText known code m (mp :: ms)) (hr : mp.isRewritten = true) :
    ∃ m', disassembleAndRewrite (succeeding known) mp.rewriteArgs.code mp.rewriteArgs.codeSize
        mp.rewriteArgs.memProt m = .ok m' ∧
      BytesAt m' (BitVec.ofNat 64 mp.fromAddr) (stream ((code mp).map patchEcall)) ∧
      ∀ a, ¬ mp.covers a → m' a = m a := by
  have hsize := h.size mp List.mem_cons_self hr
  have hnonzero := mp.fromAddr_ne_zero hr
  have hlt := mp.lt
  have hfits := mp.fits
  -- A mapping is a section, and the disassembler knows all that is in it.
  have hsection : SectionAt m (BitVec.ofNat 64 mp.fromAddr) (code mp) :=
    ⟨by bv_omega, by bv_omega, h.bytes mp List.mem_cons_self hr⟩
  have hexact := (exact_iff_sweep hecall mp.rewriteArgs.memProt hsection).mpr
    (sweep_of_known (h.known mp List.mem_cons_self hr))
  rcases hexact with ⟨m', hrun, hbytes, hother⟩
  rw [hsize] at hrun hother
  exact ⟨m', hrun, hbytes, fun a ha => hother a (Nat.le_of_not_lt (fun hin =>
    ha ((mp.covers_iff a).mpr hin)))⟩

/-- All mappings, in the order of the text. Each finds its own bytes as they
    were, and leaves those of the others alone. -/
theorem mappings_patched (hecall : known ecallEncoding = true) :
    ∀ (ms : List Mapping) (m : Mem), LibcText known code m ms →
      ∃ m', ((ms.filter Mapping.isRewritten).map Mapping.rewriteArgs).foldlM
          (fun m args => disassembleAndRewrite (succeeding known) args.code args.codeSize
            args.memProt m) m = .ok m' ∧
        LibcPatched code ms m m' := by
  intro ms
  induction ms with
  | nil =>
      intro m _
      exact ⟨m, rfl, fun mp hmp => absurd hmp List.not_mem_nil, fun _ _ => rfl⟩
  | cons mp ms ih =>
      intro m h
      rw [List.filter_cons]
      by_cases hr : mp.isRewritten = true
      · rw [if_pos hr, List.map_cons, List.foldlM_cons]
        rcases mapping_patched hecall h hr with ⟨m₁, hrun, hbytes, hother⟩
        -- The later mappings are not touched by the first one.
        have htail : LibcText known code m₁ ms := h.tail.congr (fun q hq _ a ha =>
          hother a (fun hmp => h.apart hq hmp ha))
        rcases ih m₁ htail with ⟨m₂, hrest, hpatched⟩
        have hsize := h.size mp List.mem_cons_self hr
        have hlen : (stream ((code mp).map patchEcall)).length = mp.toAddr - mp.fromAddr := by
          rw [length_stream_patchEcall, hsize]
        rw [hrun]
        refine ⟨m₂, hrest, fun q hq hqr => ?_, fun a ha => ?_⟩
        · rcases List.mem_cons.mp hq with rfl | hq
          · -- And the first one is not touched by the later ones.
            exact bytesAt_of_covers hlen (fun a ha => hpatched.other a (fun q' hq' _ =>
              h.apart hq' ha)) hbytes
          · exact hpatched.bytes q hq hqr
        · rw [hpatched.other a (fun q hq => ha q (List.mem_cons_of_mem _ hq)),
            hother a (ha mp List.mem_cons_self hr)]
      -- Lines of other files and of data are skipped.
      · rw [if_neg hr]
        rcases ih m h.tail with ⟨m', hrest, hpatched⟩
        refine ⟨m', hrest, fun q hq hqr => ?_, fun a ha => ?_⟩
        · rcases List.mem_cons.mp hq with rfl | hq
          · exact absurd hqr hr
          · exact hpatched.bytes q hq hqr
        · exact hpatched.other a (fun q hq => ha q (List.mem_cons_of_mem _ hq))

/-- The same for the text in which the mappings are printed. -/
theorem text_patched (hecall : known ecallEncoding = true) (h : LibcText known code m ms) :
    ∃ m', rewriteCode (disassembleAndRewrite (succeeding known)) (.ok (printMaps ms)) m = .ok m' ∧
      LibcPatched code ms m m' := by
  rw [rewriteCode_ok, rewriteLines_eq, textArgs_printMaps]
  exact mappings_patched hecall ms m h

/-- Rewritten text is text again, and has nothing to be replaced in it. -/
theorem LibcPatched.text (h : LibcText known code m ms) (hjalr : known jalrEncoding = true)
    (hp : LibcPatched code ms m m') :
    LibcText known (fun mp => (code mp).map patchEcall) m' ms := by
  refine ⟨h.sorted, hp.bytes, fun mp hmp hr => ?_, fun mp hmp hr e he => ?_⟩
  · rw [length_stream_patchEcall, h.size mp hmp hr]
  · rcases List.mem_map.mp he with ⟨e', he', rfl⟩
    unfold patchEcall
    by_cases hecall : e' = ecallEncoding
    · rw [if_pos hecall]
      exact hjalr
    · rw [if_neg hecall]
      exact h.known mp hmp hr e' he'

theorem patchEcall_patchEcall (e : Encoding) : patchEcall (patchEcall e) = patchEcall e := by
  unfold patchEcall
  by_cases he : e = ecallEncoding
  · rw [if_pos he]
    decide
  · rw [if_neg he, if_neg he]

/-- Rewriting what has been rewritten changes nothing. -/
theorem LibcPatched.again {m'' : Mem} (h : LibcText known code m ms)
    (hp : LibcPatched code ms m m')
    (hp' : LibcPatched (fun mp => (code mp).map patchEcall) ms m' m'') : m'' = m' := by
  funext a
  by_cases hin : ∃ mp ∈ ms, mp.isRewritten = true ∧ mp.covers a
  · -- Inside libc both hold the same instructions.
    rcases hin with ⟨mp, hmp, hr, hcov⟩
    have hsame : ((code mp).map patchEcall).map patchEcall = (code mp).map patchEcall := by
      rw [List.map_map]
      exact List.map_congr_left (fun e _ => patchEcall_patchEcall e)
    have hnew := hp'.bytes mp hmp hr
    rw [hsame] at hnew
    have hoff := (mp.covers_iff a).mp hcov
    rw [← h.size mp hmp hr, ← length_stream_patchEcall] at hoff
    -- Every byte of the mapping is one of its stream.
    have haddr : BitVec.ofNat 64 mp.fromAddr
        + BitVec.ofNat 64 (a - BitVec.ofNat 64 mp.fromAddr).toNat = a := by
      rw [BitVec.ofNat_toNat, BitVec.setWidth_eq]
      bv_omega
    rw [← haddr, hnew _ hoff, hp.bytes mp hmp hr _ hoff]
  · exact hp'.other a (fun mp hmp hr hcov => hin ⟨mp, hmp, hr, hcov⟩)

/-- `rewrite_code` on a map that the kernel prints: the executable mappings of
    libc hold the same instructions with `jalr gp, gp, 0` for `ecall`, no other
    byte has changed, and a second run changes nothing. -/
theorem rewriteCode_libc (hecall : known ecallEncoding = true) (hjalr : known jalrEncoding = true)
    (h : LibcText known code m ms) :
    ∃ m', rewriteCode (disassembleAndRewrite (succeeding known)) (.ok (printMaps ms)) m = .ok m' ∧
      LibcPatched code ms m m' ∧
      rewriteCode (disassembleAndRewrite (succeeding known)) (.ok (printMaps ms)) m' = .ok m' := by
  rcases text_patched hecall h with ⟨m', hrun, hp⟩
  rcases text_patched hecall (hp.text h hjalr) with ⟨m'', hagain, hp'⟩
  refine ⟨m', hrun, hp, ?_⟩
  rw [hp.again h hp'] at hagain
  exact hagain

end Mappings

/-- Two executable mappings of a small libc, one of its data, and a library with
    a vector instruction that the disassembler does not know. -/
def tinyMappings : List Mapping :=
  [{ libcMapping with
      fromAddr := 0x1000, toAddr := 0x100a, lt := by decide, fits := by decide,
      short := by decide },
    { libcMapping with
      fromAddr := 0x1800, toAddr := 0x1804, path := "/libv.so".toList, lt := by decide,
      fits := by decide, newline_free := by decide, nul_free := by decide, short := by decide },
    { libcMapping with
      fromAddr := 0x2000, toAddr := 0x2008, lt := by decide, fits := by decide,
      short := by decide },
    { libcMapping with
      fromAddr := 0x3000, toAddr := 0x4000, write := true, exec := false, lt := by decide,
      fits := by decide, short := by decide }]

/-- `ecall; ld s0, 0(s0); ecall` in the first and `mv a0, a0; ecall` in the other. -/
def tinyCode (mp : Mapping) : List Encoding :=
  if mp.fromAddr = 0x1000 then [ecallEncoding, ldEncoding, ecallEncoding]
  else [mvEncoding, ecallEncoding]

/-- The memory they are in. -/
def tinyMem : Mem := fun a =>
  if a < 0x1800 then
    (stream [ecallEncoding, ldEncoding, ecallEncoding]).getD (a - 0x1000).toNat 0
  else if a < 0x2000 then vsetvli.bytes.getD (a - 0x1800).toNat 0
  else
    (stream [mvEncoding, ecallEncoding]).getD (a - 0x2000).toNat 0

theorem tinyText : LibcText withoutVector tinyCode tinyMem tinyMappings := by
  refine ⟨by decide, ?_, by decide, by decide⟩
  have hall : ∀ mp ∈ tinyMappings, mp.isRewritten = true →
      ∀ k (hk : k < (stream (tinyCode mp)).length),
        tinyMem (BitVec.ofNat 64 mp.fromAddr + BitVec.ofNat 64 k) = (stream (tinyCode mp))[k] := by
    decide
  exact hall

/-- Three `ecall`s are replaced in two mappings. -/
theorem rewriteCode_libc_tiny :
    ∃ m', rewriteCode (disassembleAndRewrite (succeeding withoutVector))
        (.ok (printMaps tinyMappings)) tinyMem = .ok m' ∧
      LibcPatched tinyCode tinyMappings tinyMem m' ∧
      rewriteCode (disassembleAndRewrite (succeeding withoutVector))
        (.ok (printMaps tinyMappings)) m' = .ok m' :=
  rewriteCode_libc (by decide) (by decide) tinyText

end Vpoline
