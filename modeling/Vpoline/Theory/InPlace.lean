import Vpoline.Theory.Rewrite

/-!
# Rewriting in Place

The loop of `disassemble_and_rewrite` decodes the bytes that it is changing.
Here it is compared with two passes that do not get in each other's way: a
sweep that only reads, and then the stores. To speak of the positions the loop
visits, its effects are a log of what it does.

The second part asks what the stores do to data. A mapping of the C library
may hold tables and strings between its instructions, and the sweep has no
section information, so it goes through them like through everything else.
Data survives exactly if no `ecall` that the sweep reports has one of its
first three bytes there. The fourth byte of `ecall` and of `jalr gp, gp, 0`
is the same.

## Main definitions

* `LoopLog`, `logEffects`: A log as the effects of the loop.
* `loggedLoop`: The loop with a log.
* `Segment`: Instructions or data.
* `dataByte`: The bytes of a mapping that are data.
* `KeepsData`: Rewriting changes no data.

## Theorems

* `loggedLoop_eq`: The loop visits what the sweep visits.
* `rewrite_eq_sweep_then_patch`: Rewriting in place.
* `changed_iff`: The bytes that change.
* `keepsData_iff`: When data survives.
-/

namespace Vpoline

/-- What the loop has done so far. -/
structure LoopLog where
  visited : List Nat
  stored : List Nat
  mem : Mem

namespace LoopLog

def visit (log : LoopLog) (code : Nat) : LoopLog := { log with visited := log.visited ++ [code] }

def store (log : LoopLog) (address : Nat) : LoopLog :=
  { log with
    stored := log.stored ++ [address]
    mem := log.mem.write (BitVec.ofNat 64 address) 4 patchedEcall }

end LoopLog

/-- The effects of the loop, with a log: each call of `cs_disasm_iter` visits an
    address. -/
def logEffects : Effects LoopLog Stop :=
  { Recorder.silent LoopLog with
    mem := LoopLog.mem
    disasm := fun code log => log.visit code
    patch := fun address log => .ok (log.store address)
    protect := fun _ _ _ log => log }

/-- The loop of `disassemble_and_rewrite` with a log. -/
def loggedLoop (context : InterceptDisasmContext) (code : Nat) (log : LoopLog) :
    Except Stop LoopLog :=
  logEffects.rewriteLoop context code log

theorem logEffects_storesWord : logEffects.StoresWord := by
  refine ⟨fun _ _ => rfl, fun p log log' h => ?_⟩
  rcases Except.ok.inj h with rfl
  rfl

/-- The log of a sweep that is followed. -/
theorem logEffects_follow (sweep : List (Nat × Bool)) (log : LoopLog) :
    logEffects.follow sweep log = .ok
      ⟨log.visited ++ sweep.map (·.1), log.stored ++ reported sweep,
        patchAll log.mem (reported sweep)⟩ := by
  induction sweep generalizing log with
  | nil =>
      simp only [reported, List.map_nil, List.filter_nil, List.append_nil]
      rfl
  | cons step sweep ih =>
      rcases step with ⟨p, _ | _⟩
      · refine (ih (log.visit p)).trans ?_
        simp only [LoopLog.visit, List.append_assoc, List.map_cons, List.singleton_append,
          reported_skip]
      · refine (ih ((log.visit p).store p)).trans ?_
        simp only [LoopLog.visit, LoopLog.store, List.append_assoc, List.map_cons,
          List.singleton_append, reported_take]
        rfl

/-- The loop visits what the sweep visits, and stores where it reports. -/
theorem loggedLoop_eq {context : InterceptDisasmContext} (hd : WellBehaved context.handle)
    (hlast : context.last < 2 ^ 64) (code : Nat) (log : LoopLog) :
    loggedLoop context code log = .ok
      ⟨log.visited ++ (readOnlySweep context log.mem code).map (·.1),
       log.stored ++ reported (readOnlySweep context log.mem code),
       patchAll log.mem (reported (readOnlySweep context log.mem code))⟩ :=
  (rewriteLoop_follow logEffects_storesWord hd hlast _ code log (Nat.le_refl _)).trans
    (logEffects_follow _ log)

/-- Rewriting in place is a sweep over the original bytes, and then a store at
    each `ecall` it reports. The loop ends, it visits what the sweep visits, and
    the stores neither overlap nor leave the section. -/
theorem rewrite_eq_sweep_then_patch {d : Disassembler} (hd : WellBehaved d) (memProt : Prot)
    {code : Addr} {size : BitVec 64} (hpos : 0 < code.toNat + size.toNat)
    (hfits : code.toNat + size.toNat < 2 ^ 64) (m : Mem) :
    loggedLoop ⟨d, code.toNat + size.toNat - 1⟩ code.toNat ⟨[], [], m⟩ = .ok
      ⟨(readOnlySweep ⟨d, code.toNat + size.toNat - 1⟩ m code.toNat).map (·.1),
       sectionEcalls d code size m, patchAll m (sectionEcalls d code size m)⟩ ∧
    disassembleAndRewrite (succeedingWith d) code size memProt m
      = .ok (patchAll m (sectionEcalls d code size m)) ∧
    (sectionEcalls d code size m).Pairwise (fun p q => p + 4 ≤ q) ∧
    ∀ p ∈ sectionEcalls d code size m, code.toNat ≤ p ∧ p + 4 ≤ code.toNat + size.toNat := by
  have hlast : code.toNat + size.toNat - 1 < 2 ^ 64 := by omega
  have hlog := @loggedLoop_eq ⟨d, code.toNat + size.toNat - 1⟩ hd hlast code.toNat ⟨[], [], m⟩
  simp only [List.nil_append] at hlog
  refine ⟨hlog, ?_, reported_apart hd _ _ (Nat.le_refl _),
    fun p hp => sectionEcalls_inside hd hpos hp⟩
  rw [disassembleAndRewrite_succeeding]
  exact rewriteLoop_eq hd hlast code.toNat m

/-- The sweep over a stream with an unknown encoding. -/
theorem vectorStream_sweep :
    readOnlySweep ⟨capstone withoutVectorOrZero, 0x1011⟩ (streamMem vectorStream) 0x1000
      = [(0x1000, true), (0x1004, false), (0x1005, false), (0x1007, false), (0x1009, false),
         (0x100b, false), (0x100c, false), (0x100e, true)] := by
  have hd := capstone_wellBehaved withoutVectorOrZero
  rw [readOnlySweep_some hd (by decide) (show capstone withoutVectorOrZero
      (bytesFrom (streamMem vectorStream) 0x1000 18) = some ⟨.ecall, 4⟩ by decide),
    readOnlySweep_none (by decide) (show capstone withoutVectorOrZero
      (bytesFrom (streamMem vectorStream) 0x1004 14) = none by decide),
    readOnlySweep_some hd (by decide) (show capstone withoutVectorOrZero
      (bytesFrom (streamMem vectorStream) 0x1005 13) = some ⟨.other, 2⟩ by decide),
    readOnlySweep_some hd (by decide) (show capstone withoutVectorOrZero
      (bytesFrom (streamMem vectorStream) 0x1007 11) = some ⟨.other, 2⟩ by decide),
    readOnlySweep_some hd (by decide) (show capstone withoutVectorOrZero
      (bytesFrom (streamMem vectorStream) 0x1009 9) = some ⟨.other, 2⟩ by decide),
    readOnlySweep_none (by decide) (show capstone withoutVectorOrZero
      (bytesFrom (streamMem vectorStream) 0x100b 7) = none by decide),
    readOnlySweep_some hd (by decide) (show capstone withoutVectorOrZero
      (bytesFrom (streamMem vectorStream) 0x100c 6) = some ⟨.other, 2⟩ by decide),
    readOnlySweep_some hd (by decide) (show capstone withoutVectorOrZero
      (bytesFrom (streamMem vectorStream) 0x100e 4) = some ⟨.ecall, 4⟩ by decide),
    readOnlySweep_end (by decide)]
  rfl

/-- Eight positions are visited and two words are stored. -/
theorem rewrite_eq_sweep_then_patch_vector :
    disassembleAndRewrite (succeedingWith (capstone withoutVectorOrZero)) 0x1000 18
        ⟨true, false, true⟩ (streamMem vectorStream)
      = .ok (((streamMem vectorStream).write 0x1000 4 patchedEcall).write 0x100e 4
          patchedEcall) := by
  have hrun := (rewrite_eq_sweep_then_patch (capstone_wellBehaved withoutVectorOrZero)
    ⟨true, false, true⟩ (show 0 < (0x1000 : Addr).toNat + (18 : BitVec 64).toNat by decide)
    (show (0x1000 : Addr).toNat + (18 : BitVec 64).toNat < 2 ^ 64 by decide)
    (streamMem vectorStream)).2.1
  have hecalls : sectionEcalls (capstone withoutVectorOrZero) 0x1000 18 (streamMem vectorStream)
      = [0x1000, 0x100e] := congrArg reported vectorStream_sweep
  rw [hecalls] at hrun
  exact hrun

/-- A part of a mapping: instructions, or data among them. -/
inductive Segment
  | instructions (is : List Encoding)
  | data (bs : List Byte)

namespace Segment

def bytes : Segment → List Byte
  | .instructions is => stream is
  | .data bs => bs

def isData : Segment → Bool
  | .instructions _ => false
  | .data _ => true

end Segment

/-- The bytes of a mapping. -/
def mappingBytes (segs : List Segment) : List Byte := segs.flatMap Segment.bytes

/-- Byte `o` of the mapping is data. -/
def dataByte : List Segment → Nat → Bool
  | [], _ => false
  | seg :: segs, o =>
      if o < seg.bytes.length then seg.isData else dataByte segs (o - seg.bytes.length)

/-- A mapping as `rewrite_code` passes it on. -/
structure MappingAt (m : Mem) (code : Addr) (segs : List Segment) : Prop where
  nonzero : code ≠ 0
  fits : code.toNat + (mappingBytes segs).length < 2 ^ 64
  bytes : BytesAt m code (mappingBytes segs)

/-- The disassembler reports an `ecall` exactly for the word `0x00000073`. -/
def RecognisesEcall (d : Disassembler) : Prop :=
  ∀ bs, (∃ insn, d bs = some insn ∧ insn.id = .ecall) ↔ ecallEncoding.bytes <+: bs

/-- Rewriting a mapping succeeds and changes no byte of its data. -/
def KeepsData (d : Disassembler) (memProt : Prot) (code : Addr) (segs : List Segment)
    (m : Mem) : Prop :=
  ∃ m', disassembleAndRewrite (succeedingWith d) code
      (BitVec.ofNat 64 (mappingBytes segs).length) memProt m = .ok m' ∧
    ∀ o, dataByte segs o = true →
      m' (code + BitVec.ofNat 64 o) = m (code + BitVec.ofNat 64 o)

theorem capstone_recognisesEcall {known : Encoding → Bool} (hecall : known ecallEncoding = true) :
    RecognisesEcall (capstone known) := by
  intro bs
  constructor
  · rintro ⟨insn, hinsn, hid⟩
    rcases capstone_some hinsn with ⟨e, hof, _, rfl⟩
    by_cases he : e = ecallEncoding
    · rcases Encoding.append_of_ofBytes hof with ⟨rest, rfl⟩
      rw [he]
      exact List.prefix_append _ rest
    · simp only [if_neg he] at hid
      exact absurd hid (by decide)
  · rintro ⟨rest, rfl⟩
    refine ⟨⟨.ecall, 4⟩, ?_, rfl⟩
    simp only [capstone, Encoding.ofBytes_append, hecall, if_true]
    rfl

/-- Only bytes of the mapping are data. -/
theorem lt_length_of_dataByte : ∀ {segs : List Segment} {o : Nat}, dataByte segs o = true →
    o < (mappingBytes segs).length := by
  intro segs
  induction segs with
  | nil =>
      intro o h
      exact absurd h (by simp only [dataByte, Bool.false_eq_true, not_false_eq_true])
  | cons seg segs ih =>
      intro o h
      have hlen : (mappingBytes (seg :: segs)).length
          = seg.bytes.length + (mappingBytes segs).length := by
        rw [mappingBytes, List.flatMap_cons, List.length_append, mappingBytes]
      by_cases ho : o < seg.bytes.length
      · omega
      · rw [dataByte, if_neg ho] at h
        have := ih h
        omega

section Data

variable {d : Disassembler} {code : Addr} {size : BitVec 64} {m m' : Mem}

/-- The bytes of a reported `ecall`. -/
theorem byte_of_reported (hexact : RecognisesEcall d) {last p : Nat}
    (h : Reports ⟨d, last⟩ m p) {k : Nat} (hk : k < ecallEncoding.bytes.length) :
    m (BitVec.ofNat 64 (p + k)) = ecallEncoding.bytes[k] := by
  rcases (hexact _).mp h with ⟨rest, hrest⟩
  have hget : (bytesFrom m p (last - p + 1))[k]? = some ecallEncoding.bytes[k] := by
    rw [← hrest, List.getElem?_append_left hk, List.getElem?_eq_getElem hk]
  rcases List.getElem?_eq_some_iff.mp hget with ⟨hlt, heq⟩
  rw [← heq]
  simp only [bytesFrom, List.getElem_map, List.getElem_range]

/-- Rewriting a section stores where the sweep reports an `ecall`. -/
theorem rewrite_patchedAt_ecalls (hd : WellBehaved d) (memProt : Prot) (code : Addr)
    (size : BitVec 64) (hfits : code.toNat + size.toNat < 2 ^ 64) (m : Mem) :
    ∃ m', disassembleAndRewrite (succeedingWith d) code size memProt m = .ok m' ∧
      PatchedAt (fun a => ∃ p ∈ sectionEcalls d code size m, a = BitVec.ofNat 64 p) m m' := by
  rcases @rewriteLoop_spec ⟨d, code.toNat + size.toNat - 1⟩ hd (by simp only; omega)
    code.toNat m with ⟨m', hloop, hpat⟩
  refine ⟨m', ?_, hpat.congr (finds_iff_reported hd code.toNat)⟩
  rw [disassembleAndRewrite_succeeding, hloop]

/-- A store changes the first three bytes of an `ecall`, and only these. -/
theorem ecall_jalr_byte : ∀ k (_ : k < ecallEncoding.bytes.length)
    (_ : k < jalrEncoding.bytes.length),
    (jalrEncoding.bytes[k] = ecallEncoding.bytes[k] ↔ k = 3) := by decide

/-- What rewriting does to the bytes of an `ecall` that the sweep reports. -/
theorem rewritten_byte (hd : WellBehaved d) (hexact : RecognisesEcall d)
    (hpat : PatchedAt (fun a => ∃ p ∈ sectionEcalls d code size m, a = BitVec.ofNat 64 p) m m')
    {p : Nat} (hp : p ∈ sectionEcalls d code size m) {k : Nat} (hk : k < 4) :
    m' (BitVec.ofNat 64 (p + k)) = m (BitVec.ofNat 64 (p + k)) ↔ k = 3 := by
  have hnew := hpat.inside _ ⟨p, hp, rfl⟩ k hk
  have hold := byte_of_reported hexact ((mem_sectionEcalls_iff hd).mp hp).2.2 hk
  rw [← BitVec.ofNat_add] at hnew
  rw [hnew, hold]
  exact ecall_jalr_byte k hk hk

/-- Rewriting changes the first three bytes of every reported `ecall`, and no
    other byte of the section. -/
theorem changed_iff (hd : WellBehaved d) (hexact : RecognisesEcall d)
    (hpos : 0 < code.toNat + size.toNat)
    (hpat : PatchedAt (fun a => ∃ p ∈ sectionEcalls d code size m, a = BitVec.ofNat 64 p) m m')
    {o : Nat} (ho : o < size.toNat) :
    m' (code + BitVec.ofNat 64 o) ≠ m (code + BitVec.ofNat 64 o) ↔
      ∃ p ∈ sectionEcalls d code size m, ∃ k < 3, code.toNat + o = p + k := by
  rw [← ofNat_toNat_add]
  constructor
  · intro hne
    by_cases hout : ∀ a, (∃ p ∈ sectionEcalls d code size m, a = BitVec.ofNat 64 p) →
        4 ≤ (BitVec.ofNat 64 (code.toNat + o) - a).toNat
    · exact absurd (hpat.outside _ hout) hne
    · -- The byte belongs to an `ecall`, and it is not the last one of it.
      push Not at hout
      rcases hout with ⟨a, ⟨p, hp, rfl⟩, hlt⟩
      have hin := sectionEcalls_inside hd hpos hp
      obtain ⟨k, hk, heq⟩ : ∃ k < 4, code.toNat + o = p + k :=
        ⟨code.toNat + o - p, by bv_omega, by bv_omega⟩
      rw [heq, ne_eq, rewritten_byte hd hexact hpat hp hk] at hne
      exact ⟨p, hp, k, by omega, heq⟩
  · rintro ⟨p, hp, k, hk, heq⟩
    rw [heq, ne_eq, rewritten_byte hd hexact hpat hp (by omega)]
    omega

end Data

/-- When data survives: no `ecall` that a sweep over the original bytes of the
    mapping reports has one of its first three bytes in a data region. -/
theorem keepsData_iff {d : Disassembler} (hd : WellBehaved d) (hexact : RecognisesEcall d)
    (memProt : Prot) {m : Mem} {code : Addr} {segs : List Segment}
    (h : MappingAt m code segs) :
    KeepsData d memProt code segs m ↔
      ∀ p ∈ sectionEcalls d code (BitVec.ofNat 64 (mappingBytes segs).length) m,
        ∀ k < 3, dataByte segs (p - code.toNat + k) = false := by
  have hlen := h.fits
  have hsize : (BitVec.ofNat 64 (mappingBytes segs).length).toNat = (mappingBytes segs).length := by
    rw [BitVec.toNat_ofNat, Nat.mod_eq_of_lt (by omega)]
  -- The end of the section does not underflow.
  have hpos : 0 < code.toNat + (BitVec.ofNat 64 (mappingBytes segs).length).toNat :=
    Nat.add_pos_left (Nat.pos_of_ne_zero (fun hz => h.nonzero (BitVec.eq_of_toNat_eq hz))) _
  rcases rewrite_patchedAt_ecalls hd memProt code (BitVec.ofNat 64 (mappingBytes segs).length)
    (by omega) m with ⟨m', hrun, hpat⟩
  constructor
  · rintro ⟨m'', hrun', hkeep⟩ p hp k hk
    rw [hrun, Except.ok.injEq] at hrun'
    subst hrun'
    have hin := sectionEcalls_inside hd hpos hp
    by_contra hdata
    refine (changed_iff hd hexact hpos hpat (o := p - code.toNat + k) (by omega)).mpr
      ⟨p, hp, k, hk, by omega⟩ ?_
    exact hkeep _ (Bool.eq_true_of_not_eq_false hdata)
  · intro hclear
    refine ⟨m', hrun, fun o hdata => ?_⟩
    have ho := lt_length_of_dataByte hdata
    by_contra hne
    rcases (changed_iff hd hexact hpos hpat (by omega)).mp hne with ⟨p, hp, k, hk, heq⟩
    have hin := sectionEcalls_inside hd hpos hp
    have hno := hclear p hp k hk
    have ho' : p - code.toNat + k = o := by omega
    rw [ho', hdata] at hno
    exact absurd hno (by decide)

/-- A mapping by itself in memory. -/
def mappingMem (segs : List Segment) : Mem := fun a =>
  (mappingBytes segs).getD (a - 0x1000).toNat 0

theorem mappingAt_mappingMem {segs : List Segment} (hshort : (mappingBytes segs).length ≤ 8) :
    MappingAt (mappingMem segs) 0x1000 segs := by
  refine ⟨by decide, ?_, ?_⟩
  · have hcode : (0x1000 : Addr).toNat = 4096 := rfl
    omega
  · intro i hi
    have hoff : (0x1000 + BitVec.ofNat 64 i - 0x1000 : Addr).toNat = i := by bv_omega
    rw [mappingMem, hoff, List.getD_eq_getElem _ _ hi]

/-- An `ecall` followed by the number 42. -/
def numberMapping : List Segment := [.instructions [ecallEncoding], .data [0x2a, 0, 0, 0]]

/-- The number survives. -/
theorem keepsData_iff_number :
    KeepsData (capstone withoutVector) ⟨true, false, true⟩ 0x1000 numberMapping
      (mappingMem numberMapping) := by
  have hd := capstone_wellBehaved withoutVector
  have hexact := capstone_recognisesEcall (show withoutVector ecallEncoding = true by decide)
  refine (keepsData_iff hd hexact _ (mappingAt_mappingMem (by decide))).mpr
    (fun p hp k hk => ?_)
  -- The only byte `0x73` of the mapping is the first one.
  have hin := sectionEcalls_inside hd (by decide) hp
  have hbyte := byte_of_reported hexact ((mem_sectionEcalls_iff hd).mp hp).2.2 (k := 0) (by decide)
  have hfirst : ∀ o < 5, mappingMem numberMapping (BitVec.ofNat 64 (0x1000 + o + 0)) = 0x73 →
      o = 0 := by decide
  have hclear : ∀ k < 3, dataByte numberMapping k = false := by decide
  have hcode : (0x1000 : Addr).toNat = 0x1000 := rfl
  have hlen : (BitVec.ofNat 64 (mappingBytes numberMapping).length).toNat = 8 := rfl
  rw [hcode, hlen] at hin
  obtain ⟨o, rfl⟩ := Nat.exists_eq_add_of_le hin.1
  have ho := hfirst o (by omega) hbyte
  subst ho
  have heq : 0x1000 + 0 - (0x1000 : Addr).toNat + k = k := by omega
  rw [heq]
  exact hclear k hk

/-- `nop`, followed by the wide character `s`. -/
def wideMapping : List Segment :=
  [.instructions [nopEncoding], .data [0x73, 0, 0, 0]]

/-- The character is taken for an `ecall` and overwritten. -/
theorem data_overwritten :
    MappingAt (mappingMem wideMapping) 0x1000 wideMapping ∧
    dataByte wideMapping 4 = true ∧ mappingMem wideMapping 0x1004 = 0x73 ∧
    (∃ m', disassembleAndRewrite (succeedingWith (capstone withoutVector)) 0x1000 8
        ⟨true, false, true⟩ (mappingMem wideMapping) = .ok m' ∧ m' 0x1004 = 0xe7) ∧
    ¬ KeepsData (capstone withoutVector) ⟨true, false, true⟩ 0x1000 wideMapping
      (mappingMem wideMapping) := by
  have hd := capstone_wellBehaved withoutVector
  rcases rewrite_patchedAt_ecalls hd ⟨true, false, true⟩ 0x1000 8 (by decide)
    (mappingMem wideMapping) with ⟨m', hrun, hpat⟩
  -- The sweep steps over the `nop` and stops at the character.
  have hadv : advance ⟨capstone withoutVector, 0x1007⟩ (mappingMem wideMapping) 0x1000 = 4 := by
    decide
  have hv := (Visits.refl
    (advance ⟨capstone withoutVector, 0x1007⟩ (mappingMem wideMapping)) 0x1000).step
  rw [hadv] at hv
  have hmem : 0x1004 ∈ sectionEcalls (capstone withoutVector) 0x1000 8 (mappingMem wideMapping) :=
    (mem_sectionEcalls_iff hd).mpr ⟨hv, by decide, ⟨.ecall, 4⟩, by decide, rfl⟩
  have hnew : m' 0x1004 = 0xe7 := hpat.inside _ ⟨0x1004, hmem, rfl⟩ 0 (by decide)
  refine ⟨mappingAt_mappingMem (by decide), by decide, by decide, ⟨m', hrun, hnew⟩, ?_⟩
  rintro ⟨m'', hrun', hkeep⟩
  have hsize : BitVec.ofNat 64 (mappingBytes wideMapping).length = 8 := rfl
  rw [hsize, hrun, Except.ok.injEq] at hrun'
  subst hrun'
  have hsame : m' 0x1004 = mappingMem wideMapping 0x1004 := hkeep 4 (by decide)
  rw [hnew] at hsame
  exact absurd hsame (by decide)

end Vpoline
