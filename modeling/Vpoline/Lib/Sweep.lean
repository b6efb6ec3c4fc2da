import Vpoline.Lib.Bytes
import Mathlib.Logic.Function.Iterate

/-!
# Instruction Streams and Linear Sweeps

A stream is a concatenation of RISC-V encodings of two or four bytes. A
linear sweep walks over its bytes, advancing at each position by a length
that something else decides. When that length is the one of the encoding at
every boundary, the sweep stops at the boundaries and nowhere else. When it
is not, the sweep leaves the boundaries, and where it goes from there is a
matter of how misaligned bytes look.

`Visits` is the walk by itself, for any length function. Its one structural
fact is `Visits.gap`: a sweep that stops at `p` stops at nothing strictly
inside the step it takes from there.

An `Encoding` carries the reason why it has its length: the two low bits of
its first byte. A list of bytes therefore starts with at most one encoding,
which is what `Encoding.ofBytes` computes.

## Main definitions

* `BytesAt`: A list of bytes is in memory.
* `Encoding`: An instruction of two or four bytes.
* `Encoding.ofBytes`: The encoding a list of bytes starts with.
* `stream`: The bytes of a list of encodings.
* `Boundary`: The position of an encoding in its stream.
* `Visits`: The positions of a linear sweep.

## Theorems

* `ofBytes_append`: An encoding is recognised whatever follows it.
* `Boundary.apart`: Two encodings of a stream do not overlap.
* `Boundary.cover`: Every byte belongs to an encoding.
* `bytesAt_stream_iff`: A stream is in memory if its encodings are.
* `Visits.gap`: A sweep does not stop inside its own steps.
* `Visits.congr`: A sweep depends on the lengths it meets.
* `visits_iff_boundary`: A sweep with the right lengths.
-/

namespace Vpoline

abbrev Byte := BitVec 8

/-- The bytes `bs` are in memory at `a`. -/
def BytesAt (m : Mem) (a : Addr) (bs : List Byte) : Prop :=
  ∀ i (h : i < bs.length), m (a + BitVec.ofNat 64 i) = bs[i]

theorem ofNat_toNat_add (a : Addr) (o : Nat) :
    BitVec.ofNat 64 (a.toNat + o) = a + BitVec.ofNat 64 o := by
  rw [BitVec.ofNat_add, BitVec.ofNat_toNat, BitVec.setWidth_eq]

/-- An instruction of two or four bytes. The two low bits of the first byte
    give the length. -/
inductive Encoding
  | short (b0 b1 : Byte) (low : b0 &&& 3 ≠ 3)
  | long (b0 b1 b2 b3 : Byte) (low : b0 &&& 3 = 3)
deriving DecidableEq

namespace Encoding

def bytes : Encoding → List Byte
  | .short b0 b1 _ => [b0, b1]
  | .long b0 b1 b2 b3 _ => [b0, b1, b2, b3]

def size (e : Encoding) : Nat := e.bytes.length

/-- The encoding a list of bytes starts with, if there are enough of them. -/
def ofBytes : List Byte → Option Encoding
  | b0 :: b1 :: rest =>
      if low : b0 &&& 3 = 3 then
        match rest with
        | b2 :: b3 :: _ => some (.long b0 b1 b2 b3 low)
        | _ => none
      else some (.short b0 b1 low)
  | _ => none

theorem size_cases (e : Encoding) : e.size = 2 ∨ e.size = 4 := by
  cases e with
  | short b0 b1 low => exact Or.inl rfl
  | long b0 b1 b2 b3 low => exact Or.inr rfl

theorem ofBytes_append (e : Encoding) (rest : List Byte) :
    ofBytes (e.bytes ++ rest) = some e := by
  cases e with
  | short b0 b1 low =>
      simp only [bytes, List.cons_append, ofBytes]
      rw [dif_neg low]
  | long b0 b1 b2 b3 low =>
      simp only [bytes, List.cons_append, ofBytes]
      rw [dif_pos low]

/-- A recognised encoding is really there. -/
theorem append_of_ofBytes {bs : List Byte} {e : Encoding} (h : ofBytes bs = some e) :
    ∃ rest, bs = e.bytes ++ rest := by
  unfold ofBytes at h
  split at h
  · rename_i b0 b1 rest
    split at h
    · split at h
      · rw [Option.some.injEq] at h
        subst h
        exact ⟨_, rfl⟩
      · exact absurd h (by simp only [reduceCtorEq, not_false_eq_true])
    · rw [Option.some.injEq] at h
      subst h
      exact ⟨rest, rfl⟩
  · exact absurd h (by simp only [reduceCtorEq, not_false_eq_true])

theorem size_le_of_ofBytes {bs : List Byte} {e : Encoding} (h : ofBytes bs = some e) :
    e.size ≤ bs.length := by
  rcases append_of_ofBytes h with ⟨rest, rfl⟩
  rw [List.length_append, size]
  omega

end Encoding

/-- The bytes of a list of encodings, one after the other. -/
def stream (is : List Encoding) : List Byte := is.flatMap Encoding.bytes

theorem stream_cons (e : Encoding) (is : List Encoding) :
    stream (e :: is) = e.bytes ++ stream is := List.flatMap_cons

theorem length_stream_cons (e : Encoding) (is : List Encoding) :
    (stream (e :: is)).length = e.size + (stream is).length := by
  rw [stream_cons, List.length_append, Encoding.size]

/-- The encoding `e` of the stream starts at byte `o`. -/
inductive Boundary : List Encoding → Nat → Encoding → Prop
  | head (e : Encoding) (is : List Encoding) : Boundary (e :: is) 0 e
  | tail (d : Encoding) {is : List Encoding} {o : Nat} {e : Encoding} :
      Boundary is o e → Boundary (d :: is) (d.size + o) e

namespace Boundary

variable {is : List Encoding} {o : Nat} {e : Encoding}

/-- The stream continues with the encoding at each of its boundaries. -/
theorem drop (h : Boundary is o e) : ∃ rest, (stream is).drop o = e.bytes ++ rest := by
  induction h with
  | head e is => exact ⟨stream is, by rw [List.drop_zero, stream_cons]⟩
  | tail d h ih =>
      rcases ih with ⟨rest, hrest⟩
      refine ⟨rest, ?_⟩
      rw [stream_cons, Encoding.size, List.drop_length_add_append, hrest]

theorem ofBytes (h : Boundary is o e) : Encoding.ofBytes ((stream is).drop o) = some e := by
  rcases h.drop with ⟨rest, hrest⟩
  rw [hrest]
  exact e.ofBytes_append rest

theorem fits (h : Boundary is o e) : o + e.size ≤ (stream is).length := by
  induction h with
  | head e is =>
      rw [length_stream_cons]
      omega
  | tail d h ih =>
      rw [length_stream_cons]
      omega

theorem getElem (h : Boundary is o e) {k : Nat} (hk : k < e.bytes.length) :
    (stream is)[o + k]? = some e.bytes[k] := by
  rcases h.drop with ⟨rest, hrest⟩
  rw [← List.getElem?_drop, hrest, List.getElem?_append_left hk, List.getElem?_eq_getElem hk]

/-- Two encodings of a stream are the same or do not overlap. -/
theorem apart (h : Boundary is o e) {o' : Nat} {e' : Encoding} (h' : Boundary is o' e') :
    (o = o' ∧ e = e') ∨ o + e.size ≤ o' ∨ o' + e'.size ≤ o := by
  induction h generalizing o' with
  | head e is =>
      cases h' with
      | head => exact Or.inl ⟨rfl, rfl⟩
      | tail d h' => exact Or.inr (Or.inl (by omega))
  | tail d h ih =>
      cases h' with
      | head => exact Or.inr (Or.inr (by omega))
      | tail d h' =>
          rcases ih h' with ⟨rfl, rfl⟩ | hlt | hlt
          · exact Or.inl ⟨rfl, rfl⟩
          · exact Or.inr (Or.inl (by omega))
          · exact Or.inr (Or.inr (by omega))

/-- Every byte of a stream belongs to one of its encodings. -/
theorem cover : ∀ (is : List Encoding) {i : Nat}, i < (stream is).length →
    ∃ o e, Boundary is o e ∧ o ≤ i ∧ i < o + e.size := by
  intro is
  induction is with
  | nil => intro i hi; exact absurd hi (Nat.not_lt_zero i)
  | cons d is ih =>
      intro i hi
      rw [length_stream_cons] at hi
      by_cases hd : i < d.size
      · exact ⟨0, d, head d is, Nat.zero_le i, by omega⟩
      · rcases @ih (i - d.size) (by omega) with ⟨o, e, h, hle, hlt⟩
        exact ⟨d.size + o, e, tail d h, by omega, by omega⟩

/-- Replacing encodings by others of the same size moves no boundary. -/
theorem map {f : Encoding → Encoding} (hf : ∀ e, (f e).size = e.size) (h : Boundary is o e) :
    Boundary (is.map f) o (f e) := by
  induction h with
  | head e is => exact head (f e) (is.map f)
  | tail d h ih =>
      rw [← hf d]
      exact tail (f d) ih

theorem of_map {f : Encoding → Encoding} (hf : ∀ e, (f e).size = e.size) :
    ∀ {is : List Encoding} {o : Nat} {e' : Encoding}, Boundary (is.map f) o e' →
      ∃ e, Boundary is o e ∧ e' = f e := by
  intro is
  induction is with
  | nil => intro o e' h; exact nomatch h
  | cons d is ih =>
      intro o e' h
      cases h with
      | head => exact ⟨d, head d is, rfl⟩
      | tail _ h =>
          rcases ih h with ⟨e, he, rfl⟩
          rw [hf d]
          exact ⟨e, tail d he, rfl⟩

end Boundary

/-- A stream is in memory if each of its encodings is. -/
theorem bytesAt_stream_iff {m : Mem} {a : Addr} {is : List Encoding} :
    BytesAt m a (stream is) ↔
      ∀ o e, Boundary is o e → BytesAt m (a + BitVec.ofNat 64 o) e.bytes := by
  have haddr : ∀ o k : Nat, a + BitVec.ofNat 64 o + BitVec.ofNat 64 k
      = a + BitVec.ofNat 64 (o + k) := fun o k => by
    rw [BitVec.ofNat_add, BitVec.add_assoc]
  constructor
  · intro h o e hb k hk
    have hlt : o + k < (stream is).length :=
      Nat.lt_of_lt_of_le (Nat.add_lt_add_left hk o) hb.fits
    have hget := hb.getElem hk
    rw [List.getElem?_eq_getElem hlt, Option.some.injEq] at hget
    rw [haddr, h _ hlt, hget]
  · intro h i hi
    rcases Boundary.cover is hi with ⟨o, e, hb, hle, hlt⟩
    have hk : i - o < e.bytes.length := by rw [Encoding.size] at hlt; omega
    have hget := hb.getElem hk
    have heq : o + (i - o) = i := by omega
    rw [heq, List.getElem?_eq_getElem hi, Option.some.injEq] at hget
    rw [hget, ← h o e hb (i - o) hk, haddr, heq]

/-- A sweep that starts at `start` and advances by `len p` from each position
    `p` stops at `q`. -/
def Visits (len : Nat → Nat) (start q : Nat) : Prop :=
  ∃ n, (fun p => p + len p)^[n] start = q

namespace Visits

variable {len : Nat → Nat} {start p q : Nat}

theorem refl (len : Nat → Nat) (start : Nat) : Visits len start start := ⟨0, rfl⟩

theorem step (h : Visits len start p) : Visits len start (p + len p) := by
  rcases h with ⟨n, rfl⟩
  exact ⟨n + 1, Function.iterate_succ_apply' _ n start⟩

theorem tail (h : Visits len (start + len start) q) : Visits len start q := by
  rcases h with ⟨n, rfl⟩
  exact ⟨n + 1, rfl⟩

theorem cases (h : Visits len start q) : q = start ∨ Visits len (start + len start) q := by
  rcases h with ⟨n, rfl⟩
  cases n with
  | zero => exact Or.inl rfl
  | succ n => exact Or.inr ⟨n, rfl⟩

theorem le (h : Visits len start q) : start ≤ q := by
  rcases h with ⟨n, rfl⟩
  induction n with
  | zero => exact Nat.le_refl start
  | succ n ih =>
      rw [Function.iterate_succ_apply']
      omega

/-- A sweep does not stop inside its own steps. -/
theorem gap (hp : Visits len start p) (hq : Visits len start q) (hlt : p < q) :
    p + len p ≤ q := by
  rcases hp with ⟨n, rfl⟩
  rcases hq with ⟨k, rfl⟩
  rcases Nat.lt_or_ge n k with hnk | hkn
  · -- `q` is visited from `p`, and not at once.
    rcases Nat.exists_eq_add_of_lt hnk with ⟨d, rfl⟩
    have hsplit : n + d + 1 = d + (n + 1) := by omega
    rw [hsplit, Function.iterate_add_apply, Function.iterate_succ_apply']
    exact le ⟨d, rfl⟩
  · -- `p` would be visited from `q`.
    rcases Nat.exists_eq_add_of_le' hkn with ⟨d, rfl⟩
    rw [Function.iterate_add_apply] at hlt
    have hle : (fun p => p + len p)^[k] start
        ≤ (fun p => p + len p)^[d] ((fun p => p + len p)^[k] start) := le ⟨d, rfl⟩
    omega

/-- A sweep depends only on the lengths it meets on its way. -/
theorem congr {len' : Nat → Nat} (hlen : ∀ p, start ≤ p → p < q → len' p = len p)
    (h : Visits len start q) : Visits len' start q := by
  rcases h with ⟨n, hn⟩
  induction n generalizing start with
  | zero => exact hn ▸ refl len' start
  | succ n ih =>
      have htail : Visits len (start + len start) q := ⟨n, hn⟩
      rcases Nat.eq_or_lt_of_le (Nat.le_trans (Nat.le_add_right start _) htail.le) with heq | hlt
      · exact heq ▸ refl len' start
      · refine tail ?_
        rw [hlen start (Nat.le_refl start) hlt]
        exact ih (fun p hp => hlen p (by omega)) hn

/-- Moving the origin to the start of the sweep. -/
theorem shift {base : Nat} :
    Visits len base (base + q) ↔ Visits (fun o => len (base + o)) 0 q := by
  have hiter : ∀ n start, (fun p => p + len p)^[n] (base + start)
      = base + (fun o => o + len (base + o))^[n] start := by
    intro n
    induction n with
    | zero => intro start; rfl
    | succ n ih =>
        intro start
        rw [Function.iterate_succ_apply, Function.iterate_succ_apply, Nat.add_assoc, ih]
  constructor
  · rintro ⟨n, hn⟩
    exact ⟨n, Nat.add_left_cancel ((hiter n 0).symm.trans hn)⟩
  · rintro ⟨n, rfl⟩
    exact ⟨n, hiter n 0⟩

end Visits

/-- A sweep that advances by the size of each encoding stops exactly at the
    boundaries. The induction is on the stream, and moves the origin past the
    first encoding. -/
theorem visits_iff_boundary : ∀ (is : List Encoding) (len : Nat → Nat),
    (∀ o e, Boundary is o e → len o = e.size) → ∀ q, q < (stream is).length →
    (Visits len 0 q ↔ ∃ e, Boundary is q e) := by
  intro is
  induction is with
  | nil => intro len _ q hq; exact absurd hq (Nat.not_lt_zero q)
  | cons d is ih =>
      intro len hlen q hq
      have hhead : len 0 = d.size := hlen 0 d (Boundary.head d is)
      have hrec := ih (fun o => len (d.size + o)) (fun o e h => hlen _ e (Boundary.tail d h))
      rw [length_stream_cons] at hq
      constructor
      · intro hv
        rcases hv.cases with rfl | hv
        · exact ⟨d, Boundary.head d is⟩
        · rw [hhead, Nat.zero_add] at hv
          obtain ⟨r, rfl⟩ := Nat.exists_eq_add_of_le hv.le
          have hv' : Visits (fun o => len (d.size + o)) 0 r := Visits.shift.mp hv
          rcases (hrec r (by omega)).mp hv' with ⟨e, he⟩
          exact ⟨e, Boundary.tail d he⟩
      · rintro ⟨e, he⟩
        cases he with
        | head => exact Visits.refl len 0
        | tail _ h =>
            rename_i o
            have hv := Visits.shift.mpr ((hrec o (by omega)).mpr ⟨e, h⟩)
            refine Visits.tail ?_
            rw [hhead, Nat.zero_add]
            exact hv

end Vpoline
