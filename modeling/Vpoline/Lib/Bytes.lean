import Mathlib.Data.Nat.Init
import Mathlib.Tactic.Ring

/-!
# Byte-Addressed Memory

A 64-bit byte-addressed memory with little-endian reads and writes of any
number of bytes. Addresses wrap: `a + k` is taken modulo `2 ^ 64`, so an
access near the top of the address space is as defined as any other, and
whether two accesses overlap is a question about differences rather than
about intervals.

`AgreeAbove vol p m m'` says two memories differ at most in the volatile
bytes below `p`. With `vol` the stack and `p` the stack pointer this is what
a signal frame may do to a thread between two instructions, and it is also
the frame condition of a piece of code that only writes below `p`.

## Main definitions

* `Mem.read`: The little-endian value of `n` bytes.
* `Mem.write`: Storing a little-endian value of `n` bytes.
* `Mem.storeWords`: Storing a list of 32-bit words.
* `WordsAt`: A list of words is in memory.
* `AgreeAbove`: Two memories differ only in volatile bytes below a bound.

## Theorems

* `Mem.getLsbD_read`: Each bit of a read value is a bit of one byte.
* `Mem.read_congr`: A read depends only on the bytes it covers.
* `Mem.read_of_bytes`: A value whose bytes are in memory is read.
* `Mem.read_write_same`: A write is read back.
* `Mem.read_write_of_disjoint`: A write elsewhere is not seen.
* `Mem.write_outside`: A write changes no byte it does not cover.
* `wordsAt_storeWords`: Stored words are in memory.
* `AgreeAbove.trans`: Agreement composes.
* `AgreeAbove.read`: A read of stable bytes is the same in both memories.
-/

namespace Vpoline

abbrev Addr := BitVec 64

abbrev Mem := Addr → BitVec 8

namespace Mem

/-- The little-endian value of the `n` bytes at `a`. -/
def read (m : Mem) (a : Addr) : (n : Nat) → BitVec (8 * n)
  | 0 => 0#0
  | n + 1 => read m (a + 1) n ++ m a

/-- Store the `n` bytes of `v` at `a`, least significant byte first. -/
def write (m : Mem) (a : Addr) (n : Nat) (v : BitVec (8 * n)) : Mem :=
  fun b => if (b - a).toNat < n then v.extractLsb' (8 * (b - a).toNat) 8 else m b

theorem getLsbD_read (m : Mem) : ∀ (n : Nat) (a : Addr) (i : Nat),
    (read m a n).getLsbD i
      = (decide (i < 8 * n) && (m (a + BitVec.ofNat 64 (i / 8))).getLsbD (i % 8)) := by
  intro n
  induction n with
  | zero =>
      intro a i
      simp only [read, BitVec.getLsbD_zero, Nat.mul_zero, Nat.not_lt_zero, decide_false,
        Bool.false_and]
  | succ n ih =>
      intro a i
      have happ : (read m a (n + 1)).getLsbD i
          = (read m (a + 1) n ++ m a).getLsbD i := rfl
      rw [happ, BitVec.getLsbD_append, ih]
      -- Bits of the first byte are read here, the others from the rest.
      by_cases hi : i < 8
      · rw [if_pos hi, Nat.div_eq_of_lt hi, Nat.mod_eq_of_lt hi,
          decide_eq_true (by omega : i < 8 * (n + 1)), Bool.true_and]
        congr 1
        simp only [BitVec.add_zero]
      · have haddr : a + 1 + BitVec.ofNat 64 ((i - 8) / 8) = a + BitVec.ofNat 64 (i / 8) := by
          have hdiv : i / 8 = (i - 8) / 8 + 1 := by omega
          rw [hdiv, BitVec.ofNat_add]
          bv_omega
        have hmod : (i - 8) % 8 = i % 8 := by omega
        have hlt : decide (i - 8 < 8 * n) = decide (i < 8 * (n + 1)) := by
          rw [decide_eq_decide]
          omega
        rw [if_neg hi, haddr, hmod, hlt]

theorem read_congr {m m' : Mem} {a : Addr} {n : Nat}
    (h : ∀ k, k < n → m' (a + BitVec.ofNat 64 k) = m (a + BitVec.ofNat 64 k)) :
    read m' a n = read m a n := by
  apply BitVec.eq_of_getLsbD_eq
  intro i hi
  rw [getLsbD_read, getLsbD_read, h (i / 8) (by omega)]

theorem write_outside {m : Mem} {a b : Addr} {n : Nat} {v : BitVec (8 * n)}
    (h : n ≤ (b - a).toNat) : write m a n v b = m b := by
  simp only [write]
  rw [if_neg (by omega)]

theorem read_of_bytes {m : Mem} {a : Addr} {n : Nat} {v : BitVec (8 * n)}
    (h : ∀ k, k < n → m (a + BitVec.ofNat 64 k) = v.extractLsb' (8 * k) 8) : read m a n = v := by
  apply BitVec.eq_of_getLsbD_eq
  intro i hi
  rw [getLsbD_read, decide_eq_true hi, Bool.true_and, h (i / 8) (by omega),
    BitVec.getLsbD_extractLsb', decide_eq_true (by omega : i % 8 < 8), Bool.true_and,
    Nat.div_add_mod]

theorem read_write_same (m : Mem) (a : Addr) (n : Nat) (v : BitVec (8 * n))
    (hn : n ≤ 2 ^ 64) : read (write m a n v) a n = v := by
  refine read_of_bytes (fun k hk => ?_)
  have hoff : (a + BitVec.ofNat 64 k - a).toNat = k := by
    have hsub : a + BitVec.ofNat 64 k - a = BitVec.ofNat 64 k := by bv_omega
    rw [hsub, BitVec.toNat_ofNat, Nat.mod_eq_of_lt (by omega)]
  simp only [write, hoff, if_pos hk]

theorem read_write_of_disjoint (m : Mem) (a b : Addr) (n k : Nat) (v : BitVec (8 * n))
    (h : ∀ j, j < k → n ≤ (b + BitVec.ofNat 64 j - a).toNat) :
    read (write m a n v) b k = read m b k :=
  read_congr (fun j hj => write_outside (h j hj))

/-- Store 32-bit words one after the other. -/
def storeWords (m : Mem) (a : Addr) : List (BitVec 32) → Mem
  | [] => m
  | w :: ws => storeWords (m.write a 4 w) (a + 4) ws

theorem storeWords_outside : ∀ (ws : List (BitVec 32)) (m : Mem) (a b : Addr),
    4 * ws.length ≤ (b - a).toNat → m.storeWords a ws b = m b := by
  intro ws
  induction ws with
  | nil => intro m a b _; rfl
  | cons w ws ih =>
      intro m a b h
      rw [List.length_cons] at h
      rw [storeWords, ih _ _ _ (by bv_omega), write_outside (by omega)]

end Mem

/-- The words `ws` are in memory at `a`. -/
def WordsAt (m : Mem) (a : Addr) (ws : List (BitVec 32)) : Prop :=
  ∀ i (h : i < ws.length), m.read (a + BitVec.ofNat 64 (4 * i)) 4 = ws[i]

theorem WordsAt.congr {m m' : Mem} {a : Addr} {ws : List (BitVec 32)} (h : WordsAt m a ws)
    (hsmall : 4 * ws.length ≤ 2 ^ 64)
    (heq : ∀ b, (b - a).toNat < 4 * ws.length → m' b = m b) : WordsAt m' a ws := by
  intro i hi
  rw [← h i hi]
  refine Mem.read_congr (fun k hk => heq _ ?_)
  bv_omega

/-- Stored words are in memory. The induction is on the list: the first word
    is below everything stored after it. -/
theorem wordsAt_storeWords : ∀ (ws : List (BitVec 32)) (m : Mem) (a : Addr),
    4 * ws.length ≤ 2 ^ 64 → WordsAt (m.storeWords a ws) a ws := by
  intro ws
  induction ws with
  | nil => intro m a _ i hi; exact absurd hi (Nat.not_lt_zero i)
  | cons w ws ih =>
      intro m a hlen i hi
      rw [List.length_cons] at hlen hi
      cases i with
      | zero =>
          rw [List.getElem_cons_zero, Nat.mul_zero, BitVec.add_zero, Mem.storeWords]
          refine Eq.trans (Mem.read_congr (m := m.write a 4 w) (fun k hk => ?_))
            (Mem.read_write_same m a 4 w (by decide))
          exact Mem.storeWords_outside ws _ _ _ (by bv_omega)
      | succ i =>
          have haddr : a + BitVec.ofNat 64 (4 * (i + 1)) = a + 4 + BitVec.ofNat 64 (4 * i) := by
            bv_omega
          rw [List.getElem_cons_succ, haddr]
          exact ih _ (a + 4) (by omega) i (by omega)

/-- Two memories differ at most in volatile bytes strictly below `p`. -/
def AgreeAbove (vol : Addr → Prop) (p : Addr) (m m' : Mem) : Prop :=
  ∀ a, ¬ (vol a ∧ a < p) → m' a = m a

namespace AgreeAbove

variable {vol : Addr → Prop} {p q : Addr} {m m' m'' : Mem}

theorem refl (vol : Addr → Prop) (p : Addr) (m : Mem) : AgreeAbove vol p m m :=
  fun _ _ => rfl

theorem symm (h : AgreeAbove vol p m m') : AgreeAbove vol p m' m :=
  fun a ha => (h a ha).symm

theorem trans (h : AgreeAbove vol p m m') (h' : AgreeAbove vol p m' m'') :
    AgreeAbove vol p m m'' :=
  fun a ha => (h' a ha).trans (h a ha)

/-- A byte that is stable under a bound is stable under a lower one. -/
theorem stable_mono {a : Addr} (hpq : p ≤ q) (h : ¬ (vol a ∧ a < q)) : ¬ (vol a ∧ a < p) := by
  rintro ⟨hvol, hlt⟩
  refine h ⟨hvol, ?_⟩
  bv_omega

/-- Raising the bound only weakens the statement. -/
theorem mono (hpq : p ≤ q) (h : AgreeAbove vol p m m') : AgreeAbove vol q m m' :=
  fun a ha => h a (stable_mono hpq ha)

theorem read {a : Addr} {n : Nat} (h : AgreeAbove vol p m m')
    (hst : ∀ k, k < n → ¬ (vol (a + BitVec.ofNat 64 k) ∧ a + BitVec.ofNat 64 k < p)) :
    m'.read a n = m.read a n :=
  Mem.read_congr (fun k hk => h _ (hst k hk))

end AgreeAbove

end Vpoline
