import Mathlib.Data.List.Basic
import Vpoline.Lib.Frame

/-!
# Saving and Restoring Registers

A save area is a list of registers with an offset each. Code that spills a
context stores the list, code that brings it back loads the list, and the two
pieces are correct together when they agree on it. Stating both over one list
turns that agreement into a definition: `Slot.save` and `Slot.restore` are
the two instructions of an entry, and a save block is a `map` of the one, a
restore block a `map` of the other.

`run_saves` says what the frame holds after a save block, provided no two
entries overlap. `run_restores` says what the registers hold after a restore
block, provided no register is loaded twice; everything that is not in the
list is untouched. Between the two blocks the registers may have become
anything, as long as the frame has not.

## Main definitions

* `Slot`: A register and its place in the frame.
* `Slot.save`, `Slot.restore`: The instructions of a slot.
* `Sym.value`, `Slot.value`: The register a slot is for.

## Theorems

* `run_append`: Running a concatenation.
* `run_saves`: A save block fills the slots.
* `run_restores`: A restore block reloads the registers.
-/

namespace Vpoline

open RV64

/-- A register, integer or floating-point, and its offset in the frame. -/
structure Slot where
  float : Bool
  reg : Reg
  off : Nat
deriving DecidableEq, Repr

def Slot.save (k : Slot) : Instr :=
  if k.float then .fstore .double k.reg sp (BitVec.ofNat 12 k.off)
  else .store .double k.reg sp (BitVec.ofNat 12 k.off)

def Slot.restore (k : Slot) : Instr :=
  if k.float then .fload .double k.reg sp (BitVec.ofNat 12 k.off)
  else .load .double false k.reg sp (BitVec.ofNat 12 k.off)

/-- What the register of a slot holds. -/
def Sym.value (y : Sym) (k : Slot) : Word :=
  if k.float then y.f k.reg else y.x.get k.reg

/-- The same on a hart. -/
def Slot.value (k : Slot) (c : Core) : Word :=
  if k.float then c.f k.reg else c.get k.reg

/-- Two doublewords of the frame do not overlap. -/
def Apart (o q : Nat) : Prop := o + 8 ≤ q ∨ q + 8 ≤ o

/-- Two slots are for different registers. -/
def OtherReg (j k : Slot) : Prop := j.float ≠ k.float ∨ j.reg ≠ k.reg

instance : DecidableRel Apart := fun o q => inferInstanceAs (Decidable (o + 8 ≤ q ∨ q + 8 ≤ o))

instance : DecidableRel OtherReg :=
  fun j k => inferInstanceAs (Decidable (j.float ≠ k.float ∨ j.reg ≠ k.reg))

theorem run_append (size : Nat) : ∀ (l1 l2 : List Instr) (y : Sym),
    y.run size (l1 ++ l2) = (y.run size l1).bind (fun y' => y'.run size l2) := by
  intro l1
  induction l1 with
  | nil => intro l2 y; rfl
  | cons i is ih =>
      intro l2 y
      simp only [List.cons_append, Sym.run, Option.bind_assoc, ih]

theorem exec_save {size : Nat} (hsize : size < 2048) (y : Sym) (k : Slot)
    (hk : k.off + 8 ≤ size) : y.exec size k.save = some (y.spill k.off (y.value k)) := by
  have hoff : (BitVec.ofNat 12 k.off).toNat = k.off := by
    rw [BitVec.toNat_ofNat, Nat.mod_eq_of_lt (by omega)]
  rcases k with ⟨float, r, o⟩
  cases float with
  | false =>
      simp only [Slot.save, Sym.value, Bool.false_eq_true, if_false, Sym.exec, hoff]
      rw [if_pos ⟨trivial, hk⟩]
  | true =>
      simp only [Slot.save, Sym.value, if_true, Sym.exec, hoff]
      rw [if_pos ⟨trivial, hk⟩]

/-- A save block leaves the registers alone and fills its slots. The
    induction is on the list; a later entry does not disturb an earlier one
    because the two are apart. -/
theorem run_saves {size : Nat} (hsize : size < 2048) : ∀ (l : List Slot) (y : Sym),
    (∀ k ∈ l, k.off + 8 ≤ size) → l.Pairwise (fun j k => Apart j.off k.off) →
    ∃ y', y.run size (l.map Slot.save) = some y' ∧ y'.x = y.x ∧ y'.f = y.f ∧
      (∀ k ∈ l, y'.slots k.off = some (y.value k)) ∧
      (∀ q, (∀ k ∈ l, Apart q k.off) → y'.slots q = y.slots q) := by
  intro l
  induction l with
  | nil =>
      intro y _ _
      exact ⟨y, rfl, rfl, rfl, fun k hk => absurd hk (List.not_mem_nil), fun _ _ => rfl⟩
  | cons k l ih =>
      intro y hfit hpair
      rcases List.pairwise_cons.mp hpair with ⟨hk, hl⟩
      rcases ih (y.spill k.off (y.value k)) (fun j hj => hfit j (List.mem_cons_of_mem _ hj)) hl
        with ⟨y', hrun, hx, hf, hslot, hother⟩
      have hhead := exec_save hsize y k (hfit k List.mem_cons_self)
      refine ⟨y', ?_, hx, hf, ?_, ?_⟩
      · simp only [List.map_cons, Sym.run, hhead, Option.bind_some, hrun]
      · intro j hj
        rcases List.mem_cons.mp hj with rfl | hjl
        · -- The rest of the block stores apart from the head.
          rw [hother j.off hk]
          simp only [Sym.spill, if_true]
        · exact hslot j hjl
      · intro q hq
        rw [hother q (fun j hj => hq j (List.mem_cons_of_mem _ hj))]
        have hqk := hq k List.mem_cons_self
        simp only [Sym.spill, Apart] at hqk ⊢
        rw [if_neg (by omega), if_pos hqk]

/-- The state after reloading one slot. -/
def Sym.reload (y : Sym) (k : Slot) (v : Word) : Sym :=
  if k.float then y.setF k.reg v else { y with x := y.x.set k.reg v }

theorem exec_restore (size : Nat) (y : Sym) (k : Slot) (v : Word)
    (hv : y.slots k.off = some v) (hoff : k.off < 4096) (hsp : k.float = false → k.reg ≠ sp) :
    y.exec size k.restore = some (y.reload k v) := by
  have hnat : (BitVec.ofNat 12 k.off).toNat = k.off := by
    rw [BitVec.toNat_ofNat, Nat.mod_eq_of_lt hoff]
  rcases k with ⟨float, r, o⟩
  cases float with
  | false =>
      simp only [Slot.restore, Sym.reload, Bool.false_eq_true, if_false, Sym.exec, hnat, if_true,
        hv, Option.bind_some, Sym.setX]
      rw [if_neg (hsp rfl)]
  | true =>
      simp only [Slot.restore, Sym.reload, if_true, Sym.exec, hnat, hv, Option.map_some]

theorem value_reload_self (y : Sym) (k : Slot) (v : Word) (h0 : k.float = false → k.reg ≠ 0) :
    (y.reload k v).value k = v := by
  rcases k with ⟨float, r, o⟩
  cases float with
  | false =>
      simp only [Sym.reload, Sym.value, Bool.false_eq_true, if_false]
      exact get_set_self _ _ _ (h0 rfl)
  | true => simp only [Sym.reload, Sym.value, Sym.setF, if_true]

theorem value_reload_other (y : Sym) (j k : Slot) (v : Word) (h : OtherReg j k) :
    (y.reload k v).value j = y.value j := by
  rcases j with ⟨jf, jr, jo⟩
  rcases k with ⟨kf, kr, ko⟩
  simp only [OtherReg] at h
  cases kf with
  | false =>
      cases jf with
      | false =>
          simp only [Sym.reload, Sym.value, Bool.false_eq_true, if_false]
          exact get_set_other _ _ _ _ (h.resolve_left (fun hne => hne rfl))
      | true => simp only [Sym.reload, Sym.value, Bool.false_eq_true, if_false, if_true]
  | true =>
      cases jf with
      | false => simp only [Sym.reload, Sym.value, Sym.setF, Bool.false_eq_true, if_false, if_true]
      | true =>
          simp only [Sym.reload, Sym.value, Sym.setF, if_true]
          rw [if_neg (h.resolve_left (fun hne => hne rfl))]

theorem slots_reload (y : Sym) (k : Slot) (v : Word) : (y.reload k v).slots = y.slots := by
  simp only [Sym.reload, Sym.setF]
  split <;> rfl

/-- A restore block reloads every register in the list and no other. -/
theorem run_restores (size : Nat) (v : Slot → Word) : ∀ (l : List Slot) (y : Sym),
    (∀ k ∈ l, y.slots k.off = some (v k) ∧ k.off < 4096) →
    (∀ k ∈ l, k.float = false → k.reg ≠ sp ∧ k.reg ≠ 0) →
    l.Pairwise OtherReg →
    ∃ y', y.run size (l.map Slot.restore) = some y' ∧ y'.slots = y.slots ∧
      (∀ k ∈ l, y'.value k = v k) ∧
      (∀ j, (∀ k ∈ l, OtherReg j k) → y'.value j = y.value j) := by
  intro l
  induction l with
  | nil =>
      intro y _ _ _
      exact ⟨y, rfl, rfl, fun k hk => absurd hk (List.not_mem_nil), fun _ _ => rfl⟩
  | cons k l ih =>
      intro y hslots hreg hpair
      rcases List.pairwise_cons.mp hpair with ⟨hk, hl⟩
      rcases hslots k List.mem_cons_self with ⟨hvk, hoff⟩
      rcases ih (y.reload k (v k))
        (fun j hj => by
          rw [slots_reload]
          exact hslots j (List.mem_cons_of_mem _ hj))
        (fun j hj => hreg j (List.mem_cons_of_mem _ hj)) hl
        with ⟨y', hrun, hkeep, hval, hother⟩
      have hhead := exec_restore size y k (v k) hvk hoff
        (fun hf => (hreg k List.mem_cons_self hf).1)
      refine ⟨y', ?_, ?_, ?_, ?_⟩
      · simp only [List.map_cons, Sym.run, hhead, Option.bind_some, hrun]
      · rw [hkeep, slots_reload]
      · intro j hj
        rcases List.mem_cons.mp hj with rfl | hjl
        · -- The head is not reloaded by the rest of the list.
          rw [hother j (fun i hi => hk i hi)]
          exact value_reload_self y j (v j) (fun hf => (hreg j List.mem_cons_self hf).2)
        · exact hval j hjl
      · intro j hj
        rw [hother j (fun i hi => hj i (List.mem_cons_of_mem _ hi))]
        exact value_reload_other y j k (v k) (hj k List.mem_cons_self)

end Vpoline
