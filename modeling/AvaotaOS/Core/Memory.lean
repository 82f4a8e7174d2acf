/-
Memory as a function of its address: reading and writing runs of cells, with addresses that wrap.

`read m a n` is the list of the `n` cells from `a` on, `write m a l` puts a list there, and `Within a n x` says that `x` is
one of those cells. What is written reads back (`read_write_self`), and nothing else changes (`write_other`); a run is
read in pieces (`read_add`).
-/
import Mathlib.Tactic

namespace AvaotaOS.Memory

variable {w : ℕ} {β : Type}

abbrev Mem (w : ℕ) (β : Type) := BitVec w → β

/-- the `n` cells from `a` on -/
def read (m : Mem w β) (a : BitVec w) (n : ℕ) : List β := (List.range n).map fun i => m (a + BitVec.ofNat w i)

/-- put a list at `a` -/
def write (m : Mem w β) (a : BitVec w) (l : List β) : Mem w β := fun x => (l[(x - a).toNat]?).getD (m x)

/-- `x` is one of the `n` cells from `a` on -/
def Within (a : BitVec w) (n : ℕ) (x : BitVec w) : Prop := (x - a).toNat < n

/-- the two runs of `n` cells have no cell in common -/
def Apart (a b : BitVec w) (n : ℕ) : Prop := ∀ x, Within a n x → ¬ Within b n x

@[simp] theorem read_length (m : Mem w β) (a : BitVec w) (n : ℕ) : (read m a n).length = n := by
  simp [read]

@[simp] theorem read_zero (m : Mem w β) (a : BitVec w) : read m a 0 = [] := rfl

theorem read_add (m : Mem w β) (a : BitVec w) (n k : ℕ) :
    read m a (n + k) = read m a n ++ read m (a + BitVec.ofNat w n) k := by
  simp only [read, List.range_add, List.map_append, List.map_map]
  congr 1
  apply List.map_congr_left
  intro i _
  simp [BitVec.ofNat_add, BitVec.add_assoc]

theorem toNat_offset (a : BitVec w) {i : ℕ} (hi : i < 2 ^ w) : (a + BitVec.ofNat w i - a).toNat = i := by
  rw [BitVec.add_comm, BitVec.add_sub_cancel, BitVec.toNat_ofNat, Nat.mod_eq_of_lt hi]

theorem within_ofNat {a : BitVec w} {n i : ℕ} (hi : i < n) (hn : n ≤ 2 ^ w) : Within a n (a + BitVec.ofNat w i) := by
  rw [Within, toNat_offset a (by omega)]
  exact hi

/-- a run depends on its own cells only -/
theorem read_congr {m m' : Mem w β} {a : BitVec w} {n : ℕ} (hn : n ≤ 2 ^ w) (h : ∀ x, Within a n x → m x = m' x) :
    read m a n = read m' a n := by
  apply List.map_congr_left
  intro i hi
  exact h _ (within_ofNat (List.mem_range.1 hi) hn)

theorem write_other {m : Mem w β} {a x : BitVec w} {l : List β} (h : ¬ Within a l.length x) : write m a l x = m x := by
  rw [Within, not_lt] at h
  rw [write, List.getElem?_eq_none h, Option.getD_none]

theorem read_write_self (m : Mem w β) (a : BitVec w) {l : List β} (hl : l.length ≤ 2 ^ w) :
    read (write m a l) a l.length = l := by
  apply List.ext_getElem (by simp)
  intro i _ hi
  have hc : write m a l (a + BitVec.ofNat w i) = l[i] := by
    rw [write, toNat_offset a (by omega), List.getElem?_eq_getElem hi, Option.getD_some]
  simpa [read] using hc

end AvaotaOS.Memory
