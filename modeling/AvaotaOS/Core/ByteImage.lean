/-
Files as lists of cells, and block-wise writes into them: the effect of `dd if=F of=G bs=B seek=N [conv=notrunc]`.

- `overlay z img off data`: write `data` at offset `off` of `img`, filling a gap with `z`.
- `dd`: without `conv=notrunc` a regular output file is first cut (or extended) to `seek * bs` cells; with it, cells
  outside the written range are kept.
- `slice img a n`: what a reader of `n` cells at offset `a` gets.

Frame rules, for a write that stays inside the file: the length stays (`overlay_length`), a disjoint slice stays
(`slice_overlay_disjoint`), the written slice reads back (`slice_overlay_self`). A truncating `dd` leaves a file that
ends where the written data ends (`dd_trunc_length`).
-/
import Mathlib.Tactic

namespace AvaotaOS.ByteImage

variable {α : Type}

/-- extend `img` with `z` to at least `n` cells -/
def pad (z : α) (n : ℕ) (img : List α) : List α := img ++ List.replicate (n - img.length) z

/-- write `data` at offset `off` -/
def overlay (z : α) (img : List α) (off : ℕ) (data : List α) : List α :=
  (pad z off img).take off ++ data ++ img.drop (off + data.length)

/-- cut or extend a file to `n` cells -/
def truncate (z : α) (n : ℕ) (img : List α) : List α := (pad z n img).take n

/-- `n` cells from offset `a` on -/
def slice (img : List α) (a n : ℕ) : List α := (img.drop a).take n

/-- the operands of `dd` that decide where the output goes -/
structure DdOpts where
  bs : ℕ := 512
  seek : ℕ
  notrunc : Bool
deriving DecidableEq, Repr

/-- `dd if=data of=img` -/
def dd (z : α) (o : DdOpts) (data img : List α) : List α :=
  if o.notrunc then overlay z img (o.seek * o.bs) data
  else overlay z (truncate z (o.seek * o.bs) img) (o.seek * o.bs) data

theorem pad_of_le (z : α) {n : ℕ} {img : List α} (h : n ≤ img.length) : pad z n img = img := by
  simp [pad, Nat.sub_eq_zero_of_le h]

theorem truncate_length (z : α) (n : ℕ) (img : List α) : (truncate z n img).length = n := by
  simp only [truncate, pad, List.length_take, List.length_append, List.length_replicate]
  omega

/-- a write inside the file is a splice -/
theorem overlay_of_le (z : α) {img : List α} {off : ℕ} {data : List α} (h : off + data.length ≤ img.length) :
    overlay z img off data = img.take off ++ data ++ img.drop (off + data.length) := by
  rw [overlay, pad_of_le z (by omega)]

theorem overlay_length (z : α) {img : List α} {off : ℕ} {data : List α} (h : off + data.length ≤ img.length) :
    (overlay z img off data).length = img.length := by
  rw [overlay_of_le z h]
  simp only [List.length_append, List.length_take, List.length_drop]
  omega

theorem slice_eq_of_getElem? {a b : List α} {o n : ℕ} (h : ∀ i, o ≤ i → i < o + n → a[i]? = b[i]?) :
    slice a o n = slice b o n := by
  apply List.ext_getElem?
  intro i
  simp only [slice, List.getElem?_take, List.getElem?_drop]
  split
  · exact h (o + i) (by omega) (by omega)
  · rfl

/-- what a write inside the file leaves at a cell outside the written range -/
theorem getElem?_overlay (z : α) {img : List α} {off : ℕ} {data : List α} (h : off + data.length ≤ img.length) (i : ℕ)
    (hi : i < off ∨ off + data.length ≤ i) : (overlay z img off data)[i]? = img[i]? := by
  rw [overlay_of_le z h, List.append_assoc]
  have hl : (img.take off).length = off := by rw [List.length_take]; omega
  rcases hi with hi | hi
  · rw [List.getElem?_append_left (by omega), List.getElem?_take_of_lt hi]
  · rw [List.getElem?_append_right (by omega), List.getElem?_append_right (by omega), List.getElem?_drop, hl]
    congr 1; omega

/-- **Frame**: a slice disjoint from the written range stays -/
theorem slice_overlay_disjoint (z : α) {img : List α} {off : ℕ} {data : List α} {a n : ℕ}
    (h : off + data.length ≤ img.length) (hd : a + n ≤ off ∨ off + data.length ≤ a) :
    slice (overlay z img off data) a n = slice img a n :=
  slice_eq_of_getElem? fun i hi1 hi2 => getElem?_overlay z h i (by omega)

/-- **Read back**: the written range holds the data -/
theorem slice_overlay_self (z : α) {img : List α} {off : ℕ} {data : List α} (h : off + data.length ≤ img.length) :
    slice (overlay z img off data) off data.length = data := by
  have hl : (img.take off).length = off := by rw [List.length_take]; omega
  rw [overlay_of_le z h, slice, List.append_assoc, List.drop_append_of_le_length hl.ge, List.drop_of_length_le hl.le,
    List.nil_append, List.take_left]

/-- a truncating `dd` leaves a file that ends where the data ends -/
theorem dd_trunc_length (z : α) {o : DdOpts} (ho : o.notrunc = false) (data img : List α) :
    (dd z o data img).length = o.seek * o.bs + data.length := by
  have hl := truncate_length z (o.seek * o.bs) img
  rw [dd, ho, if_neg (by decide), overlay, pad_of_le z hl.ge, List.take_of_length_le hl.le,
    List.drop_of_length_le (by omega), List.append_nil, List.length_append, hl]

theorem dd_notrunc (z : α) {o : DdOpts} (ho : o.notrunc = true) (data img : List α) :
    dd z o data img = overlay z img (o.seek * o.bs) data := by
  rw [dd, if_pos ho]

end AvaotaOS.ByteImage
