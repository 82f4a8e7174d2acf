/-
Cyclic redundancy checks: a register of `w` bits that shifts to the left, with the polynomial fed back, and takes in a bit at
a time.

The register is linear (`crc_xor`), so what a check notices depends only on the bits in which two words differ: an error goes
unnoticed where it leaves a register that starts with 0 at 0.

- `crc_own`: a word followed by its own check leaves the register at 0.
- `burst`: an error inside of `w` bits that follow each other is noticed, in a word of any length.
- `weight`: with a polynomial of odd parity, an error of fewer than four bits is, in a word not longer than its order.
-/
import Mathlib.Tactic

namespace AvaotaOS.Crc

variable {w : ℕ} (poly : BitVec w)

def shift (c : BitVec w) : BitVec w := if c.msb then (c <<< 1) ^^^ poly else c <<< 1

def feed (c : BitVec w) (b : Bool) : BitVec w := if b then shift poly c ^^^ poly else shift poly c

/-- the register `c` after the bits `l` -/
def crc (c : BitVec w) (l : List Bool) : BitVec w := l.foldl (feed poly) c

variable {poly} {c d : BitVec w} {l m : List Bool}

@[simp] theorem crc_nil : crc poly c [] = c := rfl

@[simp] theorem crc_cons (b : Bool) : crc poly c (b :: l) = crc poly (feed poly c b) l := rfl

@[simp] theorem crc_append : crc poly c (l ++ m) = crc poly (crc poly c l) m := List.foldl_append

/-! ## Linearity -/

theorem xor_cancel (a b p : BitVec w) : a ^^^ p ^^^ (b ^^^ p) = a ^^^ b := by
  calc a ^^^ p ^^^ (b ^^^ p) = a ^^^ b ^^^ (p ^^^ p) := by ac_rfl
    _ = a ^^^ b := by rw [BitVec.xor_self, BitVec.xor_zero]

theorem shift_xor (c d : BitVec w) : shift poly (c ^^^ d) = shift poly c ^^^ shift poly d := by
  cases hc : c.msb <;> cases hd : d.msb <;> simp only [shift, BitVec.msb_xor, hc, hd, BitVec.shiftLeft_xor_distrib] <;>
    simp only [Bool.false_xor, Bool.true_xor, Bool.not_true, Bool.not_false, if_true, Bool.false_eq_true, if_false]
  · ac_rfl
  · ac_rfl
  · exact (xor_cancel _ _ _).symm

theorem feed_xor (x y : Bool) : feed poly (c ^^^ d) (x ^^ y) = feed poly c x ^^^ feed poly d y := by
  cases x <;> cases y <;> simp only [feed, shift_xor] <;>
    simp only [Bool.false_xor, Bool.true_xor, Bool.not_true, Bool.not_false, if_true, Bool.false_eq_true, if_false]
  · ac_rfl
  · ac_rfl
  · exact (xor_cancel _ _ _).symm

/-- the bits in which two words differ -/
def diff (l m : List Bool) : List Bool := List.zipWith (· ^^ ·) l m

/-- **The register is linear** -/
theorem crc_xor (h : l.length = m.length) : crc poly (c ^^^ d) (diff l m) = crc poly c l ^^^ crc poly d m := by
  induction l generalizing m c d with
  | nil =>
    obtain rfl := List.length_eq_zero_iff.1 h.symm
    rfl
  | cons x l ih =>
    cases m with
    | nil => simp at h
    | cons y m =>
      rw [diff, List.zipWith_cons_cons, crc_cons, feed_xor]
      exact ih (Nat.succ.inj h)

/-- two words that leave one register differ in an error that leaves it at 0 -/
theorem crc_diff (h : l.length = m.length) (he : crc poly c l = crc poly c m) : crc poly 0#w (diff l m) = 0#w := by
  have hx : crc poly (c ^^^ c) (diff l m) = crc poly c l ^^^ crc poly c m := crc_xor h
  rwa [BitVec.xor_self, he, BitVec.xor_self] at hx

theorem diff_length (h : l.length = m.length) : (diff l m).length = l.length := by
  rw [diff, List.length_zipWith, h, min_self]

theorem eq_of_diff (h : l.length = m.length) (hd : ∀ b ∈ diff l m, b = false) : l = m := by
  induction l generalizing m with
  | nil => exact (List.length_eq_zero_iff.1 h.symm).symm
  | cons x l ih =>
    cases m with
    | nil => simp at h
    | cons y m =>
      rw [diff, List.zipWith_cons_cons, List.forall_mem_cons] at hd
      have hxy : x = y := by simpa using hd.1
      rw [hxy, ih (Nat.succ.inj h) hd.2]

/-! ## Zeros -/

@[simp] theorem shift_zero : shift poly 0#w = 0#w := by
  simp [shift]

@[simp] theorem feed_zero : feed poly 0#w false = 0#w := shift_zero

theorem crc_zeros (n : ℕ) : crc poly c (List.replicate n false) = (shift poly)^[n] c := by
  induction n generalizing c with
  | zero => rfl
  | succ n ih => exact ih

theorem shifts_zero (n : ℕ) : (shift poly)^[n] 0#w = 0#w := Function.iterate_fixed shift_zero n

/-- a polynomial with a constant term loses nothing when the register shifts -/
theorem shift_eq_zero (hp : poly.getLsbD 0 = true) (h : shift poly c = 0#w) : c = 0#w := by
  have hmsb : c.msb = false := by
    by_contra hc
    have hc : c.msb = true := by simpa using hc
    rw [shift, if_pos hc] at h
    have hbit := congrArg (fun x : BitVec w => x.getLsbD 0) h
    simp [hp] at hbit
  rw [shift, hmsb, if_neg (by simp)] at h
  apply BitVec.eq_of_getLsbD_eq
  intro i hi
  rw [BitVec.getLsbD_zero]
  by_cases hlast : i + 1 < w
  · have hbit := congrArg (fun x : BitVec w => x.getLsbD (i + 1)) h
    simpa [hlast, BitVec.getLsbD_eq_getElem hi] using hbit
  · obtain rfl : i = w - 1 := by omega
    rwa [BitVec.msb_eq_getLsbD_last] at hmsb

theorem shifts_eq_zero (hp : poly.getLsbD 0 = true) {n : ℕ} (h : (shift poly)^[n] c = 0#w) : c = 0#w := by
  induction n with
  | zero => exact h
  | succ n ih =>
    rw [Function.iterate_succ_apply'] at h
    exact ih (shift_eq_zero hp h)

/-- zeros before and after an error do not matter -/
theorem crc_frame (hp : poly.getLsbD 0 = true) (i j : ℕ) :
    crc poly 0#w (List.replicate i false ++ l ++ List.replicate j false) = 0#w ↔ crc poly 0#w l = 0#w := by
  rw [crc_append, crc_append, crc_zeros, crc_zeros, shifts_zero]
  constructor
  · exact shifts_eq_zero hp
  · intro h
    rw [h, shifts_zero]

/-! ## The check of a word -/

/-- the first `n` bits of a register -/
def bits (c : BitVec w) (n : ℕ) : List Bool := (List.range n).map c.getMsbD

/-- **A register that takes in its own bits is shifted out** -/
theorem crc_own (n : ℕ) : crc poly c (bits c n) = c <<< n := by
  induction n with
  | zero => simp [bits]
  | succ n ih =>
    have hsnoc : bits c (n + 1) = bits c n ++ [c.getMsbD n] := by
      rw [bits, List.range_succ, List.map_append]
      rfl
    have hmsb : (c <<< n).msb = c.getMsbD n := by simp [BitVec.msb]
    rw [hsnoc, crc_append, ih, crc_cons, crc_nil, ← hmsb, BitVec.shiftLeft_add]
    cases hb : (c <<< n).msb
    · simp [feed, shift, hb]
    · simp [feed, shift, hb, BitVec.xor_assoc]

/-- a word followed by its check leaves the register at 0 -/
theorem crc_check : crc poly c (l ++ bits (crc poly c l) w) = 0#w := by
  rw [crc_append, crc_own]
  exact BitVec.shiftLeft_eq_zero (le_refl w)

theorem bits_length (n : ℕ) : (bits c n).length = n := by simp [bits]

/-- the bits of a register whose first ones are given -/
theorem exists_bits (h : l.length = w) : ∃ c : BitVec w, bits c w = l := by
  obtain rfl := h
  refine ⟨BitVec.ofBoolListBE l, ?_⟩
  apply List.ext_getElem (by simp [bits])
  intro i hi hl
  simp [bits, BitVec.getMsbD_ofBoolListBE, hl]

/-- an error that fills the register at most -/
theorem crc_short (hp : poly.getLsbD 0 = true) (hl : l.length ≤ w) (h : crc poly 0#w l = 0#w) : ∀ b ∈ l, b = false := by
  obtain ⟨c, hc⟩ : ∃ c : BitVec w, bits c w = l ++ List.replicate (w - l.length) false :=
    exists_bits (by rw [List.length_append, List.length_replicate]; omega)
  have hzero : crc poly 0#w (bits c w) = 0#w := by
    rw [hc, crc_append, h, crc_zeros, shifts_zero]
  have hown : crc poly c (bits c w) = 0#w := by
    rw [crc_own]
    exact BitVec.shiftLeft_eq_zero (le_refl w)
  have hshift : (shift poly)^[w] c = 0#w := by
    -- the register with its own bits is the one without bits and the bits by themselves
    have hx : crc poly (c ^^^ 0#w) (diff (List.replicate w false) (bits c w)) =
        crc poly c (List.replicate w false) ^^^ crc poly 0#w (bits c w) := crc_xor (by simp [bits])
    have hd : diff (List.replicate w false) (bits c w) = bits c w := by
      apply List.ext_getElem (by simp [diff, bits])
      intro i _ _
      simp [diff, bits]
    rw [hd, BitVec.xor_zero, hown, hzero, BitVec.xor_zero, crc_zeros] at hx
    exact hx.symm
  intro b hb
  have hmem : b ∈ bits c w := by
    rw [hc]
    exact List.mem_append_left _ hb
  rw [shifts_eq_zero hp hshift] at hmem
  have hz : (∃ x, x < w) ∧ b = false := by simpa [bits] using hmem
  exact hz.2

/-- **A burst of at most `w` bits is noticed**, in a word of any length -/
theorem burst (hp : poly.getLsbD 0 = true) {i j : ℕ} (hl : l.length ≤ w)
    (h : crc poly 0#w (List.replicate i false ++ l ++ List.replicate j false) = 0#w) : ∀ b ∈ l, b = false :=
  crc_short hp hl ((crc_frame hp i j).1 h)

/-! ## Few bits -/

/-- a parity of the register that a shift keeps and the polynomial changes -/
structure Parity (poly : BitVec w) (par : BitVec w → Bool) : Prop where
  shift : ∀ c, par (Crc.shift poly c) = par c
  flip : ∀ c, par (c ^^^ poly) = !par c

variable {par : BitVec w → Bool}

theorem feed_parity (h : Parity poly par) (b : Bool) : par (feed poly c b) = (par c ^^ b) := by
  cases b
  · simp [feed, h.shift]
  · simp [feed, h.flip, h.shift]

/-- the register has the parity of the bits it has taken in -/
theorem crc_parity (h : Parity poly par) : par (crc poly c l) = (par c ^^ decide (l.count true % 2 = 1)) := by
  induction l generalizing c with
  | nil => simp
  | cons b l ih =>
    rw [crc_cons, ih, feed_parity h]
    cases b
    · simp
    · have hodd : decide ((l.count true + 1) % 2 = 1) = !decide (l.count true % 2 = 1) := by
        rw [← decide_not, decide_eq_decide]
        omega
      rw [List.count_cons_self, hodd]
      simp

theorem count_even (h : Parity poly par) (hl : crc poly 0#w l = 0#w) : l.count true % 2 = 0 := by
  have hp := crc_parity (c := 0#w) (l := l) h
  rw [hl] at hp
  by_contra hne
  have hodd : l.count true % 2 = 1 := by omega
  simp [hodd] at hp

/-- the first bit of an error -/
theorem split_first (h : true ∈ l) : ∃ i m, l = List.replicate i false ++ true :: m := by
  induction l with
  | nil => simp at h
  | cons b l ih =>
    cases b
    · obtain ⟨i, m, rfl⟩ := ih (by simpa using h)
      exact ⟨i + 1, m, by simp [List.replicate_succ]⟩
    · exact ⟨0, l, rfl⟩

theorem eq_zeros (h : l.count true = 0) : l = List.replicate l.length false := by
  rw [List.eq_replicate_iff]
  refine ⟨rfl, fun b hb => ?_⟩
  cases b
  · rfl
  · exact absurd hb (List.count_eq_zero.1 h)

/-- **Two bits are noticed** when they are nearer to each other than the order of the polynomial -/
theorem two_bits (hp : poly.getLsbD 0 = true) {n : ℕ} (hn : ∀ d, 0 < d → d < n → (shift poly)^[d] poly ≠ poly)
    (hl : l.length ≤ n) (h2 : l.count true = 2) : crc poly 0#w l ≠ 0#w := by
  obtain ⟨i, m, rfl⟩ := split_first (l := l) (List.count_pos_iff.1 (by omega))
  have hm : m.count true = 1 := by simpa [List.count_replicate] using h2
  obtain ⟨d, k, rfl⟩ := split_first (l := m) (List.count_pos_iff.1 (by omega))
  have hk : k.count true = 0 := by simpa [List.count_replicate] using hm
  intro h
  rw [eq_zeros hk] at h
  have hzero : crc poly 0#w (true :: (List.replicate d false ++ [true])) = 0#w := by
    apply (crc_frame hp i k.length).1
    simpa using h
  have hmeet : (shift poly)^[d + 1] poly ^^^ poly = 0#w := by
    have hfirst : feed poly 0#w true = poly := by simp [feed]
    rw [Function.iterate_succ_apply']
    rwa [crc_cons, hfirst, crc_append, crc_zeros, crc_cons, crc_nil, feed, if_pos rfl] at hzero
  apply hn (d + 1) (by omega) ?_ (BitVec.xor_eq_zero_iff.1 hmeet)
  simp only [List.length_append, List.length_replicate, List.length_cons] at hl
  omega

/-- **An error of fewer than four bits is noticed** -/
theorem weight (hp : poly.getLsbD 0 = true) (hpar : Parity poly par) {n : ℕ}
    (hn : ∀ d, 0 < d → d < n → (shift poly)^[d] poly ≠ poly) (hl : l.length ≤ n) (h : crc poly 0#w l = 0#w)
    (hne : true ∈ l) : 4 ≤ l.count true := by
  have heven := count_even hpar h
  have hpos : 0 < l.count true := List.count_pos_iff.2 hne
  have htwo : l.count true ≠ 2 := fun h2 => two_bits hp hn hl h2 h
  omega

end AvaotaOS.Crc
