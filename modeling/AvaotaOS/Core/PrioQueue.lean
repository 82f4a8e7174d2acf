/-
A queue with priorities, as the list of what waits in the order it came: taken out next is the oldest entry among those of
the highest priority.

`ofPrio p l` is what waits with the priority `p`, in order, and `Flow p came taken held` says that with this priority the
entries taken out and those still held are the ones that came, in order.

- `take_spec`: what is taken out is the first of its priority, no entry of a higher one waits, the others stay in place.
- `Flow.push`, `Flow.take`: each operation keeps the order within every priority.
-/
import Mathlib.Tactic

namespace AvaotaOS.PrioQueue

variable {α : Type*}

abbrev Entry (α : Type*) := ℕ × α

/-- the highest priority in the queue -/
def top (l : List (Entry α)) : ℕ := (l.map Prod.fst).foldr max 0

/-- the entry that is next -/
def next (l : List (Entry α)) : Option (Entry α) := l.find? fun x => x.1 = top l

/-- the queue without it -/
def rest (l : List (Entry α)) : List (Entry α) := l.eraseP fun x => x.1 = top l

/-- what waits with a priority -/
def ofPrio (p : ℕ) (l : List (Entry α)) : List α := (l.filter fun x => x.1 = p).map Prod.snd

variable {l m : List (Entry α)} {x y : Entry α} {p : ℕ}

@[simp] theorem ofPrio_nil : ofPrio p ([] : List (Entry α)) = [] := rfl

@[simp] theorem ofPrio_append : ofPrio p (l ++ m) = ofPrio p l ++ ofPrio p m := by
  rw [ofPrio, List.filter_append, List.map_append]
  rfl

theorem ofPrio_cons_self : ofPrio x.1 (x :: l) = x.2 :: ofPrio x.1 l := by
  simp [ofPrio]

theorem ofPrio_cons_ne (h : x.1 ≠ p) : ofPrio p (x :: l) = ofPrio p l := by
  simp [ofPrio, h]

theorem ofPrio_length_le : (ofPrio p l).length ≤ l.length := by
  rw [ofPrio, List.length_map]
  exact List.length_filter_le _ _

theorem ofPrio_eq_nil (h : ∀ x ∈ l, x.1 ≠ p) : ofPrio p l = [] := by
  rw [ofPrio, List.map_eq_nil_iff, List.filter_eq_nil_iff]
  intro x hx
  simpa using h x hx

/-! ## The next entry -/

@[simp] theorem next_nil : next ([] : List (Entry α)) = none := rfl

@[simp] theorem rest_nil : rest ([] : List (Entry α)) = [] := rfl

theorem le_top (h : x ∈ l) : x.1 ≤ top l := by
  induction l with
  | nil => simp at h
  | cons y l ih =>
    rw [top, List.map_cons, List.foldr_cons]
    obtain rfl | h := List.mem_cons.1 h
    · exact le_max_left _ _
    · exact le_max_of_le_right (ih h)

/-- some entry has the highest priority -/
theorem exists_top (h : l ≠ []) : ∃ x ∈ l, x.1 = top l := by
  induction l with
  | nil => exact absurd rfl h
  | cons y l ih =>
    have htop : top (y :: l) = max y.1 (top l) := rfl
    obtain hle | hlt := le_or_gt (top l) y.1
    · exact ⟨y, List.mem_cons_self, by rw [htop, max_eq_left hle]⟩
    · have hl : l ≠ [] := by
        intro hnil
        simp [hnil, top] at hlt
      obtain ⟨x, hx, he⟩ := ih hl
      exact ⟨x, List.mem_cons_of_mem y hx, by rw [htop, max_eq_right hlt.le, he]⟩

theorem next_none : next l = none ↔ l = [] := by
  rw [next, List.find?_eq_none]
  constructor
  · intro h
    by_contra hl
    obtain ⟨x, hx, he⟩ := exists_top hl
    exact h x hx (by simpa using he)
  · intro h
    simp [h]

theorem next_mem (h : next l = some x) : x ∈ l := List.mem_of_find?_eq_some h

theorem next_top (h : next l = some x) : x.1 = top l := by simpa using List.find?_some h

/-- the entry parts the queue into what waits before it, of a lower priority all, and the others -/
theorem next_split (h : next l = some x) : ∃ a b, l = a ++ x :: b ∧ rest l = a ++ b ∧ ∀ y ∈ a, y.1 ≠ x.1 := by
  have htop := next_top h
  rw [next, List.find?_eq_some_iff_append] at h
  obtain ⟨hx, a, b, hl, ha⟩ := h
  have hne : ∀ y ∈ a, y.1 ≠ top l := by
    intro y hy
    simpa using ha y hy
  refine ⟨a, b, hl, ?_, ?_⟩
  · have hpos : decide (x.1 = top l) = true := by simpa using htop
    have hneg : ∀ y ∈ a, ¬ decide (y.1 = top l) = true := fun y hy => by simpa using hne y hy
    calc rest l = (a ++ x :: b).eraseP fun y => y.1 = top l := by rw [rest, hl]
      _ = a ++ (x :: b).eraseP fun y => y.1 = top l := List.eraseP_append_right _ hneg
      _ = a ++ b := by rw [List.eraseP_cons, hpos, cond_true]
  · intro y hy
    rw [htop]
    exact hne y hy

theorem rest_length (h : next l = some x) : (rest l).length + 1 = l.length := by
  obtain ⟨a, b, hl, hr, -⟩ := next_split h
  rw [hr, hl, List.length_append, List.length_append, List.length_cons, Nat.add_assoc]

theorem mem_of_mem_rest (h : x ∈ rest l) : x ∈ l := List.mem_of_mem_eraseP h

/-- **What is taken out is the first of its priority**, no entry of a higher one waits, and the others stay in place -/
theorem take_spec (h : next l = some x) :
    ofPrio x.1 l = x.2 :: ofPrio x.1 (rest l) ∧ (∀ p, p ≠ x.1 → ofPrio p (rest l) = ofPrio p l) ∧
      ∀ p, x.1 < p → ofPrio p l = [] := by
  obtain ⟨a, b, hl, hr, ha⟩ := next_split h
  have hnil : ofPrio x.1 a = [] := ofPrio_eq_nil ha
  refine ⟨?_, ?_, ?_⟩
  · calc ofPrio x.1 l = ofPrio x.1 a ++ ofPrio x.1 (x :: b) := by rw [hl, ofPrio_append]
      _ = x.2 :: ofPrio x.1 b := by rw [hnil, List.nil_append, ofPrio_cons_self]
      _ = x.2 :: ofPrio x.1 (rest l) := by rw [hr, ofPrio_append, hnil, List.nil_append]
  · intro p hp
    rw [hr, hl, ofPrio_append, ofPrio_append, ofPrio_cons_ne hp.symm]
  · intro p hp
    apply ofPrio_eq_nil
    intro y hy he
    have hle := le_top hy
    rw [← next_top h] at hle
    omega

/-- all priorities after one another are the whole queue -/
theorem flatMap_ofPrio_perm (n : ℕ) (l : List (Entry α)) :
    ((List.range n).flatMap fun p => ofPrio p l).Perm ((l.filter fun x => x.1 < n).map Prod.snd) := by
  induction n with
  | zero => simp
  | succ n ih =>
    have hlow : (l.filter fun x => x.1 < n + 1).filter (fun x => x.1 < n) = l.filter fun x => x.1 < n := by
      rw [List.filter_filter]
      refine List.filter_congr fun x _ => ?_
      simp only [← Bool.decide_and, decide_eq_decide]
      omega
    have hhigh : (l.filter fun x => x.1 < n + 1).filter (fun x => !decide (x.1 < n)) = l.filter fun x => x.1 = n := by
      rw [List.filter_filter]
      refine List.filter_congr fun x _ => ?_
      simp only [← decide_not, ← Bool.decide_and, decide_eq_decide]
      omega
    have hparts := List.filter_append_perm (fun x => decide (x.1 < n)) (l.filter fun x => x.1 < n + 1)
    rw [hlow, hhigh] at hparts
    rw [List.range_succ, List.flatMap_append, List.flatMap_singleton]
    have hmap := hparts.map Prod.snd
    rw [List.map_append] at hmap
    exact (ih.append_right _).trans hmap

/-! ## The order within a priority -/

/-- with the priority `p`, what came is what was taken out and then what is still held -/
def Flow (p : ℕ) (came taken held : List (Entry α)) : Prop := ofPrio p came = ofPrio p taken ++ ofPrio p held

variable {came taken held : List (Entry α)}

theorem Flow.nil : Flow p ([] : List (Entry α)) [] [] := rfl

theorem Flow.push (h : Flow p came taken held) (x : Entry α) : Flow p (came ++ [x]) taken (held ++ [x]) := by
  rw [Flow, ofPrio_append, ofPrio_append, h, List.append_assoc]

theorem Flow.take (h : Flow p came taken held) (hx : next held = some x) : Flow p came (taken ++ [x]) (rest held) := by
  obtain ⟨hself, hother, -⟩ := take_spec hx
  rw [Flow, ofPrio_append, h, List.append_assoc]
  by_cases hp : p = x.1
  · obtain rfl := hp
    rw [hself, ofPrio_cons_self, ofPrio_nil, List.singleton_append]
  · rw [hother p hp, ofPrio_cons_ne fun he => hp he.symm, ofPrio_nil, List.nil_append]

end AvaotaOS.PrioQueue
