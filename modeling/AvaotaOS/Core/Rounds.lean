/-
A loop whose number of rounds nothing bounds beforehand: each round goes on with another state or leaves with a result.

`rounds` runs at most so many rounds; `Ends` says how the loop ends, after any number of them.

- `Ends.unique`: one start, one result.
- `ends_of_measure`: a number that falls with every round ends the loop.
- `rounds_of_ends`: and bounds the rounds.
- `not_ends_of_invariant`: a property that every round keeps, and under which none leaves, keeps the loop going.
-/
import Mathlib.Tactic

namespace AvaotaOS.Rounds

variable {σ ρ : Type*}

/-- what a round comes to -/
inductive Round (σ ρ : Type*) where
  | next (s : σ)
  | leave (r : ρ)

def rounds (f : σ → Round σ ρ) : ℕ → σ → Option ρ
  | 0, _ => none
  | n + 1, s =>
    match f s with
    | .next t => rounds f n t
    | .leave r => some r

/-- the loop that starts with `s` leaves with `r` -/
inductive Ends (f : σ → Round σ ρ) : σ → ρ → Prop where
  | leave {s r} : f s = .leave r → Ends f s r
  | next {s t r} : f s = .next t → Ends f t r → Ends f s r

variable {f : σ → Round σ ρ} {s t : σ} {r : ρ}

theorem Ends.of_next (hs : f s = .next t) : Ends f s r ↔ Ends f t r := by
  constructor
  · intro h
    cases h with
    | leave h => simp [hs] at h
    | next h he => rwa [Round.next.inj (hs.symm.trans h)]
  · exact Ends.next hs

/-- **One start, one result** -/
theorem Ends.unique {q : ρ} (h : Ends f s r) (hq : Ends f s q) : q = r := by
  induction h with
  | leave hs =>
    cases hq with
    | leave h => exact Round.leave.inj (h.symm.trans hs)
    | next h _ => simp [hs] at h
  | next hs _ ih => exact ih ((Ends.of_next hs).1 hq)

/-- **A number that falls with every round ends the loop** -/
theorem ends_of_measure (m : σ → ℕ) (hm : ∀ s t, f s = .next t → m t < m s) (s : σ) : ∃ r, Ends f s r := by
  induction s using (measure m).wf.induction with
  | _ s ih =>
    cases hs : f s with
    | leave r => exact ⟨r, Ends.leave hs⟩
    | next t =>
      obtain ⟨r, hr⟩ := ih t (hm s t hs)
      exact ⟨r, Ends.next hs hr⟩

/-- **It bounds the rounds** -/
theorem rounds_of_ends (m : σ → ℕ) (hm : ∀ s t, f s = .next t → m t < m s) (h : Ends f s r) {n : ℕ} (hn : m s < n) :
    rounds f n s = some r := by
  induction h generalizing n with
  | leave hs =>
    cases n with
    | zero => omega
    | succ n => simp [rounds, hs]
  | @next s t r hs _ ih =>
    cases n with
    | zero => omega
    | succ n =>
      have hlt := hm s t hs
      simp only [rounds, hs]
      exact ih (by omega)

/-- **A loop that only goes on, from states of one kind to states of this kind, does not end** -/
theorem not_ends_of_invariant (I : σ → Prop) (hI : ∀ s, I s → ∃ t, f s = .next t ∧ I t) (hs : I s) : ¬ Ends f s r := by
  intro h
  induction h with
  | leave hl =>
    obtain ⟨t, ht, -⟩ := hI _ hs
    simp [hl] at ht
  | next hn _ ih =>
    obtain ⟨t, ht, hi⟩ := hI _ hs
    obtain rfl := Round.next.inj (hn.symm.trans ht)
    exact ih hi

end AvaotaOS.Rounds
