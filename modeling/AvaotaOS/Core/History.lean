/-
Histories: a state that is handed from one run of a program to the next.

`runs step w l` is the state after the runs `l`; `Each step P w l` says that every run of the list meets `P` in the state
it starts from. `runs_inv` packages the induction: what one run that meets `P` keeps, every such history keeps; `runs_iff`
is the same for a property that a run keeps exactly where it meets `P`. `foldlM_rest` is for steps that may fail, with an
invariant that knows what is still to come.
-/
import Mathlib.Tactic

namespace AvaotaOS.History

variable {σ ρ : Type} (step : σ → ρ → σ)

/-- the state after a list of runs -/
def runs (w : σ) (l : List ρ) : σ := l.foldl step w

/-- every run meets `P` in the state it starts from -/
def Each (P : σ → ρ → Prop) : σ → List ρ → Prop
  | _, [] => True
  | w, r :: l => P w r ∧ Each P (step w r) l

@[simp] theorem runs_nil (w : σ) : runs step w [] = w := rfl

@[simp] theorem runs_cons (w : σ) (r : ρ) (l : List ρ) : runs step w (r :: l) = runs step (step w r) l := rfl

theorem runs_append (w : σ) (l m : List ρ) : runs step w (l ++ m) = runs step (runs step w l) m := by
  simp [runs]

theorem runs_concat (w : σ) (l : List ρ) (r : ρ) : runs step w (l ++ [r]) = step (runs step w l) r := by
  simp [runs]

variable {step} {P Q : σ → ρ → Prop}

/-- **What one run keeps, a history keeps** -/
theorem runs_inv {I : σ → Prop} (hI : ∀ w r, I w → P w r → I (step w r)) {w : σ} {l : List ρ} (hw : I w)
    (hl : Each step P w l) : I (runs step w l) := by
  induction l generalizing w with
  | nil => exact hw
  | cons r l ih => exact ih (hI w r hw hl.1) hl.2

theorem each_true (w : σ) (l : List ρ) : Each step (fun _ _ => True) w l := by
  induction l generalizing w with
  | nil => trivial
  | cons r l ih => exact ⟨trivial, ih _⟩

/-- **What holds after one run exactly where it held before and the run meets `P`** -/
theorem runs_iff {I : σ → Prop} (hI : ∀ w r, I (step w r) ↔ I w ∧ P w r) (w : σ) (l : List ρ) :
    I (runs step w l) ↔ I w ∧ Each step P w l := by
  induction l generalizing w with
  | nil => simp [Each]
  | cons r l ih =>
    rw [runs_cons, ih, hI]
    exact and_assoc

theorem each_of_forall {P : ρ → Prop} {w : σ} {l : List ρ} (h : ∀ r ∈ l, P r) : Each step (fun _ => P) w l := by
  induction l generalizing w with
  | nil => trivial
  | cons r l ih => exact ⟨h r List.mem_cons_self, ih fun x hx => h x (List.mem_cons_of_mem r hx)⟩

theorem each_append {w : σ} {l m : List ρ} :
    Each step P w (l ++ m) ↔ Each step P w l ∧ Each step P (runs step w l) m := by
  induction l generalizing w with
  | nil => simp [Each]
  | cons r l ih => simp [Each, ih, and_assoc]

theorem each_concat {w : σ} {l : List ρ} {r : ρ} :
    Each step P w (l ++ [r]) ↔ Each step P w l ∧ P (runs step w l) r := by
  simp [each_append, Each]

theorem Each.imp {w : σ} {l : List ρ} (h : ∀ w r, P w r → Q w r) (hl : Each step P w l) : Each step Q w l := by
  induction l generalizing w with
  | nil => trivial
  | cons r l ih => exact ⟨h w r hl.1, ih hl.2⟩

/-- **A fold of steps that can fail goes through** if none fails where the invariant holds -/
theorem foldlM_rest {f : σ → ρ → Option σ} (I : List ρ → σ → Prop)
    (hf : ∀ r l w, I (r :: l) w → ∃ w', f w r = some w' ∧ I l w') {l : List ρ} {w : σ} (hw : I l w) :
    ∃ w', l.foldlM f w = some w' ∧ I [] w' := by
  induction l generalizing w with
  | nil => exact ⟨w, rfl, hw⟩
  | cons r l ih =>
    obtain ⟨w', hr, hw'⟩ := hf r l w hw
    obtain ⟨w'', hl, hw''⟩ := ih hw'
    exact ⟨w'', by rw [List.foldlM_cons, hr]; exact hl, hw''⟩

/-- an invariant of runs that can fail -/
theorem foldlM_inv {f : σ → ρ → Option σ} {I : σ → Prop} (hf : ∀ w r v, I w → f w r = some v → I v) {l : List ρ} {w v : σ}
    (hw : I w) (h : l.foldlM f w = some v) : I v := by
  induction l generalizing w with
  | nil =>
    obtain rfl := Option.some.inj h
    exact hw
  | cons r l ih =>
    rw [List.foldlM_cons] at h
    obtain ⟨u, hr, hl⟩ := Option.bind_eq_some_iff.1 h
    exact ih (hf w r u hw hr) hl

end AvaotaOS.History
