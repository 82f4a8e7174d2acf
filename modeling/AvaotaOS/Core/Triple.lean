/-
Pre- and postconditions of scripts that run under errexit. A script can leave off at any command, so `Triple X I a J K`
has two postconditions: from a world in `I` the script `a` either gets through, and then the world is in `J`, or is
stopped on its way, and then the world is in `K`.

One rule a construct (`Triple.cmd`, `Triple.seq`, `Triple.cond`, ..), `Triple.inv` for the parts that only have to keep
an invariant, and `Triple.block` for a block whose commands do something definite where they succeed. A postcondition that
is never met says that a script does not get through (`Triple.blocked`), or that nothing stops it (`Triple.steady`). Where
it does not matter which of the two it is, there is one postcondition (`Ends`).
`eval_nominal` compares a run with one in which nothing fails, and `eval_comap` moves a script to a larger world that contains
the one it was written for.
-/
import Mathlib.Tactic
import AvaotaOS.Core.Shell

namespace AvaotaOS.Shell

variable {κ σ τ : Type} {X : κ → σ → Stat × σ} {I I' J J' K K' L : σ → Prop} {a b : Sh κ σ}

structure Triple (X : κ → σ → Stat × σ) (I : σ → Prop) (a : Sh κ σ) (J K : σ → Prop) : Prop where
  through : ∀ s : St κ σ, s.e = true → s.out = .run → I s.w → (eval X false a s).out = .run →
    (eval X false a s).e = true ∧ J (eval X false a s).w
  stopped : ∀ s : St κ σ, s.e = true → s.out = .run → I s.w → (eval X false a s).out ≠ .run →
    K (eval X false a s).w

/-- a script is killed in one of its commands only -/
theorem eval_alive (hX : ∀ c w, (X c w).1 ≠ .killed) (ign : Bool) (a : Sh κ σ) (s : St κ σ) (h : s.out ≠ .killed) :
    (eval X ign a s).out ≠ .killed := by
  have hnext : ∀ {t : St κ σ} {f : St κ σ → St κ σ}, t.out ≠ .killed → (f t).out ≠ .killed → (t.next f).out ≠ .killed := by
    intro t f ht hf
    by_cases hr : t.out = .run
    · rwa [next_run hr]
    · rwa [next_stop hr]
  induction a generalizing ign s with
  | nop | tt | errexit _ => exact h
  | exit n => simp [eval]
  | cmd c =>
    rw [eval, simple]
    cases hc : (X c s.w).1 with
    | ok => exact h
    | fail =>
      dsimp only [check]
      split_ifs
      · simp
      · exact h
    | killed => exact absurd hc (hX c s.w)
  | seq a b iha ihb => exact hnext (iha ign s h) (ihb ign _ (iha ign s h))
  | ite c t e ihc iht ihe =>
    refine hnext (ihc true s h) ?_
    split_ifs
    · exact iht ign _ (ihc true s h)
    · exact ihe ign _ (ihc true s h)
  | cond b t e iht ihe =>
    rw [eval]
    split_ifs
    · exact iht ign s h
    · exact ihe ign s h
  | onExit t a iht iha =>
    rw [eval]
    by_cases hr : (eval X ign t { eval X ign a s with out := .run }).out = .run
    · rw [trap_run (iha ign s h) hr]
      simp
    · rw [trap_stop (iha ign s h) hr]
      exact iht ign _ (by simp)

namespace Triple

theorem nop : Triple X I .nop I K := by
  refine ⟨fun s he _ hI _ => ⟨he, hI⟩, fun s _ hr _ hs => ?_⟩
  exact absurd hr hs

theorem tt : Triple X I .tt I K := by
  refine ⟨fun s he _ hI _ => ⟨he, hI⟩, fun s _ hr _ hs => ?_⟩
  exact absurd hr hs

theorem errexit : Triple X I (.errexit true) I K := by
  refine ⟨fun s _ _ hI _ => ⟨rfl, hI⟩, fun s _ hr _ hs => ?_⟩
  exact absurd hr hs

theorem exit (n : ℕ) (h : ∀ w, I w → K w) : Triple X I (.exit n) J K := by
  refine ⟨fun s _ _ _ hr => ?_, fun s _ _ hI _ => h s.w hI⟩
  simp [eval] at hr

theorem cmd {c : κ} (hJ : ∀ w, I w → (X c w).1 = .ok → J (X c w).2) (hK : ∀ w, I w → (X c w).1 ≠ .ok → K (X c w).2) :
    Triple X I (.cmd c) J K := by
  refine ⟨fun s he _ hI h => ?_, fun s _ hr hI h => ?_⟩
  · rw [eval] at h ⊢
    rw [simple_e, simple_w]
    exact ⟨he, hJ s.w hI (simple_strict he h)⟩
  · rw [eval] at h ⊢
    rw [simple_w]
    refine hK s.w hI fun hok => h ?_
    rw [simple_ok hok]
    exact hr

theorem seq (ha : Triple X I a J K) (hb : Triple X J b L K) : Triple X I (.seq a b) L K := by
  refine ⟨fun s he hr hI h => ?_, fun s he hr hI h => ?_⟩
  · obtain ⟨hra, hrb⟩ := (eval_seq_run X false a b s).1 h
    obtain ⟨hea, hJ⟩ := ha.through s he hr hI hra
    rw [eval_seq_eq X false a b s hra]
    exact hb.through _ hea hra hJ hrb
  · by_cases hra : (eval X false a s).out = .run
    · obtain ⟨hea, hJ⟩ := ha.through s he hr hI hra
      rw [eval_seq_eq X false a b s hra] at h ⊢
      exact hb.stopped _ hea hra hJ h
    · rw [eval_seq_stop X false a b s hra]
      exact ha.stopped s he hr hI hra

/-- the last script of a `seqs` -/
theorem last (ha : Triple X I a J K) : Triple X I (seqs [a]) J K := ha.seq nop

theorem cond {t : σ → Bool} (ha : Triple X (fun w => I w ∧ t w = true) a J K)
    (hb : Triple X (fun w => I w ∧ t w = false) b J K) : Triple X I (.cond t a b) J K := by
  refine ⟨fun s he hr hI h => ?_, fun s he hr hI h => ?_⟩ <;> rw [eval] at h ⊢ <;> cases ht : t s.w <;>
    simp only [ht, if_true, Bool.false_eq_true, if_false] at h ⊢
  · exact hb.through s he hr ⟨hI, ht⟩ h
  · exact ha.through s he hr ⟨hI, ht⟩ h
  · exact hb.stopped s he hr ⟨hI, ht⟩ h
  · exact ha.stopped s he hr ⟨hI, ht⟩ h

/-- an `if` whose condition is a simple command: a failure of it is not fatal -/
theorem ite {c : κ} (hc : ∀ w, I w → match (X c w).1 with
      | .ok => L (X c w).2
      | .fail => I' (X c w).2
      | .killed => K (X c w).2)
    (ha : Triple X L a J K) (hb : Triple X I' b J K) : Triple X I (.ite (.cmd c) a b) J K := by
  have hcases : ∀ s : St κ σ, s.e = true → s.out = .run → I s.w →
      (∃ t : St κ σ, t.e = true ∧ t.out = .run ∧ L t.w ∧ eval X false (.ite (.cmd c) a b) s = eval X false a t) ∨
        (∃ t : St κ σ, t.e = true ∧ t.out = .run ∧ I' t.w ∧ eval X false (.ite (.cmd c) a b) s = eval X false b t) ∨
          (eval X false (.ite (.cmd c) a b) s).out ≠ .run ∧ K (eval X false (.ite (.cmd c) a b) s).w := by
    intro s he hr hI
    have h := hc s.w hI
    cases hs : (X c s.w).1 with
    | ok =>
      rw [hs] at h
      refine Or.inl ⟨simple X true c s, (simple_e X true c s).trans he, ?_, by rwa [simple_w], ?_⟩ <;>
        simp [eval, simple, hs, hr, next_run]
    | fail =>
      rw [hs] at h
      refine Or.inr (Or.inl ⟨simple X true c s, (simple_e X true c s).trans he, ?_, by rwa [simple_w], ?_⟩) <;>
        simp [eval, simple, hs, hr, next_run, check]
    | killed =>
      rw [hs] at h
      have hk : eval X false (.ite (.cmd c) a b) s = simple X true c s := next_stop (by simp [eval, simple, hs]) _
      rw [hk, simple_w]
      exact Or.inr (Or.inr ⟨by simp [simple, hs], h⟩)
  refine ⟨fun s he hr hI h => ?_, fun s he hr hI h => ?_⟩
  · rcases hcases s he hr hI with ⟨t, hte, htr, hL, heq⟩ | ⟨t, hte, htr, hL, heq⟩ | ⟨hstop, -⟩
    · rw [heq] at h ⊢
      exact ha.through t hte htr hL h
    · rw [heq] at h ⊢
      exact hb.through t hte htr hL h
    · exact absurd h hstop
  · rcases hcases s he hr hI with ⟨t, hte, htr, hL, heq⟩ | ⟨t, hte, htr, hL, heq⟩ | ⟨-, hK⟩
    · rw [heq] at h ⊢
      exact ha.stopped t hte htr hL h
    · rw [heq] at h ⊢
      exact hb.stopped t hte htr hL h
    · exact hK

/-- the rule of consequence -/
theorem conseq (ha : Triple X I a J K) (hI : ∀ w, I' w → I w) (hJ : ∀ w, J w → J' w) (hK : ∀ w, K w → K' w) :
    Triple X I' a J' K' := by
  refine ⟨fun s he hr h ho => ?_, fun s he hr h ho => ?_⟩
  · obtain ⟨h1, h2⟩ := ha.through s he hr (hI s.w h) ho
    exact ⟨h1, hJ _ h2⟩
  · exact hK _ (ha.stopped s he hr (hI s.w h) ho)

theorem pre (ha : Triple X I a J K) (hI : ∀ w, I' w → I w) : Triple X I' a J K :=
  ha.conseq hI (fun _ => id) fun _ => id

/-- two triples of one script hold together -/
theorem both (ha : Triple X I a J K) (hb : Triple X I' a J' K') :
    Triple X (fun w => I w ∧ I' w) a (fun w => J w ∧ J' w) (fun w => K w ∧ K' w) := by
  refine ⟨fun s he hr h ho => ?_, fun s he hr h ho => ?_⟩
  · obtain ⟨h1, h2⟩ := ha.through s he hr h.1 ho
    exact ⟨h1, h2, (hb.through s he hr h.2 ho).2⟩
  · exact ⟨ha.stopped s he hr h.1 ho, hb.stopped s he hr h.2 ho⟩

/-- **What every command keeps** -/
theorem inv (ha : a.strict = true) (hI : ∀ c ∈ a.cmds, ∀ w, I w → I (X c w).2) : Triple X I a I I := by
  refine ⟨fun s he _ h _ => ?_, fun s _ _ h _ => ?_⟩
  · exact ⟨strict_e X false a ha s he, eval_inv X I false a hI s h⟩
  · exact eval_inv X I false a hI s h

/-- **A block whose commands do `D` where they succeed** -/
theorem block {l : List κ} {D : κ → σ → σ} (hD : ∀ c ∈ l, ∀ w, (X c w).1 = .ok → (X c w).2 = D c w)
    (hJ : ∀ w, I w → J (l.foldl (fun w c => D c w) w)) : Triple X I (block l) J fun _ => True := by
  refine ⟨fun s he _ hI h => ?_, fun _ _ _ _ _ => trivial⟩
  suffices hw : (eval X false (Shell.block l) s).w = l.foldl (fun w c => D c w) s.w by
    rw [hw]
    exact ⟨strict_e X false _ (strict_block l) s he, hJ s.w hI⟩
  clear hI hJ
  induction l generalizing s with
  | nil => rfl
  | cons c l ih =>
    rw [eval_block_cons] at h ⊢
    obtain ⟨h1, h2⟩ := run_of_next h
    have hc := hD c List.mem_cons_self s.w (simple_strict he h1)
    rw [h2] at h ⊢
    rw [ih (fun d hd => hD d (List.mem_cons_of_mem c hd)) _ ((simple_e X false c s).trans he) h1 h, simple_w, hc]
    rfl

/-- a script that begins with `set -e`, in a shell of its own -/
theorem run (ha : Triple X I a J K) {w : σ} (h : I w) :
    ((Shell.run X (.seq (.errexit true) a) w).out = .run → J (Shell.run X (.seq (.errexit true) a) w).w) ∧
      ((Shell.run X (.seq (.errexit true) a) w).out ≠ .run → K (Shell.run X (.seq (.errexit true) a) w).w) := by
  have heq : Shell.run X (.seq (.errexit true) a) w = eval X false a { start κ w with e := true } := rfl
  rw [heq]
  exact ⟨fun hr => (ha.through _ rfl rfl h hr).2, fun hr => ha.stopped _ rfl rfl h hr⟩

/-- after a script that never gets through there is nothing to show -/
theorem never : Triple X (fun _ => False) a J K :=
  ⟨fun _ _ _ hI _ => hI.elim, fun _ _ _ hI _ => hI.elim⟩

/-- **A block with a command that never succeeds does not get through** -/
theorem blocked {l : List κ} {c : κ} (hc : c ∈ l) (hstop : ∀ w, I w → (X c w).1 ≠ .ok)
    (hI : ∀ d ∈ l, ∀ w, I w → I (X d w).2) : Triple X I (Shell.block l) (fun _ => False) I := by
  refine ⟨fun s he hr hw h => ?_, fun s _ _ hw _ => ?_⟩
  · induction l generalizing s with
    | nil => simp at hc
    | cons d l ih =>
      rw [eval_block_cons] at h
      obtain ⟨h1, h2⟩ := run_of_next h
      rcases List.mem_cons.1 hc with rfl | hc
      · exact absurd (simple_strict he h1) (hstop s.w hw)
      · rw [h2] at h
        have hd : I (simple X false d s).w := by
          rw [simple_w]
          exact hI d List.mem_cons_self s.w hw
        exact absurd (ih hc (fun e he => hI e (List.mem_cons_of_mem d he)) _ ((simple_e X false d s).trans he) h1 hd h).2 id
  · exact eval_inv X I false _ (by simpa using hI) s hw

/-- **A block whose commands succeed gets through** -/
theorem steady {l : List κ} (hI : ∀ c ∈ l, ∀ w, I w → (X c w).1 = .ok ∧ I (X c w).2) :
    Triple X I (Shell.block l) I fun _ => False := by
  induction l with
  | nil => exact nop
  | cons c l ih =>
    have hc : Triple X I (.cmd c) I fun _ => False :=
      cmd (fun w hw _ => (hI c List.mem_cons_self w hw).2) fun w hw hok => hok (hI c List.mem_cons_self w hw).1
    exact hc.seq (ih fun d hd => hI d (List.mem_cons_of_mem c hd))

theorem append {l m : List κ} (hl : Triple X I (Shell.block l) J K) (hm : Triple X J (Shell.block m) L K) :
    Triple X I (Shell.block (l ++ m)) L K := by
  have hseq := hl.seq hm
  have heq : ∀ s : St κ σ, s.out = .run →
      eval X false (Shell.block (l ++ m)) s = eval X false (.seq (Shell.block l) (Shell.block m)) s :=
    fun s hr => eval_block_append X false l m s hr
  refine ⟨fun s he hr hI h => ?_, fun s he hr hI h => ?_⟩ <;> rw [heq s hr] at h ⊢
  · exact hseq.through s he hr hI h
  · exact hseq.stopped s he hr hI h

/-- a part in which errexit is switched off: whatever fails there is ignored -/
theorem loose (hI : ∀ c ∈ a.cmds, ∀ w, I w → I (X c w).2) : Triple X I (seqs [.errexit false, a, .errexit true]) I I := by
  have hall : ∀ c ∈ (seqs [.errexit false, a, .errexit true] : Sh κ σ).cmds, ∀ w, I w → I (X c w).2 := by
    intro c hc
    refine hI c ?_
    simpa [Sh.cmds] using hc
  refine ⟨fun s _ hr h ho => ⟨?_, eval_inv X I false _ hall s h⟩, fun s _ _ h _ => eval_inv X I false _ hall s h⟩
  have hoff : (eval X false (.errexit false) s).out = .run := hr
  have hseq : eval X false (seqs [.errexit false, a, .errexit true]) s =
      eval X false (.seq a (seqs [.errexit true])) (eval X false (.errexit false) s) := eval_seq_eq X false _ _ s hoff
  rw [hseq] at ho ⊢
  obtain ⟨ha, -⟩ := (eval_seq_run X false a _ _).1 ho
  rw [eval_seq_eq X false a _ _ ha, seqs, eval_seq_eq X false (.errexit true) _ _ ha]
  rfl

/-- the same where nothing is killed: the part gets through -/
theorem loose_steady (ha : a.tame = true) (hX : ∀ c w, (X c w).1 ≠ .killed) (hI : ∀ c ∈ a.cmds, ∀ w, I w → I (X c w).2) :
    Triple X I (seqs [.errexit false, a, .errexit true]) I fun _ => False := by
  refine ⟨(loose hI).through, fun s _ hr _ ho => ho ?_⟩
  have hoff : (eval X false (.errexit false) s).out = .run := hr
  have hseq : eval X false (seqs [.errexit false, a, .errexit true]) s =
      eval X false (.seq a (seqs [.errexit true])) (eval X false (.errexit false) s) := eval_seq_eq X false _ _ s hoff
  have hrun : (eval X false a (eval X false (.errexit false) s)).out = .run := by
    rcases (eval_tame X false a ha _ ⟨rfl, Or.inl hoff⟩).2 with h | h
    · exact h
    · exact absurd h (eval_alive hX false a _ (by rw [hoff]; simp))
  rw [hseq, eval_seq_eq X false a _ _ hrun, seqs, eval_seq_eq X false (.errexit true) _ _ hrun]
  exact hrun

/-- a script under an EXIT trap ends in the trap -/
theorem onExit {t : Sh κ σ} (ha : Triple X I a K K) (ht : ∀ c ∈ t.cmds, ∀ w, K w → K (X c w).2) :
    Triple X I (.onExit t a) J K := by
  refine ⟨fun s _ _ _ ho => absurd ho (trap_out _ _), fun s he hr h _ => ?_⟩
  have hK : K (eval X false a s).w := by
    by_cases hs : (eval X false a s).out = .run
    · exact (ha.through s he hr h hs).2
    · exact ha.stopped s he hr h hs
  exact trap_w hK fun _ => eval_inv X K false t ht _ hK

end Triple

/-! ## Scripts that end in the middle -/

section Ends

variable {Q : σ → Prop}

/-- however the script ends, the world is in `Q` -/
def Ends (X : κ → σ → Stat × σ) (I : σ → Prop) (a : Sh κ σ) (Q : σ → Prop) : Prop :=
  ∀ s : St κ σ, s.e = true → s.out = .run → I s.w → Q (eval X false a s).w

theorem Ends.of_triple (ha : Triple X I a Q Q) : Ends X I a Q := by
  intro s he hr hI
  by_cases h : (eval X false a s).out = .run
  · exact (ha.through s he hr hI h).2
  · exact ha.stopped s he hr hI h

/-- the first part gets through, or has come to `Q` already -/
theorem Ends.seq (ha : Triple X I a J Q) (hb : Ends X J b Q) : Ends X I (.seq a b) Q := by
  intro s he hr hI
  by_cases h : (eval X false a s).out = .run
  · obtain ⟨he1, hJ⟩ := ha.through s he hr hI h
    rw [eval_seq_eq X false a b s h]
    exact hb _ he1 h hJ
  · rw [eval_seq_stop X false a b s h]
    exact ha.stopped s he hr hI h

/-- the rest keeps what has been reached -/
theorem Ends.keep (ha : Ends X I a Q) (hb : ∀ c ∈ b.cmds, ∀ w, Q w → Q (X c w).2) : Ends X I (.seq a b) Q := by
  intro s he hr hI
  have hQ := ha s he hr hI
  exact next_w hQ fun _ => eval_inv X Q false b hb _ hQ

theorem Ends.pre (ha : Ends X I a Q) (h : ∀ w, J w → I w) : Ends X J a Q := fun s he hr hJ => ha s he hr (h s.w hJ)

/-- status 0 of a sequence: its first part has got through -/
theorem seq_of_stat {ign : Bool} {s : St κ σ} (ha : a.failing = true) (hs : s.out ≠ .exit 0)
    (h : (eval X ign (.seq a b) s).stat = .ok) :
    (eval X ign a s).out = .run ∧ eval X ign (.seq a b) s = eval X ign b (eval X ign a s) := by
  have hr : (eval X ign a s).out = .run := by
    by_contra hr
    rw [eval_seq_stop X ign a b s hr] at h
    exact stat_of_stop hr (eval_failing X ign a ha s hs) h
  exact ⟨hr, eval_seq_eq X ign a b s hr⟩

end Ends

/-! ## A system where nothing fails -/

/-- no command whose failure is ignored -/
def Sh.straight : Sh κ σ → Bool
  | .nop | .tt | .cmd _ | .exit _ => true
  | .errexit on => on
  | .ite _ _ _ | .onExit _ _ => false
  | .seq a b | .cond _ a b => a.straight && b.straight

@[simp] theorem straight_block (l : List κ) : (block l : Sh κ σ).straight = true := by
  induction l with
  | nil => rfl
  | cons c l ih => simp [block, Sh.straight, ih]

/-- under errexit the script gets through with status 0 only -/
def EndsOk (X : κ → σ → Stat × σ) (a : Sh κ σ) : Prop :=
  ∀ s : St κ σ, s.e = true → s.out = .run → (eval X false a s).out = .run → (eval X false a s).ok = true

theorem EndsOk.cmd (c : κ) : EndsOk X (.cmd c) := by
  intro s he _ h
  rw [eval] at h ⊢
  rw [simple_ok (simple_strict he h)]

theorem EndsOk.seq (ha : a.strict = true) (hb : EndsOk X b) : EndsOk X (.seq a b) := by
  intro s he _ h
  obtain ⟨hra, hrb⟩ := (eval_seq_run X false a b s).1 h
  rw [eval_seq_eq X false a b s hra]
  exact hb _ (strict_e X false a ha s he) hra hrb

theorem EndsOk.last (ha : EndsOk X a) : EndsOk X (seqs [a]) := by
  intro s he hr h
  obtain ⟨hra, -⟩ := (eval_seq_run X false a .nop s).1 h
  show (eval X false (.seq a .nop) s).ok = true
  rw [eval_seq_eq X false a .nop s hra]
  exact ha s he hr hra

/-! ## A larger world -/

/-- the script as it looks from a larger world: `f` is the part it was written for -/
def Sh.comap (f : τ → σ) : Sh κ σ → Sh κ τ
  | .nop => .nop
  | .tt => .tt
  | .cmd c => .cmd c
  | .seq a b => .seq (a.comap f) (b.comap f)
  | .ite c t e => .ite (c.comap f) (t.comap f) (e.comap f)
  | .cond b t e => .cond (fun w => b (f w)) (t.comap f) (e.comap f)
  | .errexit on => .errexit on
  | .exit n => .exit n
  | .onExit h a => .onExit (h.comap f) (a.comap f)

@[simp] theorem cmds_comap (f : τ → σ) (a : Sh κ σ) : (a.comap f).cmds = a.cmds := by
  induction a <;> simp_all [Sh.comap, Sh.cmds]

@[simp] theorem comap_block (f : τ → σ) (l : List κ) : (block l : Sh κ σ).comap f = block l := by
  induction l with
  | nil => rfl
  | cons c l ih => simp [block, Sh.comap, ih]

/-- the shell as it looks to the smaller world -/
def St.map (f : τ → σ) (s : St κ τ) : St κ σ := ⟨f s.w, s.e, s.ok, s.out, s.log⟩

section Map

variable {f : τ → σ} {Y : κ → τ → Stat × τ}

@[simp] theorem map_out (s : St κ τ) : (s.map f).out = s.out := rfl

theorem map_next (s : St κ τ) {g : St κ τ → St κ τ} {g' : St κ σ → St κ σ} (h : s.out = .run → (g s).map f = g' (s.map f)) :
    (s.next g).map f = (s.map f).next g' := by
  by_cases hr : s.out = .run
  · rw [next_run hr, next_run (s := s.map f) hr, h hr]
  · rw [next_stop hr, next_stop (s := s.map f) hr]

theorem map_trap (s : St κ τ) {g : St κ τ → St κ τ} {g' : St κ σ → St κ σ}
    (h : (g { s with out := .run }).map f = g' { s.map f with out := .run }) :
    (s.trap g).map f = (s.map f).trap g' := by
  have hout : (g' { s.map f with out := .run }).out = (g { s with out := .run }).out := by rw [← h, map_out]
  by_cases hk : s.out = .killed
  · rw [trap_killed hk, trap_killed (s := s.map f) hk]
  · by_cases hg : (g { s with out := .run }).out = .run
    · rw [trap_run hk hg, trap_run (s := s.map f) hk (hout.trans hg), ← h]
      rfl
    · rw [trap_stop hk hg, trap_stop (s := s.map f) hk (by rw [hout]; exact hg), h]

theorem check_map (ign : Bool) (s : St κ τ) : (check ign s).map f = check ign (s.map f) :=
  apply_ite (St.map f) (s.ok = false ∧ s.e = true ∧ ign = false) { s with out := .exit 1 } s

theorem simple_map {ign : Bool} {c : κ} (s : St κ τ) (h : (Y c s.w).1 = (X c (f s.w)).1 ∧ f (Y c s.w).2 = (X c (f s.w)).2) :
    (simple Y ign c s).map f = simple X ign c (s.map f) := by
  obtain ⟨h1, h2⟩ := h
  have hw : (s.map f).w = f s.w := rfl
  unfold simple
  rw [h1, hw]
  cases (X c (f s.w)).1 with
  | ok | killed => simp only [St.map, h2]
  | fail =>
    show (check ign _).map f = check ign _
    rw [check_map, ← h2]
    rfl

/-- **A system whose commands do in the small world what they do there, does so in every script** -/
theorem eval_comap {a : Sh κ σ} (ign : Bool)
    (h : ∀ c ∈ a.cmds, ∀ w, (Y c w).1 = (X c (f w)).1 ∧ f (Y c w).2 = (X c (f w)).2) (s : St κ τ) :
    (eval Y ign (a.comap f) s).map f = eval X ign a (s.map f) := by
  induction a generalizing ign s with
  | nop | tt | errexit _ | exit _ => rfl
  | cmd c => exact simple_map s (h c (by simp [Sh.cmds]) s.w)
  | seq a b iha ihb =>
    rw [Sh.comap, eval, eval, ← iha ign (fun c hc => h c (by simp [Sh.cmds, hc])) s]
    exact map_next _ fun _ => ihb ign (fun c hc => h c (by simp [Sh.cmds, hc])) _
  | ite c t e ihc iht ihe =>
    rw [Sh.comap, eval, eval, ← ihc true (fun c hc => h c (by simp [Sh.cmds, hc])) s]
    refine map_next _ fun _ => ?_
    show St.map f (if (eval Y true (c.comap f) s).ok then _ else _) = if (eval Y true (c.comap f) s).ok then _ else _
    split
    · exact iht ign (fun c hc => h c (by simp [Sh.cmds, hc])) _
    · exact ihe ign (fun c hc => h c (by simp [Sh.cmds, hc])) _
  | cond b t e iht ihe =>
    rw [Sh.comap, eval, eval]
    show St.map f (if b (f s.w) then _ else _) = if b (f s.w) then _ else _
    split
    · exact iht ign (fun c hc => h c (by simp [Sh.cmds, hc])) s
    · exact ihe ign (fun c hc => h c (by simp [Sh.cmds, hc])) s
  | onExit t a iht iha =>
    rw [Sh.comap, eval, eval, ← iha ign (fun c hc => h c (by simp [Sh.cmds, hc])) s]
    exact map_trap _ (iht ign (fun c hc => h c (by simp [Sh.cmds, hc])) _)

end Map

@[simp] theorem strict_comap (f : τ → σ) (a : Sh κ σ) : (a.comap f).strict = a.strict := by
  induction a <;> simp_all [Sh.comap, Sh.strict]

end AvaotaOS.Shell
