/-
A small shell: the control structure of a script over an arbitrary set of commands `κ` that act on an arbitrary
world `σ`. MODEL ONLY of the part of the language the scripts rely on: the errexit flag (`set -e`, `set +e`), the
contexts in which it is ignored (the condition of an `if`, the left side of `&&` and `||`), `exit`, and the EXIT trap.

A command system `X : κ → σ → Stat × σ` says how each simple command ends and what it does to the world. A run can be
stopped from outside at any command (`Stat.killed`): nothing runs after that, not even the trap.

Results:
- `eval_inv`: what every command of a script preserves, the script preserves, however it ends.
- `eval_failing`: a script whose `exit`s all have a non-zero status does not end its shell with status 0.
- `eval_block_strict`, `eval_block_loose`: a block of simple commands under errexit gets through iff none of them
  fails; with errexit off it gets through unless it is killed, whatever fails.
-/
import Mathlib.Tactic

namespace AvaotaOS.Shell

/-! ## Scripts -/

/-- how a command ends: with status 0, with another status, or with the whole run stopped from outside -/
inductive Stat where
  | ok
  | fail
  | killed
deriving DecidableEq, Repr

/-- what the environment answers to a command: nothing goes wrong, the command fails, or the whole run is stopped in
the middle of it; `part` says that a part of its effect is left behind -/
inductive Resp where
  | ok
  | fail (part : Bool)
  | kill (part : Bool)
deriving DecidableEq, Repr

def Resp.stat : Resp → Stat
  | .ok => .ok
  | .fail _ => .fail
  | .kill _ => .killed

def Resp.part : Resp → Bool
  | .ok => false
  | .fail p | .kill p => p

theorem Resp.stat_ok {r : Resp} : r.stat = .ok ↔ r = .ok := by
  cases r <;> simp [Resp.stat]

/-- scripts over the simple commands `κ` and the world `σ` -/
inductive Sh (κ σ : Type) where
  /-- no command at all: `$?` stays -/
  | nop
  /-- `:`, and the missing `else` of an `if`: `$?` becomes 0 -/
  | tt
  | cmd (c : κ)
  | seq (a b : Sh κ σ)
  /-- `if c; then t; else e; fi` with a command that can fail as its condition -/
  | ite (c t e : Sh κ σ)
  /-- the same with a test that only looks at the world: `[ -d .. ]`, `grep -q .. /proc/mounts` -/
  | cond (b : σ → Bool) (t e : Sh κ σ)
  /-- `set -e` and `set +e` -/
  | errexit (on : Bool)
  | exit (n : ℕ)
  /-- `trap 'h' EXIT` followed by the rest `a` of the script -/
  | onExit (h a : Sh κ σ)

/-- is the shell still running, and if not, how did it end -/
inductive Out where
  | run
  | exit (n : ℕ)
  | killed
deriving DecidableEq, Repr

structure St (κ σ : Type) where
  w : σ
  /-- the errexit flag -/
  e : Bool
  /-- `$?` is 0 -/
  ok : Bool
  out : Out
  /-- the commands executed so far, with whether each ended with status 0 -/
  log : List (κ × Bool)
deriving DecidableEq, Repr

variable {κ σ : Type}

/-- errexit: a non-zero status ends the shell, unless the flag is off or the context ignores it -/
def check (ign : Bool) (s : St κ σ) : St κ σ :=
  if s.ok = false ∧ s.e = true ∧ ign = false then { s with out := .exit 1 } else s

/-- one simple command -/
def simple (X : κ → σ → Stat × σ) (ign : Bool) (c : κ) (s : St κ σ) : St κ σ :=
  match (X c s.w).1 with
  | .ok => { s with w := (X c s.w).2, ok := true, log := s.log ++ [(c, true)] }
  | .fail => check ign { s with w := (X c s.w).2, ok := false, log := s.log ++ [(c, false)] }
  | .killed => { s with w := (X c s.w).2, ok := false, out := .killed, log := s.log ++ [(c, false)] }

/-- go on with `f` if the shell still runs -/
def St.next (s : St κ σ) (f : St κ σ → St κ σ) : St κ σ :=
  match s.out with
  | .run => f s
  | _ => s

/-- the exit status of a shell that has come to its end -/
def St.code (s : St κ σ) : ℕ :=
  match s.out with
  | .exit n => n
  | _ => if s.ok then 0 else 1

/-- run the EXIT trap `h`, unless the shell was killed: the status stays, unless the trap itself exits -/
def St.trap (s : St κ σ) (h : St κ σ → St κ σ) : St κ σ :=
  match s.out with
  | .killed => s
  | _ =>
    match (h { s with out := .run }).out with
    | .run => { h { s with out := .run } with out := .exit s.code }
    | _ => h { s with out := .run }

/-- run a script; `ign` says that errexit is ignored here -/
def eval (X : κ → σ → Stat × σ) : Bool → Sh κ σ → St κ σ → St κ σ
  | _, .nop, s => s
  | _, .tt, s => { s with ok := true }
  | ign, .cmd c, s => simple X ign c s
  | ign, .seq a b, s => (eval X ign a s).next (eval X ign b)
  | ign, .ite c t e, s => (eval X true c s).next fun s' => if s'.ok then eval X ign t s' else eval X ign e s'
  | ign, .cond b t e, s => if b s.w then eval X ign t s else eval X ign e s
  | _, .errexit on, s => { s with e := on, ok := true }
  | _, .exit n, s => { s with out := .exit n }
  | ign, .onExit h a, s => (eval X ign a s).trap (eval X ign h)

/-- a new shell: errexit is off -/
def start (κ : Type) (w : σ) : St κ σ := ⟨w, false, true, .run, []⟩

/-- run a script in a shell of its own -/
def run (X : κ → σ → Stat × σ) (a : Sh κ σ) (w : σ) : St κ σ := eval X false a (start κ w)

/-- how a finished shell looks to the shell that called it -/
def St.stat (s : St κ σ) : Stat :=
  match s.out with
  | .killed => .killed
  | _ => if s.code = 0 then .ok else .fail

/-- `a && b`: a failing `a` is not fatal, and its status is the status of the list -/
def Sh.and (a b : Sh κ σ) : Sh κ σ := .ite a b .nop

/-- `a || b` -/
def Sh.or (a b : Sh κ σ) : Sh κ σ := .ite a .nop b

/-- `if c; then t; fi` -/
def Sh.when (c t : Sh κ σ) : Sh κ σ := .ite c t .tt

/-- a block of simple commands -/
def block : List κ → Sh κ σ
  | [] => .nop
  | c :: l => .seq (.cmd c) (block l)

/-- a sequence of scripts -/
def seqs : List (Sh κ σ) → Sh κ σ
  | [] => .nop
  | a :: l => .seq a (seqs l)

/-- the simple commands of a script -/
def Sh.cmds : Sh κ σ → List κ
  | .nop | .tt | .errexit _ | .exit _ => []
  | .cmd c => [c]
  | .seq a b | .onExit a b => a.cmds ++ b.cmds
  | .ite c t e => c.cmds ++ t.cmds ++ e.cmds
  | .cond _ t e => t.cmds ++ e.cmds

@[simp] theorem cmds_block (l : List κ) : (block l : Sh κ σ).cmds = l := by
  induction l with
  | nil => rfl
  | cons c l ih => simp [block, Sh.cmds, ih]

@[simp] theorem cmds_seqs (l : List (Sh κ σ)) : (seqs l).cmds = l.flatMap Sh.cmds := by
  induction l with
  | nil => rfl
  | cons a l ih => simp [seqs, Sh.cmds, ih]

/-! ## Steps -/

theorem next_run {s : St κ σ} (h : s.out = .run) (f : St κ σ → St κ σ) : s.next f = f s := by
  simp [St.next, h]

theorem next_stop {s : St κ σ} (h : s.out ≠ .run) (f : St κ σ → St κ σ) : s.next f = s := by
  unfold St.next
  split
  · exact absurd ‹_› h
  · rfl

@[simp] theorem next_id (s : St κ σ) : (s.next fun t => t) = s := by
  by_cases h : s.out = .run
  · rw [next_run h]
  · rw [next_stop h]

theorem next_assoc (s : St κ σ) (f g : St κ σ → St κ σ) : (s.next f).next g = s.next fun t => (f t).next g := by
  by_cases h : s.out = .run
  · rw [next_run h, next_run h]
  · rw [next_stop h, next_stop h, next_stop h]

theorem next_w {s : St κ σ} {f : St κ σ → St κ σ} {I : σ → Prop} (hs : I s.w) (hf : s.out = .run → I (f s).w) :
    I (s.next f).w := by
  by_cases h : s.out = .run
  · rw [next_run h]; exact hf h
  · rw [next_stop h]; exact hs

theorem next_e {s : St κ σ} {f : St κ σ → St κ σ} (hs : s.e = true) (hf : s.out = .run → (f s).e = true) :
    (s.next f).e = true := by
  by_cases h : s.out = .run
  · rw [next_run h]; exact hf h
  · rw [next_stop h]; exact hs

theorem run_of_next {s : St κ σ} {f : St κ σ → St κ σ} (h : (s.next f).out = .run) :
    s.out = .run ∧ s.next f = f s := by
  by_cases hs : s.out = .run
  · exact ⟨hs, next_run hs f⟩
  · rw [next_stop hs] at h; exact absurd h hs

@[simp] theorem check_w (ign : Bool) (s : St κ σ) : (check ign s).w = s.w := by
  unfold check; split <;> rfl

@[simp] theorem check_log (ign : Bool) (s : St κ σ) : (check ign s).log = s.log := by
  unfold check; split <;> rfl

@[simp] theorem check_e (ign : Bool) (s : St κ σ) : (check ign s).e = s.e := by
  unfold check; split <;> rfl

@[simp] theorem check_ok (ign : Bool) (s : St κ σ) : (check ign s).ok = s.ok := by
  unfold check; split <;> rfl

theorem simple_w (X : κ → σ → Stat × σ) (ign : Bool) (c : κ) (s : St κ σ) :
    (simple X ign c s).w = (X c s.w).2 := by
  unfold simple; split <;> simp

theorem simple_e (X : κ → σ → Stat × σ) (ign : Bool) (c : κ) (s : St κ σ) : (simple X ign c s).e = s.e := by
  unfold simple; split <;> simp

theorem simple_log (X : κ → σ → Stat × σ) (ign : Bool) (c : κ) (s : St κ σ) :
    (simple X ign c s).log = s.log ++ [(c, decide ((X c s.w).1 = .ok))] := by
  unfold simple; split <;> rename_i h <;> simp [h]

/-- a simple command that succeeds -/
theorem simple_ok {X : κ → σ → Stat × σ} {ign : Bool} {c : κ} {s : St κ σ} (h : (X c s.w).1 = .ok) :
    simple X ign c s = { s with w := (X c s.w).2, ok := true, log := s.log ++ [(c, true)] } := by
  simp [simple, h]

/-- under errexit the shell gets past a simple command only if the command succeeds -/
theorem simple_strict {X : κ → σ → Stat × σ} {c : κ} {s : St κ σ} (he : s.e = true)
    (hr : (simple X false c s).out = .run) : (X c s.w).1 = .ok := by
  cases h : (X c s.w).1 with
  | ok => rfl
  | fail => simp [simple, h, check, he] at hr
  | killed => simp [simple, h] at hr

/-- where errexit does not act the shell gets past a simple command unless it is killed -/
theorem simple_loose {X : κ → σ → Stat × σ} {ign : Bool} {c : κ} {s : St κ σ} (he : s.e = false ∨ ign = true)
    (hr : s.out = .run) : (simple X ign c s).out = .run ↔ (X c s.w).1 ≠ .killed := by
  cases h : (X c s.w).1 with
  | ok => simp [simple, h, hr]
  | fail => rcases he with he | he <;> simp [simple, h, check, he, hr]
  | killed => simp [simple, h]

/-- what holds of the world before the trap and is kept by the handler holds after it -/
theorem trap_w {s : St κ σ} {h : St κ σ → St κ σ} {I : σ → Prop} (hs : I s.w)
    (hh : s.out ≠ .killed → I (h { s with out := .run }).w) : I (s.trap h).w := by
  unfold St.trap
  split
  · exact hs
  · rename_i hk
    split <;> exact hh hk

/-- a killed shell runs no trap -/
theorem trap_killed {s : St κ σ} (h : s.out = .killed) (f : St κ σ → St κ σ) : s.trap f = s := by
  simp [St.trap, h]

/-- the handler comes to its end: the status is that of the shell before it -/
theorem trap_run {s : St κ σ} {f : St κ σ → St κ σ} (h : s.out ≠ .killed) (hf : (f { s with out := .run }).out = .run) :
    s.trap f = { f { s with out := .run } with out := .exit s.code } := by
  unfold St.trap
  split
  · exact absurd ‹_› h
  · split
    · rfl
    · exact absurd hf ‹_›

/-- the handler itself ends the shell -/
theorem trap_stop {s : St κ σ} {f : St κ σ → St κ σ} (h : s.out ≠ .killed) (hf : (f { s with out := .run }).out ≠ .run) :
    s.trap f = f { s with out := .run } := by
  unfold St.trap
  split
  · exact absurd ‹_› h
  · split
    · exact absurd ‹_› hf
    · rfl

/-- behind a trap nothing runs -/
theorem trap_out (s : St κ σ) (h : St κ σ → St κ σ) : (s.trap h).out ≠ .run := by
  unfold St.trap
  split
  · rename_i hk
    simp [hk]
  · split
    · simp
    · assumption

/-! ## How a finished shell looks to its caller -/

theorem stat_ok_iff {s : St κ σ} : s.stat = .ok ↔ s.out = .exit 0 ∨ s.out = .run ∧ s.ok = true := by
  unfold St.stat St.code
  cases h : s.out with
  | run => cases s.ok <;> simp
  | exit n => by_cases hn : n = 0 <;> simp [hn]
  | killed => simp

theorem stat_of_stop {s : St κ σ} (h : s.out ≠ .run) (h0 : s.out ≠ .exit 0) : s.stat ≠ .ok := by
  rw [Ne, stat_ok_iff]
  rintro (hs | ⟨hs, -⟩)
  · exact h0 hs
  · exact h hs

/-! ## Invariants -/

/-- **What every command preserves, the script preserves**, however it ends -/
theorem eval_inv (X : κ → σ → Stat × σ) (I : σ → Prop) (ign : Bool) (a : Sh κ σ)
    (hI : ∀ c ∈ a.cmds, ∀ w, I w → I (X c w).2) (s : St κ σ) (h : I s.w) : I (eval X ign a s).w := by
  induction a generalizing ign s with
  | nop | tt | errexit _ | exit _ => exact h
  | cmd c =>
    rw [eval, simple_w]
    exact hI c (by simp [Sh.cmds]) _ h
  | seq a b iha ihb =>
    have ha := iha ign (fun c hc => hI c (by simp [Sh.cmds, hc])) s h
    exact next_w ha (fun _ => ihb ign (fun c hc => hI c (by simp [Sh.cmds, hc])) _ ha)
  | ite c t e ihc iht ihe =>
    have hc := ihc true (fun c hc => hI c (by simp [Sh.cmds, hc])) s h
    refine next_w hc (fun _ => ?_)
    split
    · exact iht ign (fun c hc => hI c (by simp [Sh.cmds, hc])) _ hc
    · exact ihe ign (fun c hc => hI c (by simp [Sh.cmds, hc])) _ hc
  | cond b t e iht ihe =>
    rw [eval]
    split
    · exact iht ign (fun c hc => hI c (by simp [Sh.cmds, hc])) s h
    · exact ihe ign (fun c hc => hI c (by simp [Sh.cmds, hc])) s h
  | onExit t a iht iha =>
    have ha := iha ign (fun c hc => hI c (by simp [Sh.cmds, hc])) s h
    exact trap_w ha (fun _ => iht ign (fun c hc => hI c (by simp [Sh.cmds, hc])) _ ha)

theorem run_inv (X : κ → σ → Stat × σ) (I : σ → Prop) (a : Sh κ σ) (hI : ∀ c ∈ a.cmds, ∀ w, I w → I (X c w).2) (w : σ)
    (h : I w) : I (run X a w).w :=
  eval_inv X I false a hI (start κ w) h

/-- the log of a script names commands of the script only -/
theorem eval_log (X : κ → σ → Stat × σ) (ign : Bool) (a : Sh κ σ) (s : St κ σ) :
    ∀ x ∈ (eval X ign a s).log, x ∈ s.log ∨ x.1 ∈ a.cmds := by
  induction a generalizing ign s with
  | nop | tt | errexit _ | exit _ => exact fun x hx => Or.inl hx
  | cmd c =>
    intro x hx
    rw [eval, simple_log] at hx
    rcases List.mem_append.1 hx with hx | hx
    · exact Or.inl hx
    · rw [List.mem_singleton] at hx; subst hx; exact Or.inr (by simp [Sh.cmds])
  | seq a b iha ihb =>
    intro x hx
    rw [eval] at hx
    have ha := iha ign s x
    by_cases hr : (eval X ign a s).out = .run
    · rw [next_run hr] at hx
      rcases ihb ign _ x hx with hx | hx
      · exact (ha hx).imp_right fun h => by simp [Sh.cmds, h]
      · exact Or.inr (by simp [Sh.cmds, hx])
    · rw [next_stop hr] at hx
      exact (ha hx).imp_right fun h => by simp [Sh.cmds, h]
  | ite c t e ihc iht ihe =>
    intro x hx
    rw [eval] at hx
    have hc := ihc true s x
    by_cases hr : (eval X true c s).out = .run
    · rw [next_run hr] at hx
      split at hx
      · rcases iht ign _ x hx with hx | hx
        · exact (hc hx).imp_right fun h => by simp [Sh.cmds, h]
        · exact Or.inr (by simp [Sh.cmds, hx])
      · rcases ihe ign _ x hx with hx | hx
        · exact (hc hx).imp_right fun h => by simp [Sh.cmds, h]
        · exact Or.inr (by simp [Sh.cmds, hx])
    · rw [next_stop hr] at hx
      exact (hc hx).imp_right fun h => by simp [Sh.cmds, h]
  | cond b t e iht ihe =>
    intro x hx
    rw [eval] at hx
    split at hx
    · exact (iht ign s x hx).imp_right fun h => by simp [Sh.cmds, h]
    · exact (ihe ign s x hx).imp_right fun h => by simp [Sh.cmds, h]
  | onExit t a iht iha =>
    intro x hx
    have ha := iha ign s x
    simp only [eval, St.trap] at hx
    split at hx
    · exact (ha hx).imp_right fun h => by simp [Sh.cmds, h]
    · split at hx
      all_goals
        rcases iht ign _ x hx with hx | hx
        · exact (ha hx).imp_right fun h => by simp [Sh.cmds, h]
        · exact Or.inr (by simp [Sh.cmds, hx])

/-- every `exit` of the script has a non-zero status, and it sets no trap -/
def Sh.failing : Sh κ σ → Bool
  | .nop | .tt | .cmd _ | .errexit _ => true
  | .exit n => n != 0
  | .onExit _ _ => false
  | .seq a b | .cond _ a b => a.failing && b.failing
  | .ite c t e => c.failing && t.failing && e.failing

@[simp] theorem failing_block (l : List κ) : (block l : Sh κ σ).failing = true := by
  induction l with
  | nil => rfl
  | cons c l ih => simp [block, Sh.failing, ih]

theorem next_exit {s : St κ σ} {f : St κ σ → St κ σ} (hs : s.out ≠ .exit 0) (hf : (f s).out ≠ .exit 0) :
    (s.next f).out ≠ .exit 0 := by
  by_cases h : s.out = .run
  · rw [next_run h]; exact hf
  · rw [next_stop h]; exact hs

/-- such a script does not end the shell with status 0 -/
theorem eval_failing (X : κ → σ → Stat × σ) (ign : Bool) (a : Sh κ σ) (ha : a.failing = true) (s : St κ σ)
    (h : s.out ≠ .exit 0) : (eval X ign a s).out ≠ .exit 0 := by
  induction a generalizing ign s with
  | nop | tt | errexit _ => exact h
  | exit n => simpa [eval, Sh.failing] using ha
  | onExit _ _ => simp [Sh.failing] at ha
  | cmd c =>
    rw [eval]
    cases hc : (X c s.w).1 <;> simp only [simple, hc]
    · exact h
    · unfold check; split
      · simp
      · exact h
    · simp
  | seq a b iha ihb =>
    simp only [Sh.failing, Bool.and_eq_true] at ha
    have h1 := iha ign ha.1 s h
    exact next_exit h1 (ihb ign ha.2 _ h1)
  | ite c t e ihc iht ihe =>
    simp only [Sh.failing, Bool.and_eq_true] at ha
    have h1 := ihc true ha.1.1 s h
    refine next_exit h1 ?_
    split
    · exact iht ign ha.1.2 _ h1
    · exact ihe ign ha.2 _ h1
  | cond b t e iht ihe =>
    simp only [Sh.failing, Bool.and_eq_true] at ha
    rw [eval]
    split
    · exact iht ign ha.1 s h
    · exact ihe ign ha.2 s h

/-- so its caller sees status 0 only where it gets to its end -/
theorem run_of_stat {X : κ → σ → Stat × σ} {ign : Bool} {a : Sh κ σ} (ha : a.failing = true) {s : St κ σ}
    (hs : s.out ≠ .exit 0) (h : (eval X ign a s).stat = .ok) : (eval X ign a s).out = .run := by
  by_contra hr
  exact stat_of_stop hr (eval_failing X ign a ha s hs) h

/-- **A script under an EXIT trap ends with status 0 only where it gets through**, and then the trap runs behind it -/
theorem onExit_ok {X : κ → σ → Stat × σ} {ign : Bool} {t a : Sh κ σ} (ht : t.failing = true) (ha : a.failing = true)
    {s : St κ σ} (hs : s.out ≠ .exit 0) (h : (eval X ign (.onExit t a) s).stat = .ok) :
    (eval X ign a s).out = .run ∧ (eval X ign (.onExit t a) s).w = (eval X ign t (eval X ign a s)).w := by
  have hne := eval_failing X ign a ha s hs
  rw [eval] at h ⊢
  by_cases hk : (eval X ign a s).out = .killed
  · rw [trap_killed hk, stat_ok_iff, hk] at h
    simp at h
  · by_cases hf : (eval X ign t { eval X ign a s with out := .run }).out = .run
    · rw [trap_run hk hf] at h ⊢
      have hcode : (eval X ign a s).code = 0 := by
        rcases stat_ok_iff.1 h with h | ⟨h, -⟩
        · exact Out.exit.inj h
        · simp at h
      cases ho : (eval X ign a s).out with
      | run =>
        refine ⟨rfl, ?_⟩
        have hsame : { eval X ign a s with out := .run } = eval X ign a s := by rw [← ho]
        rw [hsame]
      | exit n =>
        obtain rfl : n = 0 := by simpa [St.code, ho] using hcode
        exact absurd ho hne
      | killed => exact absurd ho hk
    · rw [trap_stop hk hf] at h
      have h0 := eval_failing X ign t ht { eval X ign a s with out := .run } (by simp)
      exact absurd h (stat_of_stop hf h0)

/-- no `exit`, no change of errexit, no trap -/
def Sh.tame : Sh κ σ → Bool
  | .nop | .tt | .cmd _ => true
  | .errexit _ | .exit _ | .onExit _ _ => false
  | .seq a b | .cond _ a b => a.tame && b.tame
  | .ite c t e => c.tame && t.tame && e.tame

@[simp] theorem tame_block (l : List κ) : (block l : Sh κ σ).tame = true := by
  induction l with
  | nil => rfl
  | cons c l ih => simp [block, Sh.tame, ih]

/-- the shell runs with errexit off, or has been killed -/
def Loose (s : St κ σ) : Prop := s.e = false ∧ (s.out = .run ∨ s.out = .killed)

theorem Loose.next {s : St κ σ} {f : St κ σ → St κ σ} (hs : Loose s) (hf : Loose (f s)) : Loose (s.next f) := by
  by_cases h : s.out = .run
  · rw [next_run h]; exact hf
  · rw [next_stop h]; exact hs

/-- with errexit off only a kill ends such a script -/
theorem eval_tame (X : κ → σ → Stat × σ) (ign : Bool) (a : Sh κ σ) (ha : a.tame = true) (s : St κ σ) (h : Loose s) :
    Loose (eval X ign a s) := by
  induction a generalizing ign s with
  | nop | tt => exact h
  | errexit _ | exit _ | onExit _ _ => simp [Sh.tame] at ha
  | cmd c =>
    refine ⟨(simple_e X ign c s).trans h.1, ?_⟩
    rw [eval]
    cases hc : (X c s.w).1 with
    | ok => simpa [simple, hc] using h.2
    | fail => simpa [simple, hc, check, h.1] using h.2
    | killed => simp [simple, hc]
  | seq a b iha ihb =>
    simp only [Sh.tame, Bool.and_eq_true] at ha
    have h1 := iha ign ha.1 s h
    exact h1.next (ihb ign ha.2 _ h1)
  | ite c t e ihc iht ihe =>
    simp only [Sh.tame, Bool.and_eq_true] at ha
    have h1 := ihc true ha.1.1 s h
    refine h1.next ?_
    split
    · exact iht ign ha.1.2 _ h1
    · exact ihe ign ha.2 _ h1
  | cond b t e iht ihe =>
    simp only [Sh.tame, Bool.and_eq_true] at ha
    rw [eval]
    split
    · exact iht ign ha.1 s h
    · exact ihe ign ha.2 s h

/-! ## Scripts under errexit -/

/-- nothing in the script switches errexit off or sets a trap -/
def Sh.strict : Sh κ σ → Bool
  | .nop | .tt | .cmd _ | .exit _ => true
  | .errexit on => on
  | .onExit _ _ => false
  | .seq a b | .cond _ a b => a.strict && b.strict
  | .ite c t e => c.strict && t.strict && e.strict

@[simp] theorem strict_block (l : List κ) : (block l : Sh κ σ).strict = true := by
  induction l with
  | nil => rfl
  | cons c l ih => simp [block, Sh.strict, ih]

/-- a strict script leaves errexit on -/
theorem strict_e (X : κ → σ → Stat × σ) (ign : Bool) (a : Sh κ σ) (ha : a.strict = true) (s : St κ σ) (he : s.e = true) :
    (eval X ign a s).e = true := by
  induction a generalizing ign s with
  | nop | tt | exit _ => exact he
  | cmd c => rw [eval, simple_e]; exact he
  | errexit on => exact ha
  | onExit _ _ => simp [Sh.strict] at ha
  | seq a b iha ihb =>
    simp only [Sh.strict, Bool.and_eq_true] at ha
    have h1 := iha ign ha.1 s he
    exact next_e h1 (fun _ => ihb ign ha.2 _ h1)
  | ite c t e ihc iht ihe =>
    simp only [Sh.strict, Bool.and_eq_true] at ha
    have h1 := ihc true ha.1.1 s he
    refine next_e h1 (fun _ => ?_)
    split
    · exact iht ign ha.1.2 _ h1
    · exact ihe ign ha.2 _ h1
  | cond b t e iht ihe =>
    simp only [Sh.strict, Bool.and_eq_true] at ha
    rw [eval]
    split
    · exact iht ign ha.1 s he
    · exact ihe ign ha.2 s he

/-- with errexit off a guarded command stops the shell only if it is killed -/
theorem eval_cond_loose (X : κ → σ → Stat × σ) (b : σ → Bool) (c : κ) (s : St κ σ) (he : s.e = false)
    (hr : s.out = .run) :
    (eval X false (.cond b (.cmd c) .tt) s).w = (if b s.w then (X c s.w).2 else s.w) ∧
      (eval X false (.cond b (.cmd c) .tt) s).e = false ∧
      (eval X false (.cond b (.cmd c) .tt) s).out = (if b s.w ∧ (X c s.w).1 = .killed then .killed else .run) := by
  rw [eval]
  cases hb : b s.w with
  | false => exact ⟨rfl, he, hr⟩
  | true =>
    simp only [if_true, true_and, eval]
    refine ⟨simple_w X false c s, (simple_e X false c s).trans he, ?_⟩
    cases hc : (X c s.w).1 with
    | ok => simp [simple, hc, hr]
    | fail => simp [simple, hc, check, he, hr]
    | killed => simp [simple, hc]

/-- under errexit the shell gets past a guarded command iff the command is not needed or succeeds -/
theorem eval_cond_strict (X : κ → σ → Stat × σ) (b : σ → Bool) (c : κ) (s : St κ σ) (he : s.e = true)
    (hr : s.out = .run) :
    ((eval X false (.cond b (.cmd c) .tt) s).out = .run ↔ (b s.w = true → (X c s.w).1 = .ok)) ∧
    (eval X false (.cond b (.cmd c) .tt) s).e = true ∧
    (eval X false (.cond b (.cmd c) .tt) s).w = (if b s.w then (X c s.w).2 else s.w) := by
  rw [eval]
  cases hb : b s.w with
  | false => simp [eval, hr, he]
  | true =>
    simp only [if_true, true_imp_iff, eval]
    refine ⟨⟨simple_strict he, fun h => ?_⟩, (simple_e _ _ _ _).trans he, simple_w _ _ _ _⟩
    rw [simple_ok h]
    exact hr

/-- the same for a command that is not needed where a test holds -/
theorem eval_unless_strict (X : κ → σ → Stat × σ) (b : σ → Bool) (c : κ) (s : St κ σ) (he : s.e = true)
    (hr : s.out = .run) :
    ((eval X false (.cond b .tt (.cmd c)) s).out = .run ↔ (b s.w = false → (X c s.w).1 = .ok)) ∧
    (eval X false (.cond b .tt (.cmd c)) s).e = true ∧
    (eval X false (.cond b .tt (.cmd c)) s).w = (if b s.w then s.w else (X c s.w).2) := by
  have heq : eval X false (.cond b .tt (.cmd c)) s = eval X false (.cond (fun w => !b w) (.cmd c) .tt) s := by
    cases hb : b s.w <;> simp [eval, hb]
  obtain ⟨h1, h2, h3⟩ := eval_cond_strict X (fun w => !b w) c s he hr
  rw [heq, h3]
  refine ⟨by simpa using h1, h2, ?_⟩
  cases b s.w <;> rfl

/-! ## Blocks -/

/-- the world after a block in which every command is executed -/
def effect (X : κ → σ → Stat × σ) (l : List κ) (w : σ) : σ := l.foldl (fun w c => (X c w).2) w

@[simp] theorem effect_append (X : κ → σ → Stat × σ) (l m : List κ) (w : σ) :
    effect X (l ++ m) w = effect X m (effect X l w) := by
  simp [effect]

@[simp] theorem effect_cons (X : κ → σ → Stat × σ) (c : κ) (l : List κ) (w : σ) :
    effect X (c :: l) w = effect X l (X c w).2 := rfl

@[simp] theorem effect_nil (X : κ → σ → Stat × σ) (w : σ) : effect X [] w = w := rfl

/-- the log of a block in which every command is executed -/
def trace (X : κ → σ → Stat × σ) : List κ → σ → List (κ × Bool)
  | [], _ => []
  | c :: l, w => (c, decide ((X c w).1 = .ok)) :: trace X l (X c w).2

/-- a sequence gets through iff both parts do -/
theorem eval_seq_run (X : κ → σ → Stat × σ) (ign : Bool) (a b : Sh κ σ) (s : St κ σ) :
    (eval X ign (.seq a b) s).out = .run ↔
      (eval X ign a s).out = .run ∧ (eval X ign b (eval X ign a s)).out = .run := by
  rw [eval]
  by_cases h : (eval X ign a s).out = .run
  · simp [next_run h, h]
  · simp [next_stop h, h]

theorem eval_seq_eq (X : κ → σ → Stat × σ) (ign : Bool) (a b : Sh κ σ) (s : St κ σ) (h : (eval X ign a s).out = .run) :
    eval X ign (.seq a b) s = eval X ign b (eval X ign a s) := by
  rw [eval, next_run h]

theorem eval_seq_stop (X : κ → σ → Stat × σ) (ign : Bool) (a b : Sh κ σ) (s : St κ σ)
    (h : (eval X ign a s).out ≠ .run) : eval X ign (.seq a b) s = eval X ign a s := by
  rw [eval, next_stop h]

theorem eval_block_cons (X : κ → σ → Stat × σ) (ign : Bool) (c : κ) (l : List κ) (s : St κ σ) :
    eval X ign (block (c :: l)) s = (simple X ign c s).next (eval X ign (block l)) := rfl

theorem eval_block_append (X : κ → σ → Stat × σ) (ign : Bool) (l m : List κ) (s : St κ σ) (hr : s.out = .run) :
    eval X ign (block (l ++ m)) s = (eval X ign (block l) s).next (eval X ign (block m)) := by
  induction l generalizing s with
  | nil =>
    rw [List.nil_append, block, eval, next_run hr]
  | cons c l ih =>
    rw [List.cons_append, eval_block_cons, eval_block_cons]
    by_cases h : (simple X ign c s).out = .run
    · rw [next_run h, next_run h, ih _ h]
    · rw [next_stop h, next_stop h, next_stop h]

@[simp] theorem eval_block_one (X : κ → σ → Stat × σ) (ign : Bool) (c : κ) (s : St κ σ) :
    eval X ign (block [c]) s = simple X ign c s := by
  rw [eval_block_cons]
  by_cases h : (simple X ign c s).out = .run
  · rw [next_run h]; rfl
  · rw [next_stop h]

/-- a block under errexit that gets through ends with status 0 -/
theorem eval_block_ok (X : κ → σ → Stat × σ) (c : κ) (l : List κ) (s : St κ σ) (he : s.e = true)
    (h : (eval X false (block (c :: l)) s).out = .run) : (eval X false (block (c :: l)) s).ok = true := by
  induction l generalizing c s with
  | nil =>
    rw [eval_block_one] at h ⊢
    rw [simple_ok (simple_strict he h)]
  | cons d l ih =>
    rw [eval_block_cons] at h ⊢
    obtain ⟨-, h2⟩ := run_of_next h
    rw [h2] at h ⊢
    exact ih d _ ((simple_e X false c s).trans he) h

/-- where errexit does not act a block of commands that are never killed gets through -/
theorem eval_block_through {X : κ → σ → Stat × σ} (hX : ∀ c w, (X c w).1 ≠ .killed) (ign : Bool) (l : List κ) (s : St κ σ)
    (he : s.e = false ∨ ign = true) (hr : s.out = .run) : (eval X ign (block l) s).out = .run := by
  induction l generalizing s with
  | nil => exact hr
  | cons c l ih =>
    have h1 : (simple X ign c s).out = .run := (simple_loose he hr).2 (hX c s.w)
    rw [eval_block_cons, next_run h1]
    exact ih _ (by rwa [simple_e]) h1

section PlainStatus

/- Commands whose status does not depend on the world. -/
variable {X : κ → σ → Stat × σ} {st : κ → Stat}

/-- **A block under errexit gets through iff none of its commands fails** -/
theorem eval_block_strict {l : List κ} (hst : ∀ c ∈ l, ∀ w, (X c w).1 = st c) (s : St κ σ) (he : s.e = true)
    (hr : s.out = .run) : (eval X false (block l) s).out = .run ↔ ∀ c ∈ l, st c = .ok := by
  induction l generalizing s with
  | nil => simp [block, eval, hr]
  | cons c l ih =>
    have hc := hst c (by simp) s.w
    rw [eval_block_cons]
    constructor
    · intro h
      obtain ⟨h1, h2⟩ := run_of_next h
      rw [h2, ih (fun c hc => hst c (by simp [hc])) _ (by rw [simple_e]; exact he) h1] at h
      rw [simple_strict he h1] at hc
      simpa [← hc] using h
    · intro h
      have h1 : (simple X false c s).out = .run := by rw [simple_ok (hc.trans (h c (by simp)))]; exact hr
      rw [next_run h1, ih (fun c hc => hst c (by simp [hc])) _ (by rw [simple_e]; exact he) h1]
      exact fun c hc => h c (by simp [hc])

/-- **With errexit off a block gets through unless it is killed** -/
theorem eval_block_loose {l : List κ} (hst : ∀ c ∈ l, ∀ w, (X c w).1 = st c) (s : St κ σ) (he : s.e = false)
    (hr : s.out = .run) : (eval X false (block l) s).out = .run ↔ ∀ c ∈ l, st c ≠ .killed := by
  induction l generalizing s with
  | nil => simp [block, eval, hr]
  | cons c l ih =>
    have hc := hst c (by simp) s.w
    rw [eval_block_cons]
    constructor
    · intro h
      obtain ⟨h1, h2⟩ := run_of_next h
      rw [h2, ih (fun c hc => hst c (by simp [hc])) _ (by rw [simple_e]; exact he) h1] at h
      rw [simple_loose (Or.inl he) hr, hc] at h1
      simpa [h1] using h
    · intro h
      have h1 : (simple X false c s).out = .run := by rw [simple_loose (Or.inl he) hr, hc]; exact h c (by simp)
      rw [next_run h1, ih (fun c hc => hst c (by simp [hc])) _ (by rw [simple_e]; exact he) h1]
      exact fun c hc => h c (by simp [hc])

/-- to its caller a shell that has run a block under errexit has succeeded iff the block gets through -/
theorem block_stat_ok (X : κ → σ → Stat × σ) (l : List κ) (s : St κ σ) (he : s.e = true) (hok : s.ok = true)
    (hr : s.out = .run) : (eval X false (block l) s).stat = .ok ↔ (eval X false (block l) s).out = .run := by
  constructor
  · exact run_of_stat (failing_block l) (by simp [hr])
  · intro h
    refine stat_ok_iff.2 (Or.inr ⟨h, ?_⟩)
    cases l with
    | nil => exact hok
    | cons c l => exact eval_block_ok X c l s he h

/-- the same where it depends on the world whether a command succeeds -/
theorem eval_block_trace (X : κ → σ → Stat × σ) (l : List κ) (s : St κ σ) (he : s.e = true) (hr : s.out = .run) :
    (eval X false (block l) s).out = .run ↔ ∀ x ∈ trace X l s.w, x.2 = true := by
  induction l generalizing s with
  | nil => simpa [block, eval, trace] using hr
  | cons c l ih =>
    rw [eval_block_cons, trace]
    simp only [List.forall_mem_cons, decide_eq_true_iff]
    constructor
    · intro h
      obtain ⟨h1, h2⟩ := run_of_next h
      have hc := simple_strict he h1
      rw [h2, ih _ ((simple_e X false c s).trans he) h1, simple_w] at h
      exact ⟨hc, h⟩
    · rintro ⟨hc, hl⟩
      have hrun := (ih { s with w := (X c s.w).2, ok := true, log := s.log ++ [(c, true)] } he hr).2 hl
      rw [simple_ok hc, next_run (by exact hr)]
      exact hrun

/-- how a block under errexit ends -/
def outcome (st : κ → Stat) : List κ → Out
  | [] => .run
  | c :: l =>
    match st c with
    | .ok => outcome st l
    | .fail => .exit 1
    | .killed => .killed

theorem outcome_run {l : List κ} : outcome st l = .run ↔ ∀ c ∈ l, st c = .ok := by
  induction l with
  | nil => simp [outcome]
  | cons c l ih => cases h : st c <;> simp [outcome, h, ih]

theorem outcome_cases (st : κ → Stat) (l : List κ) : outcome st l = .run ∨ outcome st l = .exit 1 ∨ outcome st l = .killed := by
  induction l with
  | nil => exact Or.inl rfl
  | cons c l ih => cases h : st c <;> simp [outcome, h, ih]

theorem eval_block_outcome {l : List κ} (hst : ∀ c ∈ l, ∀ w, (X c w).1 = st c) (s : St κ σ) (he : s.e = true)
    (hr : s.out = .run) : (eval X false (block l) s).out = outcome st l := by
  induction l generalizing s with
  | nil => simpa [block, eval, outcome] using hr
  | cons c l ih =>
    have hc := hst c (by simp) s.w
    rw [eval_block_cons, outcome]
    cases h : st c with
    | ok =>
      have h1 : (simple X false c s).out = .run := by rw [simple_ok (hc.trans h)]; exact hr
      rw [next_run h1, ih (fun c hc => hst c (by simp [hc])) _ (by rw [simple_e]; exact he) h1]
    | fail =>
      have h1 : (simple X false c s).out = .exit 1 := by simp [simple, hc, h, check, he]
      rw [next_stop (by simp [h1]), h1]
    | killed =>
      have h1 : (simple X false c s).out = .killed := by simp [simple, hc, h]
      rw [next_stop (by simp [h1]), h1]

/-- where a block under errexit stops, its last command has not succeeded: what the other commands keep, and the failing
ones, holds -/
theorem eval_block_stop {l : List κ} {I : σ → Prop} (hst : ∀ c ∈ l, ∀ w, (X c w).1 = st c)
    (hok : ∀ c ∈ l.dropLast, ∀ w, I w → I (X c w).2) (hbad : ∀ c ∈ l, st c ≠ .ok → ∀ w, I w → I (X c w).2) (s : St κ σ)
    (hr : s.out = .run) (h : I s.w) (hs : (eval X false (block l) s).out ≠ .run) :
    I (eval X false (block l) s).w := by
  induction l generalizing s with
  | nil => exact absurd hr hs
  | cons c l ih =>
    have hc := hst c (by simp) s.w
    rw [eval_block_cons] at hs ⊢
    by_cases h1 : (simple X false c s).out = .run
    · rw [next_run h1] at hs ⊢
      cases l with
      | nil => exact absurd h1 hs
      | cons d l =>
        refine ih (fun c hc => hst c (by simp [hc])) (fun c hc => hok c (by simp [hc])) (fun c hc => hbad c (by simp [hc]))
          _ h1 ?_ hs
        rw [simple_w]
        exact hok c (by simp) _ h
    · rw [next_stop h1, simple_w]
      refine hbad c (by simp) (fun ho => h1 ?_) _ h
      rw [simple_ok (hc.trans ho)]
      exact hr

end PlainStatus

/-- a block that gets through has executed every command -/
theorem eval_block_run (X : κ → σ → Stat × σ) (ign : Bool) (l : List κ) (s : St κ σ)
    (h : (eval X ign (block l) s).out = .run) :
    (eval X ign (block l) s).w = effect X l s.w ∧ (eval X ign (block l) s).e = s.e ∧
      (eval X ign (block l) s).log = s.log ++ trace X l s.w := by
  induction l generalizing s with
  | nil => simp [block, eval, effect, trace]
  | cons c l ih =>
    rw [eval_block_cons] at h ⊢
    obtain ⟨h1, h2⟩ := run_of_next h
    rw [h2] at h ⊢
    obtain ⟨i1, i2, i3⟩ := ih _ h
    refine ⟨?_, ?_, ?_⟩
    · rw [i1, simple_w]; rfl
    · rw [i2, simple_e]
    · rw [i3, simple_log, simple_w, trace, List.append_assoc]; rfl

/-- **A script that is one block with errexit off** executes all of it -/
theorem run_loose_block {X : κ → σ → Stat × σ} (hX : ∀ c w, (X c w).1 ≠ .killed) (l : List κ) (w : σ) :
    (run X (seqs [.errexit false, block l]) w).w = effect X l w := by
  have h := eval_block_through hX false l (start κ w) (Or.inl rfl) rfl
  calc (run X (seqs [.errexit false, block l]) w).w
      = ((eval X false (block l) (start κ w)).next fun t => t).w := rfl
    _ = (eval X false (block l) (start κ w)).w := by rw [next_id]
    _ = effect X l w := (eval_block_run X false l _ h).1

/-- **A script that is one block under errexit** succeeds iff the block gets through, and then has executed all of it -/
theorem run_strict_block (X : κ → σ → Stat × σ) (c : κ) (l : List κ) (w : σ)
    (h : (run X (seqs [.errexit true, block (c :: l), .tt]) w).stat = .ok) :
    (X c w).1 = .ok ∧ (run X (seqs [.errexit true, block (c :: l), .tt]) w).w = effect X (c :: l) w := by
  obtain ⟨s, hs⟩ : ∃ s, s = eval X false (block (c :: l)) { start κ w with e := true } := ⟨_, rfl⟩
  have heval : run X (seqs [.errexit true, block (c :: l), .tt]) w = s.next fun s' => { s' with ok := true } := by
    rw [hs]
    have htt : ∀ t : St κ σ, t.out = .run → eval X false (.seq .tt .nop) t = { t with ok := true } := by
      intro t ht
      rw [eval, eval, next_run (s := { t with ok := true }) ht]
      rfl
    show (eval X false (block (c :: l)) { start κ w with e := true }).next (eval X false (.seq .tt .nop)) = _
    by_cases ht : (eval X false (block (c :: l)) { start κ w with e := true }).out = .run
    · rw [next_run ht, next_run ht, htt _ ht]
    · rw [next_stop ht, next_stop ht]
  have hrun : s.out = .run := by
    by_contra hne
    rw [heval, next_stop hne] at h
    refine stat_of_stop hne ?_ h
    rw [hs]
    exact eval_failing X false _ (failing_block _) _ (by simp [start])
  rw [heval, next_run hrun]
  rw [hs] at hrun ⊢
  refine ⟨?_, (eval_block_run X false _ _ hrun).1⟩
  rw [eval_block_cons] at hrun
  exact simple_strict rfl (run_of_next hrun).1

/-! ## Which failures end a script -/

/- `st c` is the status of `c` and `F c` says that a failure of `c` ends the script. -/
variable {X : κ → σ → Stat × σ} {st : κ → Stat} {F : κ → Bool} {I J K : σ → Prop} {e e' e'' : Bool}

/-- a command that does not end the script -/
def Passed (st : κ → Stat) (F : κ → Bool) (c : κ) : Prop := st c = .ok ∨ st c = .fail ∧ F c = false

/-- from a world in `I`, with errexit at `e`, the script `a` gets through iff every command of `l` passes; then `l` is
what it has executed, the world is in `J` and errexit is at `e'` -/
structure Covers (X : κ → σ → Stat × σ) (st : κ → Stat) (F : κ → Bool) (I J : σ → Prop) (e e' : Bool) (a : Sh κ σ)
    (l : List κ) : Prop where
  pass : ∀ s : St κ σ, s.out = .run → s.e = e → I s.w →
    ((eval X false a s).out = .run ↔ ∀ c ∈ l, Passed st F c)
  after : ∀ s : St κ σ, s.out = .run → s.e = e → I s.w → (eval X false a s).out = .run →
    (eval X false a s).e = e' ∧ (eval X false a s).log = s.log ++ l.map (fun c => (c, decide (st c = .ok))) ∧
      J (eval X false a s).w

theorem Covers.nop : Covers X st F I I e e .nop [] :=
  ⟨fun s hr _ _ => by simp [eval, hr], fun s _ he hI _ => by simp [eval, he, hI]⟩

theorem Covers.tt : Covers X st F I I e e .tt [] :=
  ⟨fun s hr _ _ => by simp [eval, hr], fun s _ he hI _ => by simp [eval, he, hI]⟩

theorem Covers.errexit (on : Bool) : Covers X st F I I e on (.errexit on) [] :=
  ⟨fun s hr _ _ => by simp [eval, hr], fun s _ _ hI _ => by simp [eval, hI]⟩

theorem Covers.seq {a b : Sh κ σ} {l m : List κ} (ha : Covers X st F I J e e' a l) (hb : Covers X st F J K e' e'' b m) :
    Covers X st F I K e e'' (.seq a b) (l ++ m) := by
  refine ⟨fun s hr he hI => ?_, fun s hr he hI h => ?_⟩
  · rw [eval_seq_run, ha.pass s hr he hI]
    constructor
    · rintro ⟨h1, h2⟩ c hc
      have hra := (ha.pass s hr he hI).2 h1
      obtain ⟨he1, -, hJ⟩ := ha.after s hr he hI hra
      rcases List.mem_append.1 hc with hc | hc
      · exact h1 c hc
      · exact (hb.pass _ hra he1 hJ).1 h2 c hc
    · intro h
      have h1 : ∀ c ∈ l, Passed st F c := fun c hc => h c (List.mem_append_left _ hc)
      have hra := (ha.pass s hr he hI).2 h1
      obtain ⟨he1, -, hJ⟩ := ha.after s hr he hI hra
      exact ⟨h1, (hb.pass _ hra he1 hJ).2 fun c hc => h c (List.mem_append_right _ hc)⟩
  · obtain ⟨hra, hrb⟩ := (eval_seq_run X false a b s).1 h
    obtain ⟨he1, hl1, hJ⟩ := ha.after s hr he hI hra
    obtain ⟨he2, hl2, hK⟩ := hb.after _ hra he1 hJ hrb
    rw [eval_seq_eq X false a b s hra]
    exact ⟨he2, by rw [hl2, hl1]; simp, hK⟩

/-- the rule for a sequence whose first part executes nothing that is recorded -/
theorem Covers.seq_nil {a b : Sh κ σ} {m : List κ} (ha : Covers X st F I J e e' a [])
    (hb : Covers X st F J K e' e'' b m) : Covers X st F I K e e'' (.seq a b) m := by
  have h := ha.seq hb
  rwa [List.nil_append] at h

/-- the last script of a `seqs` -/
theorem Covers.last {a : Sh κ σ} {l : List κ} (ha : Covers X st F I J e e' a l) :
    Covers X st F I J e e' (seqs [a]) l := by
  have h := ha.seq Covers.nop
  rwa [List.append_nil] at h

/-- a smaller set of worlds to start from -/
theorem Covers.pre {a : Sh κ σ} {l : List κ} (ha : Covers X st F I J e e' a l) (hK : ∀ w, K w → I w) :
    Covers X st F K J e e' a l :=
  ⟨fun s hr he h => ha.pass s hr he (hK _ h), fun s hr he h => ha.after s hr he (hK _ h)⟩

theorem Covers.cond {b : σ → Bool} {t f : Sh κ σ} {l : List κ} (v : Bool) (hv : ∀ w, I w → b w = v)
    (h : Covers X st F I J e e' (if v then t else f) l) : Covers X st F I J e e' (.cond b t f) l := by
  have heq : ∀ s : St κ σ, I s.w → eval X false (.cond b t f) s = eval X false (if v then t else f) s := by
    intro s hI
    rw [eval, hv _ hI]
    cases v <;> rfl
  refine ⟨fun s hr he hI => ?_, fun s hr he hI => ?_⟩ <;> rw [heq s hI]
  · exact h.pass s hr he hI
  · exact h.after s hr he hI

theorem trace_plain {l : List κ} (hst : ∀ c ∈ l, ∀ w, (X c w).1 = st c) (w : σ) :
    trace X l w = l.map fun c => (c, decide (st c = .ok)) := by
  induction l generalizing w with
  | nil => rfl
  | cons c l ih => rw [trace, hst c (by simp), ih fun c hc => hst c (by simp [hc])]; rfl

theorem effect_inv {l : List κ} (hI : ∀ c ∈ l, ∀ w, I w → I (X c w).2) {w : σ} (h : I w) : I (effect X l w) := by
  induction l generalizing w with
  | nil => exact h
  | cons c l ih => exact ih (fun c hc => hI c (by simp [hc])) (hI c (by simp) w h)

/-- a block under errexit, or a block with errexit off -/
theorem Covers.block {l : List κ} (hst : ∀ c ∈ l, ∀ w, (X c w).1 = st c) (hF : ∀ c ∈ l, F c = e)
    (hI : (∀ c ∈ l, Passed st F c) → ∀ w, I w → J (effect X l w)) : Covers X st F I J e e (block l) l := by
  have hpass : ∀ s : St κ σ, s.out = .run → s.e = e →
      ((eval X false (Shell.block l) s).out = .run ↔ ∀ c ∈ l, Passed st F c) := by
    intro s hr he
    cases e with
    | true =>
      rw [eval_block_strict hst s he hr]
      refine forall₂_congr fun c hc => ?_
      simp [Passed, hF c hc]
    | false =>
      rw [eval_block_loose hst s he hr]
      refine forall₂_congr fun c hc => ?_
      cases hc' : st c <;> simp [Passed, hF c hc, hc']
  refine ⟨fun s hr he _ => hpass s hr he, fun s hr he hs h => ?_⟩
  obtain ⟨h1, h2, h3⟩ := eval_block_run X false l s h
  rw [h1, h2, h3, trace_plain hst]
  exact ⟨he, rfl, hI ((hpass s hr he).1 h) _ hs⟩

/-- one command -/
theorem Covers.cmd {c : κ} (hst : ∀ w, (X c w).1 = st c) (hF : F c = e)
    (hI : Passed st F c → ∀ w, I w → J (X c w).2) : Covers X st F I J e e (.cmd c) [c] := by
  have h : Covers X st F I J e e (Shell.block [c]) [c] :=
    Covers.block (by simpa using hst) (by simpa using hF) fun hp w hw => hI (hp c (by simp)) w hw
  have heq : ∀ s : St κ σ, eval X false (Shell.block [c]) s = eval X false (.cmd c) s := eval_block_one X false c
  refine ⟨fun s hr he hs => ?_, fun s hr he hs => ?_⟩ <;> rw [← heq]
  · exact h.pass s hr he hs
  · exact h.after s hr he hs

theorem eval_when_ok {ign : Bool} {c : κ} {t : Sh κ σ} {s : St κ σ} (hr : s.out = .run) (h : (X c s.w).1 = .ok) :
    eval X ign ((Sh.cmd c).when t) s =
      eval X ign t { s with w := (X c s.w).2, ok := true, log := s.log ++ [(c, true)] } := by
  simp [Sh.when, eval, simple, h, St.next, hr]

theorem eval_when_fail {ign : Bool} {c : κ} {t : Sh κ σ} {s : St κ σ} (hr : s.out = .run) (h : (X c s.w).1 = .fail) :
    eval X ign ((Sh.cmd c).when t) s =
      { s with w := (X c s.w).2, ok := true, log := s.log ++ [(c, false)] } := by
  simp [Sh.when, eval, simple, h, check, St.next, hr]

theorem eval_when_killed {ign : Bool} {c : κ} {t : Sh κ σ} {s : St κ σ} (h : (X c s.w).1 = .killed) :
    (eval X ign ((Sh.cmd c).when t) s).out = .killed := by
  simp [Sh.when, eval, simple, h, St.next]

/-- `for x in $(c); do t; done`: `t` is what is left to do when `c` succeeds, and a failing `c` is not noticed -/
theorem Covers.when {c : κ} {t : Sh κ σ} {l : List κ} (hc : ∀ w, (X c w).1 = st c) (hF : F c = false)
    (hI : ∀ w, I w → I (X c w).2) (ht : Covers X st F I I e e t l) :
    Covers X st F I I e e ((Sh.cmd c).when t) (c :: if st c = .ok then l else []) := by
  cases h : st c with
  | ok =>
    refine ⟨fun s hr he hs => ?_, fun s hr he hs => ?_⟩ <;> rw [eval_when_ok hr ((hc s.w).trans h)]
    · rw [ht.pass { s with w := (X c s.w).2, ok := true, log := s.log ++ [(c, true)] } hr he (hI _ hs)]
      simp [Passed, h]
    · intro hrun
      obtain ⟨h1, h2, h3⟩ :=
        ht.after { s with w := (X c s.w).2, ok := true, log := s.log ++ [(c, true)] } hr he (hI _ hs) hrun
      exact ⟨h1, by rw [h2]; simp [h], h3⟩
  | fail =>
    refine ⟨fun s hr he hs => ?_, fun s hr he hs _ => ?_⟩ <;> rw [eval_when_fail hr ((hc s.w).trans h)]
    · simp [hr, Passed, h, hF]
    · exact ⟨he, by simp [h], hI _ hs⟩
  | killed =>
    refine ⟨fun s hr he hs => ?_, fun s hr he hs hrun => ?_⟩
    · rw [eval_when_killed ((hc s.w).trans h)]
      simp [Passed, h]
    · rw [eval_when_killed ((hc s.w).trans h)] at hrun
      simp at hrun

end AvaotaOS.Shell
