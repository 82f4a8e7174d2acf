/-
The patch steps, `patch_kernel` of `mklinux.sh` and `patch_u-boot` of `bootloader-sunxi-uboot.sh`: one loop over the patches
in the order of `ls`, under errexit, without a marker of its own.

A source tree is any type, and `patch p T` is what `patch -p1` makes of `T`, or `none` if it exits with a non-zero status.
`Series S P` says that the patches apply cleanly to `S` one after the other, and that none applies to a tree that has it.
How a run ends between two commands is up to the environment (`env : Cmd Patch → Resp`).

- `runStep_source`: a run on a tree without patches ends with the first of them applied, and with all if it succeeds.
- `runStep_patched`: a run on a tree with a patch fails at the first one.
- `retriable_iff`: the step can be run again exactly where no patch has been applied yet.
- `retry_fails`: the build of the C1's U-Boot that fails after its patch step, and the next one.

The files that `patch_kernel` copies over the tree are kept apart from it; what `patch` itself leaves behind when it is
stopped halfway through a file is not modelled.
-/
import Mathlib.Tactic
import AvaotaOS.Core.History
import AvaotaOS.Core.Shell

namespace AvaotaOS.Patches

open Shell History

variable {Tree Patch : Type}

/-! ## Patches -/

section Series

variable (patch : Patch → Tree → Option Tree)

/-- the tree with the patches of a list applied, one after the other -/
def applyAll (P : List Patch) (S : Tree) : Option Tree := P.foldlM (fun T p => patch p T) S

/-- the patches apply cleanly to `S`, and none applies to a tree that has it -/
structure Series (S : Tree) (P : List Patch) : Prop where
  clean : (applyAll patch P S).isSome
  again : ∀ Q, Q <+: P → ∀ T, applyAll patch Q S = some T → ∀ p ∈ Q, patch p T = none

variable {patch} {S T : Tree} {p : Patch} {P : List Patch}

theorem applyAll_cons (h : patch p S = some T) : applyAll patch (p :: P) S = applyAll patch P T := by
  rw [applyAll, List.foldlM_cons, h]
  rfl

/-- the first patch of a series, and the rest -/
theorem Series.uncons (h : Series patch S (p :: P)) : ∃ T, patch p S = some T ∧ patch p T = none ∧ Series patch T P := by
  cases hp : patch p S with
  | none =>
    have hc := h.clean
    rw [applyAll, List.foldlM_cons, hp] at hc
    simp at hc
  | some T =>
    refine ⟨T, rfl, ?_, ?_, ?_⟩
    · apply h.again [p] (by simp) T _ p (by simp)
      rw [applyAll_cons hp]
      rfl
    · have hc := h.clean
      rwa [applyAll_cons hp] at hc
    · intro Q hQ T' hT' q hq
      apply h.again (p :: Q) (List.cons_prefix_cons.2 ⟨rfl, hQ⟩) T' _ q (List.mem_cons_of_mem p hq)
      rwa [applyAll_cons hp]

theorem Series.applies (h : Series patch S P) {Q : List Patch} (hQ : Q <+: P) : ∃ T, applyAll patch Q S = some T := by
  obtain ⟨R, rfl⟩ := hQ
  have hc := h.clean
  rw [applyAll, List.foldlM_append] at hc
  cases hq : applyAll patch Q S with
  | none =>
    rw [applyAll] at hq
    rw [hq] at hc
    simp at hc
  | some T => exact ⟨T, rfl⟩

end Series

/-! ## The script -/

/-- the simple commands; `pth` is a file of the patch directory -/
inductive Cmd (Patch : Type) where
  | cp (pth : Patch)
  | pushd (pth : Patch)
  | patch (pth : Patch)
  | rm (pth : Patch)
  | popd (pth : Patch)
  | cpFiles
  | sync
deriving DecidableEq, Repr

/-- the target directory -/
structure World (Tree Patch : Type) where
  tree : Option Tree
  /-- the copies of the patch files in the tree -/
  copies : Patch → Bool
  /-- the files of `files/` have been copied -/
  files : Bool

section Script

variable [DecidableEq Patch] (patch : Patch → Tree → Option Tree) (env : Cmd Patch → Resp)

def exec (c : Cmd Patch) (w : World Tree Patch) : Stat × World Tree Patch :=
  match c, env c with
  | .cp p, .ok => (.ok, { w with copies := Function.update w.copies p true })
  | .cp p, r => (r.stat, if r.part then { w with copies := Function.update w.copies p true } else w)
  | .patch p, .ok =>
    match w.copies p, w.tree.bind (patch p) with
    | true, some T => (.ok, { w with tree := some T })
    | _, _ => (.fail, w)
  | .rm p, .ok => if w.copies p then (.ok, { w with copies := Function.update w.copies p false }) else (.fail, w)
  | .cpFiles, .ok => (.ok, { w with files := true })
  | _, r => (r.stat, w)

def patchRound (pth : Patch) : List (Cmd Patch) := [.cp pth, .pushd pth, .patch pth, .rm pth, .popd pth]

def patchLoop (P : List Patch) : List (Cmd Patch) := P.flatMap patchRound

/-- what the two functions share: the source path must exist, then the loop -/
def patchStep (P : List Patch) (files : List (Cmd Patch)) : Sh (Cmd Patch) (World Tree Patch) :=
  seqs [.cond (·.tree.isSome) .tt (.exit 2), block (patchLoop P), block files]

/-- `patches` are those of `patches/kernel/${patchdev}/patches`, and `files` says that there are `files` beside them -/
def patch_kernel (P : List Patch) (files : Bool) : Sh (Cmd Patch) (World Tree Patch) :=
  patchStep P (if files then [.cpFiles, .sync] else [])

def patch_u_boot (P : List Patch) : Sh (Cmd Patch) (World Tree Patch) := patchStep P []

/-- a run of the step, with errexit on as in both scripts -/
def runStep (a : Sh (Cmd Patch) (World Tree Patch)) (w : World Tree Patch) : St (Cmd Patch) (World Tree Patch) :=
  run (exec patch env) (seqs [.errexit true, a]) w

end Script

/-! ## The loop -/

section Loop

variable [DecidableEq Patch] {patch : Patch → Tree → Option Tree} {env : Cmd Patch → Resp} {w : World Tree Patch}
  {s : St (Cmd Patch) (World Tree Patch)} {T T' : Tree} {p : Patch} {P : List Patch}

theorem env_of_ok {c : Cmd Patch} (h : (exec patch env c w).1 = .ok) : env c = .ok := by
  cases he : env c with
  | ok => rfl
  | fail q => cases c <;> simp [exec, he, Resp.stat] at h
  | kill q => cases c <;> simp [exec, he, Resp.stat] at h

/-- only `patch` changes the tree -/
theorem exec_tree (c : Cmd Patch) (hc : ∀ q, c ≠ .patch q) : (exec patch env c w).2.tree = w.tree := by
  unfold exec
  split
  · rfl
  · split <;> rfl
  · exact absurd rfl (hc _)
  · split <;> rfl
  · rfl
  · rfl

/-- only `cp` makes a copy -/
theorem exec_copies {c : Cmd Patch} {q : Patch} (h : (exec patch env c w).2.copies q = true) :
    w.copies q = true ∨ c = .cp q := by
  have hupd : ∀ p v, Function.update w.copies p v q = true → w.copies q = true ∨ v = true ∧ p = q := by
    intro p v hq
    by_cases hqp : q = p
    · subst hqp
      rw [Function.update_self] at hq
      exact Or.inr ⟨hq, rfl⟩
    · exact Or.inl ((Function.update_of_ne hqp ..).symm.trans hq)
  unfold exec at h
  split at h
  · exact (hupd _ _ h).imp_right fun hp => congrArg Cmd.cp hp.2
  · split at h
    · exact (hupd _ _ h).imp_right fun hp => congrArg Cmd.cp hp.2
    · exact Or.inl h
  · split at h <;> exact Or.inl h
  · split_ifs at h
    · exact (hupd _ _ h).imp_right fun hp => absurd hp.1 (by simp)
    · exact Or.inl h
  · exact Or.inl h
  · exact Or.inl h

variable (patch env p) in
theorem exec_patch_tree (ht : w.tree = some T) :
    (exec patch env (.patch p) w).2.tree = some T ∨ ∃ T', patch p T = some T' ∧ (exec patch env (.patch p) w).2.tree = some T' := by
  cases he : env (.patch p) with
  | ok =>
    cases hc : w.copies p with
    | false => exact Or.inl (by simp [exec, he, hc, ht])
    | true =>
      cases hp : patch p T with
      | none => exact Or.inl (by simp [exec, he, hc, ht, hp])
      | some T' => exact Or.inr ⟨T', rfl, by simp [exec, he, hc, ht, hp]⟩
  | fail q => exact Or.inl (by simp [exec, he, ht])
  | kill q => exact Or.inl (by simp [exec, he, ht])

/-- what the patch of a round keeps of the tree, the round keeps -/
theorem round_inv {I : Option Tree → Prop} (hI : ∀ w : World Tree Patch, I w.tree → I (exec patch env (.patch p) w).2.tree)
    (h : I s.w.tree) : I (eval (exec patch env) false (block (patchRound p)) s).w.tree := by
  refine eval_inv (exec patch env) (fun w => I w.tree) false _ ?_ s h
  intro c hc w hw
  by_cases hcp : c = .patch p
  · subst hcp
    exact hI w hw
  · rw [exec_tree c]
    · exact hw
    · rintro q rfl
      simp only [cmds_block, patchRound, List.mem_cons, List.not_mem_nil, or_false, reduceCtorEq, false_or,
        Cmd.patch.injEq] at hc
      exact hcp (congrArg Cmd.patch hc)

variable (env s) in
/-- a round leaves the tree alone or applies its patch -/
theorem round_tree (ht : s.w.tree = some T) (hp : patch p T = some T') (hn : patch p T' = none) :
    (eval (exec patch env) false (block (patchRound p)) s).w.tree = some T ∨
      (eval (exec patch env) false (block (patchRound p)) s).w.tree = some T' := by
  refine round_inv (I := fun t => t = some T ∨ t = some T') ?_ (Or.inl ht)
  rintro w (hw | hw)
  · rcases exec_patch_tree patch env p hw with h | ⟨T'', h1, h2⟩
    · exact Or.inl h
    · rw [hp] at h1
      obtain rfl := Option.some.inj h1
      exact Or.inr h2
  · rcases exec_patch_tree patch env p hw with h | ⟨T'', h1, -⟩
    · exact Or.inr h
    · exact absurd (hn.symm.trans h1) (by simp)

/-- the world after a round whose commands have all succeeded -/
theorem round_effect (ht : w.tree = some T) (hp : patch p T = some T') (h : ∀ c ∈ patchRound p, env c = .ok) :
    effect (exec patch env) (patchRound p) w = { w with tree := some T', copies := Function.update w.copies p false } ∧
      ∀ x ∈ trace (exec patch env) (patchRound p) w, x.2 = true := by
  simp only [patchRound, List.forall_mem_cons] at h
  obtain ⟨h1, h2, h3, h4, h5, -⟩ := h
  simp [patchRound, trace, exec, h1, h2, h3, h4, h5, ht, hp, Function.update_idem, Resp.stat]

theorem env_of_trace {l : List (Cmd Patch)} (h : ∀ x ∈ trace (exec patch env) l w, x.2 = true) : ∀ c ∈ l, env c = .ok := by
  induction l generalizing w with
  | nil => simp
  | cons c l ih =>
    rw [trace, List.forall_mem_cons] at h
    rw [List.forall_mem_cons]
    exact ⟨env_of_ok (of_decide_eq_true h.1), ih h.2⟩

variable (env) in
/-- **The loop on a tree without patches**: it applies the first of them, up to where it stops, and all of them if it gets
through, as it does when nothing goes wrong -/
theorem loop_spec (hs : Series patch T P) (hr : s.out = .run) (he : s.e = true) (ht : s.w.tree = some T) :
    let t := eval (exec patch env) false (block (patchLoop P)) s
    (∃ Q, Q <+: P ∧ t.w.tree = applyAll patch Q T) ∧
      (t.out = .run → t.w.tree = applyAll patch P T ∧ ∀ q, t.w.copies q = true → q ∉ P ∧ s.w.copies q = true) ∧
      ((∀ c, env c = .ok) → t.out = .run) := by
  induction P generalizing s T with
  | nil => exact ⟨⟨[], List.prefix_rfl, ht⟩, fun _ => ⟨ht, fun q hq => ⟨List.not_mem_nil, hq⟩⟩, fun _ => hr⟩
  | cons p P ih =>
    obtain ⟨T', hp, hn, hs'⟩ := hs.uncons
    have hloop : patchLoop (p :: P) = patchRound p ++ patchLoop P := rfl
    rw [hloop, eval_block_append _ _ _ _ _ hr]
    have htree := round_tree env s ht hp hn
    generalize hu : eval (exec patch env) false (block (patchRound p)) s = u at htree ⊢
    by_cases hur : u.out = .run
    · -- the round has applied its patch
      have hall := (eval_block_trace _ _ s he hr).1 (hu ▸ hur)
      obtain ⟨huw, hue, -⟩ := eval_block_run _ _ _ s (hu ▸ hur)
      rw [hu] at huw hue
      rw [(round_effect ht hp (env_of_trace hall)).1] at huw
      rw [next_run hur]
      obtain ⟨⟨Q, hQ, hQt⟩, hrun, hok⟩ := ih hs' hur (hue.trans he) (by rw [huw])
      refine ⟨⟨p :: Q, List.cons_prefix_cons.2 ⟨rfl, hQ⟩, ?_⟩, fun h => ?_, hok⟩
      · rw [hQt, applyAll_cons hp]
      · obtain ⟨htree, hcopies⟩ := hrun h
        refine ⟨by rw [htree, applyAll_cons hp], fun q hq => ?_⟩
        obtain ⟨hnot, hc⟩ := hcopies q hq
        rw [huw] at hc
        by_cases hqp : q = p
        · simp [hqp] at hc
        · have hc' : s.w.copies q = true := (Function.update_of_ne hqp ..).symm.trans hc
          exact ⟨fun hm => (List.mem_cons.1 hm).elim hqp hnot, hc'⟩
    · rw [next_stop hur]
      refine ⟨?_, fun h => absurd h hur, fun hok => ?_⟩
      · rcases htree with h | h
        · exact ⟨[], List.nil_prefix, h⟩
        · exact ⟨[p], by simp, by rw [h, applyAll_cons hp]; rfl⟩
      · have hall := (round_effect ht hp fun c _ => hok c).2
        rw [← hu] at hur
        exact absurd ((eval_block_trace _ _ s he hr).2 hall) hur

/-- a round that gets through has applied its patch -/
theorem round_run (hr : s.out = .run) (he : s.e = true) (ht : s.w.tree = some T)
    (h : (eval (exec patch env) false (block (patchRound p)) s).out = .run) :
    ∃ T', patch p T = some T' ∧ (eval (exec patch env) false (block (patchRound p)) s).w.tree = some T' := by
  have hall := (eval_block_trace _ _ s he hr).1 h
  have hok := env_of_trace hall
  simp only [patchRound, trace, List.forall_mem_cons, decide_eq_true_iff] at hall
  obtain ⟨-, -, h3, -⟩ := hall
  generalize hw' : (exec patch env (.pushd p) (exec patch env (.cp p) s.w).2).2 = w' at h3
  have ht' : w'.tree = some T := by
    rw [← hw', exec_tree _ (by simp), exec_tree _ (by simp)]
    exact ht
  have he3 := env_of_ok h3
  cases hp : patch p T with
  | none => cases hc : w'.copies p <;> simp [exec, he3, ht', hp, hc] at h3
  | some T' =>
    refine ⟨T', rfl, ?_⟩
    rw [(eval_block_run _ _ _ s h).1, (round_effect ht hp hok).1]

/-- **A loop that gets through has applied every patch** -/
theorem loop_run (hr : s.out = .run) (he : s.e = true) (ht : s.w.tree = some T)
    (h : (eval (exec patch env) false (block (patchLoop P)) s).out = .run) : (applyAll patch P T).isSome = true := by
  induction P generalizing s T with
  | nil => rfl
  | cons p P ih =>
    have hloop : patchLoop (p :: P) = patchRound p ++ patchLoop P := rfl
    rw [hloop, eval_block_append _ _ _ _ _ hr] at h
    obtain ⟨hround, hrest⟩ := run_of_next h
    obtain ⟨T', hp, htree⟩ := round_run hr he ht hround
    rw [hrest] at h
    rw [applyAll_cons hp]
    exact ih hround ((eval_block_run _ _ _ s hround).2.1.trans he) htree h

variable (env) in
/-- **The loop on a tree that has the first patch** stops there -/
theorem loop_stops (hr : s.out = .run) (he : s.e = true) (ht : s.w.tree = some T) (hp : patch p T = none) :
    let t := eval (exec patch env) false (block (patchLoop (p :: P))) s
    t.w.tree = some T ∧ t.out ≠ .run := by
  have hloop : patchLoop (p :: P) = patchRound p ++ patchLoop P := rfl
  rw [hloop, eval_block_append _ _ _ _ _ hr]
  have htree : (eval (exec patch env) false (block (patchRound p)) s).w.tree = some T := by
    refine round_inv (I := fun t => t = some T) (fun w hw => ?_) ht
    rcases exec_patch_tree patch env p hw with h | ⟨T', h1, -⟩
    · exact h
    · exact absurd (hp.symm.trans h1) (by simp)
  have hstop : (eval (exec patch env) false (block (patchRound p)) s).out ≠ .run := by
    intro h
    obtain ⟨T', h1, -⟩ := round_run hr he ht h
    exact absurd (hp.symm.trans h1) (by simp)
  rw [next_stop hstop]
  exact ⟨htree, hstop⟩

end Loop

/-! ## Runs -/

/-- the two functions with a patch loop -/
inductive Script where
  | patch_kernel (files : Bool)
  | patch_u_boot
deriving DecidableEq, Repr

def Script.files : Script → List (Cmd Patch)
  | patch_kernel files => if files then [.cpFiles, .sync] else []
  | patch_u_boot => []

def Script.sh (P : List Patch) : Script → Sh (Cmd Patch) (World Tree Patch)
  | patch_kernel files => Patches.patch_kernel P files
  | patch_u_boot => Patches.patch_u_boot P

/-- the tree as it was fetched -/
def source (S : Tree) : World Tree Patch := ⟨some S, fun _ => false, false⟩

section Runs

variable [DecidableEq Patch] (patch : Patch → Tree → Option Tree) (f : Script) (S : Tree) (P : List Patch)

/-- the world after one more run -/
def next (w : World Tree Patch) (env : Cmd Patch → Resp) : World Tree Patch := (runStep patch env (f.sh P) w).w

/-- **The patch step can be run**: where it succeeds, the tree is `S` with every patch applied once and nothing else, and it
does succeed when nothing goes wrong -/
structure Retriable (w : World Tree Patch) : Prop where
  exact : ∀ env, (runStep patch env (f.sh P) w).stat = .ok →
    (runStep patch env (f.sh P) w).w.tree = applyAll patch P S ∧ ∀ q, (runStep patch env (f.sh P) w).w.copies q = false
  retry : ∀ env, (∀ c, env c = .ok) → (runStep patch env (f.sh P) w).stat = .ok

variable {patch f S P} {env : Cmd Patch → Resp} {w : World Tree Patch} {T : Tree}

/-- the state in which the loop begins -/
def atLoop (w : World Tree Patch) : St (Cmd Patch) (World Tree Patch) := ⟨w, true, true, .run, []⟩

theorem runStep_eq (ht : w.tree = some T) :
    runStep patch env (f.sh P) w = eval (exec patch env) false (block (patchLoop P ++ f.files)) (atLoop w) := by
  have hsh : (f.sh P : Sh (Cmd Patch) (World Tree Patch)) = patchStep P f.files := by cases f <;> rfl
  rw [eval_block_append _ _ _ _ _ rfl, runStep, hsh]
  simp [run, start, patchStep, seqs, eval, ht, atLoop, next_run]

/-- the files beside the patches change neither the tree nor the copies -/
theorem files_inv {I : Option Tree → (Patch → Bool) → Prop} {s : St (Cmd Patch) (World Tree Patch)}
    (h : I s.w.tree s.w.copies) :
    I (eval (exec patch env) false (block f.files) s).w.tree (eval (exec patch env) false (block f.files) s).w.copies := by
  refine eval_inv (exec patch env) (fun w => I w.tree w.copies) false _ ?_ s h
  intro c hc w hw
  have hcs : c = .cpFiles ∨ c = .sync := by
    cases f with
    | patch_kernel files => cases files <;> simp_all [Script.files]
    | patch_u_boot => simp [Script.files] at hc
  rcases hcs with rfl | rfl
  · cases he : env .cpFiles <;> simp only [exec, he] <;> exact hw
  · exact hw

theorem files_run (hok : ∀ c, env c = .ok) {s : St (Cmd Patch) (World Tree Patch)} (hr : s.out = .run) (he : s.e = true) :
    (eval (exec patch env) false (block f.files) s).out = .run := by
  rw [eval_block_trace _ _ _ he hr]
  cases f with
  | patch_kernel files => cases files <;> simp [Script.files, trace, exec, hok, Resp.stat]
  | patch_u_boot => simp [Script.files, trace]

/-- **A run on a tree without patches** -/
theorem runStep_source (hs : Series patch S P) (ht : w.tree = some S) :
    let t := runStep patch env (f.sh P) w
    (∃ Q, Q <+: P ∧ t.w.tree = applyAll patch Q S) ∧
      (t.stat = .ok → t.w.tree = applyAll patch P S ∧ ∀ q, t.w.copies q = true → q ∉ P ∧ w.copies q = true) ∧
      ((∀ c, env c = .ok) → t.stat = .ok) := by
  obtain ⟨htree, hrun, hok⟩ := loop_spec env (s := atLoop w) hs rfl rfl ht
  have hstat := block_stat_ok (exec patch env) (patchLoop P ++ f.files) (atLoop w) rfl rfl rfl
  simp only [runStep_eq ht, hstat]
  rw [eval_block_append _ _ _ _ _ rfl]
  generalize hu : eval (exec patch env) false (block (patchLoop P)) (atLoop w) = u at htree hrun hok ⊢
  by_cases hur : u.out = .run
  · have hue : u.e = true := hu ▸ (eval_block_run _ _ _ _ (hu ▸ hur)).2.1
    rw [next_run hur]
    refine ⟨?_, fun _ => ?_, fun h => files_run h hur hue⟩
    · exact files_inv (I := fun t _ => ∃ Q, Q <+: P ∧ t = applyAll patch Q S) htree
    · exact files_inv (I := fun t c => t = applyAll patch P S ∧ ∀ q, c q = true → q ∉ P ∧ w.copies q = true) (hrun hur)
  · rw [next_stop hur]
    exact ⟨htree, fun h => absurd h hur, fun h => absurd (hok h) hur⟩

/-- **A run on a tree with a patch** fails and leaves the tree alone -/
theorem runStep_patched {p : Patch} (ht : w.tree = some T) (hp : patch p T = none) :
    (runStep patch env (f.sh (p :: P)) w).w.tree = some T ∧ (runStep patch env (f.sh (p :: P)) w).stat ≠ .ok := by
  obtain ⟨htree, hstop⟩ := loop_stops env (P := P) (s := atLoop w) rfl rfl ht hp
  rw [runStep_eq ht, eval_block_append _ _ _ _ _ rfl, next_stop hstop]
  refine ⟨htree, fun h => hstop ?_⟩
  exact (block_stat_ok _ _ (atLoop w) rfl rfl rfl).1 h

/-- a run that succeeds has applied every patch, whatever the tree was -/
theorem runStep_applies (ht : w.tree = some T) (h : (runStep patch env (f.sh P) w).stat = .ok) :
    (applyAll patch P T).isSome = true := by
  rw [runStep_eq ht] at h
  have hrun := (block_stat_ok (exec patch env) (patchLoop P ++ f.files) (atLoop w) rfl rfl rfl).1 h
  rw [eval_block_append _ _ _ _ _ rfl] at hrun
  exact loop_run rfl rfl ht (run_of_next hrun).1

/-- what every run of a history leaves: the first patches of the series, and no copies but of its patches -/
structure Reached (patch : Patch → Tree → Option Tree) (S : Tree) (P : List Patch) (w : World Tree Patch) : Prop where
  tree : ∃ Q, Q <+: P ∧ w.tree = applyAll patch Q S
  copies : ∀ q, w.copies q = true → q ∈ P

theorem runStep_copies (h : ∀ q, w.copies q = true → q ∈ P) :
    ∀ q, (runStep patch env (f.sh P) w).w.copies q = true → q ∈ P := by
  refine run_inv (exec patch env) (fun w => ∀ q, w.copies q = true → q ∈ P) _ ?_ w h
  intro c hc w hw q hq
  rcases exec_copies hq with hq | rfl
  · exact hw q hq
  · cases f with
    | patch_kernel files =>
      cases files <;> simpa [Script.sh, patch_kernel, patchStep, patchLoop, patchRound, Sh.cmds] using hc
    | patch_u_boot => simpa [Script.sh, patch_u_boot, patchStep, patchLoop, patchRound, Sh.cmds] using hc

omit [DecidableEq Patch] in
/-- the two kinds of state -/
theorem Reached.cases (h : Reached patch S P w) (hs : Series patch S P) :
    w.tree = some S ∨ ∃ p P' T, P = p :: P' ∧ w.tree = some T ∧ patch p T = none ∧ T ≠ S := by
  obtain ⟨Q, hQ, ht⟩ := h.tree
  cases Q with
  | nil => exact Or.inl ht
  | cons p Q =>
    right
    obtain ⟨T, hT⟩ := hs.applies hQ
    obtain ⟨R, rfl⟩ := hQ
    have hp := hs.again _ (List.prefix_append _ _) T hT p (by simp)
    refine ⟨p, Q ++ R, T, rfl, ht.trans hT, hp, ?_⟩
    rintro rfl
    obtain ⟨T', hT', -⟩ := Series.uncons hs
    exact absurd (hp.symm.trans hT') (by simp)

theorem runStep_reached (hs : Series patch S P) (h : Reached patch S P w) :
    Reached patch S P (runStep patch env (f.sh P) w).w := by
  refine ⟨?_, runStep_copies h.copies⟩
  rcases h.cases hs with ht | ⟨p, P', T, rfl, ht, hp, -⟩
  · exact (runStep_source hs ht).1
  · obtain ⟨Q, hQ, hQt⟩ := h.tree
    rw [(runStep_patched ht hp).1, ← ht]
    exact ⟨Q, hQ, hQt⟩

end Runs

/-- **The patch step can be run again exactly where the tree has no patch yet**: for every history of runs, with any answers
of the commands -/
theorem retriable_iff [DecidableEq Patch] (patch : Patch → Tree → Option Tree) (f : Script) (S : Tree) (P : List Patch)
    (hs : Series patch S P) (history : List (Cmd Patch → Resp)) :
    Retriable patch f S P (runs (next patch f P) (source S) history) ↔
      P = [] ∨ (runs (next patch f P) (source S) history).tree = some S := by
  have hreach : Reached patch S P (runs (next patch f P) (source S) history) := by
    refine runs_inv (P := fun _ _ => True) (fun w env hw _ => runStep_reached hs hw) ?_ (each_true _ _)
    exact ⟨⟨[], List.nil_prefix, rfl⟩, fun q hq => by simp [source] at hq⟩
  generalize runs (next patch f P) (source S) history = w at hreach ⊢
  rcases hreach.cases hs with ht | ⟨p, P', T, rfl, ht, hp, hne⟩
  · refine ⟨fun _ => Or.inr ht, fun _ => ⟨fun env h => ?_, fun env h => (runStep_source hs ht).2.2 h⟩⟩
    obtain ⟨htree, hcopies⟩ := (runStep_source hs ht).2.1 h
    refine ⟨htree, fun q => ?_⟩
    by_contra hq
    rw [Bool.not_eq_false] at hq
    exact (hcopies q hq).1 (hreach.copies q (hcopies q hq).2)
  · have hno : ¬ (p :: P' = [] ∨ w.tree = some S) := by
      rintro (h | h)
      · simp at h
      · exact hne (Option.some.inj (ht.symm.trans h))
    refine ⟨fun h => ?_, fun h => absurd h hno⟩
    exact absurd (h.retry (fun _ => .ok) fun _ => rfl) (runStep_patched ht hp).2

/-! ## The four patches of the C1's U-Boot -/

/-- trees that are told apart by their patches: a patch applies where it is missing -/
def numbered (p : ℕ) (T : List ℕ) : Option (List ℕ) := if p ∈ T then none else some (T ++ [p])

def c1Patches : List ℕ := [1, 2, 3, 4]

theorem applyAll_numbered {Q T T' : List ℕ} (h : applyAll numbered Q T = some T') : T' = T ++ Q := by
  induction Q generalizing T with
  | nil => simpa [applyAll] using h.symm
  | cons p Q ih =>
    by_cases hp : p ∈ T
    · simp [applyAll, numbered, hp] at h
    · rw [applyAll_cons (T := T ++ [p]) (by simp [numbered, hp])] at h
      rw [ih h, List.append_assoc]
      rfl

theorem c1Patches_series : Series numbered [] c1Patches := by
  refine ⟨by decide, fun Q _ T hT p hp => ?_⟩
  obtain rfl := applyAll_numbered hT
  simp [numbered, hp]

/-- the first patch cannot be copied -/
def copyFails : Cmd ℕ → Resp
  | .cp 1 => .fail false
  | _ => .ok

/-- a run that has stopped before its first patch can be repeated -/
theorem retry_after_copy :
    Retriable numbered .patch_u_boot [] c1Patches
      (runs (next numbered .patch_u_boot c1Patches) (source []) [copyFails]) := by
  apply (retriable_iff numbered .patch_u_boot [] c1Patches c1Patches_series [copyFails]).2
  right
  decide

/-- **U-Boot is built again**: the first run applies the patches, its compile step fails, and the patch step of the second
fails -/
theorem retry_fails :
    ¬ Retriable numbered .patch_u_boot [] c1Patches
      (runs (next numbered .patch_u_boot c1Patches) (source []) [fun _ => .ok]) := by
  intro h
  exact absurd (h.retry (fun _ => .ok) fun _ => rfl) (by decide)

end AvaotaOS.Patches
