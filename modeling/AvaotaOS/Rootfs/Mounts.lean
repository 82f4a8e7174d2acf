/-
The host's /dev, /proc and /sys in the trees of `scripts/mkrootfs.sh`, over any number of runs in one workspace.

The mounts are set up before the EXIT trap that takes them down, and `UMOUNT_ALL` ignores its failures; a tree that
keeps a mount is removed by the next run, or by this one after the rename.

- `mkrootfs_inv`: a run that meets `LeavesNothing` starts from and ends in a workspace without mounts.
- `rm_never_on_mounts`: in every sequence of such runs no `rm -rf` meets a mount.
- `second_run_removes_host`: a failing `mount` of /proc, and the next run deletes the host's device nodes.
-/
import Mathlib.Tactic
import AvaotaOS.Core.History
import AvaotaOS.Rootfs.MkRootfs

namespace AvaotaOS.MkRootfs

open Shell History

/-! ## Workspaces without mounts -/

/-- no renamed tree holds a mount, and no `rm -rf` has met one -/
structure Aside (w : World) : Prop where
  renamed : ∀ k d, w.renamed k = some d → d.any = false
  rmHost : w.rmHost = false

/-- and the tree at `ROOTFS` holds none either -/
structure NoMounts (w : World) : Prop where
  rootfs : ∀ t, w.rootfs = some t → t.any = false
  aside : Aside w

section Step

variable (p : Params) (env : Cmd → Resp)

theorem onRootfs_noMounts {w : World} {f : Tree → Tree} (hf : ∀ t, t.any = false → (f t).any = false)
    (h : NoMounts w) : NoMounts (w.onRootfs f) := by
  refine ⟨?_, h.aside.renamed, h.aside.rmHost⟩
  intro t ht
  obtain ⟨t', ht', rfl⟩ := Option.map_eq_some_iff.1 ht
  exact hf t' (h.rootfs t' ht')

theorem put_noMounts {w : World} (l : List File) (h : NoMounts w) : NoMounts (w.put l) :=
  onRootfs_noMounts (fun _ ht => ht) h

theorem rmTree_noMounts {w : World} (r : Resp) (h : NoMounts w) : NoMounts (rmTree r w).2 := by
  unfold rmTree
  split
  · exact h
  · rename_i t ht
    rw [if_neg (by simp [h.rootfs t ht])]
    split
    · exact ⟨by simp, h.aside.renamed, h.aside.rmHost⟩
    · split
      · exact onRootfs_noMounts (fun _ ht => ht) h
      · exact h

theorem update_noMounts {w : World} {k : Key} {d : Option Renamed} (hd : ∀ r, d = some r → r.any = false)
    (h : Aside w) : ∀ j r, Function.update w.renamed k d j = some r → r.any = false := by
  intro j r hr
  by_cases hj : j = k
  · subst hj
    rw [Function.update_self] at hr
    exact hd r hr
  · rw [Function.update_of_ne hj] at hr
    exact h.renamed j r hr

theorem rmRenamed_noMounts {w : World} (k : Key) (r : Resp) (h : NoMounts w) : NoMounts (rmRenamed k r w).2 := by
  unfold rmRenamed
  split
  · exact h
  · rename_i d hd
    rw [if_neg (by simp [h.aside.renamed k d hd])]
    split
    · exact ⟨h.rootfs, update_noMounts (by simp) h.aside, h.aside.rmHost⟩
    · exact h

/-- a rename takes the tree as it is -/
theorem mvTree_noMounts {w : World} (k : Key) (h : NoMounts w) : NoMounts (mvTree k w).2 := by
  unfold mvTree
  split
  · exact h
  · rename_i t ht hk
    refine ⟨by simp, update_noMounts (fun r hr => ?_) h.aside, h.aside.rmHost⟩
    obtain rfl := Option.some.inj hr
    simp [Renamed.any, h.rootfs t ht]
  · rename_i t d ht hk
    refine ⟨by simp, update_noMounts (fun r hr => ?_) h.aside, h.aside.rmHost⟩
    obtain rfl := Option.some.inj hr
    have hd := h.aside.renamed k _ hk
    simp only [Renamed.any, Option.any_none, Bool.or_false] at hd
    simp [Renamed.any, h.rootfs t ht, hd]
  · exact h

/-- `tar` only reads the trees -/
theorem tarDir_frame (k : Key) (r : Resp) (w : World) :
    (tarDir k r w).2.rootfs = w.rootfs ∧ (tarDir k r w).2.renamed = w.renamed ∧ (tarDir k r w).2.rmHost = w.rmHost := by
  unfold tarDir
  split
  · exact ⟨rfl, rfl, rfl⟩
  · split <;> exact ⟨rfl, rfl, rfl⟩

/-- **A command that mounts nothing keeps a workspace without mounts** -/
theorem exec_noMounts {c : Cmd} (hc : ∀ h, c ≠ .mount h) {w : World} (h : NoMounts w) : NoMounts (exec p env c w).2 := by
  unfold exec
  split
  · exact rmTree_noMounts _ h
  · exact ⟨by simp [Tree.any], h.aside.renamed, h.aside.rmHost⟩
  · exact absurd rfl (hc _)
  · refine onRootfs_noMounts (fun t ht => ?_) h
    rename_i g _
    cases g <;> simp_all [Tree.any, Tree.set]
  · exact onRootfs_noMounts (fun _ ht => ht) h
  · exact onRootfs_noMounts (fun _ ht => ht) h
  · exact mvTree_noMounts _ h
  · obtain ⟨h1, h2, h3⟩ := tarDir_frame p.key (env .tar) w
    exact ⟨h1 ▸ h.rootfs, h2 ▸ h.aside.renamed, h3 ▸ h.aside.rmHost⟩
  · exact rmRenamed_noMounts _ _ h
  · split
    · exact put_noMounts _ h
    · exact h

/-- **What no rename and no `rm -rf` touches**: with mounts in `ROOTFS`, the rest of the workspace has none -/
theorem exec_aside {c : Cmd} (h1 : c ≠ .rmRootfs) (h2 : c ≠ .mv) (h3 : c ≠ .rmRenamed) {w : World} (h : Aside w) :
    Aside (exec p env c w).2 := by
  unfold exec
  split
  · exact absurd rfl h1
  · exact ⟨h.renamed, h.rmHost⟩
  · exact ⟨h.renamed, h.rmHost⟩
  · exact ⟨h.renamed, h.rmHost⟩
  · exact ⟨h.renamed, h.rmHost⟩
  · exact ⟨h.renamed, h.rmHost⟩
  · exact absurd rfl h2
  · obtain ⟨-, h4, h5⟩ := tarDir_frame p.key (env .tar) w
    exact ⟨h4 ▸ h.renamed, h5 ▸ h.rmHost⟩
  · exact absurd rfl h3
  · split
    · exact ⟨h.renamed, h.rmHost⟩
    · exact h

/-! ## `UMOUNT_ALL` -/

/-- the `umount`s of one call succeed -/
def UmountsOk (q : Pass) : Prop := ∀ h, env (.umount q h) = .ok

theorem onRootfs_id {w : World} {f : Tree → Tree} (hf : ∀ t, w.rootfs = some t → f t = t) : w.onRootfs f = w := by
  obtain ⟨r, d, a, b⟩ := w
  cases r with
  | none => rfl
  | some t => simp [World.onRootfs, hf t rfl]

theorem set_of_not_has {t : Tree} {h : Host} (ht : t.has h = false) : t.set h false = t := by
  obtain ⟨f, a, b, c⟩ := t
  cases h <;> simp_all [Tree.has, Tree.set]

/-- one guarded `umount` that succeeds -/
theorem umountHost_spec {q : Pass} (h : Host) (hp : p.canonical = true) (hu : UmountsOk env q) (s : St Cmd World)
    (hr : s.out = .run) (he : s.e = false) :
    (eval (exec p env) false (umountHost p q h) s).out = .run ∧ (eval (exec p env) false (umountHost p q h) s).e = false ∧
      (eval (exec p env) false (umountHost p q h) s).w = s.w.onRootfs (·.set h false) := by
  have hx : exec p env (.umount q h) s.w = (.ok, s.w.onRootfs (·.set h false)) := by simp [exec, hu h]
  obtain ⟨h1, h2, h3⟩ := eval_cond_loose (exec p env) (fun w => p.canonical && w.rootfs.any (·.has h)) (.umount q h) s he hr
  rw [umountHost, h1, h3, hx]
  refine ⟨by simp, h2, ?_⟩
  rw [hp, Bool.true_and]
  split_ifs with hh
  · rfl
  · symm
    apply onRootfs_id
    intro t ht
    rw [ht] at hh
    exact set_of_not_has (by simpa using hh)

/-- **A call whose `umount`s succeed leaves no mount in `ROOTFS`** -/
theorem umountAll_noMounts {q : Pass} (hp : p.canonical = true) (hu : UmountsOk env q) (s : St Cmd World) (hr : s.out = .run)
    (h : Aside s.w) :
    (eval (exec p env) false (UMOUNT_ALL p q) s).out = .run ∧ NoMounts (eval (exec p env) false (UMOUNT_ALL p q) s).w := by
  have hs : (eval (exec p env) false (.errexit false) s).out = .run := hr
  obtain ⟨r1, e1, w1⟩ := umountHost_spec p env .dev hp hu (eval (exec p env) false (.errexit false) s) hr rfl
  obtain ⟨r2, e2, w2⟩ := umountHost_spec p env .proc hp hu _ r1 e1
  obtain ⟨r3, e3, w3⟩ := umountHost_spec p env .sys hp hu _ r2 e2
  have hall : eval (exec p env) false (umounts p q) (eval (exec p env) false (.errexit false) s) = _ :=
    (eval_seq_eq _ _ _ _ _ r1).trans (eval_seq_eq _ _ _ _ _ r2)
  have hrun : (eval (exec p env) false (umounts p q) (eval (exec p env) false (.errexit false) s)).out = .run := by
    rw [hall]
    exact r3
  have hend : eval (exec p env) false (UMOUNT_ALL p q) s =
      { eval (exec p env) false (umounts p q) (eval (exec p env) false (.errexit false) s) with e := true, ok := true } := by
    rw [UMOUNT_ALL, seqs, eval_seq_eq _ _ _ _ s hs, seqs, eval_seq_eq _ _ _ _ _ hrun]
    exact eval_seq_eq (exec p env) false (.errexit true) .nop _ hrun
  rw [hend]
  refine ⟨hrun, ?_⟩
  show NoMounts (eval (exec p env) false (umounts p q) (eval (exec p env) false (.errexit false) s)).w
  rw [hall, w3, w2, w1]
  refine ⟨fun t ht => ?_, ⟨h.renamed, h.rmHost⟩⟩
  simp only [World.onRootfs, Option.map_map, Option.map_eq_some_iff] at ht
  obtain ⟨t', -, rfl⟩ := ht
  simp [Tree.any, Tree.set]

/-! ## One run -/

/-- the run gets to its first mount, and the mount succeeds -/
structure Reaches (w : World) : Prop where
  sources : ∀ c ∈ sources p, env c = .ok
  rmRootfs : w.rootfs.isSome → env .rmRootfs = .ok
  debootstrap : ∀ c ∈ debootstrap p, env c = .ok
  mount : env (.mount .dev) = .ok

/-- **A run that leaves nothing mounted**: once /dev is mounted `UMOUNT_ALL` can see it, the rest of `setup_mount_resolv`
succeeds, the setup is not killed, and the `umount`s of the `UMOUNT_ALL` that follows succeed -/
def LeavesNothing (w : World) : Prop :=
  Reaches p env w → p.canonical = true ∧ (∀ c ∈ [Cmd.mount .proc, .mount .sys, .cpResolv], env c = .ok) ∧
    match outcome (fun c => (env c).stat) (setup p) with
    | .run => UmountsOk env .main
    | .exit _ => UmountsOk env .trap
    | .killed => False

theorem mem_prepare {c : Cmd} (hc : c ∈ (prepare p).cmds) : ∀ h, c ≠ .mount h := by
  rintro h rfl
  simp only [prepare, sources, debootstrap, prepare_apt_list, Sh.cmds, cmds_block, List.nil_append, List.mem_append] at hc
  split at hc <;> simp at hc

theorem put_nil (w : World) : w.put [] = w :=
  onRootfs_id fun t _ => by simp

/-- the first lines of the script change nothing -/
theorem sources_exec {c : Cmd} (hc : c ∈ sources p) (w : World) : exec p env c w = ((env c).stat, w) := by
  have hx : ∀ c, puts p c = [] → exec p env c w = ((env c).stat, if env c = .ok ∨ (env c).part then w.put (puts p c) else w) →
      exec p env c w = ((env c).stat, w) := by
    intro c hp he
    rw [he, hp, put_nil, ite_self]
  simp only [sources, List.mem_append] at hc
  rcases hc with hc | hc
  · simp only [List.mem_cons, List.not_mem_nil, or_false] at hc
    rcases hc with rfl | rfl | rfl | rfl | rfl <;> exact hx _ rfl rfl
  · split at hc <;> simp at hc
    subst hc
    exact hx _ rfl rfl

theorem debootstrap_stat {c : Cmd} (hc : c ∈ debootstrap p) (w : World) : (exec p env c w).1 = (env c).stat := by
  simp only [debootstrap, prepare_apt_list, List.mem_append, List.mem_map, List.mem_cons, List.not_mem_nil, or_false] at hc
  rcases hc with (rfl | rfl) | ⟨i, -, rfl⟩
  · cases h : env .mkdirRootfs <;> simp [exec, h, Resp.stat]
  · rfl
  · rfl

theorem rmTree_ok {r : Resp} {w : World} {t : Tree} (ht : w.rootfs = some t) (hok : (rmTree r w).1 = .ok) : r = .ok := by
  unfold rmTree at hok
  rw [ht] at hok
  simp only at hok
  split at hok
  · split at hok <;> simp at hok
  · split at hok
    · rfl
    · exact Resp.stat_ok.1 hok

/-- what a run has done when it gets to its mounts -/
theorem prepare_run {w : World} (h : (eval (exec p env) false (prepare p) (start Cmd w)).out = .run) :
    (eval (exec p env) false (prepare p) (start Cmd w)).e = true ∧ (∀ c ∈ sources p, env c = .ok) ∧
      (w.rootfs.isSome → env .rmRootfs = .ok) ∧ ∀ c ∈ debootstrap p, env c = .ok := by
  have h0 : (eval (exec p env) false (.errexit true) (start Cmd w)).out = .run := rfl
  rw [prepare, eval_seq_eq _ _ _ _ _ h0] at h ⊢
  obtain ⟨h1, h23⟩ := (eval_seq_run _ _ _ _ _).1 h
  rw [eval_seq_eq _ _ _ _ _ h1]
  have hs := (eval_block_strict (fun c hc w => by rw [sources_exec p env hc]) _ rfl h0).1 h1
  obtain ⟨w1, e1, -⟩ := eval_block_run _ _ _ _ h1
  have hw : (eval (exec p env) false (block (sources p))
      (eval (exec p env) false (.errexit true) (start Cmd w))).w = w := by
    rw [w1]
    exact effect_inv (I := fun w' => w' = w) (fun c hc w' hw => by rw [sources_exec p env hc]; exact hw) rfl
  generalize eval (exec p env) false (block (sources p)) (eval (exec p env) false (.errexit true) (start Cmd w)) = a at *
  obtain ⟨h2, h3⟩ := (eval_seq_run _ _ _ _ _).1 h23
  obtain ⟨r2, e2, -⟩ := eval_cond_strict (exec p env) (·.rootfs.isSome) .rmRootfs a e1 h1
  rw [eval_seq_eq _ _ _ _ _ h2]
  have hr := r2.1 h2
  rw [hw] at hr
  obtain ⟨-, e3, -⟩ := eval_block_run _ _ _ _ h3
  have hd := (eval_block_strict (fun c hc w => debootstrap_stat p env hc w) _ e2 h2).1 h3
  refine ⟨e3.trans e2, fun c hc => Resp.stat_ok.1 (hs c hc), fun hi => ?_, fun c hc => Resp.stat_ok.1 (hd c hc)⟩
  obtain ⟨t, ht⟩ := Option.isSome_iff_exists.1 hi
  exact rmTree_ok ht (hr hi)

theorem setup_aside {s : St Cmd World} (h : Aside s.w) : Aside (eval (exec p env) false (block (setup p)) s).w := by
  refine eval_inv (exec p env) Aside false _ (fun c hc w hw => ?_) s h
  have hi := setup_inside (by simpa using hc)
  apply exec_aside p env _ _ _ hw <;> rintro rfl <;> simp [Cmd.inside] at hi

theorem setup_out {s : St Cmd World} (hr : s.out = .run) (he : s.e = true) :
    (eval (exec p env) false (block (setup p)) s).out = outcome (fun c => (env c).stat) (setup p) :=
  eval_block_outcome (fun _ hc w => inside_stat p env (setup_inside hc) w) s he hr

theorem archive_noMounts {s : St Cmd World} (h : NoMounts s.w) : NoMounts (eval (exec p env) false (block archive) s).w := by
  refine eval_inv (exec p env) NoMounts false _ (fun c hc w hw => exec_noMounts p env ?_ hw) s h
  rintro g rfl
  simp [archive] at hc

theorem trap_noMounts {s : St Cmd World} (q : Pass) (h : NoMounts s.w) :
    NoMounts (eval (exec p env) false (UMOUNT_ALL p q) s).w := by
  refine eval_inv (exec p env) NoMounts false _ (fun c hc w hw => exec_noMounts p env ?_ hw) s h
  rintro g rfl
  simp [UMOUNT_ALL, umounts, umountHost, Sh.cmds] at hc

/-- the part under the trap, in a run that takes its mounts down -/
theorem trapped_noMounts {s : St Cmd World} (hp : p.canonical = true) (hr : s.out = .run) (he : s.e = true) (h : Aside s.w)
    (hu : match outcome (fun c => (env c).stat) (setup p) with
      | .run => UmountsOk env .main
      | .exit _ => UmountsOk env .trap
      | .killed => False) :
    NoMounts (eval (exec p env) false (.onExit (UMOUNT_ALL p .trap) (trapped p)) s).w := by
  have ho := setup_out p env hr he
  have hw := setup_aside p env h
  rw [eval, trapped]
  rcases outcome_cases (fun c => (env c).stat) (setup p) with hc | hc | hc <;> rw [hc] at hu ho
  · -- the setup comes through: `UMOUNT_ALL`, the archive, and the trap once more
    rw [eval_seq_eq _ _ _ _ _ ho]
    obtain ⟨h1, h2⟩ := umountAll_noMounts p env hp hu _ ho hw
    rw [eval_seq_eq _ _ _ _ _ h1]
    have h3 := archive_noMounts p env h2
    exact trap_w h3 fun _ => trap_noMounts p env .trap h3
  · -- it fails: `UMOUNT_ALL` from the trap
    rw [eval_seq_stop _ _ _ _ _ (by simp [ho])]
    obtain ⟨h1, h2⟩ := umountAll_noMounts p env hp hu { eval (exec p env) false (block (setup p)) s with out := .run } rfl hw
    rw [trap_run (by simp [ho]) h1]
    exact h2
  · exact hu.elim

theorem mount_stat {c : Cmd} (hc : c ∈ setup_mount_resolv) (w : World) : (exec p env c w).1 = (env c).stat := by
  simp only [setup_mount_resolv, List.mem_cons, List.not_mem_nil, or_false] at hc
  rcases hc with rfl | rfl | rfl | rfl
  · cases h : env (.mount .dev) <;> simp [exec, h, Resp.stat]
  · cases h : env (.mount .proc) <;> simp [exec, h, Resp.stat]
  · cases h : env (.mount .sys) <;> simp [exec, h, Resp.stat]
  · rfl

/-- where the first mount fails nothing is mounted -/
theorem mount_fails {s : St Cmd World} (he : s.e = true) (hm : env (.mount .dev) ≠ .ok) (h : NoMounts s.w) :
    (eval (exec p env) false (block setup_mount_resolv) s).out ≠ .run ∧
      NoMounts (eval (exec p env) false (block setup_mount_resolv) s).w := by
  have hx : (exec p env (.mount .dev) s.w).1 ≠ .ok ∧ NoMounts (exec p env (.mount .dev) s.w).2 := by
    cases hr : env (.mount .dev) with
    | ok => exact absurd hr hm
    | fail b | kill b => cases b <;> simp [exec, hr, Resp.stat, Resp.part, puts, put_nil, h]
  have hs : (simple (exec p env) false (.mount .dev) s).out ≠ .run := fun hs => hx.1 (simple_strict he hs)
  rw [setup_mount_resolv, eval_block_cons, next_stop hs, simple_w]
  exact ⟨hs, hx.2⟩

/-- **One run keeps a workspace without mounts** -/
theorem mkrootfs_inv {w : World} (h : NoMounts w) (hl : LeavesNothing p env w) : NoMounts (mkrootfs p env w).w := by
  have hprep : NoMounts (eval (exec p env) false (prepare p) (start Cmd w)).w :=
    eval_inv (exec p env) NoMounts false (prepare p) (fun c hc w hw => exec_noMounts p env (mem_prepare p hc) hw) _ h
  have hrun := prepare_run p env (w := w)
  rw [mkrootfs, run, script]
  by_cases h1 : (eval (exec p env) false (prepare p) (start Cmd w)).out = .run
  · obtain ⟨he, h2, h3, h4⟩ := hrun h1
    rw [eval_seq_eq _ _ _ _ _ h1]
    generalize eval (exec p env) false (prepare p) (start Cmd w) = a at *
    by_cases hm : env (.mount .dev) = .ok
    · obtain ⟨hp, hmounts, hu⟩ := hl ⟨h2, h3, h4, hm⟩
      have hok : ∀ c ∈ setup_mount_resolv, (env c).stat = .ok := by
        intro c hc
        rcases List.mem_cons.1 hc with rfl | hc
        · exact Resp.stat_ok.2 hm
        · exact Resp.stat_ok.2 (hmounts c hc)
      have hb := (eval_block_strict (fun c hc w => mount_stat p env hc w) a he h1).2 hok
      obtain ⟨-, eb, -⟩ := eval_block_run _ _ _ _ hb
      have hw : Aside (eval (exec p env) false (block setup_mount_resolv) a).w := by
        refine eval_inv (exec p env) Aside false _ (fun c hc w hw => ?_) a hprep.aside
        rw [cmds_block] at hc
        apply exec_aside p env _ _ _ hw <;> rintro rfl <;> simp [setup_mount_resolv] at hc
      rw [eval_seq_eq _ _ _ _ _ hb]
      exact trapped_noMounts p env hp hb (eb.trans he) hw hu
    · obtain ⟨h5, h6⟩ := mount_fails p env he hm hprep
      rw [eval_seq_stop _ _ _ _ _ h5]
      exact h6
  · rw [eval_seq_stop _ _ _ _ _ h1]
    exact hprep

end Step

/-! ## All runs -/

/-- a call of the script, and what the environment does to it -/
structure Call where
  params : Params
  env : Cmd → Resp

/-- the workspace after one more call -/
def step (w : World) (r : Call) : World := (mkrootfs r.params r.env w).w

/-- a workspace in which the script has not run yet -/
def fresh : World := ⟨none, fun _ => none, fun _ => none, false⟩

theorem fresh_noMounts : NoMounts fresh := ⟨by simp [fresh], ⟨by simp [fresh], rfl⟩⟩

/-- **No sequence of runs that leave nothing mounted removes a mounted tree** -/
theorem rm_never_on_mounts (l : List Call) (hl : Each step (fun w r => LeavesNothing r.params r.env w) fresh l) :
    (runs step fresh l).rmHost = false := by
  have h : NoMounts (runs step fresh l) :=
    runs_inv (fun _ (r : Call) hw hr => mkrootfs_inv r.params r.env hw hr) fresh_noMounts hl
  exact h.aside.rmHost

/-- the A1 on jammy -/
def a1 : Params := ⟨.avaotaA1, .jammy, .cli, true, true⟩

/-- a build of the A1, then one for the C1: every command succeeds -/
theorem rm_never_on_mounts_two :
    (runs step fresh [⟨a1, fun _ => .ok⟩, ⟨{ a1 with board := .avaotaC1 }, fun _ => .ok⟩]).rmHost = false := by
  apply rm_never_on_mounts
  have hall : ∀ p w, p.canonical = true → LeavesNothing p (fun _ => .ok) w := by
    intro p w hp _
    have ho : outcome (fun c => ((fun _ => .ok : Cmd → Resp) c).stat) (setup p) = .run :=
      outcome_run.2 fun _ _ => rfl
    refine ⟨hp, fun _ _ => rfl, ?_⟩
    rw [ho]
    exact fun _ => rfl
  exact ⟨hall _ _ rfl, hall _ _ rfl, trivial⟩

/-- /proc cannot be mounted -/
def noProc (c : Cmd) : Resp := if c = .mount .proc then .fail false else .ok

/-- **A run that stops between its mounts leaves /dev mounted, and the next one deletes it** -/
theorem second_run_removes_host : (runs step fresh [⟨a1, noProc⟩, ⟨a1, fun _ => .ok⟩]).rmHost = true := by
  decide

/-- a path with a slash at its end: a run in which nothing fails deletes the host's directories itself -/
example : (step fresh ⟨{ a1 with canonical := false }, fun _ => .ok⟩).rmHost = true := by decide

end AvaotaOS.MkRootfs
