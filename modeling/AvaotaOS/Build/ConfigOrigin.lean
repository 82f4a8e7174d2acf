/-
Where the configuration of a built kernel comes from, over any sequence of runs of `build_all.sh` and `mklinux.sh`.

`compile_linux` takes `${workspace}/user_defconfig` wherever the file exists, and menuconfig writes it; neither the file
nor the marker `.done` says for which board and target it was saved.

- `compiled_iff`: one run of `mklinux.sh` compiles a configuration of its own selection exactly where it is stopped or
  the saved configuration is one for this selection.
- `truthful_iff`: the same for every sequence of runs.
- `saved_for_other_board`: menuconfig for the A1, and the kernel of the C1 is built with its configuration.
-/
import Mathlib.Tactic
import AvaotaOS.Build.KernelCache

namespace AvaotaOS.BuildAll

open Shell History

/-! ## Configurations -/

/-- generated by the defconfig of the selection, or edited from such a one in runs for the selection -/
def own (s : Selection) : MkLinux.Config → Bool
  | .defconfig t => t = s
  | .edited t c => t = s && own s c
  | .cut _ => false

/-- a run that has come to its end has compiled a configuration of its selection -/
def Compiled (c : MkLinux.Completed) : Prop := ∃ conf, c.config = some conf ∧ own c.sel conf = true

/-- **The markers are truthful**: every run that has come to its end has compiled a configuration of its own board and
target, and a `.done` names a selection that such a run was for -/
structure Truthful (k : MkLinux.World) : Prop where
  compiled : ∀ c ∈ k.completed, Compiled c
  marker : ∀ s, MkLinux.cached s k = true → ∃ c ∈ k.completed, c.sel = s ∧ Compiled c

/-- the saved configuration, if there is one, is one for this selection -/
def OwnConfig (s : Selection) (k : MkLinux.World) : Prop := ∀ c, k.userDefconfig = some c → own s c = true

/-- a marker names the selection of a run that has come to its end -/
def Marked (k : MkLinux.World) : Prop := ∀ s, MkLinux.cached s k = true → ∃ c ∈ k.completed, c.sel = s

theorem truthful_of_compiled {k : MkLinux.World} (hm : Marked k) : Truthful k ↔ ∀ c ∈ k.completed, Compiled c := by
  constructor
  · intro h
    exact h.compiled
  · intro h
    refine ⟨h, fun s hs => ?_⟩
    obtain ⟨c, hc, rfl⟩ := hm s hs
    exact ⟨c, hc, rfl, h c hc⟩

/-! ## One run of `mklinux.sh` -/

section Step

variable (p : MkLinux.Params) (e : MkLinux.Cmd → Resp) (k : MkLinux.World)

/-- menuconfig in the run itself does not change whose configuration it is -/
theorem own_compiledConfig : own p.sel (MkLinux.compiledConfig p k) = true ↔ OwnConfig p.sel k := by
  have hbase : own p.sel (MkLinux.baseConfig p k) = true ↔ OwnConfig p.sel k := by
    cases hu : k.userDefconfig <;> simp [MkLinux.baseConfig, OwnConfig, hu, own]
  rw [← hbase, MkLinux.compiledConfig]
  split_ifs <;> simp [own]

/-- **One run compiles a configuration of its own selection exactly where it is stopped before `.done`, or starts with no
saved configuration or one for its selection** -/
theorem compiled_iff :
    (∀ c ∈ (MkLinux.mklinux p e k).w.completed, Compiled c) ↔
      (∀ c ∈ k.completed, Compiled c) ∧ (¬ MkLinux.Stopped p e k → OwnConfig p.sel k) := by
  by_cases hs : MkLinux.Stopped p e k
  · have hd : ¬ MkLinux.Done p e k := fun hd => (MkLinux.done_iff p e k).1 hd hs
    rw [MkLinux.completed_of_not_done p e k hd]
    simp [hs]
  · have hd := (MkLinux.done_iff p e k).2 hs
    rw [MkLinux.done_w p e k hd]
    simp only [List.mem_append, List.mem_singleton, or_imp, forall_and, forall_eq]
    have hc : Compiled ⟨p.id, p.sel, some (MkLinux.compiledConfig p k)⟩ ↔ OwnConfig p.sel k := by
      rw [← own_compiledConfig p k]
      simp [Compiled]
    rw [hc]
    simp [hs]

theorem mklinux_marked (h : Marked k) : Marked (MkLinux.mklinux p e k).w := by
  intro s hs
  by_cases hd : MkLinux.Done p e k
  · have hp := MkLinux.cached_of_done p e k hd
    rw [MkLinux.cached_iff] at hs hp
    by_cases hb : s.board = p.sel.board
    · rw [hb, hp] at hs
      refine ⟨⟨p.id, p.sel, some (MkLinux.compiledConfig p k)⟩, ?_, ?_⟩
      · rw [MkLinux.done_w p e k hd]
        simp
      · exact Selection.ext_config hb.symm (Option.some.inj hs)
    · -- another board's directory is as it was
      have ho : (MkLinux.mklinux p e k).w.out s.board = k.out s.board :=
        run_inv (MkLinux.exec p e) (fun k' => k'.out s.board = k.out s.board) _
          (fun _ _ k' h => (MkLinux.exec_out_other p e k' hb).trans h) k rfl
      rw [ho] at hs
      obtain ⟨c, hc, hcs⟩ := h s (MkLinux.cached_iff.2 hs)
      refine ⟨c, ?_, hcs⟩
      rw [MkLinux.done_w p e k hd]
      exact List.mem_append_left _ hc
  · rw [MkLinux.completed_of_not_done p e k hd]
    exact h s (MkLinux.guard_of_not_done p e k hd s hs)

end Step

/-! ## Runs of both scripts -/

/-- a call of `build_all.sh`, or of `mklinux.sh` by itself -/
inductive Job where
  | build (r : Request) (env : Env)
  | linux (p : MkLinux.Params) (e : MkLinux.Cmd → Resp)

/-- the call of `mklinux.sh`, numbered within the workspace -/
def numbered (p : MkLinux.Params) (w : Workspace) : MkLinux.Params := { p with id := w.calls }

def Job.step (w : Workspace) : Job → Workspace
  | .build r env => (build_all r env w).w
  | .linux p e => { w with kernel := (MkLinux.mklinux (numbered p w) e w.kernel).w, calls := w.calls + 1 }

/-- the condition on a job: if it calls `mklinux.sh` and that call gets to `.done`, then a configuration that lies in the
workspace is one for its selection -/
def UsesOwn (w : Workspace) : Job → Prop
  | .build r env =>
    CallsMklinux r env w →
      ¬ MkLinux.Stopped (r.linuxParams (afterFront r w)) env.linux (afterFront r w).kernel → OwnConfig r.sel w.kernel
  | .linux p e => ¬ MkLinux.Stopped (numbered p w) e w.kernel → OwnConfig p.sel w.kernel

/-- **What a run of `build_all.sh` does to the kernel side**: it calls `mklinux.sh` after its front, or leaves packages,
markers and configuration as they are -/
theorem build_all_linux (r : Request) (env : Env) (w : Workspace) :
    ¬ (CallsMklinux r env w ∧ LinuxDone r env w) ∧ SameTree w.kernel (build_all r env w).w.kernel ∨
      CallsMklinux r env w ∧ (build_all r env w).w.kernel =
        (MkLinux.mklinux (r.linuxParams (afterFront r w)) env.linux (afterFront r w).kernel).w := by
  rcases build_all_kernel r env w with ⟨hr, hk⟩ | ⟨hr, hb | ⟨hc, hw⟩⟩
  · rw [hk.kernel, afterKernel]
    split_ifs with hc
    · refine Or.inl ⟨fun h => ?_, (afterFront_beside r w).kernel⟩
      exact absurd (hc.symm.trans h.1.uncached) (by simp)
    · have hc : MkLinux.cached r.sel w.kernel = false := by simpa using hc
      exact Or.inr ⟨⟨hr.front, hc, (hr.kernel hc).1⟩, rfl⟩
  · refine Or.inl ⟨fun h => hr ⟨h.1.front, fun _ => ⟨h.1.start, h.2⟩⟩, hb.kernel⟩
  · rw [hw]
    exact Or.inr ⟨hc, rfl⟩

/-- **One job** -/
theorem job_iff (w : Workspace) (j : Job) :
    (∀ c ∈ (Job.step w j).kernel.completed, Compiled c) ↔ (∀ c ∈ w.kernel.completed, Compiled c) ∧ UsesOwn w j := by
  cases j with
  | linux p e => exact compiled_iff (numbered p w) e w.kernel
  | build r env =>
    have hf := (afterFront_beside r w).kernel
    rcases build_all_linux r env w with ⟨hn, hk⟩ | ⟨hc, hk⟩
    · have hu : UsesOwn w (.build r env) := fun h1 h2 => absurd ⟨h1, (MkLinux.done_iff _ _ _).2 h2⟩ hn
      rw [Job.step, hk.completed]
      exact (and_iff_left hu).symm
    · have hown : OwnConfig r.sel (afterFront r w).kernel ↔ OwnConfig r.sel w.kernel := by
        rw [OwnConfig, hf.userDefconfig]
        rfl
      rw [Job.step, hk, compiled_iff, hf.completed]
      refine and_congr_right fun _ => ?_
      show (_ → OwnConfig r.sel (afterFront r w).kernel) ↔ _
      rw [hown]
      exact ⟨fun h _ => h, fun h => h hc⟩

theorem job_marked {w : Workspace} (j : Job) (h : Marked w.kernel) : Marked (Job.step w j).kernel := by
  cases j with
  | linux p e => exact mklinux_marked _ _ _ h
  | build r env =>
    have hcongr : ∀ {k : MkLinux.World}, SameTree w.kernel k → Marked k := fun {k} hk s hs => by
      rw [cached_congr hk.out] at hs
      rw [hk.completed]
      exact h s hs
    rcases build_all_linux r env w with ⟨-, hk⟩ | ⟨-, hk⟩
    · exact hcongr hk
    · rw [Job.step, hk]
      exact mklinux_marked _ _ _ (hcongr (afterFront_beside r w).kernel)

/-- **In a sequence of runs the markers are truthful exactly when no run that gets to `.done` finds a configuration that
was saved for another board or target** -/
theorem truthful_iff (l : List Job) : Truthful (runs Job.step fresh l).kernel ↔ Each Job.step UsesOwn fresh l := by
  have hm : Marked (runs Job.step fresh l).kernel := by
    refine runs_inv (P := fun _ _ => True) (I := fun w : Workspace => Marked w.kernel) (fun _ j h _ => job_marked j h) ?_ ?_
    · intro s hs
      simp [MkLinux.cached, fresh] at hs
    · exact each_true _ _
  rw [truthful_of_compiled hm,
    runs_iff (I := fun w : Workspace => ∀ c ∈ w.kernel.completed, Compiled c) job_iff fresh l]
  exact and_iff_right (by simp [fresh])

/-! ## A configuration saved for another board -/

def a1 : Selection := ⟨.avaotaA1, "bsp", ⟨"sun55i_t527_bsp_defconfig", "none"⟩, Board.linuxConf_a1_bsp⟩

/-- the A1 with menuconfig -/
def menuconfigRequest : Request :=
  { request a1 with linux := { (request a1).linux with menuconfig := true } }

/-- **The kernel of the C1 is built with the configuration edited for the A1**: every command of both runs succeeds, and
`.done` names the defconfig of the C1 -/
theorem saved_for_other_board :
    ¬ Truthful (runs Job.step fresh
      [.build menuconfigRequest works, .build { request bsp with reclone := true } works]).kernel := by
  intro h
  have hlast : (runs Job.step fresh
      [.build menuconfigRequest works, .build { request bsp with reclone := true } works]).kernel.completed.getLast? =
        some ⟨1, bsp, some (.edited a1 (.defconfig a1))⟩ := by decide
  obtain ⟨c, hc, ho⟩ := h.compiled _ (List.mem_of_getLast? hlast)
  simp only [Option.some.injEq] at hc
  subst hc
  exact absurd ho (by decide)

end AvaotaOS.BuildAll
