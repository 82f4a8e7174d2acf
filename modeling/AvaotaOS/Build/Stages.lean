/-
The stages of one call of `build_all.sh`, each by what it needs and what it leaves.

- `front_spec`: everything before the kernel gets through iff its commands succeed, and leaves the packages, the
  archives and the images alone.
- `atRootfs_spec`, `rootfsStage_built`, `imageStage_spec`: the three stages that can call a script of their own.
- `build_all_kernel`: what a run does to the kernel packages, wherever it stops.
-/
import Mathlib.Tactic
import AvaotaOS.Build.BuildAll
import AvaotaOS.Kernel.DoneMarker

namespace AvaotaOS.BuildAll

open Shell

variable (r : Request) (env : Env)

/-! ## Before the kernel -/

/-- what a new source tree does not touch -/
structure SameTree (k k' : MkLinux.World) : Prop where
  out : k'.out = k.out
  userDefconfig : k'.userDefconfig = k.userDefconfig
  debData : k'.debData = k.debData
  completed : k'.completed = k.completed

theorem fetched_same (reclone : Bool) (k : MkLinux.World) : SameTree k (fetched reclone k) := by
  unfold fetched
  split <;> exact ⟨rfl, rfl, rfl, rfl⟩

theorem unfetched_same (reclone : Bool) (k : MkLinux.World) : SameTree k (unfetched reclone k) := by
  unfold unfetched
  split <;> exact ⟨rfl, rfl, rfl, rfl⟩

theorem SameTree.refl (k : MkLinux.World) : SameTree k k := ⟨rfl, rfl, rfl, rfl⟩

theorem SameTree.trans {k k' k'' : MkLinux.World} (h : SameTree k k') (h' : SameTree k' k'') : SameTree k k'' :=
  ⟨h'.out.trans h.out, h'.userDefconfig.trans h.userDefconfig, h'.debData.trans h.debData,
    h'.completed.trans h.completed⟩

/-- what the stages before the kernel do not touch -/
structure Beside (v w : Workspace) : Prop where
  kernel : SameTree v.kernel w.kernel
  rootfs : w.rootfs = v.rootfs
  img : w.img = v.img
  releases : w.releases = v.releases
  calls : w.calls = v.calls
  packings : w.packings = v.packings

theorem Beside.refl (w : Workspace) : Beside w w := ⟨SameTree.refl _, rfl, rfl, rfl, rfl, rfl⟩

/-- the commands before the kernel -/
def Cmd.early : Cmd → Bool
  | .aptGetInstall | .aptInstall | .sourceConf _ | .mkdirBuildDir | .cdBuildDir | .cdWorkspace | .sourceBoard => true
  | .fetch | .mkbootloader => true
  | _ => false

theorem Beside.tree {v w : Workspace} (h : Beside v w) {k : MkLinux.World} (hk : SameTree w.kernel k) :
    Beside v { w with kernel := k } :=
  ⟨h.kernel.trans hk, h.rootfs, h.img, h.releases, h.calls, h.packings⟩

theorem early_beside {c : Cmd} (hc : c.early = true) {v w : Workspace} (h : Beside v w) :
    Beside v (exec r env c w).2 := by
  unfold exec
  split
  · exact ⟨h.kernel, h.rootfs, h.img, h.releases, h.calls, h.packings⟩
  · exact h.tree (fetched_same _ _)
  · split
    · exact h.tree (unfetched_same _ _)
    · exact h
  · exact ⟨h.kernel, h.rootfs, h.img, h.releases, h.calls, h.packings⟩
  · simp [Cmd.early] at hc
  · simp [Cmd.early] at hc
  · simp [Cmd.early] at hc
  · simp [Cmd.early] at hc
  · simp [Cmd.early] at hc
  · exact h

theorem early_stat {c : Cmd} (hc : c.early = true) (w : Workspace) : (exec r env c w).1 = (env.top c).stat := by
  cases c <;> first
    | (simp [Cmd.early] at hc; done)
    | rfl
    | skip
  case fetch => cases he : env.top .fetch <;> simp [exec, he, Resp.stat]
  case mkbootloader => cases he : env.top .mkbootloader <;> simp [exec, he, Resp.stat]
  case mkdirBuildDir => cases he : env.top .mkdirBuildDir <;> simp [exec, he, Resp.stat]

theorem front_early {c : Cmd} (hc : c ∈ (front r).cmds) : c.early = true := by
  unfold front prepare bootloaderStage at hc
  split at hc <;> simp [Sh.cmds] at hc <;> rcases hc with rfl | rfl | rfl | rfl | rfl | rfl | rfl | rfl | rfl | rfl <;> rfl

/-- the commands before the kernel, in order -/
def frontPath (w : Workspace) : List Cmd :=
  [.aptGetInstall, .aptInstall, .sourceConf 0, .sourceConf 1] ++ ((if w.buildDir then [] else [.mkdirBuildDir]) ++
    ([.cdBuildDir, .cdWorkspace, .sourceBoard] ++ ((if r.useLocal then [] else [.fetch]) ++
      (if w.bootloader r.board then [] else [.mkbootloader]))))

/-- what they leave for the kernel -/
def afterFront (w : Workspace) : Workspace :=
  { w with
    buildDir := true
    kernel := if r.useLocal then w.kernel else fetched r.reclone w.kernel
    bootloader := Function.update w.bootloader r.board true }

theorem afterFront_beside (w : Workspace) : Beside w (afterFront r w) := by
  unfold afterFront
  split
  · exact ⟨SameTree.refl _, rfl, rfl, rfl, rfl, rfl⟩
  · exact ⟨fetched_same _ _, rfl, rfl, rfl, rfl, rfl⟩

/-- the status of a command before the kernel -/
abbrev status (c : Cmd) : Stat := (env.top c).stat

/-- every command before the kernel runs under errexit -/
abbrev Runs (v v' : Workspace) (e : Bool) (a : Sh Cmd Workspace) (l : List Cmd) : Prop :=
  Covers (exec r env) (status env) (fun _ => true) (· = v) (· = v') e true a l

theorem passed_ok {c : Cmd} (h : Passed (status env) (fun _ => true) c) : env.top c = .ok := by
  rcases h with h | ⟨-, h⟩
  · exact Resp.stat_ok.1 h
  · simp at h

/-- commands that change nothing the model knows of -/
theorem runs_idle {l : List Cmd} (hl : ∀ c ∈ l, c.early = true ∧ ∀ w, (exec r env c w).2 = w) (v : Workspace) :
    Runs r env v v true (block l) l := by
  refine Covers.block (fun c hc w => early_stat r env (hl c hc).1 w) (fun _ _ => rfl) fun _ w hw => ?_
  exact effect_inv (I := (· = v)) (fun c hc w hw => ((hl c hc).2 w).trans hw) hw

/-- a command that is needed where a test fails -/
theorem runs_unless {b : Workspace → Bool} {c : Cmd} (hc : c.early = true) {v v' : Workspace} (h0 : b v = true → v' = v)
    (h1 : env.top c = .ok → (exec r env c v).2 = v') :
    Runs r env v v' true (.cond b .tt (.cmd c)) (if b v then [] else [c]) := by
  refine Covers.cond (b v) (fun w hw => by rw [hw]) ?_
  cases hb : b v with
  | true =>
    rw [h0 hb]
    exact Covers.tt
  | false =>
    refine Covers.cmd (fun w => early_stat r env hc w) rfl fun hp w hw => ?_
    subst hw
    exact h1 (passed_ok env hp)

theorem runs_fetch (v : Workspace) :
    Runs r env v { v with kernel := if r.useLocal then v.kernel else fetched r.reclone v.kernel } true
      (if r.useLocal then .tt else .cmd .fetch) (if r.useLocal then [] else [.fetch]) := by
  cases hu : r.useLocal with
  | true => exact Covers.tt
  | false =>
    refine Covers.cmd (fun w => early_stat r env rfl w) rfl fun hp w hw => ?_
    subst hw
    simp [exec, passed_ok env hp]

/-- **Everything before the kernel gets through iff each command of `frontPath` succeeds** -/
theorem covers_front (w : Workspace) : Runs r env w (afterFront r w) false (front r) (frontPath r w) := by
  have h1 := runs_idle r env (l := [.aptGetInstall, .aptInstall, .sourceConf 0, .sourceConf 1])
    (by simp [Cmd.early, exec]) w
  have h2 : Runs r env w { w with buildDir := true } true _ _ :=
    runs_unless r env (b := (·.buildDir)) (c := .mkdirBuildDir) rfl (fun h => by rw [← h]) (fun h => by simp [exec, h])
  have h3 := runs_idle r env (l := [.cdBuildDir, .cdWorkspace, .sourceBoard]) (by simp [Cmd.early, exec])
    { w with buildDir := true }
  have h4 := runs_fetch r env { w with buildDir := true }
  have h5 : Runs r env _ (afterFront r w) true (bootloaderStage r) _ :=
    runs_unless r env (b := (·.bootloader r.board)) (c := .mkbootloader) rfl
      (v := { w with buildDir := true, kernel := if r.useLocal then w.kernel else fetched r.reclone w.kernel })
      (fun h => by rw [afterFront, Function.update_eq_self_iff.2 h.symm]) (fun h => by simp [exec, h, afterFront])
  have h0 : Runs r env w w false (.errexit true) [] := Covers.errexit true
  have h := (h0.seq_nil (h1.seq (h2.seq (h3.seq h4.last)))).seq h5
  simp only [List.append_assoc] at h
  exact h

/-- the shell before the kernel stage -/
abbrev atKernel (w : Workspace) : St Cmd Workspace := eval (exec r env) false (front r) (start Cmd w)

theorem front_failing : (front r).failing = true := by
  unfold front prepare bootloaderStage
  split <;> rfl

theorem front_spec (w : Workspace) :
    ((atKernel r env w).out = .run ↔ ∀ c ∈ frontPath r w, env.top c = .ok) ∧
      ((atKernel r env w).out = .run → (atKernel r env w).e = true ∧ (atKernel r env w).w = afterFront r w) ∧
      Beside w (atKernel r env w).w ∧ (atKernel r env w).out ≠ .exit 0 := by
  have hc := covers_front r env w
  refine ⟨?_, fun h => ?_, ?_, ?_⟩
  · rw [hc.pass (start Cmd w) rfl rfl rfl]
    exact forall₂_congr fun c _ => ⟨passed_ok env, fun h => Or.inl (Resp.stat_ok.2 h)⟩
  · obtain ⟨h1, -, h2⟩ := hc.after (start Cmd w) rfl rfl rfl h
    exact ⟨h1, h2⟩
  · exact eval_inv (exec r env) (Beside w) false (front r) (fun c hc _ h => early_beside r env (front_early r hc) h)
      (start Cmd w) (Beside.refl w)
  · exact eval_failing (exec r env) false (front r) (front_failing r) (start Cmd w) (by simp [start])

/-! ## The kernel -/

/-- a call of `mklinux.sh` -/
def linuxed (w : Workspace) : Workspace :=
  { w with kernel := (MkLinux.mklinux (r.linuxParams w) env.linux w.kernel).w, calls := w.calls + 1 }

theorem mklinux_exec (w : Workspace) :
    exec r env .mklinux w =
      if env.top .mklinux = .ok then ((MkLinux.mklinux (r.linuxParams w) env.linux w.kernel).stat, linuxed r env w)
      else ((env.top .mklinux).stat, w) := by
  cases h : env.top .mklinux <;> simp [exec, h, linuxed]

/-- what the stages up to the kernel leave -/
def afterKernel (w : Workspace) : Workspace :=
  if MkLinux.cached r.sel w.kernel then afterFront r w else linuxed r env (afterFront r w)

/-- the run calls `mklinux.sh` -/
structure CallsMklinux (w : Workspace) : Prop where
  front : ∀ c ∈ frontPath r w, env.top c = .ok
  uncached : MkLinux.cached r.sel w.kernel = false
  start : env.top .mklinux = .ok

/-- the call of `mklinux.sh` gets to its end -/
abbrev LinuxDone (w : Workspace) : Prop :=
  MkLinux.Done (r.linuxParams (afterFront r w)) env.linux (afterFront r w).kernel

/-- the run gets past the kernel stage -/
structure KernelOk (w : Workspace) : Prop where
  front : ∀ c ∈ frontPath r w, env.top c = .ok
  kernel : MkLinux.cached r.sel w.kernel = false → env.top .mklinux = .ok ∧ LinuxDone r env w

/-- the shell after the kernel stage -/
abbrev atRootfs (w : Workspace) : St Cmd Workspace := (atKernel r env w).next (eval (exec r env) false (kernelStage r))

theorem cached_congr {s : Selection} {k k' : MkLinux.World} (h : k'.out = k.out) :
    MkLinux.cached s k' = MkLinux.cached s k := by
  simp only [MkLinux.cached, h]

theorem cached_afterFront (w : Workspace) :
    MkLinux.cached r.sel (afterFront r w).kernel = MkLinux.cached r.sel w.kernel :=
  cached_congr (afterFront_beside r w).kernel.out

theorem atRootfs_spec (w : Workspace) :
    ((atRootfs r env w).out = .run ↔ KernelOk r env w) ∧
      ((atRootfs r env w).out = .run → (atRootfs r env w).e = true ∧ (atRootfs r env w).w = afterKernel r env w) ∧
      ((atRootfs r env w).out ≠ .run → Beside w (atRootfs r env w).w ∨
        CallsMklinux r env w ∧ (atRootfs r env w).w = linuxed r env (afterFront r w)) ∧
      (atRootfs r env w).out ≠ .exit 0 := by
  obtain ⟨f1, f2, f3, f4⟩ := front_spec r env w
  have hf : (atRootfs r env w).out ≠ .exit 0 := next_exit f4 (eval_failing _ _ _ rfl _ f4)
  by_cases hr : (atKernel r env w).out = .run
  swap
  · have hs : atRootfs r env w = atKernel r env w := next_stop hr _
    rw [hs]
    exact ⟨⟨fun h => absurd h hr, fun h => absurd (f1.2 h.front) hr⟩, fun h => absurd h hr, fun _ => Or.inl f3, f4⟩
  obtain ⟨he, hw⟩ := f2 hr
  have hk : atRootfs r env w = eval (exec r env) false (kernelStage r) (atKernel r env w) := next_run hr _
  rw [hk] at hf ⊢
  obtain ⟨k1, k2, k3⟩ := eval_unless_strict (exec r env) (fun w => MkLinux.cached r.sel w.kernel) .mklinux _ he hr
  rw [hw, cached_afterFront, mklinux_exec] at k1 k3
  change (eval (exec r env) false (kernelStage r) (atKernel r env w)).out = _ ↔ _ at k1
  change (eval (exec r env) false (kernelStage r) (atKernel r env w)).w = _ at k3
  refine ⟨k1.trans ⟨fun h => ⟨f1.1 hr, fun hc => ?_⟩, fun h hc => ?_⟩, fun h => ⟨k2, ?_⟩, fun h => ?_, hf⟩
  · have h1 := h hc
    split_ifs at h1 with ht
    · exact ⟨ht, (MkLinux.stat_iff_done _ _ _).1 h1⟩
    · exact absurd (Resp.stat_ok.1 h1) ht
  · obtain ⟨h1, h2⟩ := h.kernel hc
    rw [if_pos h1]
    exact (MkLinux.stat_iff_done _ _ _).2 h2
  · rw [k3, afterKernel]
    split_ifs with hc ht
    · rfl
    · rfl
    · have h1 := k1.1 h (by simpa using hc)
      rw [if_neg ht] at h1
      exact absurd (Resp.stat_ok.1 h1) ht
  · rw [k3]
    split_ifs with hc ht
    · exact absurd (k1.2 fun h => absurd (hc.symm.trans h) (by simp)) h
    · exact Or.inr ⟨⟨f1.1 hr, by simpa using hc, ht⟩, rfl⟩
    · exact Or.inl (afterFront_beside r w)

/-- past the kernel stage the packages of the selection are taken as built -/
theorem afterKernel_cached {w : Workspace} (h : KernelOk r env w) :
    MkLinux.cached r.sel (afterKernel r env w).kernel = true := by
  unfold afterKernel
  split_ifs with hc
  · rwa [cached_afterFront]
  · exact MkLinux.cached_of_done _ _ _ (h.kernel (by simpa using hc)).2

theorem build_all_eq (w : Workspace) :
    build_all r env w = (atRootfs r env w).next (eval (exec r env) false (back r)) :=
  (next_assoc _ _ _).symm

/-! ## The root file system -/

/-- `mkdir ${ROOTFS}` -/
def opened (w : Workspace) : Workspace :=
  { w with rootfs := { w.rootfs with rootfs := some ⟨[], false, false, false⟩ } }

/-- a call of `mkrootfs.sh` -/
abbrev rooted (w : Workspace) : St MkRootfs.Cmd MkRootfs.World :=
  MkRootfs.mkrootfs r.rootfsParams env.rootfs (opened w).rootfs

theorem mkdirRootfs_exec (w : Workspace) :
    exec r env .mkdirRootfs w =
      if env.top .mkdirRootfs = .ok then (if w.rootfs.rootfs.isSome then (.fail, w) else (.ok, opened w))
      else ((env.top .mkdirRootfs).stat, w) := by
  cases h : env.top .mkdirRootfs <;> simp [exec, h, opened]

theorem mkrootfs_exec (w : Workspace) :
    exec r env .mkrootfs w =
      if env.top .mkrootfs = .ok then
        ((MkRootfs.mkrootfs r.rootfsParams env.rootfs w.rootfs).stat,
          { w with rootfs := (MkRootfs.mkrootfs r.rootfsParams env.rootfs w.rootfs).w })
      else ((env.top .mkrootfs).stat, w) := by
  cases h : env.top .mkrootfs <;> simp [exec, h]

/-- an archive is there: `mkrootfs.sh` is skipped -/
theorem rootfsStage_found {s : St Cmd Workspace} (h : (s.w.rootfs.archive r.key).isSome) :
    eval (exec r env) false (rootfsStage r) s = { s with ok := true } := by
  simp [rootfsStage, eval, h]

/-- there is no archive, and `mkdir` fails: that is not fatal, and `mkrootfs.sh` is skipped -/
theorem rootfsStage_skipped {s : St Cmd Workspace} (hr : s.out = .run) (h : s.w.rootfs.archive r.key = none)
    (hm : ¬ (env.top .mkdirRootfs = .ok ∧ s.w.rootfs.rootfs = none)) :
    (eval (exec r env) false (rootfsStage r) s).w = s.w ∧ (eval (exec r env) false (rootfsStage r) s).e = s.e ∧
      ((eval (exec r env) false (rootfsStage r) s).out = .run ↔ (env.top .mkdirRootfs).stat ≠ .killed) ∧
      (eval (exec r env) false (rootfsStage r) s).out ≠ .exit 0 := by
  have hx : (exec r env .mkdirRootfs s.w).2 = s.w ∧ ((exec r env .mkdirRootfs s.w).1 = .fail ∧
      (env.top .mkdirRootfs).stat ≠ .killed ∨ (exec r env .mkdirRootfs s.w).1 = .killed ∧
      (env.top .mkdirRootfs).stat = .killed) := by
    cases ht : env.top .mkdirRootfs with
    | ok =>
      have hi : s.w.rootfs.rootfs.isSome := Option.isSome_iff_ne_none.2 fun hn => hm ⟨ht, hn⟩
      simp [mkdirRootfs_exec, ht, hi, Resp.stat]
    | fail b | kill b => simp [mkdirRootfs_exec, ht, Resp.stat]
  obtain ⟨hw, ⟨h1, h2⟩ | ⟨h1, h2⟩⟩ := hx
  · simp [rootfsStage, Sh.and, eval, h, simple, h1, hw, check, St.next, hr, h2]
  · simp [rootfsStage, Sh.and, eval, h, simple, h1, hw, St.next, h2]

/-- there is no archive, and `mkdir` succeeds -/
theorem rootfsStage_built {s : St Cmd Workspace} (hr : s.out = .run) (he : s.e = true)
    (h : s.w.rootfs.archive r.key = none) (hm : env.top .mkdirRootfs = .ok) (hn : s.w.rootfs.rootfs = none) :
    (eval (exec r env) false (rootfsStage r) s).w =
        (if env.top .mkrootfs = .ok then { s.w with rootfs := (rooted r env s.w).w } else opened s.w) ∧
      (eval (exec r env) false (rootfsStage r) s).e = true ∧
      ((eval (exec r env) false (rootfsStage r) s).out = .run ↔
        env.top .mkrootfs = .ok ∧ (rooted r env s.w).stat = .ok) ∧
      (eval (exec r env) false (rootfsStage r) s).out ≠ .exit 0 ∧
      ((eval (exec r env) false (rootfsStage r) s).out = .run →
        (.mkrootfs, true) ∈ (eval (exec r env) false (rootfsStage r) s).log) := by
  have hx : exec r env .mkdirRootfs s.w = (.ok, opened s.w) := by simp [mkdirRootfs_exec, hm, hn]
  have hs : eval (exec r env) false (rootfsStage r) s = simple (exec r env) false .mkrootfs
      { s with w := opened s.w, ok := true, log := s.log ++ [(.mkdirRootfs, true)] } := by
    simp [rootfsStage, Sh.and, eval, h, simple, hx, St.next, hr]
  rw [hs]
  have hk := mkrootfs_exec r env (opened s.w)
  by_cases hk0 : env.top .mkrootfs = .ok
  · rw [if_pos hk0] at hk
    refine ⟨?_, ?_, ?_, ?_, ?_⟩
    · rw [simple_w, if_pos hk0, hk]
      rfl
    · rw [simple_e, he]
    · cases ho : (rooted r env s.w).stat <;> simp [simple, hk, ho, hk0, check, he, hr]
    · cases ho : (rooted r env s.w).stat <;> simp [simple, hk, ho, check, he, hr]
    · cases ho : (rooted r env s.w).stat <;> simp [simple, hk, ho, check, he]
  · rw [if_neg hk0] at hk
    have h1 : (env.top .mkrootfs).stat = .fail ∨ (env.top .mkrootfs).stat = .killed := by
      cases ht : env.top .mkrootfs <;> simp_all [Resp.stat]
    refine ⟨?_, ?_, ?_, ?_, ?_⟩
    · rw [simple_w, if_neg hk0, hk]
    · rw [simple_e, he]
    all_goals rcases h1 with h1 | h1 <;> simp [simple, hk, h1, hk0, check, he]

/-! ## The image -/

/-- a call of `pack.sh` -/
def packed (w : Workspace) : Workspace :=
  { w with img := (Pack.pack (r.packParams w) env.pack w.img).w, packings := w.packings ++ [r.packing w] }

theorem pack_exec (w : Workspace) :
    exec r env .pack w =
      if env.top .pack = .ok then ((Pack.pack (r.packParams w) env.pack w.img).stat, packed r env w)
      else ((env.top .pack).stat, w) := by
  cases h : env.top .pack <;> simp [exec, h, packed]

/-- what the end of a run leaves of the workspace -/
structure Imaged (v w : Workspace) : Prop where
  kernel : w.kernel = v.kernel
  rootfs : w.rootfs = v.rootfs
  calls : w.calls = v.calls
  rootfs_dir : w.img.rootfs_dir = v.img.rootfs_dir
  packings : w.packings = v.packings

theorem late_imaged {c : Cmd} (hc : c = .catVersion ∨ c = .mvImage) {v w : Workspace} (h : Imaged v w) :
    Imaged v (exec r env c w).2 := by
  obtain ⟨h1, h2, h3, h4, h5⟩ := h
  rcases hc with rfl | rfl
  · exact ⟨h1, h2, h3, h4, h5⟩
  · cases he : env.top .mvImage <;> simp only [exec, he] <;> exact ⟨h1, h2, h3, h4, h5⟩

/-- after the call of `pack.sh` -/
def tailStage : Sh Cmd Workspace :=
  .seq (.cmd .catVersion) (.cond (·.img.xz.isSome) (.cmd .mvImage) (.exit 2))

theorem imageStage_eq (s : St Cmd Workspace) :
    eval (exec r env) false imageStage s = (simple (exec r env) false .pack s).next (eval (exec r env) false tailStage) := by
  have h : ∀ t : St Cmd Workspace, eval (exec r env) false tailStage t =
      (eval (exec r env) false (block [.catVersion]) t).next
        (eval (exec r env) false (.cond (·.img.xz.isSome) (.cmd .mvImage) (.exit 2))) := fun t => by
    rw [eval_block_one]
    rfl
  rw [imageStage, eval, eval_block_cons, next_assoc]
  congr
  funext t
  exact (h t).symm

theorem imageStage_spec {s : St Cmd Workspace} (hr : s.out = .run) (he : s.e = true) :
    Imaged (if env.top .pack = .ok then packed r env s.w else s.w) (eval (exec r env) false imageStage s).w ∧
      (eval (exec r env) false imageStage s).out ≠ .exit 0 ∧
      ((eval (exec r env) false imageStage s).out = .run → env.top .pack = .ok ∧
        (Pack.pack (r.packParams s.w) env.pack s.w.img).stat = .ok) := by
  have h0 : (simple (exec r env) false .pack s).out ≠ .exit 0 :=
    eval_failing (exec r env) false (.cmd .pack) rfl s (by simp [hr])
  have hw : Imaged (if env.top .pack = .ok then packed r env s.w else s.w) (simple (exec r env) false .pack s).w := by
    rw [simple_w, pack_exec]
    split <;> exact ⟨rfl, rfl, rfl, rfl, rfl⟩
  rw [imageStage_eq]
  refine ⟨next_w (I := Imaged _) hw fun _ => eval_inv (exec r env) (Imaged _) false tailStage (fun c hc w h => ?_) _ hw,
    next_exit h0 (eval_failing _ _ _ rfl _ h0), fun h => ?_⟩
  · refine late_imaged r env ?_ h
    simpa [tailStage, Sh.cmds] using hc
  · have h1 := simple_strict he (run_of_next h).1
    rw [pack_exec] at h1
    split_ifs at h1 with ht
    · exact ⟨ht, h1⟩
    · exact absurd (Resp.stat_ok.1 h1) ht

/-! ## What a run leaves of the kernel -/

/-- the commands after the kernel stage -/
theorem mem_back {c : Cmd} (hc : c ∈ (back r).cmds) : c ∈ [Cmd.mkdirRootfs, .mkrootfs, .pack, .catVersion, .mvImage] := by
  unfold back at hc
  split at hc
  · simp [Sh.cmds] at hc
  · simpa [Sh.cmds, rootfsStage, imageStage, Sh.and] using hc

/-- after the kernel stage nothing touches the packages, and `pack.sh` finds them as they are -/
structure KernelKept (v w : Workspace) : Prop where
  kernel : w.kernel = v.kernel
  calls : w.calls = v.calls
  packings : ∀ q ∈ w.packings, q ∈ v.packings ∨ ∃ u : Workspace, u.kernel = v.kernel ∧ q = r.packing u

theorem back_kernelKept {c : Cmd} (hc : c ∈ (back r).cmds) {v w : Workspace} (h : KernelKept r v w) :
    KernelKept r v (exec r env c w).2 := by
  obtain ⟨h1, h2, h3⟩ := h
  have hm := mem_back r hc
  simp only [List.mem_cons, List.not_mem_nil, or_false] at hm
  rcases hm with rfl | rfl | rfl | rfl | rfl
  · rw [mkdirRootfs_exec]
    split_ifs <;> exact ⟨h1, h2, h3⟩
  · rw [mkrootfs_exec]
    split_ifs <;> exact ⟨h1, h2, h3⟩
  · rw [pack_exec]
    split_ifs
    · refine ⟨h1, h2, fun q hq => ?_⟩
      rcases List.mem_append.1 hq with hq | hq
      · exact h3 q hq
      · exact Or.inr ⟨w, h1, List.mem_singleton.1 hq⟩
    · exact ⟨h1, h2, h3⟩
  · exact ⟨h1, h2, h3⟩
  · cases he : env.top .mvImage <;> simp only [exec, he] <;> exact ⟨h1, h2, h3⟩

/-- **The kernel side of a run**: it stops before its call of `mklinux.sh`, or in it, or goes on with the packages of its
selection taken as built -/
theorem build_all_kernel (w : Workspace) :
    (KernelOk r env w ∧ KernelKept r (afterKernel r env w) (build_all r env w).w) ∨
      ¬ KernelOk r env w ∧ (Beside w (build_all r env w).w ∨
        CallsMklinux r env w ∧ (build_all r env w).w = linuxed r env (afterFront r w)) := by
  obtain ⟨a1, a2, a3, -⟩ := atRootfs_spec r env w
  rw [build_all_eq]
  by_cases hr : (atRootfs r env w).out = .run
  · rw [next_run hr]
    refine Or.inl ⟨a1.1 hr, ?_⟩
    rw [← (a2 hr).2]
    exact eval_inv (exec r env) (KernelKept r _) false (back r) (fun c hc _ h => back_kernelKept r env hc h) _
      ⟨rfl, rfl, fun q hq => Or.inl hq⟩
  · rw [next_stop hr]
    exact Or.inr ⟨fun h => hr (a1.2 h), a3 hr⟩

end AvaotaOS.BuildAll
