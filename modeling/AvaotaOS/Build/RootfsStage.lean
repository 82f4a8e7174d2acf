/-
What one run of `build_all.sh` does to the root file systems, to the calls of `pack.sh` and to the releases.

The archive `rootfs-${VERSION}-${TYPE}.tar.gz` is made only where there is none, and only where `ROOTFS` could be created;
`pack.sh` is called behind the rootfs stage whether or not that stage has made one.

- `build_all_step`: what a run leaves of the archives and of `ROOTFS`, wherever it stops, and what it adds to the packings and
  to the releases; a release needs a complete archive.
- `build_all_success`: what a run with status 0 has done.
-/
import Mathlib.Tactic
import AvaotaOS.Build.Stages
import AvaotaOS.Image.PackSafe
import AvaotaOS.Rootfs.Built

/-! ## What `pack.sh` needs -/

namespace AvaotaOS.Pack

open Shell

/-- a command that succeeds has found what it reads -/
theorem input_ok {p : Params} {env : Cmd → Resp} {c : Cmd} (h : stat p env c = .ok) : badInput p c = false := by
  unfold stat at h
  split_ifs at h with hc
  by_contra hb
  exact hc ⟨by simpa using hb, h⟩

/-- **`pack.sh` ends with status 0 only on a complete archive and whole packages** -/
theorem pack_inputs {p : Params} {env : Cmd → Resp} {w : World} (h : (pack p env w).stat = .ok) :
    p.archive = true ∧ p.kernel = true := by
  obtain ⟨h1, e1⟩ := seq_of_stat (a := clear) rfl (by simp [start]) h
  have he := ((clear_spec p env w).2 h1).1
  have hfailing : (rest p).failing = true := by
    simp [rest, Sh.failing, UMOUNT_ALL, seqs, umounts, removeDir, writeOut, xz_image]
  have hstat : (eval (exec p env) false (.onExit (UMOUNT_ALL .trap) (rest p)) (atTrap p env w)).stat = .ok := e1 ▸ h
  obtain ⟨h2, -⟩ := onExit_ok rfl hfailing (by rw [h1]; simp) hstat
  obtain ⟨h3, h4⟩ := (eval_seq_run _ _ _ _ _).1 h2
  have he3 := strict_e (exec p env) false _ (strict_block createImage) _ he
  obtain ⟨h5, h6⟩ := (eval_seq_run _ _ _ _ _).1 h4
  have he5 := strict_e (exec p env) false _ (strict_block (unpackRootfs p)) _ he3
  obtain ⟨h7, -⟩ := (eval_seq_run _ _ _ _ _).1 h6
  rw [unpackRootfs_out p env _ h3 he3, outcome_run] at h5
  rw [install_out p env _ ((eval_seq_run _ _ _ _ _).1 h4).1 he5, outcome_run] at h7
  have htar := input_ok (h5 .tarExtract (by simp [unpackRootfs, unpackFiles]))
  have hdpkg := input_ok (h7 .installKernel (by simp [install]))
  simp only [badInput, Bool.not_eq_false'] at htar hdpkg
  exact ⟨htar, hdpkg⟩

end AvaotaOS.Pack

namespace AvaotaOS.BuildAll

open Shell

variable (r : Request) (env : Env)

/-! ## Before the rootfs stage -/

/-- what the stages up to the kernel do not touch -/
structure Unshipped (v w : Workspace) : Prop where
  rootfs : w.rootfs = v.rootfs
  img : w.img = v.img
  releases : w.releases = v.releases
  packings : w.packings = v.packings

theorem Beside.unshipped {v w : Workspace} (h : Beside v w) : Unshipped v w := ⟨h.rootfs, h.img, h.releases, h.packings⟩

theorem linuxed_unshipped (w : Workspace) : Unshipped w (linuxed r env (afterFront r w)) := by
  have h := afterFront_beside r w
  exact ⟨h.rootfs, h.img, h.releases, h.packings⟩

theorem atRootfs_unshipped (w : Workspace) : Unshipped w (atRootfs r env w).w := by
  obtain ⟨-, a2, a3, -⟩ := atRootfs_spec r env w
  by_cases hr : (atRootfs r env w).out = .run
  · rw [(a2 hr).2, afterKernel]
    split_ifs
    · exact (afterFront_beside r w).unshipped
    · exact linuxed_unshipped r env w
  · rcases a3 hr with h | ⟨-, h⟩
    · exact h.unshipped
    · rw [h]
      exact linuxed_unshipped r env w

/-! ## The rootfs stage -/

/-- `ROOTFS` as `mkdir ${ROOTFS}` leaves it -/
def mkdirred (v : MkRootfs.World) : MkRootfs.World := { v with rootfs := some ⟨[], false, false, false⟩ }

/-- the call of `mkrootfs.sh` that a run makes where it finds `v` -/
abbrev called (v : MkRootfs.World) : St MkRootfs.Cmd MkRootfs.World :=
  MkRootfs.mkrootfs r.rootfsParams env.rootfs (mkdirred v)

/-- what the stage can do: nothing; or, where there is neither an archive nor a `ROOTFS`, create the directory and call
`mkrootfs.sh` -/
inductive Staged (v : MkRootfs.World) : MkRootfs.World → Prop where
  | same : Staged v v
  | opened (ha : v.archive r.key = none) (hn : v.rootfs = none) : Staged v (mkdirred v)
  | called (ha : v.archive r.key = none) (hn : v.rootfs = none) : Staged v (called r env v).w

/-- **The rootfs stage**, wherever it stops -/
theorem rootfsStage_staged {s : St Cmd Workspace} (hr : s.out = .run) (he : s.e = true) :
    Staged r env s.w.rootfs (eval (exec r env) false (rootfsStage r) s).w.rootfs ∧
      (eval (exec r env) false (rootfsStage r) s).w =
        { s.w with rootfs := (eval (exec r env) false (rootfsStage r) s).w.rootfs } ∧
      (eval (exec r env) false (rootfsStage r) s).e = true ∧
      (eval (exec r env) false (rootfsStage r) s).out ≠ .exit 0 ∧
      ((eval (exec r env) false (rootfsStage r) s).out = .run →
        (eval (exec r env) false (rootfsStage r) s).w.rootfs = s.w.rootfs ∨
          s.w.rootfs.archive r.key = none ∧ s.w.rootfs.rootfs = none ∧ (called r env s.w.rootfs).stat = .ok ∧
            (eval (exec r env) false (rootfsStage r) s).w.rootfs = (called r env s.w.rootfs).w) := by
  cases ha : s.w.rootfs.archive r.key with
  | some a =>
    rw [rootfsStage_found r env (by simp [ha])]
    exact ⟨.same, rfl, he, by simp [hr], fun _ => Or.inl rfl⟩
  | none =>
    by_cases hm : env.top .mkdirRootfs = .ok ∧ s.w.rootfs.rootfs = none
    · obtain ⟨h1, h2, h3, h4, -⟩ := rootfsStage_built r env hr he ha hm.1 hm.2
      by_cases hk : env.top .mkrootfs = .ok
      · rw [if_pos hk] at h1
        rw [h1]
        refine ⟨.called ha hm.2, rfl, h2, h4, fun h => Or.inr ⟨rfl, hm.2, (h3.1 h).2, rfl⟩⟩
      · rw [if_neg hk] at h1
        rw [h1]
        exact ⟨.opened ha hm.2, rfl, h2, h4, fun h => absurd (h3.1 h).1 hk⟩
    · obtain ⟨h1, h2, -, h4⟩ := rootfsStage_skipped r env hr ha hm
      rw [h1]
      exact ⟨.same, rfl, h2.trans he, h4, fun _ => Or.inl rfl⟩

/-! ## The image stage -/

/-- the archive that the run needs is there, and complete or taken as it is -/
def Ready (v : MkRootfs.World) : Prop := ∃ a, v.archive r.key = some a ∧ (a.complete = true ∨ r.cutTaken = true)

/-- the packing is one of this run, and finds its archive in `v` -/
structure PacksFrom (v : MkRootfs.World) (q : Packing) : Prop where
  sel : q.sel = r.sel
  version : q.version = r.version
  type : q.type = r.type
  archive : q.archive = v.archive r.key

/-- what a run adds to the packings and to the releases -/
inductive Shipped (v w : Workspace) : Prop where
  | nothing (hp : w.packings = v.packings) (hr : w.releases = v.releases)
  | packed (q : Packing) (hq : PacksFrom r w.rootfs q) (hp : w.packings = v.packings ++ [q]) (hr : w.releases = v.releases)
  | released (q : Packing) (hq : PacksFrom r w.rootfs q) (hready : Ready r w.rootfs) (hp : w.packings = v.packings ++ [q])
      (img : Pack.Image) (hr : w.releases = v.releases ++ [⟨r.linux.AVA_VERSION, r.version, r.type, r.board, img⟩])

theorem ready_of_pack {w : Workspace} (h : (Pack.pack (r.packParams w) env.pack w.img).stat = .ok) : Ready r w.rootfs := by
  have ha : (w.rootfs.archive r.key).any (fun a => a.complete || r.cutTaken) = true := (Pack.pack_inputs h).1
  rw [Option.any_eq_true_iff_get] at ha
  obtain ⟨hs, hc⟩ := ha
  exact ⟨_, (Option.some_get hs).symm, Bool.or_eq_true_iff.1 hc⟩

/-- behind `pack.sh` a run adds one release at most -/
theorem tailStage_releases (s : St Cmd Workspace) :
    (eval (exec r env) false tailStage s).w.packings = s.w.packings ∧
      (eval (exec r env) false tailStage s).w.rootfs = s.w.rootfs ∧
      ((eval (exec r env) false tailStage s).w.releases = s.w.releases ∨
        ∃ img, (eval (exec r env) false tailStage s).w.releases =
          s.w.releases ++ [⟨r.linux.AVA_VERSION, r.version, r.type, r.board, img⟩]) := by
  have hcat : (simple (exec r env) false .catVersion s).w = s.w := simple_w _ _ _ _
  refine next_w (I := fun w : Workspace => w.packings = s.w.packings ∧ w.rootfs = s.w.rootfs ∧ (w.releases = s.w.releases ∨
    ∃ img, w.releases = s.w.releases ++ [⟨r.linux.AVA_VERSION, r.version, r.type, r.board, img⟩])) ?_ fun _ => ?_
  · rw [eval, hcat]
    exact ⟨rfl, rfl, Or.inl rfl⟩
  · rw [eval, eval, hcat]
    split
    · rename_i hxz
      obtain ⟨img, himg⟩ := Option.isSome_iff_exists.1 hxz
      rw [eval, simple_w, hcat]
      cases he : env.top .mvImage <;> simp [exec, he, himg]
    · simp [eval, hcat]

/-- **The image stage** -/
theorem imageStage_shipped {s : St Cmd Workspace} (he : s.e = true) :
    Shipped r s.w (eval (exec r env) false imageStage s).w ∧
      (eval (exec r env) false imageStage s).w.rootfs = s.w.rootfs := by
  rw [imageStage_eq]
  have hfrom : ∀ v : MkRootfs.World, v = s.w.rootfs → PacksFrom r v (r.packing s.w) := by
    rintro v rfl
    exact ⟨rfl, rfl, rfl, rfl⟩
  have hexec := pack_exec r env s.w
  by_cases ht : env.top .pack = .ok
  · rw [if_pos ht] at hexec
    have hw : (simple (exec r env) false .pack s).w = packed r env s.w := by rw [simple_w, hexec]
    by_cases hrun : (simple (exec r env) false .pack s).out = .run
    · obtain ⟨t1, t2, t3⟩ := tailStage_releases r env (simple (exec r env) false .pack s)
      have hready : Ready r s.w.rootfs := by
        have hok := simple_strict he hrun
        rw [hexec] at hok
        exact ready_of_pack r env hok
      rw [next_run hrun]
      rw [hw] at t1 t2 t3
      refine ⟨?_, t2⟩
      rcases t3 with t3 | ⟨img, t3⟩
      · exact .packed _ (hfrom _ t2) t1 t3
      · exact .released _ (hfrom _ t2) (by rw [t2]; exact hready) t1 img t3
    · rw [next_stop hrun, hw]
      exact ⟨.packed _ (hfrom _ rfl) rfl rfl, rfl⟩
  · rw [if_neg ht] at hexec
    have hw : (simple (exec r env) false .pack s).w = s.w := by rw [simple_w, hexec]
    have hstop : (simple (exec r env) false .pack s).out ≠ .run := by
      intro hrun
      have hok := simple_strict he hrun
      rw [hexec] at hok
      exact ht (Resp.stat_ok.1 hok)
    rw [next_stop hstop, hw]
    exact ⟨.nothing rfl rfl, rfl⟩

/-! ## One run -/

theorem Shipped.congr {u v w : Workspace} (hp : v.packings = u.packings) (hr : v.releases = u.releases)
    (h : Shipped r v w) : Shipped r u w := by
  cases h with
  | nothing h1 h2 => exact .nothing (h1.trans hp) (h2.trans hr)
  | packed q hq h1 h2 => exact .packed q hq (by rw [h1, hp]) (h2.trans hr)
  | released q hq hready h1 img h2 => exact .released q hq hready (by rw [h1, hp]) img (by rw [h2, hr])

/-- **What a run does to the root file systems and the releases**, wherever it stops -/
theorem build_all_step (w : Workspace) :
    Staged r env w.rootfs (build_all r env w).w.rootfs ∧ Shipped r w (build_all r env w).w := by
  have hu := atRootfs_unshipped r env w
  rw [build_all_eq]
  by_cases hr : (atRootfs r env w).out = .run
  swap
  · rw [next_stop hr, hu.rootfs]
    exact ⟨.same, .nothing hu.packings hu.releases⟩
  rw [next_run hr, back]
  cases hk : r.kernelOnly with
  | true =>
    simp only [if_true, eval, hu.rootfs]
    exact ⟨.same, .nothing hu.packings hu.releases⟩
  | false =>
    simp only [Bool.false_eq_true, if_false]
    obtain ⟨he, -⟩ := (atRootfs_spec r env w).2.1 hr
    obtain ⟨h1, h2, h3, -⟩ := rootfsStage_staged r env hr he
    rw [hu.rootfs] at h1
    by_cases h : (eval (exec r env) false (rootfsStage r) (atRootfs r env w)).out = .run
    · rw [eval_seq_eq _ _ _ _ _ h]
      obtain ⟨i1, i2⟩ := imageStage_shipped r env h3
      rw [i2]
      refine ⟨h1, i1.congr r ?_ ?_⟩
      · rw [h2]
        exact hu.packings
      · rw [h2]
        exact hu.releases
    · rw [eval_seq_stop _ _ _ _ _ h]
      refine ⟨h1, ?_⟩
      rw [h2]
      exact .nothing hu.packings hu.releases

/-- a run that gets past the kernel leaves the root file systems as its rootfs stage does -/
theorem build_all_rootfs_eq {w : Workspace} (hk : r.kernelOnly = false) (hr : (atRootfs r env w).out = .run) :
    (build_all r env w).w.rootfs = (eval (exec r env) false (rootfsStage r) (atRootfs r env w)).w.rootfs := by
  obtain ⟨he, -⟩ := (atRootfs_spec r env w).2.1 hr
  rw [build_all_eq, next_run hr, back, if_neg (by simp [hk])]
  by_cases h : (eval (exec r env) false (rootfsStage r) (atRootfs r env w)).out = .run
  · rw [eval_seq_eq _ _ _ _ _ h]
    exact (imageStage_shipped r env (rootfsStage_staged r env hr he).2.2.1).2
  · rw [eval_seq_stop _ _ _ _ _ h]

/-- **What a run with status 0 has done**: only the kernel, or it has packed an archive, that of an earlier run or of
a call of `mkrootfs.sh` that came to its end -/
theorem build_all_success {w : Workspace} (h : (build_all r env w).stat = .ok) :
    r.kernelOnly = true ∧ (build_all r env w).w.rootfs = w.rootfs ∧ (build_all r env w).w.packings = w.packings ∨
      r.kernelOnly = false ∧ Ready r (build_all r env w).w.rootfs ∧
        (∃ q, PacksFrom r (build_all r env w).w.rootfs q ∧ (build_all r env w).w.packings = w.packings ++ [q]) ∧
        ((build_all r env w).w.rootfs = w.rootfs ∨
          w.rootfs.archive r.key = none ∧ w.rootfs.rootfs = none ∧ (called r env w.rootfs).stat = .ok ∧
            (build_all r env w).w.rootfs = (called r env w.rootfs).w) := by
  have hu := atRootfs_unshipped r env w
  obtain ⟨-, a2, -, a4⟩ := atRootfs_spec r env w
  rw [build_all_eq] at h ⊢
  have hr : (atRootfs r env w).out = .run := by
    by_contra hr
    rw [next_stop hr] at h
    exact stat_of_stop hr a4 h
  rw [next_run hr, back] at h ⊢
  cases hk : r.kernelOnly with
  | true =>
    rw [if_pos rfl, eval]
    exact Or.inl ⟨rfl, hu.rootfs, hu.packings⟩
  | false =>
    simp only [hk, Bool.false_eq_true, if_false] at h ⊢
    obtain ⟨-, h2, h3, h4, h5⟩ := rootfsStage_staged r env hr (a2 hr).1
    have h6 : (eval (exec r env) false (rootfsStage r) (atRootfs r env w)).out = .run := by
      by_contra hs
      rw [eval_seq_stop _ _ _ _ _ hs] at h
      exact stat_of_stop hs h4 h
    rw [eval_seq_eq _ _ _ _ _ h6] at h ⊢
    obtain ⟨i1, i2⟩ := imageStage_shipped r env h3
    obtain ⟨j1, j2, j3⟩ := imageStage_spec r env h6 h3
    have j4 : (eval (exec r env) false imageStage (eval (exec r env) false (rootfsStage r) (atRootfs r env w))).out = .run := by
      by_contra hs
      exact stat_of_stop hs j2 h
    obtain ⟨j5, j6⟩ := j3 j4
    have hready := ready_of_pack r env j6
    have hpack := j1.packings
    rw [if_pos j5] at hpack
    have hold : (eval (exec r env) false (rootfsStage r) (atRootfs r env w)).w.packings = w.packings := by
      rw [h2]
      exact hu.packings
    rw [hu.rootfs] at h5
    refine Or.inr ⟨trivial, ?_, ?_, ?_⟩
    · rw [i2]
      exact hready
    · refine ⟨r.packing (eval (exec r env) false (rootfsStage r) (atRootfs r env w)).w, ?_, ?_⟩
      · rw [i2]
        exact ⟨rfl, rfl, rfl, rfl⟩
      · rw [hpack, packed, hold]
    · rw [i2]
      exact h5 h6

end AvaotaOS.BuildAll
