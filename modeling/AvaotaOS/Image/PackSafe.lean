/-
What `pack.sh` leaves of the image that `pack_sdcard` has built.

`cleanup` says what is mounted when `UMOUNT_ALL` runs for the first time, and in which of its two calls; it is read off
the three stretches of the setup (`rest_spec`).

- `pack_safe_iff`: the image survives exactly when the `umount`s of that call succeed (or the run is killed in them) and
  the bootloader is not the truncating `dd` of sunxi U-Boot.
- `busy_root_empties_image`: a busy root file system, and status 0.
-/
import Mathlib.Tactic
import AvaotaOS.Image.UmountAll

namespace AvaotaOS.Pack

open Shell

variable (p : Params) (env : Cmd → Resp)

/-! ## Before `UMOUNT_ALL` -/

/-- `pack_sdcard` up to `UMOUNT_ALL` -/
def setup : List Cmd := createImage ++ unpackRootfs p ++ install p

/-- which call of `UMOUNT_ALL` first finds something mounted, and what -/
def cleanup : Option (Pass × Mounts) :=
  match outcome (stat p env) createImage with
  | .run =>
    match outcome (stat p env) (unpackRootfs p) with
    | .run =>
      match outcome (stat p env) (install p) with
      | .run => some (.main, ⟨true, true⟩)
      | .exit _ => some (.trap, ⟨true, true⟩)
      | .killed => none
    | .exit _ => some (.trap, ⟨true, false⟩)
    | .killed => none
  | _ => none

theorem install_plain {c : Cmd} (hc : c ∈ install p) : c.plain = true := by
  simp only [install, setup_users, boardConf, List.mem_append, List.mem_map] at hc
  rcases hc with (((hc | hc) | ⟨s, -, rfl⟩) | hc) | hc
  · revert c; decide
  · revert c; decide
  · rfl
  · split at hc <;> simp at hc
    subst hc; rfl
  · revert c; decide

theorem unpackFiles_plain {c : Cmd} (hc : c ∈ unpackFiles p) : c.plain = true ∧ ∀ x ∈ puts c, x.1 = .root := by
  unfold unpackFiles at hc
  cases h : p.bootDir <;> simp [h] at hc <;> rcases hc with rfl | rfl | rfl | rfl | rfl <;> simp [Cmd.plain, puts]

/-- the commands of the setup that do more than write files -/
theorem mem_setup {c : Cmd} (hc : c ∈ setup p) :
    c.plain = true ∨ c ∈ [.truncateImg, .losetup, .mkdirRootfsDir, .mountRoot, .mountBoot] := by
  simp only [setup, List.mem_append] at hc
  rcases hc with (hc | hc) | hc
  · revert c; decide
  · rcases List.mem_append.1 hc with hc | hc
    · exact Or.inl (unpackFiles_plain p hc).1
    · rw [List.mem_singleton] at hc
      subst hc
      simp
  · exact Or.inl (install_plain p hc)

/-- the commands of the setup have the status the environment gives them -/
theorem setup_stat {c : Cmd} (hc : c ∈ setup p) (w : World) : (exec p env c w).1 = stat p env c := by
  rcases mem_setup p hc with h | h
  · rw [exec_plain p env h]
  · simp only [List.mem_cons, List.not_mem_nil, or_false] at h
    rcases h with rfl | rfl | rfl | rfl | rfl <;> exact exec_stat p env (by simp) (by simp) w

/-! ### What the setup leaves -/

/-- the image holds what the commands of `l` have put into it -/
def Holds (l : List Cmd) (w : World) : Prop := ∃ img, w.sdcard = some img ∧ ∀ c ∈ l, ∀ x ∈ puts c, x ∈ img

theorem put_holds {l : List Cmd} {c : Cmd} {w : World} {m : Mounts} (hm : w.rootfs_dir = some m)
    (hx : ∀ x ∈ puts c, m.covers x) (h : Holds l w) : Holds (l ++ [c]) (w.put (puts c)) := by
  obtain ⟨img, hi, h⟩ := h
  refine ⟨img ++ puts c, ?_, fun d hd x hxd => ?_⟩
  · have hf : (puts c).filter m.covers = puts c := List.filter_eq_self.2 hx
    simp only [World.put, hm, hi, hf, Option.map_some]
  · rcases List.mem_append.1 hd with hd | hd
    · exact List.mem_append_left _ (h d hd x hxd)
    · rw [List.mem_singleton] at hd
      subst hd
      exact List.mem_append_right _ hxd

/-- commands that only write files, all of them successful, with their file systems mounted -/
theorem effect_holds {l k : List Cmd} {w : World} {m : Mounts} (hp : ∀ c ∈ k, c.plain = true)
    (hok : ∀ c ∈ k, stat p env c = .ok) (hx : ∀ c ∈ k, ∀ x ∈ puts c, m.covers x) (hm : w.rootfs_dir = some m)
    (h : Holds l w) :
    Holds (l ++ k) (effect (exec p env) k w) ∧ (effect (exec p env) k w).rootfs_dir = some m ∧
      (effect (exec p env) k w).device = w.device := by
  induction k generalizing l w with
  | nil => simpa using ⟨h, hm⟩
  | cons c k ih =>
    have hc : exec p env c w = (.ok, w.put (puts c)) := by
      rw [exec_plain p env (hp c (by simp)), hok c (by simp)]
      simp
    have h1 := put_holds hm (hx c (by simp)) h
    have h2 : (w.put (puts c)).rootfs_dir = some m := (put_rootfs_dir w _).trans hm
    have h3 := ih (fun c hc => hp c (by simp [hc])) (fun c hc => hok c (by simp [hc])) (fun c hc => hx c (by simp [hc]))
      h2 h1
    rw [List.append_assoc, List.singleton_append, put_device] at h3
    simpa [hc] using h3

theorem stat_ok {c : Cmd} (h : stat p env c = .ok) : env c = .ok := by
  unfold stat at h
  split at h
  · simp at h
  · exact Resp.stat_ok.1 h

/-- the root file system is mounted at the end of `createImage`, on an image with nothing in it -/
theorem createImage_effect {w : World} (hok : ∀ c ∈ createImage, stat p env c = .ok) :
    (effect (exec p env) createImage w).rootfs_dir = some ⟨true, false⟩ ∧
      (effect (exec p env) createImage w).sdcard = some [] ∧ (effect (exec p env) createImage w).device = true := by
  have he : ∀ c ∈ createImage, env c = .ok := fun c hc => stat_ok p env (hok c hc)
  simp only [createImage, List.forall_mem_cons] at he
  simp [createImage, exec, he, stat, badInput, puts, Resp.stat]

/-- the boot file system is mounted at the end of `unpackRootfs` -/
theorem unpackRootfs_effect {l : List Cmd} {w : World} (hok : ∀ c ∈ unpackRootfs p, stat p env c = .ok)
    (hm : w.rootfs_dir = some ⟨true, false⟩) (h : Holds l w) :
    Holds (l ++ unpackRootfs p) (effect (exec p env) (unpackRootfs p) w) ∧
      (effect (exec p env) (unpackRootfs p) w).rootfs_dir = some ⟨true, true⟩ ∧
      (effect (exec p env) (unpackRootfs p) w).device = w.device := by
  have hx : ∀ c ∈ unpackFiles p, ∀ x ∈ puts c, Mounts.covers ⟨true, false⟩ x := by
    intro c hc x hxc
    simp [Mounts.covers, (unpackFiles_plain p hc).2 x hxc]
  obtain ⟨⟨img, hi, h1⟩, h2, h3⟩ := effect_holds p env (fun c hc => (unpackFiles_plain p hc).1)
    (fun c hc => hok c (List.mem_append_left _ hc)) hx hm h
  have hmb : env .mountBoot = .ok := stat_ok p env (hok _ (by simp [unpackRootfs]))
  rw [unpackRootfs, effect_append, effect_cons, effect_nil]
  generalize effect (exec p env) (unpackFiles p) w = w1 at *
  refine ⟨⟨img, by simp [exec, hmb, hi], ?_⟩, by simp [exec, hmb, h2], by simp [exec, hmb, h3]⟩
  intro c hc x hxc
  rw [← List.append_assoc] at hc
  rcases List.mem_append.1 hc with hc | hc
  · exact h1 c hc x hxc
  · rw [List.mem_singleton] at hc
    subst hc
    simp [puts] at hxc

theorem install_effect {l : List Cmd} {w : World} (hok : ∀ c ∈ install p, stat p env c = .ok)
    (hm : w.rootfs_dir = some ⟨true, true⟩) (h : Holds l w) :
    Holds (l ++ install p) (effect (exec p env) (install p) w) ∧
      (effect (exec p env) (install p) w).rootfs_dir = some ⟨true, true⟩ ∧
      (effect (exec p env) (install p) w).device = w.device :=
  effect_holds p env (fun c hc => install_plain p hc) hok (fun _ _ x _ => by rcases x with ⟨_ | _, _⟩ <;> rfl) hm h

/-! ## The whole script -/

/-- every file that `pack_sdcard` has put into the image is still in it -/
def Kept (w : World) : Prop := Holds (setup p) w

/-- **The image survives the cleanup**: a run with status 0 leaves every file in it, and no call of `UMOUNT_ALL` runs
`rm -rf` on a mounted file system -/
structure PackSafe (w : World) : Prop where
  kept : (pack p env w).stat = .ok → Kept p (pack p env w).w
  unmounted : (pack p env w).w.rmMounted = false

/-- the script gets as far as its EXIT trap: what an earlier call has left is gone -/
def Cleared (w : World) : Prop :=
  (∀ c ∈ sources, env c = .ok) ∧
    (w.sdcard.isSome → env .rmSdcard = .ok) ∧ ∀ m, w.rootfs_dir = some m → m.any = false ∧ env .rmRootfsDir = .ok

/-- the commands of `writeOut` where there is an image -/
def writeOutCmds : List Cmd := write_bootloader p ++ [.cdXz, .pixz]

/-- nothing stops the script after the first `UMOUNT_ALL` has begun -/
def Finishes : Prop :=
  (∀ c ∈ [Cmd.umountBoot .main, .umountRoot .main, .rmAll .main, .kpartxDel .main, .losetupDel .main,
    .clearDevice .main], (env c).stat ≠ .killed) ∧
  (∀ c ∈ writeOutCmds p, env c = .ok) ∧
  (env (.rmAll .main) = .ok ∨ (env (.rmAll .trap)).stat ≠ .killed)

/-! ### Up to the trap -/

/-- the shell at the EXIT trap -/
abbrev atTrap (w : World) : St Cmd World := eval (exec p env) false clear (start Cmd { w with rmMounted := false })

/-- `rm -rf` succeeds exactly where nothing is mounted, and the tree is gone then -/
theorem rmDir_ok {r : Resp} {w : World} {m : Mounts} (hd : w.rootfs_dir = some m) :
    ((rmDir r w).1 = .ok ↔ m.any = false ∧ r = .ok) ∧
      ((rmDir r w).1 = .ok → (rmDir r w).2 = { w with rootfs_dir := none }) := by
  cases r <;> cases hm : m.any <;> simp [rmDir, hd, hm, Resp.stat]

theorem clear_rmMounted (w : World) : (atTrap p env w).w.rmMounted = false := by
  refine eval_inv (exec p env) (fun w => w.rmMounted = false) false clear (fun c hc w h => ?_) _ rfl
  have hq : ∀ q, c ≠ .rmAll q := by
    rintro q rfl
    simp [clear, removeOld, sources, Sh.cmds] at hc
  rw [exec_rmMounted p env hq, h]

/-- the shell once errexit is set -/
def begun (w : World) : St Cmd World := ⟨{ w with rmMounted := false }, true, true, .run, []⟩

theorem atTrap_eq (w : World) : atTrap p env w = eval (exec p env) false (.seq (block sources) removeOld) (begun w) :=
  eval_seq_eq (exec p env) false (.errexit true) (.seq (block sources) removeOld) (start Cmd _) rfl

/-- the first lines of the script change nothing -/
theorem sources_spec (s : St Cmd World) (hr : s.out = .run) (he : s.e = true) :
    ((eval (exec p env) false (block sources) s).out = .run ↔ ∀ c ∈ sources, env c = .ok) ∧
    ((eval (exec p env) false (block sources) s).out = .run →
      (eval (exec p env) false (block sources) s).e = true ∧ (eval (exec p env) false (block sources) s).w = s.w) := by
  have hst : ∀ c ∈ sources, ∀ w, exec p env c w = ((env c).stat, w) := by
    intro c hc w
    simp only [sources, List.mem_cons, List.not_mem_nil, or_false] at hc
    rcases hc with rfl | rfl | rfl | rfl <;> rw [exec_plain p env rfl] <;> simp [stat, badInput, puts]
  refine ⟨(eval_block_strict (fun c hc w => by rw [hst c hc]) s he hr).trans (forall₂_congr fun c _ => Resp.stat_ok), ?_⟩
  intro h
  obtain ⟨h1, h2, -⟩ := eval_block_run (exec p env) false _ s h
  rw [h1, h2]
  exact ⟨he, effect_inv (I := fun w => w = s.w) (fun c hc w hw => by rw [hst c hc]; exact hw) rfl⟩

theorem removeOld_spec (s : St Cmd World) (hr : s.out = .run) (he : s.e = true) :
    ((eval (exec p env) false removeOld s).out = .run ↔
      (s.w.sdcard.isSome → env .rmSdcard = .ok) ∧
        ∀ m, s.w.rootfs_dir = some m → m.any = false ∧ env .rmRootfsDir = .ok) ∧
    ((eval (exec p env) false removeOld s).out = .run →
      (eval (exec p env) false removeOld s).e = true ∧ (eval (exec p env) false removeOld s).w.rootfs_dir = none) := by
  obtain ⟨r1, e1, w1⟩ := eval_cond_strict (exec p env) (·.sdcard.isSome) .rmSdcard s he hr
  have hst : ∀ w, (exec p env .rmSdcard w).1 = (env .rmSdcard).stat ∧
      (exec p env .rmSdcard w).2.rootfs_dir = w.rootfs_dir := by
    intro w
    cases h : env .rmSdcard <;> simp [exec, h, stat, badInput, puts, Resp.stat]
  rw [(hst _).1, Resp.stat_ok] at r1
  by_cases h1 : (eval (exec p env) false (.cond (·.sdcard.isSome) (.cmd .rmSdcard) .tt) s).out = .run
  · have hd : (eval (exec p env) false (.cond (·.sdcard.isSome) (.cmd .rmSdcard) .tt) s).w.rootfs_dir = s.w.rootfs_dir := by
      rw [w1]
      split_ifs
      · exact (hst s.w).2
      · rfl
    rw [removeOld, eval_seq_eq _ _ _ _ s h1]
    replace r1 := r1.1 h1
    generalize eval (exec p env) false (.cond (·.sdcard.isSome) (.cmd .rmSdcard) .tt) s = t at *
    obtain ⟨r2, e2, w2⟩ := eval_cond_strict (exec p env) (·.rootfs_dir.isSome) .rmRootfsDir t e1 h1
    rw [r2]
    cases hm : t.w.rootfs_dir with
    | none =>
      rw [hd] at hm
      simp only [hd, hm] at w2 ⊢
      refine ⟨⟨fun _ => ⟨r1, by simp⟩, by simp⟩, fun _ => ⟨e2, ?_⟩⟩
      rw [w2]
      exact hd.trans hm
    | some m =>
      obtain ⟨d1, d2⟩ := rmDir_ok (r := env .rmRootfsDir) hm
      have hx : exec p env .rmRootfsDir t.w = rmDir (env .rmRootfsDir) t.w := rfl
      rw [hm] at hd
      simp only [← hd, hm, hx, Option.isSome_some, true_imp_iff, if_true, d1] at w2 ⊢
      refine ⟨⟨fun h => ⟨r1, fun m' hm' => Option.some.inj hm' ▸ h⟩, fun h => h.2 m rfl⟩, fun h => ⟨e2, ?_⟩⟩
      rw [w2, d2 (d1.2 h)]
  · rw [removeOld, eval_seq_stop _ _ _ _ s h1]
    exact ⟨⟨fun h => absurd h h1, fun h => absurd (r1.2 h.1) h1⟩, fun h => absurd h h1⟩

/-- **The script gets to its trap exactly where what an earlier call has left can be removed** -/
theorem clear_spec (w : World) :
    ((atTrap p env w).out = .run ↔ Cleared env w) ∧
      ((atTrap p env w).out = .run → (atTrap p env w).e = true ∧ (atTrap p env w).w.rootfs_dir = none) := by
  obtain ⟨b1, b2⟩ := sources_spec p env (begun w) rfl rfl
  rw [atTrap_eq]
  by_cases h : (eval (exec p env) false (block sources) (begun w)).out = .run
  · obtain ⟨he, hw⟩ := b2 h
    obtain ⟨c1, c2⟩ := removeOld_spec p env _ h he
    rw [hw] at c1
    refine ⟨?_, ?_⟩
    · rw [eval_seq_run]
      exact ⟨fun hx => ⟨b1.1 h, c1.1 hx.2⟩, fun hx => ⟨h, c1.2 hx.2⟩⟩
    · rw [eval_seq_eq _ _ _ _ _ h]
      exact c2
  · rw [eval_seq_stop _ _ _ _ _ h]
    exact ⟨⟨fun hx => absurd hx h, fun hx => absurd (b1.2 hx.1) h⟩, fun hx => absurd hx h⟩

/-! ### From the trap to `UMOUNT_ALL` -/

/-- a command of the setup that fails mounts nothing -/
theorem setup_bad {c : Cmd} (hc : c ∈ setup p) (hs : stat p env c ≠ .ok) (w : World) :
    (exec p env c w).2.rootfs_dir = w.rootfs_dir := by
  rcases mem_setup p hc with h | h
  · exact plain_rootfs_dir p env h w
  · have he : env c ≠ .ok := fun he => hs (by
      have hb : badInput p c = false := by
        simp only [List.mem_cons, List.not_mem_nil, or_false] at h
        rcases h with rfl | rfl | rfl | rfl | rfl <;> rfl
      simp [stat, hb, he, Resp.stat])
    simp only [List.mem_cons, List.not_mem_nil, or_false] at h
    rcases h with rfl | rfl | rfl | rfl | rfl <;> unfold exec <;> split <;>
      first | exact absurd ‹_› he | simp_all [puts]

theorem setup_rmMounted {l : List Cmd} (hl : ∀ c ∈ l, c ∈ setup p) (s : St Cmd World) (h : s.w.rmMounted = false) :
    (eval (exec p env) false (block l) s).w.rmMounted = false := by
  refine eval_inv (exec p env) (fun w => w.rmMounted = false) false _ (fun c hc w h => ?_) s h
  rw [cmds_block] at hc
  have hq : ∀ q, c ≠ .rmAll q := by
    rintro q rfl
    rcases mem_setup p (hl _ hc) with h | h
    · simp [Cmd.plain] at h
    · simp at h
  rw [exec_rmMounted p env hq, h]

theorem create_mem {c : Cmd} (hc : c ∈ createImage) : c ∈ setup p := by simp [setup, hc]

theorem unpack_mem {c : Cmd} (hc : c ∈ unpackRootfs p) : c ∈ setup p := by simp [setup, hc]

theorem install_mem {c : Cmd} (hc : c ∈ install p) : c ∈ setup p := by simp [setup, hc]

theorem createImage_out (s : St Cmd World) (hr : s.out = .run) (he : s.e = true) :
    (eval (exec p env) false (block createImage) s).out = outcome (stat p env) createImage :=
  eval_block_outcome (fun _ hc w => setup_stat p env (create_mem p hc) w) s he hr

theorem createImage_stop (s : St Cmd World) (hr : s.out = .run) (hd : s.w.rootfs_dir = none)
    (h : (eval (exec p env) false (block createImage) s).out ≠ .run) :
    Unmounted (eval (exec p env) false (block createImage) s).w := by
  refine eval_block_stop (fun _ hc w => setup_stat p env (create_mem p hc) w) (fun c hc w hw => ?_)
    (fun c hc hb w hw => ?_) s hr (fun m hm => by simp [hd] at hm) h
  · have hd : (exec p env c w).2.rootfs_dir = w.rootfs_dir ∨ (exec p env c w).2.rootfs_dir = some ⟨false, false⟩ := by
      have hcc : c.plain = true ∨ c = .truncateImg ∨ c = .losetup ∨ c = .mkdirRootfsDir := by
        revert c; decide
      rcases hcc with hp | rfl | rfl | rfl
      · exact Or.inl (plain_rootfs_dir p env hp w)
      · cases he : env .truncateImg <;> simp [exec, he, puts]
      · cases he : env .losetup <;> simp [exec, he, puts]
      · cases he : env .mkdirRootfsDir <;> simp [exec, he, puts]
    rcases hd with hd | hd <;> intro m hm <;> rw [hd] at hm
    · exact hw m hm
    · obtain rfl := Option.some.inj hm
      rfl
  · intro m hm
    rw [setup_bad p env (create_mem p hc) hb] at hm
    exact hw m hm

theorem unpackRootfs_out (s : St Cmd World) (hr : s.out = .run) (he : s.e = true) :
    (eval (exec p env) false (block (unpackRootfs p)) s).out = outcome (stat p env) (unpackRootfs p) :=
  eval_block_outcome (fun _ hc w => setup_stat p env (unpack_mem p hc) w) s he hr

theorem unpackRootfs_stop (s : St Cmd World) (hr : s.out = .run) {m : Mounts} (hd : s.w.rootfs_dir = some m)
    (h : (eval (exec p env) false (block (unpackRootfs p)) s).out ≠ .run) :
    (eval (exec p env) false (block (unpackRootfs p)) s).w.rootfs_dir = some m := by
  refine eval_block_stop (I := fun w => w.rootfs_dir = some m) (fun _ hc w => setup_stat p env (unpack_mem p hc) w)
    (fun c hc w hw => ?_) (fun c hc hb w hw => ?_) s hr hd h
  · rw [unpackRootfs, List.dropLast_concat] at hc
    exact (plain_rootfs_dir p env (unpackFiles_plain p hc).1 w).trans hw
  · exact (setup_bad p env (unpack_mem p hc) hb w).trans hw

theorem install_out (s : St Cmd World) (hr : s.out = .run) (he : s.e = true) :
    (eval (exec p env) false (block (install p)) s).out = outcome (stat p env) (install p) :=
  eval_block_outcome (fun _ hc w => setup_stat p env (install_mem p hc) w) s he hr

theorem install_rootfs_dir (s : St Cmd World) {m : Mounts} (hd : s.w.rootfs_dir = some m) :
    (eval (exec p env) false (block (install p)) s).w.rootfs_dir = some m :=
  eval_inv (exec p env) (fun w => w.rootfs_dir = some m) false _
    (fun c hc w hw => (plain_rootfs_dir p env (install_plain p (by simpa using hc)) w).trans hw) s hd

/-- what the setup leaves for `UMOUNT_ALL` -/
structure Ready (u : St Cmd World) : Prop where
  run : u.out = .run
  e : u.e = true
  dir : u.w.rootfs_dir = some ⟨true, true⟩
  device : u.w.device = true
  holds : Holds (setup p) u.w
  record : u.w.rmMounted = false

/-- where the setup has stopped -/
structure Broken (m : Option Mounts) (o : Out) (t : St Cmd World) : Prop where
  out : t.out = o
  dir : match m with
    | none => Unmounted t.w
    | some m => t.w.rootfs_dir = some m
  record : t.w.rmMounted = false

/-- the rest of the script after the setup -/
def finish : Sh Cmd World := .seq (UMOUNT_ALL .main) (writeOut p)

/-- **The setup, by where it stops** -/
theorem rest_spec (s : St Cmd World) (hr : s.out = .run) (he : s.e = true) (hd : s.w.rootfs_dir = none)
    (hm : s.w.rmMounted = false) :
    match cleanup p env with
    | some (.main, _) => ∃ u, Ready p u ∧ eval (exec p env) false (rest p) s = eval (exec p env) false (finish p) u
    | some (.trap, m) => Broken (some m) (.exit 1) (eval (exec p env) false (rest p) s)
    | none => (eval (exec p env) false (rest p) s).out = .killed ∧
        (eval (exec p env) false (rest p) s).w.rmMounted = false ∨
        Broken none (.exit 1) (eval (exec p env) false (rest p) s) := by
  have oA := createImage_out p env s hr he
  have mA := setup_rmMounted p env (fun c hc => create_mem p hc) s hm
  have uA := createImage_stop p env s hr hd
  have wA := eval_block_run (exec p env) false createImage s
  have hrest : rest p = .seq (block createImage) (.seq (block (unpackRootfs p)) (.seq (block (install p)) (finish p))) := rfl
  rw [hrest]
  by_cases hA : outcome (stat p env) createImage = .run
  swap
  · have hs : (eval (exec p env) false (block createImage) s).out ≠ .run := oA ▸ hA
    have hcl : cleanup p env = none := by
      unfold cleanup
      split
      · exact absurd ‹_› hA
      · rfl
    rw [hcl, eval_seq_stop _ _ _ _ s hs]
    rcases outcome_cases (stat p env) createImage with h | h | h
    · exact absurd h hA
    · exact Or.inr ⟨oA.trans h, uA hs, mA⟩
    · exact Or.inl ⟨oA.trans h, mA⟩
  rw [hA] at oA
  rw [eval_seq_eq _ _ _ _ s oA]
  obtain ⟨wA, eA, -⟩ := wA oA
  obtain ⟨dA, iA, vA⟩ := createImage_effect p env (w := s.w) (outcome_run.1 hA)
  rw [← wA] at dA iA vA
  rw [he] at eA
  have kA : Holds createImage (eval (exec p env) false (block createImage) s).w :=
    ⟨[], iA, fun c hc x hx => by
      have hn : ∀ c ∈ createImage, puts c = [] := by decide
      rwa [hn c hc] at hx⟩
  generalize eval (exec p env) false (block createImage) s = a at *
  have oB := unpackRootfs_out p env a oA eA
  have mB := setup_rmMounted p env (fun c hc => unpack_mem p hc) a mA
  have uB := unpackRootfs_stop p env a oA dA
  have wB := eval_block_run (exec p env) false (unpackRootfs p) a
  by_cases hB : outcome (stat p env) (unpackRootfs p) = .run
  swap
  · have hs : (eval (exec p env) false (block (unpackRootfs p)) a).out ≠ .run := oB ▸ hB
    rw [eval_seq_stop _ _ _ _ a hs]
    rcases outcome_cases (stat p env) (unpackRootfs p) with h | h | h
    · exact absurd h hB
    · rw [show cleanup p env = some (.trap, ⟨true, false⟩) by simp [cleanup, hA, h]]
      exact ⟨oB.trans h, uB hs, mB⟩
    · rw [show cleanup p env = none by simp [cleanup, hA, h]]
      exact Or.inl ⟨oB.trans h, mB⟩
  rw [hB] at oB
  rw [eval_seq_eq _ _ _ _ a oB]
  obtain ⟨wB, eB, -⟩ := wB oB
  obtain ⟨kB, dB, vB⟩ := unpackRootfs_effect p env (outcome_run.1 hB) dA kA
  rw [← wB] at kB dB vB
  rw [eA] at eB
  rw [vA] at vB
  generalize eval (exec p env) false (block (unpackRootfs p)) a = b at *
  have oC := install_out p env b oB eB
  have mC := setup_rmMounted p env (fun c hc => install_mem p hc) b mB
  have uC := install_rootfs_dir p env b dB
  have wC := eval_block_run (exec p env) false (install p) b
  by_cases hC : outcome (stat p env) (install p) = .run
  swap
  · have hs : (eval (exec p env) false (block (install p)) b).out ≠ .run := oC ▸ hC
    rw [eval_seq_stop _ _ _ _ b hs]
    rcases outcome_cases (stat p env) (install p) with h | h | h
    · exact absurd h hC
    · rw [show cleanup p env = some (.trap, ⟨true, true⟩) by simp [cleanup, hA, hB, h]]
      exact ⟨oC.trans h, uC, mC⟩
    · rw [show cleanup p env = none by simp [cleanup, hA, hB, h]]
      exact Or.inl ⟨oC.trans h, mC⟩
  rw [hC] at oC
  rw [eval_seq_eq _ _ _ _ b oC, show cleanup p env = some (.main, ⟨true, true⟩) by simp [cleanup, hA, hB, hC]]
  obtain ⟨wC, eC, -⟩ := wC oC
  obtain ⟨kC, dC, vC⟩ := install_effect p env (outcome_run.1 hC) dB kB
  rw [← wC] at kC vC
  exact ⟨_, ⟨oC, eC.trans eB, uC, vC.trans vB, kC, mC⟩, rfl⟩

/-! ### After `UMOUNT_ALL` -/

/-- the trap runs `UMOUNT_ALL` on what the shell has left; the status stays unless the run is killed in it -/
theorem trap_spec (t : St Cmd World) (ht : t.out ≠ .killed) :
    ((t.trap (eval (exec p env) false (UMOUNT_ALL .trap))).stat = .ok ↔
      (eval (exec p env) false (UMOUNT_ALL .trap) { t with out := .run }).out = .run ∧ t.code = 0) ∧
    (t.trap (eval (exec p env) false (UMOUNT_ALL .trap))).w =
      (eval (exec p env) false (UMOUNT_ALL .trap) { t with out := .run }).w := by
  have ho := (inside_loose p env .trap { t with out := .run } rfl).2
  rw [← umountAll_out p env .trap { t with out := .run } rfl] at ho
  rcases ho with ho | ho
  · rw [trap_run ht ho]
    refine ⟨?_, rfl⟩
    show (if t.code = 0 then Stat.ok else .fail) = .ok ↔ _
    simp [ho]
  · rw [trap_stop ht (by simp [ho])]
    simp [ho, St.stat]

/-- the `dd` calls of the bootloader under errexit -/
theorem dd_exec (d : WriteBootloader.DdCall) (w : World) :
    (exec p env (.dd d) w).1 = (env (.dd d)).stat ∧
      (d.opts.notrunc = true → (exec p env (.dd d) w).2 = w) ∧
      (exec p env (.dd d) w).2.rootfs_dir = w.rootfs_dir ∧ (exec p env (.dd d) w).2.rmMounted = w.rmMounted ∧
      (exec p env (.dd d) w).2.device = w.device ∧
      ((exec p env (.dd d) w).2.sdcard.isSome = w.sdcard.isSome) := by
  cases h : env (.dd d) <;> cases hn : d.opts.notrunc <;> simp [exec, h, hn, Resp.stat]
  all_goals split_ifs <;> simp

theorem writeOut_stat {c : Cmd} (hc : c ∈ write_bootloader p ++ [.cdXz, .pixz]) (w : World) :
    (exec p env c w).1 = (env c).stat := by
  simp only [write_bootloader, List.mem_append, List.mem_map, List.mem_cons, List.not_mem_nil, or_false] at hc
  rcases hc with ⟨d, -, rfl⟩ | rfl | rfl
  · exact (dd_exec p env d w).1
  · rw [exec_plain p env rfl]; simp [stat, badInput]
  · cases h : env .pixz <;> simp [exec, h, stat, badInput, Resp.stat]

/-- what these commands do not touch -/
structure Beside (v w : World) : Prop where
  rootfs_dir : w.rootfs_dir = v.rootfs_dir
  record : w.rmMounted = v.rmMounted
  device : w.device = v.device
  sdcard : w.sdcard.isSome = v.sdcard.isSome

theorem writeOut_beside {c : Cmd} (hc : c ∈ write_bootloader p ++ [.cdXz, .pixz]) {v w : World} (h : Beside v w) :
    Beside v (exec p env c w).2 := by
  simp only [write_bootloader, List.mem_append, List.mem_map, List.mem_cons, List.not_mem_nil, or_false] at hc
  rcases hc with ⟨d, -, rfl⟩ | rfl | rfl
  · obtain ⟨-, -, h1, h2, h3, h4⟩ := dd_exec p env d w
    exact ⟨h1.trans h.rootfs_dir, h2.trans h.record, h3.trans h.device, h4.trans h.sdcard⟩
  · rw [exec_plain p env rfl]
    simpa [puts] using h
  · cases he : env .pixz <;> simpa [exec, he, puts] using ⟨h.rootfs_dir, h.record, h.device, h.sdcard⟩

/-- what the `dd` calls leave of the partitions: without `conv=notrunc` the image is cut below them -/
theorem dds_sdcard {w : World} (hok : ∀ c ∈ write_bootloader p, env c = .ok) (hs : w.sdcard.isSome) :
    (effect (exec p env) (write_bootloader p) w).sdcard =
      if p.board.BL_CONFIG = .sunxiUboot then some [] else w.sdcard := by
  obtain ⟨img, hi⟩ := Option.isSome_iff_exists.1 hs
  simp only [write_bootloader] at hok ⊢
  cases hb : p.board.BL_CONFIG <;> simp [hb, WriteBootloader.write_bootloader] at hok ⊢ <;> simp [exec, hok, hi]

/-- there is an image, so `xz_image` does not give up -/
theorem writeOut_eq (v : St Cmd World) (hr : v.out = .run) (hs : v.w.sdcard.isSome) :
    eval (exec p env) false (writeOut p) v = eval (exec p env) false (block (writeOutCmds p)) v := by
  have hb : ∀ l, (∀ c ∈ l, c ∈ write_bootloader p ++ [.cdXz, .pixz]) → ∀ s : St Cmd World, s.w.sdcard.isSome →
      (eval (exec p env) false (block l) s).w.sdcard.isSome := fun l hl s hs => by
    have h := eval_inv (exec p env) (Beside s.w) false (block l)
      (fun c hc w hw => writeOut_beside p env (hl c (by simpa using hc)) hw) s ⟨rfl, rfl, rfl, rfl⟩
    rw [h.sdcard]
    exact hs
  have hD := hb (write_bootloader p) (fun _ => List.mem_append_left _) v hs
  rw [writeOutCmds, eval_block_append _ _ _ _ _ hr]
  by_cases hd : (eval (exec p env) false (block (write_bootloader p)) v).out = .run
  · rw [writeOut, eval_seq_eq _ _ _ _ v hd, next_run hd]
    generalize eval (exec p env) false (block (write_bootloader p)) v = d at *
    have hX := hb [.cdXz] (by simp) d hD
    rw [show [Cmd.cdXz, .pixz] = [.cdXz] ++ [.pixz] from rfl, eval_block_append _ _ _ _ d hd]
    by_cases hx : (eval (exec p env) false (block [.cdXz]) d).out = .run
    · rw [xz_image, eval_seq_eq _ _ _ _ d hx, next_run hx]
      generalize eval (exec p env) false (block [.cdXz]) d = x at *
      rw [eval, if_pos hX, eval_block_one]
      rfl
    · rw [xz_image, eval_seq_stop _ _ _ _ d hx, next_stop hx]
  · rw [writeOut, eval_seq_stop _ _ _ _ v hd, next_stop hd]

/-- **After the image is complete**: `writeOut` gets through iff every command succeeds -/
theorem writeOut_spec (v : St Cmd World) (hr : v.out = .run) (he : v.e = true) (hs : v.w.sdcard.isSome) :
    ((eval (exec p env) false (writeOut p) v).out = .run ↔ ∀ c ∈ writeOutCmds p, env c = .ok) ∧
      ((eval (exec p env) false (writeOut p) v).out ≠ .run →
        (eval (exec p env) false (writeOut p) v).out = .exit 1 ∨ (eval (exec p env) false (writeOut p) v).out = .killed) ∧
      ((eval (exec p env) false (writeOut p) v).out = .run → (eval (exec p env) false (writeOut p) v).ok = true ∧
        (eval (exec p env) false (writeOut p) v).w.sdcard =
          if p.board.BL_CONFIG = .sunxiUboot then some [] else v.w.sdcard) ∧
      Beside v.w (eval (exec p env) false (writeOut p) v).w := by
  have hst : ∀ c ∈ writeOutCmds p, ∀ w, (exec p env c w).1 = (env c).stat := fun c hc w => writeOut_stat p env hc w
  have hiff := (eval_block_strict hst v he hr).trans (forall₂_congr fun c _ => Resp.stat_ok)
  have ho := eval_block_outcome hst v he hr
  rw [writeOut_eq p env v hr hs]
  refine ⟨hiff, fun h => ?_, fun h => ⟨?_, ?_⟩, ?_⟩
  · rw [ho] at h ⊢
    exact (outcome_cases _ _).resolve_left h
  · obtain ⟨c, l, hl⟩ := List.exists_cons_of_ne_nil (l := writeOutCmds p) (by simp [writeOutCmds])
    rw [hl] at h ⊢
    exact eval_block_ok _ c l v he h
  · have hok := hiff.1 h
    obtain ⟨hw, -, -⟩ := eval_block_run (exec p env) false _ v h
    have hp : env .pixz = .ok := hok _ (by simp [writeOutCmds])
    have hd := dds_sdcard p env (fun c hc => hok c (List.mem_append_left _ hc)) hs
    rw [hw, writeOutCmds, effect_append, effect_cons, effect_cons, effect_nil, exec_plain p env (c := .cdXz) rfl]
    simpa [exec, hp, puts] using hd
  · exact eval_inv (exec p env) (Beside v.w) false (block (writeOutCmds p))
      (fun c hc w hw => writeOut_beside p env (by simpa [writeOutCmds] using hc) hw) v ⟨rfl, rfl, rfl, rfl⟩

/-! ## The image survives -/

/-- the condition of `pack_safe_iff` -/
def SafeWhen (w : World) : Prop :=
  ¬ Cleared env w ∨
    match cleanup p env with
    | none => True
    | some (q, m) => UmountsOk env q m ∧ (q = .main → p.board.BL_CONFIG = .sunxiUboot → ¬ Finishes p env)

theorem pack_eq (w : World) :
    pack p env w = (atTrap p env w).next fun s =>
      (eval (exec p env) false (rest p) s).trap (eval (exec p env) false (UMOUNT_ALL .trap)) := rfl

/-- the script stops before its trap: nothing has happened to an image yet -/
theorem safe_of_not_cleared {w : World} (h : ¬ Cleared env w) : PackSafe p env w := by
  have hr : (atTrap p env w).out ≠ .run := fun hr => h ((clear_spec p env w).1.1 hr)
  have h0 : (atTrap p env w).out ≠ .exit 0 :=
    eval_failing (exec p env) false clear rfl (start Cmd { w with rmMounted := false }) (by simp [start])
  have hs : (pack p env w).stat ≠ .ok := by
    rw [pack_eq, next_stop hr]
    exact stat_of_stop hr h0
  refine ⟨fun h => absurd h hs, ?_⟩
  rw [pack_eq, next_stop hr]
  exact clear_rmMounted p env w

/-- a setup that stops is taken down by the trap -/
theorem safe_of_broken {t : St Cmd World} {m : Mounts} (h : Broken (some m) (.exit 1) t) :
    (t.trap (eval (exec p env) false (UMOUNT_ALL .trap))).stat ≠ .ok ∧
      ((t.trap (eval (exec p env) false (UMOUNT_ALL .trap))).w.rmMounted = false ↔ UmountsOk env .trap m) := by
  obtain ⟨h1, h2⟩ := trap_spec p env t (by simp [h.out])
  refine ⟨fun hs => by simpa [St.code, h.out] using (h1.1 hs).2, ?_⟩
  rw [h2]
  by_cases hu : UmountsOk env .trap m
  · simpa [hu, h.record] using (umountAll_ok p env (s := { t with out := .run }) rfl h.dir hu).1
  · simpa [hu] using umountAll_busy p env (s := { t with out := .run }) rfl h.dir hu

theorem safe_of_unmounted {t : St Cmd World} (h : Broken none (.exit 1) t) :
    (t.trap (eval (exec p env) false (UMOUNT_ALL .trap))).stat ≠ .ok ∧
      (t.trap (eval (exec p env) false (UMOUNT_ALL .trap))).w.rmMounted = false := by
  obtain ⟨h1, h2⟩ := trap_spec p env t (by simp [h.out])
  refine ⟨fun hs => by simpa [St.code, h.out] using (h1.1 hs).2, ?_⟩
  rw [h2]
  exact (umountAll_calm p env .trap { t with out := .run } ⟨h.dir, rfl, h.record⟩).record

/-- the end of a run whose setup has come through -/
abbrev ended (u : St Cmd World) : St Cmd World :=
  (eval (exec p env) false (finish p) u).trap (eval (exec p env) false (UMOUNT_ALL .trap))

/-- an `umount` fails: the record stays to the end -/
theorem ended_busy {u : St Cmd World} (h : Ready p u) (hu : ¬ UmountsOk env .main ⟨true, true⟩) :
    (ended p env u).w.rmMounted = true := by
  have hI : ∀ (a : Sh Cmd World) (s : St Cmd World), s.w.rmMounted = true →
      (eval (exec p env) false a s).w.rmMounted = true := fun a s hs =>
    eval_inv (exec p env) (fun w => w.rmMounted = true) false a (fun _ _ _ h => rmMounted_mono p env h) s hs
  have h1 := umountAll_busy p env h.run h.dir hu
  have h2 : (eval (exec p env) false (finish p) u).w.rmMounted = true :=
    next_w (I := fun w : World => w.rmMounted = true) h1 fun _ => hI _ _ h1
  exact trap_w (I := fun w : World => w.rmMounted = true) h2 fun _ => hI _ _ h2

/-- a file of the setup: an image without files does not hold it -/
theorem kept_ne_nil {w : World} (h : Kept p w) : w.sdcard ≠ some [] := by
  obtain ⟨img, hi, hx⟩ := h
  intro hn
  obtain rfl := Option.some.inj (hi.symm.trans hn)
  exact absurd (hx .cpFirmware (by simp [setup, install]) (.root, .firmware) (by simp [puts])) (by simp)

/-- the run is killed in `UMOUNT_ALL`: it ends there -/
theorem ended_killed {u : St Cmd World} (hk : (eval (exec p env) false (UMOUNT_ALL .main) u).out = .killed) :
    (ended p env u).stat ≠ .ok ∧ (ended p env u).w = (eval (exec p env) false (UMOUNT_ALL .main) u).w := by
  have hf : eval (exec p env) false (finish p) u = eval (exec p env) false (UMOUNT_ALL .main) u :=
    eval_seq_stop _ _ _ _ u (by simp [hk])
  rw [ended, hf, trap_killed hk]
  simp [St.stat, hk]

/-- what `UMOUNT_ALL` hands on to the end of the script -/
structure Unhooked (img : Option Image) (v : St Cmd World) : Prop where
  run : v.out = .run
  e : v.e = true
  calm : Calm img false v.w
  device : v.w.device = false
  dir : v.w.rootfs_dir.isSome ↔ env (.rmAll .main) ≠ .ok

/-- the end of the script and the trap after it -/
theorem unhooked_end {img : Image} {v : St Cmd World} (h : Unhooked env (some img) v) :
    let t := (eval (exec p env) false (writeOut p) v).trap (eval (exec p env) false (UMOUNT_ALL .trap))
    t.w.rmMounted = false ∧
      (t.stat = .ok ↔ (∀ c ∈ writeOutCmds p, env c = .ok) ∧
        (env (.rmAll .main) = .ok ∨ (env (.rmAll .trap)).stat ≠ .killed)) ∧
      (t.stat = .ok → t.w.sdcard = if p.board.BL_CONFIG = .sunxiUboot then some [] else some img) := by
  obtain ⟨w1, w2, w3, w4⟩ := writeOut_spec p env v h.run h.e (by rw [h.calm.sdcard]; rfl)
  have hcalm : Calm (eval (exec p env) false (writeOut p) v).w.sdcard false (eval (exec p env) false (writeOut p) v).w :=
    ⟨fun m hm => h.calm.unmounted m (w4.rootfs_dir ▸ hm), rfl, w4.record.trans h.calm.record⟩
  have hdir := w4.rootfs_dir
  have hdev := w4.device.trans h.device
  generalize eval (exec p env) false (writeOut p) v = t at *
  intro r
  by_cases hk : t.out = .killed
  · have hr : r = t := trap_killed hk _
    have hne : t.out ≠ .run := by simp [hk]
    rw [hr]
    refine ⟨hcalm.record, ⟨fun hs => by simp [St.stat, hk] at hs, fun hs => absurd (w1.2 hs.1) hne⟩, fun hs => ?_⟩
    simp [St.stat, hk] at hs
  obtain ⟨s1, s2⟩ := trap_spec p env t hk
  have hc := umountAll_calm p env .trap { t with out := .run } hcalm
  rw [← s2] at hc
  refine ⟨hc.record, ?_, fun hs => ?_⟩
  · rw [s1]
    by_cases hrun : t.out = .run
    · have hclean : ∀ m, t.w.rootfs_dir = some m → Clean env .trap m := fun m hm => by
        have hm := hcalm.unmounted m hm
        simp only [Mounts.any, Bool.or_eq_false_iff] at hm
        exact ⟨fun hb => by simp [hm.2] at hb, fun hb => by simp [hm.1] at hb⟩
      obtain ⟨u1, -⟩ := umountAll_clean p env .trap { t with out := .run } rfl hclean
      have hcode : t.code = 0 := by simp [St.code, hrun, (w3 hrun).1]
      rw [u1]
      simp only [hdev, Bool.false_eq_true, false_imp_iff, and_true, hcode, hdir, h.dir]
      exact (imp_iff_not_or.trans (or_congr_left not_not)).trans (and_iff_right (w1.1 hrun)).symm
    · have hcode : t.code ≠ 0 := by
        rcases w2 hrun with ho | ho
        · simp [St.code, ho]
        · exact absurd ho hk
      exact ⟨fun hs => absurd hs.2 hcode, fun hs => absurd (w1.2 hs.1) hrun⟩
  · have hrun : t.out = .run := by
      by_contra hrun
      rcases w2 hrun with ho | ho
      · exact absurd (s1.1 hs).2 (by simp [St.code, ho])
      · exact hk ho
    rw [hc.sdcard, (w3 hrun).2, h.calm.sdcard]

theorem ended_ok {u : St Cmd World} (h : Ready p u) (hu : UmountsOk env .main ⟨true, true⟩) :
    (ended p env u).w.rmMounted = false ∧ ((ended p env u).stat = .ok ↔ Finishes p env) ∧
      ((ended p env u).stat = .ok →
        (ended p env u).w.sdcard = if p.board.BL_CONFIG = .sunxiUboot then some [] else u.w.sdcard) := by
  obtain ⟨hrm, hcalm⟩ := umountAll_ok p env h.run h.dir hu
  rw [h.record] at hrm hcalm
  obtain ⟨img, hi, -⟩ := h.holds
  by_cases hrun : (eval (exec p env) false (UMOUNT_ALL .main) u).out = .run
  · have hc := hcalm.resolve_left (by simp [hrun])
    have hclean : Clean env .main ⟨true, true⟩ := by
      refine hu.resolve_right fun hk => ?_
      have hk := (umounts_spec p env .main { u with e := false, ok := true } h.run rfl h.dir).1 hk
      rw [umountAll_out p env .main u h.run, inside, eval_seq_stop _ _ _ _ _ (by simp [hk.1]), hk.1] at hrun
      simp at hrun
    obtain ⟨c1, c2⟩ := umountAll_clean p env .main u h.run fun m hm => by
      obtain rfl := Option.some.inj (h.dir.symm.trans hm)
      exact hclean
    have hun : Unhooked env (some img) (eval (exec p env) false (UMOUNT_ALL .main) u) := by
      refine ⟨hrun, umountAll_e p env .main u h.run hrun, hi ▸ hc, (c2 hrun).1, ?_⟩
      rw [(c2 hrun).2, h.dir]
      simp
    have hf : eval (exec p env) false (finish p) u =
        eval (exec p env) false (writeOut p) (eval (exec p env) false (UMOUNT_ALL .main) u) :=
      eval_seq_eq _ _ _ _ u hrun
    obtain ⟨e1, e2, e3⟩ := unhooked_end p env hun
    rw [ended, hf, hi]
    refine ⟨e1, e2.trans ?_, e3⟩
    have hmain := c1.1 hrun
    rw [h.dir, h.device] at hmain
    have hkills : ∀ c ∈ [Cmd.umountBoot .main, .umountRoot .main, .rmAll .main, .kpartxDel .main, .losetupDel .main,
        .clearDevice .main], (env c).stat ≠ .killed := by
      have hb : (env (.umountBoot .main)).stat ≠ .killed := by rw [hclean.1 rfl]; simp [Resp.stat]
      have ho : (env (.umountRoot .main)).stat ≠ .killed := by rw [hclean.2 rfl]; simp [Resp.stat]
      simpa [hb, ho] using hmain
    exact ⟨fun hx => ⟨hkills, hx⟩, fun hx => hx.2⟩
  · have hk : (eval (exec p env) false (UMOUNT_ALL .main) u).out = .killed := by
      rw [umountAll_out p env .main u h.run] at hrun ⊢
      exact (inside_loose p env .main u h.run).2.resolve_left hrun
    obtain ⟨e1, e2⟩ := ended_killed p env hk
    refine ⟨by rw [e2, hrm], ⟨fun hs => absurd hs e1, fun hs => ?_⟩, fun hs => absurd hs e1⟩
    rcases hu with hcl | hki
    · obtain ⟨c1, -⟩ := umountAll_clean p env .main u h.run fun m hm => by
        obtain rfl := Option.some.inj (h.dir.symm.trans hm)
        exact hcl
      refine absurd (c1.2 ⟨fun _ => hs.1 _ (by simp), fun _ c hc => hs.1 c ?_⟩) hrun
      simp only [List.mem_cons, List.not_mem_nil, or_false] at hc ⊢
      tauto
    · rcases hki with ⟨-, hki⟩ | ⟨-, hki⟩
      · exact absurd hki (hs.1 _ (by simp))
      · exact absurd hki (hs.1 _ (by simp))

/-- **The image survives exactly when the `umount`s of the first `UMOUNT_ALL` succeed, and the bootloader is not the
truncating `dd`**: the other outcomes of a run with status 0 leave an image without its files -/
theorem pack_safe_iff (w : World) : PackSafe p env w ↔ SafeWhen p env w := by
  by_cases hc : Cleared env w
  swap
  · exact ⟨fun _ => Or.inl hc, fun _ => safe_of_not_cleared p env hc⟩
  have hr := (clear_spec p env w).1.2 hc
  obtain ⟨he, hd⟩ := (clear_spec p env w).2 hr
  have hm := clear_rmMounted p env w
  have hrest := rest_spec p env _ hr he hd hm
  have hp : pack p env w = (eval (exec p env) false (rest p) (atTrap p env w)).trap
      (eval (exec p env) false (UMOUNT_ALL .trap)) := by rw [pack_eq, next_run hr]
  have hsafe : ∀ t : St Cmd World, pack p env w = t → t.stat ≠ .ok → (PackSafe p env w ↔ t.w.rmMounted = false) := by
    rintro t rfl hs
    exact ⟨fun h => h.unmounted, fun h => ⟨fun h' => absurd h' hs, h⟩⟩
  rw [SafeWhen, or_iff_right (not_not.2 hc)]
  match hcl : cleanup p env with
  | none =>
    rw [hcl] at hrest
    rcases hrest with ⟨ho, hrm⟩ | hb
    · rw [trap_killed ho] at hp
      rw [hsafe _ hp (by simp [St.stat, ho])]
      simp [hrm]
    · obtain ⟨h1, h2⟩ := safe_of_unmounted p env hb
      rw [hsafe _ hp h1]
      simp [h2]
  | some (.trap, m) =>
    rw [hcl] at hrest
    obtain ⟨h1, h2⟩ := safe_of_broken p env hrest
    rw [hsafe _ hp h1, h2]
    simp
  | some (.main, m) =>
    have hmm : m = ⟨true, true⟩ := by
      revert hcl
      unfold cleanup
      split
      · split
        · split <;> simp +contextual [eq_comm]
        · simp
        · simp
      · simp
    subst hmm
    rw [hcl] at hrest
    obtain ⟨u, hu, hfin⟩ := hrest
    rw [hfin] at hp
    replace hp : pack p env w = ended p env u := hp
    by_cases huo : UmountsOk env .main ⟨true, true⟩
    · obtain ⟨h1, h2, h3⟩ := ended_ok p env hu huo
      rw [← hp] at h1 h2 h3
      simp only [huo, true_and, true_imp_iff]
      constructor
      · intro hsafe hb hfin
        have hs := h2.2 hfin
        refine kept_ne_nil p (hsafe.kept hs) ?_
        rw [h3 hs, if_pos hb]
      · intro hb
        refine ⟨fun hs => ?_, h1⟩
        have hne : p.board.BL_CONFIG ≠ .sunxiUboot := fun hx => hb hx (h2.1 hs)
        obtain ⟨img, hi, hx⟩ := hu.holds
        exact ⟨img, by rw [h3 hs, if_neg hne, hi], hx⟩
    · have hrm := ended_busy p env hu huo
      rw [← hp] at hrm
      simp only [huo, false_and, iff_false]
      intro hsafe
      rw [hsafe.unmounted] at hrm
      simp at hrm

/-! ## A busy mount -/

/-- packing for the A1 in a workspace with its archive and its packages -/
def a1 : Params := ⟨.avaotaA1, .jammy, .cli, true, true, true, true⟩

def empty : World := ⟨none, none, none, false, false⟩

/-- a process started in the chroot keeps the root file system busy; everything else succeeds -/
def busy (c : Cmd) : Resp := if c = .umountRoot .main then .fail false else .ok

/-- **One failing `umount` empties the image, and the script reports success** -/
theorem busy_root_empties_image :
    ¬ PackSafe a1 busy empty ∧ (pack a1 busy empty).stat = .ok ∧ (pack a1 busy empty).w.rmMounted = true ∧
      (pack a1 busy empty).w.sdcard = some [(.boot, .kernel), (.boot, .bootloader)] := by
  have hs : (pack a1 busy empty).stat = .ok := by decide
  have hr : (pack a1 busy empty).w.rmMounted = true := by decide
  refine ⟨fun h => ?_, hs, hr, by decide⟩
  rw [h.unmounted] at hr
  simp at hr

end AvaotaOS.Pack
