/-
Which workspaces of `build_all.sh` can still get a root file system, when any run may fail or be killed at any command.

The test for the archive only asks whether a file is there, `tar` writes that file in place, and `mkrootfs.sh` is started
behind `mkdir ${ROOTFS} &&`, which fails for good once an earlier run has left that directory.

- `runs_lost`: a workspace that is `Dead` for a distribution and desktop stays so, whatever is run in it; `never_released`:
  nothing is released for them any more, unless `tar` takes an archive that another `tar` has not come to the end of.
- `recoverable_iff`: repeating a run in which nothing fails packs a complete archive exactly where the workspace is `Live`.
- `releases_whole`: in every history of failing and killed runs each release was packed from an archive of a tree that went
  through all of its setup, and from a complete one if `tar` takes no other.
-/
import Mathlib.Tactic
import AvaotaOS.Build.RootfsStage
import AvaotaOS.Build.KernelCache

namespace AvaotaOS.BuildAll

open Shell History

/-! ## Dead and live workspaces -/

/-- no run will complete an archive for this key -/
inductive Dead (k : MkRootfs.Key) (v : MkRootfs.World) : Prop where
  /-- `tar` broke off, and the file is taken for the archive -/
  | cut (a : MkRootfs.Archive) (ha : v.archive k = some a) (hc : a.complete = false)
  /-- `mkdir ${ROOTFS}` fails, and `mkrootfs.sh` is skipped -/
  | blocked (ha : v.archive k = none) (hn : v.rootfs ≠ none)
  /-- `mv` fails: the renamed tree holds another one -/
  | nested (ha : v.archive k = none) (d t : MkRootfs.Tree) (hd : v.renamed k = some ⟨d, some t⟩)

/-- the archive is there, or nothing stands in the way of making it -/
inductive Live (k : MkRootfs.Key) (v : MkRootfs.World) : Prop where
  | made (h : MkRootfs.Complete k v)
  | free (ha : v.archive k = none) (hn : v.rootfs = none) (hd : ∀ d, v.renamed k = some d → d.nested = none)

theorem live_iff {k : MkRootfs.Key} {v : MkRootfs.World} : Live k v ↔ ¬ Dead k v := by
  constructor
  · rintro (⟨a, ha, hc⟩ | ⟨ha, hn, hd⟩) (⟨b, hb, hb0⟩ | ⟨hb, hn'⟩ | ⟨hb, d, t, hd'⟩)
    · simp_all
    · simp_all
    · simp_all
    · simp_all
    · simp_all
    · simpa using hd _ hd'
  · intro h
    cases ha : v.archive k with
    | some a =>
      cases hc : a.complete with
      | true => exact .made ⟨a, ha, hc⟩
      | false => exact absurd (.cut a ha hc) h
    | none =>
      refine .free ha ?_ fun d hd => ?_
      · by_contra hn
        exact h (.blocked ha hn)
      · obtain ⟨d, n⟩ := d
        cases n with
        | none => rfl
        | some t => exact absurd (.nested ha d t hd) h

section Run

variable (r : Request) (env : Env)

/-! ## Dead stays dead -/

/-- **One run**, wherever it stops; where there is no archive there is none afterwards -/
theorem staged_dead {k : MkRootfs.Key} {v u : MkRootfs.World} (hs : Staged r env v u) (h : Dead k v) :
    Dead k u ∧ (v.archive k = none → u.archive k = none) := by
  cases hs with
  | same => exact ⟨h, id⟩
  | opened ha hn =>
    refine ⟨?_, id⟩
    cases h with
    | cut a h1 h2 => exact .cut a h1 h2
    | blocked h1 h2 => exact absurd hn h2
    | nested h1 d t h2 => exact .nested h1 d t h2
  | called ha hn =>
    by_cases hk : k = r.rootfsParams.key
    · subst hk
      cases h with
      | cut a h1 _ => exact absurd (ha.symm.trans h1) (by simp)
      | blocked _ h2 => exact absurd hn h2
      | nested h1 d t h2 =>
        -- its own `mv` fails
        have hfull : ¬ ∀ e, (mkdirred v).renamed r.rootfsParams.key = some e → e.nested = none :=
          fun h => absurd (h _ h2) (by simp)
        cases MkRootfs.mkrootfs_left r.rootfsParams env.rootfs (mkdirred v) with
        | before hb =>
          have hnone := (congrFun hb.archive r.rootfsParams.key).trans h1
          exact ⟨.nested hnone d t (by rw [hb.renamed]; exact h2), fun _ => hnone⟩
        | moved x hm _ => exact absurd hm.room hfull
        | tarred x b hm _ => exact absurd hm.room hfull
        | removed x hm => exact absurd hm.room hfull
    · -- the call is for another archive
      obtain ⟨e1, e2⟩ := MkRootfs.mkrootfs_other r.rootfsParams env.rootfs (mkdirred v) hk
      refine ⟨?_, e1.trans⟩
      cases h with
      | cut a h1 h2 => exact .cut a (e1.trans h1) h2
      | blocked _ h2 => exact absurd hn h2
      | nested h1 d t h2 => exact .nested (e1.trans h1) d t (e2.trans h2)

theorem Dead.incomplete {k : MkRootfs.Key} {v : MkRootfs.World} (h : Dead k v) {a : MkRootfs.Archive}
    (ha : v.archive k = some a) : a.complete = false := by
  by_contra hc
  exact (live_iff.1 (.made ⟨a, ha, by simpa using hc⟩)) h

/-- in a run for the key `tar` takes an archive that is not complete -/
def Request.Takes (k : MkRootfs.Key) : Prop := r.key = k ∧ r.cutTaken = true

/-- what runs add to a workspace that is dead for `k`; `taken` says that one of them may take a cut archive -/
structure Lost (k : MkRootfs.Key) (taken : Prop) (v w : Workspace) : Prop where
  dead : Dead k w.rootfs
  missing : v.rootfs.archive k = none → w.rootfs.archive k = none
  packings : ∃ new, w.packings = v.packings ++ new ∧
    ∀ q ∈ new, (q.version, q.type) = k → ∀ a, q.archive = some a → a.complete = false
  releases : v.rootfs.archive k = none ∨ ¬ taken → ∃ new, w.releases = v.releases ++ new ∧ ∀ x ∈ new, (x.version, x.type) ≠ k

theorem Lost.refl {k : MkRootfs.Key} {taken : Prop} {w : Workspace} (h : Dead k w.rootfs) : Lost k taken w w :=
  ⟨h, id, ⟨[], by simp, by simp⟩, fun _ => ⟨[], by simp, by simp⟩⟩

theorem build_all_lost {k : MkRootfs.Key} {taken : Prop} (hr : r.Takes k → taken) {v w : Workspace} (h : Lost k taken v w) :
    Lost k taken v (build_all r env w).w := by
  obtain ⟨hstage, hship⟩ := build_all_step r env w
  obtain ⟨hdead, hnone⟩ := staged_dead r env hstage h.dead
  obtain ⟨ps, hps, hpk⟩ := h.packings
  have hmissing := fun hv => hnone (h.missing hv)
  have hnew : ∀ q, PacksFrom r (build_all r env w).w.rootfs q → ∀ x ∈ ps ++ [q], (x.version, x.type) = k →
      ∀ a, x.archive = some a → a.complete = false := by
    intro q hq x hx hxk a ha
    rcases List.mem_append.1 hx with hx | hx
    · exact hpk x hx hxk a ha
    · rw [List.mem_singleton] at hx
      subst hx
      have hkey : r.key = k := by
        rw [← hxk, hq.version, hq.type]
        rfl
      rw [hq.archive, hkey] at ha
      exact hdead.incomplete ha
  cases hship with
  | nothing h1 h2 =>
    refine ⟨hdead, hmissing, ⟨ps, h1.trans hps, hpk⟩, fun hv => ?_⟩
    obtain ⟨rs, hrs, hrk⟩ := h.releases hv
    exact ⟨rs, h2.trans hrs, hrk⟩
  | packed q hq h1 h2 =>
    refine ⟨hdead, hmissing, ⟨ps ++ [q], by rw [h1, hps, List.append_assoc], hnew q hq⟩, fun hv => ?_⟩
    obtain ⟨rs, hrs, hrk⟩ := h.releases hv
    exact ⟨rs, h2.trans hrs, hrk⟩
  | released q hq hready h1 img h2 =>
    refine ⟨hdead, hmissing, ⟨ps ++ [q], by rw [h1, hps, List.append_assoc], hnew q hq⟩, fun hv => ?_⟩
    obtain ⟨rs, hrs, hrk⟩ := h.releases hv
    refine ⟨rs ++ [_], by rw [h2, hrs, List.append_assoc], ?_⟩
    intro x hx
    rcases List.mem_append.1 hx with hx | hx
    · exact hrk x hx
    · -- the release is not one of the key: its archive is not there, or `tar` does not take it
      rw [List.mem_singleton] at hx
      subst hx
      rintro rfl
      obtain ⟨a, ha, hc⟩ := hready
      obtain hv | hv := hv
      · exact absurd ((hmissing hv).symm.trans ha) (by simp)
      · obtain hc | hc := hc
        · exact absurd (hdead.incomplete ha) (by simp [hc])
        · exact hv (hr ⟨rfl, hc⟩)

end Run

/-- **A dead workspace stays dead**, whatever is run in it, and whatever fails or is killed -/
theorem runs_lost {k : MkRootfs.Key} {taken : Prop} {w : Workspace} (h : Dead k w.rootfs) (l : List Call)
    (hl : ∀ c ∈ l, c.request.Takes k → taken) : Lost k taken w (runs step w l) := by
  apply runs_inv (I := Lost k taken w) (P := fun _ c => c.request.Takes k → taken) ?_ (Lost.refl h) (each_of_forall hl)
  intro u c hu hc
  exact build_all_lost c.request c.env hc hu

/-! ## Live workspaces recover -/

section Works

variable {r : Request} {w : Workspace}

/-- where nothing fails a run with a source tree gets past the kernel -/
theorem works_kernelOk (hu : r.useLocal = false) : KernelOk r works w := by
  refine ⟨fun _ _ => rfl, fun _ => ⟨rfl, ?_⟩⟩
  have hlinux : (afterFront r w).kernel.linux = true := by
    simp only [afterFront, hu, Bool.false_eq_true, if_false, fetched]
    split
    · rfl
    · rename_i h
      simp only [Bool.or_eq_true, Bool.not_eq_true', not_or, Bool.not_eq_false] at h
      exact h.2
  apply (MkLinux.done_iff _ _ _).2
  rintro (h | ⟨c, -, h⟩ | h | ⟨-, h⟩)
  · exact absurd (hlinux.symm.trans h) (by simp)
  · rcases h with h | ⟨-, h⟩
    · exact absurd h (by simp [works, Resp.stat])
    · exact absurd rfl h
  · exact absurd rfl h
  · exact absurd rfl h

/-- the shell at its rootfs stage, where nothing fails -/
theorem works_atRootfs (hu : r.useLocal = false) :
    (atRootfs r works w).out = .run ∧ (atRootfs r works w).e = true ∧ (atRootfs r works w).w.rootfs = w.rootfs := by
  obtain ⟨a1, a2, -, -⟩ := atRootfs_spec r works w
  have hr := a1.2 (works_kernelOk hu)
  exact ⟨hr, (a2 hr).1, (atRootfs_unshipped r works w).rootfs⟩

/-- one run in which nothing fails has a complete archive in the end -/
theorem works_complete (hk : r.kernelOnly = false) (hu : r.useLocal = false) (h : Live r.key w.rootfs) :
    MkRootfs.Complete r.key (step w ⟨r, works⟩).rootfs := by
  obtain ⟨hr, he, hw⟩ := works_atRootfs (w := w) hu
  have heq : (step w ⟨r, works⟩).rootfs = _ := build_all_rootfs_eq r works hk hr
  rw [heq]
  cases h with
  | made h =>
    obtain ⟨a, ha, hc⟩ := h
    rw [rootfsStage_found r works (by rw [hw, ha]; rfl)]
    exact ⟨a, by rw [hw]; exact ha, hc⟩
  | free ha hn hd =>
    obtain ⟨h1, -⟩ := rootfsStage_built r works hr he (by rw [hw]; exact ha) rfl (by rw [hw]; exact hn)
    have hok : works.top .mkrootfs = .ok := rfl
    rw [h1, if_pos hok]
    apply MkRootfs.mkrootfs_works r.rootfsParams
    · exact ⟨_, rfl, rfl⟩
    · intro d hd'
      exact hd d (by rw [← hw]; exact hd')

/-- and the next one packs it -/
theorem works_packs (hk : r.kernelOnly = false) (hu : r.useLocal = false) (h : MkRootfs.Complete r.key w.rootfs) :
    ∃ q, PacksFrom r w.rootfs q ∧ (step w ⟨r, works⟩).packings = w.packings ++ [q] := by
  obtain ⟨hr, he, hw⟩ := works_atRootfs (w := w) hu
  obtain ⟨a, ha, -⟩ := h
  obtain ⟨s, hs⟩ : ∃ s, s = eval (exec r works) false (rootfsStage r) (atRootfs r works w) := ⟨_, rfl⟩
  have hfound := rootfsStage_found r works (s := atRootfs r works w) (by rw [hw, ha]; rfl)
  rw [hfound] at hs
  have heq : (step w ⟨r, works⟩).packings = (eval (exec r works) false imageStage s).w.packings := by
    show (build_all r works w).w.packings = _
    rw [build_all_eq, next_run hr, back, if_neg (by simp [hk]), eval_seq_eq _ _ _ _ _ (by rw [hfound]; exact hr), hfound, hs]
  obtain ⟨h1, -⟩ := imageStage_spec r works (s := s) (by rw [hs]; exact hr) (by rw [hs]; exact he)
  have hpack := h1.packings
  have hok : works.top .pack = .ok := rfl
  rw [if_pos hok, packed] at hpack
  refine ⟨r.packing s.w, ?_, ?_⟩
  · rw [hs]
    exact ⟨rfl, rfl, rfl, congrArg (·.archive r.key) hw⟩
  · rw [heq, hpack, hs]
    exact congrArg (· ++ _) (atRootfs_unshipped r works w).packings

end Works

/-- a call of `pack.sh` on a complete archive for this key -/
def PacksComplete (k : MkRootfs.Key) (q : Packing) : Prop :=
  (q.version, q.type) = k ∧ ∃ a, q.archive = some a ∧ a.complete = true

/-- **Repeating a run in which nothing fails gets to `pack.sh` with a complete archive exactly where the workspace is live** -/
theorem recoverable_iff (w : Workspace) (r : Request) (hk : r.kernelOnly = false) (hu : r.useLocal = false) :
    (∃ n new, (runs step w (List.replicate n ⟨r, works⟩)).packings = w.packings ++ new ∧
      ∃ q ∈ new, PacksComplete r.key q) ↔ Live r.key w.rootfs := by
  constructor
  · rintro ⟨n, new, hnew, q, hq, hkey, a, ha, hc⟩
    rw [live_iff]
    intro hdead
    obtain ⟨ps, hps, hpk⟩ := (runs_lost hdead (List.replicate n ⟨r, works⟩) fun _ _ _ => True.intro).packings
    rw [hnew] at hps
    obtain rfl := List.append_cancel_left hps
    exact absurd (hpk q hq hkey a ha) (by simp [hc])
  · intro h
    obtain ⟨a, ha, hc⟩ := works_complete hk hu h
    obtain ⟨q, hq, hpack⟩ := works_packs hk hu ⟨a, ha, hc⟩
    have hold : ∃ ps, (step w ⟨r, works⟩).packings = w.packings ++ ps := by
      have hship : Shipped r w (step w ⟨r, works⟩) := (build_all_step r works w).2
      cases hship with
      | nothing h1 _ => exact ⟨[], by rw [h1, List.append_nil]⟩
      | packed x _ h1 _ => exact ⟨[x], h1⟩
      | released x _ _ h1 _ _ => exact ⟨[x], h1⟩
    obtain ⟨ps, hps⟩ := hold
    refine ⟨2, ps ++ [q], ?_, q, by simp, ?_, a, ?_, hc⟩
    · show (step (step w ⟨r, works⟩) ⟨r, works⟩).packings = _
      rw [hpack, hps, List.append_assoc]
    · rw [hq.version, hq.type]
      rfl
    · rw [hq.archive]
      exact ha

/-- a fresh workspace is live -/
theorem recoverable_fresh :
    ∃ n new, (runs step fresh (List.replicate n ⟨request bsp, works⟩)).packings = fresh.packings ++ new ∧
      ∃ q ∈ new, PacksComplete (.jammy, .cli) q :=
  (recoverable_iff fresh (request bsp) rfl rfl).2 (.free rfl rfl fun _ h => absurd h (by simp [fresh]))

/-- **What is not live gets no release any more**, whatever is run, if there is no archive at all or no run has a `tar` that
takes the one that is not complete -/
theorem never_released {k : MkRootfs.Key} {w : Workspace} (h : ¬ Live k w.rootfs) (l : List Call)
    (hl : w.rootfs.archive k = none ∨ ∀ c ∈ l, ¬ c.request.Takes k) :
    (runs step w l).releases.filter (fun x => (x.version, x.type) = k) =
      w.releases.filter fun x => (x.version, x.type) = k := by
  rw [live_iff, not_not] at h
  have hlost : Lost k (∃ c ∈ l, c.request.Takes k) w (runs step w l) := runs_lost h l fun c hc ht => ⟨c, hc, ht⟩
  have hno : w.rootfs.archive k = none ∨ ¬ ∃ c ∈ l, c.request.Takes k := by
    refine hl.imp_right fun hall => ?_
    rintro ⟨c, hc, ht⟩
    exact hall c hc ht
  obtain ⟨new, hnew, hk⟩ := hlost.releases hno
  have hnone : new.filter (fun x => (x.version, x.type) = k) = [] := by
    rw [List.filter_eq_nil_iff]
    intro x hx
    simpa using hk x hx
  rw [hnew, List.filter_append, hnone, List.append_nil]

/-- `mkrootfs.sh` fails in its first command -/
def fails : Env := { works with rootfs := fun c => if c = .arch then .fail false else .ok }

/-- **One failure is enough**: `ROOTFS` stays, and in the next run, in which nothing fails, there is no root file system to pack -/
theorem never_released_blocked :
    (runs step (step fresh ⟨request bsp, fails⟩) [⟨request bsp, works⟩]).releases.filter
        (fun x => (x.version, x.type) = (Version.jammy, RootfsType.cli)) =
      (step fresh ⟨request bsp, fails⟩).releases.filter fun x => (x.version, x.type) = (Version.jammy, RootfsType.cli) := by
  refine never_released ?_ _ (.inl (by decide))
  rw [live_iff, not_not]
  exact .blocked (by decide) (by decide)

/-! ## Releases -/

/-- a call of `pack.sh` for this key on an archive whose tree went through every step of the setup; only where `taken` can it be
one that is not complete -/
def PacksWhole (taken : Prop) (k : MkRootfs.Key) (q : Packing) : Prop :=
  (q.version, q.type) = k ∧ ∃ a, q.archive = some a ∧ MkRootfs.Whole k a.dir.top ∧ (a.complete = true ∨ taken)

/-- what holds of the archives and the releases in every history, if only archives of the keys in `T` are taken when cut -/
structure Trusted (T : MkRootfs.Key → Prop) (w : Workspace) : Prop where
  sound : MkRootfs.Sound w.rootfs
  releases : ∀ x ∈ w.releases, ∃ q ∈ w.packings, q.sel.board = x.board ∧ PacksWhole (T (x.version, x.type)) (x.version, x.type) q

theorem staged_sound {r : Request} {env : Env} {v u : MkRootfs.World} (hs : Staged r env v u) (h : MkRootfs.Sound v) :
    MkRootfs.Sound u := by
  cases hs with
  | same => exact h
  | opened _ _ => exact ⟨h.renamed, h.archive⟩
  | called ha _ => exact MkRootfs.mkrootfs_sound r.rootfsParams env.rootfs (v := mkdirred v) ⟨h.renamed, h.archive⟩ ha

/-- **One run**, wherever it stops -/
theorem build_all_trusted {T : MkRootfs.Key → Prop} {r : Request} (hr : r.cutTaken = true → T r.key) (env : Env) {w : Workspace}
    (h : Trusted T w) : Trusted T (build_all r env w).w := by
  obtain ⟨hstage, hship⟩ := build_all_step r env w
  have hsound := staged_sound hstage h.sound
  have hold : ∀ q, ∀ x ∈ w.releases, ∃ p ∈ w.packings ++ [q], p.sel.board = x.board ∧
      PacksWhole (T (x.version, x.type)) (x.version, x.type) p := by
    intro q x hx
    obtain ⟨p, hp, hx⟩ := h.releases x hx
    exact ⟨p, List.mem_append_left _ hp, hx⟩
  cases hship with
  | nothing h1 h2 =>
    refine ⟨hsound, ?_⟩
    rw [h1, h2]
    exact h.releases
  | packed q hq h1 h2 =>
    refine ⟨hsound, ?_⟩
    rw [h1, h2]
    exact hold q
  | released q hq hready h1 img h2 =>
    refine ⟨hsound, ?_⟩
    rw [h1, h2]
    intro x hx
    rcases List.mem_append.1 hx with hx | hx
    · exact hold q x hx
    · rw [List.mem_singleton] at hx
      subst hx
      obtain ⟨a, ha, hc⟩ := hready
      refine ⟨q, by simp, congrArg Selection.board hq.sel, ?_, a, hq.archive.trans ha, hsound.archive r.key a ha, hc.imp_right hr⟩
      rw [hq.version, hq.type]

theorem fresh_trusted (T : MkRootfs.Key → Prop) : Trusted T fresh := by
  refine ⟨⟨?_, ?_⟩, ?_⟩
  · intro k d _ hd
    simp [fresh] at hd
  · intro k a ha
    simp [fresh] at ha
  · intro x hx
    simp [fresh] at hx

/-- **Nothing is released from a root file system whose setup is half done**: in every history of runs that fail or are killed
anywhere, each release comes from a call of `pack.sh` for its board on an archive whose tree went through every step of a setup
for its distribution and desktop; and on a complete one, unless a run for them has a `tar` that takes another -/
theorem releases_whole (l : List Call) : ∀ x ∈ (runs step fresh l).releases, ∃ q ∈ (runs step fresh l).packings,
    q.sel.board = x.board ∧ PacksWhole (∃ c ∈ l, c.request.Takes (x.version, x.type)) (x.version, x.type) q := by
  have h : Trusted (fun k => ∃ c ∈ l, c.request.Takes k) (runs step fresh l) := by
    apply runs_inv (I := Trusted fun k => ∃ c ∈ l, c.request.Takes k) (P := fun _ c => c ∈ l) ?_ (fresh_trusted _)
      (each_of_forall fun _ hc => hc)
    intro w c hw hc
    exact build_all_trusted (fun ht => ⟨c, hc, rfl, ht⟩) c.env hw
  exact h.releases

/-- one run in which nothing fails, and whose `tar` takes only complete archives -/
theorem releases_whole_one : ∃ q ∈ (runs step fresh [⟨request bsp, works⟩]).packings,
    q.sel.board = .avaotaC1 ∧ PacksComplete (.jammy, .cli) q := by
  obtain ⟨x, hx, hb, hv, ht⟩ : ∃ x ∈ (runs step fresh [⟨request bsp, works⟩]).releases,
      x.board = .avaotaC1 ∧ x.version = .jammy ∧ x.type = .cli := by decide +kernel
  obtain ⟨q, hq, hboard, hkey, a, ha, -, hc⟩ := releases_whole [⟨request bsp, works⟩] x hx
  rw [hv, ht] at hkey
  refine ⟨q, hq, hboard.trans hb, hkey, a, ha, hc.resolve_right ?_⟩
  rintro ⟨c, hc, -, htaken⟩
  rw [List.mem_singleton.1 hc] at htaken
  exact absurd htaken (by decide)

/-- `tar` is killed in the first run; the second one takes what it has left, and releases it -/
example : ((runs step fresh [⟨request bsp, { works with rootfs := fun c => if c = .tar then .kill true else .ok }⟩,
    ⟨{ request bsp with cutTaken := true }, works⟩]).releases.map (·.board)) = [.avaotaC1] := by decide +kernel

end AvaotaOS.BuildAll
