/-
The kernel's source tree over runs of `fetch.sh` and `mklinux.sh`: what is checked out in `${workspace}/linux`, what
`patch_kernel` has changed in it, and in which directory `clone_linux` leaves the shell.

The script is that of `Fetch`, over a larger world: the working directory, the directory stack, and the content of the
tree. A clone that is not made in the workspace does not fill `linux`, and a pull elsewhere does not reach it.

Outside the scripts: what the repositories hold (`tip`, at any time), what `patch` makes of a tree, and what `git pull`
makes of a tree that has been changed. The patches of `avaota-c1-6.6.0` are for the tag v6.6; `Versions` says that they do
not all apply to the other kernels, which are on branches. Where a run of `mklinux.sh` gets through, what it has changed in
the tree is what `patch_kernel` has changed; a build writes besides what git does not track.

- `clone_linux_triple`: from a tree whose branches are unchanged, `clone_linux` ends with the current branch or tag, back in
  the workspace, or does not get through.
- `reached_sound`: runs leave no other trees.
- `clone_linux_fresh`: both together.
-/
import Mathlib.Tactic
import AvaotaOS.Build.Fetch
import AvaotaOS.Core.History
import AvaotaOS.Core.Triple
import AvaotaOS.Kernel.Patches

namespace AvaotaOS.LinuxTree

open Shell Fetch History

variable {Src : Type}

/-! ## The tree -/

structure Outside (Src : Type) where
  /-- what the repository at a URL holds at a branch or tag, at a time -/
  tip : ℕ → String → Ref → Src
  /-- a patch of `patches/kernel/avaota-c1-6.6.0`, by its number -/
  patch : ℕ → Src → Option Src
  /-- a pull into a changed tree -/
  merge : Src → Patches.World Src ℕ → Patches.World Src ℕ

/-- what is checked out -/
structure Checkout (Src : Type) where
  head : Src
  /-- the tree as `patch_kernel` has left it, if it has changed it -/
  changed : Option (Patches.World Src ℕ)

def Checkout.files (c : Checkout Src) : Patches.World Src ℕ := c.changed.getD (Patches.source c.head)

inductive Place where
  | workspace
  | tree (d : Dir)
deriving DecidableEq, Repr

structure World (Src : Type) where
  trees : Fetch.World
  linux : Option (Checkout Src)
  cwd : Place
  /-- the directory stack below the working directory -/
  stack : List Place

def emptyWorkspace : World Src := ⟨Fetch.emptyWorkspace, none, .workspace, []⟩

/-! ## fetch.sh -/

/-- the content behind a pull in linux -/
def pulled (O : Outside Src) (now : ℕ) (w : World Src) : Option (Checkout Src) :=
  match w.trees .linux with
  | some t => w.linux.map fun c => ⟨O.tip now t.origin t.head, c.changed.map (O.merge (O.tip now t.origin t.head))⟩
  | none => w.linux

def exec (O : Outside Src) (now : ℕ) (p : Params) (env : Cmd → Resp) (c : Cmd) (w : World Src) : Stat × World Src :=
  match c, Fetch.exec p env c w.trees with
  | .pushd d, (.ok, _) => (.ok, { w with cwd := .tree d, stack := w.cwd :: w.stack })
  | .popd _, (.ok, _) =>
    match w.stack with
    | [] => (.fail, w)
    | x :: l => (.ok, { w with cwd := x, stack := l })
  | .cdWorkspace, (.ok, _) => (.ok, { w with cwd := .workspace })
  | .clone d, (.ok, trees) =>
    if w.cwd = .workspace then
      (.ok, { w with trees := trees, linux := if d = .linux then some ⟨O.tip now (p.REPO d) (p.BRANCH d), none⟩ else w.linux })
    else (.ok, w)
  | .cloneGitee, (.ok, trees) =>
    if w.cwd = .workspace then
      (.ok, { w with trees := trees, linux := some ⟨O.tip now p.LINUX_GITEE_REPO p.LINUX_BRANCH, none⟩ })
    else (.ok, w)
  | .pull d, (.ok, _) => (.ok, if d = .linux ∧ w.cwd = .tree .linux then { w with linux := pulled O now w } else w)
  | .rmLinux, (.ok, trees) => (.ok, { w with trees := trees, linux := none })
  | _, (r, trees) => (r, { w with trees := trees })

/-- a script of `Fetch` -/
abbrev lift (a : Sh Cmd Fetch.World) : Sh Cmd (World Src) := a.comap World.trees

/-- `workspace=$(pwd)`: every run starts there -/
def enter (w : World Src) : World Src := { w with cwd := .workspace, stack := [] }

/-- where `clone_linux` is called -/
def atClone (O : Outside Src) (now : ℕ) (p : Params) (env : Cmd → Resp) (w : World Src) : St Cmd (World Src) :=
  eval (exec O now p env) false (lift (cloneBootloader p)) ⟨enter w, true, true, .run, []⟩

def fetchRun (O : Outside Src) (now : ℕ) (p : Params) (env : Cmd → Resp) (w : World Src) : St Cmd (World Src) :=
  run (exec O now p env) (lift (fetch p)) (enter w)

/-! ## mklinux.sh -/

/-- the directories of `patches/kernel` -/
def patches (LINUX_PATHDIR : String) : List ℕ :=
  if LINUX_PATHDIR = "avaota-c1-6.6.0" then [3, 4, 5, 6, 7, 8, 10, 11, 12, 25, 26] else []

/-- is there a directory `files` -/
def hasFiles (LINUX_PATHDIR : String) : Bool := LINUX_PATHDIR = "avaota-c1-6.6.0"

/-- a run that gets through, as far as it changes what is checked out -/
def mklinux (O : Outside Src) (s : Selection) (env : Patches.Cmd ℕ → Resp) (w : World Src) : Option (World Src) :=
  w.linux.bind fun c =>
    if s.conf.LINUX_PATHDIR = "none" then some w
    else
      let st := Patches.runStep O.patch env
        (Patches.patch_kernel (patches s.conf.LINUX_PATHDIR) (hasFiles s.conf.LINUX_PATHDIR)) c.files
      if st.stat = .ok then some { w with linux := some { c with changed := some st.w } } else none

/-! ## Runs -/

inductive Job where
  | fetch (p : Params) (now : ℕ) (env : Cmd → Resp)
  | mklinux (s : Selection) (env : Patches.Cmd ℕ → Resp)

/-- a run that ends with status 0 -/
def complete (O : Outside Src) (w : World Src) : Job → Option (World Src)
  | .fetch p now env => if (fetchRun O now p env w).stat = .ok then some (fetchRun O now p env w).w else none
  | .mklinux s env => mklinux O s env w

/-- **What `clone_linux` should leave**: a clone of one of the two repositories, at the branch or tag as it is now, with no
change in it -/
def Fresh (O : Outside Src) (now : ℕ) (p : Params) (w : World Src) : Prop :=
  ∃ t, w.trees .linux = some t ∧ (t.origin = p.LINUX_REPO ∨ t.origin = p.LINUX_GITEE_REPO) ∧ t.head = p.LINUX_BRANCH ∧
    w.linux = some ⟨O.tip now t.origin p.LINUX_BRANCH, none⟩

/-- the patches for Linux 6.6 do not all apply to the branches of the board files, which are of Linux 5.15 and 6.1 -/
def Versions (O : Outside Src) : Prop :=
  ∀ now url (q : Params) b, q.LINUX_BRANCH = .branch b →
    Patches.applyAll O.patch (patches "avaota-c1-6.6.0") (O.tip now url (.branch b)) = none

/-- **What runs leave**: only a detached tree has been changed -/
structure Sound (O : Outside Src) (w : World Src) : Prop where
  same : (w.trees .linux).isSome = w.linux.isSome
  known : ∀ t, w.trees .linux = some t → ∃ q : Params, t.head = q.LINUX_BRANCH
  clean : ∀ t c b, w.trees .linux = some t → w.linux = some c → t.head = .branch b →
    c.changed = none ∧ ∃ now url, c.head = O.tip now url (.branch b)

/-- patches are for the mainline kernel of the C1 -/
theorem pathdir_cases (s : Selection) (h : s.conf.LINUX_PATHDIR ≠ "none") : s.conf.LINUX_PATHDIR = "avaota-c1-6.6.0" := by
  obtain ⟨b, t, c, hc⟩ := s
  cases b <;> simp only [Board.linuxConf] at hc <;> split_ifs at hc <;> simp only [Option.some.injEq] at hc <;>
    subst hc <;> first | rfl | exact absurd rfl h

theorem Sound.congr {O : Outside Src} {w v : World Src} (h : Sound O w) (ht : v.trees .linux = w.trees .linux)
    (hl : v.linux = w.linux) : Sound O v := by
  refine ⟨?_, ?_, ?_⟩
  · rw [ht, hl]
    exact h.same
  · rw [ht]
    exact h.known
  · rw [ht, hl]
    exact h.clean

/-! ## What the commands do -/

section Commands

variable {O : Outside Src} {now : ℕ} {p : Params} {env : Cmd → Resp} {c : Cmd} {w : World Src}

/-- the commands that reach linux -/
def reaches : Cmd → Bool
  | .clone .linux | .cloneGitee | .pull .linux | .rmLinux => true
  | _ => false

def moves : Cmd → Bool
  | .pushd _ | .popd _ | .cdWorkspace => true
  | _ => false

variable (p env) in
theorem fetch_linux (hc : reaches c = false) (v : Fetch.World) : (Fetch.exec p env c v).2 .linux = v .linux := by
  cases he : env c with
  | fail q => cases c <;> simp [Fetch.exec, he]
  | kill q => cases c <;> simp [Fetch.exec, he]
  | ok =>
    cases c with
    | clone d =>
      simp only [Fetch.exec, he]
      refine clone_other fun hd => ?_
      subst hd
      simp [reaches] at hc
    | cloneGitee | rmLinux => simp [reaches] at hc
    | fetchCommit | checkoutFetchHead | checkoutHash =>
      simp only [Fetch.exec, he]
      exact on_other (by simp)
    | pushd _ | popd _ | cdWorkspace | pull _ | rmBuild | remoteUpdate | gitConfig => simp [Fetch.exec, he]

/-- the other commands leave linux alone -/
theorem exec_keeps (hc : reaches c = false) :
    (exec O now p env c w).2.trees .linux = w.trees .linux ∧ (exec O now p env c w).2.linux = w.linux := by
  rcases hx : Fetch.exec p env c w.trees with ⟨r, v⟩
  have hf : v .linux = w.trees .linux := by
    have h := fetch_linux p env hc w.trees
    rwa [hx] at h
  cases c with
  | clone d =>
    have hd : d ≠ .linux := by
      rintro rfl
      simp [reaches] at hc
    cases r with
    | ok =>
      simp only [exec, hx, if_neg hd]
      split
      · exact ⟨hf, rfl⟩
      · exact ⟨rfl, rfl⟩
    | fail | killed => simp [exec, hx, hf]
  | pull d =>
    have hd : d ≠ .linux := by
      rintro rfl
      simp [reaches] at hc
    cases r <;> simp [exec, hx, hf, hd]
  | popd d => cases r <;> simp only [exec, hx] <;> (try split) <;> simp [hf]
  | cloneGitee | rmLinux => simp [reaches] at hc
  | pushd _ | cdWorkspace => cases r <;> simp [exec, hx, hf]
  | rmBuild | fetchCommit | checkoutFetchHead | checkoutHash | remoteUpdate | gitConfig => simp [exec, hx, hf]

variable (O now p env w) in
/-- only `pushd`, `popd` and `cd` change the directory -/
theorem exec_stays (hc : moves c = false) :
    (exec O now p env c w).2.cwd = w.cwd ∧ (exec O now p env c w).2.stack = w.stack := by
  unfold exec
  split <;> (try split) <;> first | exact ⟨rfl, rfl⟩ | simp [moves] at hc

end Commands

/-! ## Back in the workspace -/

section Home

variable {O : Outside Src} {now : ℕ} {p : Params} {env : Cmd → Resp} {k : List Place}

def Home (k : List Place) (w : World Src) : Prop := w.cwd = .workspace ∧ w.stack = k

theorem home_stays {l : List Cmd} (hl : ∀ c ∈ l, moves c = false) :
    Triple (exec O now p env) (Home k) (block l) (Home k) fun _ => True := by
  refine (Triple.inv (strict_block l) fun c hc w hw => ?_).conseq (fun _ => id) (fun _ => id) fun _ _ => trivial
  rw [cmds_block] at hc
  obtain ⟨h1, h2⟩ := exec_stays O now p env w (hl c hc)
  exact ⟨h1.trans hw.1, h2.trans hw.2⟩

/-- a command in a directory of its own -/
theorem home_visit {c : Cmd} (hc : moves c = false) (d : Dir) :
    Triple (exec O now p env) (Home k) (block [.pushd d, c, .popd d]) (Home k) fun _ => True := by
  have hin : Triple (exec O now p env) (Home k) (.cmd (.pushd d)) (fun w => w.stack = .workspace :: k) fun _ => True := by
    refine Triple.cmd (fun w hw hok => ?_) fun _ _ _ => trivial
    rcases hx : Fetch.exec p env (.pushd d) w.trees with ⟨_ | _ | _, v⟩ <;> simp only [exec, hx] at hok ⊢
    · rw [hw.1, hw.2]
    all_goals simp at hok
  have hstay : Triple (exec O now p env) (fun w => w.stack = .workspace :: k) (.cmd c) (fun w => w.stack = .workspace :: k)
      fun _ => True :=
    Triple.cmd (fun w hw _ => (exec_stays O now p env w hc).2.trans hw) fun _ _ _ => trivial
  have hout : Triple (exec O now p env) (fun w => w.stack = .workspace :: k) (.cmd (.popd d)) (Home k) fun _ => True := by
    refine Triple.cmd (fun w hw hok => ?_) fun _ _ _ => trivial
    rcases hx : Fetch.exec p env (.popd d) w.trees with ⟨_ | _ | _, v⟩ <;> simp only [exec, hx, hw] at hok ⊢
    · exact ⟨rfl, rfl⟩
    all_goals simp at hok
  exact hin.seq (hstay.seq hout.last)

theorem home_pullOr {d : Dir} {l : List Cmd}
    (hl : Triple (exec O now p env) (Home k) (block l) (Home k) fun _ => True) :
    Triple (exec O now p env) (Home k) (lift (pullOr d l)) (Home k) fun _ => True := by
  refine Triple.cond (I := Home k) ?_ ?_
  · exact (home_visit (c := .pull d) rfl d).pre fun _ h => h.1
  · rw [comap_block]
    exact hl.pre fun _ h => h.1

/-- **The trees of the bootloader are fetched from the workspace** -/
theorem cloneBootloader_home :
    Triple (exec O now p env) (Home k) (lift (cloneBootloader p)) (Home k) fun _ => True := by
  unfold cloneBootloader
  cases p.sel.board.BL_CONFIG with
  | sunxiSyterkit =>
    refine Triple.seq (J := Home k) ?_ (home_stays (l := [.fetchCommit, .checkoutFetchHead]) (by decide)).last
    refine Triple.cond ?_ ?_
    · exact (home_visit (c := .rmBuild) rfl p.bl).pre fun _ h => h.1
    · exact (home_stays (l := [.clone p.bl]) (by simp [moves])).pre fun _ h => h.1
  | sunxiUboot =>
    exact (home_pullOr (home_stays (by simp [moves]))).seq (home_pullOr (home_stays (by simp [moves]))).last
  | rockchipUboot =>
    refine Triple.seq (home_pullOr ?_) (home_pullOr (home_stays (by simp [moves]))).last
    have hclone : Triple (exec O now p env) (Home k) (.cmd (.clone .rkbin)) (Home k) fun _ => True := by
      refine Triple.cmd (fun w hw _ => ?_) fun _ _ _ => trivial
      obtain ⟨h1, h2⟩ := exec_stays O now p env w (c := .clone .rkbin) rfl
      exact ⟨h1.trans hw.1, h2.trans hw.2⟩
    exact hclone.seq (home_visit (c := .checkoutHash) rfl .rkbin)

end Home

/-! ## clone_linux -/

section Clone

variable {O : Outside Src} {now : ℕ} {p : Params} {env : Cmd → Resp} {k : List Place}

/-- the workspace after a clone of linux -/
def World.cloned (O : Outside Src) (now : ℕ) (url : String) (ref : Ref) (w : World Src) : World Src :=
  { w with trees := Function.update w.trees .linux (some ⟨url, ref, none⟩), linux := some ⟨O.tip now url ref, none⟩ }

theorem fresh_cloned {url : String} (hurl : url = p.LINUX_REPO ∨ url = p.LINUX_GITEE_REPO) (w : World Src) :
    Fresh O now p (w.cloned O now url p.LINUX_BRANCH) :=
  ⟨⟨url, p.LINUX_BRANCH, none⟩, by simp [World.cloned], hurl, rfl, rfl⟩

theorem exec_clone {w : World Src} (hnone : w.trees .linux = none) (hcwd : w.cwd = .workspace) :
    exec O now p env (.clone .linux) w = match env (.clone .linux) with
      | .ok => (.ok, w.cloned O now p.LINUX_REPO p.LINUX_BRANCH)
      | r => (r.stat, w) := by
  cases he : env (.clone .linux) with
  | ok => simp [exec, Fetch.exec, he, clone, hnone, hcwd, Params.REPO, Params.BRANCH, LINUX_REPO_ne, World.cloned]
  | fail | kill => simp [exec, Fetch.exec, he, Resp.stat]

theorem exec_cloneGitee {w : World Src} (hnone : w.trees .linux = none) (hcwd : w.cwd = .workspace)
    (h : (exec O now p env .cloneGitee w).1 = .ok) :
    (exec O now p env .cloneGitee w).2 = w.cloned O now p.LINUX_GITEE_REPO p.LINUX_BRANCH := by
  by_cases hu : p.LINUX_GITEE_REPO = ""
  · cases he : env .cloneGitee <;> simp [exec, Fetch.exec, he, clone, hnone, hu, Resp.stat] at h
  · cases he : env .cloneGitee with
    | ok => simp [exec, Fetch.exec, he, clone, hnone, hcwd, hu, World.cloned]
    | fail | kill => simp [exec, Fetch.exec, he, Resp.stat] at h

/-- **A clone into the workspace**, from either repository, or nothing -/
theorem cloneLinux_triple :
    Triple (exec O now p env) (fun w => w.trees .linux = none ∧ w.stack = k) (lift cloneLinux)
      (fun w => Fresh O now p w ∧ Home k w) fun _ => True := by
  have hcd : Triple (exec O now p env) (fun w => w.trees .linux = none ∧ w.stack = k) (.cmd .cdWorkspace)
      (fun w => w.trees .linux = none ∧ Home k w) fun _ => True := by
    refine Triple.cmd (fun w hw hok => ?_) fun _ _ _ => trivial
    rcases hx : Fetch.exec p env .cdWorkspace w.trees with ⟨_ | _ | _, v⟩ <;> simp only [exec, hx] at hok ⊢
    · exact ⟨hw.1, rfl, hw.2⟩
    all_goals simp at hok
  have hgitee : Triple (exec O now p env) (fun w => w.trees .linux = none ∧ Home k w) (.cmd .cloneGitee)
      (fun w => Fresh O now p w ∧ Home k w) fun _ => True := by
    refine Triple.cmd (fun w hw hok => ?_) fun _ _ _ => trivial
    obtain ⟨hnone, hcwd, hk⟩ := hw
    rw [exec_cloneGitee hnone hcwd hok]
    exact ⟨fresh_cloned (Or.inr rfl) w, hcwd, hk⟩
  refine hcd.seq (Triple.ite (L := fun w => Fresh O now p w ∧ Home k w) (fun w hw => ?_) Triple.tt hgitee)
  obtain ⟨hnone, hcwd, hk⟩ := hw
  rw [exec_clone hnone hcwd]
  cases env (.clone .linux) with
  | ok => exact ⟨fresh_cloned (Or.inl rfl) w, hcwd, hk⟩
  | fail q => exact ⟨hnone, hcwd, hk⟩
  | kill q => exact trivial

/-- a pull of a branch that is unchanged -/
theorem exec_pull {w : World Src} (hs : Sound O w) (hcur : current p w.trees = true) (hcwd : w.cwd = .tree .linux)
    (h : (exec O now p env (.pull .linux) w).1 = .ok) : Fresh O now p (exec O now p env (.pull .linux) w).2 ∧
      (exec O now p env (.pull .linux) w).2.stack = w.stack := by
  obtain ⟨t, ht, horigin, hhead⟩ := current_at hs.known hcur
  obtain ⟨c, hc⟩ : ∃ c, w.linux = some c := by
    rw [← Option.isSome_iff_exists, ← hs.same, ht]
    rfl
  obtain ⟨b, hb⟩ : ∃ b, t.head = .branch b := by
    unfold current at hcur
    rw [ht] at hcur
    split at hcur
    · rename_i hb
      obtain rfl := Option.some.inj hb
      exact ⟨_, rfl⟩
    · simp at hcur
  have hclean := (hs.clean t c b ht hc hb).1
  cases he : env (.pull .linux) with
  | ok =>
    refine ⟨⟨t, ?_, Or.inl horigin, hhead, ?_⟩, ?_⟩ <;>
      simp [exec, Fetch.exec, he, ht, hcwd, pulled, hc, hclean, ← hhead]
  | fail | kill => simp [exec, Fetch.exec, he, Resp.stat] at h

/-- **`clone_linux` ends with the current sources and back in the workspace**, or does not get through: it pulls a branch that
is unchanged and clones everything else anew -/
theorem clone_linux_triple :
    Triple (exec O now p env) (fun w => Sound O w ∧ Home k w) (lift (clone_linux p))
      (fun w => Fresh O now p w ∧ Home k w) fun _ => True := by
  have hin : Triple (exec O now p env) (fun w => (Sound O w ∧ Home k w) ∧ (w.trees .linux).isSome = true)
      (block [.pushd .linux, .remoteUpdate, .gitConfig])
      (fun w => Sound O w ∧ w.cwd = .tree .linux ∧ w.stack = .workspace :: k) fun _ => True := by
    have hpush : Triple (exec O now p env) (fun w => (Sound O w ∧ Home k w) ∧ (w.trees .linux).isSome = true)
        (.cmd (.pushd .linux)) (fun w => Sound O w ∧ w.cwd = .tree .linux ∧ w.stack = .workspace :: k) fun _ => True := by
      refine Triple.cmd (fun w hw hok => ?_) fun _ _ _ => trivial
      obtain ⟨⟨hs, hcwd, hk⟩, -⟩ := hw
      obtain ⟨h1, h2⟩ := exec_keeps (O := O) (w := w) (c := .pushd .linux) rfl
      refine ⟨hs.congr h1 h2, ?_⟩
      rcases hx : Fetch.exec p env (.pushd .linux) w.trees with ⟨_ | _ | _, v⟩ <;> simp only [exec, hx] at hok ⊢
      · simp [hcwd, hk]
      all_goals simp at hok
    have hstay : ∀ c, reaches c = false → moves c = false →
        Triple (exec O now p env) (fun w => Sound O w ∧ w.cwd = .tree .linux ∧ w.stack = .workspace :: k) (.cmd c)
          (fun w => Sound O w ∧ w.cwd = .tree .linux ∧ w.stack = .workspace :: k) fun _ => True := by
      intro c hr hm
      refine Triple.cmd (fun w hw _ => ?_) fun _ _ _ => trivial
      obtain ⟨hs, hcwd, hk⟩ := hw
      obtain ⟨h1, h2⟩ := exec_keeps (O := O) hr
      obtain ⟨h3, h4⟩ := exec_stays O now p env w hm
      exact ⟨hs.congr h1 h2, h3.trans hcwd, h4.trans hk⟩
    exact hpush.seq ((hstay .remoteUpdate rfl rfl).seq (hstay .gitConfig rfl rfl).last)
  have hpull : Triple (exec O now p env)
      (fun w => (Sound O w ∧ w.cwd = .tree .linux ∧ w.stack = .workspace :: k) ∧ current p w.trees = true)
      (.cmd (.pull .linux)) (fun w => Fresh O now p w ∧ w.stack = .workspace :: k) fun _ => True := by
    refine Triple.cmd (fun w hw hok => ?_) fun _ _ _ => trivial
    obtain ⟨⟨hs, hcwd, hk⟩, hcur⟩ := hw
    obtain ⟨h1, h2⟩ := exec_pull hs hcur hcwd hok
    exact ⟨h1, h2.trans hk⟩
  have hrm : Triple (exec O now p env)
      (fun w => (Sound O w ∧ w.cwd = .tree .linux ∧ w.stack = .workspace :: k) ∧ current p w.trees = false)
      (.cmd .rmLinux) (fun w => w.trees .linux = none ∧ w.stack = .workspace :: k) fun _ => True := by
    refine Triple.cmd (fun w hw hok => ?_) fun _ _ _ => trivial
    cases he : env .rmLinux with
    | ok => exact ⟨by simp [exec, Fetch.exec, he], by simp [exec, Fetch.exec, he, hw.1.2.2]⟩
    | fail | kill => simp [exec, Fetch.exec, he, Resp.stat] at hok
  have hpop : Triple (exec O now p env) (fun w => Fresh O now p w ∧ w.stack = .workspace :: k) (.cmd (.popd .linux))
      (fun w => Fresh O now p w ∧ Home k w) fun _ => True := by
    refine Triple.cmd (fun w hw hok => ?_) fun _ _ _ => trivial
    obtain ⟨⟨t, ht, ho, hh, hl⟩, hk⟩ := hw
    obtain ⟨h1, h2⟩ := exec_keeps (O := O) (w := w) (c := .popd .linux) rfl
    refine ⟨⟨t, h1.trans ht, ho, hh, h2.trans hl⟩, ?_⟩
    rcases hx : Fetch.exec p env (.popd .linux) w.trees with ⟨_ | _ | _, v⟩ <;> simp only [exec, hx, hk] at hok ⊢
    · exact ⟨rfl, rfl⟩
    all_goals simp at hok
  refine Triple.cond ?_ ?_
  · refine hin.seq (Triple.seq (Triple.cond hpull (hrm.seq ?_)) hpop.last)
    exact cloneLinux_triple.conseq (fun _ => id) (fun w hw => ⟨hw.1, hw.2.2⟩) fun _ _ => trivial
  · refine cloneLinux_triple.pre fun w hw => ⟨?_, hw.1.2.2⟩
    simpa using hw.2

end Clone

/-! ## Runs -/

section Runs

variable {O : Outside Src} {now : ℕ} {p : Params} {env : Cmd → Resp} {w v : World Src}

theorem Fresh.sound (h : Fresh O now p w) : Sound O w := by
  obtain ⟨t, ht, -, hh, hl⟩ := h
  refine ⟨?_, fun t₁ ht₁ => ?_, fun t₁ c b ht₁ hc hb => ?_⟩
  · rw [ht, hl]
    rfl
  · obtain rfl := Option.some.inj (ht.symm.trans ht₁)
    exact ⟨p, hh⟩
  · obtain rfl := Option.some.inj (ht.symm.trans ht₁)
    obtain rfl := Option.some.inj (hl.symm.trans hc)
    exact ⟨rfl, now, t.origin, by rw [← hh, hb]⟩

theorem bootloader_reaches : ∀ c ∈ (cloneBootloader p).cmds, reaches c = false := by
  unfold cloneBootloader
  cases hb : p.sel.board.BL_CONFIG <;>
    simp [clone_syterkit, clone_atf, clone_rkbin, clone_u_boot, pullOr, Params.bl, seqs, Sh.cmds, reaches]

theorem bootloader_strict : (cloneBootloader p).strict = true := by
  unfold cloneBootloader
  cases p.sel.board.BL_CONFIG <;> simp [clone_syterkit, clone_atf, clone_rkbin, clone_u_boot, pullOr, seqs, Sh.strict]

/-- **What the trees of the bootloader leave of linux and of the shell** -/
theorem bootloader_triple : Triple (exec O now p env) (fun w => Sound O w ∧ Home [] w) (lift (cloneBootloader p))
    (fun w => Sound O w ∧ Home [] w) fun _ => True := by
  have hkeeps : Triple (exec O now p env) (Sound O) (lift (cloneBootloader p)) (Sound O) (Sound O) := by
    refine Triple.inv (by rw [strict_comap]; exact bootloader_strict) fun c hc w hw => ?_
    rw [cmds_comap] at hc
    obtain ⟨h1, h2⟩ := exec_keeps (O := O) (w := w) (bootloader_reaches c hc)
    exact hw.congr h1 h2
  exact (hkeeps.both cloneBootloader_home).conseq (fun _ => id) (fun _ => id) fun _ _ => trivial

theorem enter_sound (h : Sound O w) : Sound O (enter w) ∧ Home [] (enter w) := ⟨h.congr rfl rfl, rfl, rfl⟩

theorem fetch_failing : (lift (fetch p) : Sh Cmd (World Src)).failing = true := by
  have hb : ∀ a : Sh Cmd Fetch.World, (lift a : Sh Cmd (World Src)).failing = a.failing := by
    intro a
    induction a <;> simp_all [Sh.comap, Sh.failing]
  rw [hb, fetch, cloneBootloader]
  cases p.sel.board.BL_CONFIG <;>
    simp [clone_syterkit, clone_atf, clone_rkbin, clone_u_boot, clone_linux, cloneLinux, pullOr, seqs, Sh.failing]

/-- **A run of `fetch.sh` that gets through leaves the current sources** -/
theorem fetchRun_fresh (h : Sound O w) (hok : (fetchRun O now p env w).stat = .ok) :
    Fresh O now p (fetchRun O now p env w).w := by
  have hrun : (fetchRun O now p env w).out = .run := run_of_stat fetch_failing (by simp [start]) hok
  have hend : Triple (exec O now p env) (fun w => Fresh O now p w ∧ Home [] w)
      (lift (.cond (fun w => (w p.bl).isNone && (w .linux).isNone) (.exit 2) .tt)) (fun w => Fresh O now p w ∧ Home [] w)
      fun _ => True := by
    refine Triple.cond (Triple.exit 2 fun _ _ => trivial) ?_
    exact Triple.tt.pre fun _ hw => hw.1
  have hall := bootloader_triple.seq (clone_linux_triple.seq hend.last)
  exact ((hall.run (enter_sound h)).1 hrun).1

/-- **Patches for another kernel do not get through on a branch** -/
theorem mklinux_sound (hV : Versions O) {s : Selection} {env : Patches.Cmd ℕ → Resp} (h : Sound O w)
    (hw : mklinux O s env w = some v) : Sound O v := by
  obtain ⟨c, hc, hw⟩ := Option.bind_eq_some_iff.1 hw
  split_ifs at hw with hp
  · rwa [← Option.some.inj hw]
  · simp only at hw
    split_ifs at hw with hok
    obtain rfl := Option.some.inj hw
    refine ⟨?_, h.known, fun t c₁ b ht _ hb => ?_⟩
    · rw [h.same, hc]
      rfl
    · obtain ⟨hclean, now, url, hhead⟩ := h.clean t c b ht hc hb
      have hfiles : c.files.tree = some (O.tip now url (.branch b)) := by
        rw [Checkout.files, hclean, ← hhead]
        rfl
      have happ := Patches.runStep_applies (f := .patch_kernel (hasFiles s.conf.LINUX_PATHDIR)) hfiles hok
      have hdir : s.conf.LINUX_PATHDIR = "avaota-c1-6.6.0" := pathdir_cases s hp
      obtain ⟨q, hq⟩ := h.known t ht
      rw [hdir, hV now url q b (hq.symm.trans hb)] at happ
      simp at happ

theorem complete_sound (hV : Versions O) (w : World Src) (j : Job) (v : World Src) (h : Sound O w)
    (hj : complete O w j = some v) : Sound O v := by
  cases j with
  | fetch p now env =>
    simp only [complete] at hj
    split_ifs at hj with hok
    rw [← Option.some.inj hj]
    exact (fetchRun_fresh h hok).sound
  | mklinux s env => exact mklinux_sound hV h hj

theorem reached_sound (hV : Versions O) {jobs : List Job} (h : jobs.foldlM (complete O) emptyWorkspace = some w) :
    Sound O w :=
  foldlM_inv (complete_sound hV) ⟨rfl, fun t ht => by simp [emptyWorkspace, Fetch.emptyWorkspace] at ht,
    fun t c b ht => by simp [emptyWorkspace, Fetch.emptyWorkspace] at ht⟩ h

end Runs

/-- **Wherever runs have left the tree, `clone_linux` ends with a clone of one of the two repositories, at the current branch
or tag and unchanged, in the directory it was called from**, if it gets through -/
theorem clone_linux_fresh (O : Outside Src) (hV : Versions O) (jobs : List Job) (w : World Src)
    (hw : jobs.foldlM (complete O) emptyWorkspace = some w) (now : ℕ) (p : Params) (env : Cmd → Resp)
    (hcall : (atClone O now p env w).out = .run) :
    let s := atClone O now p env w
    let t := eval (exec O now p env) false (lift (clone_linux p)) s
    t.out = .run → Fresh O now p t.w ∧ t.w.cwd = s.w.cwd ∧ t.w.stack = s.w.stack := by
  intro s t ht
  have hsound := reached_sound hV hw
  obtain ⟨he, hs, hcwd, hstack⟩ := bootloader_triple.through ⟨enter w, true, true, .run, []⟩ rfl rfl (enter_sound hsound) hcall
  obtain ⟨-, hfresh, hcwd₁, hstack₁⟩ := clone_linux_triple.through s he hcall ⟨hs, hcwd, hstack⟩ ht
  exact ⟨hfresh, hcwd₁.trans hcwd.symm, hstack₁.trans hstack.symm⟩

/-! ## The C1's patched tree -/

/-- trees that are told apart by what they are clones of and by their patches -/
def marked : Outside ((String × Ref) × List ℕ) where
  tip _ url ref := ((url, ref), [])
  patch i T :=
    match T.1.2 with
    | .tag _ => if i ∈ T.2 then none else some (T.1, T.2 ++ [i])
    | _ => none
  merge _ w := w

theorem marked_versions : Versions marked := fun _ _ _ _ _ => rfl

def c1Mainline : Selection :=
  ⟨.avaotaC1, "mainline", ⟨"sun50i_mainline_defconfig", "avaota-c1-6.6.0"⟩, Board.linuxConf_c1_mainline⟩

def a1Bsp : Selection := ⟨.avaotaA1, "bsp", ⟨"sun55i_t527_bsp_defconfig", "none"⟩, Board.linuxConf_a1_bsp⟩

/-- the C1 with the mainline kernel is fetched and built, through a mirror -/
def c1Jobs : List Job :=
  [.fetch ⟨c1Mainline, "https://mirror.ghproxy.com"⟩ 0 (works true), .mklinux c1Mainline fun _ => .ok]

/-- `clone_linux` behind these runs, where nothing fails and the tree of U-Boot at its tag can be pulled -/
def next (p : Params) (w : World ((String × Ref) × List ℕ)) : St Cmd (World ((String × Ref) × List ℕ)) :=
  eval (exec marked 1 p (works true)) false (lift (clone_linux p)) (atClone marked 1 p (works true) w)

/-- **From the patched tree to the sources of the A1, and to those of the C1 again** -/
theorem clone_linux_fresh_patched : ∃ w, c1Jobs.foldlM (complete marked) emptyWorkspace = some w ∧
    Fresh marked 1 ⟨a1Bsp, "no"⟩ (next ⟨a1Bsp, "no"⟩ w).w ∧
      Fresh marked 1 ⟨c1Mainline, "https://mirror.ghproxy.com"⟩ (next ⟨c1Mainline, "https://mirror.ghproxy.com"⟩ w).w := by
  have hruns : ((c1Jobs.foldlM (complete marked) emptyWorkspace).map fun w =>
      ([⟨a1Bsp, "no"⟩, ⟨c1Mainline, "https://mirror.ghproxy.com"⟩].map fun p =>
        ((atClone marked 1 p (works true) w).out, (next p w).out))) = some [(.run, .run), (.run, .run)] := by
    decide +kernel
  obtain ⟨w, hw, hout⟩ := Option.map_eq_some_iff.1 hruns
  simp only [List.map_cons, List.map_nil, List.cons.injEq, Prod.mk.injEq, and_true] at hout
  obtain ⟨⟨ha, ha'⟩, hc, hc'⟩ := hout
  exact ⟨w, hw, (clone_linux_fresh marked marked_versions c1Jobs w hw 1 _ (works true) ha ha').1,
    (clone_linux_fresh marked marked_versions c1Jobs w hw 1 _ (works true) hc hc').1⟩

end AvaotaOS.LinuxTree
