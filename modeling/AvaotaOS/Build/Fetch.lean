/-
`scripts/fetch.sh`: the source trees of a workspace over any number of runs.

A tree is kept with its origin and with what its HEAD stands at. `git clone` needs a free name and, where it fails, leaves
none; `-b` with a tag leaves a detached HEAD. Everything else is up to the environment (`env : Cmd → Resp`), also what
`git pull` does on a detached HEAD, and a run may end after any command.

`clone_atf` and `clone_rkbin` decide between clone and pull by the directory of U-Boot.

- `step_kept`: what every run keeps of the trees, whatever fails.
- `recovers_iff`: from which of the states that runs reach the next run gets all the sources.
- `half_fetched_fails`: on the C1 the clone of U-Boot fails once.

Not modelled: the content of the trees, and what patches and builds do to them.
-/
import Mathlib.Tactic
import AvaotaOS.Boards
import AvaotaOS.Core.History
import AvaotaOS.Core.Shell

namespace AvaotaOS.Fetch

open Shell History

/-! ## The sources of a board -/

/-- what a clone or a checkout is for -/
inductive Ref where
  | branch (name : String)
  | tag (name : String)
  | commit (hash : String)
deriving DecidableEq, Repr

def Ref.name : Ref → String
  | branch n | tag n | commit n => n

/-- the directories of the workspace that git fills -/
inductive Dir where
  /-- `${BL_CONFIG}` -/
  | bl (c : BlConfig)
  | atf
  | rkbin
  | linux
deriving DecidableEq, Repr

/-- one call of the script -/
structure Params where
  sel : Selection
  GITHUB_MIRROR : String

namespace Params

variable (p : Params)

/-- the variable of the board file -/
def linuxRepo : String :=
  match p.sel.board with
  | .avaotaA1 => "https://github.com/AvaotaSBC/linux.git"
  | .avaotaC1 =>
    if p.sel.target = "mainline" then "https://github.com/torvalds/linux.git" else "https://github.com/AvaotaSBC/linux.git"
  | .dshanpiA1 => "https://github.com/dshanpi/dshanpi-a1-linux-kernel.git"

/-- the same behind the mirror -/
def LINUX_REPO : String :=
  if "https://github.com".toList.isPrefixOf p.linuxRepo.toList ∧ p.GITHUB_MIRROR ≠ "no" then
    p.GITHUB_MIRROR ++ "/" ++ p.linuxRepo
  else p.linuxRepo

def LINUX_GITEE_REPO : String :=
  match p.sel.board with
  | .avaotaA1 => "https://github.com/AvaotaSBC/linux.git"
  | .avaotaC1 => if p.sel.target = "mainline" then "" else "https://github.com/AvaotaSBC/linux.git"
  | .dshanpiA1 => ""

def LINUX_BRANCH : Ref :=
  match p.sel.board with
  | .avaotaA1 => .branch "linux-5.15"
  | .avaotaC1 => if p.sel.target = "mainline" then .tag "v6.6" else .branch "linux-5.15"
  | .dshanpiA1 => .branch "rk-6.1"

def bl : Dir := .bl p.sel.board.BL_CONFIG

/-- `SYTERKIT_REPO`, `UBOOT_REPO`, `ATF_REPO`, `RKBIN_REPO` and `LINUX_REPO` -/
def REPO : Dir → String
  | .bl .sunxiSyterkit => "https://github.com/YuzukiHD/SyterKit"
  | .bl .sunxiUboot => "https://github.com/u-boot/u-boot.git"
  | .bl .rockchipUboot => "https://github.com/dshanpi/dshanpi-a1-uboot.git"
  | .atf => "https://github.com/ARM-software/arm-trusted-firmware.git"
  | .rkbin => "https://github.com/rockchip-linux/rkbin.git"
  | .linux => p.LINUX_REPO

/-- what `git clone` is told to check out: the `*_BRANCH` of the board file, and of rkbin the default branch -/
def BRANCH : Dir → Ref
  | .bl .sunxiSyterkit => .branch "main"
  | .bl .sunxiUboot => .tag "v2023.10"
  | .bl .rockchipUboot => .branch "master"
  | .atf => .tag "lts-v2.10.4"
  | .rkbin => .branch "master"
  | .linux => p.LINUX_BRANCH

end Params

def SYTERKIT_COMMIT : String := "0998aeb48289058d26b3c24febb3405e29b66898"

def RKBIN_BRANCH_HASH : String := "74213af1e952c4683d2e35952507133b61394862"

/-! ## The workspace -/

structure Tree where
  origin : String
  head : Ref
  /-- FETCH_HEAD -/
  fetched : Option String
deriving DecidableEq, Repr

abbrev World := Dir → Option Tree

def emptyWorkspace : World := fun _ => none

inductive Cmd where
  | pushd (d : Dir)
  | popd (d : Dir)
  | cdWorkspace
  | clone (d : Dir)
  /-- the second attempt, from `LINUX_GITEE_REPO` -/
  | cloneGitee
  | pull (d : Dir)
  | rmBuild
  | fetchCommit
  | checkoutFetchHead
  | checkoutHash
  | remoteUpdate
  | gitConfig
  | rmLinux
deriving DecidableEq, Repr

/-- `git clone`: a name that is taken is left as it is -/
def clone (w : World) (d : Dir) (url : String) (ref : Ref) : Stat × World :=
  match w d with
  | some _ => (.fail, w)
  | none => if url = "" then (.fail, w) else (.ok, Function.update w d (some ⟨url, ref, none⟩))

/-- change a tree, if there is one -/
def World.on (w : World) (d : Dir) (f : Tree → Tree) : Stat × World :=
  match w d with
  | some t => (.ok, Function.update w d (some (f t)))
  | none => (.fail, w)

def exec (p : Params) (env : Cmd → Resp) (c : Cmd) (w : World) : Stat × World :=
  match c, env c with
  | .pushd d, .ok | .pull d, .ok => (if (w d).isSome then .ok else .fail, w)
  | .clone d, .ok => clone w d (p.REPO d) (p.BRANCH d)
  | .cloneGitee, .ok => clone w .linux p.LINUX_GITEE_REPO p.LINUX_BRANCH
  | .fetchCommit, .ok => World.on w (.bl .sunxiSyterkit) fun t => { t with fetched := some SYTERKIT_COMMIT }
  | .checkoutFetchHead, .ok =>
    World.on w (.bl .sunxiSyterkit) fun t => { t with head := (t.fetched.map Ref.commit).getD t.head }
  | .checkoutHash, .ok => World.on w .rkbin fun t => { t with head := .commit RKBIN_BRANCH_HASH }
  | .rmLinux, .ok => (.ok, Function.update w .linux none)
  | _, r => (r.stat, w)

/-! ## The script -/

/-- `if ! git clone ... ; then git clone ... ; fi` -/
def cloneLinux : Sh Cmd World := .seq (.cmd .cdWorkspace) (.ite (.cmd (.clone .linux)) .tt (.cmd .cloneGitee))

/-- the tree is a clone of `LINUX_REPO` on the branch `LINUX_BRANCH` -/
def current (p : Params) (w : World) : Bool :=
  match w .linux with
  | some ⟨origin, .branch b, _⟩ => origin = p.LINUX_REPO ∧ b = p.LINUX_BRANCH.name
  | _ => false

def clone_linux (p : Params) : Sh Cmd World :=
  .cond (fun w => (w .linux).isSome)
    (seqs [block [.pushd .linux, .remoteUpdate, .gitConfig],
      .cond (current p) (.cmd (.pull .linux)) (.seq (.cmd .rmLinux) cloneLinux), .cmd (.popd .linux)])
    cloneLinux

/-- pull the tree of `${BL_CONFIG}` if it is there, and else do something -/
def pullOr (d : Dir) (l : List Cmd) : Sh Cmd World :=
  .cond (fun w => (w d).isSome) (block [.pushd d, .pull d, .popd d]) (block l)

/-- `SYTERKIT_COMMIT` is set -/
def clone_syterkit (p : Params) : Sh Cmd World :=
  seqs [.cond (fun w => (w p.bl).isSome) (block [.pushd p.bl, .rmBuild, .popd p.bl]) (block [.clone p.bl]),
    block [.fetchCommit, .checkoutFetchHead]]

def clone_atf (p : Params) : Sh Cmd World := pullOr p.bl [.clone .atf]

def clone_rkbin (p : Params) : Sh Cmd World := pullOr p.bl [.clone .rkbin, .pushd .rkbin, .checkoutHash, .popd .rkbin]

def clone_u_boot (p : Params) : Sh Cmd World := pullOr p.bl [.clone p.bl]

def cloneBootloader (p : Params) : Sh Cmd World :=
  match p.sel.board.BL_CONFIG with
  | .sunxiSyterkit => clone_syterkit p
  | .sunxiUboot => seqs [clone_atf p, clone_u_boot p]
  | .rockchipUboot => seqs [clone_rkbin p, clone_u_boot p]

def fetch (p : Params) : Sh Cmd World :=
  seqs [.errexit true, cloneBootloader p, clone_linux p,
    .cond (fun w => (w p.bl).isNone && (w .linux).isNone) (.exit 2) .tt]

/-- a run, with what its commands are answered -/
structure Run where
  params : Params
  env : Cmd → Resp

def Run.st (r : Run) (w : World) : St Cmd World := run (exec r.params r.env) (fetch r.params) w

def step (w : World) (r : Run) : World := (r.st w).w

/-- nothing goes wrong outside; the tree of U-Boot at its tag can be pulled or not -/
def works (onTag : Bool) : Cmd → Resp := fun c => if c = .pull (.bl .sunxiUboot) ∧ onTag = false then .fail false else .ok

/-! ## What a run should do -/

/-- the tree is there, at what the board file says -/
def At (w : World) (d : Dir) (url : String) (ref : Ref) : Prop := ∃ t, w d = some t ∧ t.origin = url ∧ t.head = ref

/-- the trees of the bootloader -/
structure BootSources (p : Params) (w : World) : Prop where
  bl : At w p.bl (p.REPO p.bl) (if p.sel.board.BL_CONFIG = .sunxiSyterkit then .commit SYTERKIT_COMMIT else p.BRANCH p.bl)
  atf : p.sel.board.BL_CONFIG = .sunxiUboot → At w .atf (p.REPO .atf) (p.BRANCH .atf)
  rkbin : p.sel.board.BL_CONFIG = .rockchipUboot → At w .rkbin (p.REPO .rkbin) (.commit RKBIN_BRANCH_HASH)

/-- every tree that the build of the board needs -/
structure Sources (p : Params) (w : World) : Prop extends BootSources p w where
  linux : At w .linux p.LINUX_REPO p.LINUX_BRANCH

/-- **A run in which nothing goes wrong outside gets the sources** -/
structure Recovers (p : Params) (onTag : Bool) (w : World) : Prop where
  status : (Run.st ⟨p, works onTag⟩ w).stat = .ok
  sources : Sources p (step w ⟨p, works onTag⟩)

/-! ## What runs keep -/

/-- rkbin is at its commit -/
def RkbinReady (w : World) : Prop := At w .rkbin "https://github.com/rockchip-linux/rkbin.git" (.commit RKBIN_BRANCH_HASH)

/-- ATF is at its tag -/
def AtfReady (w : World) : Prop := At w .atf "https://github.com/ARM-software/arm-trusted-firmware.git" (.tag "lts-v2.10.4")

/-- the trees that are there are clones for their board, and U-Boot is fetched after ATF or rkbin -/
structure Kept (w : World) : Prop where
  syterkit : ∀ t, w (.bl .sunxiSyterkit) = some t → t.origin = "https://github.com/YuzukiHD/SyterKit"
  sunxi : ∀ t, w (.bl .sunxiUboot) = some t → t.origin = "https://github.com/u-boot/u-boot.git" ∧ t.head = .tag "v2023.10"
  rockchip : ∀ t, w (.bl .rockchipUboot) = some t →
    t.origin = "https://github.com/dshanpi/dshanpi-a1-uboot.git" ∧ t.head = .branch "master"
  linux : ∀ t, w .linux = some t → ∃ q : Params, t.head = q.LINUX_BRANCH
  afterAtf : (w (.bl .sunxiUboot)).isSome = true → AtfReady w
  afterRkbin : (w (.bl .rockchipUboot)).isSome = true → RkbinReady w

section Kept

variable {p : Params} {env : Cmd → Resp} {c : Cmd} {w : World}

theorem clone_other {d d' : Dir} {url : String} {ref : Ref} (h : d' ≠ d) : (clone w d url ref).2 d' = w d' := by
  unfold clone
  split
  · rfl
  · split_ifs
    · rfl
    · exact Function.update_of_ne h ..

theorem clone_self {d : Dir} {url : String} {ref : Ref} {t : Tree} (h : (clone w d url ref).2 d = some t) :
    w d = some t ∨ w d = none ∧ t = ⟨url, ref, none⟩ := by
  unfold clone at h
  split at h
  · exact Or.inl h
  · split_ifs at h
    · exact Or.inl h
    · simp only [Function.update_self, Option.some.injEq] at h
      exact Or.inr ⟨‹_›, h.symm⟩

theorem on_other {d d' : Dir} {f : Tree → Tree} (h : d' ≠ d) : (World.on w d f).2 d' = w d' := by
  unfold World.on
  split
  · exact Function.update_of_ne h ..
  · rfl

theorem on_self {d : Dir} {f : Tree → Tree} {t : Tree} (h : (World.on w d f).2 d = some t) :
    ∃ t₀, w d = some t₀ ∧ t = f t₀ := by
  unfold World.on at h
  split at h
  · simp only [Function.update_self, Option.some.injEq] at h
    exact ⟨_, ‹_›, h.symm⟩
  · exact absurd (‹w d = none›.symm.trans h) (by simp)

/-- what a command can do to a tree -/
theorem exec_tree (d : Dir) {t : Tree} (h : (exec p env c w).2 d = some t) :
    w d = some t ∨
      (w d = none ∧ c = .clone d ∧ t = ⟨p.REPO d, p.BRANCH d, none⟩) ∨
      (w d = none ∧ d = .linux ∧ t = ⟨p.LINUX_GITEE_REPO, p.LINUX_BRANCH, none⟩) ∨
      (d = .bl .sunxiSyterkit ∧ ∃ t₀, w d = some t₀ ∧ t.origin = t₀.origin) ∨
      (d = .rkbin ∧ ∃ t₀, w d = some t₀ ∧ t = { t₀ with head := .commit RKBIN_BRANCH_HASH }) := by
  cases he : env c with
  | fail q => exact Or.inl (by cases c <;> simpa [exec, he] using h)
  | kill q => exact Or.inl (by cases c <;> simpa [exec, he] using h)
  | ok =>
    cases c with
    | clone d' =>
      simp only [exec, he] at h
      by_cases hd : d = d'
      · subst hd
        exact (clone_self h).imp_right fun ⟨h1, h2⟩ => Or.inl ⟨h1, rfl, h2⟩
      · exact Or.inl ((clone_other hd).symm.trans h)
    | cloneGitee =>
      simp only [exec, he] at h
      by_cases hd : d = .linux
      · subst hd
        exact (clone_self h).imp_right fun ⟨h1, h2⟩ => Or.inr (Or.inl ⟨h1, rfl, h2⟩)
      · exact Or.inl ((clone_other hd).symm.trans h)
    | fetchCommit | checkoutFetchHead =>
      simp only [exec, he] at h
      by_cases hd : d = .bl .sunxiSyterkit
      · subst hd
        obtain ⟨t₀, h0, rfl⟩ := on_self h
        exact Or.inr (Or.inr (Or.inr (Or.inl ⟨rfl, t₀, h0, rfl⟩)))
      · exact Or.inl ((on_other hd).symm.trans h)
    | checkoutHash =>
      simp only [exec, he] at h
      by_cases hd : d = .rkbin
      · subst hd
        obtain ⟨t₀, h0, rfl⟩ := on_self h
        exact Or.inr (Or.inr (Or.inr (Or.inr ⟨rfl, t₀, h0, rfl⟩)))
      · exact Or.inl ((on_other hd).symm.trans h)
    | rmLinux =>
      simp only [exec, he] at h
      by_cases hd : d = .linux
      · subst hd
        simp at h
      · exact Or.inl ((Function.update_of_ne hd ..).symm.trans h)
    | pushd _ | popd _ | cdWorkspace | pull _ | rmBuild | remoteUpdate | gitConfig =>
      exact Or.inl (by simpa [exec, he] using h)

/-- a tree that a command does not make is there before -/
theorem exec_isSome {d : Dir} (h : ((exec p env c w).2 d).isSome = true) : (w d).isSome = true ∨ c = .clone d ∨ d = .linux := by
  obtain ⟨t, ht⟩ := Option.isSome_iff_exists.1 h
  rcases exec_tree d ht with h | ⟨-, h, -⟩ | ⟨-, h, -⟩ | ⟨-, t₀, h, -⟩ | ⟨-, t₀, h, -⟩
  · exact Or.inl (by simp [h])
  · exact Or.inr (Or.inl h)
  · exact Or.inr (Or.inr h)
  · exact Or.inl (by simp [h])
  · exact Or.inl (by simp [h])

/-- a tree that is there stays, linux apart -/
theorem exec_stays {d : Dir} (hd : d ≠ .linux) (h : (w d).isSome = true) : ((exec p env c w).2 d).isSome = true := by
  have hclone : ∀ d' url ref, ((clone w d' url ref).2 d).isSome = true := by
    intro d' url ref
    unfold clone
    split
    · exact h
    · split_ifs
      · exact h
      · by_cases he : d = d'
        · simp [he]
        · simpa [Function.update_of_ne he] using h
  have hon : ∀ d' f, ((World.on w d' f).2 d).isSome = true := by
    intro d' f
    unfold World.on
    split
    · by_cases he : d = d'
      · simp [he]
      · simpa [Function.update_of_ne he] using h
    · exact h
  unfold exec
  split <;> first | exact hclone .. | exact hon .. | exact h | simpa [Function.update_of_ne hd] using h

theorem exec_atf (h : AtfReady w) : AtfReady (exec p env c w).2 := by
  obtain ⟨t, ht, ho, hh⟩ := h
  have hstay : ((exec p env c w).2 .atf).isSome = true := exec_stays (by simp) (by simp [ht])
  obtain ⟨t', ht'⟩ := Option.isSome_iff_exists.1 hstay
  rcases exec_tree _ ht' with h1 | ⟨h1, -⟩ | ⟨h1, -⟩ | ⟨h1, -⟩ | ⟨h1, -⟩
  · obtain rfl := Option.some.inj (ht.symm.trans h1)
    exact ⟨_, ht', ho, hh⟩
  · exact absurd (h1.symm.trans ht) (by simp)
  · exact absurd (h1.symm.trans ht) (by simp)
  all_goals exact absurd h1 (by simp)

theorem exec_rkbin (h : RkbinReady w) : RkbinReady (exec p env c w).2 := by
  obtain ⟨t, ht, ho, hh⟩ := h
  have hstay : ((exec p env c w).2 .rkbin).isSome = true := exec_stays (by simp) (by simp [ht])
  obtain ⟨t', ht'⟩ := Option.isSome_iff_exists.1 hstay
  rcases exec_tree _ ht' with h1 | ⟨h1, -⟩ | ⟨-, h1, -⟩ | ⟨h1, -⟩ | ⟨-, t₀, h1, rfl⟩
  · obtain rfl := Option.some.inj (ht.symm.trans h1)
    exact ⟨_, ht', ho, hh⟩
  · exact absurd (h1.symm.trans ht) (by simp)
  · exact absurd h1 (by simp)
  · exact absurd h1 (by simp)
  · obtain rfl := Option.some.inj (ht.symm.trans h1)
    exact ⟨_, ht', ho, rfl⟩

/-- **What a command keeps**; U-Boot is cloned where ATF or rkbin is ready -/
theorem exec_kept (ha : c = .clone (.bl .sunxiUboot) → AtfReady w) (hc : c = .clone (.bl .rockchipUboot) → RkbinReady w)
    (h : Kept w) : Kept (exec p env c w).2 := by
  refine ⟨fun t ht => ?_, fun t ht => ?_, fun t ht => ?_, fun t ht => ?_, fun hs => ?_, fun hs => ?_⟩
  · rcases exec_tree _ ht with h1 | ⟨-, -, rfl⟩ | ⟨-, hd, -⟩ | ⟨-, t₀, h1, h2⟩ | ⟨hd, -⟩
    · exact h.syterkit t h1
    · rfl
    · exact absurd hd (by simp)
    · exact h2.trans (h.syterkit t₀ h1)
    · exact absurd hd (by simp)
  · rcases exec_tree _ ht with h1 | ⟨-, -, rfl⟩ | ⟨-, hd, -⟩ | ⟨hd, -⟩ | ⟨hd, -⟩
    · exact h.sunxi t h1
    · exact ⟨rfl, rfl⟩
    all_goals exact absurd hd (by simp)
  · rcases exec_tree _ ht with h1 | ⟨-, -, rfl⟩ | ⟨-, hd, -⟩ | ⟨hd, -⟩ | ⟨hd, -⟩
    · exact h.rockchip t h1
    · exact ⟨rfl, rfl⟩
    all_goals exact absurd hd (by simp)
  · rcases exec_tree _ ht with h1 | ⟨-, -, rfl⟩ | ⟨-, -, rfl⟩ | ⟨hd, -⟩ | ⟨hd, -⟩
    · exact h.linux t h1
    · exact ⟨p, rfl⟩
    · exact ⟨p, rfl⟩
    all_goals exact absurd hd (by simp)
  · rcases exec_isSome hs with h1 | h1 | h1
    · exact exec_atf (h.afterAtf h1)
    · exact exec_atf (ha h1)
    · exact absurd h1 (by simp)
  · rcases exec_isSome hs with h1 | h1 | h1
    · exact exec_rkbin (h.afterRkbin h1)
    · exact exec_rkbin (hc h1)
    · exact absurd h1 (by simp)

end Kept

section Runs

variable {p : Params} {env : Cmd → Resp} {w : World}

/-- where the bootloader's trees are fetched -/
def atClone (w : World) : St Cmd World := ⟨w, true, true, .run, []⟩

theorem st_eq (r : Run) (w : World) :
    r.st w = (((eval (exec r.params r.env) false (cloneBootloader r.params) (atClone w)).next
      (eval (exec r.params r.env) false (clone_linux r.params))).next
        (eval (exec r.params r.env) false
          (.cond (fun w => (w r.params.bl).isNone && (w .linux).isNone) (.exit 2) .tt))) := by
  rw [Run.st, run, fetch]
  simp only [seqs, eval, start, atClone, next_assoc]
  rw [next_run rfl]
  simp only [next_id]

theorem env_of_ok {c : Cmd} (h : (exec p env c w).1 = .ok) : env c = .ok := by
  cases he : env c with
  | ok => rfl
  | fail q => cases c <;> simp [exec, he, Resp.stat] at h
  | kill q => cases c <;> simp [exec, he, Resp.stat] at h

/-- after `clone_atf` ATF is ready -/
theorem clone_atf_ready (hp : p.sel.board.BL_CONFIG = .sunxiUboot) {s : St Cmd World} (he : s.e = true)
    (hr : s.out = .run) (hw : Kept s.w) (h : (eval (exec p env) false (clone_atf p) s).out = .run) :
    AtfReady (eval (exec p env) false (clone_atf p) s).w := by
  have hbl : p.bl = .bl .sunxiUboot := congrArg Dir.bl hp
  unfold clone_atf pullOr at h ⊢
  rw [eval, hbl] at h ⊢
  split_ifs at h ⊢ with hd
  · exact eval_inv _ AtfReady _ _ (fun c _ w h => exec_atf h) s (hw.afterAtf hd)
  · have hall := (eval_block_trace _ _ s he hr).1 h
    rw [(eval_block_run _ _ _ s h).1]
    simp only [trace, List.forall_mem_cons, decide_eq_true_iff] at hall
    obtain ⟨h1, -⟩ := hall
    have e1 := env_of_ok h1
    cases ha : s.w .atf with
    | some t => simp [exec, e1, clone, ha] at h1
    | none => simp [effect, exec, e1, clone, ha, Params.REPO, Params.BRANCH, AtfReady, At]

/-- after `clone_rkbin` rkbin is ready -/
theorem clone_rkbin_ready (hp : p.sel.board.BL_CONFIG = .rockchipUboot) {s : St Cmd World} (he : s.e = true)
    (hr : s.out = .run) (hw : Kept s.w) (h : (eval (exec p env) false (clone_rkbin p) s).out = .run) :
    RkbinReady (eval (exec p env) false (clone_rkbin p) s).w := by
  have hbl : p.bl = .bl .rockchipUboot := congrArg Dir.bl hp
  unfold clone_rkbin pullOr at h ⊢
  rw [eval, hbl] at h ⊢
  split_ifs at h ⊢ with hd
  · exact eval_inv _ RkbinReady _ _ (fun c _ w h => exec_rkbin h) s (hw.afterRkbin hd)
  · have hall := (eval_block_trace _ _ s he hr).1 h
    rw [(eval_block_run _ _ _ s h).1]
    simp only [trace, List.forall_mem_cons, decide_eq_true_iff] at hall
    obtain ⟨h1, h2, h3, -⟩ := hall
    have e1 := env_of_ok h1
    have e2 := env_of_ok h2
    have e3 := env_of_ok h3
    cases hrk : s.w .rkbin with
    | some t => simp [exec, e1, clone, hrk] at h1
    | none => simp [effect, exec, e1, e2, e3, clone, hrk, World.on, Params.REPO, RkbinReady, At]

/-- a script without the clones of U-Boot -/
theorem eval_kept {a : Sh Cmd World} (ha : .clone (.bl .sunxiUboot) ∉ a.cmds) (hc : .clone (.bl .rockchipUboot) ∉ a.cmds)
    {s : St Cmd World} (h : Kept s.w) : Kept (eval (exec p env) false a s).w :=
  eval_inv _ Kept _ a (fun _ hx _ hw => exec_kept (fun he => absurd (he ▸ hx) ha) (fun he => absurd (he ▸ hx) hc) hw) s h

theorem cloneBootloader_kept {s : St Cmd World} (he : s.e = true) (hr : s.out = .run) (h : Kept s.w) :
    Kept (eval (exec p env) false (cloneBootloader p) s).w := by
  cases hb : p.sel.board.BL_CONFIG with
  | sunxiSyterkit =>
    apply eval_kept _ _ h <;>
      simp [cloneBootloader, hb, clone_syterkit, Params.bl, seqs, Sh.cmds]
  | sunxiUboot =>
    have hbl : p.bl = .bl .sunxiUboot := congrArg Dir.bl hb
    simp only [cloneBootloader, hb, seqs, eval, next_id]
    have hatf : Kept (eval (exec p env) false (clone_atf p) s).w := by
      apply eval_kept _ _ h <;> simp [clone_atf, pullOr, Sh.cmds]
    refine next_w hatf fun hrun => ?_
    have hready := clone_atf_ready hb he hr h hrun
    have hother : Cmd.clone (.bl .rockchipUboot) ∉ (clone_u_boot p).cmds := by simp [clone_u_boot, pullOr, hbl, Sh.cmds]
    exact (eval_inv _ (fun w => Kept w ∧ AtfReady w) _ (clone_u_boot p) (fun _ hc _ hw =>
      ⟨exec_kept (fun _ => hw.2) (fun he => absurd (he ▸ hc) hother) hw.1, exec_atf hw.2⟩) _ ⟨hatf, hready⟩).1
  | rockchipUboot =>
    have hbl : p.bl = .bl .rockchipUboot := congrArg Dir.bl hb
    simp only [cloneBootloader, hb, seqs, eval, next_id]
    have hrk : Kept (eval (exec p env) false (clone_rkbin p) s).w := by
      apply eval_kept _ _ h <;> simp [clone_rkbin, pullOr, Sh.cmds]
    refine next_w hrk fun hrun => ?_
    have hready := clone_rkbin_ready hb he hr h hrun
    have hother : Cmd.clone (.bl .sunxiUboot) ∉ (clone_u_boot p).cmds := by simp [clone_u_boot, pullOr, hbl, Sh.cmds]
    exact (eval_inv _ (fun w => Kept w ∧ RkbinReady w) _ (clone_u_boot p) (fun _ hc _ hw =>
      ⟨exec_kept (fun he => absurd (he ▸ hc) hother) (fun _ => hw.2) hw.1, exec_rkbin hw.2⟩) _ ⟨hrk, hready⟩).1

/-- **What a run keeps**, whatever fails in it -/
theorem step_kept (r : Run) (h : Kept w) : Kept (step w r) := by
  rw [step, st_eq]
  have hboot : Kept (eval (exec r.params r.env) false (cloneBootloader r.params) (atClone w)).w :=
    cloneBootloader_kept rfl rfl h
  have hlinux : Kept ((eval (exec r.params r.env) false (cloneBootloader r.params) (atClone w)).next
      (eval (exec r.params r.env) false (clone_linux r.params))).w := by
    refine next_w hboot fun _ => eval_kept ?_ ?_ hboot <;>
      simp [clone_linux, cloneLinux, seqs, Sh.cmds]
  exact next_w hlinux fun _ => eval_kept (by simp [Sh.cmds]) (by simp [Sh.cmds]) hlinux

theorem runs_kept (l : List Run) : Kept (runs step emptyWorkspace l) := by
  refine runs_inv (P := fun _ _ => True) (fun w r hw _ => step_kept r hw) ?_ (each_true _ _)
  refine ⟨?_, ?_, ?_, ?_, ?_, ?_⟩ <;> simp [emptyWorkspace]

end Runs

/-! ## A run in which nothing fails -/

section Works

variable {p : Params} {onTag : Bool} {s : St Cmd World}

theorem LINUX_REPO_ne (p : Params) : p.LINUX_REPO ≠ "" := by
  have hrepo : p.linuxRepo ≠ "" := by
    unfold Params.linuxRepo
    split <;> (try split) <;> decide
  unfold Params.LINUX_REPO
  split_ifs
  · intro h
    have hl := congrArg String.length h
    simp only [String.length_append] at hl
    have h1 : "/".length = 1 := by decide
    have h0 : "".length = 0 := by decide
    omega
  · exact hrepo

theorem works_ok {c : Cmd} (hc : c ≠ .pull (.bl .sunxiUboot)) : works onTag c = .ok := if_neg fun h => hc h.1

theorem cloneLinux_works (hl : s.w .linux = none) (hr : s.out = .run) :
    eval (exec p (works onTag)) false cloneLinux s =
      { s with w := Function.update s.w .linux (some ⟨p.LINUX_REPO, p.LINUX_BRANCH, none⟩), ok := true,
               log := s.log ++ [(.cdWorkspace, true), (.clone .linux, true)] } := by
  simp [cloneLinux, eval, simple, exec, works, clone, St.next, hl, hr, LINUX_REPO_ne, Params.REPO, Params.BRANCH, Resp.stat]

/-- a tree that is pulled is what the board needs: no branch of the board files has the name of a tag -/
theorem current_at {w : World} (hw : ∀ t, w .linux = some t → ∃ q : Params, t.head = q.LINUX_BRANCH)
    (h : current p w = true) : At w .linux p.LINUX_REPO p.LINUX_BRANCH := by
  unfold current at h
  split at h
  · rename_i origin b f hl
    obtain ⟨ho, hb⟩ := of_decide_eq_true h
    refine ⟨_, hl, ho, ?_⟩
    obtain ⟨q, hq⟩ := hw _ hl
    have hname : ∀ p q : Params, ∀ b, Ref.branch b = q.LINUX_BRANCH → b = p.LINUX_BRANCH.name →
        Ref.branch b = p.LINUX_BRANCH := by
      intro p q b
      unfold Params.LINUX_BRANCH
      split <;> split <;> (try split) <;> (try split) <;> simp +contextual [Ref.name]
    exact hname p q b hq hb
  · simp at h

/-- linux is cloned, or pulled if it is what the board needs, or cloned anew -/
theorem clone_linux_works (p : Params) (onTag : Bool) (hw : Kept s.w) (hr : s.out = .run) :
    let t := eval (exec p (works onTag)) false (clone_linux p) s
    t.out = .run ∧ At t.w .linux p.LINUX_REPO p.LINUX_BRANCH ∧ ∀ d, d ≠ .linux → t.w d = s.w d := by
  have hat : ∀ w : World, At (Function.update w .linux (some ⟨p.LINUX_REPO, p.LINUX_BRANCH, none⟩)) .linux p.LINUX_REPO
      p.LINUX_BRANCH := fun w => ⟨_, Function.update_self .., rfl, rfl⟩
  cases hl : s.w .linux with
  | none =>
    have hc : eval (exec p (works onTag)) false (clone_linux p) s = eval (exec p (works onTag)) false cloneLinux s := by
      simp [clone_linux, eval, hl]
    rw [hc, cloneLinux_works hl hr]
    exact ⟨hr, hat s.w, fun d hd => Function.update_of_ne hd ..⟩
  | some t =>
    by_cases hcur : current p s.w = true
    · have hat := current_at hw.linux hcur
      simp [clone_linux, eval, seqs, block, simple, exec, works, St.next, hl, hr, hcur, hat, Resp.stat]
    · simp only [clone_linux, eval, seqs, block, simple, exec, works_ok, ne_eq, reduceCtorEq, not_false_eq_true, next_run, hl,
        hr, hcur, Resp.stat, Option.isSome_some, if_true, next_id]
      simp [cloneLinux_works, next_run, hat]
      intro d hd
      simp [Function.update_of_ne hd]

/-- the tree of `${BL_CONFIG}` is there, and can be pulled -/
theorem pullOr_there (p : Params) (onTag : Bool) {d : Dir} {l : List Cmd} {t : Tree} (hd : s.w d = some t)
    (ht : d = .bl .sunxiUboot → onTag = true) (hr : s.out = .run) :
    (eval (exec p (works onTag)) false (pullOr d l) s).out = .run ∧
      (eval (exec p (works onTag)) false (pullOr d l) s).w = s.w ∧
        (eval (exec p (works onTag)) false (pullOr d l) s).e = s.e := by
  have hpull : works onTag (.pull d) = .ok := by
    refine if_neg fun ⟨he, hf⟩ => ?_
    rw [ht (Cmd.pull.inj he)] at hf
    exact absurd hf (by decide)
  simp [pullOr, eval, block, simple, exec, hpull, works_ok, St.next, hd, hr, Resp.stat]

/-- the tree of U-Boot is there at its tag, and cannot be pulled -/
theorem pullOr_refused {l : List Cmd} {t : Tree} (hd : s.w (.bl .sunxiUboot) = some t) (hr : s.out = .run) (he : s.e = true) :
    (eval (exec p (works false)) false (pullOr (.bl .sunxiUboot) l) s).out ≠ .run := by
  simp [pullOr, eval, block, simple, exec, works, St.next, hd, hr, check, he, Resp.stat]

/-- the state from which a run with working commands gets the bootloader's trees -/
def Recoverable (b : Board) (onTag : Bool) (w : World) : Prop :=
  match b.BL_CONFIG with
  | .sunxiSyterkit => True
  | .sunxiUboot => if (w (.bl .sunxiUboot)).isSome then onTag = true else w .atf = none
  | .rockchipUboot => w .rkbin = none ∨ (w (.bl .rockchipUboot)).isSome = true

/-- **SyterKit**: the commit is fetched and checked out, whatever was there -/
theorem syterkit_works {w : World} (hb : p.sel.board.BL_CONFIG = .sunxiSyterkit) (hw : Kept w) :
    (eval (exec p (works onTag)) false (clone_syterkit p) (atClone w)).out = .run ∧
      BootSources p (eval (exec p (works onTag)) false (clone_syterkit p) (atClone w)).w := by
  have hbl : p.bl = .bl .sunxiSyterkit := congrArg Dir.bl hb
  have hboot : ∀ o f, o = "https://github.com/YuzukiHD/SyterKit" →
      BootSources p (Function.update w (.bl .sunxiSyterkit) (some ⟨o, .commit SYTERKIT_COMMIT, f⟩)) := by
    rintro o f rfl
    refine ⟨?_, fun h => absurd (hb.symm.trans h) (by decide), fun h => absurd (hb.symm.trans h) (by decide)⟩
    rw [hbl, if_pos hb]
    exact ⟨_, Function.update_self .., rfl, rfl⟩
  cases hd : w (.bl .sunxiSyterkit) with
  | none =>
    simp [clone_syterkit, hbl, seqs, block, eval, simple, exec, works, clone, atClone, hd, next_run, Params.REPO,
      World.on, hboot]
  | some t =>
    have ho := hw.syterkit t hd
    simp [clone_syterkit, hbl, seqs, block, eval, simple, exec, works, atClone, hd, next_run, World.on, Resp.stat, hboot, ho]

/-- **U-Boot with ATF**: both or none -/
theorem sunxi_works {w : World} (hb : p.sel.board.BL_CONFIG = .sunxiUboot) (hw : Kept w) :
    let t := eval (exec p (works onTag)) false (seqs [clone_atf p, clone_u_boot p]) (atClone w)
    (t.out = .run ↔ if (w (.bl .sunxiUboot)).isSome then onTag = true else w .atf = none) ∧
      (t.out = .run → BootSources p t.w) := by
  have hbl : p.bl = .bl .sunxiUboot := congrArg Dir.bl hb
  simp only [seqs, clone_atf, clone_u_boot, hbl]
  cases hd : w (.bl .sunxiUboot) with
  | some t =>
    cases onTag with
    | false =>
      have hstop : (eval (exec p (works false)) false (pullOr (.bl .sunxiUboot) [.clone .atf]) (atClone w)).out ≠ .run :=
        pullOr_refused hd rfl rfl
      rw [eval, next_stop hstop]
      simp [hstop]
    | true =>
      obtain ⟨ho, hh⟩ := hw.sunxi t hd
      have hatf := hw.afterAtf (by simp [hd])
      obtain ⟨h1, hw1, -⟩ := pullOr_there p true (s := atClone w) (l := [.clone .atf]) hd (fun _ => rfl) rfl
      simp only [eval, next_id]
      rw [next_run h1]
      generalize eval (exec p (works true)) false (pullOr (.bl .sunxiUboot) [.clone .atf]) (atClone w) = u at h1 hw1 ⊢
      have hwu : u.w = w := hw1
      obtain ⟨h2, hw2, -⟩ := pullOr_there p true (l := [.clone (.bl .sunxiUboot)]) (hwu.symm ▸ hd)
        (fun _ => rfl) h1
      refine ⟨iff_of_true h2 (by simp), fun _ => ?_⟩
      rw [hw2, hwu]
      refine ⟨?_, fun _ => hatf, fun h => absurd (hb.symm.trans h) (by decide)⟩
      rw [hbl, if_neg (by rw [hb]; decide)]
      exact ⟨t, hd, ho, hh⟩
  | none =>
    cases ha : w .atf with
    | some t =>
      simp [pullOr, block, eval, simple, exec, works, clone, atClone, hd, ha, check, St.next]
    | none =>
      simp [pullOr, block, eval, simple, exec, works, clone, atClone, hd, ha, St.next, Params.REPO]
      refine ⟨?_, fun _ => ?_, fun h => absurd (hb.symm.trans h) (by decide)⟩
      · rw [hbl, if_neg (by rw [hb]; decide)]
        exact ⟨_, Function.update_self .., rfl, rfl⟩
      · exact ⟨⟨p.REPO .atf, p.BRANCH .atf, none⟩, by simp [Params.REPO], rfl, rfl⟩

/-- **U-Boot with rkbin**: both or none -/
theorem rockchip_works {w : World} (hb : p.sel.board.BL_CONFIG = .rockchipUboot) (hw : Kept w) :
    let t := eval (exec p (works onTag)) false (seqs [clone_rkbin p, clone_u_boot p]) (atClone w)
    (t.out = .run ↔ w .rkbin = none ∨ (w (.bl .rockchipUboot)).isSome = true) ∧ (t.out = .run → BootSources p t.w) := by
  have hbl : p.bl = .bl .rockchipUboot := congrArg Dir.bl hb
  simp only [seqs, clone_rkbin, clone_u_boot, hbl]
  cases hd : w (.bl .rockchipUboot) with
  | some t =>
    obtain ⟨ho, hh⟩ := hw.rockchip t hd
    have hready := hw.afterRkbin (by simp [hd])
    obtain ⟨h1, hw1, -⟩ := pullOr_there p onTag (s := atClone w)
      (l := [.clone .rkbin, .pushd .rkbin, .checkoutHash, .popd .rkbin]) hd (by simp) rfl
    simp only [eval, next_id]
    rw [next_run h1]
    generalize eval (exec p (works onTag)) false (pullOr (.bl .rockchipUboot) [.clone .rkbin, .pushd .rkbin, .checkoutHash,
      .popd .rkbin]) (atClone w) = u at h1 hw1 ⊢
    have hwu : u.w = w := hw1
    obtain ⟨h2, hw2, -⟩ := pullOr_there p onTag (l := [.clone (.bl .rockchipUboot)]) (hwu.symm ▸ hd)
      (by simp) h1
    refine ⟨iff_of_true h2 (Or.inr (by simp)), fun _ => ?_⟩
    rw [hw2, hwu]
    refine ⟨?_, fun h => absurd (hb.symm.trans h) (by decide), fun _ => hready⟩
    rw [hbl, if_neg (by rw [hb]; decide)]
    exact ⟨t, hd, ho, hh⟩
  | none =>
    cases ha : w .rkbin with
    | some t =>
      simp [pullOr, block, eval, simple, exec, works, clone, atClone, hd, ha, check, St.next]
    | none =>
      simp [pullOr, block, eval, simple, exec, works, clone, atClone, hd, ha, St.next, Params.REPO, World.on, Resp.stat]
      refine ⟨?_, fun h => absurd (hb.symm.trans h) (by decide), fun _ => ?_⟩
      · rw [hbl, if_neg (by rw [hb]; decide)]
        exact ⟨_, Function.update_self .., rfl, rfl⟩
      · exact ⟨⟨p.REPO .rkbin, .commit RKBIN_BRANCH_HASH, none⟩, by simp [Params.REPO], rfl, rfl⟩

/-- **The bootloader's trees** -/
theorem cloneBootloader_works (p : Params) (onTag : Bool) {w : World} (hw : Kept w) :
    let t := eval (exec p (works onTag)) false (cloneBootloader p) (atClone w)
    (t.out = .run ↔ Recoverable p.sel.board onTag w) ∧ (t.out = .run → BootSources p t.w) := by
  unfold Recoverable
  cases hb : p.sel.board.BL_CONFIG with
  | sunxiSyterkit =>
    simp only [cloneBootloader, hb]
    obtain ⟨hrun, hsources⟩ := syterkit_works hb hw
    exact ⟨iff_of_true hrun trivial, fun _ => hsources⟩
  | sunxiUboot =>
    simp only [cloneBootloader, hb]
    exact sunxi_works hb hw
  | rockchipUboot =>
    simp only [cloneBootloader, hb]
    exact rockchip_works hb hw

/-- the trees of the bootloader do not depend on linux -/
theorem BootSources.frame {w w' : World} (h : BootSources p w) (hw : ∀ d, d ≠ .linux → w' d = w d) : BootSources p w' := by
  have hat : ∀ {d url ref}, d ≠ Dir.linux → At w d url ref → At w' d url ref := by
    rintro d url ref hd ⟨t, ht, h⟩
    exact ⟨t, (hw d hd).trans ht, h⟩
  exact ⟨hat (by simp [Params.bl]) h.bl, fun hb => hat (by simp) (h.atf hb), fun hb => hat (by simp) (h.rkbin hb)⟩

theorem recovers_of_kept {w : World} (hw : Kept w) : Recovers p onTag w ↔ Recoverable p.sel.board onTag w := by
  obtain ⟨hrun, hboot⟩ := cloneBootloader_works p onTag hw
  rw [← hrun]
  have heq : Run.st ⟨p, works onTag⟩ w = ((eval (exec p (works onTag)) false (cloneBootloader p) (atClone w)).next
      (eval (exec p (works onTag)) false (clone_linux p))).next (eval (exec p (works onTag)) false
        (.cond (fun w => (w p.bl).isNone && (w .linux).isNone) (.exit 2) .tt)) := st_eq ⟨p, works onTag⟩ w
  have hkept : Kept (eval (exec p (works onTag)) false (cloneBootloader p) (atClone w)).w := cloneBootloader_kept rfl rfl hw
  have hfail : (cloneBootloader p).failing = true := by
    unfold cloneBootloader
    split <;> rfl
  have hexit := eval_failing (exec p (works onTag)) false _ hfail (atClone w) (by simp [atClone])
  generalize eval (exec p (works onTag)) false (cloneBootloader p) (atClone w) = u at *
  constructor
  · intro h
    by_contra hstop
    have hst := h.status
    rw [heq, next_stop hstop, next_stop hstop] at hst
    exact stat_of_stop hstop hexit hst
  · intro h
    obtain ⟨hl, hat, hother⟩ := clone_linux_works p onTag hkept h
    rw [next_run h] at heq
    generalize eval (exec p (works onTag)) false (clone_linux p) u = t at *
    obtain ⟨l, hlinux, hsrc⟩ := hat
    have hend : Run.st ⟨p, works onTag⟩ w = { t with ok := true } := by
      rw [heq, next_run hl, eval]
      simp [hlinux, eval]
    have hboot := (hboot h).frame hother
    refine ⟨?_, ?_⟩
    · rw [hend, stat_ok_iff]
      exact Or.inr ⟨hl, rfl⟩
    · rw [step, hend]
      exact ⟨hboot, l, hlinux, hsrc⟩

end Works

/-- **The next run gets the sources exactly from these states**, after any runs for any boards, targets and mirrors -/
theorem recovers_iff (p : Params) (onTag : Bool) (history : List Run) :
    Recovers p onTag (runs step emptyWorkspace history) ↔
      Recoverable p.sel.board onTag (runs step emptyWorkspace history) :=
  recovers_of_kept (runs_kept history)

/-- the A1 is fetched after any history -/
theorem a1_recovers (p : Params) (hp : p.sel.board = .avaotaA1) (onTag : Bool) (history : List Run) :
    Recovers p onTag (runs step emptyWorkspace history) := by
  rw [recovers_iff, hp]
  trivial

/-! ## The C1, half fetched -/

def c1 : Params := ⟨⟨.avaotaC1, "bsp", ⟨"sun50i_h618_bsp_defconfig", "none"⟩, Board.linuxConf_c1_bsp⟩, "no"⟩

/-- the clone of U-Boot fails, behind that of ATF -/
def noUboot : Cmd → Resp := fun c => if c = .clone (.bl .sunxiUboot) then .fail false else .ok

/-- **A clone fails once, and no later run gets the sources**: ATF is there and U-Boot is not, so `clone_atf` clones again -/
theorem half_fetched_fails : ¬ Recovers c1 false (runs step emptyWorkspace [⟨c1, noUboot⟩]) ∧
    ¬ Recovers c1 true (runs step emptyWorkspace [⟨c1, noUboot⟩]) :=
  ⟨fun h => absurd h.status (by decide), fun h => absurd h.status (by decide)⟩

end AvaotaOS.Fetch
