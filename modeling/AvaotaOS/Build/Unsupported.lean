/-
A kernel target that the board does not have, on its way through `build_all.sh` and the scripts it calls.

Nothing looks at KERNEL_TARGET but the `case` of the board file, which sets no LINUX_* variable for such a target. The
scripts get the target as an unquoted word of their calls and read the board file again, so what they have may be another
target and another board (`fetchVars`, `target`). With empty variables
- `fetch.sh` has updated linux before it compares the URLs, finds a difference, and removes the tree;
- `build_all.sh` takes a blank `.done` for its own;
- `mklinux.sh` skips the patches and calls `make` without a configuration, which builds what `.config` says.

`writes` counts what is written into the files that a run should leave alone; `kernels` and `accepted` count the kernels that
are built and the packages that are taken as built. The three are not part of the file system.

`Still`, `Grown` and `Spoiled` compare two worlds of a run.

Not modelled: the dialogs, which ask for a target only where it is `none`, and what the later stages read.
-/
import Mathlib.Tactic
import AvaotaOS.Build.Bootloader
import AvaotaOS.Build.Mirror
import AvaotaOS.Core.Triple

namespace AvaotaOS.Unsupported

open Shell ShellWords Args

/-! ## Boards and targets -/

/-- which board file `boards/${BOARD}.conf` is: a path can be written in several ways -/
structure Files where
  board : Word → Option Board
  named : ∀ b : Board, board b.BOARD_NAME.toList = some b

/-- the `case` of a board file -/
def selection (b : Board) (t : Word) : Option Selection :=
  match hc : b.linuxConf (String.ofList t) with
  | some c => some ⟨b, _, c, hc⟩
  | none => none

/-- the board's own kernel; the variables of the bootloader do not depend on the target -/
def bsp : Board → Selection
  | .avaotaA1 => ⟨.avaotaA1, "bsp", ⟨"sun55i_t527_bsp_defconfig", "none"⟩, Board.linuxConf_a1_bsp⟩
  | .avaotaC1 => ⟨.avaotaC1, "bsp", ⟨"sun50i_h618_bsp_defconfig", "none"⟩, Board.linuxConf_c1_bsp⟩
  | .dshanpiA1 => ⟨.dshanpiA1, "bsp", ⟨"rockchip_linux_defconfig", "none"⟩, Board.linuxConf_dshanpi_bsp⟩

/-- a call of `build_all.sh` behind its dialogs, and what it finds outside the workspace -/
structure Call where
  /-- the build directory when a script is called; `build_all.sh` has read its own words in the root of the repository before -/
  host : ParseArgs.Copy → Host
  files : Files
  board : Board
  /-- the settings -/
  S : Setting → Word
  named : S .BOARD = board.BOARD_NAME.toList
  /-- what `mklinux.sh` finds in `patches/` and in the source tree -/
  linux : MkLinux.Params

/-- the settings of a called script behind its `parseargs`; nothing where `help` ends it -/
def Call.received (k : Call) (c : ParseArgs.Copy) : Option (Setting → Word) :=
  (Mirror.accepted (k.host c) c (call (k.host c) c.opts k.S)).map (·.set)

/-! ## The workspace -/

/-- what a run for an unsupported target should leave alone -/
inductive Thing where
  | linux
  /-- `${BOARD}-kernel-pkgs` -/
  | pkgs (BOARD : Word)
  | debData
  /-- `rootfs-${VERSION}-${TYPE}.tar.gz` and the images -/
  | archives
deriving DecidableEq, Repr

/-- the repository that git finds in `linux`: the tree's own, or without a `.git` that of the checkout which the workspace
lies in, if it is one with an origin; this is no kernel's -/
inductive Git where
  | own
  | outer
  | none
deriving DecidableEq, Repr

structure World where
  buildDir : Bool
  trees : Fetch.World
  git : Git
  boot : Bootloader.World
  /-- there are patches in the tree of U-Boot -/
  patched : Bool
  userDefconfig : Bool
  /-- `linux/.config` -/
  dotConfig : Bool
  debData : Bool
  /-- `${BOARD}-kernel-pkgs`, with what `cat` prints of its `.done` -/
  pkgs : Word → Option (Option Word)
  rootfs : Bool
  /-- `rootfs-${VERSION}-${TYPE}.tar.gz` -/
  archive : Bool
  /-- `sdcard.img.xz` -/
  image : Bool
  writes : Thing → ℕ
  kernels : ℕ
  accepted : ℕ

namespace World

variable (w : World)

def wrote (x : Option Thing) : World :=
  match x with
  | some x => { w with writes := Function.update w.writes x (w.writes x + 1) }
  | none => w

def setPkgs (BOARD : Word) (d : Option (Option Word)) : World := { w with pkgs := Function.update w.pkgs BOARD d }

def linux : Bool := (w.trees .linux).isSome

/-- `git config --get remote.origin.url` finds something -/
def hasOrigin : Bool := (w.trees .linux).any fun t =>
  match w.git with
  | .own => t.origin ≠ ""
  | .outer => true
  | .none => false

end World

/-- a command that breaks off has written if it has done a part -/
def wrote (r : Resp) (x : Thing) (w : World) : World := if r = .ok ∨ r.part then w.wrote (some x) else w

/-! ## fetch.sh -/

/-- what `fetch.sh` has in its variables -/
structure Vars where
  board : Board
  KERNEL_TARGET : Word
  GITHUB_MIRROR : String

namespace Vars

variable (v : Vars)

def sel : Option Selection := selection v.board v.KERNEL_TARGET

/-- the variables of the bootloader -/
def params : Fetch.Params := ⟨bsp v.board, v.GITHUB_MIRROR⟩

/-- the variables of a supported target -/
def linux : Option Fetch.Params := v.sel.map fun s => ⟨s, v.GITHUB_MIRROR⟩

def LINUX_REPO : String := (v.linux.map (·.LINUX_REPO)).getD ""

def LINUX_GITEE_REPO : String := (v.linux.map (·.LINUX_GITEE_REPO)).getD ""

def LINUX_BRANCH : Fetch.Ref := (v.linux.map (·.LINUX_BRANCH)).getD (.branch "")

end Vars

/-- one attempt to clone linux; where it fails it leaves no tree -/
def attempt (v : Vars) (url : String) (r : Resp) (w : World) : Stat × World :=
  match r with
  | .ok =>
    match Fetch.clone w.trees .linux url v.LINUX_BRANCH with
    | (.ok, trees) => (.ok, { w with trees := trees, git := .own, dotConfig := false }.wrote (some .linux))
    | (r, _) => (r, w)
  -- an empty URL is refused at once
  | r => (r.stat, if url = "" then w else wrote r .linux w)

/-- a clone is without patches and products, and `rm -rf build-${BOARD}` removes the products -/
def cleaned (v : Vars) (c : Fetch.Cmd) (w : World) : World :=
  if c = .rmBuild ∨ c = .clone v.params.bl then
    { w with patched := false, boot := { w.boot with trees := { w.boot.trees with buildDir := false } } }
  else w

/-- the commands that do not reach linux -/
def execTrees (v : Vars) (env : Fetch.Cmd → Resp) (c : Fetch.Cmd) (w : World) : Stat × World :=
  match Fetch.exec v.params env c w.trees with
  | (.ok, trees) => (.ok, cleaned v c { w with trees := trees })
  | (r, trees) => (r, { w with trees := trees })

def execFetch (v : Vars) (env : Fetch.Cmd → Resp) (c : Fetch.Cmd) (w : World) : Stat × World :=
  match c with
  | .clone .linux => attempt v v.LINUX_REPO (env c) w
  | .cloneGitee => attempt v v.LINUX_GITEE_REPO (env c) w
  | .remoteUpdate => ((env c).stat, if w.git = .own ∧ w.hasOrigin then wrote (env c) .linux w else w)
  | .gitConfig => (if env c = .ok ∧ w.hasOrigin = false then .fail else (env c).stat, w)
  | .pull .linux => ((env c).stat, wrote (env c) .linux w)
  | .rmLinux =>
    ((env c).stat, wrote (env c) .linux
      (if env c = .ok then { w with trees := Function.update w.trees .linux none, dotConfig := false } else w))
  | c => execTrees v env c w

/-- a script of `Fetch` -/
abbrev lift (a : Sh Fetch.Cmd Fetch.World) : Sh Fetch.Cmd World := a.comap World.trees

/-- what `git symbolic-ref --short HEAD` prints -/
def symbolicRef : Fetch.Ref → String
  | .branch b => b
  | _ => ""

/-- the URL and the branch are those of the variables -/
def current (v : Vars) (w : World) : Bool :=
  (w.trees .linux).any fun t => w.git = .own ∧ t.origin = v.LINUX_REPO ∧ symbolicRef t.head = v.LINUX_BRANCH.name

def clone_linux (v : Vars) : Sh Fetch.Cmd World :=
  .cond World.linux
    (seqs [block [.pushd .linux, .remoteUpdate, .gitConfig],
      .cond (current v) (.cmd (.pull .linux)) (.seq (.cmd .rmLinux) (lift Fetch.cloneLinux)), .cmd (.popd .linux)])
    (lift Fetch.cloneLinux)

def fetch (v : Vars) : Sh Fetch.Cmd World :=
  .seq (.errexit true) (seqs [lift (Fetch.cloneBootloader v.params), clone_linux v,
    .cond (fun w => (w.trees v.params.bl).isNone && !w.linux) (.exit 2) .tt])

/-- the variables of `fetch.sh` behind `source ../boards/${BOARD}.conf`; nothing where the script has ended before -/
def Call.fetchVars (k : Call) : Option Vars :=
  (k.received (.script .fetch)).bind fun T =>
    (k.files.board (T .BOARD)).map fun b => ⟨b, T .KERNEL_TARGET, String.ofList (T .GITHUB_MIRROR)⟩

def Call.fetch (k : Call) (env : Fetch.Cmd → Resp) (w : World) : Stat × World :=
  match k.fetchVars with
  | some v =>
    let s := run (execFetch v env) (Unsupported.fetch v) w
    (s.stat, s.w)
  | none => (.fail, w)

/-! ## mkbootloader.sh -/

/-- the commands that need a source tree, or one without patches -/
def hasSources (b : Board) (c : Bootloader.Cmd) (w : World) : Bool :=
  match c with
  | .cdTree => (w.trees (.bl b.BL_CONFIG)).isSome
  | .cdAtf => (w.trees .atf).isSome
  | .patchUboot => (w.trees (.bl b.BL_CONFIG)).isSome && !w.patched
  | .cpBl31Elf | .cpTee => (w.trees .rkbin).isSome
  | _ => true

def execBoot (n : ℕ) (b : Board) (env : Bootloader.Cmd → Resp) (c : Bootloader.Cmd) (w : World) : Stat × World :=
  if env c = .ok ∧ hasSources b c w = false then (.fail, w)
  else
    match Bootloader.exec n b env c w.boot with
    | (r, boot) => (r, { w with boot := boot, patched := w.patched || c == .patchUboot })

def Call.mkbootloader (k : Call) (env : Bootloader.Cmd → Resp) (w : World) : Stat × World :=
  match (k.received .mkbootloader).bind fun T => k.files.board (T .BOARD) with
  | some b =>
    let s := run (execBoot k.linux.id b env) ((Bootloader.script b).comap World.boot) w
    (s.stat, s.w)
  | none => (.fail, w)

/-! ## mklinux.sh -/

/-- what `mklinux.sh` has in its variables; a missing board file does not end it -/
structure Target where
  BOARD : Word
  board : Option Board
  KERNEL_TARGET : Word
  /-- KERNEL_MENUCONFIG is `yes` -/
  menuconfig : Bool

def Target.sel (t : Target) : Option Selection := t.board.bind fun b => selection b t.KERNEL_TARGET

/-- what a command needs to succeed; without a board file ARCH is empty -/
def ready (t : Target) (c : MkLinux.Cmd) (w : World) : Bool :=
  match c with
  | .sourceConf => t.board.isSome
  | .cdLinux _ => w.linux
  | .cpUserDefconfig => w.userDefconfig
  | .makeOlddefconfig | .makeMenuconfig => t.board.isSome
  -- without LINUX_CONFIG the command is `make`
  | .makeDefconfig => t.board.isSome && (t.sel.isSome || w.dotConfig)
  | .makeAll => t.board.isSome && w.dotConfig
  | .saveUserDefconfig => w.dotConfig
  | .dpkgDeb _ | .writeDone => (w.pkgs t.BOARD).isSome
  | _ => true

/-- where a command writes -/
def place (t : Target) : MkLinux.Cmd → Option Thing
  | .cpPatch _ | .patch _ | .rmPatch _ | .cpFiles | .cpUserDefconfig | .makeOlddefconfig | .makeDefconfig | .makeMenuconfig
  | .makeAll => some .linux
  | .rmDebData | .mkdirDebData | .mkdirDtb | .makeDtbsInstall | .mvDtbs | .rmDtbs | .mkdirImage _ | .makeModulesInstall
  | .makeInstall | .mkdirHdr | .mkdirHdrModules | .mkdirTarget _ | .cpItem _ | .mkdirLibcDev | .makeHeadersInstall
  | .gen _ .mkdirDebian | .gen _ (.cat _) | .gen _ (.sed _ _) | .gen _ (.chmod _) | .gen _ .md5sum | .mkdirDoc _
  | .genCopyright _ | .cpChangelog _ | .gzipChangelog _ => some .debData
  | .rmOut | .mkdirOut | .dpkgDeb _ | .writeDone => some (.pkgs t.BOARD)
  | _ => none

def effect (t : Target) (c : MkLinux.Cmd) (w : World) : World :=
  match c with
  | .cpUserDefconfig | .makeOlddefconfig | .makeMenuconfig => { w with dotConfig := true }
  | .makeDefconfig => if t.sel.isSome then { w with dotConfig := true } else { w with kernels := w.kernels + 1 }
  | .makeAll => { w with kernels := w.kernels + 1 }
  | .saveUserDefconfig => { w with userDefconfig := true }
  | .rmDebData => { w with debData := false }
  | .mkdirDebData => { w with debData := true }
  | .rmOut => w.setPkgs t.BOARD none
  | .mkdirOut => w.setPkgs t.BOARD (some ((w.pkgs t.BOARD).getD none))
  | .writeDone => w.setPkgs t.BOARD (some (some ((t.sel.map fun s => s.conf.LINUX_CONFIG.toList).getD [])))
  | _ => w

def execLinux (t : Target) (env : MkLinux.Cmd → Resp) (c : MkLinux.Cmd) (w : World) : Stat × World :=
  match env c with
  | .ok => if ready t c w then (.ok, (effect t c w).wrote (place t c)) else (.fail, w)
  | r => (r.stat, if r.part && ready t c w then w.wrote (place t c) else w)

def needLinux : Sh MkLinux.Cmd World := .cond World.linux .tt (.exit 2)

def patch_kernel (p : MkLinux.Params) : Sh MkLinux.Cmd World :=
  seqs [needLinux,
    match p.patches with
    | some n => (Sh.cmd .lsPatches).when (block (MkLinux.patchLoop n))
    | none => .tt,
    block (MkLinux.patchFiles p)]

/-- `[ ${LINUX_PATHDIR} != "none" ]` is an error where the variable is empty, and the `if` goes on without the patches -/
def patchStage (p : MkLinux.Params) (t : Target) : Sh MkLinux.Cmd World :=
  match t.sel with
  | some s => if s.conf.LINUX_PATHDIR ≠ "none" then patch_kernel p else .tt
  | none => .tt

def menuconfig (t : Target) : List MkLinux.Cmd := if t.menuconfig then [.makeMenuconfig, .saveUserDefconfig] else []

def compile_linux (t : Target) : Sh MkLinux.Cmd World :=
  seqs [needLinux, block [.cdLinux .compile],
    .cond (·.userDefconfig) (block (MkLinux.configure true)) (block (MkLinux.configure false)),
    block (menuconfig t), block [.makeAll],
    .cond (·.debData) (block (MkLinux.freshDebData true)) (block (MkLinux.freshDebData false))]

def install_headers (p : MkLinux.Params) : Sh MkLinux.Cmd World :=
  seqs [block (MkLinux.findBefore p), (if p.archDir then (Sh.cmd .findArchDirs).when .tt else .nop),
    block (if p.archDir then MkLinux.findArch else []), block (MkLinux.findAfter p), block MkLinux.headerDirs, .errexit true,
    (Sh.cmd .catFileList).when (block (MkLinux.headerLoop p.headerItems)), block [.rmFileList], .errexit false]

def pack_kernel_packages (t : Target) : Sh MkLinux.Cmd World :=
  seqs [.cond (fun w => (w.pkgs t.BOARD).isNone) (block (MkLinux.outDir true)) (block (MkLinux.outDir false)),
    block (MkLinux.pkgs.map .dpkgDeb)]

def mklinux (p : MkLinux.Params) (t : Target) : Sh MkLinux.Cmd World :=
  seqs [block MkLinux.sources, .errexit true, patchStage p t, compile_linux t, block MkLinux.install_dtb,
    block MkLinux.install_image_modules, install_headers p, block MkLinux.tail, pack_kernel_packages t, .cmd .writeDone]

/-- the variables of `mklinux.sh` -/
def Call.target (k : Call) : Option Target :=
  (k.received (.script .mklinux)).map fun T =>
    ⟨T .BOARD, k.files.board (T .BOARD), T .KERNEL_TARGET, T .KERNEL_MENUCONFIG = "yes".toList⟩

def Call.mklinux (k : Call) (env : MkLinux.Cmd → Resp) (w : World) : Stat × World :=
  match k.target with
  | some t =>
    let s := run (execLinux t env) (Unsupported.mklinux k.linux t) w
    (s.stat, s.w)
  | none => (.fail, w)

/-! ## build_all.sh -/

inductive Cmd where
  | step (c : BuildAll.Cmd)
  /-- `echo "found kernel packages, skip build kernel."` -/
  | foundKernel
deriving DecidableEq, Repr

/-- what the environment answers to the commands of the four scripts -/
structure Env where
  top : Cmd → Resp
  fetch : Fetch.Cmd → Resp
  boot : Bootloader.Cmd → Resp
  linux : MkLinux.Cmd → Resp

namespace Call

variable (k : Call)

/-- LINUX_CONFIG in `build_all.sh`, which has read the board file itself -/
def LINUX_CONFIG : Word := ((selection k.board (k.S .KERNEL_TARGET)).map fun s => s.conf.LINUX_CONFIG.toList).getD []

def exec (env : Env) (c : Cmd) (w : World) : Stat × World :=
  match c, env.top c with
  | .step .mkdirBuildDir, .ok => (.ok, { w with buildDir := true })
  | .step .fetch, .ok => k.fetch env.fetch w
  | .step .mkbootloader, .ok => k.mkbootloader env.boot w
  | .foundKernel, .ok => (.ok, { w with accepted := w.accepted + 1 })
  | .step .mklinux, .ok => k.mklinux env.linux w
  | .step .mkdirRootfs, .ok => if w.rootfs then (.fail, w) else (.ok, { w with rootfs := true })
  | .step .mkrootfs, .ok => (.ok, { w with rootfs := false, archive := true }.wrote (some .archives))
  | .step .mkrootfs, r => (r.stat, Unsupported.wrote r .archives w)
  | .step .pack, .ok => (.ok, { w with image := true })
  | .step .mvImage, r => (r.stat, Unsupported.wrote r .archives (if r = .ok then { w with image := false } else w))
  | _, r => (r.stat, w)

def steps (l : List BuildAll.Cmd) : Sh Cmd World := block (l.map .step)

/-- up to the sources; LOCAL is `no` or `yes` -/
def prepare : Sh Cmd World :=
  seqs [steps [.aptGetInstall, .aptInstall, .sourceConf 0, .sourceConf 1],
    .cond (·.buildDir) .tt (steps [.mkdirBuildDir]), steps [.cdBuildDir, .cdWorkspace, .sourceBoard],
    if k.S .LOCAL = "no".toList then steps [.fetch] else .tt]

def bootloaderStage : Sh Cmd World := .cond (fun w => w.boot.done k.board) .tt (steps [.mkbootloader])

/-- the packages are taken as built -/
def cached (w : World) : Bool := (w.pkgs (k.S .BOARD)).any fun d => d = some k.LINUX_CONFIG

def kernelStage : Sh Cmd World := .cond k.cached (.cmd .foundKernel) (steps [.mklinux])

def rootfsStage : Sh Cmd World := .cond (·.archive) .tt (Sh.and (steps [.mkdirRootfs]) (steps [.mkrootfs]))

def imageStage : Sh Cmd World := .seq (steps [.pack, .catVersion]) (.cond (·.image) (steps [.mvImage]) (.exit 2))

def back : Sh Cmd World := if k.S .KERNEL_ONLY = "yes".toList then .exit 0 else .seq rootfsStage imageStage

/-- up to the kernel -/
def front : Sh Cmd World := .seq k.prepare (.seq k.bootloaderStage k.kernelStage)

def script : Sh Cmd World := .seq (.errexit true) (.seq k.front k.back)

def build_all (env : Env) (w : World) : St Cmd World := run (k.exec env) k.script w

end Call

/-! ## Nothing happens, and something happens -/

/-- what a run can spoil -/
structure Content where
  writes : Thing → ℕ
  tree : Option Fetch.Tree
  git : Git
  userDefconfig : Bool
  dotConfig : Bool
  debData : Bool
  pkgs : Word → Option (Option Word)
  archive : Bool
  kernels : ℕ
  accepted : ℕ

def World.content (w : World) : Content :=
  ⟨w.writes, w.trees .linux, w.git, w.userDefconfig, w.dotConfig, w.debData, w.pkgs, w.archive, w.kernels, w.accepted⟩

/-- as in `v` -/
abbrev Still (v w : World) : Prop := w.content = v.content

/-- more has been done than in `v` -/
def Spoiled (v w : World) : Prop := v.writes .linux < w.writes .linux ∨ v.kernels < w.kernels ∨ v.accepted < w.accepted

/-- at least as much has been done as in `v` -/
structure Grown (v w : World) : Prop where
  writes : ∀ x, v.writes x ≤ w.writes x
  kernels : v.kernels ≤ w.kernels
  accepted : v.accepted ≤ w.accepted

section Content

variable {v w u : World}

theorem Still.linux (h : Still v w) : w.linux = v.linux := congrArg (fun c : Content => c.tree.isSome) h

theorem Still.git (h : Still v w) : w.git = v.git := congrArg Content.git h

theorem Still.hasOrigin (h : Still v w) : w.hasOrigin = v.hasOrigin := by
  have htree : w.trees .linux = v.trees .linux := congrArg Content.tree h
  rw [World.hasOrigin, World.hasOrigin, htree, h.git]

theorem Still.grown (h : Still v w) : Grown v w where
  writes x := (congrFun (congrArg Content.writes h) x).ge
  kernels := (congrArg Content.kernels h).ge
  accepted := (congrArg Content.accepted h).ge

theorem Grown.trans (h : Grown v w) (h' : Grown w u) : Grown v u where
  writes x := (h.writes x).trans (h'.writes x)
  kernels := h.kernels.trans h'.kernels
  accepted := h.accepted.trans h'.accepted

theorem Spoiled.mono (h : Spoiled v w) (h' : Grown w u) : Spoiled v u := by
  have hlinux := h'.writes .linux
  have hkernels := h'.kernels
  have haccepted := h'.accepted
  unfold Spoiled at h ⊢
  omega

theorem grown_wrote (x : Option Thing) (w : World) : Grown w (w.wrote x) := by
  cases x with
  | none => exact Still.grown rfl
  | some x =>
    refine ⟨fun y => ?_, le_rfl, le_rfl⟩
    by_cases h : y = x
    · subst h
      simp [World.wrote]
    · simp [World.wrote, Function.update_of_ne h]

end Content

/-- nothing goes wrong outside -/
abbrev works {κ : Type} : κ → Resp := fun _ => .ok

end AvaotaOS.Unsupported
