/-
`scripts/mklinux.sh` as a script over its commands, and the workspace it acts on.

The world holds what the script reads and leaves behind: the source tree's `.config`, the saved `user_defconfig`, the
`deb-data` directory, and for each board the directory `${BOARD}-kernel-pkgs` with its packages and its `.done` marker.
The commands are the simple commands of the script in order; whether one succeeds is up to the environment
(`env : Cmd → Resp`), except that `.done` cannot be written into a directory that does not exist.

Not modelled: the content of the packages and of their metadata, and `$(nproc)`.
-/
import Mathlib.Tactic
import AvaotaOS.Boards
import AvaotaOS.Core.Shell

namespace AvaotaOS.MkLinux

open Shell

/-! ## Commands -/

/-- the four packages -/
inductive Pkg where
  | dtb
  | image
  | headers
  | libcDev
deriving DecidableEq, Repr

/-- the files `gen_debian_file` generates in `DEBIAN/` -/
inductive DebFile where
  | control
  | postinst
  | preinst
  | prerm
  | postrm
  | changelog
deriving DecidableEq, Repr

/-- the commands of `gen_debian_file` for one package -/
inductive GenStep where
  | mkdirDebian
  | du
  | cat (f : DebFile)
  | sed (f : DebFile) (i : ℕ)
  | chmod (f : DebFile)
  | pushd
  | find
  | md5sum
  | popd
deriving DecidableEq, Repr

/-- the places the script changes to the source tree -/
inductive Stage where
  | compile
  | dtb
  | image
  | headers
  | libcDev
deriving DecidableEq, Repr

inductive Cmd where
  -- before `set -e`
  | sourceConf
  | catVersion
  | sourceKernelDeb
  -- patch_kernel
  | lsPatches
  | cpPatch (i : ℕ)
  | pushdTarget (i : ℕ)
  | patch (i : ℕ)
  | rmPatch (i : ℕ)
  | popdTarget (i : ℕ)
  | cpFiles
  | sync
  -- compile_linux
  | cdLinux (s : Stage)
  | cpUserDefconfig
  | makeOlddefconfig
  | makeDefconfig
  | makeMenuconfig
  | saveUserDefconfig
  | makeAll
  | rmDebData
  | mkdirDebData
  -- install_dtb
  | mkdirDtb
  | makeDtbsInstall
  | lsDtbs
  | mvDtbs
  | rmDtbs
  -- install_image_modules
  | mkdirImage (i : Fin 5)
  | makeModulesInstall
  | makeInstall
  -- install_headers
  | mktemp
  | findMakefiles
  | findArchIncludes
  | findSecurity
  | findModuleLds
  | findArchDirs
  | findArchFiles
  | findArchInclude
  | findModuleSymvers
  | findBitsperlong
  | findTools
  | findInsn
  | findGccCommon
  | lsModules
  | mkdirHdr
  | mkdirHdrModules
  | catFileList
  | dirname (i : ℕ)
  | mkdirTarget (i : ℕ)
  | cpItem (i : ℕ)
  | rmFileList
  -- install_libc-dev
  | mkdirLibcDev
  | makeHeadersInstall
  -- gen_debian_file
  | lsKernelVer
  | gen (p : Pkg) (s : GenStep)
  -- gen_package_doc
  | mkdirDoc (p : Pkg)
  | genCopyright (p : Pkg)
  | cpChangelog (p : Pkg)
  | gzipChangelog (p : Pkg)
  -- pack_kernel_packages
  | rmOut
  | mkdirOut
  | dpkgDeb (p : Pkg)
  | writeDone
deriving DecidableEq, Repr

/-! ## The workspace -/

/-- where a kernel configuration comes from -/
inductive Config where
  /-- generated by `make <LINUX_CONFIG>` for a board and target -/
  | defconfig (s : Selection)
  /-- edited with menuconfig in a run for a board and target -/
  | edited (s : Selection) (base : Config)
  /-- a copy that broke off -/
  | cut (c : Config)
deriving DecidableEq

/-- a `.deb` file; `origin` is the run that wrote it -/
structure Deb where
  name : List Char
  origin : ℕ
  complete : Bool
deriving DecidableEq, Repr

/-- `${BOARD}-kernel-pkgs` -/
structure KernelPkgs where
  debs : List Deb
  done : Option String
deriving DecidableEq, Repr

/-- a run that has written `.done` -/
structure Completed where
  id : ℕ
  sel : Selection
  /-- the configuration the kernel was compiled with -/
  config : Option Config
deriving DecidableEq

structure World where
  /-- `${workspace}/linux` exists -/
  linux : Bool
  userDefconfig : Option Config
  dotConfig : Option Config
  /-- the configuration of the kernel built last in the source tree -/
  built : Option Config
  debData : Bool
  out : Board → Option KernelPkgs
  completed : List Completed

/-- one call of the script -/
structure Params where
  sel : Selection
  AVA_VERSION : List Char
  /-- KERNEL_MENUCONFIG is `yes` -/
  menuconfig : Bool
  /-- the number of the run in the workspace -/
  id : ℕ
  /-- `patches/kernel/${LINUX_PATHDIR}`: the patches, if there is such a directory, and whether there are files -/
  patches : Option ℕ
  files : Bool
  /-- `arch/${ARCH}` exists in the source tree -/
  archDir : Bool
  /-- `is_enabled CONFIG_GCC_PLUGINS` -/
  gccPlugins : Bool
  /-- for each line of the header file list, whether its target directory does not exist yet -/
  headerItems : List Bool

/-- `linux-PART-BOARD` -/
def Pkg.part : Pkg → List Char
  | .dtb => "dtb".toList
  | .image => "image".toList
  | .headers => "headers".toList
  | .libcDev => "libc-dev".toList

/-- `kconfig_name=${LINUX_CONFIG:0:-10}`, then every `_` replaced by `-` -/
def PKG_NAME (c : LinuxConf) : List Char :=
  (c.LINUX_CONFIG.toList.dropLast.dropLast.dropLast.dropLast.dropLast.dropLast.dropLast.dropLast.dropLast.dropLast).map
    fun ch => if ch = '_' then '-' else ch

/-- the name `dpkg-deb -b` gives the file: `Package_Version_Architecture.deb` -/
def debName (p : Pkg) (s : Selection) (v : List Char) : List Char :=
  "linux-".toList ++ p.part ++ '-' :: PKG_NAME s.conf ++ '_' :: v ++ "_arm64.deb".toList

/-- write a file into the package directory -/
def KernelPkgs.add (k : KernelPkgs) (d : Deb) : KernelPkgs :=
  { k with debs := k.debs.filter (fun d' => d'.name ≠ d.name) ++ [d] }

/-- change the package directory of a board, if it exists -/
def World.onOut (w : World) (b : Board) (f : KernelPkgs → KernelPkgs) : World :=
  { w with out := Function.update w.out b ((w.out b).map f) }

/-! ## What the commands do -/

def exec (p : Params) (env : Cmd → Resp) (c : Cmd) (w : World) : Stat × World :=
  match c, env c with
  | .cpUserDefconfig, .ok => (.ok, { w with dotConfig := w.userDefconfig })
  | .cpUserDefconfig, r =>
    (r.stat, if r.part then { w with dotConfig := w.userDefconfig.map .cut } else w)
  | .makeDefconfig, .ok => (.ok, { w with dotConfig := some (.defconfig p.sel) })
  | .makeMenuconfig, .ok => (.ok, { w with dotConfig := w.dotConfig.map (.edited p.sel) })
  | .makeMenuconfig, r =>
    (r.stat, if r.part then { w with dotConfig := w.dotConfig.map (.edited p.sel) } else w)
  | .saveUserDefconfig, .ok => (.ok, { w with userDefconfig := w.dotConfig })
  | .saveUserDefconfig, r =>
    -- the redirection has cut the old file already
    (r.stat, if r.part then { w with userDefconfig := w.dotConfig.map .cut } else w)
  | .makeAll, .ok => (.ok, { w with built := w.dotConfig })
  | .rmDebData, .ok => (.ok, { w with debData := false })
  | .mkdirDebData, .ok => (.ok, { w with debData := true })
  | .rmOut, .ok => (.ok, { w with out := Function.update w.out p.sel.board none })
  | .mkdirOut, .ok =>
    (.ok, { w with out := Function.update w.out p.sel.board (some ((w.out p.sel.board).getD ⟨[], none⟩)) })
  | .dpkgDeb q, .ok => (.ok, w.onOut p.sel.board (·.add ⟨debName q p.sel p.AVA_VERSION, p.id, true⟩))
  | .dpkgDeb q, r =>
    (r.stat, if r.part then w.onOut p.sel.board (·.add ⟨debName q p.sel p.AVA_VERSION, p.id, false⟩) else w)
  | .writeDone, .ok =>
    match w.out p.sel.board with
    | none => (.fail, w)
    | some _ =>
      (.ok, { w.onOut p.sel.board (fun k => { k with done := some p.sel.conf.LINUX_CONFIG }) with
        completed := w.completed ++ [⟨p.id, p.sel, w.built⟩] })
  | .writeDone, r => (r.stat, if r.part then w.onOut p.sel.board (fun k => { k with done := some "" }) else w)
  | _, r => (r.stat, w)

/-- the commands that write into the package directory -/
def Cmd.packs : Cmd → Bool
  | .rmOut | .mkdirOut | .dpkgDeb _ | .writeDone => true
  | _ => false

section Frame

variable (p : Params) (env : Cmd → Resp) {c : Cmd} (w : World)

/-- what the environment answers is the status of the command, except for `.done` -/
theorem exec_stat (hc : c ≠ .writeDone) : (exec p env c w).1 = (env c).stat := by
  unfold exec
  split <;> simp_all [Resp.stat]

theorem exec_linux : (exec p env c w).2.linux = w.linux := by
  unfold exec
  split <;> (try split) <;> rfl

theorem exec_userDefconfig (hc : c ≠ .saveUserDefconfig) : (exec p env c w).2.userDefconfig = w.userDefconfig := by
  unfold exec
  split <;> (try split) <;> first | rfl | exact absurd rfl hc

theorem exec_built (hc : c ≠ .makeAll) : (exec p env c w).2.built = w.built := by
  unfold exec
  split <;> (try split) <;> first | rfl | exact absurd rfl hc

theorem exec_completed (hc : c ≠ .writeDone) : (exec p env c w).2.completed = w.completed := by
  unfold exec
  split <;> (try split) <;> first | rfl | exact absurd rfl hc

theorem exec_debData (hc : c ≠ .rmDebData) (hc' : c ≠ .mkdirDebData) : (exec p env c w).2.debData = w.debData := by
  unfold exec
  split <;> (try split) <;> first | rfl | exact absurd rfl hc | exact absurd rfl hc'

theorem exec_out (hc : c.packs = false) : (exec p env c w).2.out = w.out := by
  unfold exec
  split <;> (try split) <;> first | rfl | exact absurd hc (by simp [Cmd.packs])

/-- a run touches the package directory of its own board only -/
theorem exec_out_other {b : Board} (hb : b ≠ p.sel.board) : (exec p env c w).2.out b = w.out b := by
  unfold exec
  split <;> (try split) <;> simp [World.onOut, Function.update_of_ne hb]

/-- no command but the last writes a marker -/
theorem exec_done (hc : c ≠ .writeDone) (b : Board) (t : String)
    (h : ((exec p env c w).2.out b).bind (·.done) = some t) : (w.out b).bind (·.done) = some t := by
  by_cases hb : b = p.sel.board
  · subst hb
    revert h
    unfold exec
    split <;> (try split) <;> first
      | exact absurd rfl hc
      | cases ho : w.out p.sel.board <;> simp_all [World.onOut, KernelPkgs.add]
  · rwa [exec_out_other p env w hb] at h

end Frame

/-! ## The script -/

/-- the script's commands up to `set -e` -/
def sources : List Cmd := [.sourceConf, .catVersion, .sourceKernelDeb]

/-- one round of the loop over the patches -/
def patchRound (i : ℕ) : List Cmd := [.cpPatch i, .pushdTarget i, .patch i, .rmPatch i, .popdTarget i]

def patchLoop (n : ℕ) : List Cmd := (List.range n).flatMap patchRound

def patchFiles (p : Params) : List Cmd := if p.files then [.cpFiles, .sync] else []

/-- `if [ ! -d ${workspace}/linux ]; then exit 2; fi` -/
def needLinux : Sh Cmd World := .cond (·.linux) .tt (.exit 2)

def patch_kernel (p : Params) : Sh Cmd World :=
  seqs [needLinux,
    match p.patches with
    | some n => (Sh.cmd .lsPatches).when (block (patchLoop n))
    | none => .tt,
    block (patchFiles p)]

/-- the configuration step of `compile_linux`, with and without a saved user configuration -/
def configure (user : Bool) : List Cmd := if user then [.cpUserDefconfig, .makeOlddefconfig] else [.makeDefconfig]

def menuconfig (p : Params) : List Cmd := if p.menuconfig then [.makeMenuconfig, .saveUserDefconfig] else []

/-- the last lines of `compile_linux`: a fresh `deb-data` -/
def freshDebData (old : Bool) : List Cmd := if old then [.rmDebData, .mkdirDebData] else [.mkdirDebData]

def compile_linux (p : Params) : Sh Cmd World :=
  seqs [needLinux, block [.cdLinux .compile],
    .cond (·.userDefconfig.isSome) (block (configure true)) (block (configure false)),
    block (menuconfig p), block [.makeAll],
    .cond (·.debData) (block (freshDebData true)) (block (freshDebData false))]

def install_dtb : List Cmd := [.cdLinux .dtb, .mkdirDtb, .makeDtbsInstall, .lsDtbs, .mvDtbs, .rmDtbs]

def install_image_modules : List Cmd :=
  [.cdLinux .image, .mkdirImage 0, .mkdirImage 1, .mkdirImage 2, .mkdirImage 3, .mkdirImage 4, .makeModulesInstall,
    .makeInstall]

/-- the subshell that collects the file list, up to the nested `find`: errexit holds inside it, so a failure there
ends the script as it would outside -/
def findBefore (p : Params) : List Cmd :=
  [.mktemp, .findMakefiles, .findArchIncludes, .findSecurity] ++ if p.archDir then [.findModuleLds] else []

/-- the `find` over the directories that the nested one gave -/
def findArch : List Cmd := [.findArchFiles, .findArchInclude]

def findAfter (p : Params) : List Cmd :=
  [.findModuleSymvers, .findBitsperlong, .findTools, .findInsn] ++ if p.gccPlugins then [.findGccCommon] else []

def headerDirs : List Cmd := [.cdLinux .headers, .lsModules, .mkdirHdr, .mkdirHdrModules]

/-- one round of the loop over the file list -/
def headerRound (i : ℕ) (newDir : Bool) : List Cmd :=
  .dirname i :: (if newDir then [.mkdirTarget i] else []) ++ [.cpItem i]

def headerLoop (items : List Bool) : List Cmd := (items.mapIdx headerRound).flatten

/-- a command substitution among the arguments of a command: its failure is not noticed -/
def substituted (c : Cmd) : Sh Cmd World := (Sh.cmd c).when .tt

def install_headers (p : Params) : Sh Cmd World :=
  seqs [block (findBefore p), (if p.archDir then substituted .findArchDirs else .nop),
    block (if p.archDir then findArch else []), block (findAfter p), block headerDirs, .errexit true,
    (Sh.cmd .catFileList).when (block (headerLoop p.headerItems)), block [.rmFileList], .errexit false]

def install_libc_dev : List Cmd := [.cdLinux .libcDev, .mkdirLibcDev, .makeHeadersInstall]

/-- `gen_*` for a file with `n` placeholders -/
def genFile (p : Pkg) (f : DebFile) (n : ℕ) : List Cmd := .gen p (.cat f) :: (List.range n).map fun i => .gen p (.sed f i)

/-- the same for a maintainer script -/
def genScript (p : Pkg) (f : DebFile) (n : ℕ) : List Cmd := genFile p f n ++ [.gen p (.chmod f)]

def gen_md5 (p : Pkg) : List Cmd := [.gen p .pushd, .gen p .find, .gen p .md5sum, .gen p .popd]

/-- `mkdir -p DEBIAN`, `$(du -sk ..)` and the control file -/
def genControl (p : Pkg) : List Cmd := [.gen p .mkdirDebian, .gen p .du] ++ genFile p .control 5

def gen_debian_file : List Cmd :=
  [.lsKernelVer] ++
  (genControl .dtb ++ genScript .dtb .postinst 2 ++ genScript .dtb .preinst 2 ++ genFile .dtb .changelog 3 ++
    gen_md5 .dtb) ++
  (genControl .image ++ genScript .image .postinst 2 ++ genScript .image .postrm 2 ++ genScript .image .preinst 2 ++
    genScript .image .prerm 2 ++ genFile .image .changelog 3 ++ gen_md5 .image) ++
  (genControl .headers ++ genScript .headers .postinst 3 ++ genScript .headers .preinst 2 ++
    genScript .headers .prerm 2 ++ genFile .headers .changelog 3 ++ gen_md5 .headers) ++
  (genControl .libcDev ++ genFile .libcDev .changelog 3 ++ gen_md5 .libcDev)

def pkgs : List Pkg := [.dtb, .image, .headers, .libcDev]

def gen_package_doc : List Cmd :=
  pkgs.map .mkdirDoc ++ pkgs.map .genCopyright ++ pkgs.flatMap fun p => [.cpChangelog p, .gzipChangelog p]

/-- the directory step of `pack_kernel_packages`; the old directory is removed only where there is none -/
def outDir (missing : Bool) : List Cmd := if missing then [.rmOut, .mkdirOut] else [.mkdirOut]

def pack_kernel_packages (p : Params) : Sh Cmd World :=
  seqs [.cond (fun w => (w.out p.sel.board).isNone) (block (outDir true)) (block (outDir false)),
    block (pkgs.map .dpkgDeb)]

def patchStage (p : Params) : Sh Cmd World :=
  if p.sel.conf.LINUX_PATHDIR ≠ "none" then patch_kernel p else .nop

/-- what runs after `install_headers` has switched errexit off -/
def tail : List Cmd := install_libc_dev ++ gen_debian_file ++ gen_package_doc

/-- everything before the packages are written -/
def stages (p : Params) : Sh Cmd World :=
  seqs [block sources, .errexit true, patchStage p, compile_linux p, block install_dtb, block install_image_modules,
    install_headers p, block tail]

/-- everything before the last line of the script -/
def build (p : Params) : Sh Cmd World := .seq (stages p) (pack_kernel_packages p)

def script (p : Params) : Sh Cmd World := .seq (build p) (.cmd .writeDone)

/-- one call of the script -/
def mklinux (p : Params) (env : Cmd → Resp) (w : World) : St Cmd World := run (exec p env) (script p) w

/-- the guard of `build_all.sh`: the kernel packages of this board and target are taken as built -/
def cached (s : Selection) (w : World) : Bool :=
  match w.out s.board with
  | some k => k.done = some s.conf.LINUX_CONFIG
  | none => false

theorem cached_iff {s : Selection} {w : World} :
    cached s w = true ↔ (w.out s.board).bind (·.done) = some s.conf.LINUX_CONFIG := by
  unfold cached
  cases w.out s.board <;> simp

end AvaotaOS.MkLinux
