/-
`build_all.sh` as a script over its commands, and the workspace that one call leaves to the next.

The scripts it calls (`mklinux.sh`, `mkrootfs.sh`, `pack.sh`) run as the models of their own modules, in a shell of their
own: the calling shell sees how they end (`St.stat`), and a run that is stopped inside one of them is stopped. Three
files decide what is built again: `bootloader-${BOARD}/.done`, `${BOARD}-kernel-pkgs/.done`, and the archive
`rootfs-${VERSION}-${TYPE}.tar.gz`.

`packings` is not part of the file system: it records, for each call of `pack.sh`, what that call finds.

Not modelled: the dialogs (their answers are the `Request`), the mirror and the accounts, and what `fetch.sh` and
`mkbootloader.sh` do beyond their result.
-/
import Mathlib.Tactic
import AvaotaOS.Core.History
import AvaotaOS.Image.Pack
import AvaotaOS.Kernel.MkLinux
import AvaotaOS.Rootfs.MkRootfs

namespace AvaotaOS.BuildAll

open Shell

/-! ## Commands -/

inductive Cmd where
  | aptGetInstall
  | aptInstall
  /-- `source boards/${BOARD}.conf`, twice in `input_box` -/
  | sourceConf (i : Fin 2)
  | mkdirBuildDir
  | cdBuildDir
  | cdWorkspace
  | sourceBoard
  | fetch
  | mkbootloader
  | mklinux
  /-- `sudo mkdir ${ROOTFS}` -/
  | mkdirRootfs
  | mkrootfs
  | pack
  | catVersion
  | mvImage
deriving DecidableEq, Repr

/-! ## The packages that `pack.sh` installs -/

/-- the globs of `pack.sh`: `linux-libc-dev*.deb`, `linux-dtb*.deb`, `linux-image*.deb` -/
inductive Glob where
  | libcDev
  | dtb
  | image
deriving DecidableEq, Repr

/-- the package a glob is meant for -/
def Glob.pkg : Glob → MkLinux.Pkg
  | .libcDev => .libcDev
  | .dtb => .dtb
  | .image => .image

/-- what stands before the `*` -/
def Glob.stem (g : Glob) : List Char := "linux-".toList ++ g.pkg.part

/-- the file name matches the glob -/
def Glob.hit (g : Glob) (name : List Char) : Bool := g.stem.isPrefixOf name && ".deb".toList.isSuffixOf (name.drop g.stem.length)

/-- the packages a glob matches -/
def select (g : Glob) (k : MkLinux.KernelPkgs) : List MkLinux.Deb := k.debs.filter fun d => g.hit d.name

/-- every glob matches something, and only whole packages -/
def usable (k : Option MkLinux.KernelPkgs) : Bool :=
  match k with
  | none => false
  | some k => [Glob.libcDev, .dtb, .image].all fun g => !(select g k).isEmpty && (select g k).all (·.complete)

/-! ## The workspace -/

/-- what one call of `pack.sh` finds -/
structure Packing where
  sel : Selection
  version : Version
  type : RootfsType
  /-- `rootfs-${VERSION}-${TYPE}.tar.gz` -/
  archive : Option MkRootfs.Archive
  /-- `${BOARD}-kernel-pkgs` -/
  pkgs : Option MkLinux.KernelPkgs
  /-- the calls of `mklinux.sh` that have come to their end so far -/
  completed : List MkLinux.Completed

/-- `AvaotaOS-${AVA_VERSION}-${VERSION}-${TYPE}-${ARCH}-${BOARD}.img.xz` -/
structure Release where
  AVA_VERSION : List Char
  version : Version
  type : RootfsType
  board : Board
  image : Pack.Image
deriving DecidableEq, Repr

structure Workspace where
  buildDir : Bool
  kernel : MkLinux.World
  /-- `bootloader-${BOARD}/.done` names the board -/
  bootloader : Board → Bool
  rootfs : MkRootfs.World
  img : Pack.World
  releases : List Release
  /-- the calls of `mklinux.sh` so far -/
  calls : ℕ
  packings : List Packing

/-- the parameters of a run, and what it finds outside the workspace -/
structure Request where
  linux : MkLinux.Params
  version : Version
  type : RootfsType
  /-- KERNEL_ONLY is `yes` -/
  kernelOnly : Bool
  /-- LOCAL is not `no` -/
  useLocal : Bool
  /-- `fetch.sh` finds another repository or branch in `linux` and clones anew -/
  reclone : Bool
  /-- the packages include systemd-resolved -/
  resolved : Bool
  /-- the archive holds a `/boot` -/
  bootDir : Bool
  /-- `ROOTFS` as `pwd` gives it is the path that /proc/mounts shows -/
  canonical : Bool
  /-- `tar -zxf` takes the archive although the `tar` that wrote it has not ended with 0 -/
  cutTaken : Bool

/-- what the environment answers to the commands of the four scripts -/
structure Env where
  top : Cmd → Resp
  linux : MkLinux.Cmd → Resp
  rootfs : MkRootfs.Cmd → Resp
  pack : Pack.Cmd → Resp

namespace Request

variable (r : Request)

def sel : Selection := r.linux.sel

def board : Board := r.sel.board

def key : MkRootfs.Key := (r.version, r.type)

/-- the call of `mklinux.sh`, numbered within the workspace -/
def linuxParams (w : Workspace) : MkLinux.Params := { r.linux with id := w.calls }

def rootfsParams : MkRootfs.Params := ⟨r.board, r.version, r.type, r.resolved, r.canonical⟩

/-- what `pack.sh` finds -/
def packing (w : Workspace) : Packing :=
  ⟨r.sel, r.version, r.type, w.rootfs.archive r.key, w.kernel.out r.board, w.kernel.completed⟩

def packParams (w : Workspace) : Pack.Params where
  board := r.board
  version := r.version
  type := r.type
  archive := (w.rootfs.archive r.key).any fun a => a.complete || r.cutTaken
  kernel := usable (w.kernel.out r.board)
  bootDir := r.bootDir
  resolved := r.resolved

end Request

/-! ## What the commands do -/

/-- `fetch.sh` on the kernel source: a clone leaves a tree without configuration -/
def fetched (reclone : Bool) (k : MkLinux.World) : MkLinux.World :=
  if reclone || !k.linux then { k with linux := true, dotConfig := none, built := none } else k

/-- a clone that broke off -/
def unfetched (reclone : Bool) (k : MkLinux.World) : MkLinux.World :=
  if reclone || !k.linux then { k with linux := false, dotConfig := none, built := none } else k

def exec (r : Request) (env : Env) (c : Cmd) (w : Workspace) : Stat × Workspace :=
  match c, env.top c with
  | .mkdirBuildDir, .ok => (.ok, { w with buildDir := true })
  | .fetch, .ok => (.ok, { w with kernel := fetched r.reclone w.kernel })
  | .fetch, x => (x.stat, if x.part then { w with kernel := unfetched r.reclone w.kernel } else w)
  | .mkbootloader, .ok => (.ok, { w with bootloader := Function.update w.bootloader r.board true })
  | .mklinux, .ok =>
    let s := MkLinux.mklinux (r.linuxParams w) env.linux w.kernel
    (s.stat, { w with kernel := s.w, calls := w.calls + 1 })
  | .mkdirRootfs, .ok =>
    if w.rootfs.rootfs.isSome then (.fail, w)
    else (.ok, { w with rootfs := { w.rootfs with rootfs := some ⟨[], false, false, false⟩ } })
  | .mkrootfs, .ok =>
    let s := MkRootfs.mkrootfs r.rootfsParams env.rootfs w.rootfs
    (s.stat, { w with rootfs := s.w })
  | .pack, .ok =>
    let s := Pack.pack (r.packParams w) env.pack w.img
    (s.stat, { w with img := s.w, packings := w.packings ++ [r.packing w] })
  | .mvImage, .ok =>
    (.ok, { w with
      img := { w.img with xz := none },
      releases := w.releases ++ (w.img.xz.map (⟨r.linux.AVA_VERSION, r.version, r.type, r.board, ·⟩)).toList })
  | _, x => (x.stat, w)

/-! ## The script -/

/-- the sources: the distribution's tools, the board file, the build directory, and the source trees -/
def prepare (r : Request) : Sh Cmd Workspace :=
  seqs [.errexit true, block [.aptGetInstall, .aptInstall, .sourceConf 0, .sourceConf 1],
    .cond (·.buildDir) .tt (.cmd .mkdirBuildDir), block [.cdBuildDir, .cdWorkspace, .sourceBoard],
    if r.useLocal then .tt else .cmd .fetch]

def bootloaderStage (r : Request) : Sh Cmd Workspace := .cond (·.bootloader r.board) .tt (.cmd .mkbootloader)

/-- everything before the kernel -/
def front (r : Request) : Sh Cmd Workspace := .seq (prepare r) (bootloaderStage r)

def kernelStage (r : Request) : Sh Cmd Workspace :=
  .cond (fun w => MkLinux.cached r.sel w.kernel) .tt (.cmd .mklinux)

def rootfsStage (r : Request) : Sh Cmd Workspace :=
  .cond (fun w => (w.rootfs.archive r.key).isSome) .tt (Sh.and (.cmd .mkdirRootfs) (.cmd .mkrootfs))

def imageStage : Sh Cmd Workspace :=
  .seq (block [.pack, .catVersion]) (.cond (·.img.xz.isSome) (.cmd .mvImage) (.exit 2))

/-- everything after the kernel -/
def back (r : Request) : Sh Cmd Workspace :=
  if r.kernelOnly then .exit 0 else .seq (rootfsStage r) imageStage

def script (r : Request) : Sh Cmd Workspace := .seq (front r) (.seq (kernelStage r) (back r))

/-- one call of the script -/
def build_all (r : Request) (env : Env) (w : Workspace) : St Cmd Workspace := run (exec r env) (script r) w

/-! ## Histories -/

/-- a call of the script, and what the environment does to it -/
structure Call where
  request : Request
  env : Env

/-- the workspace after one more call -/
def step (w : Workspace) (c : Call) : Workspace := (build_all c.request c.env w).w

/-- a workspace in which nothing has run yet -/
def fresh : Workspace where
  buildDir := false
  kernel := ⟨false, none, none, none, false, fun _ => none, []⟩
  bootloader := fun _ => false
  rootfs := ⟨none, fun _ => none, fun _ => none, false⟩
  img := ⟨none, none, none, false, false⟩
  releases := []
  calls := 0
  packings := []

end AvaotaOS.BuildAll
