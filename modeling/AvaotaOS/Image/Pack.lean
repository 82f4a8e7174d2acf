/-
`scripts/pack.sh` as a script over its commands: `pack_sdcard` builds `sdcard.img` with its two file systems mounted at
`rootfs_dir` and `rootfs_dir/boot`, `UMOUNT_ALL` takes them down again, `write_bootloader` and `xz_image` finish.

`UMOUNT_ALL` runs with errexit off, once at the end of `pack_sdcard` and once more from the EXIT trap. A file system at
`rootfs_dir` cannot be unmounted while the one at `rootfs_dir/boot` is (`umount: target is busy`), and `rm -rf` on a tree
with a mounted file system empties that file system before it fails on the mount point.

Not modelled: sizes and sectors (see `WriteBootloader`), and what exactly a file contains.
-/
import Mathlib.Tactic
import AvaotaOS.Boards
import AvaotaOS.Core.Shell
import AvaotaOS.Image.WriteBootloader

namespace AvaotaOS.Pack

open Shell

/-! ## Commands -/

/-- the two calls of `UMOUNT_ALL` -/
inductive Pass where
  | main
  | trap
deriving DecidableEq, Repr

inductive Cmd where
  | cd
  | sourceBoard
  | sourceBootloader
  -- pack_sdcard
  | cdWorkspace
  | rmSdcard
  | rmRootfsDir
  /-- `tar .. | awk ..`: a pipeline ends as its last command does -/
  | rootfsSize
  | kernelSize
  | truncateImg
  | mklabel
  | setBoot
  | mkpart
  | losetup
  | kpartx
  | partprobe
  | mkfsVfat
  | mkfsExt4
  | mkdirRootfsDir
  | mountRoot
  | tarExtract
  | rmHistory
  | sync (i : Fin 2)
  | sleep (i : Fin 2)
  | mkdirBoot
  | mountBoot
  | cpKernelPkgs
  /-- `cat <<EOF | chroot .. /bin/bash -e` -/
  | installKernel
  | rmKernelDeb
  | cpBootloader
  | cpFirmware
  | adduser
  | addSudo
  | chpasswdUser
  | chpasswdRoot
  | board (s : BoardStep)
  | lnResolv
  | dd (d : WriteBootloader.DdCall)
  -- xz_image
  | cdXz
  | pixz
  -- UMOUNT_ALL
  | umountBoot (p : Pass)
  | umountRoot (p : Pass)
  | rmAll (p : Pass)
  | kpartxDel (p : Pass)
  | losetupDel (p : Pass)
  | clearDevice (p : Pass)
deriving DecidableEq

/-! ## The workspace -/

/-- the partitions of `sdcard.img` -/
inductive Part where
  | boot
  | root
deriving DecidableEq, Repr

/-- the files that `pack_sdcard` puts into the image -/
inductive File where
  | rootfs
  | kernel
  | bootloader
  | firmware
  | users
  | board (s : BoardStep)
  | resolv
deriving DecidableEq, Repr

/-- what the file systems of `sdcard.img` hold -/
abbrev Image := List (Part × File)

/-- the directory `rootfs_dir`, and which file systems are mounted at it and at its `boot` -/
structure Mounts where
  root : Bool
  boot : Bool
deriving DecidableEq, Repr

structure World where
  sdcard : Option Image
  xz : Option Image
  rootfs_dir : Option Mounts
  /-- the shell variable `device` is not empty -/
  device : Bool
  /-- `UMOUNT_ALL` has run `rm -rf` in this call on a tree with a file system still mounted -/
  rmMounted : Bool
deriving DecidableEq, Repr

/-- one call of the script -/
structure Params where
  board : Board
  version : Version
  type : RootfsType
  /-- `rootfs-${VERSION}-${TYPE}.tar.gz` is there, and `tar` takes it -/
  archive : Bool
  /-- the globs of `dpkg -i` match packages, and whole ones only -/
  kernel : Bool
  /-- the archive holds a `/boot` -/
  bootDir : Bool
  /-- the archive holds systemd-resolved -/
  resolved : Bool

/-- something is mounted at `rootfs_dir` or below -/
def Mounts.any (m : Mounts) : Bool := m.root || m.boot

/-- the file system of a file is mounted -/
def Mounts.covers (m : Mounts) (x : Part × File) : Bool :=
  match x.1 with
  | .root => m.root
  | .boot => m.boot

/-- what `rm -rf rootfs_dir` leaves of the image -/
def Mounts.wipe (m : Mounts) (img : Image) : Image := img.filter fun x => !m.covers x

/-- a file written below `rootfs_dir` lands in the image if its file system is mounted -/
def World.put (w : World) (l : List (Part × File)) : World :=
  match w.rootfs_dir with
  | none => w
  | some m => { w with sdcard := w.sdcard.map (· ++ l.filter m.covers) }

/-- what a command puts into the image -/
def puts : Cmd → List (Part × File)
  | .tarExtract => [(.root, .rootfs)]
  | .installKernel => [(.root, .kernel), (.boot, .kernel)]
  | .cpBootloader => [(.boot, .bootloader)]
  | .cpFirmware => [(.root, .firmware)]
  | .adduser | .addSudo | .chpasswdUser | .chpasswdRoot => [(.root, .users)]
  | .board s => [(.root, .board s)]
  | .lnResolv => [(.root, .resolv)]
  | _ => []

/-! ## What the commands do -/

/-- the command fails for what it reads: an archive that is missing or cut, packages that are -/
def badInput (p : Params) : Cmd → Bool
  | .tarExtract => !p.archive
  | .installKernel => !p.kernel
  | _ => false

/-- the status of a command outside `UMOUNT_ALL` -/
def stat (p : Params) (env : Cmd → Resp) (c : Cmd) : Stat :=
  if badInput p c = true ∧ (env c).stat = .ok then .fail else (env c).stat

/-- `rm -rf rootfs_dir` -/
def rmDir (r : Resp) (w : World) : Stat × World :=
  match w.rootfs_dir with
  | none => (r.stat, w)
  | some m =>
    match r with
    | .ok =>
      if m.any then (.fail, { w with sdcard := w.sdcard.map m.wipe }) else (.ok, { w with rootfs_dir := none })
    | r => (r.stat, if r.part then { w with sdcard := w.sdcard.map m.wipe } else w)

def exec (p : Params) (env : Cmd → Resp) (c : Cmd) (w : World) : Stat × World :=
  match c, env c with
  | .rmSdcard, .ok => (.ok, { w with sdcard := none })
  | .rmRootfsDir, r => rmDir r w
  | .truncateImg, .ok => (.ok, { w with sdcard := some [] })
  | .losetup, .ok => (.ok, { w with device := true })
  | .mkdirRootfsDir, .ok => (.ok, { w with rootfs_dir := some ⟨false, false⟩ })
  | .mountRoot, .ok => (.ok, { w with rootfs_dir := w.rootfs_dir.map fun m => { m with root := true } })
  | .mountBoot, .ok => (.ok, { w with rootfs_dir := w.rootfs_dir.map fun m => { m with boot := true } })
  | .dd d, .ok => (.ok, if d.opts.notrunc then w else { w with sdcard := w.sdcard.map fun _ => [] })
  | .dd d, r => (r.stat, if r.part ∧ d.opts.notrunc = false then { w with sdcard := w.sdcard.map fun _ => [] } else w)
  | .pixz, .ok => (.ok, { w with xz := w.sdcard })
  | .umountBoot _, .ok => (.ok, { w with rootfs_dir := w.rootfs_dir.map fun m => { m with boot := false } })
  | .umountRoot _, .ok =>
    if w.rootfs_dir.any (·.boot) then (.fail, w)
    else (.ok, { w with rootfs_dir := w.rootfs_dir.map fun m => { m with root := false } })
  | .rmAll _, r =>
    let x := rmDir r w
    (x.1, { x.2 with rmMounted := w.rmMounted || w.rootfs_dir.any (·.any) })
  | .clearDevice _, .kill _ => (.killed, w)
  | .clearDevice _, _ => (.ok, { w with device := false })
  | c, r => (stat p env c, if stat p env c = .ok ∨ r.part then w.put (puts c) else w)

/-! ## The script -/

/-- the two guarded `umount` calls of `UMOUNT_ALL` -/
def umounts (q : Pass) : Sh Cmd World :=
  .seq (.cond (fun w => w.rootfs_dir.any (·.boot)) (.cmd (.umountBoot q)) .tt)
    (.cond (fun w => w.rootfs_dir.any (·.root)) (.cmd (.umountRoot q)) .tt)

/-- the rest of it: the directory and the loop device -/
def removeDir (q : Pass) : Sh Cmd World :=
  .seq (.cond (·.rootfs_dir.isSome) (.cmd (.rmAll q)) .tt)
    (.cond (·.device) (block [.kpartxDel q, .losetupDel q, .clearDevice q]) .tt)

def UMOUNT_ALL (q : Pass) : Sh Cmd World := seqs [.errexit false, .seq (umounts q) (removeDir q), .errexit true]

/-- the board functions, applied to the unpacked archive -/
def boardConf (p : Params) : List Cmd :=
  (p.board.setup_display p.version p.type ++ p.board.setup_wifi).map .board

def setup_users : List Cmd := [.adduser, .addSudo, .chpasswdUser, .chpasswdRoot]

def sources : List Cmd := [.cd, .sourceBoard, .sourceBootloader, .cdWorkspace]

/-- what an earlier call has left goes -/
def removeOld : Sh Cmd World :=
  .seq (.cond (·.sdcard.isSome) (.cmd .rmSdcard) .tt) (.cond (·.rootfs_dir.isSome) (.cmd .rmRootfsDir) .tt)

/-- before the EXIT trap is set -/
def clear : Sh Cmd World := .seq (.errexit true) (.seq (block sources) removeOld)

/-- `pack_sdcard` up to the mount of the root file system -/
def createImage : List Cmd :=
  [.rootfsSize, .kernelSize, .truncateImg, .mklabel, .setBoot, .mkpart, .losetup, .kpartx, .partprobe, .mkfsVfat,
    .mkfsExt4, .mkdirRootfsDir, .mountRoot]

/-- from there to the mount point of the boot file system -/
def unpackFiles (p : Params) : List Cmd :=
  [.tarExtract, .rmHistory, .sync 0, .sleep 0] ++ if p.bootDir then [] else [.mkdirBoot]

def unpackRootfs (p : Params) : List Cmd := unpackFiles p ++ [.mountBoot]

/-- from there up to `UMOUNT_ALL` -/
def install (p : Params) : List Cmd :=
  [.cpKernelPkgs, .installKernel, .rmKernelDeb, .cpBootloader, .cpFirmware] ++ setup_users ++ boardConf p ++
    (if p.resolved then [.lnResolv] else []) ++ [.sync 1, .sleep 1]

def write_bootloader (p : Params) : List Cmd := (WriteBootloader.write_bootloader p.board.BL_CONFIG).map .dd

def xz_image : Sh Cmd World := .seq (block [.cdXz]) (.cond (·.sdcard.isSome) (.cmd .pixz) (.exit 2))

/-- the end of the script: the bootloader and the compressed copy -/
def writeOut (p : Params) : Sh Cmd World := .seq (block (write_bootloader p)) xz_image

/-- the rest of the script after the trap is set -/
def rest (p : Params) : Sh Cmd World :=
  .seq (block createImage) <| .seq (block (unpackRootfs p)) <| .seq (block (install p)) <|
    .seq (UMOUNT_ALL .main) (writeOut p)

def script (p : Params) : Sh Cmd World := .seq clear (.onExit (UMOUNT_ALL .trap) (rest p))

/-- one call of the script -/
def pack (p : Params) (env : Cmd → Resp) (w : World) : St Cmd World :=
  run (exec p env) (script p) { w with rmMounted := false }

end AvaotaOS.Pack
