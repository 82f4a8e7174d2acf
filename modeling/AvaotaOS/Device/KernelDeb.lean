/-
The maintainer scripts that `scripts/lib/packages/kernel-deb.sh` generates for `linux-dtb-BOARD`, `linux-image-BOARD` and
`linux-headers-BOARD`, and the part of a device they act on.

/boot is a FAT file system, so the scripts rename what the packages bring: `/boot/dtb-VERSION` becomes `/boot/dtb`,
`/boot/vmlinuz-VERSION` becomes `/boot/Image`, and the boot entry names only these two. `mv` of a directory onto one that
exists moves it inside, where it can be moved only once.

The commands are the simple commands of the scripts; how each ends is up to the environment (`env : Cmd → Resp`), except
that `mv` needs its source, `ln -s` a free name, and `cd` its directory.

Not modelled: the messages, `System.map`, `config`, `uImage` and `.next`, and what the hooks in /etc/kernel do.
-/
import Mathlib.Tactic
import AvaotaOS.Core.Shell

namespace AvaotaOS.KernelDeb

open Shell

/-! ## Packages -/

/-- the packages with files in /boot -/
inductive Part where
  | dtb
  | image
deriving DecidableEq, Repr

/-- `linux-PART-BOARD`, built for a kernel version; `build` tells builds of one version apart -/
structure Deb where
  part : Part
  BOARD : String
  LINUX_VERSION : String
  build : ℕ
deriving DecidableEq, Repr

/-- what dpkg knows the package by -/
def Deb.name (d : Deb) : Part × String := (d.part, d.BOARD)

/-! ## The device -/

/-- the kernel or the device trees of a package, maybe not all of it -/
structure Content where
  deb : Deb
  complete : Bool
deriving DecidableEq, Repr

/-- `/boot/dtb`, with the directories `dtb-VERSION` that lie inside -/
structure DtbDir where
  tree : Content
  nested : List String
deriving DecidableEq, Repr

/-- `/lib/modules/VERSION/build` -/
inductive Build where
  | absent
  /-- a file, or a link to nothing -/
  | blocked
  /-- a link to `/usr/src/linux-headers-VERSION` -/
  | headers
  /-- a directory, or a link to one; `entry` says that there is a `linux-headers-VERSION` inside -/
  | dir (entry : Bool)
deriving DecidableEq, Repr

structure Device where
  dtb : Option DtbDir
  /-- `/boot/dtb-VERSION` -/
  dtbVer : String → Option Content
  /-- `/boot/Image` -/
  image : Option Content
  /-- `/boot/vmlinuz-VERSION` -/
  vmlinuz : String → Option Content
  /-- `/usr/src/linux-headers-VERSION`; the value says that there is a `linux-headers-VERSION` inside -/
  src : String → Option Bool
  build : String → Build

/-! ## Commands -/

/-- the directories `/etc/kernel/*.d` -/
inductive Hook where
  | preinst
  | postinst
  | prerm
  | postrm
deriving DecidableEq, Repr

inductive Cmd where
  | cdBoot
  | mvDtb
  | rmDtb
  | rmDtbVer
  /-- `test -d /etc/kernel/<h>.d` -/
  | testHooks (h : Hook)
  | runParts (h : Hook)
  | touchNext
  | mvImage
  /-- `rm -f /boot/System.map* /boot/config* /boot/vmlinuz* /boot/Image /boot/uImage` -/
  | rmBoot
  | lnBuild
  | cdSrc
  | countCpus
  | makeOldconfig
  | makeScripts
  | makeMod
  | rmSrc
deriving DecidableEq, Repr

/-- `mv -v "dtb-VERSION" dtb` -/
def mvDtb (v : String) (w : Device) : Stat × Device :=
  match w.dtbVer v, w.dtb with
  | none, _ => (.fail, w)
  | some c, none => (.ok, { w with dtb := some ⟨c, []⟩, dtbVer := Function.update w.dtbVer v none })
  | some _, some d =>
    if v ∈ d.nested then (.fail, w)
    else (.ok, { w with dtb := some { d with nested := d.nested ++ [v] }, dtbVer := Function.update w.dtbVer v none })

/-- `mv -v /boot/vmlinuz-VERSION /boot/Image` -/
def mvImage (v : String) (w : Device) : Stat × Device :=
  match w.vmlinuz v with
  | none => (.fail, w)
  | some c => (.ok, { w with image := some c, vmlinuz := Function.update w.vmlinuz v none })

/-- `ln -s "/usr/src/linux-headers-VERSION" "/lib/modules/VERSION/build"` -/
def lnBuild (v : String) (w : Device) : Stat × Device :=
  match w.build v with
  | .absent => (.ok, { w with build := Function.update w.build v .headers })
  | .blocked => (.fail, w)
  | .dir entry => if entry then (.fail, w) else (.ok, { w with build := Function.update w.build v (.dir true) })
  | .headers =>
    -- the link is followed
    if w.src v = some false then (.ok, { w with src := Function.update w.src v (some true) }) else (.fail, w)

def exec (v : String) (env : Cmd → Resp) (c : Cmd) (w : Device) : Stat × Device :=
  match c, env c with
  | .mvDtb, .ok => mvDtb v w
  | .mvImage, .ok => mvImage v w
  | .lnBuild, .ok => lnBuild v w
  | .cdSrc, .ok => (if (w.src v).isSome then .ok else .fail, w)
  | .rmDtb, .ok => (.ok, { w with dtb := none })
  | .rmDtb, r =>
    (r.stat, if r.part then { w with dtb := w.dtb.map fun d => { d with tree := { d.tree with complete := false } } } else w)
  | .rmDtbVer, .ok => (.ok, { w with dtbVer := Function.update w.dtbVer v none })
  | .rmBoot, .ok => (.ok, { w with image := none, vmlinuz := fun _ => none })
  | .rmBoot, r => (r.stat, if r.part then { w with image := none, vmlinuz := fun _ => none } else w)
  | .rmSrc, .ok => (.ok, { w with src := Function.update w.src v none })
  | _, r => (r.stat, w)

/-! ## The scripts -/

/-- the hooks Debian runs for its kernel packages -/
def hooks (h : Hook) : Sh Cmd Device := Sh.and (.cmd (.testHooks h)) (.cmd (.runParts h))

def preinst : Part → Sh Cmd Device
  | .dtb => seqs [.errexit true, block [.rmDtb, .rmDtbVer], .tt]
  | .image => seqs [.errexit true, hooks .preinst, .cmd .rmBoot, .tt]

def postinst : Part → Sh Cmd Device
  | .dtb => seqs [.errexit true, block [.cdBoot, .mvDtb], .tt]
  | .image => seqs [.errexit true, hooks .postinst, block [.touchNext, .mvImage], .tt]

/-- the dtb package has none -/
def prerm : Part → Sh Cmd Device
  | .dtb => .tt
  | .image => seqs [.errexit true, hooks .prerm, .tt]

def postrm : Part → Sh Cmd Device
  | .dtb => .tt
  | .image => seqs [.errexit true, hooks .postrm, .tt]

def headersPostinst : Sh Cmd Device :=
  seqs [.errexit true, block [.lnBuild, .cdSrc, .countCpus, .makeOldconfig, .makeScripts, .makeMod], .tt]

/-- the preinst and the prerm are the same but for the messages -/
def headersClean (v : String) : Sh Cmd Device :=
  seqs [.errexit true, .cond (fun w => (w.src v).isSome) (.cmd .rmSrc) .tt, .tt]

/-- run a script of a package for the kernel version `v`: does it succeed, and what is the device then -/
def call (v : String) (env : Cmd → Resp) (a : Sh Cmd Device) (w : Device) : Bool × Device :=
  let s := run (exec v env) a w
  (decide (s.stat = .ok), s.w)

/-! ## Unpacking -/

/-- dpkg puts the files of a package under their packaged names -/
def unpack (d : Deb) (w : Device) : Device :=
  match d.part with
  | .dtb => { w with dtbVer := Function.update w.dtbVer d.LINUX_VERSION (some ⟨d, true⟩) }
  | .image => { w with vmlinuz := Function.update w.vmlinuz d.LINUX_VERSION (some ⟨d, true⟩) }

/-- dpkg removes the files of a package under their packaged names, those of `keep` apart -/
def removeFiles (d : Deb) (keep : Option String) (w : Device) : Device :=
  if keep = some d.LINUX_VERSION then w
  else
    match d.part with
    | .dtb => { w with dtbVer := Function.update w.dtbVer d.LINUX_VERSION none }
    | .image => { w with vmlinuz := Function.update w.vmlinuz d.LINUX_VERSION none }

/-! ## What the scripts do -/

/-- the hooks do not stop a script: there is no such directory, or they succeed -/
def hooksPass (env : Cmd → Resp) (h : Hook) : Bool :=
  match env (.testHooks h) with
  | .ok => env (.runParts h) = .ok
  | .fail _ => true
  | .kill _ => false

section Scripts

variable (v : String) (env : Cmd → Resp) (w : Device)

/-! Commands that change nothing here. -/

@[simp] theorem exec_testHooks (h : Hook) : exec v env (.testHooks h) w = ((env (.testHooks h)).stat, w) := by
  unfold exec; split <;> simp_all

@[simp] theorem exec_runParts (h : Hook) : exec v env (.runParts h) w = ((env (.runParts h)).stat, w) := by
  unfold exec; split <;> simp_all

@[simp] theorem exec_cdBoot : exec v env .cdBoot w = ((env .cdBoot).stat, w) := by unfold exec; split <;> simp_all

@[simp] theorem exec_touchNext : exec v env .touchNext w = ((env .touchNext).stat, w) := by unfold exec; split <;> simp_all

theorem call_hooks (h : Hook) : call v env (seqs [.errexit true, hooks h, .tt]) w = (hooksPass env h, w) := by
  cases h1 : env (.testHooks h) <;> cases h2 : env (.runParts h) <;>
    simp [call, run, start, seqs, hooks, Sh.and, eval, simple, check, St.next, St.stat, St.code,
      hooksPass, h1, h2, Resp.stat]

theorem call_prerm (p : Part) : call v env (prerm p) w = (p = .dtb || hooksPass env .prerm, w) := by
  cases p with
  | dtb => simp [call, run, start, prerm, eval, St.stat, St.code]
  | image => exact call_hooks v env w .prerm

theorem call_postrm (p : Part) : call v env (postrm p) w = (p = .dtb || hooksPass env .postrm, w) := by
  cases p with
  | dtb => simp [call, run, start, postrm, eval, St.stat, St.code]
  | image => exact call_hooks v env w .postrm

theorem call_preinst_dtb :
    call v env (preinst .dtb) w =
      if env .rmDtb = .ok then (decide (env .rmDtbVer = .ok), (exec v env .rmDtbVer { w with dtb := none }).2)
      else (false, (exec v env .rmDtb w).2) := by
  cases h1 : env .rmDtb <;> cases h2 : env .rmDtbVer <;>
    simp [call, run, start, preinst, seqs, block, eval, simple, exec, check, St.next, St.stat, St.code, h1, h2, Resp.stat]

theorem call_preinst_image :
    call v env (preinst .image) w =
      if hooksPass env .preinst then (decide (env .rmBoot = .ok), (exec v env .rmBoot w).2) else (false, w) := by
  cases h1 : env (.testHooks .preinst) <;> cases h2 : env (.runParts .preinst) <;> cases h3 : env .rmBoot <;>
    simp [call, run, start, preinst, seqs, hooks, Sh.and, eval, simple, check, St.next, St.stat,
      St.code, hooksPass, exec, h1, h2, h3, Resp.stat]

theorem call_postinst_dtb :
    call v env (postinst .dtb) w =
      if env .cdBoot = .ok then (decide ((exec v env .mvDtb w).1 = .ok), (exec v env .mvDtb w).2) else (false, w) := by
  cases h1 : env .cdBoot <;> cases h2 : (exec v env .mvDtb w).1 <;>
    simp [call, run, start, postinst, seqs, block, eval, simple, check, St.next, St.stat, St.code,
      h1, h2, Resp.stat]

theorem call_postinst_image :
    call v env (postinst .image) w =
      if hooksPass env .postinst ∧ env .touchNext = .ok then (decide ((exec v env .mvImage w).1 = .ok), (exec v env .mvImage w).2)
      else (false, w) := by
  cases h1 : env (.testHooks .postinst) <;> cases h2 : env (.runParts .postinst) <;> cases h3 : env .touchNext <;>
    cases h4 : (exec v env .mvImage w).1 <;>
    simp [call, run, start, postinst, seqs, hooks, Sh.and, block, eval, simple, check, St.next,
      St.stat, St.code, hooksPass, h1, h2, h3, h4, Resp.stat]

end Scripts

end AvaotaOS.KernelDeb
