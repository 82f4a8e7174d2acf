/-
`scripts/mkrootfs.sh` as a script over its commands, and the workspace it acts on: the tree at `ROOTFS` with the host's
/dev, /proc and /sys mounted in it, the trees `rootfs-${VERSION}-${TYPE}` it is renamed to, and the archives made of them.

Mounts move with the tree they are in (`mv`), `rm -rf` on a tree goes into them before it fails on the mount points, and
`UMOUNT_ALL` looks for mounts below the path `ROOTFS` only, by the text of that path. `mv` onto a directory that exists moves
the tree inside it.

Not modelled: the packages of the distribution, the mirror, and files no board or build decides.
-/
import Mathlib.Tactic
import AvaotaOS.Boards
import AvaotaOS.Core.Shell

namespace AvaotaOS.MkRootfs

open Shell

/-! ## Commands -/

/-- what `setup_mount_resolv` mounts from the host -/
inductive Host where
  | dev
  | proc
  | sys
deriving DecidableEq, Repr

/-- the two calls of `UMOUNT_ALL` -/
inductive Pass where
  | main
  | trap
deriving DecidableEq, Repr

/-- the commands of `setup_firstrun` apart from `avaota-release` -/
inductive FirstrunStep where
  | cpScript
  | cpService
  | chmodScript
  | enableService
  | installDiagnostics
  | mkdirJournal
  | chmodJournal
  | chownJournal
deriving DecidableEq, Repr

inductive Cmd where
  | arch
  | cd
  | sourceBoard
  | sourceOverlay
  -- run_debootstrap
  | catBasePackages
  | catExtPackages
  | rmRootfs
  | mkdirRootfs
  | mmdebstrap
  -- prepare_apt-list
  | aptList (i : Fin 4)
  -- setup_mount_resolv
  | mount (h : Host)
  | cpResolv
  -- the board functions
  | dhcp (s : DhcpStep)
  | board (s : BoardStep)
  -- setup_firstrun
  | firstrun (s : FirstrunStep)
  | catRelease
  | sedSshd
  -- clean_rootfs
  | aptClean
  | lnResolv
  | rmQemu
  -- setup_hostname_fstab
  | printfHosts
  | emptyHostname
  | echoHostname
  | echoSudoers
  | emptyFstab
  | catFstab
  -- UMOUNT_ALL
  | umount (q : Pass) (h : Host)
  -- rename, archive, remove
  | mv
  | pushd
  | tar
  | popd
  | rmRenamed
deriving DecidableEq, Repr

/-! ## The workspace -/

/-- the files of a tree that depend on how it was built -/
inductive File where
  | base (v : Version) (t : RootfsType)
  | netplan (eth : Fin 2) (six : Bool)
  | netplanMode
  | ifupdown
  | board (s : BoardStep)
  | firstrun (s : FirstrunStep)
  /-- `/etc/avaota-release` -/
  | release (b : Board) (v : Version) (t : RootfsType)
  /-- the line of `/etc/hosts` -/
  | hosts (name : String)
  | hostname (name : String)
  | fstab
deriving DecidableEq, Repr

structure Tree where
  files : List File
  dev : Bool
  proc : Bool
  sys : Bool
deriving DecidableEq, Repr

/-- a directory `rootfs-${VERSION}-${TYPE}`, and the tree that a later `mv` has put into it -/
structure Renamed where
  top : Tree
  nested : Option Tree
deriving DecidableEq, Repr

/-- `rootfs-${VERSION}-${TYPE}.tar.gz`: the directory as `tar` has read it -/
structure Archive where
  dir : Renamed
  /-- `tar` has come to its end -/
  complete : Bool
deriving DecidableEq, Repr

abbrev Key := Version × RootfsType

structure World where
  rootfs : Option Tree
  renamed : Key → Option Renamed
  archive : Key → Option Archive
  /-- `rm -rf` has run on a tree with /dev, /proc or /sys of the host in it -/
  rmHost : Bool

/-- one call of the script -/
structure Params where
  board : Board
  version : Version
  type : RootfsType
  /-- the packages include systemd-resolved -/
  resolved : Bool
  /-- `grep` finds `ROOTFS`, as the path is given, in /proc/mounts for what is mounted below it: the path does not end with a
  slash, no symbolic link is on it, and `grep` and /proc/mounts take its characters for themselves -/
  canonical : Bool

def Params.key (p : Params) : Key := (p.version, p.type)

def Tree.has (t : Tree) : Host → Bool
  | .dev => t.dev
  | .proc => t.proc
  | .sys => t.sys

def Tree.set (t : Tree) (h : Host) (on : Bool) : Tree :=
  match h with
  | .dev => { t with dev := on }
  | .proc => { t with proc := on }
  | .sys => { t with sys := on }

/-- something of the host is mounted in the tree -/
def Tree.any (t : Tree) : Bool := t.dev || t.proc || t.sys

def Renamed.any (r : Renamed) : Bool := r.top.any || r.nested.any (·.any)

/-- what a command writes into the tree at `ROOTFS` -/
def puts (p : Params) : Cmd → List File
  | .mmdebstrap => [.base p.version p.type]
  | .dhcp (.netplan e s) => [.netplan e s]
  | .dhcp .chmodSh | .dhcp .chmodSudo => [.netplanMode]
  | .dhcp .installIfupdown => [.ifupdown]
  | .board s => [.board s]
  | .firstrun s => [.firstrun s]
  | .catRelease => [.release p.board p.version p.type]
  | .printfHosts => [.hosts p.board.BOARD_NAME]
  | .echoHostname => [.hostname p.board.BOARD_NAME]
  | .catFstab => [.fstab]
  | _ => []

def World.onRootfs (w : World) (f : Tree → Tree) : World := { w with rootfs := w.rootfs.map f }

def World.put (w : World) (l : List File) : World := w.onRootfs fun t => { t with files := t.files ++ l }

/-! ## What the commands do -/

/-- `rm -rf ${ROOTFS}` -/
def rmTree (r : Resp) (w : World) : Stat × World :=
  match w.rootfs with
  | none => (r.stat, w)
  | some t =>
    if t.any then
      -- the files go, then those of the host, then `rm` fails on the mount points
      (if r.stat = .killed then .killed else .fail, { w.onRootfs (fun t => { t with files := [] }) with rmHost := true })
    else
      match r with
      | .ok => (.ok, { w with rootfs := none })
      | r => (r.stat, if r.part then w.onRootfs fun t => { t with files := [] } else w)

/-- `rm -rf rootfs-${VERSION}-${TYPE}` -/
def rmRenamed (k : Key) (r : Resp) (w : World) : Stat × World :=
  match w.renamed k with
  | none => (r.stat, w)
  | some d =>
    if d.any then (if r.stat = .killed then .killed else .fail, { w with rmHost := true })
    else
      match r with
      | .ok => (.ok, { w with renamed := Function.update w.renamed k none })
      | r => (r.stat, w)

/-- `mv ${ROOTFS} rootfs-${VERSION}-${TYPE}` -/
def mvTree (k : Key) (w : World) : Stat × World :=
  match w.rootfs, w.renamed k with
  | none, _ => (.fail, w)
  | some t, none => (.ok, { w with rootfs := none, renamed := Function.update w.renamed k (some ⟨t, none⟩) })
  | some t, some ⟨d, none⟩ =>
    (.ok, { w with rootfs := none, renamed := Function.update w.renamed k (some ⟨d, some t⟩) })
  | some _, some ⟨_, some _⟩ => (.fail, w)

/-- `tar -zcvf ../rootfs-${VERSION}-${TYPE}.tar.gz *`: the archive is written in place -/
def tarDir (k : Key) (r : Resp) (w : World) : Stat × World :=
  match w.renamed k with
  | none => (if r.stat = .killed then .killed else .fail, w)
  | some d =>
    (r.stat,
      if r = .ok ∨ r.part then { w with archive := Function.update w.archive k (some ⟨d, decide (r = .ok)⟩) } else w)

def exec (p : Params) (env : Cmd → Resp) (c : Cmd) (w : World) : Stat × World :=
  match c, env c with
  | .rmRootfs, r => rmTree r w
  | .mkdirRootfs, .ok => (.ok, { w with rootfs := some ⟨[], false, false, false⟩ })
  | .mount h, .ok => (.ok, w.onRootfs (·.set h true))
  | .umount _ h, .ok => (.ok, w.onRootfs (·.set h false))
  | .emptyHostname, .ok =>
    (.ok, w.onRootfs fun t => { t with files := t.files.filter fun
      | .hostname _ => false
      | _ => true })
  | .emptyFstab, .ok => (.ok, w.onRootfs fun t => { t with files := t.files.filter (· ≠ .fstab) })
  | .mv, .ok => mvTree p.key w
  | .tar, r => tarDir p.key r w
  | .rmRenamed, r => rmRenamed p.key r w
  | c, r => (r.stat, if r = .ok ∨ r.part then w.put (puts p c) else w)

/-- the commands that only write into the tree at `ROOTFS` -/
def Cmd.inside : Cmd → Bool
  | .mmdebstrap | .aptList _ | .cpResolv | .dhcp _ | .board _ | .firstrun _ | .catRelease | .sedSshd => true
  | .aptClean | .lnResolv | .rmQemu => true
  | .printfHosts | .emptyHostname | .echoHostname | .echoSudoers | .emptyFstab | .catFstab => true
  | _ => false

/-! ## The script -/

/-- one guarded `umount -l ${ROOTFS}/..` -/
def umountHost (p : Params) (q : Pass) (h : Host) : Sh Cmd World :=
  .cond (fun w => p.canonical && w.rootfs.any (·.has h)) (.cmd (.umount q h)) .tt

def umounts (p : Params) (q : Pass) : Sh Cmd World :=
  .seq (umountHost p q .dev) (.seq (umountHost p q .proc) (umountHost p q .sys))

def UMOUNT_ALL (p : Params) (q : Pass) : Sh Cmd World := seqs [.errexit false, umounts p q, .errexit true]

/-- up to the test for an old `ROOTFS` -/
def sources (p : Params) : List Cmd :=
  [.arch, .cd, .sourceBoard, .sourceOverlay, .catBasePackages] ++ if p.type ≠ .cli then [.catExtPackages] else []

/-- the commands of `prepare_apt-list`, by version -/
def aptSteps : Version → ℕ
  | .jammy | .focal => 2
  | .noble => 3
  | .bullseye => 2
  | .bookworm | .trixie => 4

def prepare_apt_list (p : Params) : List Cmd := ((List.finRange 4).filter (·.val < aptSteps p.version)).map .aptList

def debootstrap (p : Params) : List Cmd := [.mkdirRootfs, .mmdebstrap] ++ prepare_apt_list p

/-- everything before the first mount -/
def prepare (p : Params) : Sh Cmd World :=
  .seq (.errexit true) <| .seq (block (sources p)) <|
    .seq (.cond (·.rootfs.isSome) (.cmd .rmRootfs) .tt) (block (debootstrap p))

def setup_mount_resolv : List Cmd := [.mount .dev, .mount .proc, .mount .sys, .cpResolv]

def boardConf (p : Params) : List Cmd :=
  (p.board.setup_dhcp p.version).map .dhcp ++
    (p.board.setup_display p.version p.type ++ p.board.setup_wifi).map .board

def setup_firstrun : List Cmd :=
  [FirstrunStep.cpScript, .cpService, .chmodScript, .enableService, .installDiagnostics, .mkdirJournal, .chmodJournal,
    .chownJournal].map .firstrun ++ [.catRelease, .sedSshd]

/-- `HOST_ARCH` comes from `arch`, which never prints `arm64` -/
def clean_rootfs (p : Params) : List Cmd := [.aptClean] ++ (if p.resolved then [.lnResolv] else []) ++ [.rmQemu]

def setup_hostname_fstab : List Cmd :=
  [.printfHosts, .emptyHostname, .echoHostname, .echoSudoers, .emptyFstab, .catFstab]

def setup (p : Params) : List Cmd := boardConf p ++ setup_firstrun ++ clean_rootfs p ++ setup_hostname_fstab

def archive : List Cmd := [.mv, .pushd, .tar, .popd, .rmRenamed]

/-- what runs under the EXIT trap -/
def trapped (p : Params) : Sh Cmd World := .seq (block (setup p)) (.seq (UMOUNT_ALL p .main) (block archive))

def script (p : Params) : Sh Cmd World :=
  .seq (prepare p) (.seq (block setup_mount_resolv) (.onExit (UMOUNT_ALL p .trap) (trapped p)))

/-- one call of the script -/
def mkrootfs (p : Params) (env : Cmd → Resp) (w : World) : St Cmd World := run (exec p env) (script p) w

/-- the setup writes into the tree and nowhere else -/
theorem setup_inside {p : Params} {c : Cmd} (hc : c ∈ setup p) : c.inside = true := by
  simp only [setup, boardConf, clean_rootfs, List.mem_append, List.mem_map] at hc
  rcases hc with ((hc | hc) | hc) | hc
  · rcases hc with ⟨s, -, rfl⟩ | ⟨s, -, rfl⟩ <;> rfl
  · revert c; decide
  · rcases hc with (hc | hc) | hc
    · revert c; decide
    · split at hc <;> simp at hc
      subst hc; rfl
    · revert c; decide
  · revert c; decide

theorem inside_stat (p : Params) (env : Cmd → Resp) {c : Cmd} (hc : c.inside = true) (w : World) :
    (exec p env c w).1 = (env c).stat := by
  cases c <;> first
    | (simp [Cmd.inside] at hc; done)
    | rfl
    | (cases h : env .emptyHostname <;> simp [exec, h, Resp.stat]; done)
    | (cases h : env .emptyFstab <;> simp [exec, h, Resp.stat])

end AvaotaOS.MkRootfs
