/-
The board configurations (`boards/*.conf`): what the build scripts read of them.

Kernel targets are the values of `KERNEL_BRANCH`; a target outside that list leaves the LINUX_* variables unset
(`linuxConf` is `none`). `Selection` is a board with one of its own targets.
-/
import Mathlib.Tactic

namespace AvaotaOS

/-- the commands that stand twice in a script are numbered by `Fin 2` -/
instance neZeroTwo : NeZero 2 := ⟨two_ne_zero⟩

/-- the files of `boards/` -/
inductive Board where
  | avaotaA1
  | avaotaC1
  | dshanpiA1
deriving DecidableEq, Repr

/-- `BL_CONFIG`: which bootloader library is sourced -/
inductive BlConfig where
  | sunxiSyterkit
  | sunxiUboot
  | rockchipUboot
deriving DecidableEq, Repr

/-- the directories of `os/` -/
inductive Version where
  | focal
  | jammy
  | noble
  | bullseye
  | bookworm
  | trixie
deriving DecidableEq, Repr

/-- the desktop types that have a package list in `os/` -/
inductive RootfsType where
  | cli
  | xfce
  | gnome
  | kde
  | lxqt
deriving DecidableEq, Repr

/-- the LINUX_* variables one branch of the KERNEL_TARGET case sets, as far as the kernel build reads them -/
structure LinuxConf where
  LINUX_CONFIG : String
  LINUX_PATHDIR : String
deriving DecidableEq, Repr

namespace Board

def BOARD_NAME : Board → String
  | avaotaA1 => "avaota-a1"
  | avaotaC1 => "avaota-c1"
  | dshanpiA1 => "dshanpi-a1"

def BL_CONFIG : Board → BlConfig
  | avaotaA1 => .sunxiSyterkit
  | avaotaC1 => .sunxiUboot
  | dshanpiA1 => .rockchipUboot

/-- the `case "${KERNEL_TARGET}"` of the board file -/
def linuxConf (b : Board) (t : String) : Option LinuxConf :=
  match b with
  | avaotaA1 => if t = "bsp" then some ⟨"sun55i_t527_bsp_defconfig", "none"⟩ else none
  | avaotaC1 =>
    if t = "bsp" then some ⟨"sun50i_h618_bsp_defconfig", "none"⟩
    else if t = "mainline" then some ⟨"sun50i_mainline_defconfig", "avaota-c1-6.6.0"⟩ else none
  | dshanpiA1 => if t = "bsp" then some ⟨"rockchip_linux_defconfig", "none"⟩ else none

theorem linuxConf_a1_bsp : linuxConf .avaotaA1 "bsp" = some ⟨"sun55i_t527_bsp_defconfig", "none"⟩ := rfl

theorem linuxConf_c1_bsp : linuxConf .avaotaC1 "bsp" = some ⟨"sun50i_h618_bsp_defconfig", "none"⟩ := rfl

theorem linuxConf_c1_mainline : linuxConf .avaotaC1 "mainline" = some ⟨"sun50i_mainline_defconfig", "avaota-c1-6.6.0"⟩ := rfl

theorem linuxConf_dshanpi_bsp : linuxConf .dshanpiA1 "bsp" = some ⟨"rockchip_linux_defconfig", "none"⟩ := rfl

/-- within one board the defconfig names the target -/
theorem linuxConf_inj {b : Board} {t t' : String} {c c' : LinuxConf} (h : b.linuxConf t = some c)
    (h' : b.linuxConf t' = some c') (hc : c.LINUX_CONFIG = c'.LINUX_CONFIG) : t = t' := by
  cases b with
  | avaotaA1 | dshanpiA1 =>
    simp only [linuxConf] at h h'
    split at h <;> split at h' <;> simp_all
  | avaotaC1 =>
    simp only [linuxConf] at h h'
    split_ifs at h h' <;> simp_all
    · subst h h'; simp at hc
    · subst h h'; simp at hc

/-- the host name of an image names its board -/
theorem BOARD_NAME_inj {b b' : Board} (h : b.BOARD_NAME = b'.BOARD_NAME) : b = b' := by
  cases b <;> cases b' <;> first | rfl | exact absurd h (by decide)

end Board

/-! ## The board functions -/

/-- the commands of `setup_dhcp` -/
inductive DhcpStep where
  /-- `netplan set ethernets.eth<i>.dhcp4=true`, and dhcp6 -/
  | netplan (eth : Fin 2) (six : Bool)
  /-- `/bin/sh -c 'chmod 600 /etc/netplan/*.yaml'` -/
  | chmodSh
  /-- `sudo chmod 600 /etc/netplan/*.yaml` -/
  | chmodSudo
  | aptUpdate
  | installIfupdown
deriving DecidableEq, Repr

/-- the commands of `setup_display` and `setup_wifi` -/
inductive BoardStep where
  | sedGdm
  | grepGdm
  | mkdirXorg
  | catXorg
  | mkdirModules
  | catWifi
deriving DecidableEq, Repr

namespace Board

def netplanSet : List DhcpStep := [.netplan 0 false, .netplan 0 true, .netplan 1 false, .netplan 1 true]

def ifupdown : List DhcpStep := [.aptUpdate, .installIfupdown]

def setup_dhcp (b : Board) (v : Version) : List DhcpStep :=
  match b with
  | avaotaA1 => if v = .jammy ∨ v = .noble then netplanSet ++ [.chmodSh] else ifupdown
  | avaotaC1 => ifupdown
  | dshanpiA1 => if v = .jammy ∨ v = .noble then netplanSet ++ [.chmodSudo] else ifupdown

/-- the A1 sets up X11 under GNOME on noble -/
def setup_display (b : Board) (v : Version) (t : RootfsType) : List BoardStep :=
  match b with
  | avaotaA1 => if v ≠ .noble ∨ t ≠ .gnome then [] else [.sedGdm, .grepGdm, .mkdirXorg, .catXorg]
  | avaotaC1 | dshanpiA1 => []

def setup_wifi : Board → List BoardStep
  | avaotaA1 => [.mkdirModules, .catWifi]
  | avaotaC1 | dshanpiA1 => []

end Board

/-! ## Selections -/

/-- a board with one of its kernel targets -/
structure Selection where
  board : Board
  target : String
  conf : LinuxConf
  supported : board.linuxConf target = some conf

instance : DecidableEq Selection := fun s s' =>
  decidable_of_iff (s.board = s'.board ∧ s.target = s'.target) <| by
    obtain ⟨b, t, c, h⟩ := s
    obtain ⟨b', t', c', h'⟩ := s'
    simp only [Selection.mk.injEq]
    refine ⟨fun ⟨hb, ht⟩ => ⟨hb, ht, ?_⟩, fun ⟨hb, ht, _⟩ => ⟨hb, ht⟩⟩
    subst hb ht
    rw [h] at h'
    exact Option.some.inj h'

/-- a selection is its board and its defconfig -/
theorem Selection.ext_config {s s' : Selection} (hb : s.board = s'.board)
    (hc : s.conf.LINUX_CONFIG = s'.conf.LINUX_CONFIG) : s = s' := by
  obtain ⟨b, t, c, h⟩ := s
  obtain ⟨b', t', c', h'⟩ := s'
  simp only at hb hc
  subst hb
  obtain rfl := Board.linuxConf_inj h h' hc
  rw [h] at h'
  obtain rfl := Option.some.inj h'
  rfl

theorem Selection.config_ne_empty (s : Selection) : s.conf.LINUX_CONFIG ≠ "" := by
  obtain ⟨b, t, c, h⟩ := s
  cases b <;> simp only [Board.linuxConf] at h <;> split_ifs at h <;> simp only [Option.some.injEq] at h <;> subst h <;>
    simp

end AvaotaOS
