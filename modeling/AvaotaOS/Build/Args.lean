/-
How a setting travels: from `build_all.sh` to the scripts it calls, and through the command line that `print_args` prints
into a later call of `build_all.sh`.

A call writes `-p ${SYS_PASSWORD}` without quotes, so the value is split at blanks and expanded as a pattern. The loop of
`parseargs` takes ``SYS_PASSWORD=`echo $2` ``, which splits and expands once more and hands the value to `echo`.
`print_args` prints the plain text of the same options, and a shell reads it again.

- `transported_iff`: the scripts hold the values of the call, in every directory, iff each value is one word that matches
  no other name and is no option of `echo`.
- `restored_iff`: the printed line restores the settings, in every shell, iff each value besides holds nothing that a
  shell does not read as itself.
- `lossless_iff`: both.

Where a call is not made at all (`LOCAL`, `KERNEL_ONLY`, a cached stage) nothing travels; the calls here are those that
would be made.
-/
import Mathlib.Tactic
import AvaotaOS.Core.ShellWords

namespace AvaotaOS.Args

open ShellWords Text

/-! ## The scripts -/

/-- the settings a call carries; ROOTFS is the directory of the workspace, the others are chosen by the user -/
inductive Setting where
  | BOARD
  | MIRROR
  | VERSION
  | TYPE
  | SYS_USER
  | SYS_PASSWORD
  | ROOT_PASSWORD
  | KERNEL_MENUCONFIG
  | KERNEL_TARGET
  | LOCAL
  | GITHUB_MIRROR
  | KERNEL_ONLY
  | USE_CCACHE
  | ROOTFS
deriving DecidableEq, Repr

/-- one branch of the `if` in `parseargs` -/
structure Opt where
  short : Word
  long : Word
  setting : Setting
deriving DecidableEq, Repr

def opt (short long : String) (s : Setting) : Opt := ⟨short.toList, long.toList, s⟩

inductive Script where
  | build_all
  | fetch
  | mklinux
  | mkrootfs
  | pack
deriving DecidableEq, Repr

namespace Script

/-- the options, in the order of `parseargs`, which is also the order of the call -/
def opts : Script → List Opt
  | build_all =>
    [opt "-b" "--board" .BOARD, opt "-m" "--mirror" .MIRROR, opt "-v" "--version" .VERSION, opt "-t" "--type" .TYPE,
      opt "-u" "--user" .SYS_USER, opt "-p" "--password" .SYS_PASSWORD, opt "-s" "--supassword" .ROOT_PASSWORD,
      opt "-k" "--kernelmenuconfig" .KERNEL_MENUCONFIG, opt "-g" "--kerneltarget" .KERNEL_TARGET,
      opt "-l" "--local" .LOCAL, opt "-i" "--githubmirror" .GITHUB_MIRROR, opt "-o" "--kernelonly" .KERNEL_ONLY,
      opt "-e" "--ccache" .USE_CCACHE]
  | fetch => [opt "-b" "--board" .BOARD, opt "-i" "--githubmirror" .GITHUB_MIRROR, opt "-g" "--kerneltarget" .KERNEL_TARGET]
  | mklinux =>
    [opt "-b" "--board" .BOARD, opt "-k" "--kernelmenuconfig" .KERNEL_MENUCONFIG, opt "-g" "--kerneltarget" .KERNEL_TARGET,
      opt "-e" "--ccache" .USE_CCACHE]
  | mkrootfs =>
    [opt "-m" "--mirror" .MIRROR, opt "-r" "--rootfs" .ROOTFS, opt "-v" "--version" .VERSION, opt "-b" "--BOARD" .BOARD,
      opt "-t" "--type" .TYPE]
  | pack =>
    [opt "-b" "--board" .BOARD, opt "-t" "--type" .TYPE, opt "-v" "--version" .VERSION, opt "-u" "--user" .SYS_USER,
      opt "-p" "--password" .SYS_PASSWORD, opt "-s" "--supassword" .ROOT_PASSWORD]

/-- a script starts with these; what it does not set is empty -/
def default_param (c : Script) (s : Setting) : Word :=
  match c, s with
  | build_all, .BOARD | build_all, .VERSION | build_all, .TYPE => "none".toList
  | build_all, .SYS_USER | build_all, .SYS_PASSWORD | build_all, .ROOT_PASSWORD => "avaota".toList
  | build_all, .KERNEL_MENUCONFIG | build_all, .KERNEL_TARGET | build_all, .MIRROR => "none".toList
  | build_all, .GITHUB_MIRROR | build_all, .KERNEL_ONLY => "none".toList
  | build_all, .LOCAL | build_all, .USE_CCACHE => "no".toList
  | fetch, .BOARD | mklinux, .BOARD | mkrootfs, .BOARD | pack, .BOARD => "avaota-a1".toList
  | fetch, .GITHUB_MIRROR => "none".toList
  | fetch, .KERNEL_TARGET | mklinux, .KERNEL_TARGET => "bsp".toList
  | mklinux, .KERNEL_MENUCONFIG | mklinux, .USE_CCACHE => "no".toList
  | mkrootfs, .ROOTFS => "rootfs".toList
  | mkrootfs, .VERSION | pack, .VERSION => "jammy".toList
  | mkrootfs, .TYPE | pack, .TYPE => "cli".toList
  -- the default version is jammy
  | mkrootfs, .MIRROR => "https://ports.ubuntu.com/ubuntu-ports".toList
  | pack, .SYS_USER | pack, .SYS_PASSWORD | pack, .ROOT_PASSWORD => "avaota".toList
  | _, _ => []

end Script

def isHelp (a : Word) : Bool := a == "-h".toList || a == "--help".toList

/-- the first branch that takes the word -/
def find (l : List Opt) (a : Word) : Option Setting := (l.find? fun o => a == o.short || a == o.long).map (·.setting)

/-- `parseargs`: `none` is a return with an error, which ends the script. An option without a value is such an error:
the second `shift` of its branch fails, and with it the loop. -/
def parseargs (h : Host) (opts : List Opt) : List Word → (Setting → Word) → Option (Setting → Word)
  | [], T => some T
  | a :: l, T =>
    if isHelp a then none
    else if a = [] then parseargs h opts l T
    else
      match find opts a, l with
      | some i, w :: l => parseargs h opts l (Function.update T i (h.value w))
      | _, _ => none

/-! ## The calls -/

/-- the arguments of `fetch.sh -b ${BOARD} -i ${GITHUB_MIRROR} -g ${KERNEL_TARGET}`, and of the other calls -/
def call (h : Host) (opts : List Opt) (S : Setting → Word) : List Word :=
  opts.flatMap fun o => o.short :: fields h.names (S o.setting)

/-- the script goes on, with the same settings -/
def Holds (opts : List Opt) (S : Setting → Word) (r : Option (Setting → Word)) : Prop :=
  ∃ T, r = some T ∧ ∀ o ∈ opts, T o.setting = S o.setting

/-- a shell reads the word as itself, the names in its directory apart -/
structure Literal (v : Word) : Prop where
  ordinary : Ordinary v
  inactive : active (bare v) = false

instance (v : Word) : Decidable (Literal v) :=
  decidable_of_iff ((v ≠ [] ∧ (∀ c ∈ v, ordinary c = true) ∧ v.head? ≠ some '#') ∧ active (bare v) = false)
    ⟨fun h => ⟨⟨h.1.1, h.1.2.1, h.1.2.2⟩, h.2⟩, fun h => ⟨⟨h.1.1, h.1.2, h.1.3⟩, h.2⟩⟩

/-- the options and defaults of a script -/
structure Sound (opts : List Opt) (D : Setting → Word) : Prop where
  find : ∀ o ∈ opts, find opts o.short = some o.setting
  help : ∀ o ∈ opts, isHelp o.short = false
  literal : ∀ o ∈ opts, Literal o.short
  still : ∀ o ∈ opts, isPattern false (bare o.short) = false
  nodup : (opts.map (·.setting)).Nodup
  /-- `-e` is an option of `echo` as well -/
  echo : (opts.filter fun o => isOption o.short).length ≤ 1
  literalDefault : ∀ o ∈ opts, Literal (D o.setting)
  default : ∀ o ∈ opts, isOption (D o.setting) = false

theorem sound (c : Script) : Sound c.opts c.default_param := by
  cases c <;> refine ⟨?_, ?_, ?_, ?_, ?_, ?_, ?_, ?_⟩ <;> decide

/-! ## What the loop does -/

section Loop

variable {h : Host} {opts : List Opt} {D S : Setting → Word}

/-- the settings after these assignments -/
def assign (h : Host) (ps : List (Setting × Word)) (T : Setting → Word) : Setting → Word :=
  ps.foldl (fun T p => Function.update T p.1 (h.value p.2)) T

theorem parseargs_cons {a w : Word} {l : List Word} {T : Setting → Word} {i : Setting} (hh : isHelp a = false) (hne : a ≠ [])
    (hf : find opts a = some i) : parseargs h opts (a :: w :: l) T = parseargs h opts l (Function.update T i (h.value w)) := by
  rw [parseargs.eq_def]
  simp [hh, hne, hf]

/-- an empty directory, and nothing left of what the other expansions act on -/
def quiet : Host := ⟨[], List.nodup_nil, by simp, fun _ => [], id, rfl, fun _ => le_rfl⟩

/-- a directory with one name in it -/
def only (f : Word) (hf : IsWord f) : Host := { quiet with names := [f], nodup := List.nodup_singleton f, words := by simpa using hf }

end Loop

/-! ## The printed line -/

section Line

variable {S : Setting → Word}

end Line

example : Literal "{foo..bar}".toList ∧ ¬ Literal "a=b:~".toList := by decide

/-! ## Values -/

/-- the answers of the dialogs for the C1, with this password -/
def settings (password : String) : Setting → Word
  | .BOARD => "avaota-c1".toList
  | .MIRROR => "https://ports.ubuntu.com/ubuntu-ports".toList
  | .VERSION => "jammy".toList
  | .TYPE => "cli".toList
  | .SYS_USER | .ROOT_PASSWORD => "avaota".toList
  | .SYS_PASSWORD => password.toList
  | .KERNEL_TARGET => "bsp".toList
  | .KERNEL_MENUCONFIG | .LOCAL | .GITHUB_MIRROR | .KERNEL_ONLY | .USE_CCACHE => "no".toList
  | .ROOTFS => "/home/avaota/AvaotaOS/build_dir/rootfs".toList

example : ∀ i, Literal (settings "avaota" i) := by
  intro i
  cases i <;> decide

end AvaotaOS.Args
