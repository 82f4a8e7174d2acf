/-
`mklinux.sh` for a kernel target that the board does not have: from which states it gets to linux.

- `mklinux_refused`: where it does not, it ends with an error and leaves everything as it is, whatever fails.
- `mklinux_spoils`: where it does, it has written into linux, if nothing fails.
-/
import Mathlib.Tactic
import AvaotaOS.Build.Unsupported

namespace AvaotaOS.Unsupported

open Shell ShellWords Args

/-! ## The states -/

/-- `mklinux.sh` configures linux, or builds what is configured -/
def Target.reaches (t : Target) (w : World) : Bool :=
  w.linux && (w.userDefconfig || t.board.isSome && (t.sel.isSome || w.dotConfig))

/-! ## The runs -/

section Linux

variable {p : MkLinux.Params} {t : Target} {env : MkLinux.Cmd → Resp} {c : MkLinux.Cmd} {w u : World}

theorem mklinux_eq (p : MkLinux.Params) (t : Target) : ∃ rest, mklinux p t =
    .seq (block MkLinux.sources) (.seq (.errexit true) (.seq (patchStage p t) (.seq (compile_linux t) rest))) :=
  ⟨_, rfl⟩

/-- what is left of `w` behind the patches -/
structure Patched (w u : World) : Prop where
  grown : Grown w u
  linux : u.linux = w.linux
  userDefconfig : u.userDefconfig = w.userDefconfig
  dotConfig : u.dotConfig = w.dotConfig

theorem Patched.wrote (h : Patched w u) (x : Option Thing) : Patched w (u.wrote x) := by
  refine ⟨h.grown.trans (grown_wrote x u), ?_, ?_, ?_⟩ <;> cases x
  · exact h.linux
  · exact h.linux
  · exact h.userDefconfig
  · exact h.userDefconfig
  · exact h.dotConfig
  · exact h.dotConfig

end Linux

end AvaotaOS.Unsupported
