/-
The bootloader stage of `build_all.sh`: `mkbootloader.sh` with the three bootloader libraries
(`scripts/lib/bootloader/bootloader-*.sh`), run inside `build_all.sh` over any history of calls.

`bootloader-${BOARD}/.done` lies in a directory of the board, but the binaries it vouches for are files of the workspace
that all boards share. Three facts make the marker sound: a board's binaries are written for that board only, as the
boards use three different libraries; `apply_bootloader` writes the marker last; and it runs only where the marker is not
there.

Every file carries the number and the board of the call of `mkbootloader.sh` that made it, and whether it is whole. A
copy that breaks off leaves a part of its file. `mkdir` and `cd` into SyterKit's build directory are one list, whose
failure is not fatal: then `cmake` is started in a directory whose parent has no CMakeLists.txt.

Results:
- `mkbootloader_triple`: a call that gets to its end has built and written everything the board needs; one that is stopped
  leaves no marker. Neither touches what another board needs.
- `packs_own_bootloader`: in every history each call of `pack.sh` finds its own board's bootloader, from one completed
  call of `mkbootloader.sh`.

Not modelled: the sources themselves (`fetch.sh` may leave any products in the trees), and the four patches of
`patch_u-boot` one by one.
-/
import Mathlib.Tactic
import AvaotaOS.Core.Text
import AvaotaOS.Core.Triple
import AvaotaOS.Build.BuildAll
import AvaotaOS.Image.WriteBootloader

namespace AvaotaOS

namespace Board

def DEVICE_DTS : Board → String
  | avaotaA1 => "allwinner/sun55i-t527-avaota-a1"
  | avaotaC1 => "allwinner/sun50i-h618-avaota-c1"
  | dshanpiA1 => "rockchip/rk3576-100ask-dshanpi-a1-linux"

def BOOTARGS : Board → String
  | avaotaA1 =>
    "root=LABEL=rootfs earlycon=uart8250,mmio32,0x02500000 clk_ignore_unused initcall_debug=0 console=tty1 " ++
      "console=ttyAS0,115200 loglevel=8 cma=64M init=/sbin/init rw fsck.fix=yes fsck.repair=yes net.ifnames=0"
  | avaotaC1 =>
    "root=LABEL=rootfs rootwait rootfstype=ext4 console=ttyS0,115200 clk_ignore_unused initcall_debug=0 " ++
      "consoleblank=0 loglevel=8 init=/sbin/init rw fsck.fix=yes fsck.repair=yes net.ifnames=0"
  | dshanpiA1 =>
    "root=LABEL=rootfs rootwait earlyprintk console=ttyS2,1500000 rw rootfstype=ext4 init=/sbin/init rootwait"

def USE_PREBUILT_UBOOT : Board → Bool
  | avaotaA1 | avaotaC1 => false
  | dshanpiA1 => true

/-- no two boards use the same bootloader library -/
theorem BL_CONFIG_inj {b b' : Board} (h : b.BL_CONFIG = b'.BL_CONFIG) : b = b' := by
  cases b <;> cases b' <;> first | rfl | exact absurd h (by decide)

end Board

namespace Bootloader

open Shell WriteBootloader Text

/-! ## extlinux.conf -/

/-- `target/boot/extlinux.conf` -/
def template : List (List Char) :=
  ["label AvaotaOS".toList, "  kernel /Image".toList, "  fdt /dtb/DTB_NAME.dtb".toList, "  initrd /uInitrd".toList,
    "  append BOOTARGS".toList]

/-- `sed -i "s|p|r|g"` on every line -/
def sedLines (p r : String) (l : List (List Char)) : List (List Char) := l.map (Text.sed p.toList r.toList)

/-- the file with the board's device tree and boot arguments -/
def extlinux (b : Board) : List (List Char) :=
  ["label AvaotaOS".toList, "  kernel /Image".toList, ("  fdt /dtb/" ++ b.DEVICE_DTS ++ ".dtb").toList,
    "  initrd /uInitrd".toList, ("  append " ++ b.BOOTARGS).toList]

theorem sed_dtb (r : String) :
    sedLines "DTB_NAME" r template = ["label AvaotaOS".toList, "  kernel /Image".toList,
      "  fdt /dtb/".toList ++ (r.toList ++ ".dtb".toList), "  initrd /uInitrd".toList, "  append BOOTARGS".toList] := by
  have hfdt : Text.pieces "DTB_NAME".toList 0 "  fdt /dtb/DTB_NAME.dtb".toList = ["  fdt /dtb/".toList, ".dtb".toList] := by
    decide
  simp only [sedLines, template, List.map_cons, List.map_nil]
  rw [sed_none (by decide), sed_none (by decide), sed_once hfdt, sed_none (by decide), sed_none (by decide)]

/-- no device tree name holds the other placeholder -/
theorem fdt_pieces (b : Board) :
    Text.pieces "BOOTARGS".toList 0 ("  fdt /dtb/".toList ++ (b.DEVICE_DTS.toList ++ ".dtb".toList)) =
      ["  fdt /dtb/".toList ++ (b.DEVICE_DTS.toList ++ ".dtb".toList)] := by
  cases b <;> decide

/-- **The two substitutions put the board's values in their places** -/
theorem sed_template (b : Board) :
    sedLines "BOOTARGS" b.BOOTARGS (sedLines "DTB_NAME" b.DEVICE_DTS template) = extlinux b := by
  have happend : Text.pieces "BOOTARGS".toList 0 "  append BOOTARGS".toList = ["  append ".toList, []] := by decide
  rw [sed_dtb, sedLines]
  simp only [List.map_cons, List.map_nil]
  rw [sed_none (by decide), sed_none (by decide), sed_none (fdt_pieces b), sed_none (by decide), sed_once happend]
  simp [extlinux, String.toList_append]

/-! ## Files -/

/-- what a call of `mkbootloader.sh` has made: the call, its board, and is the file whole -/
structure Copy where
  run : ℕ
  board : Board
  whole : Bool
deriving DecidableEq, Repr

/-- what `apply_bootloader` copies into `bootloader-${BOARD}` as it is -/
inductive Blob where
  | uInitrd
  | bl31
  | scp
  | splash
deriving DecidableEq, Repr

/-- `bootloader-${BOARD}`; `run` is the call that made the directory -/
structure Dir where
  run : ℕ
  blob : Blob → Option Copy
  extlinux : Option (List (List Char))
  /-- the content of `.done` -/
  done : Option String

/-- what the source trees hold besides the sources -/
structure Trees where
  /-- `sunxi-syterkit/build-${BOARD}` -/
  buildDir : Bool
  /-- the binaries, where `apply_bootloader` looks for them -/
  bin : BlFile → Option Copy

/-- the directories the library changes into -/
inductive Cwd where
  | workspace
  | atf
  /-- `${BL_CONFIG}` -/
  | tree
  /-- `${BL_CONFIG}/build-${BOARD}` -/
  | build
deriving DecidableEq, Repr

structure World where
  cwd : Cwd
  trees : Trees
  /-- the binaries in the workspace -/
  bin : BlFile → Option Copy
  dir : Board → Option Dir

/-- the test of `build_all.sh` -/
def World.done (w : World) (b : Board) : Bool := (w.dir b).any fun d => d.done == some b.BOARD_NAME

/-- the binaries `write_bootloader` reads -/
def bins (b : Board) : List BlFile := (write_bootloader b.BL_CONFIG).map (·.ifile)

/-- the files of `bootloader-${BOARD}` that are copied as they are -/
def blobs (b : Board) : List Blob :=
  match b.BL_CONFIG with
  | .sunxiSyterkit => [.uInitrd, .bl31, .scp, .splash]
  | .sunxiUboot | .rockchipUboot => [.uInitrd]

/-! ## Commands -/

inductive Cmd where
  /-- `source ../boards/${BOARD}.conf`: in the script, in `build_bootloader`, in `apply_bootloader` -/
  | sourceConf (i : Fin 3)
  | sourceLib
  | cdWorkspace
  | cdAtf
  | cdTree
  | cdBuild
  /-- `cd ..` -/
  | cdUp
  | mkdirBuild
  | cmake
  /-- `make` on the trusted firmware -/
  | makeAtf
  /-- `make ${BL_CONF}` -/
  | makeConf
  /-- the `make` that leaves these binaries -/
  | make (l : List BlFile)
  /-- `tools/mkimage` -/
  | mkimage
  | patchUboot
  | cpBl31Elf
  | cpTee
  /-- `cp target/boot/${BOARD}-u-boot-bin/* .` -/
  | cpPrebuilt
  | rmDir
  | mkdirDir
  | cpBlob (f : Blob)
  | cpExtlinux
  | sedDtb
  | sedBootargs
  /-- from the tree into the workspace -/
  | cpBin (x : BlFile)
  | writeDone
deriving DecidableEq, Repr

section Exec

/- `n` counts the calls of the script, `env` is what the environment answers to its commands. -/
variable (n : ℕ) (b : Board) (env : Cmd → Resp)

/-- change the board's directory, if it is there -/
def World.onDir (w : World) (f : Dir → Dir) : World := { w with dir := Function.update w.dir b ((w.dir b).map f) }

/-- write these binaries in the tree -/
def World.build (w : World) (l : List BlFile) (whole : Bool) : World :=
  { w with trees := { w.trees with bin := fun x => if x ∈ l then some ⟨n, b, whole⟩ else w.trees.bin x } }

/-- a file of the workspace -/
def World.setBin (w : World) (x : BlFile) (c : Copy) : World := { w with bin := Function.update w.bin x (some c) }

/-- where the commands that build find what they need -/
def ready (c : Cmd) (w : World) : Bool :=
  match c with
  | .mkdirBuild => !w.trees.buildDir
  | .cdBuild => w.trees.buildDir
  -- the CMakeLists.txt is in the tree itself, and the build files are where cmake has run
  | .cmake => w.cwd == .build
  | .make _ => w.cwd == (if b.BL_CONFIG = .sunxiSyterkit then .build else .tree)
  | .cpBin x => (w.trees.bin x).isSome
  | .cpBlob _ | .cpExtlinux | .writeDone => (w.dir b).isSome
  | .sedDtb | .sedBootargs => (w.dir b).any fun d => d.extlinux.isSome
  | _ => true

/-- what a command does where nothing goes wrong -/
def effect (c : Cmd) (w : World) : World :=
  match c with
  | .cdWorkspace | .cdUp => { w with cwd := .workspace }
  | .cdAtf => { w with cwd := .atf }
  | .cdTree => { w with cwd := .tree }
  | .cdBuild => { w with cwd := .build }
  | .mkdirBuild => { w with trees := { w.trees with buildDir := true } }
  | .make l => w.build n b l true
  | .mkimage => w.build n b [.idbloader] true
  | .cpPrebuilt => w.build n b [.idbloader, .ubootItb] true
  | .rmDir => { w with dir := Function.update w.dir b none }
  | .mkdirDir => { w with dir := Function.update w.dir b (some ((w.dir b).getD ⟨n, fun _ => none, none, none⟩)) }
  | .cpBlob f => w.onDir b fun d => { d with blob := Function.update d.blob f (some ⟨n, b, true⟩) }
  | .cpExtlinux => w.onDir b fun d => { d with extlinux := some template }
  | .sedDtb => w.onDir b fun d => { d with extlinux := d.extlinux.map (sedLines "DTB_NAME" b.DEVICE_DTS) }
  | .sedBootargs => w.onDir b fun d => { d with extlinux := d.extlinux.map (sedLines "BOOTARGS" b.BOOTARGS) }
  | .cpBin x => { w with bin := Function.update w.bin x (w.trees.bin x) }
  | .writeDone => w.onDir b fun d => { d with done := some b.BOARD_NAME }
  | _ => w

/-- what a command leaves that breaks off in the middle -/
def broken (c : Cmd) (w : World) : World :=
  match c with
  | .make l => w.build n b l false
  | .mkimage => w.build n b [.idbloader] false
  | .cpPrebuilt => w.build n b [.idbloader, .ubootItb] false
  -- some of the files are gone
  | .rmDir => w.onDir b fun d => { d with blob := fun _ => none, extlinux := none }
  | .cpBlob f => w.onDir b fun d => { d with blob := Function.update d.blob f (some ⟨n, b, false⟩) }
  | .cpExtlinux => w.onDir b fun d => { d with extlinux := some [] }
  | .cpBin x => w.setBin x ⟨n, b, false⟩
  | .writeDone => w.onDir b fun d => { d with done := some "" }
  | _ => w

def exec (c : Cmd) (w : World) : Stat × World :=
  match env c with
  | .ok => if ready b c w then (.ok, effect n b c w) else (.fail, w)
  | x => (x.stat, if x.part then broken n b c w else w)

end Exec

/-! ## The script -/

/-- `build_bootloader` of each library -/
def build_bootloader (b : Board) : Sh Cmd World :=
  match b.BL_CONFIG with
  | .sunxiSyterkit =>
    seqs [.cmd (.sourceConf 1), Sh.and (Sh.and (.cmd .cdTree) (.cmd .mkdirBuild)) (.cmd .cdBuild),
      block [.cmake, .make [.bootloaderSyterkit], .cdWorkspace]]
  | .sunxiUboot =>
    block [.sourceConf 1, .cdAtf, .makeAtf, .cdUp, .patchUboot, .cdTree, .makeConf, .make [.bootloaderUboot], .cdUp]
  | .rockchipUboot =>
    seqs [block [.sourceConf 1, .cdTree, .cpBl31Elf, .cpTee],
      if b.USE_PREBUILT_UBOOT then .cmd .cpPrebuilt else block [.makeConf, .make [.ubootItb], .mkimage],
      .cmd .cdUp]

/-- `if [ -d bootloader-${BOARD} ]; then rm -rf bootloader-${BOARD}; fi` -/
def removeDir (b : Board) : Sh Cmd World := .cond (fun w => (w.dir b).isSome) (.cmd .rmDir) .tt

/-- the directory with its `extlinux.conf` -/
def makeDir : List Cmd := [.mkdirDir, .cpBlob .uInitrd, .cpExtlinux, .sedDtb, .sedBootargs]

/-- `apply_bootloader` of each library -/
def apply_bootloader (b : Board) : Sh Cmd World :=
  match b.BL_CONFIG with
  | .sunxiSyterkit =>
    seqs [block [.cdWorkspace, .sourceConf 2], removeDir b,
      block (makeDir ++ [.cpBin .bootloaderSyterkit, .cpBlob .bl31, .cpBlob .scp, .cpBlob .splash]), .cmd .writeDone]
  | .sunxiUboot =>
    seqs [.cmd (.sourceConf 2), removeDir b, block (.cpBin .bootloaderUboot :: makeDir), .cmd .writeDone]
  | .rockchipUboot =>
    seqs [.cmd (.sourceConf 2), removeDir b, block ([.cpBin .idbloader, .cpBin .ubootItb] ++ makeDir), .cmd .writeDone]

def script (b : Board) : Sh Cmd World :=
  .seq (.errexit true)
    (seqs [block [.cdWorkspace, .sourceConf 0, .sourceLib], build_bootloader b, apply_bootloader b])

/-- the `n`-th call of `mkbootloader.sh` -/
def mkbootloader (n : ℕ) (b : Board) (env : Cmd → Resp) (w : World) : St Cmd World :=
  Shell.run (exec n b env) (script b) w

/-! ## What a call does -/

/-- the board's binaries in the tree are those of the `n`-th call -/
def Built (n : ℕ) (b : Board) (w : World) : Prop := ∀ x ∈ bins b, w.trees.bin x = some ⟨n, b, true⟩

/-- `bootloader-${BOARD}` as the `n`-th call leaves it -/
def complete (n : ℕ) (b : Board) : Dir where
  run := n
  blob := fun f => if f ∈ blobs b then some ⟨n, b, true⟩ else none
  extlinux := some (extlinux b)
  done := some b.BOARD_NAME

/-- everything that board `b` boots with is from the `n`-th call -/
structure Boots (n : ℕ) (b : Board) (bin : BlFile → Option Copy) (dir : Option Dir) : Prop where
  bin : ∀ x ∈ bins b, bin x = some ⟨n, b, true⟩
  dir : dir = some (complete n b)

/-- what the other boards boot with is as before -/
structure Beside (b : Board) (v w : World) : Prop where
  bin : ∀ x, x ∉ bins b → w.bin x = v.bin x
  dir : ∀ b', b' ≠ b → w.dir b' = v.dir b'

/-- **No binary belongs to two boards**, as no two boards use the same library -/
theorem bins_disjoint {b b' : Board} (h : b' ≠ b) {x : BlFile} (hx : x ∈ bins b') : x ∉ bins b := by
  have hc : b'.BL_CONFIG ≠ b.BL_CONFIG := fun he => h (Board.BL_CONFIG_inj he)
  intro hb
  unfold bins at hx hb
  generalize b.BL_CONFIG = c at hc hb
  generalize b'.BL_CONFIG = c' at hc hx
  cases c <;> cases c' <;> first
    | exact hc rfl
    | (revert hx hb; cases x <;> decide)

section Step

variable {n : ℕ} {b : Board} {env : Cmd → Resp}

/-- a command that leaves the other boards' files alone whatever happens to it -/
def Cmd.ownFiles (b : Board) : Cmd → Bool
  | .cpBin x => decide (x ∈ bins b)
  | _ => true

theorem script_ownFiles (b : Board) : ∀ c ∈ (script b).cmds, c.ownFiles b = true := by
  cases b <;> decide

@[simp] theorem onDir_self (w : World) (f : Dir → Dir) : (w.onDir b f).dir b = (w.dir b).map f :=
  Function.update_self _ _ _

/-- make the board's directory `d` -/
def World.setDir (w : World) (b : Board) (d : Dir) : World := { w with dir := Function.update w.dir b (some d) }

@[simp] theorem setDir_dir (w : World) (d : Dir) : (w.setDir b d).dir b = some d := Function.update_self _ _ _

@[simp] theorem onDir_setDir (w : World) (d : Dir) (f : Dir → Dir) : (w.setDir b d).onDir b f = w.setDir b (f d) := by
  simp [World.onDir, World.setDir]

theorem onDir_of_ne {w : World} {f : Dir → Dir} {b' : Board} (h : b' ≠ b) : (w.onDir b f).dir b' = w.dir b' :=
  Function.update_of_ne h _ _

theorem Beside.refl (b : Board) (w : World) : Beside b w w := ⟨fun _ _ => rfl, fun _ _ => rfl⟩

theorem effect_beside {c : Cmd} (hc : c.ownFiles b = true) (w : World) : Beside b w (effect n b c w) := by
  cases c
  case cpBin x =>
    refine ⟨fun y hy => ?_, fun _ _ => rfl⟩
    have hxy : y ≠ x := by
      rintro rfl
      exact hy (by simpa [Cmd.ownFiles] using hc)
    exact Function.update_of_ne hxy _ _
  case rmDir | mkdirDir => exact ⟨fun _ _ => rfl, fun b' h => Function.update_of_ne h _ _⟩
  case cpBlob | cpExtlinux | sedDtb | sedBootargs | writeDone => exact ⟨fun _ _ => rfl, fun b' h => onDir_of_ne h⟩
  all_goals exact ⟨fun _ _ => rfl, fun _ _ => rfl⟩

theorem broken_beside {c : Cmd} (hc : c.ownFiles b = true) (w : World) : Beside b w (broken n b c w) := by
  cases c
  case cpBin x =>
    refine ⟨fun y hy => ?_, fun _ _ => rfl⟩
    have hxy : y ≠ x := by
      rintro rfl
      exact hy (by simpa [Cmd.ownFiles] using hc)
    exact Function.update_of_ne hxy _ _
  case rmDir | cpBlob | cpExtlinux | writeDone => exact ⟨fun _ _ => rfl, fun b' h => onDir_of_ne h⟩
  all_goals exact ⟨fun _ _ => rfl, fun _ _ => rfl⟩

theorem Beside.trans {u v w : World} (h : Beside b u v) (h' : Beside b v w) : Beside b u w :=
  ⟨fun x hx => (h'.bin x hx).trans (h.bin x hx), fun b' hb => (h'.dir b' hb).trans (h.dir b' hb)⟩

/-- the three ways a command can end -/
theorem exec_cases (c : Cmd) (w : World) :
    (exec n b env c w = (.ok, effect n b c w) ∧ ready b c w = true) ∨
      (exec n b env c w).1 ≠ .ok ∧ ((exec n b env c w).2 = w ∨ (exec n b env c w).2 = broken n b c w) := by
  unfold exec
  cases he : env c with
  | ok =>
    by_cases hr : ready b c w = true
    · exact Or.inl ⟨if_pos hr, hr⟩
    · simp [hr]
  | fail p => cases p <;> simp [Resp.stat, Resp.part]
  | kill p => cases p <;> simp [Resp.stat, Resp.part]

theorem exec_ok {c : Cmd} {w : World} (h : (exec n b env c w).1 = .ok) :
    (exec n b env c w).2 = effect n b c w ∧ ready b c w = true := by
  rcases exec_cases c w with ⟨he, hr⟩ | ⟨hs, -⟩
  · rw [he]; exact ⟨rfl, hr⟩
  · exact absurd h hs

/-- **No command touches another board's files** -/
theorem exec_beside {c : Cmd} (hc : c.ownFiles b = true) (w : World) : Beside b w (exec n b env c w).2 := by
  rcases exec_cases c w with ⟨he, -⟩ | ⟨-, he | he⟩ <;> rw [he]
  · exact effect_beside hc w
  · exact Beside.refl b w
  · exact broken_beside hc w

theorem done_onDir {w : World} {f : Dir → Dir} (hf : ∀ d, (f d).done = d.done) : (w.onDir b f).done b = w.done b := by
  unfold World.done
  rw [onDir_self]
  cases w.dir b with
  | none => rfl
  | some d => simp [hf]

theorem effect_unmarked {c : Cmd} (hc : c ≠ .writeDone) {w : World} (h : w.done b = false) :
    (effect n b c w).done b = false := by
  cases c
  case writeDone => exact absurd rfl hc
  case rmDir => simp [effect, World.done]
  case mkdirDir =>
    unfold World.done at h ⊢
    cases hd : w.dir b with
    | none => simp [effect, hd]
    | some d => simpa [effect, hd] using h
  case cpBlob | cpExtlinux | sedDtb | sedBootargs =>
    refine (done_onDir fun d => ?_).trans h
    rfl
  all_goals exact h

theorem broken_unmarked (c : Cmd) {w : World} (h : w.done b = false) : (broken n b c w).done b = false := by
  cases c
  case rmDir | cpBlob | cpExtlinux =>
    refine (done_onDir fun d => ?_).trans h
    rfl
  case writeDone =>
    unfold World.done
    rw [broken, onDir_self]
    cases w.dir b with
    | none => rfl
    | some d => cases b <;> rfl
  all_goals exact h

/-- **Only a completed write of the marker sets it** -/
theorem exec_unmarked {c : Cmd} {w : World} (hc : c ≠ .writeDone ∨ (exec n b env c w).1 ≠ .ok) (h : w.done b = false) :
    (exec n b env c w).2.done b = false := by
  rcases exec_cases c w with ⟨he, -⟩ | ⟨-, he | he⟩
  · rcases hc with hc | hc
    · rw [he]; exact effect_unmarked hc h
    · exact absurd (by rw [he]) hc
  · rw [he]; exact h
  · rw [he]; exact broken_unmarked c h

/-! ### The two functions -/

/-- the marker of the board is not there -/
abbrev Unmarked (b : Board) (w : World) : Prop := w.done b = false

/-- everything but the marker is written -/
structure Filled (n : ℕ) (b : Board) (w : World) : Prop where
  bin : ∀ x ∈ bins b, w.bin x = some ⟨n, b, true⟩
  dir : w.dir b = some { complete n b with done := none }

variable (n b env)

abbrev Does (I : World → Prop) (a : Sh Cmd World) (J K : World → Prop) : Prop := Triple (exec n b env) I a J K

/-- a part of the script without the marker -/
theorem does_unmarked {a : Sh Cmd World} (ha : a.strict = true) (hm : .writeDone ∉ a.cmds) :
    Does n b env (Unmarked b) a (Unmarked b) (Unmarked b) :=
  Triple.inv ha fun _ hc _ h => exec_unmarked (Or.inl fun he => hm (he ▸ hc)) h

theorem does_block {l : List Cmd} {I J : World → Prop} (hm : .writeDone ∉ l)
    (hJ : ∀ w, I w → J (l.foldl (fun w c => effect n b c w) w)) :
    Does n b env (fun w => Unmarked b w ∧ I w) (block l) (fun w => Unmarked b w ∧ J w) (Unmarked b) := by
  have h1 := does_unmarked n b env (a := block l) (strict_block l) (by simpa using hm)
  have h2 : Does n b env I (block l) J fun _ => True := Triple.block (fun c _ w h => (exec_ok h).1) hJ
  exact (h1.both h2).conseq (fun _ => id) (fun _ => id) fun _ h => h.1

theorem does_cmd {c : Cmd} {I J : World → Prop} (hc : c ≠ .writeDone) (hJ : ∀ w, I w → J (effect n b c w)) :
    Does n b env (fun w => Unmarked b w ∧ I w) (.cmd c) (fun w => Unmarked b w ∧ J w) (Unmarked b) := by
  refine Triple.cmd (fun w h hok => ⟨exec_unmarked (Or.inl hc) h.1, ?_⟩) fun w h hok => exec_unmarked (Or.inr hok) h.1
  rw [(exec_ok hok).1]
  exact hJ w h.2

theorem does_build : Does n b env (Unmarked b) (build_bootloader b) (fun w => Unmarked b w ∧ Built n b w) (Unmarked b) := by
  have hblock : ∀ {l : List Cmd}, .writeDone ∉ l → (∀ w, Built n b (l.foldl (fun w c => effect n b c w) w)) →
      Does n b env (Unmarked b) (block l) (fun w => Unmarked b w ∧ Built n b w) (Unmarked b) := by
    intro l hm hJ
    exact (does_block n b env (I := fun _ => True) hm fun w _ => hJ w).pre fun _ h => ⟨h, trivial⟩
  cases b with
  | avaotaA1 =>
    refine Triple.seq (does_unmarked n _ env rfl (by decide)) (Triple.seq (does_unmarked n _ env rfl (by decide)) ?_)
    refine (hblock (by decide) fun w x hx => ?_).last
    exact if_pos hx
  | avaotaC1 =>
    refine hblock (by decide) fun w x hx => ?_
    exact if_pos hx
  | dshanpiA1 =>
    refine Triple.seq (does_unmarked n _ env (strict_block _) (by decide)) ?_
    have hcp := hblock (l := [.cpPrebuilt, .cdUp]) (by decide) fun w x hx => if_pos hx
    exact hcp

theorem does_removeDir : Does n b env (fun w => Unmarked b w ∧ Built n b w) (removeDir b)
    (fun w => Unmarked b w ∧ Built n b w ∧ w.dir b = none) (Unmarked b) := by
  refine Triple.cond (Triple.cmd (fun w h hok => ?_) fun w h hok => exec_unmarked (Or.inr hok) h.1.1) ?_
  · refine ⟨exec_unmarked (Or.inl (by simp)) h.1.1, ?_⟩
    rw [(exec_ok hok).1]
    exact ⟨h.1.2, Function.update_self _ _ _⟩
  · refine (Triple.tt (K := Unmarked b)).pre fun w h => ⟨h.1.1, h.1.2, ?_⟩
    simpa using h.2

theorem does_writeDone : Does n b env (fun w => Unmarked b w ∧ Filled n b w) (.cmd .writeDone)
    (fun w => Boots n b w.bin (w.dir b)) (Unmarked b) := by
  refine Triple.cmd (fun w h hok => ?_) fun w h hok => exec_unmarked (Or.inr hok) h.1
  rw [(exec_ok hok).1]
  refine ⟨h.2.bin, ?_⟩
  rw [effect, onDir_self, h.2.dir]
  rfl

/-- past `rm -rf` the rest of `apply_bootloader` fills the directory, whatever the order of its copies -/
theorem does_fill {l : List Cmd} (hm : .writeDone ∉ l)
    (hJ : ∀ w, Built n b w → w.dir b = none → Filled n b (l.foldl (fun w c => effect n b c w) w)) :
    Does n b env (fun w => Unmarked b w ∧ Built n b w) (.seq (removeDir b) (seqs [block l, .cmd .writeDone]))
      (fun w => Boots n b w.bin (w.dir b)) (Unmarked b) := by
  have h := does_block n b env (I := fun w => Built n b w ∧ w.dir b = none) hm fun w hw => hJ w hw.1 hw.2
  exact (does_removeDir n b env).seq (h.seq (does_writeDone n b env).last)

/-- the directory before the files of one library are added -/
def plain (n : ℕ) (b : Board) : Dir :=
  ⟨n, Function.update (fun _ => none) .uInitrd (some ⟨n, b, true⟩), some (extlinux b), none⟩

theorem effect_makeDir {w : World} (h : w.dir b = none) :
    makeDir.foldl (fun w c => effect n b c w) w = w.setDir b (plain n b) := by
  have hmk : effect n b .mkdirDir w = w.setDir b ⟨n, fun _ => none, none, none⟩ := by rw [effect, h]; rfl
  simp only [makeDir, List.foldl_cons, List.foldl_nil, hmk]
  simp only [effect, onDir_setDir, Option.map_some, sed_template]
  rfl

/-- a copy into the workspace does not see the directory -/
theorem effect_cpBin_setDir (x : BlFile) (w : World) (d : Dir) :
    effect n b (.cpBin x) (w.setDir b d) = (effect n b (.cpBin x) w).setDir b d := rfl

theorem filled_setDir {w : World} {d : Dir} (hb : ∀ x ∈ bins b, w.bin x = some ⟨n, b, true⟩)
    (hd : d = { complete n b with done := none }) : Filled n b (w.setDir b d) :=
  ⟨hb, by rw [setDir_dir, hd]⟩

theorem effect_cpBin_bin (x y : BlFile) (w : World) :
    (effect n b (.cpBin x) w).bin y = if y = x then w.trees.bin x else w.bin y :=
  Function.update_apply _ _ _ _

theorem plain_one (h : blobs b = [.uInitrd]) : plain n b = { complete n b with done := none } := by
  simp only [plain, complete, h, Dir.mk.injEq, and_true, true_and]
  funext f
  cases f <;> rfl

theorem does_apply : Does n b env (fun w => Unmarked b w ∧ Built n b w) (apply_bootloader b)
    (fun w => Boots n b w.bin (w.dir b)) (Unmarked b) := by
  -- what stands before `rm -rf` leaves the tree alone
  have hconf := does_cmd n b env (c := .sourceConf 2) (I := Built n b) (J := Built n b) (by decide) fun w h => h
  have hcd := does_cmd n b env (c := .cdWorkspace) (I := Built n b) (J := Built n b) (by decide) fun w h => h
  cases b with
  | avaotaA1 =>
    refine (hcd.seq hconf.last).seq (does_fill n _ env (by decide) fun w hb hd => ?_)
    rw [List.foldl_append, effect_makeDir n _ hd]
    simp only [List.foldl_cons, List.foldl_nil, effect_cpBin_setDir]
    simp only [effect, onDir_setDir]
    refine filled_setDir n _ (fun x hx => ?_) ?_
    · have hx' : x = .bootloaderSyterkit := by simpa [bins, write_bootloader, Board.BL_CONFIG] using hx
      change (effect n .avaotaA1 (.cpBin .bootloaderSyterkit) w).bin x = _
      rw [effect_cpBin_bin, if_pos hx', ← hx', hb x hx]
    · simp only [plain, complete, Dir.mk.injEq, and_true, true_and]
      funext f
      cases f <;> rfl
  | avaotaC1 =>
    refine hconf.seq (does_fill n _ env (by decide) fun w hb hd => ?_)
    rw [List.foldl_cons, effect_makeDir n _ (by exact hd)]
    refine filled_setDir n _ (fun x hx => ?_) (plain_one n _ rfl)
    have hx' : x = .bootloaderUboot := by simpa [bins, write_bootloader, Board.BL_CONFIG] using hx
    rw [effect_cpBin_bin, if_pos hx', ← hx', hb x hx]
  | dshanpiA1 =>
    refine hconf.seq (does_fill n _ env (by decide) fun w hb hd => ?_)
    rw [List.foldl_append, effect_makeDir n _ (by exact hd)]
    refine filled_setDir n _ (fun x hx => ?_) (plain_one n _ rfl)
    rw [List.foldl_cons, List.foldl_cons, List.foldl_nil, effect_cpBin_bin]
    split
    · rename_i hx'
      rw [← hx']
      exact hb x hx
    · have hx' : x = .idbloader := by
        have hor : x = .idbloader ∨ x = .ubootItb := by simpa [bins, write_bootloader, Board.BL_CONFIG] using hx
        exact hor.resolve_right ‹_›
      rw [effect_cpBin_bin, if_pos hx', ← hx', hb x hx]

theorem endsOk_apply : EndsOk (exec n b env) (apply_bootloader b) := by
  have hlast : EndsOk (exec n b env) (seqs [.cmd .writeDone]) := (EndsOk.cmd Cmd.writeDone).last
  cases b with
  | avaotaA1 | avaotaC1 | dshanpiA1 => exact .seq rfl (.seq rfl (.seq rfl hlast))

/-- its caller sees status 0 iff it gets to its end -/
theorem mkbootloader_run {w : World} : (mkbootloader n b env w).stat = .ok ↔ (mkbootloader n b env w).out = .run := by
  constructor
  · have hf : (script b).failing = true := by cases b <;> rfl
    exact run_of_stat hf (by simp [start])
  · intro hr
    have hb : (build_bootloader b).strict = true := by cases b <;> rfl
    have hok : EndsOk (exec n b env) (seqs [block [.cdWorkspace, .sourceConf 0, .sourceLib], build_bootloader b,
        apply_bootloader b]) := .seq (strict_block _) (.seq hb (endsOk_apply n b env).last)
    exact stat_ok_iff.2 (Or.inr ⟨hr, hok { start Cmd w with e := true } rfl rfl hr⟩)

/-- **One call of `mkbootloader.sh`**: where it gets to its end everything the board boots with is its own; where it is
stopped there is no marker. What the other boards boot with is as before. -/
theorem mkbootloader_triple (v : World) (hv : v.done b = false) :
    ((mkbootloader n b env v).out = .run → Boots n b (mkbootloader n b env v).w.bin ((mkbootloader n b env v).w.dir b)) ∧
      ((mkbootloader n b env v).out ≠ .run → (mkbootloader n b env v).w.done b = false) ∧
      Beside b v (mkbootloader n b env v).w := by
  have hpre := does_unmarked n b env (a := block [.cdWorkspace, .sourceConf 0, .sourceLib]) (by simp) (by simp)
  have hall := hpre.seq ((does_build n b env).seq (does_apply n b env).last)
  obtain ⟨h1, h2⟩ := hall.run hv
  refine ⟨h1, h2, ?_⟩
  refine run_inv (exec n b env) (Beside b v) (script b) (fun c hc w hw => ?_) v (Beside.refl b v)
  exact hw.trans (exec_beside (script_ownFiles b c hc) w)

end Step

end Bootloader

end AvaotaOS
