/-
The success marker of `scripts/mklinux.sh`: `.done` in `${BOARD}-kernel-pkgs`, and the exit status.

`fatal` says which commands end the script when they fail. `install_headers` ends with `set +e`, so no command after it
is fatal: not the ones of `install_libc-dev`, `gen_debian_file`, `gen_package_doc`, and not the four `dpkg-deb -b`.
`path` is the list of commands of a run that nothing stops.

Results:
- `covers_build`: everything before the last line gets through iff every command of `path` succeeds or fails without
  being fatal, and then it has executed `path` and nothing else.
- `done_sound_iff`: the marker is sound in exactly the runs that are stopped before it, over a directory without an old one
  that build_all.sh takes, and in those where nothing on the path fails.
- `done_without_image`: a run whose `dpkg-deb` for the image package fails writes `.done` all the same.
-/
import Mathlib.Tactic
import AvaotaOS.Kernel.MkLinux

namespace AvaotaOS.MkLinux

open Shell

/-! ## What a run executes -/

/-- a failure of the command ends the script: errexit is set, and the command is not the argument of another one -/
def fatal : Cmd → Bool
  | .sourceConf | .catVersion | .sourceKernelDeb => false
  | .lsPatches | .findArchDirs | .catFileList => false
  | .cdLinux .libcDev | .mkdirLibcDev | .makeHeadersInstall | .lsKernelVer | .gen _ _ => false
  | .mkdirDoc _ | .genCopyright _ | .cpChangelog _ | .gzipChangelog _ => false
  | .rmOut | .mkdirOut | .dpkgDeb _ => false
  | _ => true

def patchPath (p : Params) (env : Cmd → Resp) : List Cmd :=
  if p.sel.conf.LINUX_PATHDIR ≠ "none" then
    (match p.patches with
      | some n => .lsPatches :: if env .lsPatches = .ok then patchLoop n else []
      | none => []) ++ patchFiles p
  else []

def compilePath (p : Params) (w : World) : List Cmd :=
  [.cdLinux .compile] ++ (configure w.userDefconfig.isSome ++ (menuconfig p ++ ([.makeAll] ++ freshDebData w.debData)))

def headersPath (p : Params) (env : Cmd → Resp) : List Cmd :=
  findBefore p ++ ((if p.archDir then [.findArchDirs] else []) ++ ((if p.archDir then findArch else []) ++
    (findAfter p ++ (headerDirs ++
      ((.catFileList :: if env .catFileList = .ok then headerLoop p.headerItems else []) ++ [.rmFileList])))))

def packPath (p : Params) (w : World) : List Cmd := outDir (w.out p.sel.board).isNone ++ pkgs.map .dpkgDeb

/-- the commands before the packages are written, in order, of a run that nothing stops -/
def stagesPath (p : Params) (env : Cmd → Resp) (w : World) : List Cmd :=
  sources ++ (patchPath p env ++ (compilePath p w ++ (install_dtb ++ (install_image_modules ++ (headersPath p env ++
    tail)))))

/-- the commands before the last line -/
def path (p : Params) (env : Cmd → Resp) (w : World) : List Cmd := stagesPath p env w ++ packPath p w

/-! ## The invariants along the way -/

section Stages

variable (p : Params) (env : Cmd → Resp) (w : World)

/-- the configuration that `compile_linux` starts from -/
def baseConfig : Config := w.userDefconfig.getD (.defconfig p.sel)

/-- and the one it compiles -/
def compiledConfig : Config := if p.menuconfig then .edited p.sel (baseConfig p w) else baseConfig p w

/-- what the script reads of the workspace is as it was at the start: up to the configuration -/
structure Kept (w' : World) : Prop where
  linux : w'.linux = true
  user : w'.userDefconfig = w.userDefconfig
  debData : w'.debData = w.debData
  out : w'.out = w.out

/-- the source tree is configured: up to the end of `menuconfig` -/
structure Configured (c : Config) (w' : World) : Prop where
  debData : w'.debData = w.debData
  out : w'.out = w.out
  dotConfig : w'.dotConfig = some c

/-- the kernel is built: up to the end of `compile_linux` -/
structure KeptData (w' : World) : Prop where
  debData : w'.debData = w.debData
  out : w'.out = w.out
  built : w'.built = some (compiledConfig p w)

/-- the same up to `pack_kernel_packages` -/
structure KeptOut (w' : World) : Prop where
  out : w'.out = w.out
  built : w'.built = some (compiledConfig p w)

/-- the status of a command of the body -/
abbrev status (env : Cmd → Resp) (c : Cmd) : Stat := (env c).stat

abbrev Runs (I J : World → Prop) (e e' : Bool) (a : Sh Cmd World) (l : List Cmd) : Prop :=
  Covers (exec p env) (status env) fatal I J e e' a l

/-- a command that changes neither the configuration, `deb-data` nor the packages -/
def quiet : Cmd → Bool
  | .saveUserDefconfig | .rmDebData | .mkdirDebData => false
  | c => !c.packs

theorem quiet_kept {c : Cmd} (hc : quiet c = true) {w' : World} (h : Kept w w') : Kept w (exec p env c w').2 := by
  have h1 : c ≠ .saveUserDefconfig := fun h => by subst h; simp [quiet] at hc
  have h2 : c ≠ .rmDebData := fun h => by subst h; simp [quiet] at hc
  have h3 : c ≠ .mkdirDebData := fun h => by subst h; simp [quiet] at hc
  have h4 : c.packs = false := by cases c <;> first | rfl | simp [quiet, Cmd.packs] at hc
  refine ⟨?_, ?_, ?_, ?_⟩
  · rw [exec_linux]; exact h.linux
  · rw [exec_userDefconfig p env w' h1]; exact h.user
  · rw [exec_debData p env w' h2 h3]; exact h.debData
  · rw [exec_out p env w' h4]; exact h.out

/-- a block under one errexit flag that keeps an invariant -/
theorem runs_block {I J : World → Prop} {e : Bool} {l : List Cmd} (hd : Cmd.writeDone ∉ l) (hF : ∀ c ∈ l, fatal c = e)
    (hI : (∀ c ∈ l, Passed (status env) fatal c) → ∀ w', I w' → J (effect (exec p env) l w')) :
    Runs p env I J e e (block l) l :=
  Covers.block (fun _ hc w' => exec_stat p env w' fun h => hd (h ▸ hc)) hF hI

theorem runs_kept {e : Bool} {l : List Cmd} (hF : ∀ c ∈ l, fatal c = e) (hl : ∀ c ∈ l, quiet c = true) :
    Runs p env (Kept w) (Kept w) e e (block l) l := by
  refine runs_block p env (fun h => ?_) hF fun _ _ h => effect_inv (fun c hc w' hw => quiet_kept p env w (hl c hc) hw) h
  exact absurd (hl _ h) (by simp [quiet, Cmd.packs])

/-- a command after `compile_linux` and before the packages -/
def Cmd.staged : Cmd → Bool
  | .makeAll => false
  | c => !c.packs

theorem staged_packs {c : Cmd} (hc : c.staged = true) : c.packs = false ∧ c ≠ .makeAll := by
  cases c <;> simp_all [Cmd.staged, Cmd.packs]

theorem staged_keptOut {c : Cmd} (hc : c.staged = true) {w' : World} (h : KeptOut p w w') : KeptOut p w (exec p env c w').2 := by
  obtain ⟨h1, h2⟩ := staged_packs hc
  exact ⟨(exec_out p env w' h1).trans h.out, (exec_built p env w' h2).trans h.built⟩

theorem runs_keptOut {e : Bool} {l : List Cmd} (hF : ∀ c ∈ l, fatal c = e) (hl : ∀ c ∈ l, c.staged = true) :
    Runs p env (KeptOut p w) (KeptOut p w) e e (block l) l := by
  refine runs_block p env (fun h => ?_) hF fun _ _ h => effect_inv (fun c hc w' hw => staged_keptOut p env w (hl c hc) hw) h
  exact absurd (hl _ h) (by simp [Cmd.staged, Cmd.packs])

/-! ## The stages -/

/-- `if [ ! -d ${workspace}/linux ]; then exit 2; fi` is passed -/
theorem runs_needLinux {e : Bool} : Runs p env (Kept w) (Kept w) e e needLinux [] :=
  Covers.cond true (fun _ h => h.linux) (by simpa using Covers.tt)

theorem mem_patchLoop {n : ℕ} {c : Cmd} (h : c ∈ patchLoop n) : ∃ i, c ∈ patchRound i := by
  simp only [patchLoop, List.mem_flatMap] at h
  obtain ⟨i, -, h⟩ := h
  exact ⟨i, h⟩

theorem runs_patchLoop (n : ℕ) : Runs p env (Kept w) (Kept w) true true (block (patchLoop n)) (patchLoop n) := by
  refine runs_kept p env w (fun c hc => ?_) (fun c hc => ?_) <;> obtain ⟨i, hi⟩ := mem_patchLoop hc <;>
    simp only [patchRound, List.mem_cons, List.not_mem_nil, or_false] at hi <;>
    rcases hi with rfl | rfl | rfl | rfl | rfl <;> rfl

/-- `for pth in $(ls ..)` -/
theorem runs_patches :
    Runs p env (Kept w) (Kept w) true true
      (match p.patches with
        | some n => (Sh.cmd .lsPatches).when (block (patchLoop n))
        | none => .tt)
      (match p.patches with
        | some n => .lsPatches :: if env .lsPatches = .ok then patchLoop n else []
        | none => []) := by
  cases p.patches with
  | none => exact Covers.tt
  | some n =>
    have h := Covers.when (c := .lsPatches) (fun w' => exec_stat p env w' (by simp)) (F := fatal) rfl
      (fun w' => quiet_kept p env w rfl) (runs_patchLoop p env w n)
    simpa only [Resp.stat_ok] using h

theorem runs_patchFiles : Runs p env (Kept w) (Kept w) true true (block (patchFiles p)) (patchFiles p) := by
  refine runs_kept p env w (fun c hc => ?_) (fun c hc => ?_) <;> (simp only [patchFiles] at hc; split at hc) <;>
    simp at hc <;> rcases hc with rfl | rfl <;> rfl

theorem runs_patchStage : Runs p env (Kept w) (Kept w) true true (patchStage p) (patchPath p env) := by
  unfold patchStage patchPath
  split
  · exact (runs_needLinux p env w).seq_nil ((runs_patches p env w).seq (runs_patchFiles p env w).last)
  · exact Covers.nop

/-- a fatal command of a path is one that succeeds -/
theorem ok_of_passed {c : Cmd} (hc : fatal c = true) (h : Passed (status env) fatal c) : env c = .ok := by
  rcases h with h | ⟨-, h⟩
  · exact Resp.stat_ok.1 h
  · rw [hc] at h
    simp at h

theorem runs_configure :
    Runs p env (Kept w) (Configured w (baseConfig p w)) true true
      (.cond (·.userDefconfig.isSome) (block (configure true)) (block (configure false)))
      (configure w.userDefconfig.isSome) := by
  refine Covers.cond w.userDefconfig.isSome (fun _ h => by rw [h.user]) ?_
  cases hu : w.userDefconfig with
  | some c =>
    refine runs_block p env (by decide) (by decide) fun hp w' hw => ?_
    have h1 : env .cpUserDefconfig = .ok := ok_of_passed env rfl (hp _ (by simp [configure]))
    refine ⟨?_, ?_, ?_⟩ <;> simp [configure, exec, h1, hw.debData, hw.out, hw.user, hu, baseConfig]
  | none =>
    refine runs_block p env (by decide) (by decide) fun hp w' hw => ?_
    have h1 : env .makeDefconfig = .ok := ok_of_passed env rfl (hp _ (by simp [configure]))
    refine ⟨?_, ?_, ?_⟩ <;> simp [configure, exec, h1, hw.debData, hw.out, hu, baseConfig]

/-- `menuconfig` edits the configuration, and saves it over the user's -/
theorem runs_menuconfig :
    Runs p env (Configured w (baseConfig p w)) (Configured w (compiledConfig p w)) true true (block (menuconfig p))
      (menuconfig p) := by
  cases hm : p.menuconfig with
  | true =>
    have hl : menuconfig p = [.makeMenuconfig, .saveUserDefconfig] := by simp [menuconfig, hm]
    rw [hl]
    refine runs_block p env (by decide) (by decide) fun hp w' hw => ?_
    have h1 : env .makeMenuconfig = .ok := ok_of_passed env rfl (hp _ (by simp))
    have h2 : env .saveUserDefconfig = .ok := ok_of_passed env rfl (hp _ (by simp))
    refine ⟨?_, ?_, ?_⟩ <;> simp [exec, h1, h2, hw.debData, hw.out, hw.dotConfig, compiledConfig, hm]
  | false =>
    have hl : menuconfig p = [] := by simp [menuconfig, hm]
    have hc : compiledConfig p w = baseConfig p w := by simp [compiledConfig, hm]
    rw [hl, hc]
    exact Covers.nop

theorem runs_makeAll :
    Runs p env (Configured w (compiledConfig p w)) (KeptData p w) true true (block [.makeAll]) [.makeAll] := by
  refine runs_block p env (by decide) (by decide) fun hp w' hw => ?_
  have h1 : env .makeAll = .ok := ok_of_passed env rfl (hp _ (by simp))
  refine ⟨?_, ?_, ?_⟩ <;> simp [exec, h1, hw.debData, hw.out, hw.dotConfig]

theorem runs_freshDebData :
    Runs p env (KeptData p w) (KeptOut p w) true true
      (.cond (·.debData) (block (freshDebData true)) (block (freshDebData false))) (freshDebData w.debData) := by
  refine Covers.cond w.debData (fun _ h => h.debData) ?_
  have hp : ∀ b, ∀ c ∈ freshDebData b, c.staged = true := by decide
  have hb : ∀ b, Runs p env (KeptData p w) (KeptOut p w) true true (block (freshDebData b)) (freshDebData b) := fun b =>
    (runs_keptOut p env w (by cases b <;> decide) (hp b)).pre fun w' h => ⟨h.out, h.built⟩
  cases w.debData
  · exact hb false
  · exact hb true

theorem runs_compile : Runs p env (Kept w) (KeptOut p w) true true (compile_linux p) (compilePath p w) :=
  (runs_needLinux p env w).seq_nil <|
    (runs_kept p env w (by decide) (by decide)).seq <|
      (runs_configure p env w).seq <| (runs_menuconfig p env w).seq <| (runs_makeAll p env w).seq <|
        (runs_freshDebData p env w).last

theorem mem_headerLoop {items : List Bool} {c : Cmd} (h : c ∈ headerLoop items) :
    ∃ i, c = .dirname i ∨ c = .mkdirTarget i ∨ c = .cpItem i := by
  simp only [headerLoop, List.mem_flatten, List.mem_mapIdx] at h
  obtain ⟨l, ⟨i, hi, rfl⟩, hc⟩ := h
  refine ⟨i, ?_⟩
  simp only [headerRound] at hc
  split at hc <;> simp at hc <;> tauto

theorem runs_headerLoop :
    Runs p env (KeptOut p w) (KeptOut p w) true true ((Sh.cmd .catFileList).when (block (headerLoop p.headerItems)))
      (.catFileList :: if env .catFileList = .ok then headerLoop p.headerItems else []) := by
  have hb : Runs p env (KeptOut p w) (KeptOut p w) true true (block (headerLoop p.headerItems)) (headerLoop p.headerItems) := by
    refine runs_keptOut p env w (fun c hc => ?_) (fun c hc => ?_) <;>
      obtain ⟨i, rfl | rfl | rfl⟩ := mem_headerLoop hc <;> rfl
  have h := Covers.when (c := .catFileList) (fun w' => exec_stat p env w' (by simp)) (F := fatal) rfl
    (I := KeptOut p w) (fun w' hw => staged_keptOut p env w rfl hw) hb
  simpa only [Resp.stat_ok] using h

/-- `find $(find ..)`: the failure of the inner one is not noticed -/
theorem runs_findArchDirs :
    Runs p env (KeptOut p w) (KeptOut p w) true true (if p.archDir then substituted .findArchDirs else .nop)
      (if p.archDir then [.findArchDirs] else []) := by
  split
  · have h : Runs p env (KeptOut p w) (KeptOut p w) true true ((Sh.cmd .findArchDirs).when .tt) _ :=
      Covers.when (fun w' => exec_stat p env w' (by simp)) rfl (fun w' hw => staged_keptOut p env w rfl hw) Covers.tt
    simpa [substituted] using h
  · exact Covers.nop

/-- the conditional parts of the file list -/
theorem runs_finds {l : List Cmd} (hl : l = findBefore p ∨ l = (if p.archDir then findArch else []) ∨ l = findAfter p) :
    Runs p env (KeptOut p w) (KeptOut p w) true true (block l) l := by
  have h : ∀ c ∈ l, fatal c = true ∧ c.staged = true := by
    rcases hl with rfl | rfl | rfl
    · unfold findBefore; cases p.archDir <;> simp [fatal, Cmd.staged, Cmd.packs]
    · cases p.archDir <;> simp [findArch, fatal, Cmd.staged, Cmd.packs]
    · unfold findAfter; cases p.gccPlugins <;> simp [fatal, Cmd.staged, Cmd.packs]
  exact runs_keptOut p env w (fun c hc => (h c hc).1) fun c hc => (h c hc).2

/-- `install_headers` switches errexit off behind it -/
theorem runs_headers : Runs p env (KeptOut p w) (KeptOut p w) true false (install_headers p) (headersPath p env) := by
  have hend : Runs p env (KeptOut p w) (KeptOut p w) true false (seqs [block [.rmFileList], .errexit false])
      ([.rmFileList] ++ []) :=
    (runs_keptOut p env w (by decide) (by decide)).seq (Covers.errexit false).last
  have hloop := (runs_headerLoop p env w).seq hend
  exact (runs_finds p env w (.inl rfl)).seq <| (runs_findArchDirs p env w).seq <|
    (runs_finds p env w (.inr (.inl rfl))).seq <| (runs_finds p env w (.inr (.inr rfl))).seq <|
    (runs_keptOut p env w (by decide) (by decide)).seq <| (Covers.errexit true).seq_nil hloop

theorem runs_tail : Runs p env (KeptOut p w) (KeptOut p w) false false (block tail) tail :=
  runs_keptOut p env w (by decide) (by decide)

/-! ## The packages -/

theorem part_head (q : Pkg) (l : List Char) : (q.part ++ l).head? = match q with
    | .dtb => some 'd'
    | .image => some 'i'
    | .headers => some 'h'
    | .libcDev => some 'l' := by
  cases q <;> rfl

/-- the four file names differ -/
theorem debName_inj {q q' : Pkg} {s : Selection} {v : List Char} (h : debName q s v = debName q' s v) : q = q' := by
  unfold debName at h
  simp only [List.append_assoc, List.append_right_inj] at h
  have h1 := congrArg List.head? h
  rw [part_head, part_head] at h1
  revert h1
  cases q <;> cases q' <;> decide

/-- package `q` of the run is in the package directory, complete -/
def HasDeb (q : Pkg) (w : World) : Prop :=
  ∃ k, w.out p.sel.board = some k ∧ ⟨debName q p.sel p.AVA_VERSION, p.id, true⟩ ∈ k.debs

/-- the four packages of the run are -/
def Packed (w : World) : Prop := ∀ q, HasDeb p q w

/-- what `dpkg-deb` does to the package directory, whatever it answers -/
theorem dpkgDeb_out (q : Pkg) (w : World) :
    (exec p env (.dpkgDeb q) w).2.out p.sel.board = w.out p.sel.board ∨
      ∃ b, (exec p env (.dpkgDeb q) w).2.out p.sel.board =
        (w.out p.sel.board).map (·.add ⟨debName q p.sel p.AVA_VERSION, p.id, b⟩) := by
  cases h : env (.dpkgDeb q) with
  | ok => exact Or.inr ⟨true, by simp [exec, h, World.onOut]⟩
  | fail b | kill b =>
    cases b
    · exact Or.inl (by simp [exec, h, Resp.part])
    · exact Or.inr ⟨false, by simp [exec, h, Resp.part, World.onOut]⟩

/-- what the last line does to it -/
theorem writeDone_out (w : World) :
    (exec p env .writeDone w).2.out p.sel.board = w.out p.sel.board ∨
      ∃ t, (exec p env .writeDone w).2.out p.sel.board = (w.out p.sel.board).map fun k => { k with done := some t } := by
  cases h : env .writeDone with
  | ok =>
    cases ho : w.out p.sel.board with
    | none => exact Or.inl (by simp [exec, h, ho])
    | some k => exact Or.inr ⟨p.sel.conf.LINUX_CONFIG, by simp [exec, h, ho, World.onOut]⟩
  | fail b | kill b =>
    cases b
    · exact Or.inl (by simp [exec, h, Resp.part])
    · exact Or.inr ⟨"", by simp [exec, h, Resp.part, World.onOut]⟩

theorem dpkgDeb_isSome (q : Pkg) (w : World) :
    ((exec p env (.dpkgDeb q) w).2.out p.sel.board).isSome = (w.out p.sel.board).isSome := by
  rcases dpkgDeb_out p env q w with h | ⟨b, h⟩ <;> simp [h]

theorem dpkgDeb_self {q : Pkg} (h : env (.dpkgDeb q) = .ok) {w : World} (hw : (w.out p.sel.board).isSome) :
    HasDeb p q (exec p env (.dpkgDeb q) w).2 := by
  obtain ⟨k, hk⟩ := Option.isSome_iff_exists.1 hw
  exact ⟨k.add ⟨debName q p.sel p.AVA_VERSION, p.id, true⟩, by simp [exec, h, World.onOut, hk], by simp [KernelPkgs.add]⟩

/-- writing one package keeps the others -/
theorem dpkgDeb_other {q q' : Pkg} (hq : q ≠ q') {w : World} (hw : HasDeb p q w) :
    HasDeb p q (exec p env (.dpkgDeb q') w).2 := by
  obtain ⟨k, hk, hm⟩ := hw
  rcases dpkgDeb_out p env q' w with h | ⟨b, h⟩
  · exact ⟨k, h.trans hk, hm⟩
  · refine ⟨k.add ⟨debName q' p.sel p.AVA_VERSION, p.id, b⟩, by rw [h, hk]; rfl, ?_⟩
    have hne : debName q p.sel p.AVA_VERSION ≠ debName q' p.sel p.AVA_VERSION := fun h => hq (debName_inj h)
    simp [KernelPkgs.add, hm, hne]

/-- the package directory is there -/
structure OutDir (w' : World) : Prop where
  dir : (w'.out p.sel.board).isSome ↔ (w.out p.sel.board).isSome ∨ env .mkdirOut = .ok
  built : w'.built = some (compiledConfig p w)

/-- the package directory is there after `pack_kernel_packages`, and the packages that `dpkg-deb` wrote are in it -/
structure AfterPack (w' : World) : Prop extends OutDir p env w w' where
  debs : (w'.out p.sel.board).isSome → ∀ q, env (.dpkgDeb q) = .ok → HasDeb p q w'

/-- a run of `dpkg-deb` calls on an existing directory -/
theorem dpkgDebs {q : Pkg} (ho : env (.dpkgDeb q) = .ok) {l : List Pkg} {w : World} (hw : (w.out p.sel.board).isSome)
    (hq : q ∈ l ∨ HasDeb p q w) : HasDeb p q (effect (exec p env) (l.map .dpkgDeb) w) := by
  induction l generalizing w with
  | nil => simpa [effect] using hq
  | cons r l ih =>
    refine ih (by rw [dpkgDeb_isSome]; exact hw) ?_
    by_cases h : q = r
    · subst h
      exact Or.inr (dpkgDeb_self p env ho hw)
    · rcases hq with hq | hq
      · exact Or.inl ((List.mem_cons.1 hq).resolve_left h)
      · exact Or.inr (dpkgDeb_other p env h hq)

theorem dpkgDebs_isSome (l : List Pkg) (w : World) :
    ((effect (exec p env) (l.map .dpkgDeb) w).out p.sel.board).isSome = (w.out p.sel.board).isSome := by
  induction l generalizing w with
  | nil => rfl
  | cons q l ih => exact (ih _).trans (dpkgDeb_isSome p env q w)

theorem outDir_isSome {w' : World} (h : KeptOut p w w') :
    OutDir p env w (effect (exec p env) (outDir (w.out p.sel.board).isNone) w') := by
  refine ⟨?_, ?_⟩
  · have hw : w'.out = w.out := h.out
    cases ho : w.out p.sel.board <;> cases h1 : env .mkdirOut <;> cases h2 : env .rmOut <;>
      simp [outDir, effect, exec, h1, h2, hw, ho]
  · have hb : ∀ c ∈ outDir (w.out p.sel.board).isNone, c ≠ .makeAll := by
      unfold outDir
      split <;> decide
    exact effect_inv (I := fun w' : World => w'.built = some (compiledConfig p w))
      (fun c hc w' hw => (exec_built p env w' (hb c hc)).trans hw) h.built

theorem runs_pack :
    Runs p env (KeptOut p w) (AfterPack p env w) false false (pack_kernel_packages p) (packPath p w) := by
  have hdir : Runs p env (KeptOut p w) (OutDir p env w)
      false false (.cond (fun w => (w.out p.sel.board).isNone) (block (outDir true)) (block (outDir false)))
      (outDir (w.out p.sel.board).isNone) := by
    refine Covers.cond (w.out p.sel.board).isNone (fun w' h => by rw [h.out]) ?_
    have h := fun w' (hw : KeptOut p w w') => outDir_isSome p env w hw
    cases hn : (w.out p.sel.board).isNone <;> rw [hn] at h
    · exact runs_block p env (by decide) (by decide) fun _ => h
    · exact runs_block p env (by decide) (by decide) fun _ => h
  refine hdir.seq (Covers.last (runs_block p env (by decide) (by decide) fun _ w' h => ⟨⟨?_, ?_⟩, fun hs q hq => ?_⟩))
  · rw [dpkgDebs_isSome]; exact h.dir
  · refine effect_inv (I := fun w' : World => w'.built = some (compiledConfig p w)) (fun c hc w' hw => ?_) h.built
    obtain ⟨q, -, rfl⟩ := List.mem_map.1 hc
    exact (exec_built p env w' (by simp)).trans hw
  · rw [dpkgDebs_isSome] at hs
    exact dpkgDebs p env hq hs (Or.inl (by cases q <;> simp [pkgs]))

/-- **Everything before the packages gets through iff each command of `stagesPath` passes** -/
theorem covers_stages (hw : w.linux = true) :
    Runs p env (· = w) (KeptOut p w) false false (stages p) (stagesPath p env w) := by
  have h := Covers.seq (runs_kept p env w (l := sources) (e := false) (by decide) (by decide)) <|
    (Covers.errexit true).seq_nil <| (runs_patchStage p env w).seq <| (runs_compile p env w).seq <|
    (runs_keptOut p env w (l := install_dtb) (by decide) (by decide)).seq <|
    (runs_keptOut p env w (l := install_image_modules) (by decide) (by decide)).seq <|
    (runs_headers p env w).seq (runs_tail p env w).last
  refine h.pre fun w' hw' => ?_
  subst hw'
  exact ⟨hw, rfl, rfl, rfl⟩

/-- **Everything before the last line gets through iff each command of `path` passes** -/
theorem covers_build (hw : w.linux = true) :
    Runs p env (· = w) (AfterPack p env w) false false (build p) (path p env w) :=
  (covers_stages p env w hw).seq (runs_pack p env w)

end Stages

/-! ## The marker -/

variable (p : Params) (env : Cmd → Resp) (w : World)

/-- what a run that says it succeeded has done -/
def Built : Prop := (∀ x ∈ (mklinux p env w).log, x.2 = true) ∧ Packed p (mklinux p env w).w

/-- **The success marker is sound**: a run that writes `.done` and one that exits with status 0 has built everything, and when
the guard of `build_all.sh` takes the directory the run leaves behind, the run has not failed and has built everything -/
structure MarkerSound : Prop where
  done : (Cmd.writeDone, true) ∈ (mklinux p env w).log → Built p env w
  status : (mklinux p env w).stat = .ok → Built p env w
  guard : ∀ s, s.board = p.sel.board → cached s (mklinux p env w).w = true → (mklinux p env w).stat = .ok ∧ Built p env w

/-- the run does not get to write `.done` -/
def Stopped : Prop :=
  w.linux = false ∨ (∃ c ∈ path p env w, (env c).stat = .killed ∨ fatal c = true ∧ env c ≠ .ok) ∨
    env .writeDone ≠ .ok ∨ w.out p.sel.board = none ∧ env .mkdirOut ≠ .ok

/-- the run gets to its last line, and that fails when the redirection has cut the old file already -/
structure Cut : Prop where
  linux : w.linux = true
  passed : ∀ c ∈ path p env w, ¬ ((env c).stat = .killed ∨ fatal c = true ∧ env c ≠ .ok)
  part : (env .writeDone).part = true

/-- there is no old `.done` of a target of the board, or it is cut -/
def Unmarked : Prop := (∀ s, s.board = p.sel.board → cached s w = false) ∨ Cut p env w

/-! ## What stops a run -/

/-- the shell after everything but the last line -/
abbrev built : St Cmd World := eval (exec p env) false (build p) (start Cmd w)

theorem mklinux_eq : mklinux p env w = (built p env w).next (simple (exec p env) false .writeDone) := rfl

/-- nothing before `pack_kernel_packages` writes into the package directory -/
theorem stages_packs {c : Cmd} (hc : c ∈ (stages p).cmds) : c.packs = false := by
  rw [← Bool.not_eq_true]
  intro hp
  have h0 : c = .rmOut ∨ c = .mkdirOut ∨ (∃ q, c = .dpkgDeb q) ∨ c = .writeDone := by
    cases c <;> simp_all [Cmd.packs]
  have h1 : ∀ n, c ∉ patchLoop n := by
    intro n h
    obtain ⟨i, hi⟩ := mem_patchLoop h
    rcases h0 with rfl | rfl | ⟨q, rfl⟩ | rfl <;> simp [patchRound] at hi
  have h2 : c ∉ headerLoop p.headerItems := by
    intro h
    obtain ⟨i, rfl | rfl | rfl⟩ := mem_headerLoop h <;> simp [Cmd.packs] at hp
  have hb : ∀ l : List Cmd, (∀ c ∈ l, c.packs = false) → c ∉ l := by
    intro l hl h
    rw [hl c h] at hp
    simp at hp
  have h3 : c ∉ sources := hb _ (by decide)
  have h4 : c ∉ install_dtb := hb _ (by decide)
  have h5 : c ∉ install_image_modules := hb _ (by decide)
  have h6 : c ∉ headerDirs := hb _ (by decide)
  have h7 : c ∉ tail := hb _ (by decide)
  have h8 : c ∉ (patchStage p).cmds := by
    unfold patchStage patch_kernel patchFiles
    rcases h0 with rfl | rfl | ⟨q, rfl⟩ | rfl <;> cases p.patches <;> split_ifs <;>
      simp [Sh.cmds, Sh.when, needLinux, h1]
  have h9 : c ∉ (compile_linux p).cmds := by
    unfold compile_linux menuconfig
    rcases h0 with rfl | rfl | ⟨q, rfl⟩ | rfl <;> split_ifs <;> simp [Sh.cmds, needLinux, configure, freshDebData]
  have h10 : c ∉ (install_headers p).cmds := by
    unfold install_headers findBefore findAfter substituted
    rcases h0 with rfl | rfl | ⟨q, rfl⟩ | rfl <;> split_ifs <;> simp [Sh.cmds, Sh.when, findArch, h2, h6]
  simp [stages, Sh.cmds, h3, h4, h5, h7, h8, h9, h10] at hc

theorem writeDone_notMem_build : Cmd.writeDone ∉ (build p).cmds := by
  have h1 : Cmd.writeDone ∉ (pack_kernel_packages p).cmds := by
    simp [pack_kernel_packages, Sh.cmds, outDir]
  intro h
  rcases List.mem_append.1 h with h | h
  · exact absurd (stages_packs p h) (by simp [Cmd.packs])
  · exact h1 h

theorem build_failing : (build p).failing = true := by
  have h8 : (patchStage p).failing = true := by
    unfold patchStage patch_kernel
    cases p.patches <;> split_ifs <;> simp [seqs, Sh.failing, Sh.when, needLinux]
  have h10 : (install_headers p).failing = true := by
    unfold install_headers substituted
    split_ifs <;> simp [seqs, Sh.failing, Sh.when]
  simp [build, stages, seqs, Sh.failing, h8, h10, compile_linux, needLinux, pack_kernel_packages]

/-- the body makes the guard take no directory that it did not take before -/
theorem cached_built (s : Selection) (h : cached s (built p env w).w = true) : cached s w = true := by
  revert h
  refine eval_inv (exec p env) (fun w' => cached s w' = true → cached s w = true) false (build p) (fun c hc w' ih h => ?_)
    (start Cmd w) id
  have hne : c ≠ .writeDone := fun h => writeDone_notMem_build p (h ▸ hc)
  exact ih (cached_iff.2 (exec_done p env w' hne _ _ (cached_iff.1 h)))

/-- neither does a last line that fails -/
theorem cached_writeDone {s : Selection} {w : World} (hf : (exec p env .writeDone w).1 ≠ .ok)
    (h : cached s (exec p env .writeDone w).2 = true) : cached s w = true := by
  rw [cached_iff] at h ⊢
  by_cases hb : s.board = p.sel.board
  · have hne := s.config_ne_empty.symm
    rw [hb] at h ⊢
    revert h hf
    cases he : env .writeDone with
    | ok => cases ho : w.out p.sel.board <;> simp [exec, he, ho]
    | fail b | kill b => cases b <;> cases ho : w.out p.sel.board <;> simp_all [exec, Resp.part, World.onOut]
  · rwa [exec_out_other p env w hb] at h

/-- the whole script gets through: its last line succeeds -/
def Done : Prop := (built p env w).out = .run ∧ (exec p env .writeDone (built p env w).w).1 = .ok

theorem mklinux_run (h : (built p env w).out = .run) :
    mklinux p env w = simple (exec p env) false .writeDone (built p env w) := by
  rw [mklinux_eq, next_run h]

theorem mklinux_stop (h : (built p env w).out ≠ .run) : mklinux p env w = built p env w := by
  rw [mklinux_eq, next_stop h]

theorem writeDone_notMem_log (b : Bool) : (Cmd.writeDone, b) ∉ (built p env w).log := fun h =>
  (eval_log (exec p env) false (build p) (start Cmd w) _ h).elim (by simp [start]) (writeDone_notMem_build p)

theorem writeDone_mem_iff : (Cmd.writeDone, true) ∈ (mklinux p env w).log ↔ Done p env w := by
  by_cases hr : (built p env w).out = .run
  · rw [mklinux_run p env w hr, simple_log]
    simp [writeDone_notMem_log, Done, hr, eq_comm]
  · rw [mklinux_stop p env w hr]
    simp [writeDone_notMem_log, Done, hr]

/-- a run that does not get through ends with another status than 0 -/
theorem stat_of_not_done (h : ¬ Done p env w) : (mklinux p env w).stat ≠ .ok := by
  by_cases hr : (built p env w).out = .run
  · rw [mklinux_run p env w hr]
    have hf : (exec p env .writeDone (built p env w).w).1 ≠ .ok := fun hf => h ⟨hr, hf⟩
    cases hs : (exec p env .writeDone (built p env w).w).1 with
    | ok => exact absurd hs hf
    | fail => 
      simp only [simple, hs, check]
      split <;> simp [St.stat, St.code, hr]
    | killed => simp [simple, hs, St.stat]
  · rw [mklinux_stop p env w hr]
    have h0 := eval_failing (exec p env) false (build p) (build_failing p) (start Cmd w) (by simp [start])
    exact stat_of_stop hr h0

/-- a run that does not get through leaves no directory that the guard takes -/
theorem guard_of_not_done (h : ¬ Done p env w) (s : Selection) (hs : cached s (mklinux p env w).w = true) :
    cached s w = true := by
  by_cases hr : (built p env w).out = .run
  · rw [mklinux_run p env w hr, simple_w] at hs
    exact cached_built p env w s (cached_writeDone p env (fun hf => h ⟨hr, hf⟩) hs)
  · rw [mklinux_stop p env w hr] at hs
    exact cached_built p env w s hs

/-- what writes the packages keeps the marker of a directory that is there -/
theorem pack_marker {k : KernelPkgs} (s : St Cmd World) (hk : s.w.out p.sel.board = some k) :
    ∃ k', (eval (exec p env) false (pack_kernel_packages p) s).w.out p.sel.board = some k' ∧ k'.done = k.done := by
  have hpack : eval (exec p env) false (pack_kernel_packages p) s =
      eval (exec p env) false (seqs [block (outDir false), block (pkgs.map .dpkgDeb)]) s := by
    simp [pack_kernel_packages, seqs, eval, hk]
  rw [hpack]
  refine eval_inv (exec p env) (fun w' => ∃ k', w'.out p.sel.board = some k' ∧ k'.done = k.done) false _ (fun c hc w' hw => ?_)
    s ⟨k, hk, rfl⟩
  obtain ⟨k', hk', hdone⟩ := hw
  rw [cmds_seqs] at hc
  simp only [List.flatMap_cons, cmds_block, List.flatMap_nil, List.append_nil, List.mem_append, List.mem_map] at hc
  obtain hc | ⟨q, -, rfl⟩ := hc
  · obtain rfl : c = .mkdirOut := by simpa [outDir] using hc
    refine ⟨k', ?_, hdone⟩
    cases h : env .mkdirOut <;> simp [exec, h, hk']
  · obtain h | ⟨b, h⟩ := dpkgDeb_out p env q w'
    · exact ⟨k', h.trans hk', hdone⟩
    · exact ⟨k'.add ⟨debName q p.sel p.AVA_VERSION, p.id, b⟩, by rw [h, hk', Option.map_some], hdone⟩

/-- so does everything before the last line -/
theorem built_marker {k : KernelPkgs} (hk : w.out p.sel.board = some k) :
    ∃ k', (built p env w).w.out p.sel.board = some k' ∧ k'.done = k.done := by
  have hstages : (eval (exec p env) false (stages p) (start Cmd w)).w.out = w.out :=
    eval_inv (exec p env) (fun w' => w'.out = w.out) false (stages p)
      (fun c hc w' h => (exec_out p env w' (stages_packs p hc)).trans h) (start Cmd w) rfl
  have hk' := (congrFun hstages p.sel.board).trans hk
  by_cases hr : (eval (exec p env) false (stages p) (start Cmd w)).out = .run
  · have hb : built p env w =
        eval (exec p env) false (pack_kernel_packages p) (eval (exec p env) false (stages p) (start Cmd w)) :=
      eval_seq_eq _ _ _ _ _ hr
    rw [hb]
    exact pack_marker p env _ hk'
  · have hb : built p env w = eval (exec p env) false (stages p) (start Cmd w) := eval_seq_stop _ _ _ _ _ hr
    rw [hb]
    exact ⟨k, hk', rfl⟩

/-- exactly the runs that get through end with status 0 -/
theorem stat_iff_done : (mklinux p env w).stat = .ok ↔ Done p env w := by
  constructor
  · intro h
    by_contra hd
    exact stat_of_not_done p env w hd h
  · intro h
    rw [mklinux_run p env w h.1, simple_ok h.2, stat_ok_iff]
    exact Or.inr ⟨h.1, rfl⟩

/-- `[ ! -d ${workspace}/linux ]` is false where the script gets past the test -/
theorem linux_of_needLinux {s : St Cmd World} (h : (eval (exec p env) false needLinux s).out = .run) :
    s.w.linux = true := by
  by_contra hl
  simp [needLinux, eval, hl] at h

/-- without `${workspace}/linux` the script ends at the latest in `compile_linux` -/
theorem linux_of_stages (h : (eval (exec p env) false (stages p) (start Cmd w)).out = .run) : w.linux = true := by
  have hI : ∀ (a : Sh Cmd World) (s : St Cmd World), (eval (exec p env) false a s).w.linux = s.w.linux := fun a s =>
    eval_inv (exec p env) (fun w' => w'.linux = s.w.linux) false a
      (fun c _ w' h => (exec_linux p env w').trans h) s rfl
  obtain ⟨-, h⟩ := (eval_seq_run _ _ _ _ _).1 h
  obtain ⟨-, h⟩ := (eval_seq_run _ _ _ _ _).1 h
  obtain ⟨-, h⟩ := (eval_seq_run _ _ _ _ _).1 h
  obtain ⟨h, -⟩ := (eval_seq_run _ _ _ _ _).1 h
  obtain ⟨h, -⟩ := (eval_seq_run _ _ _ _ _).1 h
  have hl := linux_of_needLinux p env h
  rw [hI, hI, hI] at hl
  exact hl

theorem linux_of_built (h : (built p env w).out = .run) : w.linux = true :=
  linux_of_stages p env w ((eval_seq_run _ _ _ _ _).1 h).1

/-- the run gets to `pack_kernel_packages` -/
structure ReachesPack : Prop where
  linux : w.linux = true
  passed : ∀ c ∈ stagesPath p env w, Passed (status env) fatal c

theorem stages_run_iff : (eval (exec p env) false (stages p) (start Cmd w)).out = .run ↔ ReachesPack p env w := by
  constructor
  · intro h
    have hl := linux_of_stages p env w h
    exact ⟨hl, ((covers_stages p env w hl).pass (start Cmd w) rfl rfl rfl).1 h⟩
  · intro h
    exact ((covers_stages p env w h.linux).pass (start Cmd w) rfl rfl rfl).2 h.passed

/-- a run that does not get there leaves the package directories alone -/
theorem out_of_not_reached (h : ¬ ReachesPack p env w) : (mklinux p env w).w.out = w.out ∧ ¬ Done p env w := by
  have hs : (eval (exec p env) false (stages p) (start Cmd w)).out ≠ .run := fun hs => h ((stages_run_iff p env w).1 hs)
  have hb : built p env w = eval (exec p env) false (stages p) (start Cmd w) := eval_seq_stop _ _ _ _ _ hs
  have hd : (built p env w).out ≠ .run := by rwa [hb]
  refine ⟨?_, fun hD => hd hD.1⟩
  rw [mklinux_stop p env w hd, hb]
  exact eval_inv (exec p env) (fun w' => w'.out = w.out) false (stages p)
    (fun c hc w' h => (exec_out p env w' (stages_packs p hc)).trans h) (start Cmd w) rfl

theorem built_completed : (built p env w).w.completed = w.completed :=
  eval_inv (exec p env) (fun w' => w'.completed = w.completed) false (build p)
    (fun _ hc w' h => (exec_completed p env w' fun hn => writeDone_notMem_build p (hn ▸ hc)).trans h) (start Cmd w) rfl

/-- a run that does not get through records nothing -/
theorem completed_of_not_done (h : ¬ Done p env w) : (mklinux p env w).w.completed = w.completed := by
  have hb := built_completed p env w
  by_cases hr : (built p env w).out = .run
  · have hf : (exec p env .writeDone (built p env w).w).1 ≠ .ok := fun hf => h ⟨hr, hf⟩
    rw [mklinux_run p env w hr, simple_w, ← hb]
    revert hf
    cases he : env .writeDone with
    | ok => cases ho : (built p env w).w.out p.sel.board <;> simp [exec, he, ho]
    | fail b | kill b => cases b <;> simp [exec, he, Resp.part, World.onOut]
  · rw [mklinux_stop p env w hr, hb]

/-- what a run that gets through has executed and left -/
theorem done_log (h : Done p env w) :
    (mklinux p env w).log = (path p env w).map (fun c => (c, decide ((env c).stat = .ok))) ++ [(.writeDone, true)] ∧
      AfterPack p env w (built p env w).w := by
  have hw := linux_of_built p env w h.1
  obtain ⟨-, hl, ha⟩ := (covers_build p env w hw).after (start Cmd w) rfl rfl rfl h.1
  refine ⟨?_, ha⟩
  rw [mklinux_run p env w h.1, simple_log, hl]
  simp [h.2, start]

theorem passed_iff {c : Cmd} :
    Passed (status env) fatal c ↔ ¬ ((env c).stat = .killed ∨ fatal c = true ∧ env c ≠ .ok) := by
  cases h : env c <;> simp [Passed, status, h, Resp.stat]

theorem writeDone_ok {w : World} :
    (exec p env .writeDone w).1 = .ok ↔ env .writeDone = .ok ∧ (w.out p.sel.board).isSome := by
  cases h : env .writeDone <;> cases ho : w.out p.sel.board <;> simp [exec, h, ho, Resp.stat]

/-- what the last line leaves -/
theorem done_w (h : Done p env w) :
    (mklinux p env w).w =
      { (built p env w).w.onOut p.sel.board (fun k => { k with done := some p.sel.conf.LINUX_CONFIG }) with
        completed := w.completed ++ [⟨p.id, p.sel, some (compiledConfig p w)⟩] } := by
  obtain ⟨hd, ho⟩ := (writeDone_ok p env).1 h.2
  obtain ⟨k, hk⟩ := Option.isSome_iff_exists.1 ho
  rw [mklinux_run p env w h.1, simple_w, ← built_completed p env w, ← (done_log p env w h).2.built]
  simp [exec, hd, hk]

/-- the guard takes the directory of a run that gets through -/
theorem cached_of_done (h : Done p env w) : cached p.sel (mklinux p env w).w = true := by
  obtain ⟨-, ho⟩ := (writeDone_ok p env).1 h.2
  obtain ⟨k, hk⟩ := Option.isSome_iff_exists.1 ho
  rw [done_w p env w h, cached_iff]
  simp [World.onOut, hk]

/-- **Exactly the runs that nothing stops get to write `.done`** -/
theorem done_iff : Done p env w ↔ ¬ Stopped p env w := by
  constructor
  · intro h
    have hw := linux_of_built p env w h.1
    have hc := covers_build p env w hw
    have hp := (hc.pass (start Cmd w) rfl rfl rfl).1 h.1
    obtain ⟨-, -, ha⟩ := hc.after (start Cmd w) rfl rfl rfl h.1
    obtain ⟨hd, ho⟩ := (writeDone_ok p env).1 h.2
    rintro (hl | ⟨c, hc, hf⟩ | hf | ⟨hn, hm⟩)
    · simp [hw] at hl
    · exact (passed_iff env).1 (hp c hc) hf
    · exact hf hd
    · exact (ha.dir.1 ho).elim (by simp [hn]) hm
  · intro h
    simp only [Stopped, not_or, not_exists, not_and, not_not, ne_eq] at h
    obtain ⟨hl, hp, hd, hm⟩ := h
    have hc := covers_build p env w (by simpa using hl)
    have hrun := (hc.pass (start Cmd w) rfl rfl rfl).2 fun c hc => (passed_iff env).2 fun hf =>
      hf.elim (hp c hc).1 fun ⟨h1, h2⟩ => h2 ((hp c hc).2 h1)
    obtain ⟨-, -, ha⟩ := hc.after (start Cmd w) rfl rfl rfl hrun
    refine ⟨hrun, (writeDone_ok p env).2 ⟨hd, ha.dir.2 ?_⟩⟩
    by_cases hn : w.out p.sel.board = none
    · exact Or.inr (hm hn)
    · exact Or.inl (Option.isSome_iff_ne_none.2 hn)

/-- a run that gets through leaves the packages that `dpkg-deb` has written -/
theorem hasDeb_of_done (h : Done p env w) {q : Pkg} (hq : env (.dpkgDeb q) = .ok) : HasDeb p q (mklinux p env w).w := by
  obtain ⟨-, ha⟩ := done_log p env w h
  have ho := ((writeDone_ok p env).1 h.2).2
  obtain ⟨k, hk, hm⟩ := ha.debs ho q hq
  rw [done_w p env w h]
  exact ⟨{ k with done := some p.sel.conf.LINUX_CONFIG }, by simp [World.onOut, hk], hm⟩

theorem dpkgDeb_mem_path (q : Pkg) : .dpkgDeb q ∈ path p env w := by
  have h : Cmd.dpkgDeb q ∈ packPath p w := by
    unfold packPath
    cases q <;> simp [pkgs]
  simp only [path, List.mem_append]
  tauto

/-- a cut of the old marker is one where the run gets to its last line -/
theorem cut_iff : Cut p env w ↔ (built p env w).out = .run ∧ (env .writeDone).part = true := by
  constructor
  · intro h
    have hc := covers_build p env w h.linux
    exact ⟨(hc.pass (start Cmd w) rfl rfl rfl).2 fun c hm => (passed_iff env).2 (h.passed c hm), h.part⟩
  · rintro ⟨hr, hpart⟩
    have hl := linux_of_built p env w hr
    have hc := covers_build p env w hl
    exact ⟨hl, fun c hm => (passed_iff env).1 ((hc.pass (start Cmd w) rfl rfl rfl).1 hr c hm), hpart⟩

/-- **A run that does not get through leaves the old marker**, if its last line does not cut it -/
theorem cached_of_not_done (h : ¬ Done p env w) {s : Selection} (hs : s.board = p.sel.board) :
    cached s (mklinux p env w).w = true ↔ cached s w = true ∧ ¬ Cut p env w := by
  constructor
  · intro hcached
    refine ⟨guard_of_not_done p env w h s hcached, fun hcut => ?_⟩
    obtain ⟨hr, hpart⟩ := (cut_iff p env w).1 hcut
    rw [mklinux_run p env w hr, simple_w, cached_iff, hs] at hcached
    have hne := s.config_ne_empty.symm
    cases he : env .writeDone with
    | ok => simp [he, Resp.part] at hpart
    | fail b | kill b =>
      obtain rfl : b = true := by simpa [he, Resp.part] using hpart
      cases ho : (built p env w).w.out p.sel.board <;> simp_all [exec, Resp.part, World.onOut]
  · rintro ⟨hcached, hcut⟩
    rw [cached_iff, hs] at hcached ⊢
    obtain ⟨k, hk, hdone⟩ := Option.bind_eq_some_iff.1 hcached
    obtain ⟨k', hk', hdone'⟩ := built_marker p env w hk
    by_cases hr : (built p env w).out = .run
    · have hpart : (env .writeDone).part ≠ true := fun hpart => hcut ((cut_iff p env w).2 ⟨hr, hpart⟩)
      have hsame : (exec p env .writeDone (built p env w).w).2.out = (built p env w).w.out := by
        cases he : env .writeDone with
        | ok => exact absurd ⟨hr, (writeDone_ok p env).2 ⟨he, by simp [hk']⟩⟩ h
        | fail b | kill b =>
          obtain rfl : b = false := by simpa [he, Resp.part] using hpart
          simp [exec, he, Resp.part]
      rw [mklinux_run p env w hr, simple_w, hsame, hk', Option.bind_some, hdone', hdone]
    · rw [mklinux_stop p env w hr, hk', Option.bind_some, hdone', hdone]

/-- a run that gets through has built everything iff nothing has failed on its way -/
theorem built_of_done (hd : Done p env w) : Built p env w ↔ ∀ c ∈ path p env w, env c = .ok := by
  constructor
  · rintro ⟨hall, -⟩ c hc
    have hx := hall (c, decide ((env c).stat = .ok)) (by
      rw [(done_log p env w hd).1]
      exact List.mem_append_left _ (List.mem_map_of_mem hc))
    exact Resp.stat_ok.1 (of_decide_eq_true hx)
  · intro hok
    refine ⟨fun x hx => ?_, fun q => hasDeb_of_done p env w hd (hok _ (dpkgDeb_mem_path p env w q))⟩
    rw [(done_log p env w hd).1] at hx
    obtain hx | hx := List.mem_append.1 hx
    · obtain ⟨c, hc, rfl⟩ := List.mem_map.1 hx
      simp [hok c hc, Resp.stat]
    · rw [List.mem_singleton] at hx
      subst hx
      rfl

/-- **The success marker of `mklinux.sh` is sound in exactly the runs that are stopped before it is written and leave no old
one, and those in which no command fails**: a command that fails after `set +e` is not noticed, and an old marker is not
removed -/
theorem done_sound_iff : MarkerSound p env w ↔
    Stopped p env w ∧ Unmarked p env w ∨ ¬ Stopped p env w ∧ ∀ c ∈ path p env w, env c = .ok := by
  by_cases hs : Stopped p env w
  · simp only [hs, true_and, not_true_eq_false, false_and, or_false]
    have hd : ¬ Done p env w := fun hd => (done_iff p env w).1 hd hs
    have hstat := stat_of_not_done p env w hd
    constructor
    · intro h
      by_cases hcut : Cut p env w
      · exact .inr hcut
      · refine .inl fun s hb => ?_
        by_contra hcached
        have hcached := (cached_of_not_done p env w hd hb).2 ⟨by simpa using hcached, hcut⟩
        exact hstat (h.guard s hb hcached).1
    · intro h
      refine ⟨fun hlog => absurd ((writeDone_mem_iff p env w).1 hlog) hd, fun hok => absurd hok hstat, fun s hb hcached => ?_⟩
      obtain ⟨hold, hcut⟩ := (cached_of_not_done p env w hd hb).1 hcached
      obtain h | h := h
      · rw [h s hb] at hold
        exact absurd hold (by decide)
      · exact absurd h hcut
  · simp only [hs, false_and, not_false_eq_true, true_and, false_or]
    have hd := (done_iff p env w).2 hs
    rw [← built_of_done p env w hd]
    exact ⟨fun h => h.done ((writeDone_mem_iff p env w).2 hd),
      fun h => ⟨fun _ => h, fun _ => h, fun _ _ _ => ⟨(stat_iff_done p env w).2 hd, h⟩⟩⟩

/-! ## A failing `dpkg-deb` -/

/-- a first build for the A1 board in a workspace with the kernel source and nothing else -/
def a1 : Params where
  sel := ⟨.avaotaA1, "bsp", ⟨"sun55i_t527_bsp_defconfig", "none"⟩, Board.linuxConf_a1_bsp⟩
  AVA_VERSION := "1.0".toList
  menuconfig := false
  id := 0
  patches := none
  files := false
  archDir := true
  gccPlugins := false
  headerItems := [true, false]

def fresh : World := ⟨true, none, none, none, false, fun _ => none, []⟩

/-- `dpkg-deb -b` of the image package fails -/
def imageFails (c : Cmd) : Resp := if c = .dpkgDeb .image then .fail false else .ok

/-- the run without the image package writes `.done`, exits with status 0, and the next build takes its directory -/
theorem done_without_image :
    ¬ MarkerSound a1 imageFails fresh ∧ (mklinux a1 imageFails fresh).stat = .ok ∧
      cached a1.sel (mklinux a1 imageFails fresh).w = true ∧ ¬ HasDeb a1 .image (mklinux a1 imageFails fresh).w := by
  have ho : ((mklinux a1 imageFails fresh).w.out .avaotaA1).map (fun k => (k.debs.map (·.name), k.done)) =
      some ([.dtb, .headers, .libcDev].map (debName · a1.sel a1.AVA_VERSION), some a1.sel.conf.LINUX_CONFIG) := by
    decide
  have hs : (mklinux a1 imageFails fresh).stat = .ok := by decide
  have hd : ¬ HasDeb a1 .image (mklinux a1 imageFails fresh).w := by
    rintro ⟨k, hk, hm⟩
    rw [show a1.sel.board = .avaotaA1 from rfl] at hk
    rw [hk] at ho
    simp only [Option.map_some, Option.some.injEq, Prod.mk.injEq] at ho
    have hn : debName .image a1.sel a1.AVA_VERSION ∈ [Pkg.dtb, .headers, .libcDev].map (debName · a1.sel a1.AVA_VERSION) :=
      ho.1 ▸ List.mem_map_of_mem (f := Deb.name) hm
    obtain ⟨q, hq, hn⟩ := List.mem_map.1 hn
    rw [debName_inj hn] at hq
    exact absurd hq (by decide)
  refine ⟨fun h => hd ((h.status hs).2 .image), hs, ?_, hd⟩
  decide

end AvaotaOS.MkLinux
