/-
The bootloader files of the workspace over any history of `build_all.sh`.

`build_all` is the script of `BuildAll` in a world that has the files in place of the one bit a board: the test on
`bootloader-${BOARD}/.done` reads the file, `mkbootloader.sh` runs as the script it is, and `fetch.sh` may leave anything
in the source trees.

Results:
- `packs_own_bootloader`: in every history, whatever fails or is interrupted in whichever call, each call of `pack.sh`
  finds its own board's bootloader, from one call of `mkbootloader.sh` that got to its end.
- `build_all_refines`, `runs_refine`: to the rest of the workspace a call is a call of `BuildAll`, and a history one of
  its histories.
-/
import Mathlib.Tactic
import AvaotaOS.Build.Bootloader

namespace AvaotaOS.Bootloader

open Shell History

/-! ## The system -/

/-- what one call of `pack.sh` finds -/
structure Found where
  board : Board
  bin : WriteBootloader.BlFile → Option Copy
  /-- `bootloader-${BOARD}` -/
  dir : Option Dir
  /-- the calls of `mkbootloader.sh` that have come to their end so far -/
  completed : List (ℕ × Board)

structure System where
  /-- everything but the bootloader -/
  rest : BuildAll.Workspace
  boot : World
  /-- the calls of `mkbootloader.sh` so far -/
  calls : ℕ
  completed : List (ℕ × Board)
  found : List Found

/-- the workspace as `BuildAll` sees it -/
def System.workspace (s : System) : BuildAll.Workspace := { s.rest with bootloader := s.boot.done }

/-- a call of `build_all.sh`, and what the environment does to `mkbootloader.sh` -/
structure Call where
  request : BuildAll.Request
  env : BuildAll.Env
  boot : Cmd → Resp
  /-- what `fetch.sh` leaves in the source trees -/
  fetched : Trees → Trees

/-- the call of `mkbootloader.sh` -/
def Call.mkbootloader (c : Call) (s : System) : St Cmd World :=
  Bootloader.mkbootloader s.calls c.request.board c.boot { s.boot with cwd := .workspace }

def System.afterMkbootloader (c : Call) (s : System) : System :=
  { s with
    boot := (c.mkbootloader s).w
    calls := s.calls + 1
    completed :=
      if (c.mkbootloader s).out = .run then s.completed ++ [(s.calls, c.request.board)] else s.completed }

def execAll (c : Call) (k : BuildAll.Cmd) (s : System) : Stat × System :=
  match k with
  | .mkbootloader =>
    match c.env.top .mkbootloader with
    | .ok => ((c.mkbootloader s).stat, s.afterMkbootloader c)
    | x => (x.stat, s)
  | k =>
    let x := BuildAll.exec c.request c.env k s.workspace
    (x.1, { s with
      rest := x.2
      boot := if k = .fetch then { s.boot with trees := c.fetched s.boot.trees } else s.boot
      found :=
        if k = .pack then s.found ++ [⟨c.request.board, s.boot.bin, s.boot.dir c.request.board, s.completed⟩]
        else s.found })

/-- one call of the script -/
def build_all (c : Call) (s : System) : St BuildAll.Cmd System :=
  Shell.run (execAll c) ((BuildAll.script c.request).comap System.workspace) s

def step (s : System) (c : Call) : System := (build_all c s).w

/-- nothing has run yet; `t` is what lies in the source trees -/
def fresh (t : Trees) : System where
  rest := BuildAll.fresh
  boot := ⟨.workspace, t, fun _ => none, fun _ => none⟩
  calls := 0
  completed := []
  found := []

/-! ## The invariant -/

/-- the board's bootloader, from one call for it that got to its end -/
def Genuine (f : Found) : Prop := ∃ n, (n, f.board) ∈ f.completed ∧ Boots n f.board f.bin f.dir

/-- what `pack.sh` would find -/
def System.find (s : System) (b : Board) : Found := ⟨b, s.boot.bin, s.boot.dir b, s.completed⟩

/-- every marker vouches for its board's files -/
structure Inv (s : System) : Prop where
  marked : ∀ b, s.boot.done b = true → Genuine (s.find b)
  found : ∀ f ∈ s.found, Genuine f

theorem inv_fresh (t : Trees) : Inv (fresh t) := by
  refine ⟨fun b h => ?_, fun f hf => ?_⟩
  · simp [fresh, World.done] at h
  · simp [fresh] at hf

variable {c : Call}

/-- a command other than the call of `mkbootloader.sh` leaves the files as they are -/
theorem execAll_files {k : BuildAll.Cmd} (hk : k ≠ .mkbootloader) (s : System) :
    (execAll c k s).2.boot.bin = s.boot.bin ∧ (execAll c k s).2.boot.dir = s.boot.dir ∧
      (execAll c k s).2.completed = s.completed := by
  cases k
  case mkbootloader => exact absurd rfl hk
  all_goals exact ⟨rfl, rfl, rfl⟩

theorem execAll_find {k : BuildAll.Cmd} (hk : k ≠ .mkbootloader) (s : System) (b : Board) :
    (execAll c k s).2.find b = s.find b ∧ (execAll c k s).2.boot.done b = s.boot.done b := by
  obtain ⟨h1, h2, h3⟩ := execAll_files (c := c) hk s
  exact ⟨by rw [System.find, h1, h2, h3]; rfl, by rw [World.done, h2]; rfl⟩

/-- **A command that neither builds nor packs** -/
theorem inv_other {k : BuildAll.Cmd} (hk : k ≠ .mkbootloader) (hp : k ≠ .pack) {s : System} (h : Inv s) :
    Inv (execAll c k s).2 := by
  refine ⟨fun b hb => ?_, fun f hf => h.found f ?_⟩
  · obtain ⟨h1, h2⟩ := execAll_find (c := c) hk s b
    rw [h1]
    rw [h2] at hb
    exact h.marked b hb
  · cases k
    case mkbootloader => exact absurd rfl hk
    case pack => exact absurd rfl hp
    all_goals exact hf

/-- **The call of `pack.sh`** finds what the marker vouches for -/
theorem inv_pack {s : System} (h : Inv s) (hd : s.boot.done c.request.board = true) : Inv (execAll c .pack s).2 := by
  refine ⟨fun b hb => h.marked b hb, fun f hf => ?_⟩
  rcases List.mem_append.1 hf with hf | hf
  · exact h.found f hf
  · rw [List.mem_singleton] at hf
    rw [hf]
    exact h.marked _ hd

/-- what another board boots with is still what it was -/
theorem Beside.find {b b' : Board} {v w : World} (h : Beside b v w) (hb : b' ≠ b) {n : ℕ} (hv : Boots n b' v.bin (v.dir b')) :
    Boots n b' w.bin (w.dir b') := by
  refine ⟨fun x hx => ?_, ?_⟩
  · rw [h.bin x (bins_disjoint hb hx)]
    exact hv.bin x hx
  · rw [h.dir b' hb]
    exact hv.dir

/-- the marker is there iff the call gets to its end; the other markers stay -/
theorem done_after {s : System} (hd : s.boot.done c.request.board = false) :
    (s.afterMkbootloader c).boot.done =
      Function.update s.boot.done c.request.board (decide ((c.mkbootloader s).out = .run)) := by
  obtain ⟨h1, h2, h3⟩ := mkbootloader_triple s.calls c.request.board c.boot { s.boot with cwd := .workspace } hd
  funext b
  by_cases hb : b = c.request.board
  · subst hb
    rw [Function.update_self]
    by_cases hr : (c.mkbootloader s).out = .run
    · rw [decide_eq_true hr]
      show ((c.mkbootloader s).w.dir c.request.board).any _ = true
      rw [Call.mkbootloader, (h1 hr).dir]
      simp [complete]
    · rw [decide_eq_false hr]
      exact h2 hr
  · rw [Function.update_of_ne hb]
    show ((c.mkbootloader s).w.dir b).any _ = _
    rw [Call.mkbootloader, h3.dir b hb]
    rfl

/-- **The call of `mkbootloader.sh`**, where the marker is not there -/
theorem inv_mkbootloader {s : System} (h : Inv s) (hd : s.boot.done c.request.board = false) :
    Inv (s.afterMkbootloader c) := by
  obtain ⟨h1, -, h3⟩ := mkbootloader_triple s.calls c.request.board c.boot { s.boot with cwd := .workspace } hd
  refine ⟨fun b hb => ?_, h.found⟩
  rw [done_after hd] at hb
  by_cases hbb : b = c.request.board
  · subst hbb
    rw [Function.update_self, decide_eq_true_iff] at hb
    refine ⟨s.calls, ?_, h1 hb⟩
    show (s.calls, c.request.board) ∈ if (c.mkbootloader s).out = .run then _ else _
    rw [if_pos hb]
    simp
  · rw [Function.update_of_ne hbb] at hb
    obtain ⟨n, hn, hboots⟩ := h.marked b hb
    refine ⟨n, ?_, h3.find hbb hboots⟩
    show (n, b) ∈ if (c.mkbootloader s).out = .run then _ else _
    split
    · exact List.mem_append_left _ hn
    · exact hn

/-! ## One call -/

/-- the invariant, with the marker of the board that is built -/
def Marked (c : Call) (s : System) : Prop := Inv s ∧ s.boot.done c.request.board = true

/-- the commands of the first part -/
theorem prepare_cmds (r : BuildAll.Request) :
    BuildAll.Cmd.mkbootloader ∉ (BuildAll.prepare r).cmds ∧ BuildAll.Cmd.pack ∉ (BuildAll.prepare r).cmds := by
  unfold BuildAll.prepare
  cases r.useLocal <;> simp [Sh.cmds]

theorem rest_cmds (r : BuildAll.Request) :
    BuildAll.Cmd.mkbootloader ∉ (Sh.seq (BuildAll.kernelStage r) (BuildAll.back r)).cmds := by
  unfold BuildAll.kernelStage BuildAll.back BuildAll.rootfsStage BuildAll.imageStage
  cases r.kernelOnly <;> simp [Sh.cmds, Sh.and]

theorem script_strict (r : BuildAll.Request) :
    (BuildAll.prepare r).strict = true ∧ (Sh.seq (BuildAll.kernelStage r) (BuildAll.back r)).strict = true := by
  unfold BuildAll.prepare BuildAll.kernelStage BuildAll.back BuildAll.rootfsStage BuildAll.imageStage
  cases r.useLocal <;> cases r.kernelOnly <;> simp [Sh.strict, Sh.and, seqs]

theorem prepare_triple (c : Call) :
    Triple (execAll c) Inv ((BuildAll.prepare c.request).comap System.workspace) Inv Inv := by
  obtain ⟨h1, h2⟩ := prepare_cmds c.request
  refine Triple.inv (by simp [script_strict]) fun k hk s h => ?_
  rw [cmds_comap] at hk
  exact inv_other (fun he => h1 (he ▸ hk)) (fun he => h2 (he ▸ hk)) h

/-- past the bootloader stage the marker is there -/
theorem bootloaderStage_triple (c : Call) :
    Triple (execAll c) Inv ((BuildAll.bootloaderStage c.request).comap System.workspace) (Marked c) Inv := by
  refine Triple.cond (Triple.tt.pre fun s h => h) (Triple.cmd (fun s h hok => ?_) fun s h _ => ?_)
  · cases he : c.env.top .mkbootloader with
    | ok =>
      simp only [execAll, he] at hok ⊢
      refine ⟨inv_mkbootloader h.1 h.2, ?_⟩
      have hr : (c.mkbootloader s).out = .run := (mkbootloader_run _ _ _).1 hok
      rw [done_after h.2, Function.update_self, decide_eq_true hr]
    | fail p => simp [execAll, he, Resp.stat] at hok
    | kill p => simp [execAll, he, Resp.stat] at hok
  · cases he : c.env.top .mkbootloader with
    | ok =>
      simp only [execAll, he]
      exact inv_mkbootloader h.1 h.2
    | fail p | kill p =>
      simp only [execAll, he]
      exact h.1

theorem rest_triple (c : Call) :
    Triple (execAll c) (Marked c) ((Sh.seq (BuildAll.kernelStage c.request) (BuildAll.back c.request)).comap System.workspace)
      (Marked c) (Marked c) := by
  refine Triple.inv (by simp [script_strict]) fun k hk s h => ?_
  rw [cmds_comap] at hk
  have hm : k ≠ .mkbootloader := fun he => rest_cmds c.request (he ▸ hk)
  refine ⟨?_, (execAll_find hm s c.request.board).2.trans h.2⟩
  by_cases hp : k = .pack
  · rw [hp]
    exact inv_pack h.1 h.2
  · exact inv_other hm hp h.1

/-- **One call keeps the invariant**, wherever it stops -/
theorem build_all_inv (c : Call) {s : System} (h : Inv s) : Inv (build_all c s).w := by
  have hall := (((prepare_triple c).seq (bootloaderStage_triple c)).seq
    ((rest_triple c).conseq (fun _ => id) (fun _ h => h.1) fun _ h => h.1))
  have heq : build_all c s = eval (execAll c) false ((BuildAll.script c.request).comap System.workspace)
      { start BuildAll.Cmd s with e := true } := rfl
  rw [heq]
  by_cases hr : (eval (execAll c) false ((BuildAll.script c.request).comap System.workspace)
      { start BuildAll.Cmd s with e := true }).out = .run
  · exact (hall.through _ rfl rfl h hr).2
  · exact hall.stopped _ rfl rfl h hr

/-- **Every image is packed with its own board's bootloader** -/
theorem packs_own_bootloader (t : Trees) (l : List Call) : ∀ f ∈ (runs step (fresh t) l).found, Genuine f :=
  (runs_inv (P := fun _ _ => True) (fun _ c h _ => build_all_inv c h) (inv_fresh t) (each_true _ l)).found

/-- jammy without a desktop; every command succeeds but those of `mkbootloader.sh`, which `boot` answers -/
def call (s : Selection) (boot : Cmd → Resp) : Call where
  request := ⟨⟨s, "0.3.0.4".toList, false, 0, none, false, true, false, []⟩, .jammy, .cli, false, false, false, true, false, true, false⟩
  env := ⟨fun _ => .ok, fun _ => .ok, fun _ => .ok, fun _ => .ok⟩
  boot := boot
  fetched := fun t => { t with buildDir := false }

def a1 : Selection := ⟨.avaotaA1, "bsp", ⟨"sun55i_t527_bsp_defconfig", "none"⟩, Board.linuxConf_a1_bsp⟩

def c1 : Selection := ⟨.avaotaC1, "bsp", ⟨"sun50i_h618_bsp_defconfig", "none"⟩, Board.linuxConf_c1_bsp⟩

/-- the A1 is interrupted while its files are copied, then the C1 is built, then the A1 -/
def interrupted : List Call :=
  [call a1 fun k => if k = .cpBlob .scp then .kill true else .ok, call c1 fun _ => .ok, call a1 fun _ => .ok]

theorem packs_own_bootloader_interrupted :
    (runs step (fresh ⟨false, fun _ => none⟩) interrupted).found.map (·.board) = [.avaotaC1, .avaotaA1] ∧
      ∀ f ∈ (runs step (fresh ⟨false, fun _ => none⟩) interrupted).found, Genuine f :=
  ⟨by decide +kernel, packs_own_bootloader ⟨false, fun _ => none⟩ interrupted⟩

/-! ## The rest of the workspace -/

/-- what `BuildAll` sees of the call of `mkbootloader.sh` -/
def resp (c : Call) (s : System) : Resp :=
  match c.env.top .mkbootloader with
  | .ok =>
    match (c.mkbootloader s).stat with
    | .ok => .ok
    | .fail => .fail false
    | .killed => .kill false
  | x => x

/-- the shell before the bootloader stage -/
abbrev atStage (c : Call) (s : System) : St BuildAll.Cmd System :=
  eval (execAll c) false ((BuildAll.prepare c.request).comap System.workspace) (start BuildAll.Cmd s)

/-- the environment of the same call in `BuildAll` -/
def envOf (c : Call) (s : System) : BuildAll.Env :=
  { c.env with top := Function.update c.env.top .mkbootloader (resp c (atStage c s).w) }

theorem exec_bootloader (r : BuildAll.Request) (env : BuildAll.Env) {k : BuildAll.Cmd} (hk : k ≠ .mkbootloader)
    (w : BuildAll.Workspace) : (BuildAll.exec r env k w).2.bootloader = w.bootloader := by
  unfold BuildAll.exec
  split
  case h_4 => exact absurd rfl hk
  case h_3 => split <;> rfl
  case h_6 => split <;> rfl
  all_goals rfl

theorem exec_envOf (c : Call) (s : System) {k : BuildAll.Cmd} (hk : k ≠ .mkbootloader) (w : BuildAll.Workspace) :
    BuildAll.exec c.request (envOf c s) k w = BuildAll.exec c.request c.env k w := by
  have htop : (envOf c s).top k = c.env.top k := Function.update_of_ne hk _ _
  unfold BuildAll.exec
  rw [htop]
  rfl

theorem workspace_of_bootloader {w : BuildAll.Workspace} {m : Board → Bool} (h : w.bootloader = m) :
    { w with bootloader := m } = w := by
  subst h
  rfl

/-- the commands that do not concern the bootloader -/
theorem execAll_refines (c : Call) (s : System) {k : BuildAll.Cmd} (hk : k ≠ .mkbootloader) (t : System) :
    (execAll c k t).1 = (BuildAll.exec c.request (envOf c s) k t.workspace).1 ∧
      (execAll c k t).2.workspace = (BuildAll.exec c.request (envOf c s) k t.workspace).2 := by
  rw [exec_envOf c s hk]
  have hb := exec_bootloader c.request c.env hk t.workspace
  cases k
  case mkbootloader => exact absurd rfl hk
  all_goals exact ⟨rfl, workspace_of_bootloader hb⟩

/-- **The bootloader stage**: only its own marker changes, and it is there iff `mkbootloader.sh` gets to its end -/
theorem mkbootloader_refines (c : Call) (s : System) {t : System} (ht : t = (atStage c s).w)
    (hd : t.boot.done c.request.board = false) :
    (execAll c .mkbootloader t).1 = (BuildAll.exec c.request (envOf c s) .mkbootloader t.workspace).1 ∧
      (execAll c .mkbootloader t).2.workspace = (BuildAll.exec c.request (envOf c s) .mkbootloader t.workspace).2 := by
  have htop : (envOf c s).top .mkbootloader = resp c t := by
    simp only [envOf, Function.update_self, ht]
  cases he : c.env.top .mkbootloader with
  | ok =>
    have hr : (c.mkbootloader t).stat = .ok ↔ (c.mkbootloader t).out = .run := mkbootloader_run _ _ _
    have hdone := done_after hd
    cases hs : (c.mkbootloader t).stat with
    | ok =>
      rw [decide_eq_true (hr.1 hs)] at hdone
      simp only [execAll, BuildAll.exec, htop, resp, he, hs, System.workspace, hdone]
      exact ⟨trivial, rfl⟩
    | fail | killed =>
      rw [decide_eq_false fun h => by simp [hr.2 h] at hs, Function.update_eq_self_iff.2 hd.symm] at hdone
      simp only [execAll, BuildAll.exec, htop, resp, he, hs, System.workspace, hdone]
      exact ⟨rfl, rfl⟩
  | fail p | kill p =>
    simp only [execAll, BuildAll.exec, htop, resp, he]
    exact ⟨trivial, trivial⟩

/-- **A call is a call of `BuildAll`** to everything but the bootloader's files -/
theorem build_all_refines (c : Call) (s : System) :
    (build_all c s).map System.workspace = BuildAll.build_all c.request (envOf c s) s.workspace := by
  have hprep : (atStage c s).map System.workspace =
      eval (BuildAll.exec c.request (envOf c s)) false (BuildAll.prepare c.request) (start _ s.workspace) :=
    eval_comap false (fun k hk t => execAll_refines c s (fun he => (prepare_cmds c.request).1 (he ▸ hk)) t) (start _ s)
  have hstage : (eval (execAll c) false ((BuildAll.bootloaderStage c.request).comap System.workspace)
        (atStage c s)).map System.workspace =
      eval (BuildAll.exec c.request (envOf c s)) false (BuildAll.bootloaderStage c.request)
        ((atStage c s).map System.workspace) := by
    rw [BuildAll.bootloaderStage, Sh.comap, eval, eval]
    show St.map _ (if (atStage c s).w.boot.done c.request.board then _ else _) =
      if (atStage c s).w.boot.done c.request.board then _ else _
    split
    · rfl
    · rename_i hd
      exact simple_map _ (mkbootloader_refines c s rfl (by simpa using hd))
  have hrest : ∀ t : St BuildAll.Cmd System,
      (eval (execAll c) false ((Sh.seq (BuildAll.kernelStage c.request) (BuildAll.back c.request)).comap
        System.workspace) t).map System.workspace =
      eval (BuildAll.exec c.request (envOf c s)) false (.seq (BuildAll.kernelStage c.request) (BuildAll.back c.request))
        (t.map System.workspace) :=
    eval_comap false fun k hk t => execAll_refines c s (fun he => rest_cmds c.request (he ▸ hk)) t
  have hfront : (eval (execAll c) false ((BuildAll.front c.request).comap System.workspace) (start _ s)).map System.workspace =
      eval (BuildAll.exec c.request (envOf c s)) false (BuildAll.front c.request) (start _ s.workspace) := by
    rw [BuildAll.front, Sh.comap, eval, eval, ← hprep]
    exact map_next _ fun _ => hstage
  rw [build_all, Shell.run, BuildAll.script, Sh.comap, eval, BuildAll.build_all, Shell.run, BuildAll.script, eval, ← hfront]
  exact map_next _ fun _ => hrest _

/-- **A history is a history of `BuildAll`** with the same requests: what holds of those holds here -/
theorem runs_refine (s : System) (l : List Call) :
    ∃ l' : List BuildAll.Call, l'.map (·.request) = l.map (·.request) ∧
      (runs step s l).workspace = runs BuildAll.step s.workspace l' := by
  induction l generalizing s with
  | nil => exact ⟨[], rfl, rfl⟩
  | cons c l ih =>
    have hstep : (step s c).workspace = BuildAll.step s.workspace ⟨c.request, envOf c s⟩ :=
      congrArg St.w (build_all_refines c s)
    obtain ⟨l', hreq, hruns⟩ := ih (step s c)
    refine ⟨⟨c.request, envOf c s⟩ :: l', ?_, ?_⟩
    · rw [List.map_cons, List.map_cons, hreq]
    · rw [runs_cons, hruns, hstep, runs_cons]

end AvaotaOS.Bootloader
