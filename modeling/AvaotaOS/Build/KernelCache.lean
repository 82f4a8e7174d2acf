/-
The kernel packages that `pack.sh` installs, over any number of runs of `build_all.sh` in one workspace.

The directory `${BOARD}-kernel-pkgs` is kept from run to run: `pack_kernel_packages` removes it only where it does not
exist. Its marker names a defconfig, its packages carry the defconfig and the version, and `pack.sh` takes whatever
`linux-dtb*.deb`, `linux-image*.deb` and `linux-libc-dev*.deb` match.

- `Ledger`: what holds of the directories between two runs; `mklinux_ledger` is the step, for a run that `Fits`.
- `globs_serve`: in every sequence of such runs each glob matches one package, that of the last completed run for the
  board and target.
- `mainline_after_bsp`: a build of another target for the same board, and both its packages and the old ones match.
-/
import Mathlib.Tactic
import AvaotaOS.Build.Stages

namespace AvaotaOS.BuildAll

open Shell History

/-! ## File names -/

/-- the package names of one board name its defconfig -/
theorem PKG_NAME_inj {s s' : Selection} (hb : s.board = s'.board)
    (h : MkLinux.PKG_NAME s.conf = MkLinux.PKG_NAME s'.conf) : s = s' := by
  apply Selection.ext_config hb
  obtain ⟨b, t, c, hs⟩ := s
  obtain ⟨b', t', c', hs'⟩ := s'
  simp only at hb h ⊢
  subst hb
  cases b <;> simp only [Board.linuxConf] at hs hs' <;> split_ifs at hs hs' <;>
    simp only [Option.some.injEq] at hs hs' <;> subst hs hs' <;> first | rfl | exact absurd h (by decide)

theorem PKG_NAME_underscore (c : LinuxConf) : '_' ∉ MkLinux.PKG_NAME c := by
  intro h
  obtain ⟨ch, -, hc⟩ := List.mem_map.1 h
  split_ifs at hc with h1
  · exact absurd hc (by decide)
  · exact h1 hc

theorem takeWhile_underscore {l m : List Char} (h : '_' ∉ l) : (l ++ '_' :: m).takeWhile (· ≠ '_') = l := by
  rw [List.takeWhile_append_of_pos (by simpa using fun c hc => ne_of_mem_of_not_mem hc h)]
  simp

/-- a file name of one board names its selection -/
theorem debName_sel {q : MkLinux.Pkg} {s s' : Selection} {v v' : List Char} (hb : s.board = s'.board)
    (h : MkLinux.debName q s v = MkLinux.debName q s' v') : s = s' := by
  apply PKG_NAME_inj hb
  unfold MkLinux.debName at h
  simp only [List.append_assoc, List.append_right_inj, List.cons_append, List.cons.injEq, true_and] at h
  have h1 := congrArg (List.takeWhile (· ≠ '_')) h
  rwa [takeWhile_underscore (PKG_NAME_underscore _), takeWhile_underscore (PKG_NAME_underscore _)] at h1

/-- what stands behind the stem in a file name -/
def behind (s : Selection) (v : List Char) : List Char :=
  '-' :: MkLinux.PKG_NAME s.conf ++ '_' :: v ++ "_arm64.deb".toList

theorem debName_eq (g : Glob) (s : Selection) (v : List Char) : MkLinux.debName g.pkg s v = g.stem ++ behind s v := by
  unfold MkLinux.debName Glob.stem behind
  simp only [List.append_assoc]

theorem behind_deb (s : Selection) (v : List Char) : ".deb".toList <:+ behind s v := by
  have h1 : ".deb".toList <:+ "_arm64.deb".toList := by decide
  exact h1.trans (List.suffix_append _ _)

/-- a glob matches the package it is meant for -/
theorem hit_debName (g : Glob) (s : Selection) (v : List Char) : g.hit (MkLinux.debName g.pkg s v) = true := by
  rw [debName_eq, Glob.hit, List.drop_left, Bool.and_eq_true]
  exact ⟨List.isPrefixOf_iff_prefix.2 (List.prefix_append _ _), List.isSuffixOf_iff_suffix.2 (behind_deb s v)⟩

/-- and no other -/
theorem pkg_of_hit {g : Glob} {q : MkLinux.Pkg} {s : Selection} {v : List Char}
    (h : g.hit (MkLinux.debName q s v) = true) : q = g.pkg := by
  rw [Glob.hit, Bool.and_eq_true, List.isPrefixOf_iff_prefix] at h
  obtain ⟨⟨m, hm⟩, -⟩ := h
  unfold MkLinux.debName Glob.stem at hm
  simp only [List.append_assoc, List.append_right_inj] at hm
  have h1 := congrArg List.head? hm
  rw [MkLinux.part_head, MkLinux.part_head] at h1
  revert h1
  cases g <;> cases q <;> decide

/-! ## What holds between two runs -/

/-- the last call of `mklinux.sh` that has come to its end for a selection -/
def lastFor (l : List MkLinux.Completed) (s : Selection) : Option MkLinux.Completed := l.reverse.find? (·.sel = s)

@[simp] theorem lastFor_concat (l : List MkLinux.Completed) (c : MkLinux.Completed) (s : Selection) :
    lastFor (l ++ [c]) s = if c.sel = s then some c else lastFor l s := by
  unfold lastFor
  rw [List.reverse_append, List.reverse_singleton, List.singleton_append, List.find?_cons]
  by_cases h : c.sel = s <;> simp [h]

/-- the glob finds one package, whole: that of run `i` for the selection -/
def Finds (g : Glob) (s : Selection) (i : ℕ) (k : MkLinux.KernelPkgs) : Prop :=
  ∃ v, select g k = [⟨MkLinux.debName g.pkg s v, i, true⟩]

/-- the globs find the packages of the last completed run for the selection -/
def Current (s : Selection) (completed : List MkLinux.Completed) (k : MkLinux.KernelPkgs) : Prop :=
  ∃ c, lastFor completed s = some c ∧ ∀ g, Finds g s c.id k

/-- no two packages of a directory have one name -/
def Distinct (k : MkLinux.World) : Prop := ∀ b d, k.out b = some d → (d.debs.map (·.name)).Nodup

/-- **The package directories between two runs**: no two files of one name, and a marker that names a selection stands
beside the packages of the last completed run for it -/
structure Ledger (k : MkLinux.World) : Prop where
  distinct : Distinct k
  current : ∀ s d, k.out s.board = some d → d.done = some s.conf.LINUX_CONFIG → Current s k.completed d

theorem Ledger.congr {k k' : MkLinux.World} (h : Ledger k) (ho : k'.out = k.out) (hc : k'.completed = k.completed) :
    Ledger k' := by
  constructor
  · intro b d hd
    exact h.distinct b d (ho ▸ hd)
  · intro s d hd hn
    rw [hc]
    exact h.current s d (ho ▸ hd) hn

/-! ## One run of `mklinux.sh` -/

section Step

variable (p : MkLinux.Params) (e : MkLinux.Cmd → Resp)

/-- names stay distinct when a package is written -/
theorem add_nodup {k : MkLinux.KernelPkgs} {d : MkLinux.Deb} (h : (k.debs.map (·.name)).Nodup) :
    ((k.add d).debs.map (·.name)).Nodup := by
  simp only [MkLinux.KernelPkgs.add, List.map_append, List.map_cons, List.map_nil]
  apply List.Nodup.append
  · exact h.sublist (List.filter_sublist.map _)
  · exact List.nodup_singleton _
  · intro n hn hd
    rw [List.mem_singleton] at hd
    obtain ⟨d', hd', rfl⟩ := List.mem_map.1 hn
    simpa [hd] using List.mem_filter.1 hd'

/-- what a command can do to the packages of the board: they stay, or one is written -/
theorem out_cases {c : MkLinux.Cmd} {w : MkLinux.World} {d : MkLinux.KernelPkgs}
    (hd : (MkLinux.exec p e c w).2.out p.sel.board = some d) :
    d.debs = [] ∨ ∃ d', w.out p.sel.board = some d' ∧
      (d.debs = d'.debs ∨ ∃ q b, d.debs = (d'.add ⟨MkLinux.debName q p.sel p.AVA_VERSION, p.id, b⟩).debs) := by
  by_cases hc : c.packs = true
  swap
  · rw [MkLinux.exec_out p e w (by simpa using hc)] at hd
    exact Or.inr ⟨d, hd, Or.inl rfl⟩
  cases c <;> first
    | (simp [MkLinux.Cmd.packs] at hc; done)
    | skip
  case rmOut =>
    cases h : e .rmOut <;> simp [MkLinux.exec, h] at hd <;> exact Or.inr ⟨d, hd, Or.inl rfl⟩
  case mkdirOut =>
    cases h : e .mkdirOut <;> cases ho : w.out p.sel.board <;> simp [MkLinux.exec, h, ho] at hd
    · exact Or.inl (by rw [← hd])
    all_goals exact Or.inr ⟨_, rfl, Or.inl (by rw [← hd])⟩
  case dpkgDeb q =>
    rcases MkLinux.dpkgDeb_out p e q w with h | ⟨b, h⟩
    · exact Or.inr ⟨d, h ▸ hd, Or.inl rfl⟩
    · rw [h] at hd
      obtain ⟨d', hd', rfl⟩ := Option.map_eq_some_iff.1 hd
      exact Or.inr ⟨d', hd', Or.inr ⟨q, b, rfl⟩⟩
  case writeDone =>
    rcases MkLinux.writeDone_out p e w with h | ⟨t, h⟩
    · exact Or.inr ⟨d, h ▸ hd, Or.inl rfl⟩
    · rw [h] at hd
      obtain ⟨d', hd', rfl⟩ := Option.map_eq_some_iff.1 hd
      exact Or.inr ⟨d', hd', Or.inl rfl⟩

/-- names stay distinct, whatever a command does -/
theorem exec_distinct (c : MkLinux.Cmd) {w : MkLinux.World} (h : Distinct w) : Distinct (MkLinux.exec p e c w).2 := by
  intro b d hd
  by_cases hb : b = p.sel.board
  · subst hb
    rcases out_cases p e hd with h1 | ⟨d', hd', h1 | ⟨q, b, h1⟩⟩
    · simp [h1]
    · rw [h1]
      exact h _ d' hd'
    · rw [h1]
      exact add_nodup (h _ d' hd')
  · rw [MkLinux.exec_out_other p e w hb] at hd
    exact h b d hd

/-- no package of the board is matched by a glob under another name than the run gives its own -/
def Tidy (w : MkLinux.World) : Prop :=
  ∀ d, w.out p.sel.board = some d → ∀ g : Glob, ∀ x ∈ d.debs, g.hit x.name = true →
    x.name = MkLinux.debName g.pkg p.sel p.AVA_VERSION

theorem exec_tidy (c : MkLinux.Cmd) {w : MkLinux.World} (h : Tidy p w) : Tidy p (MkLinux.exec p e c w).2 := by
  intro d hd g x hx hh
  rcases out_cases p e hd with h1 | ⟨d', hd', h1 | ⟨q, b, h1⟩⟩ <;> rw [h1] at hx
  · simp at hx
  · exact h d' hd' g x hx hh
  · rcases List.mem_append.1 hx with hx | hx
    · exact h d' hd' g x (List.mem_of_mem_filter hx) hh
    · rw [List.mem_singleton] at hx
      subst hx
      rw [pkg_of_hit hh]

/-- what a glob finds where only packages of the run's own name are matched -/
theorem select_eq {d : MkLinux.KernelPkgs} {g : Glob} {x : MkLinux.Deb} (hn : (d.debs.map (·.name)).Nodup)
    (ht : ∀ y ∈ d.debs, g.hit y.name = true → y.name = x.name) (hx : x ∈ d.debs) (hg : g.hit x.name = true) :
    select g d = [x] := by
  have hall : ∀ y ∈ select g d, y = x := by
    intro y hy
    obtain ⟨h1, h2⟩ := List.mem_filter.1 hy
    exact List.inj_on_of_nodup_map hn h1 hx (ht y h1 h2)
  have hnd : (select g d).Nodup := (hn.of_map _).filter _
  have hmem : x ∈ select g d := List.mem_filter.2 ⟨hx, hg⟩
  rw [List.eq_replicate_of_mem hall] at hnd hmem ⊢
  have h1 := List.nodup_replicate.1 hnd
  have h2 : (select g d).length ≠ 0 := fun h => by simp [h] at hmem
  rw [show (select g d).length = 1 by omega]
  rfl

/-- **A run of `mklinux.sh` that fits its directory**: if it gets to `pack_kernel_packages`, no package of another target
or version lies in the directory, and if it then gets to `.done`, the packages that `pack.sh` installs are written -/
def Fits (w : MkLinux.World) : Prop :=
  MkLinux.ReachesPack p e w → Tidy p w ∧ (¬ MkLinux.Stopped p e w → ∀ g : Glob, e (.dpkgDeb g.pkg) = .ok)

theorem mklinux_distinct {w : MkLinux.World} (h : Distinct w) : Distinct (MkLinux.mklinux p e w).w :=
  run_inv (MkLinux.exec p e) Distinct _ (fun c _ _ h => exec_distinct p e c h) w h

theorem mklinux_other (w : MkLinux.World) {b : Board} (hb : b ≠ p.sel.board) :
    (MkLinux.mklinux p e w).w.out b = w.out b :=
  run_inv (MkLinux.exec p e) (fun w' => w'.out b = w.out b) _
    (fun _ _ w' h => (MkLinux.exec_out_other p e w' hb).trans h) w rfl

/-- a run that gets to `.done` leaves its own packages to the globs -/
theorem done_current {w : MkLinux.World} (hd : MkLinux.Done p e w) (hn : Distinct w)
    (ht : Tidy p w) (hq : ∀ g : Glob, e (.dpkgDeb g.pkg) = .ok) {d : MkLinux.KernelPkgs}
    (ho : (MkLinux.mklinux p e w).w.out p.sel.board = some d) :
    Current p.sel (MkLinux.mklinux p e w).w.completed d := by
  have hcomp : lastFor (MkLinux.mklinux p e w).w.completed p.sel = some ⟨p.id, p.sel, some (MkLinux.compiledConfig p w)⟩ := by
    rw [MkLinux.done_w p e w hd]
    simp
  have htidy : Tidy p (MkLinux.mklinux p e w).w := run_inv _ (Tidy p) _ (fun c _ _ h => exec_tidy p e c h) w ht
  refine ⟨_, hcomp, fun g => ⟨p.AVA_VERSION, ?_⟩⟩
  obtain ⟨d', hd', hm⟩ := MkLinux.hasDeb_of_done p e w hd (hq g)
  obtain rfl := Option.some.inj (hd'.symm.trans ho)
  exact select_eq (mklinux_distinct p e hn _ _ ho) (htidy _ ho g) hm (hit_debName g _ _)

/-- **One run of `mklinux.sh` keeps the directories in order** -/
theorem mklinux_ledger {w : MkLinux.World} (h : Ledger w) (hc : MkLinux.cached p.sel w = false) (hf : Fits p e w) :
    Ledger (MkLinux.mklinux p e w).w := by
  by_cases hr : MkLinux.ReachesPack p e w
  swap
  · obtain ⟨h1, h2⟩ := MkLinux.out_of_not_reached p e w hr
    exact h.congr h1 (MkLinux.completed_of_not_done p e w h2)
  obtain ⟨ht, hq⟩ := hf hr
  refine ⟨mklinux_distinct p e h.distinct, fun s d hd hn => ?_⟩
  by_cases hD : MkLinux.Done p e w
  · by_cases hs : s = p.sel
    · subst hs
      exact done_current p e hD h.distinct ht (hq ((MkLinux.done_iff p e w).1 hD)) hd
    · -- the marker of the run's own board names its own selection
      have hb : s.board ≠ p.sel.board := by
        intro hb
        have h1 := MkLinux.cached_iff.1 (MkLinux.cached_of_done p e w hD)
        rw [← hb, hd, Option.bind_some, hn] at h1
        exact hs (Selection.ext_config hb (Option.some.inj h1))
      rw [mklinux_other p e w hb] at hd
      obtain ⟨c, h1, h2⟩ := h.current s d hd hn
      refine ⟨c, ?_, h2⟩
      rw [MkLinux.done_w p e w hD]
      simpa [Ne.symm hs] using h1
  · -- the marker was there before the run
    have hcs : MkLinux.cached s w = true := MkLinux.guard_of_not_done p e w hD s (by
      rw [MkLinux.cached_iff, hd]
      exact hn)
    rw [MkLinux.cached_iff] at hcs
    obtain ⟨d0, hd0, hn0⟩ := Option.bind_eq_some_iff.1 hcs
    have hcur := h.current s d0 hd0 hn0
    by_cases hb : s.board = p.sel.board
    · -- its packages are not the run's own: the run does not get this far
      obtain ⟨c, -, hg⟩ := hcur
      obtain ⟨v, hv⟩ := hg .image
      have hx : (⟨MkLinux.debName .image s v, c.id, true⟩ : MkLinux.Deb) ∈ select .image d0 := by
        rw [hv]
        simp [Glob.pkg]
      obtain ⟨hx, hh⟩ := List.mem_filter.1 hx
      have hname := ht d0 (hb ▸ hd0) .image _ hx hh
      have hs : s = p.sel := debName_sel hb hname
      subst hs
      rw [MkLinux.cached_iff.2 hcs] at hc
      simp at hc
    · rw [mklinux_other p e w hb, hd0] at hd
      obtain rfl := Option.some.inj hd
      rwa [MkLinux.completed_of_not_done p e w hD]

end Step

/-! ## All runs -/

/-- what `pack.sh` finds: each glob matches one package, whole, of the requested board and target, and written by the
last completed run of `mklinux.sh` for them -/
def Serves (q : Packing) : Prop := ∃ d, q.pkgs = some d ∧ Current q.sel q.completed d

/-- a run whose call of `mklinux.sh`, if it makes one, fits its directory -/
def KeepsOrder (r : Request) (env : Env) (w : Workspace) : Prop :=
  CallsMklinux r env w → Fits (r.linuxParams (afterFront r w)) env.linux (afterFront r w).kernel

/-- the workspace between two runs -/
structure InOrder (w : Workspace) : Prop where
  ledger : Ledger w.kernel
  packings : ∀ q ∈ w.packings, Serves q

section Run

variable (r : Request) (env : Env) {w : Workspace}

theorem afterFront_ledger (h : Ledger w.kernel) : Ledger (afterFront r w).kernel :=
  h.congr (afterFront_beside r w).kernel.out (afterFront_beside r w).kernel.completed

theorem linuxed_ledger (h : Ledger w.kernel) (hk : KeepsOrder r env w) (hc : CallsMklinux r env w) :
    Ledger (linuxed r env (afterFront r w)).kernel := by
  apply mklinux_ledger _ _ (afterFront_ledger r h)
  · exact (cached_afterFront r w).trans hc.uncached
  · exact hk hc

theorem afterKernel_ledger (h : Ledger w.kernel) (hk : KeepsOrder r env w) (hr : KernelOk r env w) :
    Ledger (afterKernel r env w).kernel := by
  unfold afterKernel
  split_ifs with hc
  · exact afterFront_ledger r h
  · have hc : MkLinux.cached r.sel w.kernel = false := by simpa using hc
    exact linuxed_ledger r env h hk ⟨hr.front, hc, (hr.kernel hc).1⟩

theorem afterKernel_packings : (afterKernel r env w).packings = w.packings := by
  have h := (afterFront_beside r w).packings
  unfold afterKernel
  split_ifs <;> exact h

/-- a directory in order serves a run that takes its packages as built -/
theorem serves_of_cached {u : Workspace} (h : Ledger u.kernel) (hc : MkLinux.cached r.sel u.kernel = true) :
    Serves (r.packing u) := by
  rw [MkLinux.cached_iff] at hc
  obtain ⟨d, hd, hn⟩ := Option.bind_eq_some_iff.1 hc
  exact ⟨d, hd, h.current r.sel d hd hn⟩

/-- **One run keeps the workspace in order** -/
theorem build_all_inOrder (h : InOrder w) (hk : KeepsOrder r env w) : InOrder (build_all r env w).w := by
  rcases build_all_kernel r env w with ⟨hr, hkept⟩ | ⟨-, hb | ⟨hc, hw⟩⟩
  · have hl := afterKernel_ledger r env h.ledger hk hr
    refine ⟨by rw [hkept.kernel]; exact hl, fun q hq => ?_⟩
    rcases hkept.packings q hq with hq | ⟨u, hu, rfl⟩
    · rw [afterKernel_packings] at hq
      exact h.packings q hq
    · apply serves_of_cached
      · rw [hu]; exact hl
      · rw [hu]; exact afterKernel_cached r env hr
  · refine ⟨h.ledger.congr hb.kernel.out hb.kernel.completed, fun q hq => ?_⟩
    rw [hb.packings] at hq
    exact h.packings q hq
  · rw [hw]
    refine ⟨linuxed_ledger r env h.ledger hk hc, fun q hq => ?_⟩
    have hp : (linuxed r env (afterFront r w)).packings = w.packings := (afterFront_beside r w).packings
    rw [hp] at hq
    exact h.packings q hq

end Run

theorem fresh_inOrder : InOrder fresh := by
  refine ⟨⟨?_, ?_⟩, ?_⟩
  · intro b d hd
    simp [fresh] at hd
  · intro s d hd
    simp [fresh] at hd
  · intro q hq
    simp [fresh] at hq

/-- **In every sequence of runs that keep the directories in order, `pack.sh` installs the kernel it was asked for**:
whenever it runs, each of its globs matches exactly one package, that of the last completed run for the board and
target -/
theorem globs_serve (l : List Call) (hl : Each step (fun w c => KeepsOrder c.request c.env w) fresh l) :
    ∀ q ∈ (runs step fresh l).packings, Serves q := by
  have h : InOrder (runs step fresh l) :=
    runs_inv (I := InOrder) (fun _ c hw hc => build_all_inOrder c.request c.env hw hc) fresh_inOrder hl
  exact h.packings

/-! ## Two targets of one board -/

/-- the C1 with its vendor kernel, and with the mainline kernel -/
def bsp : Selection := ⟨.avaotaC1, "bsp", ⟨"sun50i_h618_bsp_defconfig", "none"⟩, Board.linuxConf_c1_bsp⟩

def mainline : Selection := ⟨.avaotaC1, "mainline", ⟨"sun50i_mainline_defconfig", "avaota-c1-6.6.0"⟩, Board.linuxConf_c1_mainline⟩

/-- a request for jammy without a desktop; there are no patches for its kernel -/
def request (s : Selection) : Request where
  linux := ⟨s, "0.3.0.4".toList, false, 0, none, false, true, false, [true, false]⟩
  version := .jammy
  type := .cli
  kernelOnly := false
  useLocal := false
  reclone := false
  resolved := true
  bootDir := false
  canonical := true
  cutTaken := false

/-- the mainline kernel comes from another repository, with patches and files of its own -/
def mainlineRequest : Request :=
  { request mainline with linux := { (request mainline).linux with patches := some 11, files := true }, reclone := true }

/-- every command succeeds -/
def works : Env := ⟨fun _ => .ok, fun _ => .ok, fun _ => .ok, fun _ => .ok⟩

/-- two builds of one target, nothing fails: the second takes the packages of the first -/
theorem globs_serve_twice :
    (runs step fresh [⟨request bsp, works⟩, ⟨request bsp, works⟩]).packings.length = 2 ∧
      ∀ q ∈ (runs step fresh [⟨request bsp, works⟩, ⟨request bsp, works⟩]).packings, Serves q := by
  refine ⟨by decide, ?_⟩
  apply globs_serve
  have hc : MkLinux.cached bsp (step fresh ⟨request bsp, works⟩).kernel = true := by decide
  refine ⟨fun _ _ => ⟨?_, fun _ _ => rfl⟩, fun h => ?_, trivial⟩
  · -- the directory does not exist yet
    intro d hd
    simp [afterFront, fetched, fresh, request] at hd
  · exact absurd (hc.symm.trans h.uncached) (by simp)

/-- **After a build of the other target both kernels lie in the directory**: every command of both runs succeeds, and in
the second one the glob of the image matches the packages of both targets -/
theorem mainline_after_bsp :
    ¬ ∀ q ∈ (runs step fresh [⟨request bsp, works⟩, ⟨mainlineRequest, works⟩]).packings, Serves q := by
  intro h
  have hlen : ((runs step fresh [⟨request bsp, works⟩, ⟨mainlineRequest, works⟩]).packings.map
      fun q => (q.pkgs.map fun d => (select .image d).length)) = [some 1, some 2] := by decide
  obtain ⟨q, hq, h2⟩ := List.mem_map.1 (hlen ▸ List.mem_cons_of_mem _ (List.mem_singleton_self _) : some 2 ∈ _)
  obtain ⟨d, hd, c, -, hg⟩ := h q hq
  obtain ⟨v, hv⟩ := hg .image
  rw [hd, Option.map_some, hv] at h2
  simp at h2

end AvaotaOS.BuildAll
