/-
Whose configuration the packed root file system carries, over any number of successful runs of `build_all.sh`.

The archive `rootfs-${VERSION}-${TYPE}.tar.gz` holds the host name, the network, the display and the wireless settings of the
board it was built for, and its name says neither which board that is nor that it matters: the archives are a cache over
distribution and desktop (`Memo.memo`).

- `archives_memo`: after successful runs each archive is the one that the first run for its distribution and desktop built.
- `archives_own_iff`: every packed archive carries the configuration of the board it is packed for exactly where runs for one
  distribution and desktop are for one board.
- `c1_after_a1`: the A1 and then the C1, and the image of the C1 gets the root file system of the A1.
-/
import Mathlib.Tactic
import AvaotaOS.Core.Memo
import AvaotaOS.Build.RootfsStage
import AvaotaOS.Build.ConfigOrigin

namespace AvaotaOS.BuildAll

open Shell History Memo

/-! ## What a run caches -/

/-- a run with status 0 -/
def Succeeds (w : Workspace) (c : Call) : Prop := (build_all c.request c.env w).stat = .ok

instance (w : Workspace) (c : Call) : Decidable (Succeeds w c) := inferInstanceAs (Decidable (_ = _))

/-- the runs that pack an image -/
def packers (l : List Call) : List Call := l.filter fun c => !c.request.kernelOnly

def Call.key (c : Call) : MkRootfs.Key := c.request.key

/-- the files that `mkrootfs.sh` leaves in the root file system of this run -/
def Call.files (c : Call) : List MkRootfs.File := MkRootfs.wholeFiles c.request.rootfsParams

/-- the archives after a list of runs, as a cache -/
abbrev cache (l : List Call) : MkRootfs.Key → Option (List MkRootfs.File) := memo Call.key Call.files (packers l)

/-- an archive that `mkrootfs.sh` has made from an empty workspace: nothing of the host was mounted in its directory -/
structure Clean (a : MkRootfs.Archive) : Prop where
  complete : a.complete = true
  nested : a.dir.nested = none
  mounts : a.dir.any = false

/-- the archive holds these files -/
def HoldsFiles (o : Option MkRootfs.Archive) (f : Option (List MkRootfs.File)) : Prop :=
  o.map (·.dir.top.files) = f ∧ ∀ a, o = some a → Clean a

/-- a call of `pack.sh` that finds the archive with these files -/
structure Served (c : Call) (f : Option (List MkRootfs.File)) (q : Packing) : Prop where
  sel : q.sel = c.request.sel
  version : q.version = c.request.version
  type : q.type = c.request.type
  archive : HoldsFiles q.archive f
  found : f ≠ none

/-- **The workspace after successful runs**: no tree is left over, the archives are the cache, and `pack.sh` has been given
what the cache holds -/
structure Caches (l : List Call) (w : Workspace) : Prop where
  rootfs : w.rootfs.rootfs = none
  renamed : ∀ k, w.rootfs.renamed k = none
  archive : ∀ k, HoldsFiles (w.rootfs.archive k) (cache l k)
  packings : List.Forall₂ (fun c q => Served c (cache l c.key) q) (packers l) w.packings

theorem fresh_caches : Caches [] fresh := by
  refine ⟨rfl, fun _ => rfl, fun k => ⟨rfl, ?_⟩, .nil⟩
  intro a ha
  simp [fresh] at ha

/-! ## One run -/

section Step

variable {l : List Call} {w : Workspace} (c : Call)

theorem packers_concat : packers (l ++ [c]) = packers l ++ if c.request.kernelOnly then [] else [c] := by
  cases h : c.request.kernelOnly <;> simp [packers, h]

/-- what has been packed stays as it is -/
theorem Served.mono {c : Call} {l : List Call} {q : Packing} (h : Served c (cache l c.key) q) (d : Call) :
    Served c (cache (l ++ [d]) c.key) q := by
  have hsame : cache (l ++ [d]) c.key = cache l c.key := by
    rw [cache, packers_concat]
    cases hd : d.request.kernelOnly with
    | true => simp
    | false =>
      obtain ⟨f, hf⟩ := Option.ne_none_iff_exists'.1 h.found
      rw [if_neg (by simp), memo_concat, fill_of_some _ _ hf, hf]
  rw [hsame]
  exact h

/-- **One successful run** -/
theorem step_caches (h : Caches l w) (hs : Succeeds w c) : Caches (l ++ [c]) (step w c) := by
  have hold : List.Forall₂ (fun d q => Served d (cache (l ++ [c]) d.key) q) (packers l) w.packings :=
    h.packings.imp fun _ _ hq => hq.mono c
  rcases build_all_success c.request c.env hs with ⟨hk, hr, hp⟩ | ⟨hk, hready, ⟨q, hq, hp⟩, hr⟩
  · -- only the kernel
    have hl : packers (l ++ [c]) = packers l := by rw [packers_concat, if_pos hk, List.append_nil]
    have hc : cache (l ++ [c]) = cache l := by rw [cache, hl]
    have hr : (step w c).rootfs = w.rootfs := hr
    have hp : (step w c).packings = w.packings := hp
    refine ⟨?_, fun k => ?_, fun k => ?_, ?_⟩
    · rw [hr]
      exact h.rootfs
    · rw [hr]
      exact h.renamed k
    · rw [hr, hc]
      exact h.archive k
    · rw [hl, hp]
      exact hold
  · have hl : packers (l ++ [c]) = packers l ++ [c] := by
      rw [packers_concat, if_neg (by simp [hk])]
    have hc : cache (l ++ [c]) = fill Call.key Call.files (cache l) c := by rw [cache, hl, memo_concat]
    obtain ⟨a, ha, -⟩ := hready
    have harchives : (step w c).rootfs.rootfs = none ∧ (∀ k, (step w c).rootfs.renamed k = none) ∧
        ∀ k, HoldsFiles ((step w c).rootfs.archive k) (cache (l ++ [c]) k) := by
      rcases hr with hr | ⟨h1, h2, h3, h4⟩
      · -- the archive was there
        have hr : (step w c).rootfs = w.rootfs := hr
        have hfound : cache l c.key ≠ none := by
          rw [← (h.archive c.key).1, ← hr]
          have ha : (step w c).rootfs.archive c.key = some a := ha
          simp [ha]
        rw [hr, hc, fill_found _ _ hfound]
        exact ⟨h.rootfs, h.renamed, h.archive⟩
      · -- it has been made by this run
        obtain ⟨t, ht⟩ := MkRootfs.mkrootfs_ok _ _ _ h3
        have h4 : (step w c).rootfs = (called c.request c.env w.rootfs).w := h4
        have hmissing : cache l c.key = none := by
          rw [← (h.archive c.key).1]
          have h1 : w.rootfs.archive c.key = none := h1
          simp [h1]
        rw [h4, hc, fill_missing _ _ hmissing]
        refine ⟨ht.rootfs, fun k => ?_, fun k => ?_⟩
        · rw [ht.renamed]
          by_cases hk : k = c.request.rootfsParams.key
          · rw [hk, Function.update_self]
          · rw [Function.update_of_ne hk]
            exact h.renamed k
        · have hmoved : MkRootfs.moveInto ((mkdirred w.rootfs).renamed c.request.rootfsParams.key) t = ⟨t, none⟩ := by
            have hn : (mkdirred w.rootfs).renamed c.request.rootfsParams.key = none := h.renamed _
            rw [hn, MkRootfs.moveInto]
          have hmounts := ht.mounts
          rw [hmoved] at hmounts
          rw [ht.archive, hmoved]
          by_cases hk : k = c.key
          · subst hk
            have hself : c.key = c.request.rootfsParams.key := rfl
            rw [Function.update_self, hself, Function.update_self]
            refine ⟨congrArg some ht.whole, fun b hb => ?_⟩
            obtain rfl := Option.some.inj hb
            exact ⟨rfl, rfl, hmounts⟩
          · have hk' : k ≠ c.request.rootfsParams.key := hk
            rw [Function.update_of_ne hk, Function.update_of_ne hk']
            exact h.archive k
    obtain ⟨h1, h2, h3⟩ := harchives
    refine ⟨h1, h2, h3, ?_⟩
    have hp : (step w c).packings = w.packings ++ [q] := hp
    rw [hl, hp]
    refine List.rel_append hold (.cons ⟨hq.sel, hq.version, hq.type, ?_, ?_⟩ .nil)
    · rw [hq.archive]
      exact h3 c.key
    · rw [hc]
      exact fill_self _ _ _ c

end Step

/-! ## All successful runs -/

theorem runs_caches {l : List Call} (hl : Each step Succeeds fresh l) : Caches l (runs step fresh l) := by
  induction l using List.reverseRecOn with
  | nil => exact fresh_caches
  | append_singleton l c ih =>
    obtain ⟨h1, h2⟩ := each_concat.1 hl
    rw [runs_concat]
    exact step_caches c (ih h1) h2

/-- **The archives are a cache over distribution and desktop**: after any sequence of successful runs an archive is there
exactly where a run has packed for its key, it is complete, and it holds what the first such run has built -/
theorem archives_memo (l : List Call) (hl : Each step Succeeds fresh l) (k : MkRootfs.Key) :
    HoldsFiles ((runs step fresh l).rootfs.archive k) (((packers l).find? (·.key = k)).map Call.files) := by
  have h := (runs_caches hl).archive k
  rwa [cache, memo_eq] at h

/-- a second board does not change the archive -/
theorem archives_memo_two :
    HoldsFiles ((runs step fresh [⟨request a1, works⟩, ⟨request bsp, works⟩]).rootfs.archive (.jammy, .cli))
      (some (Call.files ⟨request a1, works⟩)) := by
  apply archives_memo [⟨request a1, works⟩, ⟨request bsp, works⟩]
  exact ⟨by decide, by decide, trivial⟩

/-- the archive that `pack.sh` finds is complete, was made with nothing mounted in its directory, and carries the configuration
of the board it is packed for -/
def Own (q : Packing) : Prop :=
  ∃ a, q.archive = some a ∧ Clean a ∧ a.dir.top.files = MkRootfs.wholeFiles ⟨q.sel.board, q.version, q.type, false, false⟩

/-- the archive of a run is its own exactly where it holds what the run would have built -/
theorem own_iff {c : Call} {f : Option (List MkRootfs.File)} {q : Packing} (h : Served c f q) : Own q ↔ f = some c.files := by
  have hfiles : MkRootfs.wholeFiles ⟨q.sel.board, q.version, q.type, false, false⟩ = c.files := by
    apply MkRootfs.wholeFiles_congr
    · rw [h.sel]
      rfl
    · rw [h.version, h.type]
      rfl
  constructor
  · rintro ⟨a, ha, -, hf⟩
    rw [← h.archive.1, ha, ← hfiles, ← hf]
    rfl
  · intro hf
    obtain ⟨a, ha, hc⟩ := Option.map_eq_some_iff.1 (h.archive.1.trans hf)
    exact ⟨a, ha, h.archive.2 a ha, by rw [hfiles, hc]⟩

/-- what a run builds tells its board -/
theorem files_eq_iff {c d : Call} (hk : c.key = d.key) : c.files = d.files ↔ c.request.board = d.request.board :=
  ⟨MkRootfs.board_of_whole, fun hb => MkRootfs.wholeFiles_congr hb hk⟩

theorem forall_mem_congr {α β : Type} {R : α → β → Prop} {P : α → Prop} {Q : β → Prop} {l : List α} {m : List β}
    (h : List.Forall₂ R l m) (hiff : ∀ a b, R a b → (Q b ↔ P a)) : (∀ b ∈ m, Q b) ↔ ∀ a ∈ l, P a := by
  induction h with
  | nil => simp
  | cons hab _ ih => rw [List.forall_mem_cons, List.forall_mem_cons, hiff _ _ hab, ih]

/-- **In a sequence of successful runs every packed root file system carries the configuration of the board it is packed for
exactly where the runs that pack one distribution and desktop are all for one board** -/
theorem archives_own_iff (l : List Call) (hl : Each step Succeeds fresh l) :
    (∀ q ∈ (runs step fresh l).packings, Own q) ↔
      ∀ c ∈ packers l, ∀ d ∈ packers l, c.key = d.key → c.request.board = d.request.board := by
  have h := (runs_caches hl).packings
  have hown : (∀ q ∈ (runs step fresh l).packings, Own q) ↔ ∀ c ∈ packers l, cache l c.key = some c.files :=
    forall_mem_congr h fun _ _ => own_iff
  rw [hown, transparent_iff]
  constructor
  · intro hall c hc d hd hk
    exact (files_eq_iff hk).1 (hall c hc d hd hk)
  · intro hall c hc d hd hk
    exact (files_eq_iff hk).2 (hall c hc d hd hk)

/-! ## Two boards -/

/-- **The image of the C1 is packed from the archive of the A1**: both runs for jammy and no desktop, and nothing fails -/
theorem c1_after_a1 : ¬ ∀ q ∈ (runs step fresh [⟨request a1, works⟩, ⟨request bsp, works⟩]).packings, Own q := by
  have hl : Each step Succeeds fresh [⟨request a1, works⟩, ⟨request bsp, works⟩] := ⟨by decide, by decide, trivial⟩
  rw [archives_own_iff _ hl]
  intro h
  have hboard := h ⟨request a1, works⟩ (by simp [packers, request]) ⟨request bsp, works⟩ (by simp [packers, request]) rfl
  exact absurd hboard (by decide)

end AvaotaOS.BuildAll
