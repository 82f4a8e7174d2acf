/-
What one call of `mkrootfs.sh` leaves behind, wherever it is stopped.

The tree is moved to `rootfs-${VERSION}-${TYPE}` only behind every step of its setup, and the archive is made of that
directory: `Left` lists the states a call can end in. Where an earlier call has left a directory of that name, `mv` puts the
new tree inside it, and the archive holds the old tree at its top.

Results:
- `mkrootfs_left`: whatever the environment answers, the call ends in one of the states of `Left`.
- `mkrootfs_ok`: status 0 is the last of them: the archive is whole, and nothing else of the call is left.
- `mkrootfs_sound`: a call without an archive to begin with keeps the archives made of trees that went through the setup.
-/
import Mathlib.Tactic
import AvaotaOS.Core.Triple
import AvaotaOS.Rootfs.MkRootfs

namespace AvaotaOS.MkRootfs

open Shell

/-! ## A tree that has gone through every step -/

/-- the files of a tree that has gone through the setup for its board -/
def wholeFiles (p : Params) : List File :=
  .base p.version p.type :: (boardConf p ++ setup_firstrun).flatMap (puts p) ++
    [.hosts p.board.BOARD_NAME, .hostname p.board.BOARD_NAME, .fstab]

/-- what stands at `rootfs-${VERSION}-${TYPE}` after `mv ${ROOTFS} rootfs-${VERSION}-${TYPE}` -/
def moveInto (o : Option Renamed) (t : Tree) : Renamed :=
  match o with
  | none => ⟨t, none⟩
  | some d => ⟨d.top, some t⟩

/-- the archives and the renamed trees are as they were -/
structure Kept (v w : World) : Prop where
  renamed : w.renamed = v.renamed
  archive : w.archive = v.archive

/-- the tree has been moved away whole -/
structure Moved (p : Params) (v : World) (t : Tree) (w : World) : Prop where
  whole : t.files = wholeFiles p
  /-- no tree had been moved inside before -/
  room : ∀ d, v.renamed p.key = some d → d.nested = none
  rootfs : w.rootfs = none
  renamed : w.renamed = Function.update v.renamed p.key (some (moveInto (v.renamed p.key) t))

/-- the archive is made and the moved tree removed -/
structure Removed (p : Params) (v : World) (t : Tree) (w : World) : Prop where
  whole : t.files = wholeFiles p
  room : ∀ d, v.renamed p.key = some d → d.nested = none
  mounts : (moveInto (v.renamed p.key) t).any = false
  rootfs : w.rootfs = none
  renamed : w.renamed = Function.update v.renamed p.key none
  archive : w.archive = Function.update v.archive p.key (some ⟨moveInto (v.renamed p.key) t, true⟩)

/-- where a call that started in `v` can leave off -/
inductive Left (p : Params) (v : World) : World → Prop where
  | before {w : World} (h : Kept v w) : Left p v w
  | moved {w : World} (t : Tree) (h : Moved p v t w) (ha : w.archive = v.archive) : Left p v w
  | tarred {w : World} (t : Tree) (complete : Bool) (h : Moved p v t w)
      (ha : w.archive = Function.update v.archive p.key (some ⟨moveInto (v.renamed p.key) t, complete⟩)) : Left p v w
  | removed {w : World} (t : Tree) (h : Removed p v t w) : Left p v w

/-- between the rename and the archive -/
def Renaming (p : Params) (v w : World) : Prop := ∃ t, Moved p v t w ∧ w.archive = v.archive

/-- between the archive and the removal of the renamed tree -/
def Archived (p : Params) (v w : World) : Prop :=
  ∃ t, Moved p v t w ∧ w.archive = Function.update v.archive p.key (some ⟨moveInto (v.renamed p.key) t, true⟩)

/-- the tree at `ROOTFS` holds these files -/
def Holds (l : List File) (w : World) : Prop := ∃ t, w.rootfs = some t ∧ t.files = l

/-! ## The commands -/

section Commands

variable (p : Params) (env : Cmd → Resp)

/-- a command that succeeds does what it does where nothing fails -/
theorem exec_nominal {c : Cmd} (h : env c = .ok) (w : World) : exec p env c w = exec p (fun _ => .ok) c w := by
  unfold exec
  rw [h]

/-- the commands that touch an archive or a renamed tree -/
def Cmd.outside : Cmd → Bool
  | .mv | .tar | .rmRenamed => true
  | _ => false

theorem onRootfs_kept {v w : World} (h : Kept v w) (f : Tree → Tree) : Kept v (w.onRootfs f) := ⟨h.renamed, h.archive⟩

theorem put_kept {v w : World} (h : Kept v w) (l : List File) : Kept v (w.put l) := onRootfs_kept h _

theorem rmTree_kept (r : Resp) {v w : World} (h : Kept v w) : Kept v (rmTree r w).2 := by
  unfold rmTree
  split
  · exact h
  · split
    · exact ⟨h.renamed, h.archive⟩
    · split
      · exact ⟨h.renamed, h.archive⟩
      · dsimp only
        split
        · exact onRootfs_kept h _
        · exact h

theorem exec_kept {c : Cmd} (hc : c.outside = false) {v w : World} (h : Kept v w) : Kept v (exec p env c w).2 := by
  unfold exec
  split
  · exact rmTree_kept _ h
  · exact ⟨h.renamed, h.archive⟩
  · exact onRootfs_kept h _
  · exact onRootfs_kept h _
  · exact onRootfs_kept h _
  · exact onRootfs_kept h _
  · simp [Cmd.outside] at hc
  · simp [Cmd.outside] at hc
  · simp [Cmd.outside] at hc
  · dsimp only
    split
    · exact onRootfs_kept h _
    · exact h

theorem inside_kept {c : Cmd} (hc : c.inside = true) {v w : World} (h : Kept v w) : Kept v (exec p env c w).2 := by
  apply exec_kept p env _ h
  cases c <;> first | rfl | simp [Cmd.inside] at hc

theorem put_holds {m l : List File} {w : World} (h : Holds m w) : Holds (m ++ l) (w.put l) := by
  obtain ⟨t, ht, rfl⟩ := h
  exact ⟨{ t with files := t.files ++ l }, by simp [World.put, World.onRootfs, ht], rfl⟩

theorem onRootfs_holds {m : List File} {w : World} (h : Holds m w) (f : Tree → Tree) (hf : ∀ t, (f t).files = t.files) :
    Holds m (w.onRootfs f) := by
  obtain ⟨t, ht, rfl⟩ := h
  exact ⟨f t, by simp [World.onRootfs, ht], hf t⟩

/-- the commands whose whole effect is what they write -/
def Cmd.plain : Cmd → Bool
  | .mmdebstrap | .aptList _ | .cpResolv | .dhcp _ | .board _ | .firstrun _ | .catRelease | .sedSshd => true
  | .aptClean | .lnResolv | .rmQemu | .printfHosts | .echoHostname | .echoSudoers | .catFstab => true
  | _ => false

theorem plain_exec {c : Cmd} (hc : c.plain = true) (w : World) :
    (exec p env c w).2 = if env c = .ok ∨ (env c).part then w.put (puts p c) else w := by
  cases c <;> first
    | rfl
    | simp [Cmd.plain] at hc

/-- a command that writes none of the files the model knows of -/
theorem idle_holds {c : Cmd} (hc : c.plain = true) (hp : puts p c = []) {m : List File} {w : World} (h : Holds m w) :
    Holds m (exec p env c w).2 := by
  rw [plain_exec p env hc, hp]
  split
  · have hput := put_holds h (l := [])
    rwa [List.append_nil] at hput
  · exact h

theorem plain_ok {c : Cmd} (hc : c.plain = true) {m : List File} {w : World} (h : Holds m w) :
    Holds (m ++ puts p c) (exec p (fun _ => .ok) c w).2 := by
  rw [plain_exec p _ hc, if_pos (Or.inl rfl)]
  exact put_holds h

/-- a block of them -/
theorem plain_block {l : List Cmd} (hl : ∀ c ∈ l, c.plain = true) {m : List File} {w : World} (h : Holds m w) :
    Holds (m ++ l.flatMap (puts p)) (effect (exec p fun _ => .ok) l w) := by
  induction l generalizing m w with
  | nil => simpa using h
  | cons c l ih =>
    have hc := plain_ok p (hl c List.mem_cons_self) h
    have hrest := ih (fun d hd => hl d (List.mem_cons_of_mem c hd)) hc
    rwa [List.append_assoc] at hrest

end Commands

/-! ## The setup -/

section Setup

variable (p : Params) (env : Cmd → Resp)

/-- `/etc/hostname` and `/etc/fstab` are emptied before they are written -/
def File.emptied : File → Bool
  | .hostname _ | .fstab => true
  | _ => false

/-- the setup before the host name -/
def firstSteps : List Cmd := boardConf p ++ setup_firstrun ++ clean_rootfs p

theorem firstSteps_plain {c : Cmd} (hc : c ∈ firstSteps p) : c.plain = true ∧ ∀ f ∈ puts p c, f.emptied = false := by
  simp only [firstSteps, boardConf, clean_rootfs, List.mem_append, List.mem_map] at hc
  rcases hc with (hc | hc) | hc
  · rcases hc with ⟨s, -, rfl⟩ | ⟨s, -, rfl⟩
    · cases s <;> simp [Cmd.plain, puts, File.emptied]
    · simp [Cmd.plain, puts, File.emptied]
  · simp only [setup_firstrun, List.mem_append, List.mem_map, List.mem_cons, List.not_mem_nil, or_false] at hc
    rcases hc with ⟨s, -, rfl⟩ | rfl | rfl <;> simp [Cmd.plain, puts, File.emptied]
  · rcases hc with (hc | hc) | hc
    · rw [List.mem_singleton] at hc
      subst hc
      simp [Cmd.plain, puts]
    · split at hc
      · rw [List.mem_singleton] at hc
        subst hc
        simp [Cmd.plain, puts]
      · simp at hc
    · rw [List.mem_singleton] at hc
      subst hc
      simp [Cmd.plain, puts]

theorem puts_clean : (clean_rootfs p).flatMap (puts p) = [] := by
  cases hr : p.resolved <;> simp [clean_rootfs, hr, puts]

/-- the last steps, on a tree in which neither file has been written yet -/
theorem hostname_fstab {m : List File} (hm : ∀ f ∈ m, f.emptied = false) {w : World} (h : Holds m w) :
    Holds (m ++ [.hosts p.board.BOARD_NAME, .hostname p.board.BOARD_NAME, .fstab])
      (effect (exec p fun _ => .ok) setup_hostname_fstab w) := by
  obtain ⟨t, ht, rfl⟩ := h
  refine ⟨{ t with files := t.files ++ [.hosts p.board.BOARD_NAME, .hostname p.board.BOARD_NAME, .fstab] }, ?_, rfl⟩
  simp [setup_hostname_fstab, exec, World.put, World.onRootfs, puts, ht, Resp.stat]
  -- what stands before them is not emptied
  intro f hf
  have hn := hm f hf
  cases f <;> simp [File.emptied] at hn ⊢

/-- **The setup, where nothing fails** -/
theorem setup_whole {w : World} (h : Holds [.base p.version p.type] w) :
    Holds (wholeFiles p) (effect (exec p fun _ => .ok) (setup p) w) := by
  have hfirst := plain_block p (fun c hc => (firstSteps_plain p hc).1) h
  have hm : ∀ f ∈ [.base p.version p.type] ++ (firstSteps p).flatMap (puts p), f.emptied = false := by
    intro f hf
    rcases List.mem_append.1 hf with hf | hf
    · rw [List.mem_singleton] at hf
      subst hf
      rfl
    · obtain ⟨c, hc, hfc⟩ := List.mem_flatMap.1 hf
      exact (firstSteps_plain p hc).2 f hfc
  have hlast := hostname_fstab p hm hfirst
  have hfiles : [.base p.version p.type] ++ (firstSteps p).flatMap (puts p) ++
      [.hosts p.board.BOARD_NAME, .hostname p.board.BOARD_NAME, .fstab] = wholeFiles p := by
    rw [firstSteps, List.flatMap_append, puts_clean, List.append_nil]
    rfl
  rw [hfiles, ← effect_append] at hlast
  exact hlast

/-- under errexit the setup gets through only where every command has succeeded -/
theorem setup_triple (v : World) :
    Triple (exec p env) (fun w => Kept v w ∧ Holds [.base p.version p.type] w) (block (setup p))
      (fun w => Kept v w ∧ Holds (wholeFiles p) w) (Left p v) := by
  have hkept : Triple (exec p env) (Kept v) (block (setup p)) (Kept v) (Kept v) := by
    apply Triple.inv (strict_block _)
    intro c hc w hw
    rw [cmds_block] at hc
    exact inside_kept p env (setup_inside hc) hw
  have hholds : Triple (exec p env) (Holds [.base p.version p.type]) (block (setup p)) (Holds (wholeFiles p)) fun _ => True := by
    apply Triple.block (D := fun c w => (exec p (fun _ => .ok) c w).2)
    · intro c hc w hok
      rw [inside_stat p env (setup_inside hc)] at hok
      rw [exec_nominal p env (Resp.stat_ok.1 hok)]
    · intro w hw
      exact setup_whole p hw
  exact (hkept.both hholds).conseq (fun _ h => h) (fun _ h => h) fun _ h => .before h.1

end Setup

/-! ## The script -/

section Script

variable (p : Params) (env : Cmd → Resp) (v : World)

/-- the script behind its `set -e` -/
def body : Sh Cmd World :=
  .seq (.seq (block (sources p)) (.seq (.cond (·.rootfs.isSome) (.cmd .rmRootfs) .tt) (block (debootstrap p))))
    (.seq (block setup_mount_resolv) (.onExit (UMOUNT_ALL p .trap) (trapped p)))

theorem mkrootfs_eq (w : World) :
    mkrootfs p env w = eval (exec p env) false (body p) { start Cmd w with e := true } := rfl

theorem sources_outside {c : Cmd} (hc : c ∈ sources p) : c.outside = false := by
  unfold sources at hc
  split at hc <;> simp at hc <;> rcases hc with rfl | rfl | rfl | rfl | rfl | rfl <;> rfl

/-- an old `ROOTFS` goes, and the new one gets the packages of the distribution -/
theorem prepare_triple :
    Triple (exec p env) (Kept v)
      (.seq (block (sources p)) (.seq (.cond (·.rootfs.isSome) (.cmd .rmRootfs) .tt) (block (debootstrap p))))
      (fun w => Kept v w ∧ Holds [.base p.version p.type] w) (Left p v) := by
  have hsources : Triple (exec p env) (Kept v) (block (sources p)) (Kept v) (Kept v) := by
    apply Triple.inv (strict_block _)
    intro c hc w hw
    rw [cmds_block] at hc
    exact exec_kept p env (sources_outside p hc) hw
  have hold : Triple (exec p env) (Kept v) (.cond (·.rootfs.isSome) (.cmd .rmRootfs) .tt) (Kept v) (Kept v) := by
    apply Triple.inv rfl
    intro c hc w hw
    obtain rfl : c = .rmRootfs := by simpa [Sh.cmds] using hc
    exact exec_kept p env rfl hw
  have hmkdir : Triple (exec p env) (Kept v) (.cmd .mkdirRootfs) (fun w => Kept v w ∧ Holds [] w) (Kept v) := by
    apply Triple.cmd
    · intro w hw hok
      refine ⟨exec_kept p env rfl hw, ⟨[], false, false, false⟩, ?_, rfl⟩
      cases he : env .mkdirRootfs <;> simp [exec, he, Resp.stat] at hok ⊢
    · intro w hw _
      exact exec_kept p env rfl hw
  have hbase : Triple (exec p env) (fun w => Kept v w ∧ Holds [] w) (.cmd .mmdebstrap)
      (fun w => Kept v w ∧ Holds [.base p.version p.type] w) (Kept v) := by
    apply Triple.cmd
    · intro w hw hok
      refine ⟨inside_kept p env rfl hw.1, ?_⟩
      rw [inside_stat p env rfl] at hok
      rw [exec_nominal p env (Resp.stat_ok.1 hok)]
      exact plain_ok p rfl hw.2
    · intro w hw _
      exact inside_kept p env rfl hw.1
  have hlist : Triple (exec p env) (fun w => Kept v w ∧ Holds [.base p.version p.type] w) (block (prepare_apt_list p))
      (fun w => Kept v w ∧ Holds [.base p.version p.type] w) (Kept v) := by
    refine (Triple.inv (strict_block _) ?_).conseq (fun _ h => h) (fun _ h => h) fun _ h => h.1
    intro c hc w hw
    rw [cmds_block] at hc
    obtain ⟨i, -, rfl⟩ := List.mem_map.1 hc
    exact ⟨inside_kept p env rfl hw.1, idle_holds p env rfl rfl hw.2⟩
  have hall := hsources.seq (hold.seq (hmkdir.seq (hbase.seq hlist)))
  exact hall.conseq (fun _ h => h) (fun _ h => h) fun _ h => .before h

/-- a mount of the host, made or taken away -/
theorem host_holds {c : Cmd} {h : Host} (hc : c = .mount h ∨ ∃ q, c = .umount q h) {m : List File} {w : World}
    (hw : Holds m w) : Holds m (exec p env c w).2 := by
  have hset : ∀ on, Holds m (w.onRootfs (·.set h on)) := fun on => onRootfs_holds hw _ fun t => by cases h <;> rfl
  have hput : Holds m (w.put []) := by
    have h0 := put_holds hw (l := [])
    rwa [List.append_nil] at h0
  rcases hc with rfl | ⟨q, rfl⟩
  · cases he : env (.mount h) with
    | ok => simpa [exec, he] using hset true
    | fail b | kill b => cases b <;> simpa [exec, he, Resp.part, puts]
  · cases he : env (.umount q h) with
    | ok => simpa [exec, he] using hset false
    | fail b | kill b => cases b <;> simpa [exec, he, Resp.part, puts]

/-- the mounts of the host leave the files alone -/
theorem mounts_triple {m : List File} :
    Triple (exec p env) (fun w => Kept v w ∧ Holds m w) (block setup_mount_resolv) (fun w => Kept v w ∧ Holds m w) (Left p v) := by
  refine (Triple.inv (strict_block _) ?_).conseq (fun _ h => h) (fun _ h => h) fun _ h => .before h.1
  intro c hc w hw
  simp only [cmds_block, setup_mount_resolv, List.mem_cons, List.not_mem_nil, or_false] at hc
  rcases hc with rfl | rfl | rfl | rfl
  · exact ⟨exec_kept p env rfl hw.1, host_holds p env (Or.inl rfl) hw.2⟩
  · exact ⟨exec_kept p env rfl hw.1, host_holds p env (Or.inl rfl) hw.2⟩
  · exact ⟨exec_kept p env rfl hw.1, host_holds p env (Or.inl rfl) hw.2⟩
  · exact ⟨exec_kept p env rfl hw.1, idle_holds p env rfl rfl hw.2⟩

theorem onRootfs_none {w : World} (h : w.rootfs = none) (f : Tree → Tree) : w.onRootfs f = w := by
  obtain ⟨_, _, _, _⟩ := w
  subst h
  rfl

/-- where there is no `ROOTFS` these do nothing -/
theorem exec_none {c : Cmd} (hc : c = .pushd ∨ c = .popd ∨ ∃ q h, c = .umount q h) {w : World} (h : w.rootfs = none) :
    (exec p env c w).2 = w := by
  have hput : ∀ l, w.put l = w := fun l => onRootfs_none h _
  rcases hc with rfl | rfl | ⟨q, m, rfl⟩
  · simp [exec, hput]
  · simp [exec, hput]
  · cases he : env (.umount q m) <;> simp [exec, he, hput, onRootfs_none h]

theorem umount_cmds {q : Pass} {c : Cmd} (hc : c ∈ (UMOUNT_ALL p q).cmds) : ∃ h, c = .umount q h := by
  simp only [UMOUNT_ALL, cmds_seqs, List.flatMap_cons, List.flatMap_nil, umounts, umountHost, Sh.cmds, List.mem_append,
    List.mem_singleton, List.not_mem_nil, or_false, false_or] at hc
  rcases hc with rfl | rfl | rfl
  · exact ⟨.dev, rfl⟩
  · exact ⟨.proc, rfl⟩
  · exact ⟨.sys, rfl⟩

/-- `UMOUNT_ALL` leaves the files alone, whatever fails in it -/
theorem umount_triple (q : Pass) {m : List File} :
    Triple (exec p env) (fun w => Kept v w ∧ Holds m w) (UMOUNT_ALL p q) (fun w => Kept v w ∧ Holds m w) (Left p v) := by
  have h : Triple (exec p env) (fun w => Kept v w ∧ Holds m w) (UMOUNT_ALL p q) (fun w => Kept v w ∧ Holds m w)
      (fun w => Kept v w ∧ Holds m w) := by
    apply Triple.loose
    intro c hc w hw
    obtain ⟨i, rfl⟩ := umount_cmds p (q := q) (by simpa [UMOUNT_ALL, Sh.cmds] using hc)
    exact ⟨exec_kept p env rfl hw.1, host_holds p env (Or.inr ⟨q, rfl⟩) hw.2⟩
  exact h.conseq (fun _ h => h) (fun _ h => h) fun _ h => .before h.1

/-- the trap changes nothing of what `Left` speaks of -/
theorem trap_left {q : Pass} {c : Cmd} (hc : c ∈ (UMOUNT_ALL p q).cmds) {w : World} (h : Left p v w) :
    Left p v (exec p env c w).2 := by
  obtain ⟨i, rfl⟩ := umount_cmds p hc
  have hidle : w.rootfs = none → (exec p env (.umount q i) w).2 = w :=
    fun hn => exec_none p env (Or.inr (Or.inr ⟨q, i, rfl⟩)) hn
  cases h with
  | before h => exact .before (exec_kept p env rfl h)
  | moved t h ha =>
    rw [hidle h.rootfs]
    exact .moved t h ha
  | tarred t b h ha =>
    rw [hidle h.rootfs]
    exact .tarred t b h ha
  | removed t h =>
    rw [hidle h.rootfs]
    exact .removed t h

/-- the rename -/
theorem mv_triple :
    Triple (exec p env) (fun w => Kept v w ∧ Holds (wholeFiles p) w) (.cmd .mv)
      (Renaming p v) (Left p v) := by
  have hcases : ∀ w, Kept v w ∧ Holds (wholeFiles p) w →
      (exec p env .mv w).1 ≠ .ok ∧ Kept v (exec p env .mv w).2 ∨
        ∃ t, Moved p v t (exec p env .mv w).2 ∧ (exec p env .mv w).2.archive = v.archive := by
    rintro w ⟨hk, t, ht, hwhole⟩
    cases he : env .mv with
    | fail b | kill b =>
      refine Or.inl ⟨by simp [exec, he, Resp.stat], ?_⟩
      cases b
      · simpa [exec, he, Resp.part] using hk
      · simpa [exec, he, Resp.part] using put_kept hk _
    | ok =>
      cases hr : w.renamed p.key with
      | none =>
        refine Or.inr ⟨t, ⟨hwhole, ?_, ?_, ?_⟩, ?_⟩
        · simp [← hk.renamed, hr]
        · simp [exec, he, mvTree, ht, hr]
        · rw [← hk.renamed, hr]
          simp [exec, he, mvTree, ht, hr, moveInto]
        · simpa [exec, he, mvTree, ht, hr] using hk.archive
      | some d =>
        obtain ⟨d, n⟩ := d
        cases n with
        | none =>
          refine Or.inr ⟨t, ⟨hwhole, ?_, ?_, ?_⟩, ?_⟩
          · simp [← hk.renamed, hr]
          · simp [exec, he, mvTree, ht, hr]
          · rw [← hk.renamed, hr]
            simp [exec, he, mvTree, ht, hr, moveInto]
          · simpa [exec, he, mvTree, ht, hr] using hk.archive
        | some n =>
          -- a tree has been moved inside before: `mv` does not replace it
          refine Or.inl ⟨?_, ?_⟩
          · simp [exec, he, mvTree, ht, hr]
          · simpa [exec, he, mvTree, ht, hr] using hk
  apply Triple.cmd
  · intro w hw hok
    rcases hcases w hw with ⟨h, -⟩ | h
    · exact absurd hok h
    · exact h
  · intro w hw hno
    rcases hcases w hw with ⟨-, h⟩ | ⟨t, h, ha⟩
    · exact .before h
    · exact .moved t h ha

theorem pushd_triple : Triple (exec p env) (Renaming p v) (.cmd .pushd) (Renaming p v) (Left p v) := by
  have hidle : ∀ w, Renaming p v w → (exec p env .pushd w).2 = w := by
    rintro w ⟨t, h, -⟩
    exact exec_none p env (Or.inl rfl) h.rootfs
  apply Triple.cmd
  · intro w hw _
    rwa [hidle w hw]
  · intro w hw _
    rw [hidle w hw]
    obtain ⟨t, h, ha⟩ := hw
    exact .moved t h ha

/-- the archive is written in place: where `tar` breaks off a part of it can be left -/
theorem tar_triple : Triple (exec p env) (Renaming p v) (.cmd .tar) (Archived p v) (Left p v) := by
  have hdir : ∀ {w t}, Moved p v t w → w.renamed p.key = some (moveInto (v.renamed p.key) t) := by
    intro w t h
    rw [h.renamed, Function.update_self]
  apply Triple.cmd
  · rintro w ⟨t, h, ha⟩ hok
    have he : env .tar = .ok := by simpa [exec, tarDir, hdir h, Resp.stat_ok] using hok
    refine ⟨t, ?_, ?_⟩
    · simpa [exec, tarDir, hdir h, he] using ⟨h.whole, h.room, h.rootfs, h.renamed⟩
    · simp [exec, tarDir, hdir h, he, ha]
  · rintro w ⟨t, h, ha⟩ hno
    have he : env .tar ≠ .ok := by simpa [exec, tarDir, hdir h, Resp.stat_ok] using hno
    cases hp : (env .tar).part with
    | false =>
      have hw : (exec p env .tar w).2 = w := by simp [exec, tarDir, hdir h, he, hp]
      rw [hw]
      exact .moved t h ha
    | true =>
      refine .tarred t false ?_ ?_
      · simpa [exec, tarDir, hdir h, he, hp] using ⟨h.whole, h.room, h.rootfs, h.renamed⟩
      · simp [exec, tarDir, hdir h, he, hp, ha]

theorem popd_triple : Triple (exec p env) (Archived p v) (.cmd .popd) (Archived p v) (Left p v) := by
  have hidle : ∀ w, Archived p v w → (exec p env .popd w).2 = w := by
    rintro w ⟨t, h, -⟩
    exact exec_none p env (Or.inr (Or.inl rfl)) h.rootfs
  apply Triple.cmd
  · intro w hw _
    rwa [hidle w hw]
  · intro w hw _
    rw [hidle w hw]
    obtain ⟨t, h, ha⟩ := hw
    exact .tarred t true h ha

theorem rm_triple :
    Triple (exec p env) (Archived p v) (.cmd .rmRenamed) (fun w => ∃ t, Removed p v t w) (Left p v) := by
  apply Triple.cmd
  · rintro w ⟨t, h, ha⟩ hok
    have hdir : w.renamed p.key = some (moveInto (v.renamed p.key) t) := by rw [h.renamed, Function.update_self]
    cases hany : (moveInto (v.renamed p.key) t).any with
    | true =>
      cases he : env .rmRenamed <;> simp [exec, rmRenamed, hdir, hany, he, Resp.stat] at hok
    | false =>
      have he : env .rmRenamed = .ok := by
        cases he : env .rmRenamed <;> simp [exec, rmRenamed, hdir, hany, he, Resp.stat] at hok ⊢
      refine ⟨t, h.whole, h.room, hany, ?_, ?_, ?_⟩
      · simpa [exec, rmRenamed, hdir, hany, he] using h.rootfs
      · simp [exec, rmRenamed, hdir, hany, he, h.renamed]
      · simpa [exec, rmRenamed, hdir, hany, he] using ha
  · rintro w ⟨t, h, ha⟩ hno
    have hdir : w.renamed p.key = some (moveInto (v.renamed p.key) t) := by rw [h.renamed, Function.update_self]
    cases hany : (moveInto (v.renamed p.key) t).any with
    | true =>
      refine .tarred t true ?_ ?_
      · simpa [exec, rmRenamed, hdir, hany] using ⟨h.whole, h.room, h.rootfs, h.renamed⟩
      · simpa [exec, rmRenamed, hdir, hany] using ha
    | false =>
      cases he : env .rmRenamed with
      | ok => simp [exec, rmRenamed, hdir, hany, he] at hno
      | fail b | kill b =>
        have hw : (exec p env .rmRenamed w).2 = w := by simp [exec, rmRenamed, hdir, hany, he]
        rw [hw]
        exact .tarred t true h ha

/-- what runs under the trap -/
theorem trapped_triple :
    Triple (exec p env) (fun w => Kept v w ∧ Holds [.base p.version p.type] w) (trapped p) (fun w => ∃ t, Removed p v t w)
      (Left p v) := by
  have harchive : Triple (exec p env) (fun w => Kept v w ∧ Holds (wholeFiles p) w) (block archive)
      (fun w => ∃ t, Removed p v t w) (Left p v) :=
    (mv_triple p env v).seq <| (pushd_triple p env v).seq <| (tar_triple p env v).seq <|
      (popd_triple p env v).seq (rm_triple p env v).last
  exact (setup_triple p env v).seq ((umount_triple p env v .main).seq harchive)

end Script

/-! ## One call -/

/-- **What a call leaves, wherever it is stopped** -/
theorem mkrootfs_left (p : Params) (env : Cmd → Resp) (v : World) : Left p v (mkrootfs p env v).w := by
  have htrapped : Triple (exec p env) (fun w => Kept v w ∧ Holds [.base p.version p.type] w) (trapped p) (Left p v)
      (Left p v) := by
    refine (trapped_triple p env v).conseq (fun _ h => h) ?_ fun _ h => h
    rintro w ⟨t, h⟩
    exact .removed t h
  have htrap : Triple (exec p env) (fun w => Kept v w ∧ Holds [.base p.version p.type] w)
      (.onExit (UMOUNT_ALL p .trap) (trapped p)) (fun _ => False) (Left p v) :=
    Triple.onExit htrapped fun c hc w hw => trap_left p env v hc hw
  have hbody : Triple (exec p env) (Kept v) (body p) (fun _ => False) (Left p v) :=
    (prepare_triple p env v).seq ((mounts_triple p env v).seq htrap)
  rw [mkrootfs_eq]
  exact Ends.of_triple (hbody.conseq (fun _ h => h) (fun _ h => h.elim) fun _ h => h) _ rfl rfl ⟨rfl, rfl⟩

/-- a call leaves the archives and the renamed trees of other distributions and desktops alone -/
theorem mkrootfs_other (p : Params) (env : Cmd → Resp) (v : World) {k : Key} (hk : k ≠ p.key) :
    (mkrootfs p env v).w.archive k = v.archive k ∧ (mkrootfs p env v).w.renamed k = v.renamed k := by
  cases mkrootfs_left p env v with
  | before h => exact ⟨by rw [h.archive], by rw [h.renamed]⟩
  | moved t h ha => exact ⟨by rw [ha], by rw [h.renamed, Function.update_of_ne hk]⟩
  | tarred t c h ha => exact ⟨by rw [ha, Function.update_of_ne hk], by rw [h.renamed, Function.update_of_ne hk]⟩
  | removed t h => exact ⟨by rw [h.archive, Function.update_of_ne hk], by rw [h.renamed, Function.update_of_ne hk]⟩

/-- **A call with status 0 has made a whole archive of a tree that went through its setup**, and leaves no tree behind -/
theorem mkrootfs_ok (p : Params) (env : Cmd → Resp) (v : World) (h : (mkrootfs p env v).stat = .ok) :
    ∃ t, Removed p v t (mkrootfs p env v).w := by
  rw [mkrootfs_eq] at h ⊢
  rw [body] at h ⊢
  obtain ⟨h1, e1⟩ := seq_of_stat (by simp [Sh.failing]) (by simp [start]) h
  rw [e1] at h ⊢
  obtain ⟨he1, hk1⟩ := (prepare_triple p env v).through { start Cmd v with e := true } rfl rfl ⟨rfl, rfl⟩ h1
  obtain ⟨h2, e2⟩ := seq_of_stat (failing_block _) (by rw [h1]; simp) h
  rw [e2] at h ⊢
  obtain ⟨he2, hk2⟩ := (mounts_triple p env v).through _ he1 h1 hk1 h2
  obtain ⟨h3, e3⟩ := onExit_ok rfl (by simp [trapped, Sh.failing, UMOUNT_ALL, seqs, umounts, umountHost]) (by rw [h2]; simp) h
  obtain ⟨-, t, hw⟩ := (trapped_triple p env v).through _ he2 h2 hk2 h3
  refine ⟨t, ?_⟩
  rw [e3]
  refine eval_inv (exec p env) (Removed p v t) false _ (fun c hc w hw => ?_) _ hw
  obtain ⟨i, rfl⟩ := umount_cmds p hc
  rwa [exec_none p env (Or.inr (Or.inr ⟨.trap, i, rfl⟩)) hw.rootfs]

/-! ## A call in which nothing fails -/

section Works

variable (p : Params) (v : World)

/-- `ROOTFS` is there, with nothing of the host in it, and the renamed trees are as they were -/
def Opened (w : World) : Prop := (∃ t, w.rootfs = some t) ∧ w.renamed = v.renamed

/-- the archive is there, and complete -/
def Complete (k : Key) (w : World) : Prop := ∃ a, w.archive k = some a ∧ a.complete = true

/-- what is not killed from outside is not killed -/
theorem exec_ok_alive (c : Cmd) (w : World) : (exec p (fun _ => .ok) c w).1 ≠ .killed := by
  have hrm : (rmTree .ok w).1 ≠ .killed := by
    unfold rmTree
    split
    · simp [Resp.stat]
    · split <;> simp [Resp.stat]
  have hmv : (mvTree p.key w).1 ≠ .killed := by
    unfold mvTree
    split <;> simp
  have htar : (tarDir p.key .ok w).1 ≠ .killed := by
    unfold tarDir
    split <;> simp [Resp.stat]
  have hlast : (rmRenamed p.key .ok w).1 ≠ .killed := by
    unfold rmRenamed
    split
    · simp [Resp.stat]
    · split <;> simp [Resp.stat]
  cases c <;> first
    | exact hrm
    | exact hmv
    | exact htar
    | exact hlast
    | simp [exec, Resp.stat]

/-- the commands between `mkdir` and the rename succeed -/
theorem opened_step {c : Cmd} (hc : c.outside = false) (hr : c ≠ .rmRootfs) {w : World} (h : Opened v w) :
    (exec p (fun _ => .ok) c w).1 = .ok ∧ Opened v (exec p (fun _ => .ok) c w).2 := by
  obtain ⟨⟨t, ht⟩, hk⟩ := h
  have hon : ∀ f, Opened v (w.onRootfs f) := fun f => ⟨⟨f t, by simp [World.onRootfs, ht]⟩, hk⟩
  cases c <;> first
    | exact ⟨rfl, hon _⟩
    | exact ⟨rfl, ⟨_, rfl⟩, hk⟩
    | exact absurd rfl hr
    | simp [Cmd.outside] at hc

/-- the tree that `mkdir` has left can be removed -/
def Removable (w : World) : Prop := (∃ t, w.rootfs = some t ∧ t.any = false) ∧ w.renamed = v.renamed

theorem removable_step {c : Cmd} (hc : c ∈ sources p) {w : World} (h : Removable v w) :
    (exec p (fun _ => .ok) c w).1 = .ok ∧ Removable v (exec p (fun _ => .ok) c w).2 := by
  obtain ⟨⟨t, ht, hany⟩, hk⟩ := h
  have hput : Removable v (w.put []) :=
    ⟨⟨{ t with files := t.files ++ [] }, by simp [World.put, World.onRootfs, ht], hany⟩, hk⟩
  unfold sources at hc
  split at hc <;> simp at hc <;> rcases hc with rfl | rfl | rfl | rfl | rfl | rfl <;> exact ⟨rfl, hput⟩

/-- the archive once it is there -/
theorem complete_step {c : Cmd} (hc : c ≠ .tar) {k : Key} {w : World} (h : Complete k w) :
    Complete k (exec p (fun _ => .ok) c w).2 := by
  obtain ⟨a, ha, hcomplete⟩ := h
  refine ⟨a, ?_, hcomplete⟩
  have hk : (exec p (fun _ => .ok) c w).2.archive = w.archive := by
    by_cases hout : c.outside = true
    · cases c <;> first
        | (simp [Cmd.outside] at hout; done)
        | exact absurd rfl hc
        | skip
      case mv =>
        show (mvTree p.key w).2.archive = w.archive
        unfold mvTree
        split <;> rfl
      case rmRenamed =>
        show (rmRenamed p.key .ok w).2.archive = w.archive
        unfold rmRenamed
        split
        · rfl
        · split <;> rfl
    · exact (exec_kept p _ (by simpa using hout) (Kept.mk (v := w) rfl rfl)).archive
  rw [hk, ha]

/-! Each part of the script by itself: it does not stop, and leaves what the next one needs. -/

theorem unstopped {I J K : World → Prop} {a : Sh Cmd World} (h : Triple (exec p fun _ => .ok) I a J (fun _ => False)) :
    Triple (exec p fun _ => .ok) I a J K :=
  h.conseq (fun _ h => h) (fun _ h => h) fun _ h => h.elim

theorem sources_works : Triple (exec p fun _ => .ok) (Removable v) (block (sources p)) (Removable v) (Complete p.key) :=
  unstopped p (Triple.steady fun _ hc _ hw => removable_step p v hc hw)

theorem rm_works : Triple (exec p fun _ => .ok) (Removable v) (.cond (·.rootfs.isSome) (.cmd .rmRootfs) .tt)
    (fun w => w.rootfs = none ∧ w.renamed = v.renamed) (Complete p.key) := by
  have hexec : ∀ w, Removable v w → (exec p (fun _ => .ok) .rmRootfs w).1 = .ok ∧
      (exec p (fun _ => .ok) .rmRootfs w).2.rootfs = none ∧ (exec p (fun _ => .ok) .rmRootfs w).2.renamed = v.renamed := by
    intro w hw
    obtain ⟨⟨t, ht, hany⟩, hk⟩ := hw
    simp [exec, rmTree, ht, hany, hk]
  apply unstopped
  apply Triple.cond
  · apply Triple.cmd
    · intro w hw _
      exact (hexec w hw.1).2
    · intro w hw hno
      exact hno (hexec w hw.1).1
  · refine Triple.never.pre fun w hw => ?_
    obtain ⟨⟨⟨t, ht, -⟩, -⟩, hn⟩ := hw
    simp [ht] at hn

theorem mkdir_works : Triple (exec p fun _ => .ok) (fun w => w.rootfs = none ∧ w.renamed = v.renamed) (.cmd .mkdirRootfs)
    (Opened v) (Complete p.key) := by
  apply Triple.cmd
  · intro w hw _
    exact ⟨⟨_, rfl⟩, hw.2⟩
  · intro w _ hno
    exact absurd rfl hno

theorem opened_works {l : List Cmd} (hl : ∀ c ∈ l, c.outside = false ∧ c ≠ .rmRootfs) :
    Triple (exec p fun _ => .ok) (Opened v) (block l) (Opened v) (Complete p.key) :=
  unstopped p (Triple.steady fun c hc _ hw => opened_step p v (hl c hc).1 (hl c hc).2 hw)

theorem base_works : Triple (exec p fun _ => .ok) (Opened v) (block (.mmdebstrap :: prepare_apt_list p)) (Opened v)
    (Complete p.key) := by
  apply opened_works
  intro c hc
  rcases List.mem_cons.1 hc with rfl | hc
  · exact ⟨rfl, by simp⟩
  · obtain ⟨i, -, rfl⟩ := List.mem_map.1 hc
    exact ⟨rfl, by simp⟩

theorem setup_works : Triple (exec p fun _ => .ok) (Opened v) (block (setup p)) (Opened v) (Complete p.key) := by
  apply opened_works
  intro c hc
  have hin := setup_inside hc
  cases c <;> simp [Cmd.inside] at hin <;> exact ⟨rfl, by simp⟩

theorem umount_works : Triple (exec p fun _ => .ok) (Opened v) (UMOUNT_ALL p .main) (Opened v) (Complete p.key) := by
  apply unstopped
  apply Triple.loose_steady rfl (exec_ok_alive p)
  intro c hc w hw
  obtain ⟨i, rfl⟩ := umount_cmds p (q := .main) (by simpa [UMOUNT_ALL, Sh.cmds] using hc)
  exact (opened_step p v rfl (by simp) hw).2

/-- a tree of the name is moved into the new one, so the rename succeeds where there is none inside it yet -/
theorem mv_works (hroom : ∀ d, v.renamed p.key = some d → d.nested = none) :
    Triple (exec p fun _ => .ok) (Opened v) (.cmd .mv) (fun w => w.rootfs = none ∧ ∃ d, w.renamed p.key = some d)
      (Complete p.key) := by
  have hexec : ∀ w, Opened v w → (exec p (fun _ => .ok) .mv w).1 = .ok ∧
      (exec p (fun _ => .ok) .mv w).2.rootfs = none ∧ ∃ d, (exec p (fun _ => .ok) .mv w).2.renamed p.key = some d := by
    intro w hw
    obtain ⟨⟨t, ht⟩, hk⟩ := hw
    cases hr : v.renamed p.key with
    | none => simp [exec, mvTree, ht, hk, hr]
    | some d =>
      obtain ⟨d, n⟩ := d
      obtain rfl : n = none := hroom _ hr
      simp [exec, mvTree, ht, hk, hr]
  apply Triple.cmd
  · intro w hw _
    exact (hexec w hw).2
  · intro w hw hno
    exact absurd (hexec w hw).1 hno

theorem pushd_works : Triple (exec p fun _ => .ok) (fun w => w.rootfs = none ∧ ∃ d, w.renamed p.key = some d) (.cmd .pushd)
    (fun w => w.rootfs = none ∧ ∃ d, w.renamed p.key = some d) (Complete p.key) := by
  apply Triple.cmd
  · intro w hw _
    rwa [exec_none p _ (Or.inl rfl) hw.1]
  · intro w _ hno
    exact absurd rfl hno

theorem tar_works : Triple (exec p fun _ => .ok) (fun w => w.rootfs = none ∧ ∃ d, w.renamed p.key = some d) (.cmd .tar)
    (Complete p.key) (Complete p.key) := by
  have hexec : ∀ w, (w.rootfs = none ∧ ∃ d, w.renamed p.key = some d) →
      Complete p.key (exec p (fun _ => .ok) .tar w).2 := by
    intro w hw
    obtain ⟨-, d, hd⟩ := hw
    exact ⟨⟨d, true⟩, by simp [exec, tarDir, hd], rfl⟩
  exact Triple.cmd (fun w hw _ => hexec w hw) fun w hw _ => hexec w hw

theorem complete_works (l : List Cmd) (hl : .tar ∉ l) :
    Triple (exec p fun _ => .ok) (Complete p.key) (block l) (Complete p.key) (Complete p.key) := by
  apply Triple.inv (strict_block l)
  intro c hc w hw
  rw [cmds_block] at hc
  exact complete_step p (ne_of_mem_of_not_mem hc hl) hw

theorem archive_works (hroom : ∀ d, v.renamed p.key = some d → d.nested = none) :
    Triple (exec p fun _ => .ok) (Opened v) (block archive) (Complete p.key) (Complete p.key) :=
  (mv_works p v hroom).seq ((pushd_works p).seq ((tar_works p).seq (complete_works p [.popd, .rmRenamed] (by decide))))

theorem trapped_works (hroom : ∀ d, v.renamed p.key = some d → d.nested = none) :
    Triple (exec p fun _ => .ok) (Opened v) (.onExit (UMOUNT_ALL p .trap) (trapped p)) (Complete p.key) (Complete p.key) := by
  refine Triple.onExit ((setup_works p v).seq ((umount_works p v).seq (archive_works p v hroom))) fun c hc w hw =>
    complete_step p ?_ hw
  obtain ⟨i, rfl⟩ := umount_cmds p hc
  simp

/-- **Where nothing fails the archive is made**, unless a tree lies inside the renamed one -/
theorem mkrootfs_works (hv : ∃ t, v.rootfs = some t ∧ t.any = false)
    (hroom : ∀ d, v.renamed p.key = some d → d.nested = none) : Complete p.key (mkrootfs p (fun _ => .ok) v).w := by
  have hmounts : Triple (exec p fun _ => .ok) (Opened v) (block setup_mount_resolv) (Opened v) (Complete p.key) :=
    opened_works p v (by decide)
  have hbody : Triple (exec p fun _ => .ok) (Removable v) (body p) (Complete p.key) (Complete p.key) :=
    ((sources_works p v).seq ((rm_works p v).seq ((mkdir_works p v).seq (base_works p v)))).seq
      (hmounts.seq (trapped_works p v hroom))
  rw [mkrootfs_eq]
  exact Ends.of_triple hbody _ rfl rfl ⟨hv, rfl⟩

end Works

/-! ## The archives of a workspace -/

/-- the tree has gone through the setup of a call for this archive -/
def Whole (k : Key) (t : Tree) : Prop := ∃ p : Params, p.key = k ∧ t.files = wholeFiles p

/-- **Archives are made of whole trees**, and where there is none yet, so is the renamed tree it will be made of -/
structure Sound (w : World) : Prop where
  renamed : ∀ k d, w.archive k = none → w.renamed k = some d → Whole k d.top
  archive : ∀ k a, w.archive k = some a → Whole k a.dir.top

theorem moveInto_whole {p : Params} {v : World} (h : Sound v) (hn : v.archive p.key = none) {t : Tree}
    (ht : t.files = wholeFiles p) : Whole p.key (moveInto (v.renamed p.key) t).top := by
  cases hr : v.renamed p.key with
  | none => exact ⟨p, rfl, ht⟩
  | some d => exact h.renamed p.key d hn hr

/-- **A call for a missing archive keeps the archives sound, wherever it is stopped** -/
theorem mkrootfs_sound (p : Params) (env : Cmd → Resp) {v : World} (h : Sound v) (hn : v.archive p.key = none) :
    Sound (mkrootfs p env v).w := by
  have hother : ∀ {w : World} {k : Key} {a : Archive}, w.archive = Function.update v.archive p.key (some a) →
      Whole p.key a.dir.top → ∀ b, w.archive k = some b → Whole k b.dir.top := by
    intro w k a ha hw b hb
    by_cases hk : k = p.key
    · subst hk
      rw [ha, Function.update_self] at hb
      obtain rfl := Option.some.inj hb
      exact hw
    · rw [ha, Function.update_of_ne hk] at hb
      exact h.archive k b hb
  have hleft : ∀ {w : World} {k : Key} {a : Archive}, w.archive = Function.update v.archive p.key (some a) →
      (∀ k', k' ≠ p.key → w.renamed k' = v.renamed k') → ∀ d, w.archive k = none → w.renamed k = some d → Whole k d.top := by
    intro w k a ha hr d hk hd
    have hne : k ≠ p.key := by
      rintro rfl
      simp [ha] at hk
    rw [ha, Function.update_of_ne hne] at hk
    rw [hr k hne] at hd
    exact h.renamed k d hk hd
  cases mkrootfs_left p env v with
  | before hk =>
    refine ⟨fun k d h1 h2 => ?_, fun k a h1 => ?_⟩
    · rw [hk.archive] at h1
      rw [hk.renamed] at h2
      exact h.renamed k d h1 h2
    · rw [hk.archive] at h1
      exact h.archive k a h1
  | moved t hm ha =>
    refine ⟨fun k d h1 h2 => ?_, fun k a h1 => ?_⟩
    · rw [ha] at h1
      by_cases hk : k = p.key
      · subst hk
        rw [hm.renamed, Function.update_self] at h2
        obtain rfl := Option.some.inj h2
        exact moveInto_whole h hn hm.whole
      · rw [hm.renamed, Function.update_of_ne hk] at h2
        exact h.renamed k d h1 h2
    · rw [ha] at h1
      exact h.archive k a h1
  | tarred t c hm ha =>
    exact ⟨fun k => hleft ha fun k' hne => by rw [hm.renamed, Function.update_of_ne hne],
      fun k => hother ha (moveInto_whole h hn hm.whole)⟩
  | removed t hm =>
    exact ⟨fun k => hleft hm.archive fun k' hne => by rw [hm.renamed, Function.update_of_ne hne],
      fun k => hother hm.archive (moveInto_whole h hn hm.whole)⟩

/-- **A tree tells the board it was built for** -/
theorem board_of_whole {p q : Params} (h : wholeFiles p = wholeFiles q) : p.board = q.board := by
  have hmem : File.release p.board p.version p.type ∈ wholeFiles p := by
    simp [wholeFiles, setup_firstrun, puts]
  rw [h, wholeFiles, List.mem_append, List.mem_cons, List.mem_flatMap] at hmem
  rcases hmem with (hmem | ⟨c, -, hc⟩) | hmem
  · simp at hmem
  · -- `/etc/avaota-release` is written by one command
    cases c <;> simp [puts] at hc
    case dhcp s => cases s <;> simp at hc
    case catRelease => exact hc.1
  · simp at hmem

/-- the packages decide nothing about these files -/
theorem wholeFiles_congr {p q : Params} (hb : p.board = q.board) (hk : p.key = q.key) : wholeFiles p = wholeFiles q := by
  obtain ⟨b, v, t, r, c⟩ := p
  obtain ⟨b', v', t', r', c'⟩ := q
  obtain ⟨rfl, rfl⟩ := Prod.mk.inj hk
  subst hb
  rfl

end AvaotaOS.MkRootfs
