/-
`UMOUNT_ALL` of `scripts/pack.sh`, one call at a time.

It ignores the status of its `umount` calls: where one of them fails, the file system is still mounted when
`rm -rf rootfs_dir` runs.

- `umountAll_calm`: a call that finds nothing mounted leaves the image alone.
- `umountAll_ok`, `umountAll_busy`: what a call does to mounted file systems, by how the `umount`s end.
- `umountAll_clean`: when a call whose `umount`s succeed comes to its end, and what it leaves.
-/
import Mathlib.Tactic
import AvaotaOS.Image.Pack

namespace AvaotaOS.Pack

open Shell

variable (p : Params) (env : Cmd → Resp)

/-! ## Commands that only write files -/

/-- the command changes nothing but what the mounted file systems hold -/
def Cmd.plain : Cmd → Bool
  | .rmSdcard | .rmRootfsDir | .truncateImg | .losetup | .mkdirRootfsDir | .mountRoot | .mountBoot | .dd _ | .pixz => false
  | .umountBoot _ | .umountRoot _ | .rmAll _ | .clearDevice _ => false
  | _ => true

theorem exec_plain {c : Cmd} (hc : c.plain = true) (w : World) :
    exec p env c w = (stat p env c, if stat p env c = .ok ∨ (env c).part then w.put (puts c) else w) := by
  cases c <;> first | rfl | simp [Cmd.plain] at hc

theorem put_rootfs_dir (w : World) (l : List (Part × File)) : (w.put l).rootfs_dir = w.rootfs_dir := by
  unfold World.put
  split <;> simp_all

theorem put_rmMounted (w : World) (l : List (Part × File)) : (w.put l).rmMounted = w.rmMounted := by
  unfold World.put
  split <;> rfl

theorem put_device (w : World) (l : List (Part × File)) : (w.put l).device = w.device := by
  unfold World.put
  split <;> rfl

@[simp] theorem put_nil (w : World) : w.put [] = w := by
  unfold World.put
  split <;> simp

theorem plain_rootfs_dir {c : Cmd} (hc : c.plain = true) (w : World) : (exec p env c w).2.rootfs_dir = w.rootfs_dir := by
  rw [exec_plain p env hc]
  simp only
  split
  · exact put_rootfs_dir w _
  · rfl

theorem exec_rmMounted {c : Cmd} (hc : ∀ q, c ≠ .rmAll q) (w : World) : (exec p env c w).2.rmMounted = w.rmMounted := by
  unfold exec
  split <;> (try split) <;> first
    | rfl
    | exact put_rmMounted w _
    | exact absurd rfl (hc _)
    | (unfold rmDir; (repeat' split) <;> rfl)

/-- outside `UMOUNT_ALL` the status is what the environment says, but for `rm -rf rootfs_dir` -/
theorem exec_stat {c : Cmd} (hc : c ≠ .rmRootfsDir) (hu : ∀ q, c ≠ .umountRoot q ∧ c ≠ .rmAll q ∧ c ≠ .clearDevice q)
    (w : World) : (exec p env c w).1 = stat p env c := by
  unfold exec
  split <;> simp_all [stat, badInput, Resp.stat]

/-! ## One call of `UMOUNT_ALL` -/

/-- both `umount`s that are needed succeed -/
def Clean (q : Pass) (m : Mounts) : Prop :=
  (m.boot = true → env (.umountBoot q) = .ok) ∧ (m.root = true → env (.umountRoot q) = .ok)

/-- the run is stopped in one of them -/
def KilledIn (q : Pass) (m : Mounts) : Prop :=
  m.boot = true ∧ (env (.umountBoot q)).stat = .killed ∨ m.root = true ∧ (env (.umountRoot q)).stat = .killed

/-- no file system is mounted any more when `rm -rf` runs -/
def UmountsOk (q : Pass) (m : Mounts) : Prop := Clean env q m ∨ KilledIn env q m

/-- nothing is mounted -/
def Unmounted (w : World) : Prop := ∀ m, w.rootfs_dir = some m → m.any = false

theorem set_rootfs_dir {w : World} {d : Option Mounts} (h : w.rootfs_dir = d) : { w with rootfs_dir := d } = w := by
  subst h
  rfl

theorem umountBoot_exec (q : Pass) (w : World) :
    exec p env (.umountBoot q) w = ((env (.umountBoot q)).stat,
      if env (.umountBoot q) = .ok then { w with rootfs_dir := w.rootfs_dir.map fun m => { m with boot := false } } else w) := by
  cases h : env (.umountBoot q) <;> simp [exec, h, stat, Resp.stat, puts]

/-- the root file system is busy while the boot file system is mounted in it -/
theorem umountRoot_exec (q : Pass) (w : World) :
    exec p env (.umountRoot q) w =
      if w.rootfs_dir.any (·.boot) ∧ env (.umountRoot q) = .ok then (.fail, w)
      else ((env (.umountRoot q)).stat,
        if env (.umountRoot q) = .ok then { w with rootfs_dir := w.rootfs_dir.map fun m => { m with root := false } }
        else w) := by
  cases h : env (.umountRoot q) <;> simp [exec, h, stat, Resp.stat, puts]

/-- what the two `umount`s leave mounted -/
def afterUmounts (q : Pass) (m : Mounts) : Mounts :=
  let b := m.boot && env (.umountBoot q) ≠ .ok
  ⟨m.root && (b || env (.umountRoot q) ≠ .ok), b⟩

theorem afterUmounts_any (q : Pass) (m : Mounts) : (afterUmounts env q m).any = false ↔ Clean env q m := by
  obtain ⟨r, b⟩ := m
  cases r <;> cases b <;> simp [afterUmounts, Mounts.any, Clean]
  tauto

theorem umounts_spec (q : Pass) (s : St Cmd World) (hr : s.out = .run) (he : s.e = false) {m : Mounts}
    (hm : s.w.rootfs_dir = some m) :
    (KilledIn env q m → (eval (exec p env) false (umounts q) s).out = .killed ∧
      (eval (exec p env) false (umounts q) s).w.rmMounted = s.w.rmMounted) ∧
    (¬ KilledIn env q m → (eval (exec p env) false (umounts q) s).out = .run ∧
      (eval (exec p env) false (umounts q) s).e = false ∧
      (eval (exec p env) false (umounts q) s).w = { s.w with rootfs_dir := some (afterUmounts env q m) }) := by
  obtain ⟨w1, e1, o1⟩ := eval_cond_loose (exec p env) (fun w => w.rootfs_dir.any (·.boot)) (.umountBoot q) s he hr
  rw [umountBoot_exec] at w1 o1
  simp only [hm, Option.any_some] at w1 o1
  by_cases hk : m.boot = true ∧ (env (.umountBoot q)).stat = .killed
  · rw [if_pos hk] at o1
    have hs := eval_seq_stop (exec p env) false _ (.cond (fun w => w.rootfs_dir.any (·.root)) (.cmd (.umountRoot q)) .tt) s
      (by rw [o1]; simp)
    rw [umounts, hs]
    refine ⟨fun _ => ⟨o1, ?_⟩, fun h => absurd (Or.inl hk) h⟩
    rw [w1]
    split_ifs <;> rfl
  rw [if_neg hk] at o1
  rw [umounts, eval_seq_eq (exec p env) false _ _ s o1]
  generalize eval (exec p env) false (.cond (fun w => w.rootfs_dir.any (·.boot)) (.cmd (.umountBoot q)) .tt) s = t at *
  have hw : t.w = { s.w with rootfs_dir := some ⟨m.root, m.boot && env (.umountBoot q) ≠ .ok⟩ } := by
    rw [w1]
    obtain ⟨r, b⟩ := m
    cases b with
    | false => simp [set_rootfs_dir hm]
    | true => by_cases ho : env (.umountBoot q) = .ok <;> simp [ho, set_rootfs_dir hm]
  obtain ⟨w2, e2, o2⟩ := eval_cond_loose (exec p env) (fun w => w.rootfs_dir.any (·.root)) (.umountRoot q) t e1 o1
  rw [umountRoot_exec, hw] at w2 o2
  simp only [Option.any_some] at w2 o2
  constructor
  · rintro (h | ⟨h1, h2⟩)
    · exact absurd h hk
    · have hne : env (.umountRoot q) ≠ .ok := fun h => by simp [h, Resp.stat] at h2
      simp only [h1, hne, and_false, if_false, h2, and_self, if_true] at w2 o2
      exact ⟨o2, by rw [w2]⟩
  · intro h
    simp only [KilledIn, not_or] at h
    have hr2 : ¬ (m.root = true ∧ (env (.umountRoot q)).stat = .killed) := h.2
    refine ⟨?_, e2, ?_⟩
    · rw [o2, if_neg]
      rintro ⟨h1, h2⟩
      split_ifs at h2 <;> exact hr2 ⟨h1, h2⟩
    · rw [w2]
      obtain ⟨r, b⟩ := m
      cases r <;> cases b <;> by_cases h1 : env (.umountBoot q) = .ok <;> by_cases h2 : env (.umountRoot q) = .ok <;>
        simp [afterUmounts, h1, h2]

theorem wipe_unmounted {m : Mounts} (hm : m.any = false) (img : Image) : m.wipe img = img := by
  obtain ⟨r, b⟩ := m
  simp only [Mounts.any, Bool.or_eq_false_iff] at hm
  obtain ⟨rfl, rfl⟩ := hm
  exact List.filter_eq_self.2 fun x _ => by rcases x with ⟨_ | _, _⟩ <;> rfl

/-- `rm -rf` on a tree with nothing mounted leaves the image alone -/
theorem rmDir_unmounted {r : Resp} {w : World} (h : Unmounted w) :
    Unmounted (rmDir r w).2 ∧ (rmDir r w).2.sdcard = w.sdcard := by
  cases hd : w.rootfs_dir with
  | none => exact ⟨by simpa [rmDir, hd] using h, by simp [rmDir, hd]⟩
  | some m =>
    have hm := h m hd
    have hw : w.sdcard.map m.wipe = w.sdcard := by cases w.sdcard <;> simp [wipe_unmounted hm]
    cases r with
    | ok => simp [rmDir, hd, hm, Unmounted]
    | fail b | kill b => cases b <;> simp [rmDir, hd, Resp.part, hw, Unmounted, hm]

/-- the image and the record of a call that finds nothing mounted -/
structure Calm (img : Option Image) (r : Bool) (w : World) : Prop where
  unmounted : Unmounted w
  sdcard : w.sdcard = img
  record : w.rmMounted = r

theorem Calm.exec {img : Option Image} {r : Bool} {c : Cmd} {q : Pass} (hc : c ∈ (UMOUNT_ALL q).cmds) {w : World}
    (h : Calm img r w) : Calm img r (exec p env c w).2 := by
  simp only [UMOUNT_ALL, umounts, removeDir, cmds_seqs, List.flatMap_cons, List.flatMap_nil, Sh.cmds, cmds_block, List.append_nil,
    List.nil_append, List.cons_append, List.mem_cons, List.not_mem_nil, or_false] at hc
  have hany : w.rootfs_dir.any (·.any) = false := by
    cases hd : w.rootfs_dir with
    | none => rfl
    | some m => exact h.unmounted m hd
  have hmap : ∀ f : Mounts → Mounts, (∀ m, m.any = false → (f m).any = false) →
      Calm img r { w with rootfs_dir := w.rootfs_dir.map f } := fun f hf => by
    refine ⟨fun m hm => ?_, h.sdcard, h.record⟩
    obtain ⟨m', hm', rfl⟩ := Option.map_eq_some_iff.1 hm
    exact hf m' (h.unmounted m' hm')
  rcases hc with rfl | rfl | rfl | rfl | rfl | rfl
  · rw [umountBoot_exec]
    split_ifs
    · exact hmap _ fun m hm => by simp_all [Mounts.any]
    · exact h
  · rw [umountRoot_exec]
    split_ifs
    · exact h
    · exact hmap _ (by simp [Mounts.any])
    · exact h
  · obtain ⟨h1, h2⟩ := rmDir_unmounted (r := env (.rmAll q)) h.unmounted
    exact ⟨h1, h2.trans h.sdcard, by simp [AvaotaOS.Pack.exec, hany, h.record]⟩
  · rw [exec_plain p env rfl]
    simpa [puts] using h
  · rw [exec_plain p env rfl]
    simpa [puts] using h
  · unfold AvaotaOS.Pack.exec
    cases env (.clearDevice q) <;> exact ⟨h.unmounted, h.sdcard, h.record⟩

/-- a call that finds nothing mounted leaves the image alone -/
theorem umountAll_calm {img : Option Image} {r : Bool} (q : Pass) (s : St Cmd World) (h : Calm img r s.w) :
    Calm img r (eval (exec p env) false (UMOUNT_ALL q) s).w :=
  eval_inv (exec p env) (Calm img r) false (UMOUNT_ALL q) (fun _ hc _ h => h.exec p env hc) s h

/-- the shell inside `UMOUNT_ALL` -/
abbrev inside (q : Pass) (s : St Cmd World) : St Cmd World :=
  eval (exec p env) false (.seq (umounts q) (removeDir q)) { s with e := false, ok := true }

theorem umountAll_eval (q : Pass) (s : St Cmd World) (hr : s.out = .run) :
    eval (exec p env) false (UMOUNT_ALL q) s = (inside p env q s).next fun t => { t with e := true, ok := true } := by
  have hs : (eval (exec p env) false (.errexit false) s).out = .run := hr
  rw [UMOUNT_ALL, seqs, eval_seq_eq _ _ _ _ s hs]
  show (inside p env q s).next _ = _
  by_cases h : (inside p env q s).out = .run
  · rw [next_run h, next_run h]
    exact eval_seq_eq (exec p env) false (.errexit true) .nop (inside p env q s) h
  · rw [next_stop h, next_stop h]

/-- errexit is off inside `UMOUNT_ALL`: only a kill stops it -/
theorem inside_loose (q : Pass) (s : St Cmd World) (hr : s.out = .run) : Loose (inside p env q s) :=
  eval_tame _ _ _ rfl _ ⟨rfl, Or.inl hr⟩

theorem umountAll_w (q : Pass) (s : St Cmd World) (hr : s.out = .run) :
    (eval (exec p env) false (UMOUNT_ALL q) s).w = (inside p env q s).w := by
  rw [umountAll_eval p env q s hr]
  rcases (inside_loose p env q s hr).2 with ho | ho
  · rw [next_run ho]
  · rw [next_stop (by simp [ho])]

theorem umountAll_out (q : Pass) (s : St Cmd World) (hr : s.out = .run) :
    (eval (exec p env) false (UMOUNT_ALL q) s).out = (inside p env q s).out := by
  rw [umountAll_eval p env q s hr]
  rcases (inside_loose p env q s hr).2 with ho | ho
  · rw [next_run ho]
  · rw [next_stop (by simp [ho])]

theorem umountAll_e (q : Pass) (s : St Cmd World) (hr : s.out = .run)
    (h : (eval (exec p env) false (UMOUNT_ALL q) s).out = .run) :
    (eval (exec p env) false (UMOUNT_ALL q) s).e = true := by
  rw [umountAll_out p env q s hr] at h
  rw [umountAll_eval p env q s hr, next_run h]

theorem mem_removeDir {c : Cmd} {q : Pass} (hc : c ∈ (removeDir q).cmds) : c ∈ (UMOUNT_ALL q).cmds := by
  simp only [UMOUNT_ALL, cmds_seqs, List.flatMap_cons, List.mem_append, Sh.cmds]
  tauto

/-- **The `umount`s succeed: the image survives** (or the run is killed in them, and nothing is removed) -/
theorem umountAll_ok {q : Pass} {s : St Cmd World} (hr : s.out = .run) {m : Mounts} (hm : s.w.rootfs_dir = some m)
    (h : UmountsOk env q m) :
    (eval (exec p env) false (UMOUNT_ALL q) s).w.rmMounted = s.w.rmMounted ∧
      ((eval (exec p env) false (UMOUNT_ALL q) s).out = .killed ∨
        Calm s.w.sdcard s.w.rmMounted (eval (exec p env) false (UMOUNT_ALL q) s).w) := by
  rw [umountAll_w p env q s hr, umountAll_out p env q s hr]
  obtain ⟨hk, hn⟩ := umounts_spec p env q { s with e := false, ok := true } hr rfl hm
  by_cases hki : KilledIn env q m
  · obtain ⟨h1, h2⟩ := hk hki
    rw [inside, eval_seq_stop _ _ _ _ _ (by simp [h1])]
    exact ⟨h2, Or.inl h1⟩
  · obtain ⟨h1, -, h3⟩ := hn hki
    rw [inside, eval_seq_eq _ _ _ _ _ h1]
    have hc : Calm s.w.sdcard s.w.rmMounted (eval (exec p env) false (umounts q) { s with e := false, ok := true }).w := by
      rw [h3]
      refine ⟨fun m' hm' => ?_, rfl, rfl⟩
      obtain rfl := Option.some.inj hm'
      exact (afterUmounts_any env q m).2 (h.resolve_right hki)
    have hc' := eval_inv (exec p env) (Calm s.w.sdcard s.w.rmMounted) false (removeDir q)
      (fun _ hc _ h => h.exec p env (mem_removeDir hc)) _ hc
    exact ⟨hc'.record, Or.inr hc'⟩

theorem rmMounted_mono {c : Cmd} {w : World} (h : w.rmMounted = true) : (exec p env c w).2.rmMounted = true := by
  by_cases hc : ∃ q, c = .rmAll q
  · obtain ⟨q, rfl⟩ := hc
    simp [exec, h]
  · rw [exec_rmMounted p env (fun q hq => hc ⟨q, hq⟩), h]

/-- **An `umount` fails: `rm -rf` runs on the mounted file systems** -/
theorem umountAll_busy {q : Pass} {s : St Cmd World} (hr : s.out = .run) {m : Mounts} (hm : s.w.rootfs_dir = some m)
    (h : ¬ UmountsOk env q m) : (eval (exec p env) false (UMOUNT_ALL q) s).w.rmMounted = true := by
  rw [umountAll_w p env q s hr]
  obtain ⟨-, hn⟩ := umounts_spec p env q { s with e := false, ok := true } hr rfl hm
  simp only [UmountsOk, not_or] at h
  obtain ⟨h1, h2, h3⟩ := hn h.2
  have hany : (afterUmounts env q m).any = true := by
    by_contra hf
    exact h.1 ((afterUmounts_any env q m).1 (by simpa using hf))
  rw [inside, eval_seq_eq _ _ _ _ _ h1]
  generalize eval (exec p env) false (umounts q) { s with e := false, ok := true } = t at *
  obtain ⟨w1, -, -⟩ := eval_cond_loose (exec p env) (·.rootfs_dir.isSome) (.rmAll q) t h2 h1
  have ht : (eval (exec p env) false (.cond (·.rootfs_dir.isSome) (.cmd (.rmAll q)) .tt) t).w.rmMounted = true := by
    rw [w1, h3]
    simp [exec, hany]
  exact next_w (I := fun w : World => w.rmMounted = true) ht fun _ =>
    eval_inv (exec p env) (fun w => w.rmMounted = true) false _ (fun _ _ _ h => rmMounted_mono p env h) _ ht

/-! ### How a call ends -/

theorem rmAll_killed (q : Pass) (w : World) :
    (exec p env (.rmAll q) w).1 = .killed ↔ (env (.rmAll q)).stat = .killed := by
  cases h : env (.rmAll q) <;> cases hd : w.rootfs_dir <;> simp [exec, rmDir, h, hd, Resp.stat]
  split_ifs <;> simp

/-- `kpartx -d`, `losetup -d` and `device=""`, with errexit off -/
theorem detach_spec (q : Pass) (t : St Cmd World) (hr : t.out = .run) (he : t.e = false) :
    ((eval (exec p env) false (block [.kpartxDel q, .losetupDel q, .clearDevice q]) t).out = .run ↔
      ∀ c ∈ [Cmd.kpartxDel q, .losetupDel q, .clearDevice q], (env c).stat ≠ .killed) ∧
    ((eval (exec p env) false (block [.kpartxDel q, .losetupDel q, .clearDevice q]) t).out = .run →
      (eval (exec p env) false (block [.kpartxDel q, .losetupDel q, .clearDevice q]) t).w =
        { t.w with device := false }) := by
  have hst : ∀ c ∈ [Cmd.kpartxDel q, .losetupDel q, .clearDevice q], ∀ w, (exec p env c w).1 =
      if c = .clearDevice q ∧ (env c).stat ≠ .killed then .ok else (env c).stat := by
    intro c hc w
    simp only [List.mem_cons, List.not_mem_nil, or_false] at hc
    rcases hc with rfl | rfl | rfl
    · rw [exec_plain p env rfl]; simp [stat, badInput]
    · rw [exec_plain p env rfl]; simp [stat, badInput]
    · cases h : env (.clearDevice q) <;> simp [exec, h, Resp.stat]
  have hiff := eval_block_loose hst t he hr
  refine ⟨hiff.trans (forall₂_congr fun c _ => ?_), fun h => ?_⟩
  · split_ifs with h
    · simpa using h.2
    · rfl
  · have h3 := hiff.1 h (.clearDevice q) (by simp)
    obtain ⟨hw, -, -⟩ := eval_block_run (exec p env) false _ t h
    rw [hw]
    simp only [effect_cons, effect_nil, exec_plain p env (show (Cmd.kpartxDel q).plain = true from rfl),
      exec_plain p env (show (Cmd.losetupDel q).plain = true from rfl), puts, put_nil, ite_self]
    cases hcl : env (.clearDevice q) <;> simp_all [exec, Resp.stat]

/-- what is left of `rootfs_dir` by `rm -rf` with nothing mounted -/
theorem rmAll_exec {q : Pass} {w : World} {m : Mounts} (hd : w.rootfs_dir = some m) (hm : m.any = false) :
    (exec p env (.rmAll q) w).2.rootfs_dir = (if env (.rmAll q) = .ok then none else some m) ∧
      (exec p env (.rmAll q) w).2.device = w.device := by
  cases h : env (.rmAll q) with
  | ok => simp [exec, rmDir, h, hd, hm]
  | fail b | kill b => cases b <;> simp [exec, rmDir, h, hd, Resp.part]

/-- the end of a call that finds nothing mounted any more -/
theorem removeDir_spec (q : Pass) (t : St Cmd World) (hr : t.out = .run) (he : t.e = false) (hu : Unmounted t.w) :
    ((eval (exec p env) false (removeDir q) t).out = .run ↔
      (t.w.rootfs_dir.isSome → (env (.rmAll q)).stat ≠ .killed) ∧
      (t.w.device = true → ∀ c ∈ [Cmd.kpartxDel q, .losetupDel q, .clearDevice q], (env c).stat ≠ .killed)) ∧
    ((eval (exec p env) false (removeDir q) t).out = .run →
      (eval (exec p env) false (removeDir q) t).w.device = false ∧
      ((eval (exec p env) false (removeDir q) t).w.rootfs_dir.isSome ↔
        t.w.rootfs_dir.isSome ∧ env (.rmAll q) ≠ .ok)) := by
  obtain ⟨w1, e1, o1⟩ := eval_cond_loose (exec p env) (·.rootfs_dir.isSome) (.rmAll q) t he hr
  simp only [rmAll_killed] at o1
  by_cases hk : t.w.rootfs_dir.isSome = true ∧ (env (.rmAll q)).stat = .killed
  · rw [if_pos hk] at o1
    rw [removeDir, eval_seq_stop _ _ _ _ _ (by simp [o1]), o1]
    simp [hk]
  rw [if_neg hk] at o1
  have hd : (eval (exec p env) false (.cond (·.rootfs_dir.isSome) (.cmd (.rmAll q)) .tt) t).w.device = t.w.device ∧
      ((eval (exec p env) false (.cond (·.rootfs_dir.isSome) (.cmd (.rmAll q)) .tt) t).w.rootfs_dir.isSome ↔
        t.w.rootfs_dir.isSome ∧ env (.rmAll q) ≠ .ok) := by
    rw [w1]
    cases hd : t.w.rootfs_dir with
    | none => simp [hd]
    | some m =>
      obtain ⟨h1, h2⟩ := rmAll_exec p env (q := q) hd (hu m hd)
      simp only [Option.isSome_some, if_true, h1, h2, true_and]
      split_ifs with h <;> simp [h]
  rw [removeDir, eval_seq_eq _ _ _ _ _ o1]
  generalize eval (exec p env) false (.cond (·.rootfs_dir.isSome) (.cmd (.rmAll q)) .tt) t = u at *
  have hk' : t.w.rootfs_dir.isSome = true → (env (.rmAll q)).stat ≠ .killed := fun h1 h2 => hk ⟨h1, h2⟩
  rw [eval]
  cases hdev : u.w.device with
  | false =>
    rw [if_neg (by simp), ← hd.1, hdev]
    exact ⟨⟨fun _ => ⟨hk', by simp⟩, fun _ => o1⟩, fun _ => ⟨hdev, hd.2⟩⟩
  | true =>
    obtain ⟨h1, h2⟩ := detach_spec p env q u o1 e1
    rw [if_pos rfl]
    refine ⟨?_, fun h => ?_⟩
    · rw [h1, ← hd.1, hdev]
      exact ⟨fun h => ⟨hk', fun _ => h⟩, fun h => h.2 rfl⟩
    · rw [h2 h]
      exact ⟨rfl, hd.2⟩

/-- the `umount`s of a call that finds nothing mounted, or succeeds in taking it down -/
theorem umounts_clean (q : Pass) (s : St Cmd World) (hr : s.out = .run) (he : s.e = false)
    (hc : ∀ m, s.w.rootfs_dir = some m → Clean env q m) :
    (eval (exec p env) false (umounts q) s).out = .run ∧ (eval (exec p env) false (umounts q) s).e = false ∧
      Unmounted (eval (exec p env) false (umounts q) s).w ∧
      (eval (exec p env) false (umounts q) s).w.rootfs_dir.isSome = s.w.rootfs_dir.isSome ∧
      (eval (exec p env) false (umounts q) s).w.device = s.w.device := by
  cases hd : s.w.rootfs_dir with
  | none => simp [umounts, eval, hd, hr, he, St.next, Unmounted]
  | some m =>
    have hm := hc m hd
    have hk : ¬ KilledIn env q m := by
      rintro (⟨h1, h2⟩ | ⟨h1, h2⟩)
      · simp [hm.1 h1, Resp.stat] at h2
      · simp [hm.2 h1, Resp.stat] at h2
    obtain ⟨-, hn⟩ := umounts_spec p env q s hr he hd
    obtain ⟨h1, h2, h3⟩ := hn hk
    rw [h3]
    refine ⟨h1, h2, fun m' hm' => ?_, rfl, rfl⟩
    obtain rfl := Option.some.inj hm'
    exact (afterUmounts_any env q m).2 hm

/-- **How a call ends whose `umount`s succeed** -/
theorem umountAll_clean (q : Pass) (s : St Cmd World) (hr : s.out = .run)
    (hc : ∀ m, s.w.rootfs_dir = some m → Clean env q m) :
    ((eval (exec p env) false (UMOUNT_ALL q) s).out = .run ↔
      (s.w.rootfs_dir.isSome → (env (.rmAll q)).stat ≠ .killed) ∧
      (s.w.device = true → ∀ c ∈ [Cmd.kpartxDel q, .losetupDel q, .clearDevice q], (env c).stat ≠ .killed)) ∧
    ((eval (exec p env) false (UMOUNT_ALL q) s).out = .run →
      (eval (exec p env) false (UMOUNT_ALL q) s).w.device = false ∧
      ((eval (exec p env) false (UMOUNT_ALL q) s).w.rootfs_dir.isSome ↔
        s.w.rootfs_dir.isSome ∧ env (.rmAll q) ≠ .ok)) := by
  obtain ⟨h1, h2, h3, h4, h5⟩ := umounts_clean p env q { s with e := false, ok := true } hr rfl hc
  have h := removeDir_spec p env q _ h1 h2 h3
  rw [h4, h5] at h
  rw [umountAll_out p env q s hr, umountAll_w p env q s hr, inside, eval_seq_eq _ _ _ _ _ h1]
  exact h

end AvaotaOS.Pack
