/-
When `init-resize.sh` disables its service.

`resize_root` is the condition of an `if`, so that errexit is ignored inside it, and it ends with `return 0`: the script
always comes to `systemctl disable`, and the line `Fail to root!` is never written. The service is right to be disabled
only where there was nothing to do or everything succeeded.

- `grown_iff`: where that is, in terms of the table and of what the programs answer.
- `outcome_iff`: the service is disabled as it should be exactly there.
- `disabled_after_failure`: `fdisk` fails, and the service is disabled.
-/
import Mathlib.Tactic
import AvaotaOS.Device.ResizeSafe

namespace AvaotaOS.InitResize

open Shell Text

/-- the root partition has the space available to it: it had it before, or `fdisk` and `resize2fs` have succeeded, the
partition now ends with its segment and the file system with the partition -/
def Grown (n : ℕ) (m : Machine) (s : St Cmd World) : Prop :=
  m.table.atEnd n = true ∨
    (Cmd.fdisk, true) ∈ s.log ∧ (Cmd.resize2fs, true) ∈ s.log ∧ s.w.m.table.atEnd n = true ∧
      ∃ p, s.w.m.table.entry n = some p ∧ p.stop = s.w.m.fsEnd

/-- **The service is disabled after success only**, and stays enabled with a line in the log otherwise -/
structure Outcome (d : Root) (e : Env) (m : Machine) : Prop where
  disabled : (∃ b, (Cmd.disable, b) ∈ (init_resize d e m).log) → Grown d.num m (init_resize d e m)
  retried : ¬ Grown d.num m (init_resize d e m) →
    (∀ b, (Cmd.disable, b) ∉ (init_resize d e m).log) ∧ LogLine.failed ∈ (init_resize d e m).w.m.log

/-- the script gets what it needs: every program answers, no other number begins with that of the root partition, and
`fdisk` and `resize2fs` succeed, the former also in a dialogue about a logical partition -/
structure Works (d : Root) (e : Env) (m : Machine) (p : Partition) : Prop where
  located : Located e
  alone : m.table.Alone d.num
  fdisk : e.fdisk = true
  resize2fs : e.resize2fs = true
  dialogue : p.kind = .primary ∨ (e.garbled m.table).atEnd d.num = true

section Outcome

variable (d : Root) (e : Env) (m : Machine) {p : Partition}

theorem always_disabled : (Cmd.disable, true) ∈ (init_resize d e m).log := by
  rw [(init_resize_run d e m).2]
  simp

theorem resize2fs_log {b : Bool} (h : (Cmd.resize2fs, b) ∈ (init_resize d e m).log) : b = e.resize2fs := by
  rw [(init_resize_run d e m).2] at h
  cases hs : smaller (inspected d e m) with
  | false => simp [hs, trace, inspect] at h
  | true => cases hr : e.resize2fs <;> simp [hs, trace, inspect, grow, exec, hr] at h <;> simp [h]

/-- both programs succeed: the file system ends with the partition -/
theorem run_grow (hs : smaller (inspected d e m) = true) (hf : e.fdisk = true) (hr : e.resize2fs = true) :
    (Cmd.fdisk, true) ∈ (init_resize d e m).log ∧ (Cmd.resize2fs, true) ∈ (init_resize d e m).log ∧
      (init_resize d e m).w.m.fsEnd =
        (((init_resize d e m).w.m.table.entry d.num).map (·.stop)).getD m.fsEnd := by
  have hm := inspected_m d e m
  refine ⟨?_, ?_, ?_⟩
  · rw [(init_resize_run d e m).2]
    simp [hs, trace, grow, exec, hf]
  · rw [(init_resize_run d e m).2]
    simp [hs, trace, grow, exec, hr]
  · rw [(init_resize_run d e m).1, resized]
    simp [hs, grow, exec, World.say, hm, hf, hr]

variable {m}

/-- a partition that does not end with its segment does not end with the disk -/
theorem stop_lt_size (hv : m.table.Valid) (hp : m.table.entry d.num = some p) (h : ¬ m.table.atEnd d.num = true) :
    p.stop + 1 < m.table.size := by
  obtain ⟨hm, -⟩ := Table.entry_mem hp
  rw [Table.atEnd, hp, Option.any_some, decide_eq_true_eq] at h
  have h1 := hv.stop_le_segEnd hm
  have h2 := Table.segEnd_le_bound (t := m.table) p
  have h3 := hv.bound_le p hm
  have h4 := hv.last_lt
  omega

/-- what the dialogue makes of the table, at the end of the root's segment or not -/
theorem dialogue_atEnd (hv : m.table.Valid) (hp : m.table.entry d.num = some p) (hs : smaller (inspected d e m) = true) :
    (dialogue e (inspected d e m).PART_NUM (inspected d e m).PART_START m.table).atEnd d.num = true ↔
      p.kind = .primary ∨ (e.garbled m.table).atEnd d.num = true := by
  obtain ⟨hm, hn⟩ := Table.entry_mem hp
  by_cases hk : p.kind = .primary
  · rw [dialogue_eq d e hv hp hk hs, ← hn, (hv.recreate_atEnd hm hk).1]
    simp [hk]
  · have hfree : m.table.free d.num p.start = false := by
      simp [Table.free, hp, hk]
    obtain ⟨hnum, hstart⟩ := dialogue_words d e hv hp hs
    rw [hnum, hstart]
    simp only [dialogue, number_decimal, hfree, Bool.false_eq_true, if_false, hk, false_or]

/-- **Where the root partition has its space after a run** -/
theorem grown_iff (hv : m.table.Valid) (hp : m.table.entry d.num = some p) :
    Grown d.num m (init_resize d e m) ↔ m.table.atEnd d.num = true ∨ Works d e m p := by
  by_cases hend : m.table.atEnd d.num = true
  · simp [Grown, hend]
  · rw [Grown, or_iff_right hend, or_iff_right hend]
    have hlt := stop_lt_size d hv hp hend
    have hsm := smaller_iff d e hv hp
    constructor
    · rintro ⟨hlf, hlr, hat, -⟩
      obtain ⟨hs, hf⟩ := fdisk_log d e m hlf
      have hr := resize2fs_log d e m hlr
      obtain ⟨hl, ha, -⟩ := hsm.1 hs
      rw [init_resize_table, if_pos ⟨hs, hf.symm⟩] at hat
      exact ⟨hl, ha, hf.symm, hr.symm, (dialogue_atEnd d e hv hp hs).1 hat⟩
    · intro h
      have hs : smaller (inspected d e m) = true := hsm.2 ⟨h.located, h.alone, hlt⟩
      obtain ⟨hlf, hlr, hfs⟩ := run_grow d e m hs h.fdisk h.resize2fs
      have hat : (init_resize d e m).w.m.table.atEnd d.num = true := by
        rw [init_resize_table, if_pos ⟨hs, h.fdisk⟩]
        exact (dialogue_atEnd d e hv hp hs).2 h.dialogue
      refine ⟨hlf, hlr, hat, ?_⟩
      rw [Table.atEnd] at hat
      cases he : (init_resize d e m).w.m.table.entry d.num with
      | none => simp [he] at hat
      | some q => exact ⟨q, rfl, by rw [hfs, he]; rfl⟩

end Outcome

/-- **`init-resize.sh` disables its service as it should exactly where there was nothing to do or everything worked**; for
every valid table, every number of the root partition and whatever the programs answer -/
theorem outcome_iff (d : Root) (e : Env) (m : Machine) (p : Partition) (hv : m.table.Valid)
    (hp : m.table.entry d.num = some p) :
    Outcome d e m ↔ m.table.atEnd d.num = true ∨ Works d e m p := by
  rw [← grown_iff d e hv hp]
  constructor
  · intro h
    exact h.disabled ⟨true, always_disabled d e m⟩
  · intro h
    exact ⟨fun _ => h, fun hn => absurd h hn⟩

/-- everything answers on the card -/
theorem outcome_card : Outcome mmcblk0p2 answers card := by
  apply (outcome_iff mmcblk0p2 answers card ⟨2, 524288, 3670015, .primary⟩ card_valid (by decide)).2
  right
  exact ⟨⟨rfl, rfl, rfl⟩, by unfold Table.Alone; decide, rfl, rfl, Or.inl rfl⟩

/-- **`fdisk` fails, and the service is disabled**: the next boot does not try again -/
theorem disabled_after_failure : ¬ Outcome mmcblk0p2 { answers with fdisk := false } card := by
  intro h
  have hg := h.disabled ⟨true, always_disabled _ _ _⟩
  rw [grown_iff _ _ card_valid (p := ⟨2, 524288, 3670015, .primary⟩) (by decide)] at hg
  rcases hg with hend | hw
  · exact absurd hend (by decide)
  · exact absurd hw.fdisk (by simp)

end AvaotaOS.InitResize
