/-
A failed installation or upgrade of one package, with dpkg's unwinding.

The preinst takes `/boot/Image` (or `/boot/dtb`) away first, and nothing dpkg does when the attempt fails brings it back:
the rollback knows the packaged names only, and the old postinst, which is called to abort the upgrade, looks for a file
that has been renamed long ago.

- `preinst_gone`: after the preinst has removed anything the name is gone.
- `attempt_gone`, `attempt_spared`: a failed attempt ends with the name gone, or with the device as it was.
- `bootable_iff`: which of them, for every way of failing.
- `full_boot_unbootable`: /boot is full when the kernel is unpacked.
-/
import Mathlib.Tactic
import AvaotaOS.Device.Rerun
import AvaotaOS.Device.BootFiles

namespace AvaotaOS.KernelDeb

open Shell

/-! ## An attempt -/

/-- the scripts that dpkg may call -/
inductive Call where
  | oldPrerm
  | newPrermFailedUpgrade
  | newPreinst
  | oldPostrm
  | newPostrmFailedUpgrade
  | newPostinst
  | oldPreinstAbortUpgrade
  | newPostrmAbortUpgrade
  | newPostrmAbortInstall
  | oldPostinstAbortUpgrade
deriving DecidableEq, Repr

section Attempt

variable (env : Call → Cmd → Resp) (d : Deb) (old : Option (Version d.name))

/-- the old postinst, if the old package was configured -/
def abortUpgrade (w : Device) : Device :=
  match old with
  | some ⟨o, _, true⟩ => (call o.LINUX_VERSION (env .oldPostinstAbortUpgrade) (postinst o.part) w).2
  | _ => w

/-- the new package goes, the old one comes back -/
def unwind (w : Device) : Device :=
  match old with
  | none => (call d.LINUX_VERSION (env .newPostrmAbortInstall) (postrm d.part) w).2
  | some _ =>
    let r := call d.LINUX_VERSION (env .newPostrmAbortUpgrade) (postrm d.part) w
    if r.1 then abortUpgrade env d old r.2 else r.2

/-- the old version lets go of its files: the prerm, or the new one's -/
def prermStage (w : Device) : Bool × Device :=
  match old with
  | some ⟨o, _, true⟩ =>
    let r := call o.LINUX_VERSION (env .oldPrerm) (prerm o.part) w
    if r.1 then r else call d.LINUX_VERSION (env .newPrermFailedUpgrade) (prerm d.part) r.2
  | _ => (true, w)

/-- the postrm of the old version, or the new one's -/
def postrmStage (w : Device) : Bool × Device :=
  match old with
  | none => (true, w)
  | some ⟨o, _, _⟩ =>
    let r := call o.LINUX_VERSION (env .oldPostrm) (postrm o.part) w
    if r.1 then r else call d.LINUX_VERSION (env .newPostrmFailedUpgrade) (postrm d.part) r.2

/-- undo the unpacking -/
def unwindUnpacked (w : Device) : Device :=
  match old with
  | none => unwind env d old (removeFiles d none w)
  | some ⟨o, _, _⟩ =>
    let r := call o.LINUX_VERSION (env .oldPreinstAbortUpgrade) (preinst o.part) w
    if r.1 then unwind env d old (removeFiles d none r.2) else removeFiles d none r.2

/-- install `d` in place of `old`; `unpacks` says whether there is room for the files. Does it succeed, and what is the device
then -/
def attempt (unpacks : Bool) (w : Device) : Bool × Device :=
  let p := prermStage env d old w
  if p.1 then
    let i := call d.LINUX_VERSION (env .newPreinst) (preinst d.part) p.2
    if i.1 then
      if unpacks then
        let r := postrmStage env d old (unpack d i.2)
        if r.1 then call d.LINUX_VERSION (env .newPostinst) (postinst d.part) (replaced d old r.2)
        else (false, unwindUnpacked env d old r.2)
      else (false, unwind env d old i.2)
    else (false, unwind env d old i.2)
  else (false, abortUpgrade env d old p.2)

end Attempt

/-! ## What the board boots from -/

/-- `/boot/Image` and `/boot/dtb` are there, and complete -/
structure Bootable (w : Device) : Prop where
  image : ∃ c, w.image = some c ∧ c.complete = true
  dtb : ∃ t, w.dtb = some t ∧ t.tree.complete = true

/-- each of the two is what it was, or the content of the new package -/
structure Kept (d : Deb) (w w' : Device) : Prop where
  image : w'.image = w.image ∨ w'.image = some ⟨d, true⟩
  dtb : w'.dtb = w.dtb ∨ w'.dtb = some ⟨⟨d, true⟩, []⟩

/-- what lies under the packaged name of a version -/
def packaged : Part → String → Device → Option Content
  | .dtb, v, w => w.dtbVer v
  | .image, v, w => w.vmlinuz v

/-- a configured version has been renamed -/
def Renamed (d : Deb) (old : Option (Version d.name)) (w : Device) : Prop :=
  ∀ o, old = some o → o.configured = true → packaged d.part o.deb.LINUX_VERSION w = none

/-- the scripts of the old version, and the new one's in their place, do not let it be replaced -/
def Refused (env : Call → Cmd → Resp) (d : Deb) (old : Option (Version d.name)) : Prop :=
  d.part = .image ∧ (∃ o, old = some o ∧ o.configured = true) ∧
    hooksPass (env .oldPrerm) .prerm = false ∧ hooksPass (env .newPrermFailedUpgrade) .prerm = false

/-- the preinst fails before it has removed anything -/
def Spared (p : Part) (env : Cmd → Resp) : Prop :=
  match p with
  | .dtb => env .rmDtb ≠ .ok ∧ (env .rmDtb).part = false
  | .image => hooksPass env .preinst = false ∨ (env .rmBoot ≠ .ok ∧ (env .rmBoot).part = false)

/-- there is nothing to boot under the name of the part -/
def Gone : Part → Device → Prop
  | .dtb, w => ∀ t, w.dtb = some t → t.tree.complete = false
  | .image, w => w.image = none

/-! ## One script -/

section Scripts

variable {v : String} {env : Cmd → Resp} {w : Device}

theorem mvDtb_fails (h : (mvDtb v w).1 ≠ .ok) : (mvDtb v w).2 = w := by
  unfold mvDtb at h ⊢
  split at h
  · rfl
  · simp at h
  · split_ifs at h ⊢
    · rfl
    · simp at h

theorem mvImage_fails (h : (mvImage v w).1 ≠ .ok) : (mvImage v w).2 = w := by
  unfold mvImage at h ⊢
  split at h
  · rfl
  · simp at h

/-- a postinst that fails has done nothing -/
theorem postinst_fails {p : Part} (h : (call v env (postinst p) w).1 = false) : (call v env (postinst p) w).2 = w := by
  cases p with
  | dtb =>
    rw [call_postinst_dtb] at h ⊢
    split_ifs at h ⊢
    · have hno := of_decide_eq_false h
      cases he : env .mvDtb <;> simp only [exec, he] at hno ⊢
      exact mvDtb_fails hno
    · rfl
  | image =>
    rw [call_postinst_image] at h ⊢
    split_ifs at h ⊢
    · have hno := of_decide_eq_false h
      cases he : env .mvImage <;> simp only [exec, he] at hno ⊢
      exact mvImage_fails hno
    · rfl

/-- there is nothing to rename -/
theorem postinst_missing {p : Part} (h : packaged p v w = none) : call v env (postinst p) w = (false, w) := by
  have hf : (call v env (postinst p) w).1 = false := by
    cases p with
    | dtb =>
      rw [call_postinst_dtb]
      split_ifs
      · refine decide_eq_false fun hok => mvDtb_missing h ?_
        have he := exec_mvDtb hok
        rwa [he] at hok
      · rfl
    | image =>
      rw [call_postinst_image]
      split_ifs
      · refine decide_eq_false fun hok => mvImage_missing h ?_
        have he := exec_mvImage hok
        rwa [he] at hok
      · rfl
  exact Prod.ext hf (postinst_fails hf)

theorem preinst_packaged {p : Part} {v' : String} (h : packaged p v' w = none) :
    packaged p v' (call v env (preinst p) w).2 = none := by
  cases p with
  | dtb =>
    have h : w.dtbVer v' = none := h
    rw [call_preinst_dtb]
    cases h1 : env .rmDtb <;> cases h2 : env .rmDtbVer <;> simp [packaged, exec, h1, h2, Function.update_apply, h] <;>
      split <;> simp [h]
  | image =>
    have h : w.vmlinuz v' = none := h
    rw [call_preinst_image]
    split_ifs
    · cases h1 : env .rmBoot <;> simp only [packaged, exec, h1] <;> split <;> simp [h]
    · exact h

theorem preinst_spared {p : Part} (h : Spared p env) : call v env (preinst p) w = (false, w) := by
  cases p with
  | dtb =>
    obtain ⟨hno, hpart⟩ := h
    rw [call_preinst_dtb, if_neg hno]
    cases he : env .rmDtb <;> simp_all [exec]
  | image =>
    rw [call_preinst_image]
    split_ifs with hpass
    · rcases h with h | ⟨hno, hpart⟩
      · exact absurd (hpass.symm.trans h) (by simp)
      · cases he : env .rmBoot <;> simp_all [exec]
    · rfl

/-- **The preinst takes the name away** -/
theorem preinst_gone {p : Part} (h : ¬ Spared p env) : Gone p (call v env (preinst p) w).2 := by
  cases p with
  | dtb =>
    rw [call_preinst_dtb]
    unfold Spared at h
    cases h1 : env .rmDtb <;> cases h2 : env .rmDtbVer <;> simp_all [Gone, exec, Resp.part]
  | image =>
    unfold Spared at h
    rw [not_or] at h
    obtain ⟨hpass, hrm⟩ := h
    rw [call_preinst_image, if_pos (by simpa using hpass)]
    cases h1 : env .rmBoot <;> simp_all [Gone, exec, Resp.part]

theorem preinst_stays_gone {p : Part} (h : Gone p w) : Gone p (call v env (preinst p) w).2 := by
  by_cases hs : Spared p env
  · rw [preinst_spared hs]
    exact h
  · exact preinst_gone hs

end Scripts

/-! ## Unwinding -/

section Unwind

variable {env : Call → Cmd → Resp} {d : Deb} {old : Option (Version d.name)} {w : Device}

/-- **The old postinst cannot bring anything back** -/
theorem abortUpgrade_eq (h : Renamed d old w) : abortUpgrade env d old w = w := by
  unfold abortUpgrade
  split
  · rename_i o ho
    have hp : o.part = d.part := congrArg Prod.fst ho
    have hmiss := h _ rfl rfl
    rw [← hp] at hmiss
    rw [postinst_missing hmiss]
  · rfl

theorem unwind_eq (h : Renamed d old w) : unwind env d old w = w := by
  unfold unwind
  split
  · rw [call_postrm]
  · simp only [call_postrm]
    split_ifs
    · exact abortUpgrade_eq h
    · rfl

theorem prermStage_dev : (prermStage env d old w).2 = w := by
  unfold prermStage
  split
  · simp only [call_prerm]
    split_ifs <;> rfl
  · rfl

theorem postrmStage_dev : (postrmStage env d old w).2 = w := by
  unfold postrmStage
  split
  · rfl
  · simp only [call_postrm]
    split_ifs <;> rfl

/-- the prerm stage stops an attempt exactly where both scripts of an image package do -/
theorem prermStage_iff : (prermStage env d old w).1 = false ↔ Refused env d old := by
  unfold prermStage Refused
  split
  · rename_i o ho
    have hp : o.part = d.part := congrArg Prod.fst ho
    simp only [call_prerm, hp]
    cases hd : d.part <;> cases h1 : hooksPass (env .oldPrerm) .prerm <;>
      cases h2 : hooksPass (env .newPrermFailedUpgrade) .prerm <;> simp
  · rename_i hno
    simp only [Bool.true_eq_false, false_iff, not_and]
    rintro - ⟨⟨o, ho, c⟩, rfl, hc⟩
    obtain rfl : c = true := hc
    exact absurd rfl (hno o ho)

theorem Renamed.preinst (h : Renamed d old w) {v : String} {e : Cmd → Resp} {p : Part} (hp : p = d.part) :
    Renamed d old (call v e (preinst p) w).2 := by
  subst hp
  exact fun o ho hc => preinst_packaged (h o ho hc)

theorem Gone.removeFiles {p : Part} (h : Gone p w) (k : Option String) : Gone p (removeFiles d k w) := by
  cases p with
  | dtb => exact fun t ht => h t (by rwa [removeFiles_dtb] at ht)
  | image => exact (removeFiles_image d k w).trans h

theorem Gone.unpack {p : Part} (h : Gone p w) : Gone p (unpack d w) := by
  unfold KernelDeb.unpack
  cases p <;> cases d.part <;> exact h

/-- what has been unpacked goes again, whatever has been renamed or removed in between -/
theorem Renamed.rollback {w' : Device} (h : Renamed d old w)
    (hw : ∀ v, packaged d.part v (KernelDeb.unpack d w) = none → packaged d.part v w' = none) :
    Renamed d old (KernelDeb.removeFiles d none w') := by
  intro o ho hc
  have hmiss := h o ho hc
  have hkeep := hw o.deb.LINUX_VERSION
  unfold packaged KernelDeb.removeFiles KernelDeb.unpack at *
  by_cases hv : o.deb.LINUX_VERSION = d.LINUX_VERSION
  · cases hd : d.part <;> simp [hv]
  · cases hd : d.part <;> simp_all

theorem unwindUnpacked_gone (h : Renamed d old w) (hg : Gone d.part w) :
    Gone d.part (unwindUnpacked env d old (unpack d w)) := by
  unfold unwindUnpacked
  split
  · rw [unwind_eq (by rintro _ ⟨⟩)]
    exact (hg.unpack).removeFiles none
  · rename_i o ho c
    have hp : o.part = d.part := congrArg Prod.fst ho
    rw [hp]
    have hg' : Gone d.part (call o.LINUX_VERSION (env .oldPreinstAbortUpgrade) (preinst d.part) (unpack d w)).2 :=
      preinst_stays_gone hg.unpack
    simp only
    split_ifs
    · rw [unwind_eq (h.rollback fun v hv => preinst_packaged hv)]
      exact hg'.removeFiles none
    · exact hg'.removeFiles none

/-- **How a failed attempt ends**: with the device as it was, if the preinst did not get to remove anything, and else with
the name gone -/
theorem attempt_fails {unpacks : Bool} (h : Renamed d old w) (hfail : (attempt env d old unpacks w).1 = false) :
    (Refused env d old ∨ Spared d.part (env .newPreinst)) ∧ (attempt env d old unpacks w).2 = w ∨
      ¬ (Refused env d old ∨ Spared d.part (env .newPreinst)) ∧ Gone d.part (attempt env d old unpacks w).2 := by
  unfold attempt at hfail ⊢
  simp only [prermStage_dev] at hfail ⊢
  by_cases href : Refused env d old
  · left
    rw [if_neg (by simp [prermStage_iff.2 href]), abortUpgrade_eq h]
    exact ⟨Or.inl href, rfl⟩
  have hprerm : (prermStage env d old w).1 = true := by
    rw [← Bool.not_eq_false, prermStage_iff]
    exact href
  rw [if_pos hprerm] at hfail ⊢
  by_cases hsp : Spared d.part (env .newPreinst)
  · left
    simp only [preinst_spared hsp, Bool.false_eq_true, if_false]
    rw [unwind_eq h]
    exact ⟨Or.inr hsp, rfl⟩
  right
  refine ⟨not_or.2 ⟨href, hsp⟩, ?_⟩
  generalize hi : call d.LINUX_VERSION (env .newPreinst) (preinst d.part) w = i at hfail ⊢
  have hgone : Gone d.part i.2 := hi ▸ preinst_gone hsp
  have hren : Renamed d old i.2 := hi ▸ h.preinst rfl
  simp only [postrmStage_dev] at hfail ⊢
  split_ifs at hfail ⊢
  · -- the new postinst fails
    rw [postinst_fails hfail]
    unfold replaced
    split
    · exact hgone.unpack.removeFiles _
    · exact hgone.unpack
  · exact unwindUnpacked_gone hren hgone
  · rw [unwind_eq hren]
    exact hgone
  · rw [unwind_eq hren]
    exact hgone

theorem not_kept_of_gone {p : Part} {w' : Device} (hb : Bootable w) (hg : Gone p w') : ¬ Kept d w w' := by
  intro hk
  cases p with
  | dtb =>
    obtain ⟨t, ht, hc⟩ := hb.dtb
    rcases hk.dtb with hd | hd
    · exact absurd (hg t (hd.trans ht)) (by simp [hc])
    · exact absurd (hg _ hd) (by simp)
  | image =>
    have hg : w'.image = none := hg
    obtain ⟨c, hc, -⟩ := hb.image
    rcases hk.image with hi | hi
    · rw [hg, hc] at hi
      exact absurd hi (by simp)
    · rw [hg] at hi
      exact absurd hi (by simp)

end Unwind

/-- **A failed installation or upgrade leaves the board bootable exactly where it fails before its preinst has removed
anything** -/
theorem bootable_iff (env : Call → Cmd → Resp) (unpacks : Bool) (d : Deb) (old : Option (Version d.name)) (w : Device)
    (hb : Bootable w) (hold : Renamed d old w) (hfail : (attempt env d old unpacks w).1 = false) :
    Kept d w (attempt env d old unpacks w).2 ↔ Refused env d old ∨ Spared d.part (env .newPreinst) := by
  rcases attempt_fails hold hfail with ⟨hc, hw⟩ | ⟨hc, hg⟩
  · rw [hw]
    exact ⟨fun _ => hc, fun _ => ⟨Or.inl rfl, Or.inl rfl⟩⟩
  · exact ⟨fun hk => absurd hk (not_kept_of_gone hb hg), fun h => absurd h hc⟩

/-! ## An upgrade of the A1's kernel -/

def a1Image (v : String) : Deb := ⟨.image, "sun55i-t527-bsp", v, 0⟩

/-- a device that runs 5.15.154 -/
def running : Device :=
  { bare with dtb := some ⟨⟨a1Dtb, true⟩, []⟩, image := some ⟨a1Image "5.15.154", true⟩ }

theorem running_bootable : Bootable running := ⟨⟨_, rfl, rfl⟩, ⟨_, rfl, rfl⟩⟩

def a1Old : Option (Version (a1Image "5.15.155").name) := some ⟨a1Image "5.15.154", rfl, true⟩

/-- a hook in /etc/kernel/preinst.d refuses the upgrade -/
def hookRefuses : Call → Cmd → Resp
  | .newPreinst, .runParts .preinst => .fail false
  | _, _ => .ok

/-- the old kernel is kept -/
theorem hook_refuses_kept :
    Kept (a1Image "5.15.155") running (attempt hookRefuses (a1Image "5.15.155") a1Old true running).2 := by
  apply (bootable_iff hookRefuses true (a1Image "5.15.155") a1Old running running_bootable _ (by decide)).2
  · exact Or.inr (Or.inl (by decide))
  · intro o ho hc
    rfl

/-- **/boot is full**: the upgrade fails when the new kernel is unpacked, and the old one is gone -/
theorem full_boot_unbootable :
    Bootable running ∧ (attempt (fun _ => works) (a1Image "5.15.155") a1Old false running).1 = false ∧
      ¬ Kept (a1Image "5.15.155") running (attempt (fun _ => works) (a1Image "5.15.155") a1Old false running).2 := by
  refine ⟨running_bootable, by decide, fun hk => ?_⟩
  have hnone : (attempt (fun _ => works) (a1Image "5.15.155") a1Old false running).2.image = none := by decide
  rcases hk.image with hi | hi <;> rw [hnone] at hi <;> exact absurd hi (by decide)

end AvaotaOS.KernelDeb
