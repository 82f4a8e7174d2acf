/-
The names in /boot over the transactions of a device.

A transaction installs a list of archives or removes a list of packages. dpkg unpacks the archives in turn (old prerm, new
preinst, the files, old postrm, the files of the old version) and then configures each package once, in the order of the
list. The preinst of a package takes `/boot/dtb`, or `/boot/Image` and every `/boot/vmlinuz*`, away before its postinst
renames what it has brought.

- `transact_settled`: one transaction whose dtb packages are of one flavour, and whose image packages are of one flavour.
- `boots_last_configured`: any number of them.
- `two_flavours_nested`: two dtb packages of different flavours in one transaction, and the second is hidden in the first.

What dpkg does after a script has failed is not followed here.
-/
import Mathlib.Tactic
import AvaotaOS.Core.History
import AvaotaOS.Device.KernelDeb

namespace AvaotaOS.KernelDeb

open Shell History

/-! ## Packages on a device -/

/-- the version of a package that is unpacked on the device, configured or not -/
structure Version (name : Part × String) where
  deb : Deb
  named : deb.name = name
  configured : Bool

structure System where
  dev : Device
  status : ∀ name, Option (Version name)
  /-- the package that was configured last, removed or not -/
  last : Part → Option Deb

/-- run a script of `d`; `none` if it fails -/
def System.script (env : Cmd → Resp) (a : Part → Sh Cmd Device) (d : Deb) (s : System) : Option System :=
  let r := call d.LINUX_VERSION env (a d.part) s.dev
  if r.1 then some { s with dev := r.2 } else none

def System.files (f : Device → Device) (s : System) : System := { s with dev := f s.dev }

def System.mark (name : Part × String) (v : Option (Version name)) (s : System) : System :=
  { s with status := Function.update s.status name v }

/-- the files of the version before that the new one does not have go -/
def replaced (d : Deb) (old : Option (Version d.name)) (w : Device) : Device :=
  match old with
  | some o => removeFiles o.deb (some d.LINUX_VERSION) w
  | none => w

/-- the first half of an installation -/
def unpackArchive (env : Cmd → Resp) (s : System) (d : Deb) : Option System := do
  let old := s.status d.name
  let s ← match old with
    | some ⟨o, _, true⟩ => s.script env prerm o
    | _ => some s
  let s ← s.script env preinst d
  let s := s.files (unpack d)
  let s ← match old with
    | some o => s.script env postrm o.deb
    | none => some s
  return (s.files (replaced d old)).mark d.name (some ⟨d, rfl, false⟩)

/-- the second half; a package that has been configured is left alone -/
def configure (env : Cmd → Resp) (s : System) (d : Deb) : Option System :=
  match s.status d.name with
  | some ⟨u, h, false⟩ =>
    (s.script env postinst u).map fun s =>
      { s.mark d.name (some ⟨u, h, true⟩) with last := Function.update s.last u.part (some u) }
  | _ => some s

def removePackage (env : Cmd → Resp) (s : System) (name : Part × String) : Option System :=
  match s.status name with
  | none => some s
  | some o => do
    let s ← if o.configured then s.script env prerm o.deb else some s
    let s ← (s.files (removeFiles o.deb none)).script env postrm o.deb
    return s.mark name none

/-- the hooks succeed, and so does what else the scripts call -/
structure Fine (env : Cmd → Resp) : Prop where
  hooks : ∀ h, hooksPass env h = true
  works : ∀ c ∈ [Cmd.cdBoot, .mvDtb, .rmDtb, .rmDtbVer, .touchNext, .mvImage, .rmBoot], env c = .ok

inductive Action where
  | install (l : List Deb)
  | remove (l : List (Part × String))
deriving DecidableEq, Repr

structure Transaction where
  action : Action
  env : Cmd → Resp
  fine : Fine env

def transact (s : System) (t : Transaction) : Option System :=
  match t.action with
  | .install l => (l.foldlM (unpackArchive t.env) s).bind fun s => l.foldlM (configure t.env) s
  | .remove l => l.foldlM (removePackage t.env) s

/-- the next transaction; `none`: a script has failed -/
def next (s : Option System) (t : Transaction) : Option System := s.bind (transact · t)

/-- a device without kernel packages -/
def noPackages (w : Device) : System := ⟨w, fun _ => none, fun _ => none⟩

/-! ## What the boot entry needs -/

/-- the name of the part in /boot is what `d` has brought, all of it and nothing else -/
def Holds (d : Deb) (w : Device) : Prop :=
  match d.part with
  | .dtb => w.dtb = some ⟨⟨d, true⟩, []⟩
  | .image => w.image = some ⟨d, true⟩

/-- if a package of the part is installed, the name is the one's that was configured last -/
def Current (p : Part) (s : System) : Prop :=
  (∃ b v, s.status (p, b) = some v ∧ v.configured) → ∃ d, s.last p = some d ∧ d.part = p ∧ Holds d s.dev

/-- the packages of a part that one transaction installs are of one flavour -/
def OneFlavour : Action → Prop
  | .install l => ∀ d ∈ l, ∀ d' ∈ l, d.part = d'.part → d.BOARD = d'.BOARD
  | .remove _ => True

/-! ## Scripts that find working commands -/

section Scripts

variable {env : Cmd → Resp} (hf : Fine env) (s : System) (d : Deb)
include hf

theorem script_prerm : s.script env prerm d = some s := by
  simp [System.script, call_prerm, hf.hooks]

theorem script_postrm : s.script env postrm d = some s := by
  simp [System.script, call_postrm, hf.hooks]

/-- what the preinst takes away -/
def clear (d : Deb) (w : Device) : Device :=
  match d.part with
  | .dtb => { w with dtb := none, dtbVer := Function.update w.dtbVer d.LINUX_VERSION none }
  | .image => { w with image := none, vmlinuz := fun _ => none }

theorem script_preinst : s.script env preinst d = some (s.files (clear d)) := by
  have hr := hf.works .rmDtb (by simp)
  have hv := hf.works .rmDtbVer (by simp)
  have hb := hf.works .rmBoot (by simp)
  unfold System.script System.files clear
  cases hd : d.part with
  | dtb => simp [call_preinst_dtb, exec, hr, hv]
  | image => simp [call_preinst_image, exec, hf.hooks, hb]

/-- the package has been unpacked, and nothing is in the way of its name -/
def Staged (d : Deb) (w : Device) : Prop :=
  match d.part with
  | .dtb => w.dtb = none ∧ w.dtbVer d.LINUX_VERSION = some ⟨d, true⟩
  | .image => w.vmlinuz d.LINUX_VERSION = some ⟨d, true⟩

/-- the files of the part are the same -/
def SamePart : Part → Device → Device → Prop
  | .dtb, w, w' => w'.dtb = w.dtb ∧ w'.dtbVer = w.dtbVer
  | .image, w, w' => w'.image = w.image ∧ w'.vmlinuz = w.vmlinuz

theorem script_postinst (h : Staged d s.dev) :
    ∃ w, s.script env postinst d = some { s with dev := w } ∧ Holds d w ∧ ∀ p, p ≠ d.part → SamePart p s.dev w := by
  have hc := hf.works .cdBoot (by simp)
  have hm := hf.works .mvDtb (by simp)
  have ht := hf.works .touchNext (by simp)
  have hi := hf.works .mvImage (by simp)
  unfold System.script
  cases hd : d.part with
  | dtb =>
    simp only [Staged, hd] at h
    obtain ⟨hnone, hver⟩ := h
    refine ⟨{ s.dev with dtb := some ⟨⟨d, true⟩, []⟩, dtbVer := Function.update s.dev.dtbVer d.LINUX_VERSION none },
      ?_, ?_, ?_⟩
    · simp [call_postinst_dtb, exec, hc, hm, mvDtb, hver, hnone]
    · simp [Holds, hd]
    · intro p hp
      cases p with
      | dtb => exact absurd rfl hp
      | image => exact ⟨rfl, rfl⟩
  | image =>
    simp only [Staged, hd] at h
    refine ⟨{ s.dev with image := some ⟨d, true⟩, vmlinuz := Function.update s.dev.vmlinuz d.LINUX_VERSION none },
      ?_, ?_, ?_⟩
    · simp [call_postinst_image, exec, hf.hooks, ht, hi, mvImage, h]
    · simp [Holds, hd]
    · intro p hp
      cases p with
      | dtb => exact ⟨rfl, rfl⟩
      | image => exact absurd rfl hp

end Scripts

/-! ## Unpacking -/

/-- nothing of the part waits to be configured -/
def Quiet (p : Part) (s : System) : Prop := ∀ b v, s.status (p, b) = some v → v.configured

structure Settled (p : Part) (s : System) : Prop where
  quiet : Quiet p s
  current : Current p s

/-- `d` is the one package of its part that waits to be configured -/
structure Ready (d : Deb) (s : System) : Prop where
  status : s.status d.name = some ⟨d, rfl, false⟩
  alone : ∀ b, b ≠ d.BOARD → ∀ v, s.status (d.part, b) = some v → v.configured
  staged : Staged d s.dev

/-- what is left alone by an operation on the other part -/
structure Frame (p : Part) (s s' : System) : Prop where
  status : ∀ b, s'.status (p, b) = s.status (p, b)
  last : s'.last p = s.last p
  dev : SamePart p s.dev s'.dev

section Frame

variable {s s' : System} {p : Part} {d : Deb}

theorem SamePart.holds {w w' : Device} (h : SamePart p w w') (hd : d.part = p) : Holds d w → Holds d w' := by
  subst hd
  unfold Holds SamePart at *
  split at h <;> simp_all

theorem Frame.settled (h : Frame p s s') (hs : Settled p s) : Settled p s' := by
  refine ⟨fun b v => by rw [h.status]; exact hs.quiet b v, ?_⟩
  rintro ⟨b, v, hv⟩
  rw [h.status] at hv
  obtain ⟨u, hu, hup, hold⟩ := hs.current ⟨b, v, hv⟩
  exact ⟨u, h.last.trans hu, hup, h.dev.holds hup hold⟩

theorem Frame.ready (h : Frame d.part s s') (hs : Ready d s) : Ready d s' := by
  refine ⟨(h.status d.BOARD).trans hs.status, fun b hb v => ?_, ?_⟩
  · rw [h.status]
    exact hs.alone b hb v
  · have hdev := h.dev
    have hst := hs.staged
    unfold Staged SamePart at *
    cases hd : d.part <;> simp_all

end Frame

section Unpack

variable {env : Cmd → Resp} (hf : Fine env) (s : System) (d : Deb)

include hf in
theorem unpackArchive_eq :
    unpackArchive env s d =
      some ((s.files fun w => replaced d (s.status d.name) (unpack d (clear d w))).mark d.name (some ⟨d, rfl, false⟩)) := by
  unfold unpackArchive replaced
  rcases hst : s.status d.name with - | ⟨u, hu, - | -⟩ <;>
    simp [script_prerm hf, script_preinst hf, script_postrm hf, System.files, System.mark]

theorem removeFiles_staged {o d : Deb} (ho : o.part = d.part) {w : Device} (h : Staged d w) :
    Staged d (removeFiles o (some d.LINUX_VERSION) w) := by
  unfold removeFiles
  split_ifs with hk
  · exact h
  · have hne : d.LINUX_VERSION ≠ o.LINUX_VERSION := fun e => hk (congrArg some e)
    unfold Staged at *
    rw [ho]
    cases hd : d.part <;> simp_all

theorem removeFiles_samePart {o : Deb} {p : Part} (hp : p ≠ o.part) (k : Option String) (w : Device) :
    SamePart p w (removeFiles o k w) := by
  unfold removeFiles
  split_ifs with hk
  · cases p <;> exact ⟨rfl, rfl⟩
  · cases p <;> cases ho : o.part <;> first | exact ⟨rfl, rfl⟩ | exact absurd ho.symm hp

theorem replaced_staged {w : Device} (h : Staged d w) : Staged d (replaced d (s.status d.name) w) := by
  unfold replaced
  split
  · rename_i o _
    exact removeFiles_staged (congrArg Prod.fst o.named) h
  · exact h

theorem replaced_samePart {p : Part} (hp : p ≠ d.part) (w : Device) : SamePart p w (replaced d (s.status d.name) w) := by
  unfold replaced
  split
  · rename_i o _
    have ho : o.deb.part = d.part := congrArg Prod.fst o.named
    exact removeFiles_samePart (ho ▸ hp) _ w
  · cases p <;> exact ⟨rfl, rfl⟩

theorem SamePart.trans {p : Part} {w w' w'' : Device} (h : SamePart p w w') (h' : SamePart p w' w'') : SamePart p w w'' := by
  cases p <;> exact ⟨h'.1.trans h.1, h'.2.trans h.2⟩

theorem unpack_staged (d : Deb) (w : Device) : Staged d (unpack d (clear d w)) := by
  unfold Staged unpack clear
  cases hd : d.part <;> simp

theorem unpack_samePart {p : Part} (hp : p ≠ d.part) (w : Device) : SamePart p w (unpack d (clear d w)) := by
  unfold unpack clear
  cases p <;> cases hd : d.part <;> first | exact ⟨rfl, rfl⟩ | exact absurd hd.symm hp

include hf in
/-- **An archive is unpacked**, and waits to be configured; the other part is left alone -/
theorem unpackArchive_spec :
    ∃ s', unpackArchive env s d = some s' ∧ s'.status d.name = some ⟨d, rfl, false⟩ ∧ Staged d s'.dev ∧
      (∀ b, b ≠ d.BOARD → s'.status (d.part, b) = s.status (d.part, b)) ∧ ∀ p, p ≠ d.part → Frame p s s' := by
  refine ⟨_, unpackArchive_eq hf s d, ?_, ?_, ?_, ?_⟩
  · exact Function.update_self ..
  · exact replaced_staged s d (unpack_staged d s.dev)
  · intro b hb
    exact Function.update_of_ne (fun e => hb (congrArg Prod.snd e)) ..
  · intro p hp
    refine ⟨fun b => ?_, rfl, ?_⟩
    · exact Function.update_of_ne (fun e => hp (congrArg Prod.fst e)) ..
    · exact (unpack_samePart d hp s.dev).trans (replaced_samePart s d hp _)

end Unpack

/-! ## A transaction -/

section Install

variable {env : Cmd → Resp} (hf : Fine env) {L : List Deb}

/-- in the course of an installation: the part has not been touched, or a package of the list waits -/
def Pending (L : List Deb) (p : Part) (s : System) : Prop :=
  Settled p s ∨ ∃ d, Ready d s ∧ ∃ m ∈ L, m.name = d.name ∧ m.part = p

include hf in
theorem unpackArchive_pending (hL : OneFlavour (.install L)) {d : Deb} (hd : d ∈ L) {s : System}
    (h : ∀ p, Pending L p s) : ∃ s', unpackArchive env s d = some s' ∧ ∀ p, Pending L p s' := by
  obtain ⟨s', he, hst, hdev, halone, hframe⟩ := unpackArchive_spec hf s d
  refine ⟨s', he, fun p => ?_⟩
  by_cases hp : p = d.part
  · refine Or.inr ⟨d, ⟨hst, ?_, hdev⟩, d, hd, rfl, hp.symm⟩
    intro b hb v hv
    rw [halone b hb] at hv
    rcases h d.part with hs | ⟨u, hu, m, hm, hname, hmp⟩
    · exact hs.quiet b v hv
    · -- the package that waits has the name of `d`
      have hboard : u.BOARD = d.BOARD := (congrArg Prod.snd hname).symm.trans (hL m hm d hd hmp)
      have hpart : u.part = d.part := (congrArg Prod.fst hname).symm.trans hmp
      have halone := hu.alone
      rw [hpart] at halone
      exact halone b (hboard ▸ hb) v hv
  · rcases h p with hs | ⟨u, hu, m, hm, hname, hmp⟩
    · exact Or.inl ((hframe p hp).settled hs)
    · have hup : u.part = p := (congrArg Prod.fst hname).symm.trans hmp
      subst hup
      exact Or.inr ⟨u, (hframe _ hp).ready hu, m, hm, hname, hmp⟩

theorem Ready.status_of_name {d : Deb} {s : System} (h : Ready d s) : ∀ n (hn : d.name = n), s.status n = some ⟨d, hn, false⟩ := by
  rintro _ rfl
  exact h.status

include hf in
/-- **A package that waits is configured**, and is what its name in /boot stands for -/
theorem configure_ready {d u : Deb} {s : System} (hu : Ready u s) (hname : u.name = d.name) :
    ∃ s', configure env s d = some s' ∧ Settled d.part s' ∧ ∀ p, p ≠ d.part → Frame p s s' := by
  have hst := hu.status_of_name d.name hname
  have hpart : u.part = d.part := congrArg Prod.fst hname
  obtain ⟨w, hw, hold, hsame⟩ := script_postinst hf s u hu.staged
  refine ⟨_, by rw [configure, hst]; simp only [hw]; rfl, ⟨?_, ?_⟩, ?_⟩
  · intro b v hv
    by_cases hb : b = d.BOARD
    · subst hb
      have hself := Function.update_self d.name (some (⟨u, hname, true⟩ : Version d.name)) s.status
      obtain rfl := Option.some.inj (hself.symm.trans hv)
      rfl
    · have hne : (d.part, b) ≠ d.name := fun e => hb (congrArg Prod.snd e)
      have hboard : u.BOARD = d.BOARD := congrArg Prod.snd hname
      have halone := hu.alone
      rw [hpart] at halone
      exact halone b (hboard ▸ hb) v ((Function.update_of_ne hne ..).symm.trans hv)
  · intro _
    exact ⟨u, by rw [← hpart]; exact Function.update_self .., hpart, hold⟩
  · intro p hp
    refine ⟨fun b => ?_, ?_, hsame p (hpart ▸ hp)⟩
    · exact Function.update_of_ne (fun e => hp (congrArg Prod.fst e)) ..
    · exact Function.update_of_ne (hpart ▸ hp) ..

theorem configure_settled {d : Deb} {s : System} (hs : Settled d.part s) : configure env s d = some s := by
  unfold configure
  split
  · rename_i u h hst
    exact absurd (hs.quiet d.BOARD _ hst) (by simp)
  · rfl

include hf in
/-- one configuration, with the packages that come behind it -/
theorem configure_pending {d : Deb} {l : List Deb} (hl : OneFlavour (.install (d :: l))) {s : System}
    (h : ∀ p, Pending (d :: l) p s) : ∃ s', configure env s d = some s' ∧ ∀ p, Pending l p s' := by
  rcases h d.part with hs | ⟨u, hu, m, hm, hname, hmp⟩
  · refine ⟨s, configure_settled hs, fun p => ?_⟩
    rcases h p with hp | ⟨u, hu, m, hm, hname, hmp⟩
    · exact Or.inl hp
    · rcases List.mem_cons.1 hm with rfl | hm
      · exact Or.inl (hmp ▸ hs)
      · exact Or.inr ⟨u, hu, m, hm, hname, hmp⟩
  · have hmd : m.name = d.name := Prod.ext hmp (hl m hm d List.mem_cons_self hmp)
    obtain ⟨s', he, hset, hframe⟩ := configure_ready hf hu (hname.symm.trans hmd)
    refine ⟨s', he, fun p => ?_⟩
    by_cases hp : p = d.part
    · exact Or.inl (hp ▸ hset)
    · rcases h p with hs | ⟨u', hu', m', hm', hname', hmp'⟩
      · exact Or.inl ((hframe p hp).settled hs)
      · have hup : u'.part = p := (congrArg Prod.fst hname').symm.trans hmp'
        subst hup
        refine Or.inr ⟨u', (hframe _ hp).ready hu', m', ?_, hname', hmp'⟩
        rcases List.mem_cons.1 hm' with rfl | hm'
        · exact absurd hmp'.symm hp
        · exact hm'

include hf in
theorem install_settled {l : List Deb} (hl : OneFlavour (.install l)) {s : System} (h : ∀ p, Settled p s) :
    ∃ s', ((l.foldlM (unpackArchive env) s).bind fun s => l.foldlM (configure env) s) = some s' ∧ ∀ p, Settled p s' := by
  obtain ⟨s₁, h₁, hp₁⟩ := foldlM_rest (f := unpackArchive env)
    (fun m s => m ⊆ l ∧ ∀ p, Pending l p s)
    (fun d m s hm => by
      obtain ⟨hsub, hpend⟩ := hm
      obtain ⟨s', he, hp⟩ := unpackArchive_pending hf hl (hsub List.mem_cons_self) hpend
      exact ⟨s', he, fun x hx => hsub (List.mem_cons_of_mem d hx), hp⟩)
    ⟨List.Subset.refl l, fun p => Or.inl (h p)⟩
  obtain ⟨s₂, h₂, -, hp₂⟩ := foldlM_rest (f := configure env)
    (fun m s => OneFlavour (.install m) ∧ ∀ p, Pending m p s)
    (fun d m s hm => by
      obtain ⟨hone, hpend⟩ := hm
      obtain ⟨s', he, hp⟩ := configure_pending hf hone hpend
      exact ⟨s', he, fun x hx y hy => hone x (List.mem_cons_of_mem d hx) y (List.mem_cons_of_mem d hy), hp⟩)
    ⟨hl, hp₁.2⟩
  refine ⟨s₂, by rw [h₁]; exact h₂, fun p => ?_⟩
  rcases hp₂ p with hs | ⟨u, hu, m, hm, -⟩
  · exact hs
  · simp at hm

end Install

section Remove

variable {env : Cmd → Resp} (hf : Fine env)

@[simp] theorem removeFiles_dtb (d : Deb) (k : Option String) (w : Device) : (removeFiles d k w).dtb = w.dtb := by
  unfold removeFiles
  split_ifs
  · rfl
  · cases d.part <;> rfl

@[simp] theorem removeFiles_image (d : Deb) (k : Option String) (w : Device) : (removeFiles d k w).image = w.image := by
  unfold removeFiles
  split_ifs
  · rfl
  · cases d.part <;> rfl

theorem removeFiles_holds {d o : Deb} {k : Option String} {w : Device} (h : Holds d w) : Holds d (removeFiles o k w) := by
  unfold Holds at *
  simpa using h

include hf in
/-- **A removal leaves the names in /boot alone**: dpkg knows the files by the packaged names -/
theorem removePackage_settled (name : Part × String) {s : System} (h : ∀ p, Settled p s) :
    ∃ s', removePackage env s name = some s' ∧ ∀ p, Settled p s' := by
  unfold removePackage
  split
  · exact ⟨s, rfl, h⟩
  · rename_i o ho
    refine ⟨(s.files (removeFiles o.deb none)).mark name none, ?_, fun p => ?_⟩
    · simp [script_prerm hf, script_postrm hf]
    · have hold : ∀ b v, ((s.files (removeFiles o.deb none)).mark name none).status (p, b) = some v →
          s.status (p, b) = some v := by
        intro b v hv
        by_cases hb : (p, b) = name
        · subst hb
          exact absurd ((Function.update_self ..).symm.trans hv) (by simp)
        · exact (Function.update_of_ne hb ..).symm.trans hv
      refine ⟨fun b v hv => (h p).quiet b v (hold b v hv), ?_⟩
      rintro ⟨b, v, hv, hc⟩
      obtain ⟨d, hd, hp, hh⟩ := (h p).current ⟨b, v, hold b v hv, hc⟩
      exact ⟨d, hd, hp, removeFiles_holds hh⟩

end Remove

/-- **One transaction**: no script fails, and the names in /boot are right again -/
theorem transact_settled {t : Transaction} (ht : OneFlavour t.action) {s : System} (h : ∀ p, Settled p s) :
    ∃ s', transact s t = some s' ∧ ∀ p, Settled p s' := by
  unfold transact
  split
  · rename_i l hl
    exact install_settled t.fine (hl ▸ ht) h
  · rename_i l
    exact foldlM_rest (fun _ s => ∀ p, Settled p s) (fun name _ _ hs => removePackage_settled t.fine name hs) h

/-- **The boot entry finds the kernel and the device trees that were configured last**, in every run of transactions each of
which installs dtb packages of one flavour and image packages of one flavour -/
theorem boots_last_configured (w : Device) (l : List Transaction) (h : ∀ t ∈ l, OneFlavour t.action) :
    ∃ s, runs next (some (noPackages w)) l = some s ∧ ∀ p, Current p s := by
  have hstart : ∀ p, Settled p (noPackages w) := by
    intro p
    refine ⟨fun b v hv => ?_, fun ⟨b, v, hv, _⟩ => ?_⟩ <;> simp [noPackages] at hv
  have hrun : ∃ s, runs next (some (noPackages w)) l = some s ∧ ∀ p, Settled p s := by
    have hl : Each next (fun _ t => OneFlavour t.action) (some (noPackages w)) l := each_of_forall h
    refine runs_inv (I := fun o => ∃ s, o = some s ∧ ∀ p, Settled p s) ?_ ⟨_, rfl, hstart⟩ hl
    rintro _ t ⟨s, rfl, hs⟩ ht
    exact transact_settled ht hs
  obtain ⟨s, hs, hset⟩ := hrun
  exact ⟨s, hs, fun p => (hset p).current⟩

/-! ## The two kernels of the C1 -/

/-- there are no hooks -/
def noHooks : Cmd → Resp
  | .testHooks _ => .fail false
  | _ => .ok

theorem noHooks_fine : Fine noHooks := ⟨fun _ => rfl, by simp [noHooks]⟩

def c1Bsp (p : Part) : Deb := ⟨p, "sun50i-h618-bsp", "5.15.154", 0⟩

def c1Mainline (p : Part) : Deb := ⟨p, "sun50i-mainline", "6.6.0", 0⟩

/-- from one flavour to the other, one after the other -/
def c1Change : List Transaction :=
  [⟨.install [c1Bsp .dtb, c1Bsp .image], noHooks, noHooks_fine⟩,
    ⟨.install [c1Mainline .dtb, c1Mainline .image], noHooks, noHooks_fine⟩,
    ⟨.remove [(c1Bsp .image).name], noHooks, noHooks_fine⟩]

/-- a `/boot` with nothing in it -/
def emptyBoot : Device := ⟨none, fun _ => none, none, fun _ => none, fun _ => none, fun _ => .absent⟩

theorem c1Change_current :
    ∃ s, runs next (some (noPackages emptyBoot)) c1Change = some s ∧ ∀ p, Current p s := by
  apply boots_last_configured
  intro t ht
  simp only [c1Change, List.mem_cons, List.not_mem_nil, or_false] at ht
  rcases ht with rfl | rfl | rfl
  · simp [OneFlavour, c1Bsp]
  · simp [OneFlavour, c1Mainline]
  · trivial

/-- **`dpkg -i` of the device trees of both kernels** succeeds, and hides those of the second in the first's directory -/
theorem two_flavours_nested :
    ¬ ∃ s, runs next (some (noPackages emptyBoot))
        [⟨.install [c1Bsp .dtb, c1Mainline .dtb], noHooks, noHooks_fine⟩] = some s ∧ ∀ p, Current p s := by
  rintro ⟨s, hs, h⟩
  have hdtb := congrArg (Option.map fun s => (s.dev.dtb, s.last .dtb)) hs
  have hst := congrArg (Option.map fun s => (s.status (c1Bsp .dtb).name).map (·.configured)) hs
  have hnested : some (some ⟨⟨c1Bsp .dtb, true⟩, ["6.6.0"]⟩, some (c1Mainline .dtb)) = some (s.dev.dtb, s.last .dtb) :=
    Eq.trans (by decide) hdtb
  have hinst : some (some true) = some ((s.status (c1Bsp .dtb).name).map (·.configured)) := Eq.trans (by decide) hst
  obtain ⟨v, hv, hc⟩ := Option.map_eq_some_iff.1 (Option.some.inj hinst).symm
  obtain ⟨d, hd, hp, hold⟩ := h .dtb ⟨_, v, hv, hc⟩
  obtain ⟨h1, h2⟩ := Prod.mk.inj (Option.some.inj hnested)
  unfold Holds at hold
  rw [hp] at hold
  rw [← h1] at hold
  simp at hold

end AvaotaOS.KernelDeb
