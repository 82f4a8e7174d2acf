/-
The postinst scripts, run again on what they have left.

Each postinst takes away what it works on: `mv` renames the packaged file, and `ln -s` makes the name it wants to make.
Run once more (`dpkg-reconfigure`), the scripts of the dtb and the image package fail at their `mv`, and that of the
headers follows its own link and puts another one into the source tree, or fails.

- `again_boot`, `again_headers`: what the second run does.
- `reinstall_boot`: a reinstallation of a dtb or image package succeeds, since its preinst makes room and unpacking brings
  the file back.
- `never_idempotent`: no package can be configured again after it has been configured.
-/
import Mathlib.Tactic
import AvaotaOS.Device.KernelDeb

namespace AvaotaOS.KernelDeb

open Shell

/-- a kernel package with a postinst -/
inductive Package where
  | boot (d : Deb)
  | headers (LINUX_VERSION : String)
deriving DecidableEq, Repr

namespace Package

def version : Package → String
  | boot d => d.LINUX_VERSION
  | headers v => v

def postinst : Package → Sh Cmd Device
  | boot d => KernelDeb.postinst d.part
  | headers _ => headersPostinst

/-- the scripts and the unpacking of a reinstallation, up to the postinst -/
def replace (p : Package) (env : Cmd → Resp) (w : Device) : Bool × Device :=
  match p with
  | boot d =>
    let r := call d.LINUX_VERSION env (prerm d.part) w
    let i := call d.LINUX_VERSION env (preinst d.part) r.2
    let o := call d.LINUX_VERSION env (postrm d.part) (unpack d i.2)
    (r.1 && i.1 && o.1, o.2)
  | headers v =>
    let r := call v env (headersClean v) w
    let i := call v env (headersClean v) r.2
    (r.1 && i.1, { i.2 with src := Function.update i.2.src v (some ((i.2.src v).getD false)) })

end Package

/-- every command works -/
def works : Cmd → Resp := fun _ => .ok

/-- `/boot/dtb`, `/boot/Image` and `/lib/modules/VERSION/build` are the same, and nothing has come into the source tree -/
structure Same (v : String) (w w' : Device) : Prop where
  dtb : w'.dtb = w.dtb
  image : w'.image = w.image
  build : w'.build v = w.build v
  src : w'.src v = w.src v

/-- **The postinst of `p` can be run again**: `w` is what it has made of `w₀` -/
structure Idempotent (p : Package) (w₀ w : Device) : Prop where
  again : (call p.version works p.postinst w).1 = true ∧ Same p.version w (call p.version works p.postinst w).2
  halfway : ∀ env, (call p.version env p.postinst w₀).1 = false →
    (call p.version works p.postinst (call p.version env p.postinst w₀).2).1 = true ∧
      Same p.version w (call p.version works p.postinst (call p.version env p.postinst w₀).2).2
  reinstall : (p.replace works w).1 = true ∧ (call p.version works p.postinst (p.replace works w).2).1 = true ∧
    Same p.version w (call p.version works p.postinst (p.replace works w).2).2
  link : ∀ v, p = .headers v → w.build v = .headers ∧ w.src v = some false

/-! ## The second run -/

section Again

variable {v : String} {env : Cmd → Resp} {w : Device}

theorem mvDtb_ok (h : (mvDtb v w).1 = .ok) : (mvDtb v w).2.dtbVer v = none := by
  unfold mvDtb at h ⊢
  split at h
  · simp at h
  · simp
  · split_ifs at h ⊢
    · simp

theorem mvImage_ok (h : (mvImage v w).1 = .ok) : (mvImage v w).2.vmlinuz v = none := by
  unfold mvImage at h ⊢
  split at h
  · simp at h
  · simp

theorem mvDtb_missing (h : w.dtbVer v = none) : (mvDtb v w).1 ≠ .ok := by
  simp [mvDtb, h]

theorem mvImage_missing (h : w.vmlinuz v = none) : (mvImage v w).1 ≠ .ok := by
  simp [mvImage, h]

/-- a command that succeeds has been let to -/
theorem exec_mvDtb (h : (exec v env .mvDtb w).1 = .ok) : exec v env .mvDtb w = mvDtb v w := by
  cases he : env .mvDtb <;> simp [exec, he, Resp.stat] at h ⊢

theorem exec_mvImage (h : (exec v env .mvImage w).1 = .ok) : exec v env .mvImage w = mvImage v w := by
  cases he : env .mvImage <;> simp [exec, he, Resp.stat] at h ⊢

theorem exec_lnBuild (h : (exec v env .lnBuild w).1 = .ok) : exec v env .lnBuild w = lnBuild v w := by
  cases he : env .lnBuild <;> simp [exec, he, Resp.stat] at h ⊢

/-- **Once configured, a dtb or image package has nothing left to rename** -/
theorem again_boot (d : Deb) {w₀ : Device} (h : call d.LINUX_VERSION env (postinst d.part) w₀ = (true, w)) :
    (call d.LINUX_VERSION works (postinst d.part) w).1 = false := by
  cases hd : d.part with
  | dtb =>
    rw [hd, call_postinst_dtb] at h
    split_ifs at h
    · obtain ⟨hok, rfl⟩ := Prod.mk.inj h
      have hok := of_decide_eq_true hok
      have he := exec_mvDtb hok
      rw [he] at hok ⊢
      have hm := mvDtb_missing (mvDtb_ok hok)
      have hcd : works .cdBoot = .ok := rfl
      rw [call_postinst_dtb, if_pos hcd]
      exact decide_eq_false hm
    · simp at h
  | image =>
    rw [hd, call_postinst_image] at h
    split_ifs at h
    · obtain ⟨hok, rfl⟩ := Prod.mk.inj h
      have hok := of_decide_eq_true hok
      have he := exec_mvImage hok
      rw [he] at hok ⊢
      have hm := mvImage_missing (mvImage_ok hok)
      have hpass : hooksPass works .postinst = true ∧ works .touchNext = .ok := ⟨rfl, rfl⟩
      rw [call_postinst_image, if_pos hpass]
      exact decide_eq_false hm
    · simp at h

theorem call_headersPostinst (h : (call v env headersPostinst w).1 = true) :
    (lnBuild v w).1 = .ok ∧ (call v env headersPostinst w).2 = (lnBuild v w).2 := by
  obtain ⟨hln, hw⟩ := run_strict_block (exec v env) .lnBuild
    [.cdSrc, .countCpus, .makeOldconfig, .makeScripts, .makeMod] w (of_decide_eq_true h)
  have hcd : ∀ w', (exec v env .cdSrc w').2 = w' := fun w' => by cases he : env .cdSrc <;> simp [exec, he]
  have hidle : ∀ c ∈ [Cmd.countCpus, .makeOldconfig, .makeScripts, .makeMod], ∀ w', (exec v env c w').2 = w' := by
    intro c hc w'
    simp only [List.mem_cons, List.not_mem_nil, or_false] at hc
    rcases hc with rfl | rfl | rfl | rfl <;> unfold exec <;> split <;> simp_all
  have heff : effect (exec v env) [.lnBuild, .cdSrc, .countCpus, .makeOldconfig, .makeScripts, .makeMod] w =
      (exec v env .lnBuild w).2 := by
    simp only [effect_cons, effect_nil, hcd]
    rw [hidle .makeMod (by simp), hidle .makeScripts (by simp), hidle .makeOldconfig (by simp), hidle .countCpus (by simp)]
  have he := exec_lnBuild hln
  rw [he] at hln heff
  exact ⟨hln, hw.trans heff⟩

/-- the link is there, or an entry in the directory that was in its place -/
theorem lnBuild_ok (h : (lnBuild v w).1 = .ok) :
    (lnBuild v w).2.build v = .headers ∨ (lnBuild v w).2.build v = .dir true := by
  unfold lnBuild at h ⊢
  split at h
  · simp
  · simp at h
  · split_ifs at h ⊢
    · simp
  · rename_i hb
    split_ifs at h ⊢
    · exact Or.inl hb

/-- **Once configured, the headers package fails or puts a link into the source tree** -/
theorem again_headers {w₀ : Device} (h : call v env headersPostinst w₀ = (true, w)) :
    (call v works headersPostinst w).1 = false ∨ (call v works headersPostinst w).2.src v ≠ w.src v := by
  by_contra hc
  rw [not_or, Bool.not_eq_false, not_not] at hc
  obtain ⟨hok, hsrc⟩ := hc
  obtain ⟨hln, hw⟩ := call_headersPostinst (by rw [h])
  rw [h] at hw
  obtain ⟨hln', hw'⟩ := call_headersPostinst hok
  rw [hw'] at hsrc
  have hb := lnBuild_ok hln
  rw [← hw] at hb
  rcases hb with hb | hb
  · -- the link is followed
    rw [lnBuild, hb] at hln' hsrc
    simp only at hln' hsrc
    split_ifs at hln' hsrc with hs
    rw [hs] at hsrc
    simp at hsrc
  · rw [lnBuild, hb] at hln'
    simp at hln'

/-- **A reinstallation of a dtb or image package succeeds** and leaves the two names in /boot to the package -/
theorem reinstall_boot (d : Deb) :
    let w' := (Package.boot d).replace works w
    let w'' := call d.LINUX_VERSION works (postinst d.part) w'.2
    w'.1 = true ∧ w''.1 = true ∧
      (d.part = .dtb → w''.2.dtb = some ⟨⟨d, true⟩, []⟩ ∧ w''.2.image = w.image) ∧
      (d.part = .image → w''.2.image = some ⟨d, true⟩ ∧ w''.2.dtb = w.dtb) := by
  cases hd : d.part with
  | dtb =>
    simp [Package.replace, hd, call_prerm, call_postrm, call_preinst_dtb, call_postinst_dtb, works, exec, unpack, mvDtb]
  | image =>
    simp [Package.replace, hd, call_prerm, call_postrm, call_preinst_image, call_postinst_image, works, exec, unpack,
      mvImage, hooksPass]

end Again

/-- **No postinst can be run again on what it has left**: for every package, every version, and every state that a
successful configuration reaches -/
theorem never_idempotent (p : Package) (env : Cmd → Resp) (w₀ w : Device)
    (h : call p.version env p.postinst w₀ = (true, w)) : ¬ Idempotent p w₀ w := by
  intro hi
  obtain ⟨hok, hsame⟩ := hi.again
  cases p with
  | boot d =>
    rw [show (Package.boot d).version = d.LINUX_VERSION from rfl, show (Package.boot d).postinst = postinst d.part from rfl,
      again_boot d h] at hok
    exact absurd hok (by simp)
  | headers v =>
    rcases again_headers h with ha | ha
    · exact absurd (ha.symm.trans hok) (by simp)
    · exact ha hsame.src

/-! ## One version of the A1 -/

/-- the dtb package of the A1 -/
def a1Dtb : Deb := ⟨.dtb, "sun55i-t527-bsp", "5.15.154", 0⟩

/-- a device without kernel packages, apart from the sources of the headers -/
def bare : Device := ⟨none, fun _ => none, none, fun _ => none, fun _ => some false, fun _ => .absent⟩

theorem headers_not_idempotent :
    ¬ Idempotent (.headers "5.15.154") bare (call "5.15.154" works headersPostinst bare).2 := by
  apply never_idempotent (.headers "5.15.154") works
  exact Prod.ext (by decide) rfl

/-- **`dpkg-reconfigure` of the dtb package fails**: `/boot/dtb-5.15.154` has been renamed -/
theorem reconfigure_fails :
    ¬ Idempotent (.boot a1Dtb) (unpack a1Dtb bare) (call "5.15.154" works (postinst .dtb) (unpack a1Dtb bare)).2 := by
  intro h
  exact absurd h.again.1 (by decide)

end AvaotaOS.KernelDeb
