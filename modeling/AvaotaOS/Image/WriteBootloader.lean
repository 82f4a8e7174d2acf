/-
`write_bootloader` of the three bootloader libraries (`scripts/lib/bootloader/bootloader-*.sh`), against the image
layout that `pack_sdcard` (`scripts/pack.sh`) makes.

The finished image has the MBR in sector 0, partition 1 from `OFFSET` MiB up to `BOOT_SIZE` MiB and partition 2 from
there to the end. The bootloader goes into the gap below partition 1.

- `write_bootloader_ok_iff`: for every image and every bootloader that fits the gap, the write keeps the length, the
  MBR and both partitions and reads back, exactly for the flavours other than sunxi U-Boot.
- `sunxi_uboot_truncates`: the sunxi U-Boot `dd` has no `conv=notrunc`, so the image ends where the bootloader ends.
-/
import Mathlib.Tactic
import AvaotaOS.Boards
import AvaotaOS.Core.ByteImage

namespace AvaotaOS.WriteBootloader

open ByteImage

/-! ## The finished image -/

def MiB : ℕ := 1024 * 1024

def KiB : ℕ := 1024

/-- `OFFSET`, in MiB -/
def OFFSET : ℕ := 16

/-- `BOOT_SIZE`, in MiB -/
def BOOT_SIZE : ℕ := 256

/-- the size of `sdcard.img` in MiB -/
def img_size (rootfs_size kernel_size : ℕ) : ℕ := rootfs_size + rootfs_size / 5 + kernel_size + BOOT_SIZE + 1024

/-- an image file of the size `pack_sdcard` gives it -/
structure Sdcard where
  bytes : List UInt8
  rootfs_size : ℕ
  kernel_size : ℕ
  size : bytes.length = img_size rootfs_size kernel_size * MiB

/-- a partition: first and last sector -/
structure Partition where
  first : ℕ
  last : ℕ
deriving DecidableEq, Repr

/-- what the two `parted mkpart` calls write into the table -/
def partitions (img : Sdcard) : List Partition :=
  [⟨OFFSET * 2048, BOOT_SIZE * 2048 - 1⟩, ⟨BOOT_SIZE * 2048, img.bytes.length / 512 - 1⟩]

/-- the content of a partition -/
def Partition.read (p : Partition) (img : List UInt8) : List UInt8 :=
  slice img (p.first * 512) ((p.last + 1 - p.first) * 512)

/-- the MBR sector -/
def mbr (img : List UInt8) : List UInt8 := slice img 0 512

/-! ## The writers -/

/-- the files `apply_bootloader` leaves in the workspace -/
inductive BlFile where
  | bootloaderSyterkit
  | bootloaderUboot
  | idbloader
  | ubootItb
deriving DecidableEq, Repr

/-- one `dd if=FILE of=$1 ...` -/
structure DdCall where
  ifile : BlFile
  opts : DdOpts
deriving DecidableEq, Repr

/-- `write_bootloader` of each library -/
def write_bootloader : BlConfig → List DdCall
  | .sunxiSyterkit => [⟨.bootloaderSyterkit, { bs := 1024, seek := 8, notrunc := true }⟩]
  | .sunxiUboot => [⟨.bootloaderUboot, { bs := 1024, seek := 8, notrunc := false }⟩]
  | .rockchipUboot => [⟨.idbloader, { seek := 64, notrunc := true }⟩, ⟨.ubootItb, { seek := 16384, notrunc := true }⟩]

/-- where a call writes -/
def DdCall.offset (d : DdCall) : ℕ := d.opts.seek * d.opts.bs

/-- the effect of the calls on the image -/
def writeAll (bins : BlFile → List UInt8) (ds : List DdCall) (img : List UInt8) : List UInt8 :=
  ds.foldl (fun img d => dd 0 d.opts (bins d.ifile) img) img

/-- the binaries fit the gap they are written into -/
def Fits (bins : BlFile → List UInt8) : BlConfig → Prop
  | .sunxiSyterkit => 8 * KiB + (bins .bootloaderSyterkit).length ≤ OFFSET * MiB
  | .sunxiUboot => 8 * KiB + (bins .bootloaderUboot).length ≤ OFFSET * MiB
  | .rockchipUboot => 32 * KiB + (bins .idbloader).length ≤ 8 * MiB ∧ 8 * MiB + (bins .ubootItb).length ≤ OFFSET * MiB

instance (bins : BlFile → List UInt8) (c : BlConfig) : Decidable (Fits bins c) := by
  cases c <;> unfold Fits <;> infer_instance

/-- what a bootloader write must leave alone, and what it must leave behind -/
structure WriteOk (img : Sdcard) (bins : BlFile → List UInt8) (ds : List DdCall) (out : List UInt8) : Prop where
  length : out.length = img.bytes.length
  mbr : mbr out = mbr img.bytes
  partitions : ∀ p ∈ partitions img, p.read out = p.read img.bytes
  readBack : ∀ d ∈ ds, slice out d.offset (bins d.ifile).length = bins d.ifile

/-! ## Writes into the gap -/

/-- a call that keeps the rest of the file and stays between the MBR and partition 1 -/
structure InGap (bins : BlFile → List UInt8) (d : DdCall) : Prop where
  notrunc : d.opts.notrunc = true
  above : 512 ≤ d.offset
  below : d.offset + (bins d.ifile).length ≤ OFFSET * MiB

theorem gap_le (img : Sdcard) : OFFSET * MiB ≤ img.bytes.length := by
  have := img.size
  simp only [img_size, OFFSET, BOOT_SIZE, MiB] at *
  omega

/-- one write into the gap -/
theorem dd_inGap {bins : BlFile → List UInt8} {d : DdCall} (h : InGap bins d) {img : List UInt8}
    (hl : OFFSET * MiB ≤ img.length) :
    (dd 0 d.opts (bins d.ifile) img).length = img.length ∧
      slice (dd 0 d.opts (bins d.ifile) img) d.offset (bins d.ifile).length = bins d.ifile ∧
      ∀ a n, a + n ≤ d.offset ∨ d.offset + (bins d.ifile).length ≤ a →
        slice (dd 0 d.opts (bins d.ifile) img) a n = slice img a n := by
  have hfit : d.offset + (bins d.ifile).length ≤ img.length := h.below.trans hl
  rw [dd_notrunc 0 h.notrunc]
  exact ⟨overlay_length 0 hfit, slice_overlay_self 0 hfit, fun a n hd => slice_overlay_disjoint 0 hfit hd⟩

/-- writes into the gap that do not overlap leave the image's own content alone and all read back -/
theorem writeAll_inGap {bins : BlFile → List UInt8} {ds : List DdCall} (hg : ∀ d ∈ ds, InGap bins d)
    (hdis : ds.Pairwise fun d d' => d.offset + (bins d.ifile).length ≤ d'.offset) {img : List UInt8}
    (hl : OFFSET * MiB ≤ img.length) :
    (writeAll bins ds img).length = img.length ∧
      (∀ d ∈ ds, slice (writeAll bins ds img) d.offset (bins d.ifile).length = bins d.ifile) ∧
      ∀ a n, (∀ d ∈ ds, a + n ≤ d.offset ∨ d.offset + (bins d.ifile).length ≤ a) →
        slice (writeAll bins ds img) a n = slice img a n := by
  induction ds generalizing img with
  | nil => exact ⟨rfl, by simp, fun _ _ _ => rfl⟩
  | cons d ds ih =>
    obtain ⟨hhead, htail⟩ := List.pairwise_cons.1 hdis
    obtain ⟨h1, h2, h3⟩ := dd_inGap (hg d (by simp)) hl
    have hl' : OFFSET * MiB ≤ (dd 0 d.opts (bins d.ifile) img).length := by rw [h1]; exact hl
    obtain ⟨i1, i2, i3⟩ := ih (fun d' hd' => hg d' (by simp [hd'])) htail hl'
    rw [writeAll, List.foldl_cons] at *
    refine ⟨i1.trans h1, fun d' hd' => ?_, fun a n ha => ?_⟩
    · rcases List.mem_cons.1 hd' with rfl | hd'
      · -- the later writes lie above the first one
        exact (i3 _ _ fun d' hd' => Or.inl (hhead d' hd')).trans h2
      · exact i2 d' hd'
    · exact (i3 a n fun d' hd' => ha d' (by simp [hd'])).trans (h3 a n (ha d (by simp)))

/-- **Writes into the gap are safe** for every image of the layout -/
theorem writeOk_of_inGap (img : Sdcard) {bins : BlFile → List UInt8} {ds : List DdCall} (hg : ∀ d ∈ ds, InGap bins d)
    (hdis : ds.Pairwise fun d d' => d.offset + (bins d.ifile).length ≤ d'.offset) :
    WriteOk img bins ds (writeAll bins ds img.bytes) := by
  obtain ⟨h1, h2, h3⟩ := writeAll_inGap hg hdis (gap_le img)
  refine ⟨h1, h3 0 512 fun d hd => Or.inl (by have := (hg d hd).above; omega), fun p hp => ?_, h2⟩
  refine h3 _ _ fun d hd => Or.inr ?_
  have := (hg d hd).below
  simp only [partitions, List.mem_cons, List.not_mem_nil, or_false] at hp
  rcases hp with rfl | rfl <;> simp only [OFFSET, BOOT_SIZE, MiB] at * <;> omega

/-- **Without `conv=notrunc` the image is cut to the bootloader**: both partitions are gone -/
theorem sunxi_uboot_truncates (bins : BlFile → List UInt8) (img : List UInt8) :
    (writeAll bins (write_bootloader .sunxiUboot) img).length = 8 * KiB + (bins .bootloaderUboot).length :=
  dd_trunc_length 0 (o := { bs := 1024, seek := 8, notrunc := false }) rfl (bins .bootloaderUboot) img

/-! ## The contract of `write_bootloader` -/

/-- **The bootloader write respects the layout exactly for the flavours whose `dd` keeps the rest of the file** -/
theorem write_bootloader_ok_iff (img : Sdcard) (bins : BlFile → List UInt8) (c : BlConfig) (h : Fits bins c) :
    WriteOk img bins (write_bootloader c) (writeAll bins (write_bootloader c) img.bytes) ↔ c ≠ .sunxiUboot := by
  cases c with
  | sunxiSyterkit =>
    refine ⟨fun _ => by decide, fun _ => writeOk_of_inGap img ?_ (by simp [write_bootloader])⟩
    simp only [write_bootloader, List.mem_singleton, forall_eq]
    exact ⟨rfl, by decide, h⟩
  | sunxiUboot =>
    refine ⟨fun hw => ?_, fun hn => absurd rfl hn⟩
    have h1 := hw.length
    have h2 := img.size
    rw [sunxi_uboot_truncates] at h1
    simp only [Fits, img_size, OFFSET, BOOT_SIZE, MiB, KiB] at h h1 h2
    omega
  | rockchipUboot =>
    obtain ⟨hi, hu⟩ := h
    refine ⟨fun _ => by decide, fun _ => writeOk_of_inGap img ?_ ?_⟩
    · simp only [write_bootloader, List.mem_cons, List.not_mem_nil, or_false]
      rintro d (rfl | rfl)
      · refine ⟨rfl, by decide, ?_⟩
        simp only [DdCall.offset, OFFSET, MiB, KiB] at hi ⊢
        omega
      · exact ⟨rfl, by decide, hu⟩
    · simp only [write_bootloader, List.pairwise_cons, List.mem_singleton, forall_eq, List.not_mem_nil,
        false_imp_iff, implies_true, List.Pairwise.nil, and_true]
      exact hi

/-- an empty 1281 MiB image -/
def blankSdcard : Sdcard where
  bytes := List.replicate (img_size 1 0 * MiB) 0
  rootfs_size := 1
  kernel_size := 0
  size := List.length_replicate

theorem write_bootloader_ok_syterkit :
    WriteOk blankSdcard (fun _ => [1, 2, 3]) (write_bootloader .sunxiSyterkit)
      (writeAll (fun _ => [1, 2, 3]) (write_bootloader .sunxiSyterkit) blankSdcard.bytes) :=
  (write_bootloader_ok_iff blankSdcard (fun _ => [1, 2, 3]) .sunxiSyterkit (by decide)).2 (by decide)

/-- a three-byte U-Boot cuts the 1281 MiB image to 8195 bytes -/
theorem sunxi_uboot_destroys_image :
    Fits (fun _ => [1, 2, 3]) .sunxiUboot ∧
      (writeAll (fun _ => [1, 2, 3]) (write_bootloader .sunxiUboot) blankSdcard.bytes).length = 8195 ∧
      ¬ WriteOk blankSdcard (fun _ => [1, 2, 3]) (write_bootloader .sunxiUboot)
        (writeAll (fun _ => [1, 2, 3]) (write_bootloader .sunxiUboot) blankSdcard.bytes) := by
  have hlen := sunxi_uboot_truncates (fun _ => [1, 2, 3]) blankSdcard.bytes
  refine ⟨by decide, hlen, fun hw => ?_⟩
  have h1 := hw.length
  rw [hlen, blankSdcard.size] at h1
  simp only [blankSdcard, img_size, BOOT_SIZE, MiB, KiB, List.length_cons, List.length_nil] at h1
  omega

end AvaotaOS.WriteBootloader
