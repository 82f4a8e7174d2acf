/-
What `oem write` puts into the memory, over any sequence of fastboot commands.

`oem_write` copies `fastboot_buf_upload_size` bytes from the download buffer: the size that the last `oem read` has set,
not `image_size`, which the last completed download has set.

- `exact_iff`: a write that is answered with OKAY puts the downloaded image there and changes nothing else exactly where
  the two sizes agree.
- `writes_exact_iff`: the same for every write of a session whose targets are apart from the buffer.
- `write_without_read`: a download and a write, with no read before: nothing is written, and the answer is OKAY.
-/
import Mathlib.Tactic
import AvaotaOS.UBoot.Fastboot

namespace AvaotaOS.Fastboot

open Memory History

/-! ## Sessions -/

/-- the commands, and the completion of a transfer to the host -/
inductive Op where
  | download (data : List Byte)
  | oem_read (cmd_parameter : List Char)
  | oem_write (cmd_parameter : List Char)
  | upload
  | completion
deriving DecidableEq, Repr

/-- a session, with the image that was downloaded last -/
structure Session where
  st : State
  image : List Byte

/-- the variables of U-Boot before fastboot starts -/
def powerOn (mem : Mem 64 Byte) : State := ⟨mem, 0, 0, 0, 0, 0, 0, false, []⟩

section Session

variable (hextoul : List Char → BitVec 64 × List Char) (EP_BUFFER_SIZE : BitVec 32)

def Session.step (r : Session) : Op → Session
  | .download data =>
    ⟨(Fastboot.download data r.st).2, if data.length ≤ r.st.fastboot_buf_size.toNat then data else r.image⟩
  | .oem_read p => { r with st := (Fastboot.oem_read hextoul p r.st).2 }
  | .oem_write p => { r with st := (Fastboot.oem_write hextoul p r.st).2 }
  | .upload => { r with st := (Fastboot.upload r.st).2 }
  | .completion => { r with st := (tx_handler_up_image EP_BUFFER_SIZE r.st).2 }

/-! ## What a write does -/

/-- **The downloaded image is at `address`**: its bytes are there, every other byte of the memory is as it was, and they
have been copied from the buffer and no more than them -/
structure Exact (r : Session) (address : BitVec 64) (s' : State) : Prop where
  content : read s'.mem address r.image.length = r.image
  frame : ∀ x, ¬ Within address r.image.length x → s'.mem x = r.st.mem x
  copied : s'.copied = r.st.copied ++ [⟨address, r.st.fastboot_buf_addr, r.image.length⟩]

/-- a write that is answered with OKAY is exact -/
def WriteExact (r : Session) : Op → Prop
  | .oem_write p => ∀ s', Fastboot.oem_write hextoul p r.st = (.okay, s') → Exact r (hextoul p).1 s'
  | _ => True

/-- a write that is answered with OKAY finds the size of the image in the upload size -/
def SizesAgree (r : Session) : Op → Prop
  | .oem_write p => (hextoul p).2 = [] → r.st.fastboot_buf_upload_size = r.st.image_size
  | _ => True

/-- the target of a write is apart from the image in the buffer, where `memcpy` is defined -/
def TargetApart (r : Session) : Op → Prop
  | .oem_write p => (hextoul p).2 = [] → Apart (hextoul p).1 r.st.fastboot_buf_addr r.st.image_size.toNat
  | _ => True

/-- the image is in the buffer -/
structure Held (r : Session) : Prop where
  size : r.st.image_size.toNat = r.image.length
  content : read r.st.mem r.st.fastboot_buf_addr r.image.length = r.image

variable {hextoul} {r : Session}

theorem image_le (h : Held r) : r.image.length ≤ 2 ^ 64 := by
  rw [← h.size]
  exact le_trans r.st.image_size.isLt.le (by norm_num)

theorem oem_write_okay {p : List Char} {s : State} (h : (hextoul p).2 = []) :
    Fastboot.oem_write hextoul p s =
      (.okay, { s with
        mem := write s.mem (hextoul p).1 (read s.mem s.fastboot_buf_addr s.fastboot_buf_upload_size.toNat)
        copied := s.copied ++ [⟨(hextoul p).1, s.fastboot_buf_addr, s.fastboot_buf_upload_size.toNat⟩] }) := by
  have hp : hextoul p = ((hextoul p).1, []) := Prod.ext rfl h
  rw [Fastboot.oem_write, hp]

theorem oem_write_refused {p : List Char} {s : State} (h : (hextoul p).2 ≠ []) :
    Fastboot.oem_write hextoul p s = (.fail "Invalid address", s) := by
  obtain ⟨address, tmp, hp⟩ : ∃ a t, hextoul p = (a, t) := ⟨_, _, rfl⟩
  rw [hp] at h
  cases tmp with
  | nil => exact absurd rfl h
  | cons c tmp => rw [Fastboot.oem_write, hp]

/-- **A write is exact exactly where the sizes agree** -/
theorem exact_iff (h : Held r) (op : Op) : WriteExact hextoul r op ↔ SizesAgree hextoul r op := by
  cases op with
  | download _ | oem_read _ | upload | completion => exact Iff.rfl
  | oem_write p =>
    by_cases hp : (hextoul p).2 = []
    · simp only [WriteExact, SizesAgree, oem_write_okay hp, Prod.mk.injEq, true_and, forall_eq', hp, true_imp_iff]
      constructor
      · intro he
        -- the length of the copy is the length of the image
        have hc := he.copied
        simp only [List.append_cancel_left_eq, List.cons.injEq, Copy.mk.injEq, true_and, and_true] at hc
        exact BitVec.eq_of_toNat_eq (hc.trans h.size.symm)
      · intro hs
        have hn : r.st.fastboot_buf_upload_size.toNat = r.image.length := by rw [hs, h.size]
        rw [hn, h.content]
        refine ⟨?_, fun x hx => ?_, rfl⟩
        · exact read_write_self _ _ (image_le h)
        · exact write_other hx
    · simp only [WriteExact, SizesAgree, oem_write_refused hp, hp]
      simp

/-! ## Sessions keep the image -/

/-- neither the memory nor the download has changed -/
structure SameImage (s s' : State) : Prop where
  mem : s'.mem = s.mem
  addr : s'.fastboot_buf_addr = s.fastboot_buf_addr
  size : s'.image_size = s.image_size

theorem oem_read_same (p : List Char) (s : State) : SameImage s (Fastboot.oem_read hextoul p s).2 := by
  unfold Fastboot.oem_read
  split
  · split <;> exact ⟨rfl, rfl, rfl⟩
  · exact ⟨rfl, rfl, rfl⟩

theorem upload_same (s : State) : SameImage s (Fastboot.upload s).2 := by
  unfold Fastboot.upload
  split <;> exact ⟨rfl, rfl, rfl⟩

theorem completion_same (s : State) : SameImage s (tx_handler_up_image EP_BUFFER_SIZE s).2 := by
  have hd : SameImage s (fastboot_data_upload EP_BUFFER_SIZE s).2.2 := by
    unfold fastboot_data_upload
    split_ifs <;> exact ⟨rfl, rfl, rfl⟩
  unfold tx_handler_up_image
  split
  rename_i s' hs
  rw [hs] at hd
  split
  · exact ⟨hd.mem, hd.addr, hd.size⟩
  · exact hd

theorem Held.of_same {s : State} (h : Held r) (hs : SameImage r.st s) : Held { r with st := s } := by
  refine ⟨?_, ?_⟩
  · rw [hs.size]; exact h.size
  · rw [hs.mem, hs.addr]; exact h.content

/-- **Every command keeps the image in the buffer**, a write where it is exact and its target is apart -/
theorem held_step (h : Held r) (op : Op) (ha : TargetApart hextoul r op) (he : WriteExact hextoul r op) :
    Held (r.step hextoul EP_BUFFER_SIZE op) := by
  cases op with
  | oem_read p => exact h.of_same (oem_read_same p r.st)
  | upload => exact h.of_same (upload_same r.st)
  | completion => exact h.of_same (completion_same EP_BUFFER_SIZE r.st)
  | download data =>
    have hlt : r.st.fastboot_buf_size.toNat < 2 ^ 32 := r.st.fastboot_buf_size.isLt
    by_cases hd : data.length ≤ r.st.fastboot_buf_size.toNat
    · simp only [Session.step, Fastboot.download, hd, if_true]
      refine ⟨?_, ?_⟩
      · rw [BitVec.toNat_ofNat, Nat.mod_eq_of_lt (by omega)]
      · exact read_write_self _ _ (by omega)
    · simp only [Session.step, Fastboot.download, hd, if_false]
      exact h
  | oem_write p =>
    by_cases hp : (hextoul p).2 = []
    · have hx := he _ (oem_write_okay hp)
      have hap := ha hp
      rw [h.size] at hap
      refine ⟨?_, ?_⟩
      · simp only [Session.step, oem_write_okay hp]
        exact h.size
      · have hb : read (Fastboot.oem_write hextoul p r.st).2.mem r.st.fastboot_buf_addr r.image.length =
            read r.st.mem r.st.fastboot_buf_addr r.image.length := by
          apply read_congr (image_le h)
          intro x hb
          rw [oem_write_okay hp]
          exact hx.frame x fun hw => hap x hw hb
        have haddr : (r.step hextoul EP_BUFFER_SIZE (.oem_write p)).st.fastboot_buf_addr = r.st.fastboot_buf_addr := by
          simp only [Session.step, oem_write_okay hp]
        rw [haddr]
        exact hb.trans h.content
    · simp only [Session.step, oem_write_refused hp]
      exact h

theorem exact_iff_of_held {l : List Op} (h : Held r)
    (ha : Each (Session.step hextoul EP_BUFFER_SIZE) (TargetApart hextoul) r l) :
    Each (Session.step hextoul EP_BUFFER_SIZE) (WriteExact hextoul) r l ↔
      Each (Session.step hextoul EP_BUFFER_SIZE) (SizesAgree hextoul) r l := by
  induction l generalizing r with
  | nil => exact Iff.rfl
  | cons op l ih =>
    simp only [Each]
    rw [exact_iff h op]
    refine and_congr_right fun hs => ?_
    exact ih (held_step EP_BUFFER_SIZE h op ha.1 ((exact_iff h op).2 hs)) ha.2

end Session

/-- a session from power on -/
def start (CONFIG_FASTBOOT_BUF_ADDR : BitVec 64) (CONFIG_FASTBOOT_BUF_SIZE : BitVec 32) (buf_addr : BitVec 64)
    (buf_size : BitVec 32) (mem : Mem 64 Byte) : Session :=
  ⟨fastboot_init CONFIG_FASTBOOT_BUF_ADDR CONFIG_FASTBOOT_BUF_SIZE buf_addr buf_size (powerOn mem), []⟩

/-- **In a session whose writes go to memory apart from the downloaded image, every write is exact exactly when each of
them finds the size of the image in the upload size** -/
theorem writes_exact_iff (hextoul : List Char → BitVec 64 × List Char) (EP_BUFFER_SIZE : BitVec 32) (cfg : BitVec 64)
    (cfgSize : BitVec 32) (buf : BitVec 64) (bufSize : BitVec 32) (mem : Mem 64 Byte) (l : List Op)
    (ha : Each (Session.step hextoul EP_BUFFER_SIZE) (TargetApart hextoul) (start cfg cfgSize buf bufSize mem) l) :
    Each (Session.step hextoul EP_BUFFER_SIZE) (WriteExact hextoul) (start cfg cfgSize buf bufSize mem) l ↔
      Each (Session.step hextoul EP_BUFFER_SIZE) (SizesAgree hextoul) (start cfg cfgSize buf bufSize mem) l := by
  apply exact_iff_of_held EP_BUFFER_SIZE _ ha
  exact ⟨rfl, rfl⟩

/-! ## A write with no read before it -/

/-- hexadecimal digits, as `hextoul` reads them -/
def hexDigits : List Char → BitVec 64 → BitVec 64 × List Char
  | [], n => (n, [])
  | c :: l, n =>
    if c.isDigit then hexDigits l (16 * n + BitVec.ofNat 64 (c.toNat - 48))
    else if 'a' ≤ c ∧ c ≤ 'f' then hexDigits l (16 * n + BitVec.ofNat 64 (c.toNat - 87))
    else (n, c :: l)

/-- an empty memory, with a buffer of a MiB at 0x42000000 -/
def emptySession : Session := start 0x42000000 0x100000 0 0 fun _ => 0

/-- a download of one byte, and `oem write:48000000` -/
def stageAndWrite : List Op := [.download [7], .oem_write "48000000".toList]

/-- a read of the same size makes the write exact -/
theorem writes_exact_after_read :
    Each (Session.step (hexDigits · 0) 4096) (WriteExact (hexDigits · 0)) emptySession
      [.download [7], .oem_read "42000000:1".toList, .oem_write "48000000".toList] := by
  apply (writes_exact_iff (hexDigits · 0) 4096 0x42000000 0x100000 0 0 (fun _ => 0) _ _).2
  · exact ⟨trivial, trivial, fun _ => by decide, trivial⟩
  · refine ⟨trivial, trivial, fun _ x hx hy => ?_, trivial⟩
    have hx : (x - 0x48000000).toNat < 1 := hx
    have hy : (x - 0x42000000).toNat < 1 := hy
    bv_omega

/-- **With no read before it a write copies nothing**, and is answered with OKAY -/
theorem write_without_read :
    ¬ Each (Session.step (hexDigits · 0) 4096) (WriteExact (hexDigits · 0)) emptySession stageAndWrite := by
  intro h
  have hx := h.2.1 _ (oem_write_okay (by decide))
  exact absurd hx.content (by decide)

end AvaotaOS.Fastboot
