/-
The memory commands that `0004-fastboot-add-command-to-read-and-write-memory.patch` adds to the fastboot of U-Boot
v2023.10 (`drivers/fastboot/fb_command.c`, `fb_common.c`, `drivers/usb/gadget/f_fastboot.c`), as the C1 is built with.

The state holds the variables of the patch and of the upstream download. Counters are 32 bit and wrap, addresses are 64
bit. `copied` is not a variable of the code: it records the calls of `memcpy` in `oem_write`.

Of upstream U-Boot the model uses: a completed download puts the data at `fastboot_buf_addr` and sets `image_size`;
`hextoul`, which is left open; and `fastboot_tx_write`, which sets the length of the request again when a reply is sent
(so that `tx_bytes_expected` decides nothing). Not modelled: progress dots and messages, and U-Boot's own variables as a
part of the memory.
-/
import Mathlib.Tactic
import AvaotaOS.Core.History
import AvaotaOS.Core.Memory

namespace AvaotaOS.Fastboot

open Memory

abbrev Byte := BitVec 8

/-- one call of `memcpy` in `oem_write` -/
structure Copy where
  dst : BitVec 64
  src : BitVec 64
  len : ℕ
deriving DecidableEq, Repr

structure State where
  mem : Mem 64 Byte
  fastboot_buf_addr : BitVec 64
  fastboot_buf_size : BitVec 32
  image_size : BitVec 32
  fastboot_buf_upload_addr : BitVec 64
  fastboot_buf_upload_size : BitVec 32
  fastboot_bytes_transfered : BitVec 32
  /-- `in_req->complete` is `tx_handler_up_image` -/
  up_image : Bool
  copied : List Copy

inductive Response where
  | okay
  | fail (reason : String)
  /-- `DATA%08x` -/
  | data (size : BitVec 32)
deriving DecidableEq, Repr

/-- what goes to the host -/
inductive Sent where
  | response (r : Response)
  | bytes (l : List Byte)
deriving DecidableEq, Repr

/-! ## The commands -/

/- `hextoul s` is the number at the head of `s`, and what is left of `s`. -/
section Commands

variable (hextoul : List Char → BitVec 64 × List Char)

/-- upstream: the data phase of a `download`, which is refused if the buffer is too small -/
def download (data : List Byte) (s : State) : Response × State :=
  if data.length ≤ s.fastboot_buf_size.toNat then
    (.okay, { s with mem := write s.mem s.fastboot_buf_addr data, image_size := BitVec.ofNat 32 data.length })
  else (.fail "too large", s)

def oem_read (cmd_parameter : List Char) (s : State) : Response × State :=
  match hextoul cmd_parameter with
  | (address, ':' :: tmp) =>
    match hextoul tmp with
    | (size, []) =>
      (.okay, { s with fastboot_buf_upload_addr := address, fastboot_buf_upload_size := size.setWidth 32 })
    | _ => (.fail "Invalid size", s)
  | _ => (.fail "Invalid address or size", s)

def oem_write (cmd_parameter : List Char) (s : State) : Response × State :=
  match hextoul cmd_parameter with
  | (address, []) =>
    let n := s.fastboot_buf_upload_size.toNat
    (.okay, { s with
      mem := write s.mem address (read s.mem s.fastboot_buf_addr n)
      copied := s.copied ++ [⟨address, s.fastboot_buf_addr, n⟩] })
  | _ => (.fail "Invalid address", s)

/-- `upload`, and what `rx_handler_command` makes of its `UPLOADDATA` -/
def upload (s : State) : Response × State :=
  if s.fastboot_buf_upload_addr = 0 ∨ s.fastboot_buf_upload_size = 0 then
    (.fail "No data to upload", { s with fastboot_bytes_transfered := 0 })
  else (.data s.fastboot_buf_upload_size, { s with fastboot_bytes_transfered := 0, up_image := true })

/-- the value is what the function returns, the list is what it puts into the buffer -/
def fastboot_data_upload (fastboot_data_len : BitVec 32) (s : State) : BitVec 32 × List Byte × State :=
  if fastboot_data_len = 0 then (0, [], s)
  else if s.fastboot_buf_upload_size ≤ s.fastboot_bytes_transfered then (0, [], s)
  else
    let len :=
      if s.fastboot_buf_upload_size ≤ s.fastboot_bytes_transfered + fastboot_data_len then
        s.fastboot_buf_upload_size - s.fastboot_bytes_transfered
      else fastboot_data_len
    (len, read s.mem (s.fastboot_buf_upload_addr + s.fastboot_bytes_transfered.setWidth 64) len.toNat,
      { s with fastboot_bytes_transfered := s.fastboot_bytes_transfered + len })

/-- the completion of a transfer to the host -/
def tx_handler_up_image (EP_BUFFER_SIZE : BitVec 32) (s : State) : Sent × State :=
  match fastboot_data_upload EP_BUFFER_SIZE s with
  | (tx_transfered, data, s') =>
    if tx_transfered.toInt ≤ 0 then (.response .okay, { s' with up_image := false }) else (.bytes data, s')

/-- at the start of fastboot: a buffer of 0 stands for the configured one -/
def fastboot_init (CONFIG_FASTBOOT_BUF_ADDR : BitVec 64) (CONFIG_FASTBOOT_BUF_SIZE : BitVec 32) (buf_addr : BitVec 64)
    (buf_size : BitVec 32) (s : State) : State :=
  { s with
    fastboot_buf_addr := if buf_addr ≠ 0 then buf_addr else CONFIG_FASTBOOT_BUF_ADDR
    fastboot_buf_size := if buf_size ≠ 0 then buf_size else CONFIG_FASTBOOT_BUF_SIZE
    fastboot_buf_upload_addr := 0
    fastboot_buf_upload_size := 0 }

end Commands

end AvaotaOS.Fastboot
