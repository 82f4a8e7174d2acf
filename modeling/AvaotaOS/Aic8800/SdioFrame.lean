/-
The aggregates that the AIC8800 Wi-Fi driver writes to the SDIO bus (`aic8800_fdrv/aicwf_sdio.c`): packets one after another,
each with a header of four bytes and padded to four, then a link tail, in blocks of 512 bytes.

`aggr_buf` is memory that stays from one aggregate to the next: after the link tail, what is written holds old bytes up to
the end of the block. `received` is how the packets are told apart on the other side.

- `crc8_detects`: what the check of a header notices.
- `aggr_bytes`: what `aicwf_sdio_aggr` appends to the buffer.
- `received_wire`: the packets of an aggregate are told apart, whatever the memory held before.
-/
import AvaotaOS.Core.Crc
import AvaotaOS.Aic8800.Reorder

namespace AvaotaOS.Aic8800

/-! ## The check of the header -/

def crcPoly : Byte := 0x07

/-- the inner loop of `crc8_ponl_107`: one bit of `*p_buffer` -/
def crcBit (b crc i : Byte) : Byte :=
  let crc := if crc &&& 0x80 ≠ 0 then (crc * 2) ^^^ crcPoly else crc * 2
  if b &&& i ≠ 0 then crc ^^^ crcPoly else crc

def crc8_ponl_107 (p_buffer : List Byte) : Byte :=
  p_buffer.foldl (fun crc b => [0x80, 0x40, 0x20, 0x10, 0x08, 0x04, 0x02, 0x01].foldl (crcBit b) crc) 0

/-- the bits of a buffer, in the order the check takes them -/
def bitsOf (p : List Byte) : List Bool := p.flatMap fun b => Crc.bits b 8

theorem crcBit_shift (c : Byte) :
    (if c &&& 0x80 ≠ 0 then (c * 2) ^^^ crcPoly else c * 2) = Crc.shift crcPoly c := by
  revert c
  decide +kernel

theorem crcBit_mask (b : Byte) : ∀ k : Fin 8, (b &&& ((0x80 : Byte) >>> k.val) ≠ 0) ↔ b.getMsbD k.val = true := by
  revert b
  decide +kernel

theorem crcBit_eq (b crc : Byte) (k : Fin 8) : crcBit b crc ((0x80 : Byte) >>> k.val) = Crc.feed crcPoly crc (b.getMsbD k.val) := by
  have hmask := crcBit_mask b k
  rw [crcBit, crcBit_shift, Crc.feed]
  by_cases h : b.getMsbD k.val = true
  · rw [if_pos (hmask.2 h), if_pos h]
  · rw [if_neg fun hb => h (hmask.1 hb), if_neg h]

theorem crcByte_eq (b crc : Byte) :
    [0x80, 0x40, 0x20, 0x10, 0x08, 0x04, 0x02, 0x01].foldl (crcBit b) crc = Crc.crc crcPoly crc (Crc.bits b 8) := by
  have hmasks : ([0x80, 0x40, 0x20, 0x10, 0x08, 0x04, 0x02, 0x01] : List Byte) = 
      (List.finRange 8).map fun k : Fin 8 => (0x80 : Byte) >>> k.val := by decide
  have hbits : Crc.bits b 8 = (List.finRange 8).map fun k : Fin 8 => b.getMsbD k.val := rfl
  have hstep : ∀ (l : List (Fin 8)) (c : Byte),
      (l.map fun k : Fin 8 => (0x80 : Byte) >>> k.val).foldl (crcBit b) c =
        Crc.crc crcPoly c (l.map fun k : Fin 8 => b.getMsbD k.val) := by
    intro l
    induction l with
    | nil => exact fun c => rfl
    | cons k l ih =>
      intro c
      rw [List.map_cons, List.map_cons, List.foldl_cons, Crc.crc_cons, crcBit_eq, ih]
  rw [hmasks, hbits, hstep]

theorem crc8_eq (p : List Byte) : crc8_ponl_107 p = Crc.crc crcPoly 0#8 (bitsOf p) := by
  have hstep : ∀ (l : List Byte) (c : Byte),
      l.foldl (fun crc b => [0x80, 0x40, 0x20, 0x10, 0x08, 0x04, 0x02, 0x01].foldl (crcBit b) crc) c =
        Crc.crc crcPoly c (bitsOf l) := by
    intro l
    induction l with
    | nil => exact fun c => rfl
    | cons b l ih =>
      intro c
      rw [List.foldl_cons, crcByte_eq, ih, bitsOf, bitsOf, List.flatMap_cons, Crc.crc_append]
  exact hstep p 0

/-- a buffer with its check behind it -/
def checked (p : List Byte) : List Byte := p ++ [crc8_ponl_107 p]

theorem checked_crc (p : List Byte) : Crc.crc crcPoly 0#8 (bitsOf (checked p)) = 0#8 := by
  have hbits : bitsOf (checked p) = bitsOf p ++ Crc.bits (Crc.crc crcPoly 0#8 (bitsOf p)) 8 := by
    simp [checked, bitsOf, crc8_eq]
  rw [hbits]
  exact Crc.crc_check

theorem bitsOf_length (p : List Byte) : (bitsOf p).length = 8 * p.length := by
  induction p with
  | nil => rfl
  | cons b p ih =>
    have hcons : bitsOf (b :: p) = Crc.bits b 8 ++ bitsOf p := rfl
    rw [hcons, List.length_append, ih, Crc.bits_length, List.length_cons]
    omega

theorem bits_injective {a b : Byte} (h : Crc.bits a 8 = Crc.bits b 8) : a = b := by
  apply BitVec.eq_of_getMsbD_eq
  intro i hi
  have hi' := congrArg (fun l : List Bool => l[i]?) h
  simpa [Crc.bits, hi] using hi'

theorem bitsOf_injective {p q : List Byte} (hlen : p.length = q.length) (h : bitsOf p = bitsOf q) : p = q := by
  induction p generalizing q with
  | nil => exact (List.length_eq_zero_iff.1 hlen.symm).symm
  | cons a p ih =>
    cases q with
    | nil => simp at hlen
    | cons b q =>
      have hcons : ∀ (c : Byte) (r : List Byte), bitsOf (c :: r) = Crc.bits c 8 ++ bitsOf r := fun _ _ => rfl
      rw [hcons, hcons] at h
      obtain ⟨hab, hpq⟩ := List.append_inj h (by rw [Crc.bits_length, Crc.bits_length])
      rw [bits_injective hab, ih (Nat.succ.inj hlen) hpq]

/-- whether a byte has an odd number of ones -/
def oddOnes (b : Byte) : Bool := decide ((Crc.bits b 8).count true % 2 = 1)

theorem oddOnes_parity : Crc.Parity crcPoly oddOnes := by
  constructor <;> decide +kernel

/-- the polynomial comes back after 127 shifts, and not before -/
theorem crcPoly_order : ∀ d, 0 < d → d < 127 → (Crc.shift crcPoly)^[d] crcPoly ≠ crcPoly := by
  have h : ∀ d : Fin 127, 0 < d.val → (Crc.shift crcPoly)^[d.val] crcPoly ≠ crcPoly := by decide +kernel
  exact fun d hpos hd => h ⟨d, hd⟩ hpos

/-- **What the check notices**: two buffers of one length that both have their right check behind them differ by more than a
burst of eight bits, and, up to 14 bytes, in four bits at least -/
theorem crc8_detects {p q : List Byte} (hlen : p.length = q.length) (hne : p ≠ q) :
    (∀ i l j, Crc.diff (bitsOf (checked p)) (bitsOf (checked q)) = List.replicate i false ++ l ++ List.replicate j false →
        8 < l.length) ∧
      (p.length ≤ 14 → 4 ≤ (Crc.diff (bitsOf (checked p)) (bitsOf (checked q))).count true) := by
  have hclen : (checked p).length = (checked q).length := by simp [checked, hlen]
  have hblen : (bitsOf (checked p)).length = (bitsOf (checked q)).length := by
    rw [bitsOf_length, bitsOf_length, hclen]
  have hzero : Crc.crc crcPoly 0#8 (Crc.diff (bitsOf (checked p)) (bitsOf (checked q))) = 0#8 :=
    Crc.crc_diff hblen (by rw [checked_crc, checked_crc])
  have hmem : true ∈ Crc.diff (bitsOf (checked p)) (bitsOf (checked q)) := by
    by_contra hno
    apply hne
    have hsame : checked p = checked q := by
      apply bitsOf_injective hclen
      apply Crc.eq_of_diff hblen
      intro b hb
      cases b
      · rfl
      · exact absurd hb hno
    exact (List.append_inj hsame hlen).1
  constructor
  · intro i l j he
    by_contra hle
    rw [he] at hzero hmem
    have hodd : crcPoly.getLsbD 0 = true := by decide
    have hfalse := Crc.burst hodd (by omega) hzero
    simp only [List.mem_append, List.mem_replicate] at hmem
    obtain (⟨-, h⟩ | h) | ⟨-, h⟩ := hmem
    · exact absurd h (by decide)
    · exact absurd (hfalse true h) (by decide)
    · exact absurd h (by decide)
  · intro h14
    apply Crc.weight (by decide) oddOnes_parity crcPoly_order ?_ hzero hmem
    rw [Crc.diff_length hblen, bitsOf_length, checked, List.length_append, List.length_singleton]
    omega

/-- the headers of two packets -/
theorem crc8_detects_headers :
    4 ≤ (Crc.diff (bitsOf (checked [0x20, 0x00, 0x01])) (bitsOf (checked [0x21, 0x00, 0x01]))).count true :=
  (crc8_detects (by decide) (by decide)).2 (by decide)

/-! ## The aggregate -/

inductive ChipId where
  | PRODUCT_ID_AIC8801
  | PRODUCT_ID_AIC8800DC
  | PRODUCT_ID_AIC8800DW
  | PRODUCT_ID_AIC8800D80
deriving DecidableEq, Repr

def TX_ALIGNMENT : ℕ := 4

def TAIL_LEN : ℕ := 4

def TXPKT_BLOCKSIZE : ℕ := 512

def SDIOWIFI_FUNC_BLOCKSIZE : ℕ := 512

def MAX_AGGR_TXPKT_LEN : ℕ := 1536 * 64

/-- the `struct hostdesc` in it has 28 bytes with `CONFIG_RWNX_FULLMAC` -/
def sizeof_txdesc_api : ℕ := 28

def roundup (x y : ℕ) : ℕ := (x + (y - 1)) / y * y

/-- a packet to send: `desc` is the descriptor in its `sw_hdr`, `frame` what follows the `headroom` bytes -/
structure TxPkt where
  skb : ℕ
  priority : ℕ
  desc : List Byte
  desc_len : desc.length = sizeof_txdesc_api
  frame : List Byte
  need_cfm : Bool

/-- `aggr_buf` with `tail` as the number of bytes after `head` -/
structure AggrBuf where
  data : ℕ → Byte
  tail : ℕ
  aggr_count : ℕ

def memcpy (m : ℕ → Byte) (dest : ℕ) (src : List Byte) : ℕ → Byte :=
  fun x => if dest ≤ x then (src[x - dest]?).getD (m x) else m x

/-- a `memcpy` to `tail`, and `tail` after it -/
def AggrBuf.put (b : AggrBuf) (src : List Byte) : AggrBuf :=
  { b with data := memcpy b.data b.tail src, tail := b.tail + src.length }

/-- the two bytes of a length, of which 12 bits are sent -/
def lenBytes (n : ℕ) : List Byte := [BitVec.ofNat 8 (n &&& 0xff), BitVec.ofNat 8 ((n >>> 8) &&& 0x0f)]

def sdio_header (chipid : ChipId) (pkt : TxPkt) : List Byte :=
  let h := lenBytes (pkt.frame.length + sizeof_txdesc_api) ++ [0x01]
  if chipid = .PRODUCT_ID_AIC8800D80 then h ++ [crc8_ponl_107 h] else h ++ [0]

def aicwf_sdio_aggr (chipid : ChipId) (b : AggrBuf) (pkt : TxPkt) : AggrBuf :=
  let start_ptr := b.tail
  let b := b.put (sdio_header chipid pkt)
  let b := b.put pkt.desc
  let b := b.put pkt.frame
  let curr_len := b.tail
  let b := if curr_len % TX_ALIGNMENT ≠ 0 then b.put (List.replicate (roundup curr_len TX_ALIGNMENT - curr_len) 0) else b
  let b := if chipid = .PRODUCT_ID_AIC8800D80 then b
    else { b with data := memcpy b.data start_ptr (lenBytes (b.tail - start_ptr - 4)) }
  { b with aggr_count := b.aggr_count + 1 }

/-- the link tail of `aicwf_sdio_aggr_send` -/
def linkTail (b : AggrBuf) : AggrBuf :=
  if b.tail % TXPKT_BLOCKSIZE ≠ 0 then b.put (List.replicate TAIL_LEN 0) else b

/-- what `aicwf_sdio_txpkt` writes to the bus -/
def aicwf_sdio_txpkt (b : AggrBuf) : List Byte :=
  (List.range ((b.tail + SDIOWIFI_FUNC_BLOCKSIZE - 1) / SDIOWIFI_FUNC_BLOCKSIZE * SDIOWIFI_FUNC_BLOCKSIZE)).map b.data

def aicwf_sdio_aggrbuf_reset (b : AggrBuf) : AggrBuf := { b with tail := 0, aggr_count := 0 }

/-! ## What is in the buffer -/

def AggrBuf.bytes (b : AggrBuf) : List Byte := (List.range b.tail).map b.data

variable {b : AggrBuf} {chipid : ChipId} {pkt : TxPkt}

@[simp] theorem AggrBuf.bytes_length : b.bytes.length = b.tail := by
  simp [AggrBuf.bytes]

theorem memcpy_range (m : ℕ → Byte) (n : ℕ) (src : List Byte) :
    (List.range (n + src.length)).map (memcpy m n src) = (List.range n).map m ++ src := by
  rw [List.range_add, List.map_append, List.map_map]
  congr 1
  · apply List.map_congr_left
    intro i hi
    rw [memcpy, if_neg (by rw [List.mem_range] at hi; omega)]
  · apply List.ext_getElem (by simp)
    intro i hi hs
    simp [memcpy, hs]

theorem AggrBuf.put_bytes (src : List Byte) : (b.put src).bytes = b.bytes ++ src := memcpy_range b.data b.tail src

theorem memcpy_beyond (m : ℕ → Byte) (dest : ℕ) (src : List Byte) (i : ℕ) :
    memcpy m dest src (dest + src.length + i) = m (dest + src.length + i) := by
  rw [memcpy, if_pos (by omega), List.getElem?_eq_none (by omega), Option.getD_none]

/-- bytes in the middle of the buffer are replaced -/
theorem memcpy_inside {m : ℕ → Byte} {l src old rest : List Byte} (hlen : old.length = src.length)
    (h : (List.range (l.length + src.length + rest.length)).map m = l ++ old ++ rest) :
    (List.range (l.length + src.length + rest.length)).map (memcpy m l.length src) = l ++ src ++ rest := by
  rw [List.range_add, List.map_append, List.map_map] at h ⊢
  obtain ⟨hfront, hrest⟩ := List.append_inj h (by simp [hlen])
  have hl : (List.range l.length).map m = l := by
    rw [List.range_add, List.map_append] at hfront
    exact (List.append_inj hfront (by simp)).1
  rw [memcpy_range, hl]
  congr 1
  exact (List.map_congr_left fun i _ => memcpy_beyond m l.length src i).trans hrest

theorem AggrBuf.patch_bytes {l src old rest : List Byte} (hlen : old.length = src.length) (h : b.bytes = l ++ old ++ rest) :
    ({ b with data := memcpy b.data l.length src } : AggrBuf).bytes = l ++ src ++ rest := by
  have htail : b.tail = l.length + src.length + rest.length := by
    rw [← AggrBuf.bytes_length, h, List.length_append, List.length_append, hlen]
  rw [AggrBuf.bytes, htail] at h ⊢
  exact memcpy_inside hlen h

/-- what a packet is padded with -/
def padding (pkt : TxPkt) : List Byte :=
  List.replicate (roundup pkt.frame.length TX_ALIGNMENT - pkt.frame.length) 0

/-- the part of a packet that its header counts -/
def body (chipid : ChipId) (pkt : TxPkt) : List Byte :=
  if chipid = .PRODUCT_ID_AIC8800D80 then pkt.desc ++ pkt.frame else pkt.desc ++ pkt.frame ++ padding pkt

/-- the bytes of a packet in the aggregate -/
def record (chipid : ChipId) (pkt : TxPkt) : List Byte :=
  (if chipid = .PRODUCT_ID_AIC8800D80 then checked (lenBytes (body chipid pkt).length ++ [0x01])
    else lenBytes (body chipid pkt).length ++ [0x01] ++ [0]) ++ pkt.desc ++ pkt.frame ++ padding pkt

theorem padding_length (pkt : TxPkt) : (padding pkt).length < 4 ∧ (pkt.frame.length + (padding pkt).length) % 4 = 0 := by
  simp only [padding, roundup, TX_ALIGNMENT, List.length_replicate]
  omega

theorem record_length (chipid : ChipId) (pkt : TxPkt) :
    (record chipid pkt).length = 32 + pkt.frame.length + (padding pkt).length := by
  have hd : pkt.desc.length = 28 := pkt.desc_len
  rw [record]
  split <;> simp [checked, lenBytes, hd] <;> omega

/-- the buffer before `aicwf_sdio_aggr` puts the padded length into the header -/
def filled (chipid : ChipId) (b : AggrBuf) (pkt : TxPkt) : AggrBuf :=
  let b := ((b.put (sdio_header chipid pkt)).put pkt.desc).put pkt.frame
  if b.tail % TX_ALIGNMENT ≠ 0 then b.put (List.replicate (roundup b.tail TX_ALIGNMENT - b.tail) 0) else b

theorem aggr_eq (chipid : ChipId) (b : AggrBuf) (pkt : TxPkt) :
    aicwf_sdio_aggr chipid b pkt =
      { (if chipid = .PRODUCT_ID_AIC8800D80 then filled chipid b pkt
          else { filled chipid b pkt with
            data := memcpy (filled chipid b pkt).data b.tail (lenBytes ((filled chipid b pkt).tail - b.tail - 4)) }) with
        aggr_count := (filled chipid b pkt).aggr_count + 1 } := by
  rw [aicwf_sdio_aggr]
  split <;> rfl

theorem filled_count (chipid : ChipId) (b : AggrBuf) (pkt : TxPkt) : (filled chipid b pkt).aggr_count = b.aggr_count := by
  simp only [filled]
  split <;> rfl

theorem header_length (chipid : ChipId) (pkt : TxPkt) : (sdio_header chipid pkt).length = 4 := by
  simp only [sdio_header, lenBytes]
  split <;> rfl

theorem filled_bytes (h : b.tail % 4 = 0) :
    (filled chipid b pkt).bytes = b.bytes ++ sdio_header chipid pkt ++ pkt.desc ++ pkt.frame ++ padding pkt := by
  have hd : pkt.desc.length = 28 := pkt.desc_len
  have hh := header_length chipid pkt
  have htail : (((b.put (sdio_header chipid pkt)).put pkt.desc).put pkt.frame).tail = b.tail + 32 + pkt.frame.length := by
    simp [AggrBuf.put, hd, hh, Nat.add_assoc]
  have hround : roundup (b.tail + 32 + pkt.frame.length) TX_ALIGNMENT - (b.tail + 32 + pkt.frame.length) =
      roundup pkt.frame.length TX_ALIGNMENT - pkt.frame.length := by
    simp only [roundup, TX_ALIGNMENT]
    omega
  rw [filled]
  simp only [htail, hround]
  split
  · rw [AggrBuf.put_bytes, AggrBuf.put_bytes, AggrBuf.put_bytes, AggrBuf.put_bytes]
    rfl
  · rename_i hz
    have hnone : padding pkt = [] := by
      simp only [padding, roundup, TX_ALIGNMENT, List.replicate_eq_nil_iff] at hz ⊢
      omega
    rw [hnone, List.append_nil, AggrBuf.put_bytes, AggrBuf.put_bytes, AggrBuf.put_bytes]

/-- **A packet is appended** with its header -/
theorem aggr_bytes (h : b.tail % 4 = 0) : (aicwf_sdio_aggr chipid b pkt).bytes = b.bytes ++ record chipid pkt := by
  have hd : pkt.desc.length = 28 := pkt.desc_len
  have hf : (filled chipid b pkt).bytes =
      b.bytes ++ sdio_header chipid pkt ++ pkt.desc ++ pkt.frame ++ padding pkt := filled_bytes h
  have htail : (filled chipid b pkt).tail = b.tail + (32 + pkt.frame.length + (padding pkt).length) := by
    have hlen := congrArg List.length hf
    simp only [AggrBuf.bytes_length, List.length_append, header_length, hd] at hlen
    omega
  rw [aggr_eq]
  by_cases hc : chipid = .PRODUCT_ID_AIC8800D80
  · rw [if_pos hc]
    have hbody : (body chipid pkt).length = pkt.frame.length + sizeof_txdesc_api := by
      rw [body, if_pos hc, List.length_append, pkt.desc_len, Nat.add_comm]
    calc (filled chipid b pkt).bytes = b.bytes ++ sdio_header chipid pkt ++ pkt.desc ++ pkt.frame ++ padding pkt := hf
      _ = b.bytes ++ record chipid pkt := by
        simp only [record, hbody, sdio_header, if_pos hc, checked, List.append_assoc]
  · rw [if_neg hc]
    have hbody : (filled chipid b pkt).tail - b.tail - 4 = (body chipid pkt).length := by
      rw [body, if_neg hc, List.length_append, List.length_append, hd, htail]
      omega
    obtain ⟨x, hx⟩ : ∃ x, sdio_header chipid pkt = lenBytes x ++ [0x01, 0] :=
      ⟨pkt.frame.length + sizeof_txdesc_api, by simp [sdio_header, hc]⟩
    have hsplit : (filled chipid b pkt).bytes =
        b.bytes ++ lenBytes x ++ ([0x01, 0] ++ pkt.desc ++ pkt.frame ++ padding pkt) := by
      rw [hf, hx]
      simp only [List.append_assoc]
    have hsame : (lenBytes x).length = (lenBytes (body chipid pkt).length).length := rfl
    have hpatch := AggrBuf.patch_bytes hsame hsplit
    rw [AggrBuf.bytes_length] at hpatch
    rw [hbody]
    calc _ = b.bytes ++ lenBytes (body chipid pkt).length ++ ([0x01, 0] ++ pkt.desc ++ pkt.frame ++ padding pkt) := hpatch
      _ = b.bytes ++ record chipid pkt := by simp [record, hc]

/-! ## The other side -/

/-- how the packets are told apart: a length, two bytes more, and so many bytes, up to four; a length of 0 ends it -/
def parse : ℕ → List Byte → List (List Byte)
  | n + 1, b0 :: b1 :: _ :: _ :: l =>
    let len := b0.toNat + 256 * b1.toNat
    if len = 0 then [] else l.take len :: parse n (l.drop (roundup len 4))
  | _, _ => []

def received (l : List Byte) : List (List Byte) := parse l.length l

/-- the length of a packet with its descriptor has 12 bits -/
def TxPkt.Sized (pkt : TxPkt) : Prop := pkt.frame.length + sizeof_txdesc_api ≤ 4092

theorem lenBytes_eq {n : ℕ} (h : n ≤ 4095) : ∃ b0 b1 : Byte, lenBytes n = [b0, b1] ∧ b0.toNat + 256 * b1.toNat = n := by
  refine ⟨_, _, rfl, ?_⟩
  have hlo : n &&& 0xff = n % 256 := Nat.and_two_pow_sub_one_eq_mod n 8
  have hhi : (n >>> 8) &&& 0x0f = n / 256 % 16 := by
    rw [Nat.shiftRight_eq_div_pow]
    exact Nat.and_two_pow_sub_one_eq_mod (n / 256) 4
  rw [hlo, hhi, BitVec.toNat_ofNat, BitVec.toNat_ofNat]
  omega

theorem body_length (h : pkt.Sized) : 0 < (body chipid pkt).length ∧ (body chipid pkt).length ≤ 4095 := by
  have hd : pkt.desc.length = 28 := pkt.desc_len
  have hp := padding_length pkt
  have hs : pkt.frame.length + 28 ≤ 4092 := h
  rw [body]
  split <;> simp only [List.length_append, hd] <;> omega

/-- a packet is told apart from what follows it -/
theorem parse_record (h : pkt.Sized) (n : ℕ) (t : List Byte) :
    parse (n + 1) (record chipid pkt ++ t) = body chipid pkt :: parse n t := by
  have hd : pkt.desc.length = 28 := pkt.desc_len
  have hp := padding_length pkt
  obtain ⟨hpos, hle⟩ : 0 < (body chipid pkt).length ∧ (body chipid pkt).length ≤ 4095 := body_length h
  obtain ⟨b0, b1, hlen, hval⟩ := lenBytes_eq hle
  have hrec : ∃ b2 b3, record chipid pkt = b0 :: b1 :: b2 :: b3 :: (pkt.desc ++ pkt.frame ++ padding pkt) := by
    rw [record, hlen]
    split
    · exact ⟨_, _, rfl⟩
    · exact ⟨_, _, rfl⟩
  obtain ⟨b2, b3, hrec⟩ := hrec
  have htake : (pkt.desc ++ pkt.frame ++ padding pkt ++ t).take (body chipid pkt).length = body chipid pkt := by
    rw [body]
    split
    · rw [List.append_assoc, List.take_left]
    · rw [List.take_left]
  have hdrop : (pkt.desc ++ pkt.frame ++ padding pkt ++ t).drop (roundup (body chipid pkt).length 4) = t := by
    have hround : roundup (body chipid pkt).length 4 = (pkt.desc ++ pkt.frame ++ padding pkt).length := by
      rw [body]
      split <;> simp only [List.length_append, hd, roundup] <;> omega
    rw [hround, List.drop_left]
  have hne : ¬ (body chipid pkt).length = 0 := by omega
  rw [hrec]
  simp only [List.cons_append, parse, hval, if_neg hne, htake, hdrop]

/-- the packets are told apart up to the end or to a length of 0 -/
theorem parse_records {batch : List TxPkt} (h : ∀ p ∈ batch, p.Sized) {t : List Byte} (ht : ∀ n, parse n t = []) {n : ℕ}
    (hn : batch.length ≤ n) : parse n (batch.flatMap (record chipid) ++ t) = batch.map (body chipid) := by
  induction batch generalizing n with
  | nil => exact ht n
  | cons p batch ih =>
    cases n with
    | zero => simp at hn
    | succ n =>
      rw [List.flatMap_cons, List.append_assoc, parse_record (h p List.mem_cons_self), List.map_cons,
        ih (fun q hq => h q (List.mem_cons_of_mem p hq)) (Nat.le_of_succ_le_succ hn)]

theorem parse_zeros (n : ℕ) (t : List Byte) : parse n (List.replicate TAIL_LEN 0 ++ t) = [] := by
  cases n <;> rfl

theorem parse_nil (n : ℕ) : parse n [] = [] := by
  cases n <;> rfl

/-- what is written is what is in the buffer, and then nothing or the link tail and old bytes -/
theorem txpkt_bytes (b : AggrBuf) :
    ∃ t, aicwf_sdio_txpkt (linkTail b) = b.bytes ++ t ∧ ∀ n, parse n t = [] := by
  have hrange : ∀ (c : AggrBuf) (n : ℕ), c.tail ≤ n → ∃ t, (List.range n).map c.data = c.bytes ++ t := by
    intro c n hle
    obtain ⟨k, rfl⟩ := Nat.exists_eq_add_of_le hle
    exact ⟨_, by rw [List.range_add, List.map_append, AggrBuf.bytes]⟩
  have hblocks : ∀ n, n ≤ (n + SDIOWIFI_FUNC_BLOCKSIZE - 1) / SDIOWIFI_FUNC_BLOCKSIZE * SDIOWIFI_FUNC_BLOCKSIZE := by
    intro n
    simp only [SDIOWIFI_FUNC_BLOCKSIZE]
    omega
  by_cases hz : b.tail % TXPKT_BLOCKSIZE ≠ 0
  · rw [linkTail, if_pos hz]
    obtain ⟨t, ht⟩ := hrange (b.put (List.replicate TAIL_LEN 0)) _ (hblocks _)
    refine ⟨List.replicate TAIL_LEN 0 ++ t, ?_, fun n => parse_zeros n t⟩
    rw [aicwf_sdio_txpkt, ht, AggrBuf.put_bytes, List.append_assoc]
  · refine ⟨[], ?_, parse_nil⟩
    rw [linkTail, if_neg hz, aicwf_sdio_txpkt, List.append_nil, AggrBuf.bytes]
    simp only [SDIOWIFI_FUNC_BLOCKSIZE, TXPKT_BLOCKSIZE] at hz ⊢
    congr 2
    omega

/-- **The packets of an aggregate are told apart**, whatever the memory held before -/
theorem received_wire {batch : List TxPkt} (h : ∀ p ∈ batch, p.Sized) (hb : b.bytes = batch.flatMap (record chipid)) :
    received (aicwf_sdio_txpkt (linkTail b)) = batch.map (body chipid) := by
  obtain ⟨t, ht, hend⟩ := txpkt_bytes b
  have hlen : batch.length ≤ (aicwf_sdio_txpkt (linkTail b)).length := by
    have hrec : ∀ l : List TxPkt, l.length ≤ (l.flatMap (record chipid)).length := by
      intro l
      induction l with
      | nil => exact le_refl 0
      | cons p l ih =>
        rw [List.flatMap_cons, List.length_append, record_length, List.length_cons]
        omega
    rw [ht, List.length_append, hb]
    exact le_trans (hrec batch) (Nat.le_add_right _ _)
  rw [ht, hb] at hlen
  rw [received, ht, hb]
  exact parse_records h hend hlen

end AvaotaOS.Aic8800
