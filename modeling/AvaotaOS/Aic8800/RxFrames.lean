/-
How the AIC8800 Wi-Fi driver takes apart what it has read from the bus (`aicwf_process_rxframes` in `aic8800_fdrv/aicwf_txrxif.c`).

A buffer is a row of frames, each padded to a multiple of four: two bytes of length, a type, and the rest. In a data frame the
length leaves the hardware header out, in a message of the firmware the four bytes in front. The row ends with the buffer, or
where a length is 0.

`alloc` says which of the allocations find memory, and `up` whether the bus is up after them. The code reads lengths and copies
frames without a look at the end of the buffer, so a state is a place in the memory `mem`; `skb_pull` leaves the buffer alone
when it is shorter than what is to be pulled.

- `rx_delivers`: every frame of a row is handed on, in order; where memory is missing a data frame is lost alone, and a message
  with all that follows it.
- `rx_ends_iff`: the loop ends exactly on buffers in which every length it comes to fits.
- `rx_hangs`: a data frame that is longer than the rest of its buffer keeps the thread busy for ever, with memory or without.
-/
import AvaotaOS.Core.Rounds
import AvaotaOS.Aic8800.SdioFrame

namespace AvaotaOS.Aic8800.RxFrames

open Rounds

/-! ## The code -/

def RX_HWHRD_LEN : ℕ := 60

def RX_ALIGNMENT : ℕ := 4

def SDIO_TYPE_CFG : Byte := 0x10

def SDIO_TYPE_CFG_CMD_RSP : Byte := 0x11

def SDIO_TYPE_CFG_DATA_CFM : Byte := 0x12

def SDIO_TYPE_CFG_PRINT : Byte := 0x13

/-- what is handed on: to the network side, or the bytes of a message -/
inductive Ev where
  | rxdataind (skb : List Byte)
  | handle_msg (msg : List Byte)
  | host_tx_cfm (msg : List Byte)
  | handle_print (msg : List Byte)
deriving DecidableEq

/-- the buffer is freed and the next one is taken, or the function returns -/
inductive Ret where
  | freed
  | EBADE
deriving DecidableEq

/-- `data` and `len` of the buffer, what was handed on so far, and the number of allocations -/
structure State where
  data : ℕ
  len : ℕ
  evs : List Ev
  allocs : ℕ

def read (mem : ℕ → Byte) (data n : ℕ) : List Byte := (List.range n).map fun i => mem (data + i)

def pkt_len (mem : ℕ → Byte) (data : ℕ) : ℕ := (mem (data + 1)).toNat <<< 8 ||| (mem data).toNat

def aicwf_another_ptk (mem : ℕ → Byte) (s : State) : Bool := decide (s.len ≠ 0 ∧ pkt_len mem s.data ≠ 0)

def isCfg (type : Byte) : Bool := decide (type &&& SDIO_TYPE_CFG = SDIO_TYPE_CFG)

/-- `aggr_len`, which has 16 bits -/
def aggr_len (mem : ℕ → Byte) (data : ℕ) : ℕ :=
  if isCfg (mem (data + 2)) then pkt_len mem data else (pkt_len mem data + RX_HWHRD_LEN) % 65536

/-- `adjust_len`, which has 16 bits -/
def adjust_len (n : ℕ) : ℕ := if n % RX_ALIGNMENT ≠ 0 then roundup n RX_ALIGNMENT % 65536 else n

/-- what the buffer is advanced by -/
def pull (mem : ℕ → Byte) (data : ℕ) : ℕ :=
  if isCfg (mem (data + 2)) then adjust_len (aggr_len mem data) + 4 else adjust_len (aggr_len mem data)

def skb_pull (n : ℕ) (s : State) : State := if n > s.len then s else { s with data := s.data + n, len := s.len - n }

/-- what is done with a message of this type -/
def cfgEvs (up : Bool) (type : Byte) (msg : List Byte) : List Ev :=
  (if type &&& 0x7f = SDIO_TYPE_CFG_CMD_RSP ∧ up = true then [.handle_msg (msg.drop 4)] else []) ++
    (if type &&& 0x7f = SDIO_TYPE_CFG_DATA_CFM then [.host_tx_cfm (msg.drop 4)] else []) ++
      (if type &&& 0x7f = SDIO_TYPE_CFG_PRINT then [.handle_print (msg.drop 4)] else [])

/-- the inner loop of `aicwf_process_rxframes` -/
def round (alloc up : ℕ → Bool) (mem : ℕ → Byte) (s : State) : Round State (List Ev × Ret) :=
  if aicwf_another_ptk mem s = false then .leave (s.evs, .freed)
  else
    let t := { skb_pull (pull mem s.data) s with allocs := s.allocs + 1 }
    if isCfg (mem (s.data + 2)) = false then
      if alloc s.allocs then .next { t with evs := s.evs ++ [.rxdataind (read mem s.data (aggr_len mem s.data))] }
      else .next t
    else if alloc s.allocs then
      .next { t with
        evs := s.evs ++ cfgEvs (up s.allocs) (mem (s.data + 2)) (read mem s.data (aggr_len mem s.data + 4)) }
    else .leave (s.evs, .EBADE)

/-- the loop on a buffer of `len` bytes at the start of the memory -/
def aicwf_process_rxframes (alloc up : ℕ → Bool) (mem : ℕ → Byte) (len : ℕ) (r : List Ev × Ret) : Prop :=
  Ends (round alloc up mem) ⟨0, len, [], 0⟩ r

/-! ## The format -/

/-- the bytes of a frame its length leaves out -/
def head (type : Byte) : ℕ := if isCfg type then 4 else RX_HWHRD_LEN

/-- a frame with its type and what follows that; its padded length has 16 bits -/
structure Frame where
  type : Byte
  rest : List Byte
  length_pos : head type < rest.length + 3
  length_lt : rest.length + 6 < 65536

namespace Frame

def payload (f : Frame) : ℕ := f.rest.length + 3 - head f.type

def bytes (f : Frame) : List Byte := BitVec.ofNat 8 f.payload :: BitVec.ofNat 8 (f.payload / 256) :: f.type :: f.rest

def size (f : Frame) : ℕ := roundup f.bytes.length RX_ALIGNMENT

/-- what is handed on of it -/
def evs (up : Bool) (f : Frame) : List Ev := if isCfg f.type then cfgEvs up f.type f.bytes else [.rxdataind f.bytes]

/-- the frame is at this place of the memory, with anything behind it -/
def At (f : Frame) (mem : ℕ → Byte) (data : ℕ) : Prop := read mem data f.bytes.length = f.bytes

end Frame

/-- from `data` on, in a buffer with `len` bytes left, there are these frames, and then `l` bytes at `d` -/
def Row (mem : ℕ → Byte) (d l : ℕ) : ℕ → ℕ → List Frame → Prop
  | data, len, [] => data = d ∧ len = l
  | data, len, f :: fs => f.At mem data ∧ f.size ≤ len ∧ Row mem d l (data + f.size) (len - f.size) fs

/-- what is handed on of a row, from the allocation `k` on, and how the loop ends where the row does -/
def deliver (alloc up : ℕ → Bool) : ℕ → List Frame → List Ev × Ret
  | _, [] => ([], .freed)
  | k, f :: fs =>
    if alloc k then (f.evs (up k) ++ (deliver alloc up (k + 1) fs).1, (deliver alloc up (k + 1) fs).2)
    else if isCfg f.type then ([], .EBADE)
    else deliver alloc up (k + 1) fs

variable {alloc up : ℕ → Bool} {mem : ℕ → Byte} {s : State} {f : Frame} {r : List Ev × Ret}

/-! ## One round -/

theorem pkt_len_eq (mem : ℕ → Byte) (data : ℕ) : pkt_len mem data = (mem data).toNat + 256 * (mem (data + 1)).toNat := by
  have hlt : (mem data).toNat < 2 ^ 8 := (mem data).isLt
  rw [pkt_len, ← Nat.shiftLeft_add_eq_or_of_lt hlt, Nat.shiftLeft_eq]
  omega

theorem read_getElem {n i : ℕ} (h : i < n) (data : ℕ) : (read mem data n)[i]? = some (mem (data + i)) := by
  rw [read, List.getElem?_map, List.getElem?_range h, Option.map_some]

theorem bytes_length (f : Frame) : f.bytes.length = f.rest.length + 3 := rfl

theorem payload_head (f : Frame) : f.payload + head f.type = f.bytes.length ∧ 0 < f.payload := by
  have hpos := f.length_pos
  rw [Frame.payload, bytes_length]
  omega

/-- the three bytes the code looks at -/
theorem at_head (h : f.At mem s.data) : pkt_len mem s.data = f.payload ∧ mem (s.data + 2) = f.type := by
  have hbyte : ∀ i < f.bytes.length, some (mem (s.data + i)) = f.bytes[i]? := by
    intro i hi
    rw [← read_getElem hi, h]
  have hlen := bytes_length f
  have hlt := f.length_lt
  have hle := (payload_head f).1
  have h0 : mem s.data = BitVec.ofNat 8 f.payload := Option.some.inj (hbyte 0 (by omega))
  have h1 : mem (s.data + 1) = BitVec.ofNat 8 (f.payload / 256) := Option.some.inj (hbyte 1 (by omega))
  have h2 : mem (s.data + 2) = f.type := Option.some.inj (hbyte 2 (by omega))
  refine ⟨?_, h2⟩
  rw [pkt_len_eq, h0, h1, BitVec.toNat_ofNat, BitVec.toNat_ofNat]
  omega

theorem size_eq (f : Frame) : f.size = (f.rest.length + 6) / 4 * 4 := rfl

/-- a frame is advanced over, with its padding -/
theorem at_lengths (h : f.At mem s.data) :
    pull mem s.data = f.size ∧ aggr_len mem s.data + (if isCfg f.type then 4 else 0) = f.bytes.length := by
  obtain ⟨hlen, htype⟩ := at_head h
  have hhead := (payload_head f).1
  have hlt := f.length_lt
  have hbytes := bytes_length f
  rw [head] at hhead
  rw [pull, aggr_len, htype, hlen, size_eq]
  cases hcfg : isCfg f.type <;>
    simp only [hcfg, Bool.false_eq_true, if_false, if_true, adjust_len, roundup, RX_ALIGNMENT, RX_HWHRD_LEN] at hhead ⊢
  · rw [Nat.mod_eq_of_lt (a := f.payload + 60) (by omega)]
    split <;> omega
  · split <;> omega

theorem skb_pull_fits {n : ℕ} (h : n ≤ s.len) : skb_pull n s = { s with data := s.data + n, len := s.len - n } := by
  rw [skb_pull, if_neg (by omega)]

/-- what is longer than the buffer, or empty, is not pulled -/
theorem skb_pull_stuck {n : ℕ} (h : s.len < n ∨ n = 0) : skb_pull n s = s := by
  rw [skb_pull]
  split
  · rfl
  · obtain rfl : n = 0 := by omega
    rfl

theorem round_frame (alloc up : ℕ → Bool) (h : f.At mem s.data) (hl : f.size ≤ s.len) :
    round alloc up mem s =
      if alloc s.allocs then .next ⟨s.data + f.size, s.len - f.size, s.evs ++ f.evs (up s.allocs), s.allocs + 1⟩
      else if isCfg f.type then .leave (s.evs, .EBADE)
      else .next ⟨s.data + f.size, s.len - f.size, s.evs, s.allocs + 1⟩ := by
  obtain ⟨hlen, htype⟩ := at_head h
  obtain ⟨hpull, haggr⟩ := at_lengths h
  have hsize := size_eq f
  have hmore : aicwf_another_ptk mem s = true := by
    have := (payload_head f).2
    rw [aicwf_another_ptk, hlen]
    exact decide_eq_true ⟨by omega, by omega⟩
  have hskb := skb_pull_fits hl
  have hread : read mem s.data f.bytes.length = f.bytes := h
  simp only [round, hmore, Bool.true_eq_false, if_false, hpull, hskb, htype]
  cases hcfg : isCfg f.type
  · rw [hcfg, if_neg (by decide), Nat.add_zero] at haggr
    simp only [if_true, Bool.false_eq_true, if_false, Frame.evs, hcfg, haggr, hread]
  · rw [hcfg, if_pos rfl] at haggr
    simp only [Bool.true_eq_false, if_false, if_true, Frame.evs, hcfg, haggr, hread]

/-! ## Whole buffers -/

/-- what was handed on before stays in front -/
theorem ends_deliver {fs : List Frame} {d l : ℕ} (hend : l = 0 ∨ pkt_len mem d = 0) (h : Row mem d l s.data s.len fs) :
    Ends (round alloc up mem) s (s.evs ++ (deliver alloc up s.allocs fs).1, (deliver alloc up s.allocs fs).2) := by
  induction fs generalizing s with
  | nil =>
    obtain ⟨rfl, rfl⟩ := h
    have hlast : aicwf_another_ptk mem s = false := decide_eq_false (by tauto)
    apply Ends.leave
    rw [round, if_pos hlast, deliver, List.append_nil]
  | cons f fs ih =>
    obtain ⟨hat, hle, hrow⟩ := h
    have hround := round_frame alloc up hat hle
    cases ha : alloc s.allocs with
    | true =>
      rw [ha, if_pos rfl] at hround
      rw [Ends.of_next hround, deliver, if_pos ha, ← List.append_assoc]
      exact ih hrow
    | false =>
      rw [ha, if_neg (by decide)] at hround
      rw [deliver, if_neg (by simp [ha])]
      cases hcfg : isCfg f.type with
      | true =>
        rw [hcfg, if_pos rfl] at hround
        rw [if_pos rfl, List.append_nil]
        exact Ends.leave hround
      | false =>
        rw [hcfg, if_neg (by decide)] at hround
        rw [if_neg (by decide), Ends.of_next hround]
        exact ih hrow

/-- **Every frame of a row is handed on**, in order, whatever is behind the row; without memory a data frame is lost alone, and
a message with all that follows -/
theorem rx_delivers (alloc up : ℕ → Bool) {mem : ℕ → Byte} {len d l : ℕ} {fs : List Frame} (hrow : Row mem d l 0 len fs)
    (hend : l = 0 ∨ pkt_len mem d = 0) : aicwf_process_rxframes alloc up mem len (deliver alloc up 0 fs) :=
  ends_deliver (s := ⟨0, len, [], 0⟩) hend hrow

/-! ### What a sender writes -/

def Frame.padded (f : Frame) : List Byte := f.bytes ++ List.replicate (f.size - f.bytes.length) 0

theorem padded_length (f : Frame) : f.padded.length = f.size := by
  have hsize := size_eq f
  have hlen := bytes_length f
  rw [Frame.padded, List.length_append, List.length_replicate]
  omega

theorem read_add (mem : ℕ → Byte) (data m n : ℕ) : read mem data (m + n) = read mem data m ++ read mem (data + m) n := by
  simp only [read, List.range_add, List.map_append, List.map_map]
  congr 2
  funext i
  simp [Nat.add_assoc]

theorem read_length (mem : ℕ → Byte) (data n : ℕ) : (read mem data n).length = n := by simp [read]

/-- memory that starts with these bytes, and then those -/
theorem read_append {data : ℕ} {l l' : List Byte} (h : read mem data (l ++ l').length = l ++ l') :
    read mem data l.length = l ∧ read mem (data + l.length) l'.length = l' := by
  rw [List.length_append, read_add] at h
  exact List.append_inj h (read_length _ _ _)

/-- the padded frames one after another are a row -/
theorem row_of_padded {fs : List Frame} {data : ℕ} (n : ℕ)
    (h : read mem data (fs.flatMap Frame.padded).length = fs.flatMap Frame.padded) :
    Row mem (data + (fs.flatMap Frame.padded).length) n data ((fs.flatMap Frame.padded).length + n) fs := by
  induction fs generalizing data with
  | nil => exact ⟨rfl, by simp⟩
  | cons f fs ih =>
    rw [List.flatMap_cons] at h
    obtain ⟨hf, hfs⟩ := read_append h
    have hrow := ih hfs
    have hlen := padded_length f
    rw [List.flatMap_cons, List.length_append]
    refine ⟨(read_append hf).1, by omega, ?_⟩
    have hplace : data + (f.padded.length + (fs.flatMap Frame.padded).length) =
        data + f.padded.length + (fs.flatMap Frame.padded).length := (Nat.add_assoc _ _ _).symm
    have hleft : f.padded.length + (fs.flatMap Frame.padded).length + n - f.size = (fs.flatMap Frame.padded).length + n := by
      omega
    rw [hplace, hleft, ← hlen]
    exact hrow

/-- a message of one byte -/
def short : Frame := ⟨SDIO_TYPE_CFG_CMD_RSP, [0, 7], by decide, by decide⟩

/-- memory in which it is twice -/
def twice (i : ℕ) : Byte := ([short, short].flatMap Frame.padded).getD i 0

theorem rx_delivers_twice : aicwf_process_rxframes (fun _ => true) (fun k => k ≠ 0) twice 32 ([.handle_msg [7]], .freed) := by
  have hread : read twice 0 ([short, short].flatMap Frame.padded).length = [short, short].flatMap Frame.padded := by decide
  have hrow : Row twice 16 16 0 32 [short, short] := row_of_padded 16 hread
  exact rx_delivers (fun _ => true) (fun k => k ≠ 0) hrow (Or.inr (by decide))

/-! ## When the loop ends -/

/-- from `data` on, with `len` bytes left, every length the loop comes to fits -/
inductive Clear (mem : ℕ → Byte) : ℕ → ℕ → Prop where
  | stop (data len) (h : len = 0 ∨ pkt_len mem data = 0) : Clear mem data len
  | next (data len) (hpos : 0 < pull mem data) (hle : pull mem data ≤ len)
      (h : Clear mem (data + pull mem data) (len - pull mem data)) : Clear mem data len

/-- a round with memory, or on a data frame, does not leave before the end of the row -/
theorem round_next (alloc up : ℕ → Bool) (hmore : aicwf_another_ptk mem s = true) (ha : alloc s.allocs = true ∨ isCfg (mem (s.data + 2)) = false) :
    ∃ t, round alloc up mem s = .next t ∧ t.data = (skb_pull (pull mem s.data) s).data ∧
      t.len = (skb_pull (pull mem s.data) s).len := by
  simp only [round, hmore, Bool.true_eq_false, if_false]
  split
  · split <;> exact ⟨_, rfl, rfl, rfl⟩
  · rename_i hcfg
    rw [if_pos (ha.resolve_right hcfg)]
    exact ⟨_, rfl, rfl, rfl⟩

theorem more_iff : aicwf_another_ptk mem s = true ↔ ¬ (s.len = 0 ∨ pkt_len mem s.data = 0) := by
  rw [aicwf_another_ptk, decide_eq_true_iff, not_or]

theorem clear_of_ends (h : Ends (round (fun _ => true) up mem) s r) : Clear mem s.data s.len := by
  induction h with
  | @leave s r hs =>
    by_cases hmore : aicwf_another_ptk mem s = true
    · obtain ⟨t, ht, -⟩ := round_next (fun _ => true) up hmore (Or.inl rfl)
      simp [hs] at ht
    · exact .stop _ _ (by rwa [more_iff, not_not] at hmore)
  | @next s t r hs _ ih =>
    by_cases hmore : aicwf_another_ptk mem s = true
    · obtain ⟨t', ht', hdata, hlen⟩ := round_next (fun _ => true) up hmore (Or.inl rfl)
      obtain rfl := Round.next.inj (hs.symm.trans ht')
      by_cases hstuck : s.len < pull mem s.data ∨ pull mem s.data = 0
      · rwa [hdata, hlen, skb_pull_stuck hstuck] at ih
      · rw [hdata, hlen, skb_pull_fits (by omega)] at ih
        exact .next _ _ (by omega) (by omega) ih
    · exact .stop _ _ (by rwa [more_iff, not_not] at hmore)

theorem ends_of_clear {data len : ℕ} (h : Clear mem data len) (hd : s.data = data) (hl : s.len = len) :
    ∃ r, Ends (round (fun _ => true) up mem) s r := by
  induction h generalizing s with
  | stop data len h =>
    have hlast : aicwf_another_ptk mem s = false := by
      rw [← Bool.not_eq_true, more_iff, not_not, hd, hl]
      exact h
    exact ⟨_, Ends.leave (by rw [round, if_pos hlast])⟩
  | next data len hpos hle h ih =>
    subst hd hl
    by_cases hmore : aicwf_another_ptk mem s = true
    · obtain ⟨t, ht, hdata, hlen⟩ := round_next (fun _ => true) up hmore (Or.inl rfl)
      rw [skb_pull_fits hle] at hdata hlen
      obtain ⟨r, hr⟩ := ih hdata hlen
      exact ⟨r, Ends.next ht hr⟩
    · exact ⟨_, Ends.leave (by rw [round, if_pos (by simpa using hmore)])⟩

/-- **The loop ends exactly on buffers in which every length it comes to fits**, as long as there is memory -/
theorem rx_ends_iff (up : ℕ → Bool) (mem : ℕ → Byte) (len : ℕ) :
    (∃ r, aicwf_process_rxframes (fun _ => true) up mem len r) ↔ Clear mem 0 len := by
  constructor
  · intro hex
    obtain ⟨r, h⟩ := hex
    exact clear_of_ends h
  · intro h
    exact ends_of_clear h rfl rfl

/-- in 16 bits these lengths and the hardware header are 0, or are rounded up to 0 -/
theorem pull_zero {data : ℕ} (hcfg : isCfg (mem (data + 2)) = false) (hlo : 65473 ≤ pkt_len mem data) (hhi : pkt_len mem data ≤ 65476) :
    pull mem data = 0 := by
  simp only [pull, aggr_len, hcfg, Bool.false_eq_true, if_false, adjust_len, roundup, RX_ALIGNMENT, RX_HWHRD_LEN]
  split <;> omega

/-- a row with memory for its frames is gone through -/
theorem ends_row (alloc up : ℕ → Bool) {fs : List Frame} {d l : ℕ} (h : Row mem d l s.data s.len fs)
    (ha : ∀ k, s.allocs ≤ k → k < s.allocs + fs.length → alloc k = true) :
    ∃ t, t.data = d ∧ t.len = l ∧ ∀ r, Ends (round alloc up mem) s r → Ends (round alloc up mem) t r := by
  induction fs generalizing s with
  | nil => exact ⟨s, h.1, h.2, fun _ h => h⟩
  | cons f fs ih =>
    obtain ⟨hat, hle, hrow⟩ := h
    have hround := round_frame alloc up hat hle
    rw [ha s.allocs le_rfl (by simp), if_pos rfl] at hround
    obtain ⟨t, hd, hl, ht⟩ := ih (s := ⟨_, _, s.evs ++ f.evs (up s.allocs), s.allocs + 1⟩) hrow fun k hk hlt =>
      ha k (Nat.le_of_succ_le hk) (by rw [List.length_cons]; simp only at hlt; omega)
    exact ⟨t, hd, hl, fun r hr => ht r ((Ends.of_next hround).1 hr)⟩

/-- **A data frame that is longer than the rest of its buffer hangs the loop**, and so does one whose length and header come to
0 in 16 bits: from there on it does not end, with memory or without -/
theorem rx_hangs (alloc up : ℕ → Bool) {mem : ℕ → Byte} {len d l : ℕ} {fs : List Frame} (hrow : Row mem d l 0 len fs)
    (ha : ∀ k < fs.length, alloc k = true) (hl : l ≠ 0) (hlen : pkt_len mem d ≠ 0) (hcfg : isCfg (mem (d + 2)) = false)
    (hlong : l < pull mem d ∨ 65473 ≤ pkt_len mem d ∧ pkt_len mem d ≤ 65476) :
    ¬ ∃ r, aicwf_process_rxframes alloc up mem len r := by
  intro hex
  obtain ⟨r, h⟩ := hex
  obtain ⟨t, htd, htl, ht⟩ := ends_row alloc up (s := ⟨0, len, [], 0⟩) hrow fun k _ hk => ha k (by simpa using hk)
  have hstuck : l < pull mem d ∨ pull mem d = 0 := hlong.imp_right fun hr => pull_zero hcfg hr.1 hr.2
  refine not_ends_of_invariant (fun s : State => s.data = d ∧ s.len = l) ?_ ⟨htd, htl⟩ (ht r h)
  intro s hs
  obtain ⟨rfl, rfl⟩ := hs
  obtain ⟨t', ht', hdata, hlen'⟩ := round_next alloc up (more_iff.2 (by tauto)) (Or.inr hcfg)
  rw [skb_pull_stuck hstuck] at hdata hlen'
  exact ⟨t', ht', hdata, hlen'⟩

/-- memory with a data frame of 1000 bytes and its header, of which 512 bytes were read -/
def long (i : ℕ) : Byte := [0xe8, 0x03, 0x01].getD i 0

theorem rx_hangs_long : ¬ ∃ r, aicwf_process_rxframes (fun k => k < 3) (fun _ => true) long 512 r := by
  have hrow : Row long 0 512 0 512 [] := ⟨rfl, rfl⟩
  exact rx_hangs _ _ hrow (by decide) (by decide) (by decide) (by decide) (Or.inl (by decide))

end AvaotaOS.Aic8800.RxFrames
