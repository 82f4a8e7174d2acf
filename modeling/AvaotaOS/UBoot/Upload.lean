/-
What `oem read` and `upload` send to the host.

The transfer is driven by its completions: each puts the next `EP_BUFFER_SIZE` bytes into the request, and the one that
finds nothing left sends OKAY. The counters are 32 bit: `oem_read` keeps the lower half of the size, and the sum in
`fastboot_data_upload` wraps where the last chunk ends at 2^32 or beyond it, so that it is not cut to the region and the
transfer starts again.

- `chain_served`: a region whose last chunk ends below 2^32 is sent once, in order, in chunks of at most
  `EP_BUFFER_SIZE`, and then OKAY.
- `chain_over`: any other region gets more bytes than it has.
- `read_served_iff`: what a request for a memory dump needs.
- `last_page_repeats`: a dump of 2^32 - 1 bytes.
-/
import Mathlib.Tactic
import AvaotaOS.UBoot.OemWrite

namespace AvaotaOS.Fastboot

open Memory

section Upload

variable (hextoul : List Char → BitVec 64 × List Char) (EP_BUFFER_SIZE : BitVec 32)

/-! ## The property -/

/-- what the next `n` completions send -/
def chain : ℕ → State → List Sent
  | 0, _ => []
  | n + 1, s => (tx_handler_up_image EP_BUFFER_SIZE s).1 :: chain n (tx_handler_up_image EP_BUFFER_SIZE s).2

/-- the completions from `s` on send these bytes, in chunks that fit the request, and then OKAY -/
def Sends (s : State) (l : List Byte) : Prop :=
  ∃ chunks : List (List Byte),
    chain EP_BUFFER_SIZE (chunks.length + 1) s = chunks.map .bytes ++ [.response .okay] ∧ chunks.flatten = l ∧
      ∀ c ∈ chunks, c.length ≤ EP_BUFFER_SIZE.toNat

/-- `upload` announces the size and sends the region -/
structure Served (s : State) (address size : BitVec 64) : Prop where
  announced : ∃ n, (upload s).1 = .data n ∧ n.toNat = size.toNat
  sent : Sends EP_BUFFER_SIZE (upload s).2 (read s.mem address size.toNat)

/-- address and size of a parameter that `oem_read` accepts -/
def operands (cmd_parameter : List Char) : Option (BitVec 64 × BitVec 64) :=
  match hextoul cmd_parameter with
  | (address, ':' :: tmp) =>
    match hextoul tmp with
    | (size, []) => some (address, size)
    | _ => none
  | _ => none

/-- **A memory dump**: what is accepted is served by the `upload` that follows, and a refused request changes nothing -/
structure ReadServed (s : State) (p : List Char) : Prop where
  accepted : ∀ address size s', operands hextoul p = some (address, size) → oem_read hextoul p s = (.okay, s') →
    address ≠ 0 → size ≠ 0 → Served EP_BUFFER_SIZE s' address size
  refused : ∀ reason s', oem_read hextoul p s = (.fail reason, s') → s' = s

theorem operands_eq_some {p : List Char} {address size : BitVec 64} :
    operands hextoul p = some (address, size) ↔
      ∃ tmp, hextoul p = (address, ':' :: tmp) ∧ hextoul tmp = (size, []) := by
  constructor
  · intro h
    unfold operands at h
    split at h
    · rename_i a tmp hp
      split at h
      · rename_i n hs
        obtain ⟨rfl, rfl⟩ := Prod.mk.inj (Option.some.inj h)
        exact ⟨tmp, hp, hs⟩
      · simp at h
    · simp at h
  · rintro ⟨tmp, hp, hs⟩
    simp only [operands, hp, hs]

theorem oem_read_okay {p : List Char} {s : State} {address size : BitVec 64}
    (h : operands hextoul p = some (address, size)) :
    oem_read hextoul p s =
      (.okay, { s with fastboot_buf_upload_addr := address, fastboot_buf_upload_size := size.setWidth 32 }) := by
  obtain ⟨tmp, hp, hs⟩ := (operands_eq_some hextoul).1 h
  simp only [oem_read, hp, hs]

theorem oem_read_refused {p : List Char} {s s' : State} {reason : String}
    (h : oem_read hextoul p s = (.fail reason, s')) : s' = s := by
  revert h
  unfold oem_read
  split
  · split
    · simp
    · rintro ⟨⟩
      rfl
  · rintro ⟨⟩
    rfl

/-! ## One completion -/

variable {EP_BUFFER_SIZE} {s : State}

/-- the state after `t` bytes -/
def State.after (s : State) (t : ℕ) : State := { s with fastboot_bytes_transfered := BitVec.ofNat 32 t }

theorem toInt_pos {n : BitVec 32} (h : 0 < n.toNat) (h' : n.toNat < 2 ^ 31) : ¬ n.toInt ≤ 0 := by
  rw [BitVec.toInt_eq_toNat_of_lt (by omega)]
  omega

/-- nothing is left: OKAY -/
theorem completion_done {t : ℕ} (ht : t < 2 ^ 32) (h : s.fastboot_buf_upload_size.toNat ≤ t) :
    (tx_handler_up_image EP_BUFFER_SIZE (s.after t)).1 = .response .okay := by
  have hle : (s.after t).fastboot_buf_upload_size ≤ (s.after t).fastboot_bytes_transfered := by
    rw [BitVec.le_def, State.after, BitVec.toNat_ofNat, Nat.mod_eq_of_lt ht]
    exact h
  have hd : fastboot_data_upload EP_BUFFER_SIZE (s.after t) = (0, [], s.after t) := by
    by_cases hE : EP_BUFFER_SIZE = 0
    · rw [fastboot_data_upload, if_pos hE]
    · rw [fastboot_data_upload, if_neg hE, if_pos hle]
  rw [tx_handler_up_image, hd]
  rfl

/-- **Something is left**: a chunk is sent, which is cut to the region unless the sum wraps -/
theorem completion_next (hE : 0 < EP_BUFFER_SIZE.toNat) (hE' : EP_BUFFER_SIZE.toNat < 2 ^ 31) {t : ℕ} (ht : t < 2 ^ 32)
    (h : t < s.fastboot_buf_upload_size.toNat) {k : ℕ}
    (hk : k = if t + EP_BUFFER_SIZE.toNat < 2 ^ 32 then min EP_BUFFER_SIZE.toNat (s.fastboot_buf_upload_size.toNat - t)
      else EP_BUFFER_SIZE.toNat) :
    tx_handler_up_image EP_BUFFER_SIZE (s.after t) =
      (.bytes (read s.mem (s.fastboot_buf_upload_addr + BitVec.ofNat 64 t) k), s.after (t + k)) := by
  have hsize := s.fastboot_buf_upload_size.isLt
  have htn : (BitVec.ofNat 32 t).toNat = t := by rw [BitVec.toNat_ofNat, Nat.mod_eq_of_lt ht]
  have hadd : (BitVec.ofNat 32 t + EP_BUFFER_SIZE).toNat = (t + EP_BUFFER_SIZE.toNat) % 2 ^ 32 := by
    rw [BitVec.toNat_add, htn]
  have hne : EP_BUFFER_SIZE ≠ 0 := by
    rintro rfl
    simp at hE
  have hlt : ¬ (s.after t).fastboot_buf_upload_size ≤ (s.after t).fastboot_bytes_transfered := by
    show ¬ s.fastboot_buf_upload_size ≤ BitVec.ofNat 32 t
    rw [BitVec.le_def, htn]
    omega
  -- the length of the chunk
  have hlen : (if s.fastboot_buf_upload_size ≤ BitVec.ofNat 32 t + EP_BUFFER_SIZE then
      s.fastboot_buf_upload_size - BitVec.ofNat 32 t else EP_BUFFER_SIZE).toNat = k := by
    have hcut : s.fastboot_buf_upload_size ≤ BitVec.ofNat 32 t + EP_BUFFER_SIZE ↔
        s.fastboot_buf_upload_size.toNat ≤ (t + EP_BUFFER_SIZE.toNat) % 2 ^ 32 := by
      rw [BitVec.le_def, hadd]
    rw [hk]
    by_cases hw : t + EP_BUFFER_SIZE.toNat < 2 ^ 32
    · rw [Nat.mod_eq_of_lt hw] at hcut
      rw [if_pos hw]
      by_cases hc : s.fastboot_buf_upload_size.toNat ≤ t + EP_BUFFER_SIZE.toNat
      · rw [if_pos (hcut.2 hc), BitVec.toNat_sub_of_le (by rw [BitVec.le_def, htn]; omega), htn]
        omega
      · rw [if_neg fun h => hc (hcut.1 h)]
        omega
    · rw [if_neg hw, if_neg fun h => by have := hcut.1 h; omega]
  have hk0 : 0 < k := by
    rw [hk]
    split_ifs <;> omega
  have hkE : k ≤ EP_BUFFER_SIZE.toNat := by
    rw [hk]
    split_ifs <;> omega
  have hkn : (BitVec.ofNat 32 k).toNat = k := by rw [BitVec.toNat_ofNat, Nat.mod_eq_of_lt (by omega)]
  have haddr : (BitVec.ofNat 32 t).setWidth 64 = BitVec.ofNat 64 t := by
    apply BitVec.eq_of_toNat_eq
    rw [BitVec.toNat_setWidth, htn, BitVec.toNat_ofNat]
  have hd : fastboot_data_upload EP_BUFFER_SIZE (s.after t) =
      (BitVec.ofNat 32 k, read s.mem (s.fastboot_buf_upload_addr + BitVec.ofNat 64 t) k, s.after (t + k)) := by
    have hb : (if (s.after t).fastboot_buf_upload_size ≤ (s.after t).fastboot_bytes_transfered + EP_BUFFER_SIZE then
        (s.after t).fastboot_buf_upload_size - (s.after t).fastboot_bytes_transfered else EP_BUFFER_SIZE) =
          BitVec.ofNat 32 k := BitVec.eq_of_toNat_eq (hlen.trans hkn.symm)
    rw [fastboot_data_upload, if_neg hne, if_neg hlt]
    simp only [hb, hkn]
    simp only [State.after, haddr, BitVec.ofNat_add]
  have hpos : ¬ (BitVec.ofNat 32 k).toInt ≤ 0 := by
    apply toInt_pos
    · rw [hkn]; exact hk0
    · rw [hkn]; omega
  rw [tx_handler_up_image, hd]
  simp only [hpos, if_false]

/-! ## The chain of completions -/

/-- **A region whose last chunk ends below 2^32 is sent once and in order.** The induction is on the bytes left; `t` is
the start of a chunk or the end of the region. -/
theorem chain_served (hE : 0 < EP_BUFFER_SIZE.toNat) (hE' : EP_BUFFER_SIZE.toNat < 2 ^ 31)
    (hn : s.fastboot_buf_upload_size.toNat ≤ (2 ^ 32 - 1) / EP_BUFFER_SIZE.toNat * EP_BUFFER_SIZE.toNat) {t : ℕ}
    (ht : t ≤ s.fastboot_buf_upload_size.toNat)
    (hd : EP_BUFFER_SIZE.toNat ∣ t ∨ t = s.fastboot_buf_upload_size.toNat) :
    Sends EP_BUFFER_SIZE (s.after t)
      (read s.mem (s.fastboot_buf_upload_addr + BitVec.ofNat 64 t) (s.fastboot_buf_upload_size.toNat - t)) := by
  have hsize := s.fastboot_buf_upload_size.isLt
  obtain ⟨m, hm⟩ : ∃ m, s.fastboot_buf_upload_size.toNat - t = m := ⟨_, rfl⟩
  induction m using Nat.strong_induction_on generalizing t with
  | h m ih =>
    rcases Nat.eq_or_lt_of_le ht with he | hlt
    · refine ⟨[], ?_, ?_, by simp⟩
      · rw [List.length_nil, chain, completion_done (by omega) (by omega)]
        rfl
      · rw [he, Nat.sub_self]
        rfl
    · -- a chunk starts here, so it ends below 2^32
      have hw : t + EP_BUFFER_SIZE.toNat < 2 ^ 32 := by
        obtain ⟨j, rfl⟩ := hd.resolve_right hlt.ne
        have hj : j < (2 ^ 32 - 1) / EP_BUFFER_SIZE.toNat := by
          apply lt_of_mul_lt_mul_left _ (Nat.zero_le EP_BUFFER_SIZE.toNat)
          calc EP_BUFFER_SIZE.toNat * j < s.fastboot_buf_upload_size.toNat := hlt
            _ ≤ EP_BUFFER_SIZE.toNat * ((2 ^ 32 - 1) / EP_BUFFER_SIZE.toNat) := by rw [mul_comm]; exact hn
        have hle : EP_BUFFER_SIZE.toNat * (j + 1) ≤ 2 ^ 32 - 1 :=
          (Nat.mul_le_mul_left _ hj).trans (Nat.mul_div_le _ _)
        rw [Nat.mul_succ] at hle
        omega
      obtain ⟨k, hk⟩ : ∃ k, k = min EP_BUFFER_SIZE.toNat (s.fastboot_buf_upload_size.toNat - t) := ⟨_, rfl⟩
      have hnext := completion_next hE hE' (by omega) hlt (k := k) (by rw [if_pos hw]; exact hk)
      have hd' : EP_BUFFER_SIZE.toNat ∣ t + k ∨ t + k = s.fastboot_buf_upload_size.toNat := by
        rcases Nat.le_total EP_BUFFER_SIZE.toNat (s.fastboot_buf_upload_size.toNat - t) with hc | hc
        · left
          rw [hk, min_eq_left hc]
          exact Nat.dvd_add (hd.resolve_right hlt.ne) dvd_rfl
        · right
          omega
      obtain ⟨chunks, hc, hf, hl⟩ := ih _ (by omega) (by omega) hd' rfl
      refine ⟨read s.mem (s.fastboot_buf_upload_addr + BitVec.ofNat 64 t) k :: chunks, ?_, ?_, ?_⟩
      · rw [List.length_cons, chain, hnext, hc]
        rfl
      · have hsplit : s.fastboot_buf_upload_size.toNat - t = k + (s.fastboot_buf_upload_size.toNat - (t + k)) := by omega
        rw [List.flatten_cons, hf, hsplit, read_add, BitVec.ofNat_add, BitVec.add_assoc]
      · intro c hc
        rcases List.mem_cons.1 hc with rfl | hc
        · rw [read_length]
          omega
        · exact hl c hc

/-- **Where the last chunk reaches 2^32 the transfer does not end in the region**: every chunk up to that one is full -/
theorem chain_over (hE : 0 < EP_BUFFER_SIZE.toNat) (hE' : EP_BUFFER_SIZE.toNat < 2 ^ 31)
    (hn : (2 ^ 32 - 1) / EP_BUFFER_SIZE.toNat * EP_BUFFER_SIZE.toNat < s.fastboot_buf_upload_size.toNat)
    {chunks : List (List Byte)} {j : ℕ} (hj : j ≤ (2 ^ 32 - 1) / EP_BUFFER_SIZE.toNat)
    (hc : chain EP_BUFFER_SIZE (chunks.length + 1) (s.after (j * EP_BUFFER_SIZE.toNat)) =
      chunks.map .bytes ++ [.response .okay]) :
    ((2 ^ 32 - 1) / EP_BUFFER_SIZE.toNat + 1 - j) * EP_BUFFER_SIZE.toNat ≤ chunks.flatten.length := by
  have hsize := s.fastboot_buf_upload_size.isLt
  have hle : j * EP_BUFFER_SIZE.toNat ≤ (2 ^ 32 - 1) / EP_BUFFER_SIZE.toNat * EP_BUFFER_SIZE.toNat :=
    Nat.mul_le_mul_right _ hj
  have hlt : j * EP_BUFFER_SIZE.toNat < s.fastboot_buf_upload_size.toNat := by omega
  have hfull : tx_handler_up_image EP_BUFFER_SIZE (s.after (j * EP_BUFFER_SIZE.toNat)) =
      (.bytes (read s.mem (s.fastboot_buf_upload_addr + BitVec.ofNat 64 (j * EP_BUFFER_SIZE.toNat))
        EP_BUFFER_SIZE.toNat), s.after ((j + 1) * EP_BUFFER_SIZE.toNat)) := by
    rw [Nat.succ_mul]
    apply completion_next hE hE' (by omega) hlt
    split_ifs with hw
    · -- the chunk is not the last one
      have hj' : j + 1 ≤ (2 ^ 32 - 1) / EP_BUFFER_SIZE.toNat := by
        rw [Nat.le_div_iff_mul_le hE, Nat.succ_mul]
        omega
      have hle' := Nat.mul_le_mul_right EP_BUFFER_SIZE.toNat hj'
      rw [Nat.succ_mul] at hle'
      omega
    · rfl
  cases chunks with
  | nil =>
    rw [List.length_nil, chain, hfull] at hc
    simp at hc
  | cons c chunks =>
    rw [List.length_cons, chain, hfull] at hc
    simp only [List.map_cons, List.cons_append, List.cons.injEq, Sent.bytes.injEq] at hc
    obtain ⟨rfl, hc⟩ := hc
    rw [List.flatten_cons, List.length_append, read_length]
    rcases Nat.lt_or_ge j ((2 ^ 32 - 1) / EP_BUFFER_SIZE.toNat) with hj' | hj'
    · have ih := chain_over hE hE' hn (j := j + 1) hj' hc
      have hs : (2 ^ 32 - 1) / EP_BUFFER_SIZE.toNat + 1 - j = ((2 ^ 32 - 1) / EP_BUFFER_SIZE.toNat + 1 - (j + 1)) + 1 := by
        omega
      rw [hs, Nat.succ_mul]
      omega
    · have hs : (2 ^ 32 - 1) / EP_BUFFER_SIZE.toNat + 1 - j = 1 := by omega
      rw [hs, one_mul]
      omega

/-! ## Requests -/

theorem upload_data (ha : s.fastboot_buf_upload_addr ≠ 0) (hn : s.fastboot_buf_upload_size ≠ 0) :
    upload s = (.data s.fastboot_buf_upload_size, ({ s with up_image := true }).after 0) := by
  rw [upload, if_neg (not_or.2 ⟨ha, hn⟩)]
  rfl

theorem upload_empty (hn : s.fastboot_buf_upload_size = 0) (n : BitVec 32) : (upload s).1 ≠ .data n := by
  rw [upload, if_pos (Or.inr hn)]
  simp

/-- **A request is served exactly where its last chunk ends below 2^32** -/
theorem served_iff (hE : 0 < EP_BUFFER_SIZE.toNat) (hE' : EP_BUFFER_SIZE.toNat < 2 ^ 31) {address size : BitVec 64}
    (ha : address ≠ 0) (hn : size ≠ 0) (haddr : s.fastboot_buf_upload_addr = address)
    (hsize : s.fastboot_buf_upload_size = size.setWidth 32) :
    Served EP_BUFFER_SIZE s address size ↔
      size.toNat ≤ (2 ^ 32 - 1) / EP_BUFFER_SIZE.toNat * EP_BUFFER_SIZE.toNat := by
  have hmul : (2 ^ 32 - 1) / EP_BUFFER_SIZE.toNat * EP_BUFFER_SIZE.toNat ≤ 2 ^ 32 - 1 := Nat.div_mul_le_self _ _
  have hnat : s.fastboot_buf_upload_size.toNat = size.toNat % 2 ^ 32 := by rw [hsize, BitVec.toNat_setWidth]
  have hpos : 0 < size.toNat := Nat.pos_of_ne_zero fun h => hn (BitVec.eq_of_toNat_eq h)
  constructor
  · intro h
    obtain ⟨n, hann, hnn⟩ := h.announced
    have hn0 : s.fastboot_buf_upload_size ≠ 0 := fun h0 => upload_empty h0 n hann
    obtain ⟨chunks, hc, hf, -⟩ := h.sent
    rw [upload_data (haddr ▸ ha) hn0] at hann hc
    obtain rfl := Response.data.inj hann
    by_contra hover
    -- the chunks up to 2^32 are more than the region
    have hmore : (2 ^ 32 - 1) / EP_BUFFER_SIZE.toNat * EP_BUFFER_SIZE.toNat < s.fastboot_buf_upload_size.toNat := by omega
    rw [← Nat.zero_mul EP_BUFFER_SIZE.toNat] at hc
    have hlong := chain_over hE hE' (s := { s with up_image := true }) hmore (Nat.zero_le _) hc
    rw [hf, read_length, Nat.sub_zero, Nat.succ_mul] at hlong
    have hdiv := Nat.lt_div_mul_add (a := 2 ^ 32 - 1) hE
    have hlt := s.fastboot_buf_upload_size.isLt
    omega
  · intro h
    have hmod : size.toNat % 2 ^ 32 = size.toNat := Nat.mod_eq_of_lt (by omega)
    have hn0 : s.fastboot_buf_upload_size ≠ 0 := by
      intro h0
      rw [h0, hmod] at hnat
      exact absurd hnat.symm hpos.ne'
    refine ⟨⟨s.fastboot_buf_upload_size, ?_, hnat.trans hmod⟩, ?_⟩
    · rw [upload_data (haddr ▸ ha) hn0]
    · rw [upload_data (haddr ▸ ha) hn0]
      have hs := chain_served hE hE' (s := { s with up_image := true }) (t := 0) (by rw [hnat, hmod]; exact h)
        (Nat.zero_le _) (Or.inl (dvd_zero _))
      have hbase : s.fastboot_buf_upload_addr + BitVec.ofNat 64 0 = address := by rw [haddr, BitVec.add_zero]
      rwa [Nat.sub_zero, hbase, hnat, hmod] at hs

end Upload

/-- **A memory dump is served, or refused, as it should be exactly where the request is refused, or names no region, or
the last chunk of the region ends below 2^32** -/
theorem read_served_iff (hextoul : List Char → BitVec 64 × List Char) {EP_BUFFER_SIZE : BitVec 32}
    (hE : 0 < EP_BUFFER_SIZE.toNat) (hE' : EP_BUFFER_SIZE.toNat < 2 ^ 31) (s : State) (p : List Char) :
    ReadServed hextoul EP_BUFFER_SIZE s p ↔
      ∀ address size, operands hextoul p = some (address, size) → address ≠ 0 → size ≠ 0 →
        size.toNat ≤ (2 ^ 32 - 1) / EP_BUFFER_SIZE.toNat * EP_BUFFER_SIZE.toNat := by
  constructor
  · intro h address size hp ha hn
    exact (served_iff hE hE' ha hn rfl rfl).1 (h.accepted address size _ hp (oem_read_okay hextoul hp) ha hn)
  · intro h
    refine ⟨?_, fun reason s' => oem_read_refused hextoul⟩
    intro address size s' hp hs ha hn
    rw [oem_read_okay hextoul hp] at hs
    obtain rfl := (Prod.mk.inj hs).2
    exact (served_iff hE hE' ha hn rfl rfl).2 (h address size hp ha hn)

/-! ## The last page -/

/-- a dump of 4 GiB less 4 KiB, with the 4096 bytes of upstream's `EP_BUFFER_SIZE` -/
theorem dump_served : ReadServed (hexDigits · 0) 4096 emptySession.st "40000000:fffff000".toList := by
  refine (read_served_iff (hexDigits · 0) (by decide) (by decide) _ _).2 ?_
  intro address size hp ha hn
  have hop : operands (hexDigits · 0) "40000000:fffff000".toList = some (0x40000000, 0xfffff000) := by decide
  rw [hop] at hp
  obtain ⟨rfl, rfl⟩ := Prod.mk.inj (Option.some.inj hp)
  decide

/-- **A dump of 2^32 - 1 bytes does not end**: the request is accepted, but the sum of the last chunk wraps to 0 -/
theorem last_page_repeats : ¬ ReadServed (hexDigits · 0) 4096 emptySession.st "40000000:ffffffff".toList := by
  intro h
  have hop : operands (hexDigits · 0) "40000000:ffffffff".toList = some (0x40000000, 0xffffffff) := by decide
  have hs := h.accepted _ _ _ hop (oem_read_okay _ hop) (by decide) (by decide)
  have hle := (served_iff (by decide) (by decide) (by decide) (by decide) rfl rfl).1 hs
  exact absurd hle (by decide)

end AvaotaOS.Fastboot
