/-
How the AIC8800 Wi-Fi driver takes an A-MSDU apart (`rwnx_rxdata_process_amsdu` in `aic8800_fdrv/rwnx_rx.c`).

An A-MSDU is a row of subframes: two addresses, a length, a payload that starts with six bytes of LLC/SNAP header, and
padding to a multiple of four, which the last subframe may lack. The loop makes an Ethernet frame of each.

`alloc` says which of the allocations find memory, `vif` that the interface is there. `skb_pull` leaves a packet alone that is
shorter than what is to be pulled, and `memcpy` of a negative length does not come back.

- `amsdu_round_trip`: what a sender has put together comes out again, with or without padding at the end.
- `amsdu_hangs`: where the last subframe is followed by fewer bytes than its padding has, the loop goes on as long as there
  is memory, whatever came before.
-/
import AvaotaOS.Core.Rounds
import AvaotaOS.Aic8800.Reorder

namespace AvaotaOS.Aic8800.Amsdu

open Rounds

/-! ## The code -/

/-- the packet that is left, the frames made so far, and the number of allocations -/
structure State where
  data : List Byte
  list : List (List Byte)
  allocs : ℕ

def roundup (x y : ℕ) : ℕ := (x + y - 1) / y * y

def sublen (data : List Byte) : ℕ := (data.getD 12 0).toNat * 256 + (data.getD 13 0).toNat

/-- what `skb_pull` leaves -/
def skb_pull (len : ℕ) (data : List Byte) : List Byte := if len > data.length then data else data.drop len

/-- the frame that is made of a subframe -/
def subSkb (data : List Byte) : List Byte :=
  data.take 6 ++ (data.drop 6).take 6 ++ (data.drop 20).take (sublen data - 6)

/-- `len_alligned`, which has 16 bits; `none`: the subframe is longer than the packet -/
def len_alligned (data : List Byte) : Option ℕ :=
  if data.length > sublen data + 14 then some (roundup (sublen data + 14) 4 % 65536)
  else if data.length = sublen data + 14 then some ((sublen data + 14) % 65536)
  else none

/-- the loop of `rwnx_rxdata_process_amsdu`; it leaves with the frames, or with `none` where it copies `sublen - 6` bytes and
that is negative -/
def round (alloc : ℕ → Bool) (vif : Bool) (s : State) : Round State (Option (List (List Byte))) :=
  if s.data.length ≤ 16 then .leave (some s.list)
  else
    match len_alligned s.data with
    | none => .leave (some s.list)
    | some len =>
      if !alloc s.allocs then .leave (some s.list)
      else if sublen s.data < 6 then .leave none
      else if !vif then .leave (some s.list)
      else .next ⟨skb_pull len s.data, s.list ++ [subSkb s.data], s.allocs + 1⟩

/-- the loop on the packet `data` -/
def rwnx_rxdata_process_amsdu (alloc : ℕ → Bool) (vif : Bool) (data : List Byte) (r : Option (List (List Byte))) : Prop :=
  Ends (round alloc vif) ⟨data, [], 0⟩ r

/-! ## The format -/

/-- what a subframe carries; `body` starts with the type field of the Ethernet frame -/
structure Msdu where
  da : List Byte
  sa : List Byte
  snap : List Byte
  body : List Byte
  da_length : da.length = 6
  sa_length : sa.length = 6
  snap_length : snap.length = 6
  body_length : body.length < 65500

/-- a 16-bit number, the high byte first -/
def be16 (n : ℕ) : List Byte := [BitVec.ofNat 8 (n / 256), BitVec.ofNat 8 n]

def Msdu.subframe (m : Msdu) : List Byte := m.da ++ m.sa ++ be16 (m.body.length + 6) ++ m.snap ++ m.body

/-- the length of the padding -/
def Msdu.pad (m : Msdu) : ℕ := (4 - m.subframe.length % 4) % 4

def Msdu.padded (m : Msdu) : List Byte := m.subframe ++ List.replicate m.pad 0

/-- the Ethernet frame -/
def Msdu.eth (m : Msdu) : List Byte := m.da ++ m.sa ++ m.body

theorem subframe_length (m : Msdu) : m.subframe.length = m.body.length + 20 := by
  simp only [Msdu.subframe, be16, List.length_append, List.length_cons, List.length_nil, m.da_length, m.sa_length, m.snap_length]
  omega

theorem padded_length (m : Msdu) : m.padded.length = roundup (m.body.length + 20) 4 := by
  simp only [Msdu.padded, Msdu.pad, List.length_append, List.length_replicate, subframe_length, roundup]
  omega

/-! ## One round -/

theorem subframe_split (m : Msdu) (rest : List Byte) :
    m.subframe ++ rest = m.da ++ (m.sa ++ (be16 (m.body.length + 6) ++ (m.snap ++ (m.body ++ rest)))) := by
  simp [Msdu.subframe]

theorem sublen_subframe (m : Msdu) (rest : List Byte) : sublen (m.subframe ++ rest) = m.body.length + 6 := by
  have hda := m.da_length
  have hsa := m.sa_length
  have hbody := m.body_length
  have hget : ∀ i, (m.subframe ++ rest).getD (12 + i) 0 = (be16 (m.body.length + 6) ++ (m.snap ++ (m.body ++ rest))).getD i 0 := by
    intro i
    rw [subframe_split, List.getD_append_right _ _ _ _ (by omega), List.getD_append_right _ _ _ _ (by omega)]
    congr 1
    omega
  have h12 := hget 0
  have h13 := hget 1
  simp only [be16, List.cons_append, List.getD_cons_zero, List.getD_cons_succ] at h12 h13
  unfold sublen
  rw [h12, h13, BitVec.toNat_ofNat, BitVec.toNat_ofNat]
  omega

theorem subSkb_subframe (m : Msdu) (rest : List Byte) : subSkb (m.subframe ++ rest) = m.eth := by
  have hda := m.da_length
  have hsa := m.sa_length
  have hsnap := m.snap_length
  unfold subSkb
  rw [sublen_subframe, subframe_split]
  have h6 : (m.da ++ (m.sa ++ (be16 (m.body.length + 6) ++ (m.snap ++ (m.body ++ rest))))).take 6 = m.da := by
    rw [← hda, List.take_left]
  have hd6 : (m.da ++ (m.sa ++ (be16 (m.body.length + 6) ++ (m.snap ++ (m.body ++ rest))))).drop 6 =
      m.sa ++ (be16 (m.body.length + 6) ++ (m.snap ++ (m.body ++ rest))) := by
    rw [← hda, List.drop_left]
  have hd20 : (m.da ++ (m.sa ++ (be16 (m.body.length + 6) ++ (m.snap ++ (m.body ++ rest))))).drop 20 = m.body ++ rest := by
    have hhead : (m.da ++ (m.sa ++ (be16 (m.body.length + 6) ++ m.snap))).length = 20 := by
      simp only [be16, List.length_append, List.length_cons, List.length_nil]
      omega
    rw [← hhead]
    have hassoc : m.da ++ (m.sa ++ (be16 (m.body.length + 6) ++ (m.snap ++ (m.body ++ rest)))) =
        (m.da ++ (m.sa ++ (be16 (m.body.length + 6) ++ m.snap))) ++ (m.body ++ rest) := by simp
    rw [hassoc, List.drop_left]
  rw [h6, hd6, hd20, ← hsa, List.take_left, Nat.add_sub_cancel, List.take_left]
  rfl

variable {alloc : ℕ → Bool} {s : State}

/-- a round on a subframe that fits: `len` bytes are pulled -/
theorem round_subframe {m : Msdu} {rest : List Byte} {len : ℕ} (hd : s.data = m.subframe ++ rest) (ha : alloc s.allocs = true)
    (hlen : len_alligned s.data = some len) :
    round alloc true s = .next ⟨skb_pull len s.data, s.list ++ [m.eth], s.allocs + 1⟩ := by
  have hlong : ¬ s.data.length ≤ 16 := by
    rw [hd, List.length_append, subframe_length]
    omega
  have hsub : ¬ sublen s.data < 6 := by
    rw [hd, sublen_subframe]
    omega
  have heth : subSkb s.data = m.eth := by rw [hd, subSkb_subframe]
  unfold round
  rw [if_neg hlong, hlen]
  simp only [ha, Bool.not_true, Bool.false_eq_true, if_false, if_neg hsub, heth]

theorem roundup_lt (m : Msdu) : roundup (m.body.length + 20) 4 < 65536 ∧ roundup (m.body.length + 20) 4 = m.subframe.length + m.pad := by
  have := m.body_length
  simp only [roundup, Msdu.pad, subframe_length]
  omega

/-- a subframe with its padding is taken off -/
theorem round_padded {m : Msdu} {rest : List Byte} (hd : s.data = m.padded ++ rest) (ha : alloc s.allocs = true) :
    round alloc true s = .next ⟨rest, s.list ++ [m.eth], s.allocs + 1⟩ := by
  have hsplit : s.data = m.subframe ++ (List.replicate m.pad 0 ++ rest) := by rw [hd, Msdu.padded, List.append_assoc]
  have hlen : s.data.length = m.padded.length + rest.length := by rw [hd, List.length_append]
  have hpad := padded_length m
  obtain ⟨hlt, hround⟩ := roundup_lt m
  have hsub := subframe_length m
  have hpull : skb_pull m.padded.length s.data = rest := by
    rw [skb_pull, if_neg (by omega), hd, List.drop_left]
  have hal : len_alligned s.data = some m.padded.length := by
    unfold len_alligned
    rw [hsplit, sublen_subframe, ← hsplit]
    by_cases hmore : s.data.length > m.body.length + 6 + 14
    · rw [if_pos hmore, Nat.mod_eq_of_lt hlt, hpad]
    · have heq : s.data.length = m.body.length + 6 + 14 := by omega
      rw [if_neg hmore, if_pos heq, Nat.mod_eq_of_lt (by omega)]
      congr 1
      omega
  rw [round_subframe hsplit ha hal, hpull]

/-- the last subframe may lack its padding -/
theorem round_last {m : Msdu} (hd : s.data = m.subframe) (ha : alloc s.allocs = true) :
    round alloc true s = .next ⟨[], s.list ++ [m.eth], s.allocs + 1⟩ := by
  have hsplit : s.data = m.subframe ++ [] := by rw [hd, List.append_nil]
  have hsub := subframe_length m
  have hbody := m.body_length
  have hal : len_alligned s.data = some m.subframe.length := by
    unfold len_alligned
    rw [hsplit, sublen_subframe, List.append_nil, if_neg (by omega), if_pos (by omega), Nat.mod_eq_of_lt (by omega), hsub]
  have hpull : skb_pull m.subframe.length s.data = [] := by
    rw [hd, skb_pull, if_neg (lt_irrefl _), List.drop_length]
  rw [round_subframe hsplit ha hal, hpull]

/-- with fewer bytes after it than its padding has, the packet stays as it is -/
theorem round_stuck {m : Msdu} {rest : List Byte} (hd : s.data = m.subframe ++ rest) (hpos : 0 < rest.length)
    (hshort : rest.length < m.pad) (ha : alloc s.allocs = true) :
    round alloc true s = .next ⟨s.data, s.list ++ [m.eth], s.allocs + 1⟩ := by
  have hsub := subframe_length m
  obtain ⟨hlt, hround⟩ := roundup_lt m
  have hlen : s.data.length = m.subframe.length + rest.length := by rw [hd, List.length_append]
  have hal : len_alligned s.data = some (roundup (m.body.length + 20) 4) := by
    unfold len_alligned
    rw [hd, sublen_subframe, ← hd, if_pos (by omega), Nat.mod_eq_of_lt hlt]
  have hpull : skb_pull (roundup (m.body.length + 20) 4) s.data = s.data := by
    rw [skb_pull, if_pos (by omega)]
  rw [round_subframe hd ha hal, hpull]

/-! ## Whole packets -/

/-- the padded subframes in front are taken off one by one -/
theorem ends_padded {ms : List Msdu} {rest : List Byte} {r : Option (List (List Byte))} {l : List (List Byte)} {n : ℕ}
    (ha : ∀ k, n ≤ k → k < n + ms.length → alloc k = true) :
    Ends (round alloc true) ⟨ms.flatMap Msdu.padded ++ rest, l, n⟩ r ↔
      Ends (round alloc true) ⟨rest, l ++ ms.map Msdu.eth, n + ms.length⟩ r := by
  induction ms generalizing l n with
  | nil => simp
  | cons m ms ih =>
    have hround : round alloc true ⟨(m :: ms).flatMap Msdu.padded ++ rest, l, n⟩ =
        .next ⟨ms.flatMap Msdu.padded ++ rest, l ++ [m.eth], n + 1⟩ := by
      apply round_padded
      · rw [List.flatMap_cons, List.append_assoc]
      · exact ha n le_rfl (by simp)
    rw [Ends.of_next hround, ih]
    · have hl : l ++ [m.eth] ++ ms.map Msdu.eth = l ++ (m :: ms).map Msdu.eth := by simp
      have hn : n + 1 + ms.length = n + (m :: ms).length := by
        rw [List.length_cons]
        omega
      rw [hl, hn]
    · intro k hk hlt
      apply ha k (by omega)
      rw [List.length_cons]
      omega

theorem ends_empty (l : List (List Byte)) (n : ℕ) : Ends (round alloc true) ⟨[], l, n⟩ (some l) :=
  Ends.leave (by simp [round])

/-- **What a sender has put together comes out again**, in order, with the padding of the last subframe or without it -/
theorem amsdu_round_trip (ms : List Msdu) (m : Msdu) :
    rwnx_rxdata_process_amsdu (fun _ => true) true (ms.flatMap Msdu.padded) (some (ms.map Msdu.eth)) ∧
      rwnx_rxdata_process_amsdu (fun _ => true) true (ms.flatMap Msdu.padded ++ m.subframe) (some ((ms ++ [m]).map Msdu.eth)) := by
  constructor
  · have h : Ends (round (fun _ => true) true) ⟨ms.flatMap Msdu.padded ++ [], [], 0⟩ (some ([] ++ ms.map Msdu.eth)) :=
      (ends_padded fun _ _ _ => rfl).2 (ends_empty _ _)
    rw [List.append_nil] at h
    exact h
  · apply (ends_padded fun _ _ _ => rfl).2
    have hlast : round (fun _ => true) true ⟨m.subframe, [] ++ ms.map Msdu.eth, 0 + ms.length⟩ =
        .next ⟨[], [] ++ ms.map Msdu.eth ++ [m.eth], 0 + ms.length + 1⟩ := round_last rfl rfl
    rw [Ends.of_next hlast, List.map_append]
    exact ends_empty _ _

/-- the loop on a packet that stays as it is, until there is no memory -/
theorem ends_stuck {m : Msdu} {rest : List Byte} (hpos : 0 < rest.length) (hshort : rest.length < m.pad) {l : List (List Byte)}
    {n N : ℕ} (hn : n ≤ N) (ha : ∀ k, n ≤ k → k < N → alloc k = true) (hN : alloc N = false) :
    Ends (round alloc true) ⟨m.subframe ++ rest, l, n⟩ (some (l ++ List.replicate (N - n) m.eth)) := by
  induction hd : N - n generalizing l n with
  | zero =>
    obtain rfl : n = N := by omega
    have hlong : ¬ (m.subframe ++ rest).length ≤ 16 := by
      rw [List.length_append, subframe_length]
      omega
    apply Ends.leave
    unfold round
    rw [if_neg hlong]
    split
    · simp
    · simp [hN]
  | succ d ih =>
    have hround : round alloc true ⟨m.subframe ++ rest, l, n⟩ = .next ⟨m.subframe ++ rest, l ++ [m.eth], n + 1⟩ :=
      round_stuck rfl hpos hshort (ha n le_rfl (by omega))
    have hlist : l ++ List.replicate (d + 1) m.eth = l ++ [m.eth] ++ List.replicate d m.eth := by simp [List.replicate_succ]
    rw [Ends.of_next hround, hlist]
    apply ih
    · omega
    · intro k hk hlt
      exact ha k (by omega) hlt
    · omega

/-- **Too few bytes after the last subframe hang the loop**: it does not end while there is memory, and when there is none the
last frame has gone to the network stack once for every allocation that was left -/
theorem amsdu_hangs (ms : List Msdu) (m : Msdu) {rest : List Byte} (hpos : 0 < rest.length) (hshort : rest.length < m.pad) :
    (∀ r, ¬ rwnx_rxdata_process_amsdu (fun _ => true) true (ms.flatMap Msdu.padded ++ (m.subframe ++ rest)) r) ∧
      ∀ (alloc : ℕ → Bool) (N : ℕ), ms.length ≤ N → (∀ k, k < N → alloc k = true) → alloc N = false →
        rwnx_rxdata_process_amsdu alloc true (ms.flatMap Msdu.padded ++ (m.subframe ++ rest))
          (some (ms.map Msdu.eth ++ List.replicate (N - ms.length) m.eth)) := by
  constructor
  · intro r h
    have h := (ends_padded fun _ _ _ => rfl).1 h
    revert h
    apply not_ends_of_invariant fun s => s.data = m.subframe ++ rest
    · intro s hs
      exact ⟨_, round_stuck hs hpos hshort rfl, hs⟩
    · rfl
  · intro alloc N hN ha hfail
    apply (ends_padded fun k _ hlt => ha k (by omega)).2
    rw [List.nil_append, Nat.zero_add]
    exact ends_stuck hpos hshort hN (fun k _ hlt => ha k hlt) hfail

/-- a subframe of 21 bytes, which three bytes of padding follow -/
def short : Msdu :=
  ⟨List.replicate 6 2, List.replicate 6 4, [0xaa, 0xaa, 3, 0, 0, 0], [8], by decide, by decide, by decide, by decide⟩

/-- with memory for three frames it goes up three times -/
theorem amsdu_hangs_short :
    rwnx_rxdata_process_amsdu (fun k => k < 3) true ([].flatMap Msdu.padded ++ (short.subframe ++ [0]))
      (some (([] : List Msdu).map Msdu.eth ++ List.replicate (3 - ([] : List Msdu).length) short.eth)) :=
  (amsdu_hangs [] short (by decide) (by decide)).2 (fun k => k < 3) 3 (by decide) (fun k hk => decide_eq_true hk) (by decide)

end AvaotaOS.Aic8800.Amsdu
