/-
The reorder buffer of the AIC8800 Wi-Fi driver (`aic8800_fdrv/rwnx_rx.c`): the frames of one traffic class of one station
are handed to the network stack in the order of their sequence numbers, which have 12 bits and wrap.

A frame gets to `reord_need_check`, `reord_rxframe_enqueue`, `reord_rxframes_process` and `reord_rxframes_ind`, a timeout to
the last two, both under `reord_list_lock`; so a run is a list of such calls in any order.

`Reorder.Agrees` relates the control block to a `ReorderBuffer.Buffer` that counts without wrapping: `ind_sn` and the
sequence numbers are its numbers modulo 4096.

- `receive_agrees`, `worker_agrees`, `flush_agrees`, `handler_agrees`: each call does to the control block what the buffer
  does, when the frame it is called with is near the number the buffer waits for.
-/
import Mathlib.Data.Int.Bitwise
import AvaotaOS.Core.ReorderBuffer

namespace AvaotaOS.Aic8800

/-! ## The code -/

abbrev Byte := BitVec 8

def AICWF_REORDER_WINSIZE : ℕ := 64

/-- `((a-b)&0x800) != 0`, of `int`s -/
def SN_LESS (a b : ℕ) : Bool := ((a : ℤ) - b).testBit 11

/-- a socket buffer: `data` is the memory from `skb->data` on, the packet is its first `len` bytes -/
structure SkBuff where
  id : ℕ
  len : ℕ
  data : ℕ → Byte

/-- one of the frame descriptors `recv_frames`, the one with the index `idx` -/
structure RecvMsdu where
  idx : ℕ
  pkt : Option SkBuff
  tid : ℕ
  seq_num : ℕ
  forward : Bool
  is_amsdu : Bool
  rx_data : ℕ → Byte

/-- one traffic class of one station; `reord_timer`: the timer is pending, `reord_timer_work`: its work is scheduled -/
structure ReordCtrl where
  enable : Bool
  ind_sn : ℕ
  wsize_b : ℕ
  reord_list : List RecvMsdu
  reord_timer : Bool
  reord_timer_work : Bool

/-- what `reord_init_sta` makes -/
def ReordCtrl.init : ReordCtrl := ⟨true, 0xffff, AICWF_REORDER_WINSIZE, [], false, false⟩

/-- what a frame comes to: `ind` is a call of `reord_single_frame_ind`, `free` one of `dev_kfree_skb` for its packet and of
`reord_rxframe_free` for its descriptor -/
inductive Handed where
  | ind (prframe : RecvMsdu)
  | free (pframe : RecvMsdu)

/-- the frame -/
def Handed.pframe : Handed → RecvMsdu
  | .ind m => m
  | .free m => m

def reord_need_check (seq_num : ℕ) (c : ReordCtrl) : Bool × ReordCtrl :=
  let wend := (c.ind_sn + c.wsize_b - 1) % 4096
  let c := if c.ind_sn = 0xffff then { c with ind_sn := seq_num } else c
  if SN_LESS seq_num c.ind_sn then (true, c)
  else if seq_num = c.ind_sn then (false, { c with ind_sn := (c.ind_sn + 1) % 4096 })
  else if SN_LESS wend seq_num then
    if seq_num ≥ c.wsize_b - 1 then (false, { c with ind_sn := seq_num - (c.wsize_b - 1) })
    else (false, { c with ind_sn := 0xfff - (c.wsize_b - (seq_num + 1)) + 1 })
  else (false, c)

/-- `none`: a frame with this sequence number waits already -/
def reord_rxframe_enqueue (prframe : RecvMsdu) : List RecvMsdu → Option (List RecvMsdu)
  | [] => some [prframe]
  | pnextrframe :: l =>
    if SN_LESS pnextrframe.seq_num prframe.seq_num then (reord_rxframe_enqueue prframe l).map (pnextrframe :: ·)
    else if pnextrframe.seq_num = prframe.seq_num then none
    else some (prframe :: pnextrframe :: l)

/-- the loop of `reord_rxframes_process`: the new `ind_sn`, and whether a frame stays in the buffer -/
def processLoop : ℕ → List RecvMsdu → ℕ × Bool
  | ind_sn, [] => (ind_sn, false)
  | ind_sn, prframe :: l =>
    if !SN_LESS ind_sn prframe.seq_num then processLoop (if ind_sn = prframe.seq_num then (ind_sn + 1) % 4096 else ind_sn) l
    else (ind_sn, true)

def reord_rxframes_process (bforced : Bool) (c : ReordCtrl) : Bool × ReordCtrl :=
  match bforced, c.reord_list with
  | true, [] => (false, c)
  | true, prframe :: l => ((processLoop prframe.seq_num (prframe :: l)).2, { c with ind_sn := (processLoop prframe.seq_num (prframe :: l)).1 })
  | false, l => ((processLoop c.ind_sn l).2, { c with ind_sn := (processLoop c.ind_sn l).1 })

/-- the frames it calls `reord_single_frame_ind` with -/
def reord_rxframes_ind (c : ReordCtrl) : List RecvMsdu × ReordCtrl :=
  (c.reord_list.takeWhile fun prframe => !SN_LESS c.ind_sn prframe.seq_num,
    { c with reord_list := c.reord_list.dropWhile fun prframe => !SN_LESS c.ind_sn prframe.seq_num })

/-- the part of `reord_process_unit` under `reord_list_lock`; a frame that is late goes up at once, or is freed where it
looks like RTP -/
def reordUnit (pframe : RecvMsdu) (c : ReordCtrl) : List Handed × ReordCtrl :=
  let (late, c) := reord_need_check pframe.seq_num c
  if late then
    if pframe.rx_data 42 = 0x80 then
      if pframe.seq_num = c.ind_sn then ([.ind pframe], c) else ([.free pframe], c)
    else ([.ind pframe], c)
  else
    match reord_rxframe_enqueue pframe c.reord_list with
    | none => ([.free pframe], c)
    | some l =>
      let (more, c) := reord_rxframes_process false { c with reord_list := l }
      -- armed, when it is not, or deleted
      let (out, c) := reord_rxframes_ind { c with reord_timer := more }
      (out.map .ind, c)

/-- the traffic class is switched on again -/
def reordEnable (c : ReordCtrl) : ReordCtrl :=
  if c.enable then c else { c with enable := true, ind_sn := 0xffff, wsize_b := AICWF_REORDER_WINSIZE }

/-- the timer fires -/
def reord_timeout_handler (c : ReordCtrl) : ReordCtrl := { c with reord_timer := false, reord_timer_work := true }

def reord_timeout_worker (c : ReordCtrl) : List Handed × ReordCtrl :=
  let (more, c) := reord_rxframes_process true { c with reord_timer_work := false }
  let (out, c) := reord_rxframes_ind { c with reord_timer := more || c.reord_timer }
  (out.map .ind, c)

/-- what `reord_flush_tid` does once it has found the traffic class -/
def reordFlush (c : ReordCtrl) : List Handed × ReordCtrl :=
  if c.enable then
    (c.reord_list.map .ind, { c with reord_list := [], enable := false, reord_timer := false, reord_timer_work := false })
  else ([], c)

/-! ## Sequence numbers -/

theorem testBit_eleven (n : ℤ) : n.testBit 11 = decide (2048 ≤ n % 4096) := by
  cases n with
  | ofNat m =>
    rw [Int.testBit, Nat.testBit_eq_decide_div_mod_eq]
    apply decide_eq_decide.2
    simp only [Int.ofNat_eq_natCast]
    omega
  | negSucc m =>
    rw [Int.testBit, Nat.testBit_eq_decide_div_mod_eq, ← decide_not]
    apply decide_eq_decide.2
    rw [Int.negSucc_eq]
    omega

/-- two numbers less than 2048 apart compare as their sequence numbers do -/
theorem sn_less {a b : ℕ} {x y : ℤ} (ha : (a : ℤ) = x % 4096) (hb : (b : ℤ) = y % 4096) (hlo : -2048 ≤ x - y)
    (hhi : x - y ≤ 2047) : SN_LESS a b = decide (x < y) := by
  rw [SN_LESS, testBit_eleven]
  apply decide_eq_decide.2
  omega

theorem sn_eq {a b : ℕ} {x y : ℤ} (ha : (a : ℤ) = x % 4096) (hb : (b : ℤ) = y % 4096) (hlo : -2048 ≤ x - y)
    (hhi : x - y ≤ 2048) : a = b ↔ x = y := by
  omega

/-! ## The buffer behind it -/

namespace Reorder

open ReorderBuffer

/-- a frame and the number that its sequence number is the rest of -/
abbrev Item := ℤ × RecvMsdu

abbrev Buf := Buffer (Prod.fst : Item → ℤ) 64

def Numbered (x : Item) : Prop := (x.2.seq_num : ℤ) = x.1 % 4096

/-- the control block holds the buffer -/
structure Follows (b : Buf) (c : ReordCtrl) : Prop where
  enable : c.enable = true
  wsize : c.wsize_b = 64
  ind_sn : (c.ind_sn : ℤ) = b.next % 4096
  list : c.reord_list = b.held.map Prod.snd
  numbered : ∀ x ∈ b.held, Numbered x
  /-- somebody comes back for the frames that wait -/
  armed : c.reord_list ≠ [] → c.reord_timer = true ∨ c.reord_timer_work = true

/-- the control block holds the buffer, or waits for the frame that sets where it starts -/
def Agrees : Option Buf → ReordCtrl → Prop
  | none, c => c.reord_list = [] ∧ (c.enable = true → c.ind_sn = 0xffff ∧ c.wsize_b = 64)
  | some b, c => Follows b c

/-! ### The functions one by one -/

theorem enqueue_spec {x : Item} {l : List Item} (hx : Numbered x) (hl : ∀ y ∈ l, Numbered y)
    (hlo : ∀ y ∈ l, -2048 ≤ y.1 - x.1) (hhi : ∀ y ∈ l, y.1 - x.1 ≤ 2047) :
    reord_rxframe_enqueue x.2 (l.map Prod.snd) = (place Prod.fst x l).map (List.map Prod.snd) := by
  induction l with
  | nil => rfl
  | cons y l ih =>
    have hy := List.mem_cons_self (a := y) (l := l)
    have hless := sn_less (hl y hy) hx (hlo y hy) (hhi y hy)
    have heq := sn_eq (hl y hy) hx (hlo y hy) (le_trans (hhi y hy) (by omega))
    have ih := ih (fun z hz => hl z (List.mem_cons_of_mem y hz)) (fun z hz => hlo z (List.mem_cons_of_mem y hz))
      fun z hz => hhi z (List.mem_cons_of_mem y hz)
    rw [List.map_cons, reord_rxframe_enqueue, place, hless, ih]
    simp only [decide_eq_true_eq, heq]
    split_ifs
    · cases place Prod.fst x l <;> rfl
    · rfl
    · rfl

theorem processLoop_spec {m : ℤ} {i : ℕ} {l : List Item} (hi : (i : ℤ) = m % 4096) (ha : Ascending Prod.fst l)
    (hl : ∀ y ∈ l, Numbered y) (hlo : ∀ y ∈ l, -2048 ≤ m - y.1) (hhi : ∀ y ∈ l, m - y.1 ≤ 2047) :
    ((processLoop i (l.map Prod.snd)).1 : ℤ) = advance Prod.fst m l % 4096 ∧
      (processLoop i (l.map Prod.snd)).2 = !(l.dropWhile (Prod.fst · < advance Prod.fst m l)).isEmpty := by
  induction l generalizing m i with
  | nil => exact ⟨hi, rfl⟩
  | cons y l ih =>
    have hy := List.mem_cons_self (a := y) (l := l)
    have htail : ∀ z ∈ l, z ∈ y :: l := fun z hz => List.mem_cons_of_mem y hz
    obtain ⟨hlt, ha⟩ := List.pairwise_cons.1 ha
    have hless := sn_less hi (hl y hy) (hlo y hy) (hhi y hy)
    have heq := sn_eq hi (hl y hy) (hlo y hy) (le_trans (hhi y hy) (by omega))
    rw [List.map_cons]
    rcases lt_trichotomy y.1 m with h | h | h
    · have hne : i ≠ y.2.seq_num := fun he => by have := heq.1 he; omega
      have hcode : processLoop i (y.2 :: l.map Prod.snd) = processLoop i (l.map Prod.snd) := by
        simp [processLoop, hless, hne, h.le]
      have habs : advance Prod.fst m (y :: l) = advance Prod.fst m l := by rw [advance, if_pos h]
      have hdrop : y.1 < advance Prod.fst m l := lt_of_lt_of_le h (advance_ge _ m l)
      rw [hcode, habs, List.dropWhile_cons, if_pos (by simpa using hdrop)]
      exact ih hi ha (fun z hz => hl z (htail z hz)) (fun z hz => hlo z (htail z hz)) fun z hz => hhi z (htail z hz)
    · have hcode : processLoop i (y.2 :: l.map Prod.snd) = processLoop ((i + 1) % 4096) (l.map Prod.snd) := by
        rw [processLoop, hless, if_pos (by simpa using h.le), if_pos (heq.2 h.symm)]
      have habs : advance Prod.fst m (y :: l) = advance Prod.fst (m + 1) l := by
        rw [advance, if_neg (by omega), if_pos h]
      have hdrop : y.1 < advance Prod.fst (m + 1) l := by
        have := advance_ge Prod.fst (m + 1) l
        omega
      have hnext : (((i + 1) % 4096 : ℕ) : ℤ) = (m + 1) % 4096 := by omega
      rw [hcode, habs, List.dropWhile_cons, if_pos (by simpa using hdrop)]
      apply ih hnext ha fun z hz => hl z (htail z hz)
      · intro z hz
        have := hlo z (htail z hz)
        omega
      · intro z hz
        have := hlt z hz
        omega
    · have hcode : processLoop i (y.2 :: l.map Prod.snd) = (i, true) := by simp [processLoop, hless, h]
      have habs : advance Prod.fst m (y :: l) = m := by rw [advance, if_neg (by omega), if_neg (by omega)]
      rw [hcode, habs, List.dropWhile_cons, if_neg (by simpa using h.le)]
      exact ⟨hi, rfl⟩

theorem takeWhile_congr {α : Type} {p q : α → Bool} {l : List α} (h : ∀ x ∈ l, p x = q x) :
    l.takeWhile p = l.takeWhile q ∧ l.dropWhile p = l.dropWhile q := by
  induction l with
  | nil => exact ⟨rfl, rfl⟩
  | cons x l ih =>
    have ih := ih fun y hy => h y (List.mem_cons_of_mem x hy)
    simp only [List.takeWhile_cons, List.dropWhile_cons, h x List.mem_cons_self, ih, and_self]

theorem ind_spec {g : ℤ} {c : ReordCtrl} {l : List Item} (hi : (c.ind_sn : ℤ) = g % 4096)
    (hc : c.reord_list = l.map Prod.snd) (hl : ∀ y ∈ l, Numbered y) (hg : g ∉ nums Prod.fst l)
    (hlo : ∀ y ∈ l, -2048 ≤ g - y.1) (hhi : ∀ y ∈ l, g - y.1 ≤ 2047) :
    reord_rxframes_ind c = ((l.takeWhile (Prod.fst · < g)).map Prod.snd,
      { c with reord_list := (l.dropWhile (Prod.fst · < g)).map Prod.snd }) := by
  have hsame : ∀ y ∈ l, (!SN_LESS c.ind_sn y.2.seq_num) = decide (y.1 < g) := by
    intro y hy
    have hne : g ≠ y.1 := fun h => hg ⟨y, hy, h.symm⟩
    rw [sn_less hi (hl y hy) (hlo y hy) (hhi y hy), ← decide_not]
    apply decide_eq_decide.2
    omega
  obtain ⟨htake, hdrop⟩ := takeWhile_congr hsame
  unfold reord_rxframes_ind
  rw [hc, List.takeWhile_map, List.dropWhile_map, ← htake, ← hdrop]
  rfl

/-- where `reord_need_check` lets `ind_sn` stand -/
def checked (b : Buf) (x : Item) : ℤ := if x.1 = b.next then b.next + 1 else b.slide x

theorem need_check_spec {b : Buf} {c : ReordCtrl} {x : Item} (h : Follows b c) (hx : Numbered x)
    (hlo : -2048 ≤ x.1 - b.next) (hhi : x.1 - b.next ≤ 2047) :
    (x.1 < b.next → reord_need_check x.2.seq_num c = (true, c)) ∧
      (b.next ≤ x.1 → ∃ i : ℕ, (i : ℤ) = checked b x % 4096 ∧
        reord_need_check x.2.seq_num c = (false, { c with ind_sn := i })) := by
  have hind := h.ind_sn
  have hw := h.wsize
  unfold Numbered at hx
  have hset : c.ind_sn ≠ 0xffff := by omega
  have hless := sn_less hx hind hlo hhi
  have heq := sn_eq hx hind hlo (by omega)
  have hwend : (((c.ind_sn + c.wsize_b - 1) % 4096 : ℕ) : ℤ) = (b.next + 63) % 4096 := by omega
  unfold reord_need_check
  simp only [if_neg hset, hless]
  constructor
  · intro hlt
    rw [if_pos (by simpa using hlt)]
  · intro hge
    have hwin := sn_less hwend hx (by omega) (by omega)
    rw [if_neg (by simpa using hge), hwin]
    unfold checked Buffer.slide
    by_cases he : x.1 = b.next
    · rw [if_pos (heq.2 he), if_pos he]
      exact ⟨(c.ind_sn + 1) % 4096, by omega, rfl⟩
    · rw [if_neg fun h' => he (heq.1 h'), if_neg he]
      by_cases hout : b.next + 63 < x.1
      · rw [if_pos (by simpa using hout), max_eq_right (by omega)]
        split_ifs
        · exact ⟨x.2.seq_num - (c.wsize_b - 1), by omega, rfl⟩
        · exact ⟨0xfff - (c.wsize_b - (x.2.seq_num + 1)) + 1, by omega, rfl⟩
      · rw [if_neg (by simpa using hout), max_eq_left (by omega)]
        exact ⟨c.ind_sn, by omega, rfl⟩

/-- the first frame sets `ind_sn` -/
theorem need_check_first {c : ReordCtrl} {seq_num : ℕ} (h : c.ind_sn = 0xffff) :
    reord_need_check seq_num c = reord_need_check seq_num { c with ind_sn := seq_num } := by
  have hself : SN_LESS seq_num seq_num = false := by rw [SN_LESS, testBit_eleven]; simp
  unfold reord_need_check
  simp only [h, if_true]
  by_cases hs : seq_num = 0xffff
  · simp [hs]
  · simp [hs, hself]

/-- past the check, both count on from the same number -/
theorem advance_checked {b : Buf} {x : Item} {l : List Item} (hl : place Prod.fst x b.held = some l) :
    advance Prod.fst (checked b x) l = advance Prod.fst (b.slide x) l := by
  unfold checked
  split_ifs with he
  · have hslide : b.slide x = b.next := max_eq_left (by omega)
    have hfront : place Prod.fst x b.held = some (x :: b.held) := place_front Prod.fst fun y hy => by
      have := b.past y hy
      omega
    obtain rfl := Option.some.inj (hl.symm.trans hfront)
    rw [hslide, advance, advance, if_pos (by omega), if_neg (by omega), if_pos he]
  · rfl

/-! ### The calls -/

/-- what the driver does with a frame that is late -/
def lateHanded (m : RecvMsdu) : Handed := if m.rx_data 42 = 0x80 then .free m else .ind m

/-- what the driver does where the buffer does `f` -/
def handed : Fate Item → List Handed
  | .late x => [lateHanded x.2]
  | .repeated x => [.free x.2]
  | .taken l => l.map fun x => .ind x.2

/-- `reord_process_unit` once the traffic class is found -/
def receive (m : RecvMsdu) (c : ReordCtrl) : List Handed × ReordCtrl := reordUnit m (reordEnable c)

theorem Follows.with_ind {b : Buf} {c : ReordCtrl} (h : Follows b c) {i : ℕ} (hi : (i : ℤ) = b.next % 4096) :
    { c with ind_sn := i } = c := by
  have hind := h.ind_sn
  have : i = c.ind_sn := by omega
  rw [this]

/-- a frame that is late -/
theorem unit_late {c : ReordCtrl} {m : RecvMsdu} (h : reord_need_check m.seq_num c = (true, c)) (hm : m.seq_num ≠ c.ind_sn) :
    reordUnit m c = ([lateHanded m], c) := by
  unfold reordUnit lateHanded
  simp only [h, if_true]
  by_cases hr : m.rx_data 42 = 0x80
  · rw [if_pos hr, if_neg hm, if_pos hr]
  · rw [if_neg hr, if_neg hr]

/-- a frame that waits already -/
theorem unit_repeated {c : ReordCtrl} {m : RecvMsdu} (h : reord_need_check m.seq_num c = (false, c))
    (hl : reord_rxframe_enqueue m c.reord_list = none) : reordUnit m c = ([.free m], c) := by
  unfold reordUnit
  simp only [h, hl, Bool.false_eq_true, if_false]

/-- the frames `l` wait, and the buffer goes on from `m` -/
theorem unit_taken {c c' : ReordCtrl} {m : RecvMsdu} {l : List Item} {k : ℤ} (h : reord_need_check m.seq_num c = (false, c'))
    (hc : c'.reord_list = c.reord_list) (hl : reord_rxframe_enqueue m c.reord_list = some (l.map Prod.snd))
    (hi : (c'.ind_sn : ℤ) = k % 4096) (ha : Ascending Prod.fst l) (hnum : ∀ y ∈ l, Numbered y)
    (hlo : ∀ y ∈ l, -2048 ≤ k - y.1) (hhi : ∀ y ∈ l, k - y.1 ≤ 2047)
    (hfar : ∀ y ∈ l, advance Prod.fst k l - y.1 ≤ 2047) :
    ∃ i : ℕ, (i : ℤ) = advance Prod.fst k l % 4096 ∧
      reordUnit m c = ((leaving Prod.fst k l).map (fun y => .ind y.2),
        { c' with
          ind_sn := i
          reord_list := (l.dropWhile (Prod.fst · < advance Prod.fst k l)).map Prod.snd
          reord_timer := !(l.dropWhile (Prod.fst · < advance Prod.fst k l)).isEmpty }) := by
  obtain ⟨hsn, hmore⟩ := processLoop_spec hi ha hnum hlo hhi
  refine ⟨(processLoop c'.ind_sn (l.map Prod.snd)).1, hsn, ?_⟩
  have hnear : ∀ y ∈ l, -2048 ≤ advance Prod.fst k l - y.1 := by
    intro y hy
    have := hlo y hy
    have := advance_ge Prod.fst k l
    omega
  unfold reordUnit
  simp only [h, hc, hl, Bool.false_eq_true, if_false, reord_rxframes_process, hmore]
  rw [ind_spec hsn rfl hnum (advance_not_mem Prod.fst k ha) hnear hfar, List.map_map]
  rfl

theorem unit_follows {b : Buf} {c : ReordCtrl} {x : Item} (h : Follows b c) (hx : Numbered x)
    (hlo : -2048 ≤ x.1 - b.next) (hhi : x.1 - b.next ≤ 2047) :
    (reordUnit x.2 c).1 = handed (b.accept x).2 ∧ Follows (b.accept x).1 (reordUnit x.2 c).2 := by
  obtain ⟨hlate, hcheck⟩ := need_check_spec h hx hlo hhi
  have hwait : b.next ≤ x.1 → reord_rxframe_enqueue x.2 c.reord_list = (place Prod.fst x b.held).map (List.map Prod.snd) := by
    intro hge
    rw [h.list]
    apply enqueue_spec hx h.numbered
    · intro y hy
      have := b.past y hy
      omega
    · intro y hy
      have := b.within y hy
      omega
  rcases b.accept_cases x with ⟨hlt, ha⟩ | ⟨hgt, hmem, ha⟩ | ⟨l, hge, hl, hn, hh, ha⟩
  · have hsn : x.2.seq_num ≠ c.ind_sn := by
      intro he
      have := (sn_eq hx h.ind_sn hlo (by omega)).1 he
      omega
    rw [unit_late (hlate hlt) hsn, ha]
    exact ⟨rfl, h⟩
  · obtain ⟨i, hi, hc⟩ := hcheck hgt.le
    obtain ⟨y, hy, he⟩ := hmem
    have hslide : checked b x = b.next := by
      have := b.within y hy
      rw [checked, if_neg (by omega), Buffer.slide, max_eq_left (by omega)]
    rw [hslide] at hi
    rw [h.with_ind hi] at hc
    have hnone : reord_rxframe_enqueue x.2 c.reord_list = none := by
      rw [hwait hgt.le, (place_eq_none Prod.fst b.ascending).2 ⟨y, hy, he⟩]
      rfl
    rw [unit_repeated hc hnone, ha]
    exact ⟨rfl, h⟩
  · obtain ⟨i, hi, hc⟩ := hcheck hge
    have hasc := place_ascending Prod.fst b.ascending hl
    have hmem := place_mem Prod.fst hl
    have hstart : b.next ≤ checked b x ∧ checked b x ≤ max (b.next + 1) (x.1 - 63) := by
      unfold checked Buffer.slide
      split_ifs <;> omega
    have hnum : ∀ y ∈ l, Numbered y := by
      intro y hy
      rcases (hmem y).1 hy with rfl | hy
      · exact hx
      · exact h.numbered y hy
    have hbound : ∀ y ∈ l, b.next ≤ y.1 ∧ (y.1 ≤ b.next + 63 ∨ y.1 = x.1) ∧ (b.next < y.1 ∨ y.1 = x.1) := by
      intro y hy
      rcases (hmem y).1 hy with rfl | hy
      · exact ⟨hge, Or.inr rfl, Or.inr rfl⟩
      · have := b.past y hy
        have := b.within y hy
        omega
    have htop : advance Prod.fst (checked b x) l ≤ max (b.next + 64) (x.1 + 1) := by
      apply advance_le
      · omega
      · intro y hy
        have := hbound y hy
        omega
    obtain ⟨i', hi', hu⟩ := unit_taken hc rfl (by rw [hwait hge, hl]; rfl) hi hasc hnum
      (by intro y hy; have := hbound y hy; omega) (by intro y hy; have := hbound y hy; omega)
      (by intro y hy; have := hbound y hy; omega)
    have hsame := advance_checked hl
    unfold leaving at hu
    rw [hsame] at hi' hu
    rw [hu, ha]
    refine ⟨rfl, ⟨h.enable, h.wsize, ?_, ?_, ?_, ?_⟩⟩
    · rw [hn]
      exact hi'
    · rw [hh]
    · intro y hy
      rw [hh] at hy
      exact hnum y ((List.dropWhile_sublist _).subset hy)
    · intro hne
      left
      cases hd : l.dropWhile (Prod.fst · < advance Prod.fst (b.slide x) l) with
      | nil => simp [hd] at hne
      | cons y l' => rfl

theorem worker_follows {b : Buf} {c : ReordCtrl} (h : Follows b c) :
    (reord_timeout_worker c).1 = b.expire.2.map (fun x => .ind x.2) ∧ Follows b.expire.1 (reord_timeout_worker c).2 := by
  rcases b.expire_cases with ⟨hnil, hb⟩ | ⟨y, l, hy, hn, hh, ho⟩
  · have hlist : c.reord_list = [] := by rw [h.list, hnil, List.map_nil]
    have hw : reord_timeout_worker c = ([], { c with reord_timer_work := false }) := by
      simp [reord_timeout_worker, reord_rxframes_process, reord_rxframes_ind, hlist]
    rw [hb, hw]
    exact ⟨rfl, h.enable, h.wsize, h.ind_sn, h.list, h.numbered, fun hne => absurd hlist hne⟩
  · have hasc := b.ascending
    have hyb : y ∈ b.held := hy ▸ List.mem_cons_self
    have hi : (y.2.seq_num : ℤ) = y.1 % 4096 := h.numbered y hyb
    have hnext := b.past y hyb
    have hclose : ∀ z ∈ b.held, b.next < z.1 ∧ z.1 < b.next + 64 := fun z hz => ⟨b.past z hz, b.within z hz⟩
    have htop : advance Prod.fst y.1 b.held ≤ b.next + 64 := by
      apply advance_le
      · have := b.within y hyb
        omega
      · exact b.within
    have hge := advance_ge Prod.fst y.1 b.held
    obtain ⟨hsn, hmore⟩ := processLoop_spec hi hasc h.numbered (by intro z hz; have := hclose z hz; have := hclose y hyb; omega)
      (by intro z hz; have := hclose z hz; have := hclose y hyb; omega)
    have hlist : c.reord_list = y.2 :: l.map Prod.snd := by rw [h.list, hy, List.map_cons]
    have hmap : y.2 :: l.map Prod.snd = b.held.map Prod.snd := by rw [hy, List.map_cons]
    unfold reord_timeout_worker
    simp only [reord_rxframes_process, hlist]
    rw [hmap, ind_spec hsn rfl h.numbered (advance_not_mem Prod.fst y.1 hasc) (by intro z hz; have := hclose z hz; omega)
      (by intro z hz; have := hclose z hz; omega), List.map_map, ho]
    refine ⟨rfl, h.enable, h.wsize, ?_, ?_, ?_, ?_⟩
    · rw [hn]
      exact hsn
    · rw [hh]
    · intro z hz
      rw [hh] at hz
      exact h.numbered z ((List.dropWhile_sublist _).subset hz)
    · intro hne
      left
      rw [hmore]
      cases hd : b.held.dropWhile (Prod.fst · < advance Prod.fst y.1 b.held) with
      | nil => simp [hd] at hne
      | cons z l' => rfl

/-- a frame arrives -/
theorem receive_agrees {b : Option Buf} {c : ReordCtrl} {x : Item} (h : Agrees b c) (hx : Numbered x)
    (hnear : ∀ b', b = some b' → -2048 ≤ x.1 - b'.next ∧ x.1 - b'.next ≤ 2047) :
    (receive x.2 c).1 = handed ((b.getD (Buffer.start Prod.fst 64 x.1)).accept x).2 ∧
      Agrees (some ((b.getD (Buffer.start Prod.fst 64 x.1)).accept x).1) (receive x.2 c).2 := by
  cases b with
  | some b =>
    have hon : reordEnable c = c := by rw [reordEnable, h.enable, if_pos rfl]
    obtain ⟨hlo, hhi⟩ := hnear b rfl
    rw [receive, hon, Option.getD_some]
    exact unit_follows h hx hlo hhi
  | none =>
    obtain ⟨hlist, hset⟩ := h
    have hon : (reordEnable c).enable = true ∧ (reordEnable c).ind_sn = 0xffff ∧ (reordEnable c).wsize_b = 64 ∧
        (reordEnable c).reord_list = [] := by
      unfold reordEnable
      split_ifs with he
      · exact ⟨he, (hset he).1, (hset he).2, hlist⟩
      · exact ⟨rfl, rfl, rfl, hlist⟩
    obtain ⟨he, hi, hw, hl⟩ := hon
    have hfirst : receive x.2 c = reordUnit x.2 { reordEnable c with ind_sn := x.2.seq_num } := by
      unfold receive reordUnit
      rw [need_check_first hi]
    have hstart : Follows (Buffer.start Prod.fst 64 x.1) { reordEnable c with ind_sn := x.2.seq_num } :=
      ⟨he, hw, hx, hl, by simp [Buffer.start], fun hne => absurd hl hne⟩
    rw [hfirst, Option.getD_none]
    exact unit_follows hstart hx (by simp [Buffer.start]) (by simp [Buffer.start])

/-- the work of the timer runs -/
theorem worker_agrees {b : Option Buf} {c : ReordCtrl} (h : Agrees b c) :
    (reord_timeout_worker c).1 = ((b.map fun b => b.expire.2).getD []).map (fun x => .ind x.2) ∧
      Agrees (b.map fun b => b.expire.1) (reord_timeout_worker c).2 := by
  cases b with
  | some b => exact worker_follows h
  | none =>
    obtain ⟨hlist, hset⟩ := h
    have hw : reord_timeout_worker c = ([], { c with reord_timer_work := false }) := by
      simp [reord_timeout_worker, reord_rxframes_process, reord_rxframes_ind, hlist]
    rw [hw]
    exact ⟨rfl, hlist, hset⟩

/-- the traffic class is switched off -/
theorem flush_agrees {b : Option Buf} {c : ReordCtrl} (h : Agrees b c) :
    (reordFlush c).1 = ((b.map Buffer.held).getD []).map (fun x => .ind x.2) ∧ Agrees none (reordFlush c).2 := by
  cases b with
  | some b =>
    rw [reordFlush, if_pos h.enable, h.list, List.map_map]
    exact ⟨rfl, rfl, by simp⟩
  | none =>
    obtain ⟨hlist, hset⟩ := h
    unfold reordFlush
    split_ifs with he
    · rw [hlist]
      exact ⟨rfl, rfl, by simp⟩
    · exact ⟨rfl, hlist, hset⟩

theorem handler_agrees {b : Option Buf} {c : ReordCtrl} (h : Agrees b c) : Agrees b (reord_timeout_handler c) := by
  cases b with
  | some b => exact ⟨h.enable, h.wsize, h.ind_sn, h.list, h.numbered, fun _ => Or.inr rfl⟩
  | none => exact h

end Reorder

end AvaotaOS.Aic8800
