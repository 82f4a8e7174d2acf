/-
The receiving side of the AIC8800 Wi-Fi driver over all stations (`aic8800_fdrv/rwnx_rx.c`, `aicwf_txrxif.c`): the list of the
stations, with a control block for each traffic class, and the queue of the frame descriptors all of them share.

Calls for one class run under its lock, so a run of the system is a list of calls in any order. `iftype` is the mode of the
interface, `initOk` says that `reord_init_sta` finds memory and the bus up. A TID is below 8: `preorder_ctrl` has eight
places, and for a larger one the code is outside of it.

- `staOf_add`, `waits_setClass`, `waits_eraseP`: what a call changes in the list of the stations, and what stays.
- `unit_cases`: what a received packet does, with the guards of each case.
- `unit_settled`: its packet goes up, is freed or waits, and so do those that waited; a descriptor is lost only where the
  station could not be put on the list.
-/
import AvaotaOS.Aic8800.ReorderRun

namespace AvaotaOS.Aic8800

open Reorder

/-! ## The code -/

def MAX_REORD_RXFRAME : ℕ := 250

abbrev Mac := List Byte

inductive IfType where
  | STATION
  | P2P_CLIENT
  | AP
  | P2P_GO
  | other
deriving DecidableEq, Repr

def SkBuff.h_dest (skb : SkBuff) : Mac := (List.range 6).map skb.data

def SkBuff.h_source (skb : SkBuff) : Mac := (List.range 6).map fun i => skb.data (6 + i)

def SkBuff.h_proto (skb : SkBuff) : Byte × Byte := (skb.data 12, skb.data 13)

def ETH_P_PAE : Byte × Byte := (0x88, 0x8e)

def SkBuff.is_mcast (skb : SkBuff) : Bool := skb.data 0 &&& 1 ≠ 0

/-- `reord_ctrl_info` -/
structure ReordCtrlInfo where
  mac_addr : Mac
  preorder_ctrl : Fin 8 → ReordCtrl

structure RxPriv where
  rxframes_freequeue : List ℕ
  stas_reord_list : List ReordCtrlInfo

/-- what becomes of packets -/
inductive Ev where
  /-- to the network stack, where it is an A-MSDU in its parts -/
  | netif (skb : SkBuff) (is_amsdu : Bool)
  | kfree (skb : SkBuff)

/-- `aicwf_rx_init` -/
def aicwf_rx_init : RxPriv := ⟨(List.range MAX_REORD_RXFRAME).reverse, []⟩

def reord_rxframe_free (idx : ℕ) (p : RxPriv) : RxPriv := { p with rxframes_freequeue := idx :: p.rxframes_freequeue }

def reord_rxframe_alloc (p : RxPriv) : Option ℕ × RxPriv :=
  match p.rxframes_freequeue with
  | [] => (none, p)
  | idx :: q => (some idx, { p with rxframes_freequeue := q })

def reord_single_frame_ind (prframe : RecvMsdu) (p : RxPriv) : List Ev × RxPriv :=
  match prframe.pkt with
  | none => ([], p)
  | some skb =>
    if prframe.forward then ([.netif skb prframe.is_amsdu], reord_rxframe_free prframe.idx p)
    else ([.kfree skb], reord_rxframe_free prframe.idx p)

/-- the calls a traffic class makes -/
def perform : List Handed → RxPriv → List Ev × RxPriv
  | [], p => ([], p)
  | .ind m :: l, p =>
    ((reord_single_frame_ind m p).1 ++ (perform l (reord_single_frame_ind m p).2).1, (perform l (reord_single_frame_ind m p).2).2)
  | .free m :: l, p =>
    ((m.pkt.map Ev.kfree).toList ++ (perform l (reord_rxframe_free m.idx p)).1, (perform l (reord_rxframe_free m.idx p)).2)

/-- the entry of a station, if it has one -/
def staOf (mac : Mac) (l : List ReordCtrlInfo) : Option ReordCtrlInfo := l.find? fun i => i.mac_addr = mac

/-- put `c` at the traffic class `tid` of the station -/
def setClass (mac : Mac) (tid : Fin 8) (c : ReordCtrl) : List ReordCtrlInfo → List ReordCtrlInfo
  | [] => []
  | i :: l =>
    if i.mac_addr = mac then { i with preorder_ctrl := Function.update i.preorder_ctrl tid c } :: l
    else i :: setClass mac tid c l

def reord_init_sta (initOk : Bool) (mac : Mac) : Option ReordCtrlInfo :=
  if initOk then some ⟨mac, fun _ => .init⟩ else none

def staMac (iftype : IfType) (skb : SkBuff) : Option Mac :=
  match iftype with
  | .STATION | .P2P_CLIENT => some skb.h_dest
  | .AP | .P2P_GO => some skb.h_source
  | .other => none

/-- a call for a traffic class of a station in the list -/
def onClass (i : ReordCtrlInfo) (tid : Fin 8) (f : ReordCtrl → List Handed × ReordCtrl) (p : RxPriv) : List Ev × RxPriv :=
  perform (f (i.preorder_ctrl tid)).1
    { p with stas_reord_list := setClass i.mac_addr tid (f (i.preorder_ctrl tid)).2 p.stas_reord_list }

def reord_process_unit (iftype : IfType) (initOk : Bool) (skb : SkBuff) (seq_num : ℕ) (tid : Fin 8) (forward is_amsdu : Bool)
    (p : RxPriv) : List Ev × RxPriv :=
  if skb.len ≤ 14 then ([.kfree skb], p)
  else
    match reord_rxframe_alloc p with
    | (none, p) => ([.kfree skb], p)
    | (some idx, p) =>
      let pframe : RecvMsdu := ⟨idx, some skb, tid, seq_num, forward, is_amsdu, skb.data⟩
      if skb.h_proto = ETH_P_PAE ∨ skb.is_mcast then reord_single_frame_ind pframe p
      else
        match staMac iftype skb with
        -- the descriptor is not given back
        | none => ([.kfree skb], p)
        | some mac =>
          match staOf mac p.stas_reord_list with
          | some i => onClass i tid (receive pframe) p
          | none =>
            match reord_init_sta initOk mac with
            -- the descriptor is not given back
            | none => ([.kfree skb], p)
            | some i => onClass i tid (receive pframe) { p with stas_reord_list := p.stas_reord_list ++ [i] }

def reord_flush_tid (iftype : IfType) (skb : SkBuff) (tid : Fin 8) (p : RxPriv) : List Ev × RxPriv :=
  match staMac iftype skb with
  | none => ([.kfree skb], p)
  | some mac =>
    match staOf mac p.stas_reord_list with
    | none => ([], p)
    | some i => onClass i tid reordFlush p

/-- the timer of a traffic class fires, or its work runs -/
def reordTimer (mac : Mac) (tid : Fin 8) (f : ReordCtrl → List Handed × ReordCtrl) (p : RxPriv) : List Ev × RxPriv :=
  match staOf mac p.stas_reord_list with
  | none => ([], p)
  | some i => onClass i tid f p

/-- the frames of a station that wait, class by class -/
def ReordCtrlInfo.waiting (i : ReordCtrlInfo) : List RecvMsdu := (List.finRange 8).flatMap fun t => (i.preorder_ctrl t).reord_list

/-- the callers of `reord_deinit_sta`: the first entry with this address -/
def reord_deinit_sta (mac : Mac) (p : RxPriv) : List Ev × RxPriv :=
  match staOf mac p.stas_reord_list with
  | none => ([], p)
  | some i =>
    perform (i.waiting.map .free) { p with stas_reord_list := p.stas_reord_list.eraseP fun i => i.mac_addr = mac }

/-! ## Packets and descriptors -/

def Ev.skb : Ev → SkBuff
  | .netif skb _ => skb
  | .kfree skb => skb

theorem ind_skbs (m : RecvMsdu) (p : RxPriv) : (reord_single_frame_ind m p).1.map Ev.skb = m.pkt.toList := by
  unfold reord_single_frame_ind
  cases m.pkt with
  | none => rfl
  | some skb => split_ifs <;> rfl

theorem ind_state {m : RecvMsdu} (hm : m.pkt ≠ none) (p : RxPriv) :
    (reord_single_frame_ind m p).2 = reord_rxframe_free m.idx p := by
  unfold reord_single_frame_ind
  cases h : m.pkt with
  | none => exact absurd h hm
  | some skb =>
    simp only
    split_ifs <;> rfl

/-- every packet of the calls goes up or is freed -/
theorem perform_skbs (l : List Handed) (p : RxPriv) :
    (perform l p).1.map Ev.skb = l.filterMap fun h => h.pframe.pkt := by
  induction l generalizing p with
  | nil => rfl
  | cons h l ih =>
    cases h with
    | ind m =>
      rw [perform, List.map_append, ih, ind_skbs, List.filterMap_cons]
      cases hm : m.pkt <;> simp [Handed.pframe, hm]
    | free m =>
      rw [perform, List.map_append, ih, List.filterMap_cons]
      cases hm : m.pkt <;> simp [Handed.pframe, hm, Ev.skb]

/-- every descriptor of the calls is free again -/
theorem perform_state {l : List Handed} (hl : ∀ h ∈ l, h.pframe.pkt ≠ none) (p : RxPriv) :
    (perform l p).2 = { p with rxframes_freequeue := (l.map fun h => h.pframe.idx).reverse ++ p.rxframes_freequeue } := by
  induction l generalizing p with
  | nil => rfl
  | cons h l ih =>
    have ih := ih fun h' hh => hl h' (List.mem_cons_of_mem h hh)
    cases h with
    | ind m =>
      have hm : m.pkt ≠ none := hl (.ind m) List.mem_cons_self
      rw [perform, ind_state hm, ih]
      simp [reord_rxframe_free, Handed.pframe]
    | free m =>
      rw [perform, ih]
      simp [reord_rxframe_free, Handed.pframe]

def ReordCtrlInfo.waits (i : ReordCtrlInfo) : Multiset RecvMsdu := ∑ t, ((i.preorder_ctrl t).reord_list : Multiset RecvMsdu)

theorem waiting_eq (i : ReordCtrlInfo) : (i.waiting : Multiset RecvMsdu) = i.waits := by
  unfold ReordCtrlInfo.waiting ReordCtrlInfo.waits
  rw [Fin.sum_univ_def]
  induction List.finRange 8 with
  | nil => rfl
  | cons t l ih => rw [List.flatMap_cons, ← Multiset.coe_add, ih, List.map_cons, List.sum_cons]

/-- the frames that wait, of all stations -/
def waitsOf (l : List ReordCtrlInfo) : Multiset RecvMsdu := (l.map ReordCtrlInfo.waits).sum

theorem waitsOf_append (l l' : List ReordCtrlInfo) : waitsOf (l ++ l') = waitsOf l + waitsOf l' := by
  rw [waitsOf, List.map_append, List.sum_append]
  rfl

theorem waits_update (i : ReordCtrlInfo) (tid : Fin 8) (c : ReordCtrl) :
    ReordCtrlInfo.waits { i with preorder_ctrl := Function.update i.preorder_ctrl tid c } +
      ((i.preorder_ctrl tid).reord_list : Multiset RecvMsdu) = i.waits + (c.reord_list : Multiset RecvMsdu) := by
  have hupd : ∀ t, ((Function.update i.preorder_ctrl tid c t).reord_list : Multiset RecvMsdu) =
      Function.update (fun t => ((i.preorder_ctrl t).reord_list : Multiset RecvMsdu)) tid (c.reord_list : Multiset RecvMsdu) t := by
    intro t
    by_cases ht : t = tid
    · subst ht
      simp
    · simp [ht]
  unfold ReordCtrlInfo.waits
  simp only [hupd]
  rw [Finset.sum_update_of_mem (Finset.mem_univ tid), ← Finset.add_sum_erase Finset.univ _ (Finset.mem_univ tid),
    Finset.sdiff_singleton_eq_erase]
  abel

theorem staOf_cons (mac : Mac) (i : ReordCtrlInfo) (l : List ReordCtrlInfo) :
    staOf mac (i :: l) = if i.mac_addr = mac then some i else staOf mac l := by
  rw [staOf, List.find?_cons]
  by_cases h : i.mac_addr = mac
  · simp [h]
  · simp [h, staOf]

theorem staOf_mac {mac : Mac} {i : ReordCtrlInfo} {l : List ReordCtrlInfo} (h : staOf mac l = some i) : i.mac_addr = mac := by
  simpa using List.find?_some h

theorem staOf_mem {mac : Mac} {i : ReordCtrlInfo} {l : List ReordCtrlInfo} (h : staOf mac l = some i) : i ∈ l :=
  List.mem_of_find?_eq_some h

/-- one class changes what waits -/
theorem waits_setClass {mac : Mac} {i : ReordCtrlInfo} {l : List ReordCtrlInfo} (h : staOf mac l = some i) (tid : Fin 8)
    (c : ReordCtrl) : waitsOf (setClass mac tid c l) + ((i.preorder_ctrl tid).reord_list : Multiset RecvMsdu) =
      waitsOf l + (c.reord_list : Multiset RecvMsdu) := by
  induction l with
  | nil => cases h
  | cons j l ih =>
    rw [staOf_cons] at h
    rw [setClass]
    by_cases hj : j.mac_addr = mac
    · rw [if_pos hj] at h ⊢
      obtain rfl := Option.some.inj h
      have hupd := waits_update j tid c
      unfold waitsOf
      rw [List.map_cons, List.sum_cons, List.map_cons, List.sum_cons, add_right_comm, hupd, add_right_comm]
    · rw [if_neg hj] at h ⊢
      have ih := ih h
      unfold waitsOf at ih ⊢
      rw [List.map_cons, List.sum_cons, List.map_cons, List.sum_cons, add_assoc, ih, add_assoc]

theorem waits_eraseP {mac : Mac} {i : ReordCtrlInfo} {l : List ReordCtrlInfo} (h : staOf mac l = some i) :
    waitsOf (l.eraseP fun i => i.mac_addr = mac) + i.waits = waitsOf l := by
  induction l with
  | nil => cases h
  | cons j l ih =>
    rw [staOf_cons] at h
    rw [List.eraseP_cons]
    by_cases hj : j.mac_addr = mac
    · rw [if_pos hj] at h
      obtain rfl := Option.some.inj h
      simp only [hj, decide_true, cond_true]
      rw [waitsOf, waitsOf, List.map_cons, List.sum_cons, add_comm]
    · rw [if_neg hj] at h
      have ih := ih h
      simp only [hj, decide_false, cond_false]
      unfold waitsOf at ih ⊢
      rw [List.map_cons, List.sum_cons, List.map_cons, List.sum_cons, add_assoc, ih]

/-- where the descriptors are -/
def RxPriv.descs (p : RxPriv) : Multiset ℕ := (p.rxframes_freequeue : Multiset ℕ) + (waitsOf p.stas_reord_list).map RecvMsdu.idx

/-- the packets that wait -/
def RxPriv.skbs (p : RxPriv) : Multiset SkBuff := (waitsOf p.stas_reord_list).filterMap RecvMsdu.pkt

def skbsOf (l : List Ev) : Multiset SkBuff := (l.map Ev.skb : List SkBuff)

/-- the classes hold buffers, the frames that wait hold packets -/
structure Sound (p : RxPriv) : Prop where
  agrees : ∀ i ∈ p.stas_reord_list, ∀ t, ∃ b, Agrees b (i.preorder_ctrl t)
  pkts : ∀ m ∈ waitsOf p.stas_reord_list, m.pkt ≠ none

/-- the call `f` keeps the buffer of a class, and makes of `ins` and what waited what it hands on and what waits -/
def Accounts (f : ReordCtrl → List Handed × ReordCtrl) (c : ReordCtrl) (ins : List RecvMsdu) : Prop :=
  (∃ b, Agrees b (f c).2) ∧ ((f c).1.map Handed.pframe ++ (f c).2.reord_list).Perm (c.reord_list ++ ins)

theorem mem_setClass {mac : Mac} {tid : Fin 8} {c : ReordCtrl} {l : List ReordCtrlInfo} {j : ReordCtrlInfo}
    (h : j ∈ setClass mac tid c l) :
    j ∈ l ∨ ∃ i ∈ l, j = { i with preorder_ctrl := Function.update i.preorder_ctrl tid c } := by
  induction l with
  | nil => cases h
  | cons i l ih =>
    rw [setClass] at h
    split_ifs at h with hi
    · rcases List.mem_cons.1 h with rfl | h
      · exact Or.inr ⟨i, List.mem_cons_self, rfl⟩
      · exact Or.inl (List.mem_cons_of_mem i h)
    · rcases List.mem_cons.1 h with rfl | h
      · exact Or.inl List.mem_cons_self
      · rcases ih h with h | ⟨k, hk, he⟩
        · exact Or.inl (List.mem_cons_of_mem i h)
        · exact Or.inr ⟨k, List.mem_cons_of_mem i hk, he⟩

/-- what a call for a class does to packets and descriptors -/
structure Kept (p p' : RxPriv) (evs : List Ev) (ins : List RecvMsdu) : Prop where
  sound : Sound p'
  descs : p'.descs = p.descs + ((ins : Multiset RecvMsdu)).map RecvMsdu.idx
  skbs : skbsOf evs + p'.skbs = p.skbs + (ins : Multiset RecvMsdu).filterMap RecvMsdu.pkt

/-- the calls `l` go out, and what waited and came now waits or goes out -/
theorem kept_perform {p : RxPriv} {l : List Handed} {stas : List ReordCtrlInfo} {ins : List RecvMsdu} (hp : Sound p)
    (hins : ∀ m ∈ ins, m.pkt ≠ none) (hstas : ∀ i ∈ stas, ∀ t, ∃ b, Agrees b (i.preorder_ctrl t))
    (hw : waitsOf stas + ((l.map Handed.pframe : List RecvMsdu) : Multiset RecvMsdu) = waitsOf p.stas_reord_list + (ins : Multiset RecvMsdu)) :
    Kept p (perform l { p with stas_reord_list := stas }).2 (perform l { p with stas_reord_list := stas }).1 ins := by
  have hpkt : ∀ m ∈ waitsOf stas + ((l.map Handed.pframe : List RecvMsdu) : Multiset RecvMsdu), m.pkt ≠ none := by
    intro m hm
    rw [hw, Multiset.mem_add] at hm
    rcases hm with hm | hm
    · exact hp.pkts m hm
    · exact hins m hm
  have hout : ∀ h ∈ l, h.pframe.pkt ≠ none := by
    intro h hh
    apply hpkt
    exact Multiset.mem_add.2 (Or.inr (List.mem_map_of_mem hh))
  have hstate := perform_state hout { p with stas_reord_list := stas }
  have hskbs := perform_skbs l { p with stas_reord_list := stas }
  refine ⟨⟨?_, ?_⟩, ?_, ?_⟩
  · rw [hstate]
    exact hstas
  · rw [hstate]
    intro m hm
    exact hpkt m (Multiset.mem_add.2 (Or.inl hm))
  · rw [hstate]
    have hidx : (((l.map fun h => h.pframe.idx).reverse ++ p.rxframes_freequeue : List ℕ) : Multiset ℕ) =
        ((l.map Handed.pframe : List RecvMsdu) : Multiset RecvMsdu).map RecvMsdu.idx + p.rxframes_freequeue := by
      rw [← Multiset.coe_add, Multiset.coe_reverse, Multiset.map_coe, List.map_map]
      rfl
    calc ((((l.map fun h => h.pframe.idx).reverse ++ p.rxframes_freequeue : List ℕ) : Multiset ℕ) + (waitsOf stas).map RecvMsdu.idx)
        = p.rxframes_freequeue + (waitsOf stas + ((l.map Handed.pframe : List RecvMsdu) : Multiset RecvMsdu)).map RecvMsdu.idx := by
          rw [hidx, Multiset.map_add]
          abel
      _ = p.rxframes_freequeue + (waitsOf p.stas_reord_list + (ins : Multiset RecvMsdu)).map RecvMsdu.idx := by rw [hw]
      _ = p.descs + (ins : Multiset RecvMsdu).map RecvMsdu.idx := by
          rw [RxPriv.descs, Multiset.map_add]
          abel
  · rw [hstate]
    have hevs : skbsOf (perform l { p with stas_reord_list := stas }).1 =
        ((l.map Handed.pframe : List RecvMsdu) : Multiset RecvMsdu).filterMap RecvMsdu.pkt := by
      rw [skbsOf, hskbs, Multiset.filterMap_coe, List.filterMap_map]
      rfl
    calc skbsOf (perform l { p with stas_reord_list := stas }).1 + (waitsOf stas).filterMap RecvMsdu.pkt
        = (waitsOf stas + ((l.map Handed.pframe : List RecvMsdu) : Multiset RecvMsdu)).filterMap RecvMsdu.pkt := by
          rw [hevs, Multiset.filterMap_add, add_comm]
      _ = p.skbs + (ins : Multiset RecvMsdu).filterMap RecvMsdu.pkt := by rw [hw, Multiset.filterMap_add]; rfl

/-- a call for one class -/
theorem kept_onClass {p : RxPriv} {mac : Mac} {i : ReordCtrlInfo} {tid : Fin 8} {f : ReordCtrl → List Handed × ReordCtrl}
    {ins : List RecvMsdu} (hp : Sound p) (hi : staOf mac p.stas_reord_list = some i)
    (hf : Accounts f (i.preorder_ctrl tid) ins) (hins : ∀ m ∈ ins, m.pkt ≠ none) :
    Kept p (onClass i tid f p).2 (onClass i tid f p).1 ins := by
  obtain ⟨hag, hperm⟩ := hf
  have hmac := staOf_mac hi
  have hset := waits_setClass hi tid (f (i.preorder_ctrl tid)).2
  rw [← Multiset.coe_eq_coe, ← Multiset.coe_add, ← Multiset.coe_add] at hperm
  unfold onClass
  rw [hmac]
  apply kept_perform hp hins
  · intro j hj t
    rcases mem_setClass hj with hj | ⟨k, hk, rfl⟩
    · exact hp.agrees j hj t
    · by_cases ht : t = tid
      · subst ht
        simpa using hag
      · simpa [ht] using hp.agrees k hk t
  · apply add_right_cancel (b := ((i.preorder_ctrl tid).reord_list : Multiset RecvMsdu))
    calc _ = waitsOf (setClass mac tid (f (i.preorder_ctrl tid)).2 p.stas_reord_list) +
          ((i.preorder_ctrl tid).reord_list : Multiset RecvMsdu) + (((f (i.preorder_ctrl tid)).1.map Handed.pframe : List RecvMsdu) : Multiset RecvMsdu) := by
          abel
      _ = waitsOf p.stas_reord_list + ((((f (i.preorder_ctrl tid)).1.map Handed.pframe : List RecvMsdu) : Multiset RecvMsdu) +
          ((f (i.preorder_ctrl tid)).2.reord_list : Multiset RecvMsdu)) := by
          rw [hset]
          abel
      _ = waitsOf p.stas_reord_list + (ins : Multiset RecvMsdu) + ((i.preorder_ctrl tid).reord_list : Multiset RecvMsdu) := by
          rw [hperm]
          abel

theorem accounts_exec {b : Option Buf} {c : ReordCtrl} (h : Agrees b c) {o : Op RecvMsdu}
    (hseq : ∀ m ∈ frames [o], m.seq_num < 4096) : Accounts (exec o) c (frames [o]) := by
  obtain ⟨hag, hperm⟩ := runs_accounts h hseq
  simp only [runs, List.append_nil] at hag hperm
  exact ⟨hag, hperm⟩

theorem Kept.idle {p : RxPriv} (hp : Sound p) : Kept p p [] [] := ⟨hp, by simp, by simp [skbsOf]⟩

/-! ## Runs -/

/-- a mode of the interface that `rwnx_rxdataind_aicwf` makes these calls in -/
abbrev Mode := { t : IfType // t ≠ .other }

inductive Call where
  | unit (mode : Mode) (initOk : Bool) (skb : SkBuff) (seq_num : Fin 4096) (tid : Fin 8) (forward is_amsdu : Bool)
  | flush (mode : Mode) (skb : SkBuff) (tid : Fin 8)
  | handler (mac : Mac) (tid : Fin 8)
  | worker (mac : Mac) (tid : Fin 8)
  | deinit (mac : Mac)

def Call.step : Call → RxPriv → List Ev × RxPriv
  | .unit mode initOk skb seq_num tid forward is_amsdu, p =>
    reord_process_unit mode initOk skb seq_num tid forward is_amsdu p
  | .flush mode skb tid, p => reord_flush_tid mode skb tid p
  | .handler mac tid, p => reordTimer mac tid (exec .handler) p
  | .worker mac tid, p => reordTimer mac tid (exec .worker) p
  | .deinit mac, p => reord_deinit_sta mac p

def rxRun : List Call → RxPriv → List Ev × RxPriv
  | [], p => ([], p)
  | a :: l, p => ((a.step p).1 ++ (rxRun l (a.step p).2).1, (rxRun l (a.step p).2).2)

/-- the packets that come in -/
def Call.skbs : Call → List SkBuff
  | .unit _ _ skb _ _ _ _ => [skb]
  | _ => []

/-- a frame during which a station could not be put on the list -/
def Call.fails : Call → Bool
  | .unit _ initOk _ _ _ _ _ => !initOk
  | _ => false

theorem staMac_mode (mode : Mode) (skb : SkBuff) : ∃ mac, staMac mode skb = some mac := by
  obtain ⟨t, ht⟩ := mode
  cases t with
  | other => exact absurd rfl ht
  | STATION => exact ⟨_, rfl⟩
  | P2P_CLIENT => exact ⟨_, rfl⟩
  | AP => exact ⟨_, rfl⟩
  | P2P_GO => exact ⟨_, rfl⟩

/-- what a call comes to: `lost` are the descriptors nobody has afterwards -/
structure Settled (p p' : RxPriv) (evs : List Ev) (ins : List SkBuff) (lost : Multiset ℕ) : Prop where
  sound : Sound p'
  descs : p'.descs + lost = p.descs
  skbs : skbsOf evs + p'.skbs = p.skbs + (ins : Multiset SkBuff)

theorem Kept.settled {p p' : RxPriv} {evs : List Ev} (h : Kept p p' evs []) : Settled p p' evs [] 0 :=
  ⟨h.sound, by simpa using h.descs, by simpa using h.skbs⟩

/-- the packet `skb` is freed, and nothing else happens -/
theorem settled_free {p : RxPriv} (hp : Sound p) (skb : SkBuff) : Settled p p [.kfree skb] [skb] 0 :=
  ⟨hp, by simp, by simp [skbsOf, Ev.skb, add_comm]⟩

/-- a descriptor is taken from the queue -/
theorem descs_cons {p : RxPriv} {idx : ℕ} {q : List ℕ} (hq : p.rxframes_freequeue = idx :: q) :
    p.descs = ({ p with rxframes_freequeue := q } : RxPriv).descs + {idx} := by
  simp only [RxPriv.descs, hq, ← Multiset.cons_coe]
  rw [← Multiset.singleton_add]
  abel

/-- the packet `skb` takes a descriptor, and the call `Kept` speaks of puts it somewhere -/
theorem Kept.settled_unit {p p' : RxPriv} {evs : List Ev} {m : RecvMsdu} {q : List ℕ} {skb : SkBuff}
    (hq : p.rxframes_freequeue = m.idx :: q) (h : Kept { p with rxframes_freequeue := q } p' evs [m])
    (hm : m.pkt = some skb) : Settled p p' evs [skb] 0 := by
  refine ⟨h.sound, ?_, ?_⟩
  · rw [add_zero, h.descs, descs_cons hq, Multiset.coe_singleton, Multiset.map_singleton]
  · have hpkt : (([m] : List RecvMsdu) : Multiset RecvMsdu).filterMap RecvMsdu.pkt = (([skb] : List SkBuff) : Multiset SkBuff) := by
      rw [Multiset.filterMap_coe, List.filterMap_cons, hm]
      rfl
    rw [h.skbs, hpkt]
    rfl

theorem sound_queue {p : RxPriv} (hp : Sound p) (q : List ℕ) : Sound { p with rxframes_freequeue := q } := ⟨hp.agrees, hp.pkts⟩

theorem kept_single {p : RxPriv} (hp : Sound p) {m : RecvMsdu} (hm : m.pkt ≠ none) :
    Kept p (reord_single_frame_ind m p).2 (reord_single_frame_ind m p).1 [m] := by
  have hrun : perform [.ind m] p = reord_single_frame_ind m p := by
    simp [perform]
  rw [← hrun]
  exact kept_perform hp (by simpa using hm) hp.agrees rfl

/-- the station is on the list -/
theorem kept_receive {p : RxPriv} {mac : Mac} {i : ReordCtrlInfo} {m : RecvMsdu} (hp : Sound p)
    (hi : staOf mac p.stas_reord_list = some i) (tid : Fin 8) (hm : m.pkt ≠ none) (hseq : m.seq_num < 4096) :
    Kept p (onClass i tid (receive m) p).2 (onClass i tid (receive m) p).1 [m] := by
  obtain ⟨b, hag⟩ := hp.agrees i (staOf_mem hi) tid
  exact kept_onClass hp hi (accounts_exec (o := .frame m) hag (by simpa [frames] using hseq)) (by simpa using hm)

/-- the station is put on the list -/
theorem sound_add {p : RxPriv} (hp : Sound p) (mac : Mac) :
    Sound { p with stas_reord_list := p.stas_reord_list ++ [⟨mac, fun _ => .init⟩] } ∧
      waitsOf (p.stas_reord_list ++ [⟨mac, fun _ => .init⟩]) = waitsOf p.stas_reord_list := by
  have hnone : waitsOf [⟨mac, fun _ => .init⟩] = 0 := by
    simp [waitsOf, ReordCtrlInfo.waits, ReordCtrl.init]
  have hsame : waitsOf (p.stas_reord_list ++ [⟨mac, fun _ => .init⟩]) = waitsOf p.stas_reord_list := by
    rw [waitsOf_append, hnone, add_zero]
  refine ⟨⟨?_, ?_⟩, hsame⟩
  · intro i hi t
    rcases List.mem_append.1 hi with hi | hi
    · exact hp.agrees i hi t
    · rw [List.mem_singleton.1 hi]
      exact ⟨none, rfl, fun _ => ⟨rfl, rfl⟩⟩
  · intro m hm
    rw [hsame] at hm
    exact hp.pkts m hm

theorem staOf_add {mac : Mac} {l : List ReordCtrlInfo} (h : staOf mac l = none) (f : Fin 8 → ReordCtrl) :
    staOf mac (l ++ [⟨mac, f⟩]) = some ⟨mac, f⟩ := by
  unfold staOf at h ⊢
  rw [List.find?_append, h]
  simp

/-- a station and a TID -/
abbrev Class := Mac × Fin 8

/-- the class a call is for, and what happens to it -/
def Call.classOp (p : RxPriv) : Call → Option (Class × Op RecvMsdu)
  | .unit mode initOk skb seq_num tid forward is_amsdu =>
    match p.rxframes_freequeue, staMac mode skb with
    | idx :: _, some mac =>
      if skb.len ≤ 14 ∨ skb.h_proto = ETH_P_PAE ∨ skb.is_mcast then none
      else if (staOf mac p.stas_reord_list).isSome ∨ initOk then
        some ((mac, tid), .frame ⟨idx, some skb, tid, seq_num, forward, is_amsdu, skb.data⟩)
      else none
    | _, _ => none
  | .flush mode skb tid =>
    (staMac mode skb).bind fun mac => (staOf mac p.stas_reord_list).map fun _ => ((mac, tid), .flush)
  | .handler mac tid => (staOf mac p.stas_reord_list).map fun _ => ((mac, tid), .handler)
  | .worker mac tid => (staOf mac p.stas_reord_list).map fun _ => ((mac, tid), .worker)
  | .deinit _ => none

/-- **What a frame comes to**: it is freed for want of a descriptor or of a header, goes to the stack as no frame of a class,
is freed because its station finds no memory, or is a frame of a class -/
theorem unit_cases (p : RxPriv) (mode : Mode) (initOk : Bool) (skb : SkBuff) (seq_num : Fin 4096) (tid : Fin 8)
    (forward is_amsdu : Bool) :
    ((Call.unit mode initOk skb seq_num tid forward is_amsdu).classOp p = none ∧
        (Call.unit mode initOk skb seq_num tid forward is_amsdu).step p = ([.kfree skb], p)) ∨
      ((Call.unit mode initOk skb seq_num tid forward is_amsdu).classOp p = none ∧ ∃ idx q, p.rxframes_freequeue = idx :: q ∧
        (Call.unit mode initOk skb seq_num tid forward is_amsdu).step p =
          reord_single_frame_ind ⟨idx, some skb, tid, seq_num, forward, is_amsdu, skb.data⟩ { p with rxframes_freequeue := q }) ∨
      ((Call.unit mode initOk skb seq_num tid forward is_amsdu).classOp p = none ∧ initOk = false ∧
        ∃ idx q, p.rxframes_freequeue = idx :: q ∧
          (Call.unit mode initOk skb seq_num tid forward is_amsdu).step p = ([.kfree skb], { p with rxframes_freequeue := q })) ∨
      ∃ mac idx q l i, p.rxframes_freequeue = idx :: q ∧
        (Call.unit mode initOk skb seq_num tid forward is_amsdu).classOp p =
          some ((mac, tid), .frame ⟨idx, some skb, tid, seq_num, forward, is_amsdu, skb.data⟩) ∧
        staOf mac l = some i ∧
        (l = p.stas_reord_list ∨ (staOf mac p.stas_reord_list = none ∧ i = ⟨mac, fun _ => .init⟩ ∧ l = p.stas_reord_list ++ [⟨mac, fun _ => .init⟩])) ∧
        (Call.unit mode initOk skb seq_num tid forward is_amsdu).step p =
          onClass i tid (exec (.frame ⟨idx, some skb, tid, seq_num, forward, is_amsdu, skb.data⟩)) ⟨q, l⟩ := by
  obtain ⟨mac, hmac⟩ := staMac_mode mode skb
  simp only [Call.step, Call.classOp, reord_process_unit, reord_rxframe_alloc]
  by_cases hshort : skb.len ≤ 14
  · left
    rw [if_pos hshort]
    refine ⟨?_, rfl⟩
    cases p.rxframes_freequeue with
    | nil => rfl
    | cons idx q => simp only [hmac, if_pos (Or.inl hshort : skb.len ≤ 14 ∨ skb.h_proto = ETH_P_PAE ∨ skb.is_mcast = true)]
  · rw [if_neg hshort]
    cases hq : p.rxframes_freequeue with
    | nil => exact Or.inl ⟨rfl, rfl⟩
    | cons idx q =>
      right
      simp only [hmac]
      by_cases hgroup : skb.h_proto = ETH_P_PAE ∨ skb.is_mcast = true
      · left
        rw [if_pos (Or.inr hgroup), if_pos hgroup]
        exact ⟨rfl, idx, q, rfl, rfl⟩
      · right
        rw [if_neg (not_or.2 ⟨hshort, hgroup⟩), if_neg hgroup]
        cases hsta : staOf mac p.stas_reord_list with
        | some i =>
          right
          exact ⟨mac, idx, q, p.stas_reord_list, i, rfl, rfl, hsta, Or.inl rfl, rfl⟩
        | none =>
          cases initOk with
          | false => exact Or.inl ⟨rfl, rfl, idx, q, rfl, rfl⟩
          | true =>
            right
            exact ⟨mac, idx, q, p.stas_reord_list ++ [⟨mac, fun _ => .init⟩], ⟨mac, fun _ => .init⟩, rfl, rfl,
              staOf_add hsta _, Or.inr ⟨hsta, rfl, rfl⟩, rfl⟩

theorem unit_settled {p : RxPriv} (hp : Sound p) (mode : Mode) (initOk : Bool) (skb : SkBuff) (seq_num : Fin 4096) (tid : Fin 8)
    (forward is_amsdu : Bool) :
    ∃ lost : Multiset ℕ, lost.card ≤ (if initOk then 0 else 1) ∧
      Settled p ((Call.unit mode initOk skb seq_num tid forward is_amsdu).step p).2
        ((Call.unit mode initOk skb seq_num tid forward is_amsdu).step p).1 [skb] lost := by
  rcases unit_cases p mode initOk skb seq_num tid forward is_amsdu with ⟨-, h⟩ | ⟨-, idx, q, hq, h⟩ |
    ⟨-, hinit, idx, q, hq, h⟩ | ⟨mac, idx, q, l, i, hq, -, hsta, hl, h⟩
  · rw [h]
    exact ⟨0, by simp, settled_free hp skb⟩
  · rw [h]
    exact ⟨0, by simp, (kept_single (sound_queue hp q) (by simp)).settled_unit hq rfl⟩
  · rw [h, hinit]
    exact ⟨{idx}, by simp, sound_queue hp q, (descs_cons hq).symm, by simp [skbsOf, Ev.skb, RxPriv.skbs, add_comm]⟩
  · have hsound : Sound ⟨q, l⟩ ∧ waitsOf l = waitsOf p.stas_reord_list := by
      rcases hl with rfl | ⟨-, rfl, rfl⟩
      · exact ⟨sound_queue hp q, rfl⟩
      · exact ⟨sound_queue (sound_add hp mac).1 q, (sound_add hp mac).2⟩
    obtain ⟨hs, hsame⟩ := hsound
    have hk := kept_receive (m := ⟨idx, some skb, tid, seq_num, forward, is_amsdu, skb.data⟩) hs hsta tid (by simp) seq_num.isLt
    have hk' : Kept { p with rxframes_freequeue := q } (onClass i tid (receive ⟨idx, some skb, tid, seq_num, forward, is_amsdu, skb.data⟩) ⟨q, l⟩).2
        (onClass i tid (receive ⟨idx, some skb, tid, seq_num, forward, is_amsdu, skb.data⟩) ⟨q, l⟩).1
        [⟨idx, some skb, tid, seq_num, forward, is_amsdu, skb.data⟩] := by
      refine ⟨hk.sound, ?_, ?_⟩
      · rw [hk.descs]
        simp only [RxPriv.descs, hsame]
      · rw [hk.skbs]
        simp only [RxPriv.skbs, hsame]
    rw [h]
    exact ⟨0, by simp, hk'.settled_unit hq rfl⟩

end AvaotaOS.Aic8800
