/-
Whole runs of the receiving side: frames of any stations and classes, timeouts, flushes and stations that leave, in any order.

- `class_runs`: the events of a traffic class are those of the class alone, with the frames of its own.
- `rx_accounts`: every packet goes up, is freed or waits, and that once; every descriptor is in one place or lost, and only
  a frame of a station that could not be put on the list loses one.
- `rx_allocates`: at most 63 descriptors wait in a class.
- `rx_deaf`: when all of them are lost, the driver hands nothing on any more.
-/
import AvaotaOS.Aic8800.RxPriv

namespace AvaotaOS.Aic8800

open Reorder

/-! ## Packets and descriptors of a run -/

theorem timer_settled {p : RxPriv} (hp : Sound p) (mac : Mac) (tid : Fin 8) {o : Op RecvMsdu} (ho : frames [o] = []) :
    Settled p (reordTimer mac tid (exec o) p).2 (reordTimer mac tid (exec o) p).1 [] 0 := by
  unfold reordTimer
  cases hsta : staOf mac p.stas_reord_list with
  | none => exact (Kept.idle hp).settled
  | some i =>
    obtain ⟨b, hag⟩ := hp.agrees i (staOf_mem hsta) tid
    have hacc := accounts_exec (o := o) hag (by simp [ho])
    rw [ho] at hacc
    exact (kept_onClass hp hsta hacc (by simp)).settled

theorem flush_settled {p : RxPriv} (hp : Sound p) (mode : Mode) (skb : SkBuff) (tid : Fin 8) :
    Settled p (reord_flush_tid mode skb tid p).2 (reord_flush_tid mode skb tid p).1 [] 0 := by
  obtain ⟨mac, hmac⟩ := staMac_mode mode skb
  have htimer := timer_settled hp mac tid (o := .flush) rfl
  unfold reord_flush_tid
  rw [hmac]
  exact htimer

theorem deinit_settled {p : RxPriv} (hp : Sound p) (mac : Mac) :
    Settled p (reord_deinit_sta mac p).2 (reord_deinit_sta mac p).1 [] 0 := by
  unfold reord_deinit_sta
  cases hsta : staOf mac p.stas_reord_list with
  | none => exact (Kept.idle hp).settled
  | some i =>
    have hframes : ((i.waiting.map Handed.free).map Handed.pframe : List RecvMsdu) = i.waiting := by
      rw [List.map_map]
      exact List.map_id _
    have hw : waitsOf (p.stas_reord_list.eraseP fun i => i.mac_addr = mac) +
        (((i.waiting.map Handed.free).map Handed.pframe : List RecvMsdu) : Multiset RecvMsdu) =
        waitsOf p.stas_reord_list + (([] : List RecvMsdu) : Multiset RecvMsdu) := by
      rw [hframes, waiting_eq, waits_eraseP hsta, Multiset.coe_nil, add_zero]
    exact (kept_perform hp (by simp) (fun j hj => hp.agrees j (List.mem_of_mem_eraseP hj)) hw).settled

/-- **One call** -/
theorem step_settled {p : RxPriv} (hp : Sound p) (a : Call) :
    ∃ lost : Multiset ℕ, lost.card ≤ (if a.fails then 1 else 0) ∧ Settled p (a.step p).2 (a.step p).1 a.skbs lost := by
  cases a with
  | unit mode initOk skb seq_num tid forward is_amsdu =>
    obtain ⟨lost, hcard, h⟩ := unit_settled hp mode initOk skb seq_num tid forward is_amsdu
    refine ⟨lost, ?_, h⟩
    cases initOk <;> exact hcard
  | flush mode skb tid => exact ⟨0, by simp, flush_settled hp mode skb tid⟩
  | handler mac tid => exact ⟨0, by simp, timer_settled hp mac tid rfl⟩
  | worker mac tid => exact ⟨0, by simp, timer_settled hp mac tid rfl⟩
  | deinit mac => exact ⟨0, by simp, deinit_settled hp mac⟩

theorem Settled.trans {p q r : RxPriv} {evs evs' : List Ev} {ins ins' : List SkBuff} {lost lost' : Multiset ℕ}
    (h : Settled p q evs ins lost) (h' : Settled q r evs' ins' lost') :
    Settled p r (evs ++ evs') (ins ++ ins') (lost + lost') := by
  refine ⟨h'.sound, ?_, ?_⟩
  · calc r.descs + (lost + lost') = r.descs + lost' + lost := by abel
      _ = p.descs := by rw [h'.descs, h.descs]
  · have happ : skbsOf (evs ++ evs') = skbsOf evs + skbsOf evs' := by
      rw [skbsOf, List.map_append, ← Multiset.coe_add]
      rfl
    calc skbsOf (evs ++ evs') + r.skbs = skbsOf evs + (skbsOf evs' + r.skbs) := by rw [happ, add_assoc]
      _ = skbsOf evs + q.skbs + (ins' : Multiset SkBuff) := by rw [h'.skbs, add_assoc]
      _ = p.skbs + ((ins ++ ins' : List SkBuff) : Multiset SkBuff) := by rw [h.skbs, ← Multiset.coe_add, add_assoc]

theorem run_settled {p : RxPriv} (hp : Sound p) (l : List Call) :
    ∃ lost : Multiset ℕ, lost.card ≤ l.countP Call.fails ∧
      Settled p (rxRun l p).2 (rxRun l p).1 (l.flatMap Call.skbs) lost := by
  induction l generalizing p with
  | nil => exact ⟨0, by simp, (Kept.idle hp).settled⟩
  | cons a l ih =>
    obtain ⟨lost, hcard, h⟩ := step_settled hp a
    obtain ⟨lost', hcard', h'⟩ := ih h.sound
    refine ⟨lost + lost', ?_, h.trans h'⟩
    rw [Multiset.card_add, List.countP_cons]
    omega

theorem sound_init : Sound aicwf_rx_init := ⟨by simp [aicwf_rx_init], by simp [aicwf_rx_init, waitsOf]⟩

theorem descs_init : aicwf_rx_init.descs = Multiset.range MAX_REORD_RXFRAME := by
  simp [RxPriv.descs, aicwf_rx_init, waitsOf, Multiset.range]

/-- **Every packet goes up, is freed or waits, and that once; every descriptor is in one place or lost**, and a call loses
one at most where it finds no memory for its station -/
theorem rx_accounts (l : List Call) :
    (((rxRun l aicwf_rx_init).1.map Ev.skb : List SkBuff) : Multiset SkBuff) + (rxRun l aicwf_rx_init).2.skbs =
        ((l.flatMap Call.skbs : List SkBuff) : Multiset SkBuff) ∧
      ∃ lost : Multiset ℕ, lost.card ≤ l.countP Call.fails ∧
        (rxRun l aicwf_rx_init).2.descs + lost = Multiset.range MAX_REORD_RXFRAME := by
  obtain ⟨lost, hcard, h⟩ := run_settled sound_init l
  refine ⟨?_, lost, hcard, ?_⟩
  · have hnone : aicwf_rx_init.skbs = 0 := by simp [RxPriv.skbs, aicwf_rx_init, waitsOf]
    have hs := h.skbs
    rw [hnone, zero_add] at hs
    exact hs
  · rw [h.descs, descs_init]

/-! ## Enough descriptors -/

/-- the number of classes that hold frames -/
def RxPriv.holding (p : RxPriv) : ℕ :=
  (p.stas_reord_list.map fun i => (Finset.univ.filter fun t => (i.preorder_ctrl t).reord_list ≠ []).card).sum

theorem waits_card {i : ReordCtrlInfo} (h : ∀ t, ∃ b, Agrees b (i.preorder_ctrl t)) :
    i.waits.card ≤ 63 * (Finset.univ.filter fun t => (i.preorder_ctrl t).reord_list ≠ []).card := by
  unfold ReordCtrlInfo.waits
  rw [Multiset.card_sum]
  simp only [Multiset.coe_card]
  rw [← Finset.sum_filter_add_sum_filter_not Finset.univ fun t => (i.preorder_ctrl t).reord_list ≠ []]
  have hempty : ∑ t ∈ Finset.univ.filter (fun t => ¬ (i.preorder_ctrl t).reord_list ≠ []), (i.preorder_ctrl t).reord_list.length = 0 := by
    apply Finset.sum_eq_zero
    intro t ht
    have hnil := (Finset.mem_filter.1 ht).2
    rw [not_not.1 hnil, List.length_nil]
  rw [hempty, add_zero, mul_comm]
  apply Finset.sum_le_card_nsmul
  intro t _
  obtain ⟨b, hb⟩ := h t
  exact agrees_length hb

theorem waitsOf_card {l : List ReordCtrlInfo} (h : ∀ i ∈ l, ∀ t, ∃ b, Agrees b (i.preorder_ctrl t)) :
    (waitsOf l).card ≤
      63 * (l.map fun i => (Finset.univ.filter fun t => (i.preorder_ctrl t).reord_list ≠ []).card).sum := by
  induction l with
  | nil => simp [waitsOf]
  | cons i l ih =>
    have ih := ih fun j hj => h j (List.mem_cons_of_mem i hj)
    have hi := waits_card (h i List.mem_cons_self)
    unfold waitsOf at ih ⊢
    rw [List.map_cons, List.sum_cons, Multiset.card_add, List.map_cons, List.sum_cons, Nat.mul_add]
    omega

/-- **A class that holds frames keeps at most 63 descriptors from the others**, so that with three of them no frame is turned
away for want of a descriptor -/
theorem rx_allocates {l : List Call} (h : ∀ a ∈ l, a.fails = false) :
    MAX_REORD_RXFRAME ≤ (rxRun l aicwf_rx_init).2.rxframes_freequeue.length + 63 * (rxRun l aicwf_rx_init).2.holding ∧
      ((rxRun l aicwf_rx_init).2.holding ≤ 3 → (reord_rxframe_alloc (rxRun l aicwf_rx_init).2).1 ≠ none) := by
  obtain ⟨lost, hcard, hs⟩ := run_settled sound_init l
  have hnone : l.countP Call.fails = 0 := List.countP_eq_zero.2 fun a ha => by simp [h a ha]
  have hlost : lost = 0 := Multiset.card_eq_zero.1 (by omega)
  have hdescs := hs.descs
  rw [hlost, add_zero, descs_init] at hdescs
  have hcount := congrArg Multiset.card hdescs
  rw [RxPriv.descs, Multiset.card_add, Multiset.card_map, Multiset.coe_card, Multiset.card_range] at hcount
  have hwait := waitsOf_card hs.sound.agrees
  have hall : MAX_REORD_RXFRAME ≤ (rxRun l aicwf_rx_init).2.rxframes_freequeue.length + 63 * (rxRun l aicwf_rx_init).2.holding := by
    unfold RxPriv.holding
    omega
  refine ⟨hall, ?_⟩
  intro hthree hfull
  unfold reord_rxframe_alloc at hfull
  cases hq : (rxRun l aicwf_rx_init).2.rxframes_freequeue with
  | nil =>
    rw [hq, List.length_nil] at hall
    unfold MAX_REORD_RXFRAME at hall
    omega
  | cons idx q => simp [hq] at hfull

/-- a frame to another station -/
def packet : SkBuff := ⟨0, 100, fun _ => 2⟩

theorem rx_allocates_one :
    MAX_REORD_RXFRAME ≤ (rxRun [.unit ⟨.STATION, by decide⟩ true packet 7 0 true false] aicwf_rx_init).2.rxframes_freequeue.length +
      63 * (rxRun [.unit ⟨.STATION, by decide⟩ true packet 7 0 true false] aicwf_rx_init).2.holding :=
  (rx_allocates (by simp [Call.fails])).1

/-! ## Descriptors that are lost -/

/-- a frame from one other station, long enough, during which the station cannot be put on the list -/
def Call.Strays (a : Call) : Prop :=
  ∃ mode skb seq_num tid forward is_amsdu, a = .unit mode false skb seq_num tid forward is_amsdu ∧ 14 < skb.len ∧
    ¬ (skb.h_proto = ETH_P_PAE ∨ skb.is_mcast = true)

theorem stray_step {a : Call} (h : a.Strays) {q : List ℕ} : (a.step ⟨q, []⟩).2 = ⟨q.tail, []⟩ := by
  obtain ⟨mode, skb, seq_num, tid, forward, is_amsdu, rfl, hlen, hgroup⟩ := h
  obtain ⟨mac, hmac⟩ := staMac_mode mode skb
  rw [Call.step, reord_process_unit, if_neg (by omega)]
  cases q with
  | nil => rfl
  | cons idx q =>
    simp only [reord_rxframe_alloc, if_neg hgroup, hmac]
    rfl

theorem strays_run {l : List Call} (h : ∀ a ∈ l, a.Strays) (q : List ℕ) : (rxRun l ⟨q, []⟩).2 = ⟨q.drop l.length, []⟩ := by
  induction l generalizing q with
  | nil => rfl
  | cons a l ih =>
    rw [rxRun, stray_step (h a List.mem_cons_self), ih fun b hb => h b (List.mem_cons_of_mem a hb), List.length_cons]
    simp

/-- with no descriptor anywhere nothing goes up -/
theorem deaf_step {p : RxPriv} (hp : Sound p) (hd : p.descs = 0) (a : Call) :
    (a.step p).2.descs = 0 ∧ ∀ e ∈ (a.step p).1, ∃ skb, e = .kfree skb := by
  obtain ⟨lost, -, hs⟩ := step_settled hp a
  have hdescs := hs.descs
  rw [hd, add_eq_zero] at hdescs
  refine ⟨hdescs.1, ?_⟩
  obtain ⟨hfree, hwait⟩ := add_eq_zero.1 hd
  have hskbs : p.skbs = 0 := by
    rw [RxPriv.skbs, Multiset.map_eq_zero.1 hwait, Multiset.filterMap_zero]
  have hsilent : a.skbs = [] → ∀ e ∈ (a.step p).1, ∃ skb, e = Ev.kfree skb := by
    intro hno e he
    have hs := hs.skbs
    rw [hskbs, hno, Multiset.coe_nil, add_zero, add_eq_zero] at hs
    have hnil : (a.step p).1.map Ev.skb = [] := (Multiset.coe_eq_zero _).1 hs.1
    rw [List.map_eq_nil_iff.1 hnil] at he
    cases he
  cases a with
  | unit mode initOk skb seq_num tid forward is_amsdu =>
    have hq : p.rxframes_freequeue = [] := (Multiset.coe_eq_zero _).1 hfree
    intro e he
    rw [Call.step, reord_process_unit] at he
    by_cases hlen : skb.len ≤ 14
    · rw [if_pos hlen] at he
      exact ⟨skb, List.mem_singleton.1 he⟩
    · rw [if_neg hlen] at he
      simp only [reord_rxframe_alloc, hq] at he
      exact ⟨skb, List.mem_singleton.1 he⟩
  | flush mode skb tid => exact hsilent rfl
  | handler mac tid => exact hsilent rfl
  | worker mac tid => exact hsilent rfl
  | deinit mac => exact hsilent rfl

theorem deaf_run {p : RxPriv} (hp : Sound p) (hd : p.descs = 0) (l : List Call) :
    ∀ e ∈ (rxRun l p).1, ∃ skb, e = .kfree skb := by
  induction l generalizing p with
  | nil =>
    intro e he
    cases he
  | cons a l ih =>
    obtain ⟨lost, -, hs⟩ := step_settled hp a
    obtain ⟨hd', hfree⟩ := deaf_step hp hd a
    intro e he
    rcases List.mem_append.1 he with he | he
    · exact hfree e he
    · exact ih hs.sound hd' e he

/-- **Once the 250 descriptors are lost, in whatever run, the driver hands nothing on any more**, whatever comes later -/
theorem rx_deaf {l l' : List Call} {lost : Multiset ℕ}
    (hdescs : (rxRun l aicwf_rx_init).2.descs + lost = Multiset.range MAX_REORD_RXFRAME) (hlost : MAX_REORD_RXFRAME ≤ lost.card) :
    ∀ e ∈ (rxRun l' (rxRun l aicwf_rx_init).2).1, ∃ skb, e = .kfree skb := by
  obtain ⟨_, -, hs⟩ := run_settled sound_init l
  have hcount := congrArg Multiset.card hdescs
  rw [Multiset.card_add, Multiset.card_range] at hcount
  have hnone : (rxRun l aicwf_rx_init).2.descs = 0 := Multiset.card_eq_zero.1 (by omega)
  exact deaf_run hs.sound hnone l'

/-- a frame that finds no memory for its station -/
def stray : Call := .unit ⟨.STATION, by decide⟩ false packet 7 0 true false

theorem strays_lose {l : List Call} (h : ∀ a ∈ l, a.Strays) (hl : MAX_REORD_RXFRAME ≤ l.length) :
    (rxRun l aicwf_rx_init).2.descs = 0 := by
  have hdrop : (List.range MAX_REORD_RXFRAME).reverse.drop l.length = [] := by
    apply List.drop_eq_nil_of_le
    rw [List.length_reverse, List.length_range]
    exact hl
  have hend : (rxRun l aicwf_rx_init).2 = ⟨[], []⟩ := by
    have hrun := strays_run h (List.range MAX_REORD_RXFRAME).reverse
    rwa [hdrop] at hrun
  rw [hend]
  simp [RxPriv.descs, waitsOf]

theorem rx_deaf_stray :
    (rxRun (List.replicate 250 stray) aicwf_rx_init).2.descs + Multiset.range MAX_REORD_RXFRAME = Multiset.range MAX_REORD_RXFRAME ∧
      ∀ e ∈ (rxRun [stray] (rxRun (List.replicate 250 stray) aicwf_rx_init).2).1, ∃ skb, e = .kfree skb := by
  have hstray : ∀ a ∈ List.replicate 250 stray, a.Strays := by
    intro a ha
    rw [List.eq_of_mem_replicate ha]
    exact ⟨_, packet, 7, 0, true, false, rfl, by decide, by decide⟩
  have hl : MAX_REORD_RXFRAME ≤ (List.replicate 250 stray).length := by
    rw [List.length_replicate]
    exact le_refl 250
  have hdescs : (rxRun (List.replicate 250 stray) aicwf_rx_init).2.descs + Multiset.range MAX_REORD_RXFRAME =
      Multiset.range MAX_REORD_RXFRAME := by
    rw [strays_lose hstray hl, zero_add]
  exact ⟨hdescs, rx_deaf hdescs (by rw [Multiset.card_range])⟩

/-! ## Each class by itself -/

/-- the control block of a class; a station that is not on the list gets new ones -/
def ctrlOf (k : Class) (p : RxPriv) : ReordCtrl := ((staOf k.1 p.stas_reord_list).map fun i => i.preorder_ctrl k.2).getD .init

/-- what a call of a class does to its packet -/
def Handed.events : Handed → List Ev
  | .ind m =>
    match m.pkt with
    | none => []
    | some skb => if m.forward then [.netif skb m.is_amsdu] else [.kfree skb]
  | .free m => (m.pkt.map Ev.kfree).toList

theorem ind_events (m : RecvMsdu) (p : RxPriv) : (reord_single_frame_ind m p).1 = (Handed.ind m).events := by
  cases h : m.pkt with
  | none => simp [reord_single_frame_ind, Handed.events, h]
  | some skb =>
    simp only [reord_single_frame_ind, Handed.events, h]
    split_ifs <;> rfl

theorem ind_stas (m : RecvMsdu) (p : RxPriv) : (reord_single_frame_ind m p).2.stas_reord_list = p.stas_reord_list := by
  unfold reord_single_frame_ind
  cases m.pkt with
  | none => rfl
  | some skb =>
    simp only
    split_ifs <;> rfl

theorem perform_events (l : List Handed) (p : RxPriv) : (perform l p).1 = l.flatMap Handed.events := by
  induction l generalizing p with
  | nil => rfl
  | cons h l ih =>
    cases h with
    | ind m => rw [perform, ih, ind_events, List.flatMap_cons]
    | free m => rw [perform, ih, List.flatMap_cons, Handed.events]

theorem perform_stas (l : List Handed) (p : RxPriv) : (perform l p).2.stas_reord_list = p.stas_reord_list := by
  induction l generalizing p with
  | nil => rfl
  | cons h l ih =>
    cases h with
    | ind m => rw [perform, ih, ind_stas]
    | free m =>
      rw [perform, ih]
      rfl

theorem staOf_setClass (mac mac' : Mac) (tid : Fin 8) (c : ReordCtrl) (l : List ReordCtrlInfo) :
    staOf mac' (setClass mac tid c l) =
      if mac' = mac then (staOf mac l).map fun i => { i with preorder_ctrl := Function.update i.preorder_ctrl tid c }
      else staOf mac' l := by
  induction l with
  | nil => simp [setClass, staOf]
  | cons i l ih =>
    rw [setClass]
    by_cases hi : i.mac_addr = mac
    · rw [if_pos hi, staOf_cons, staOf_cons, staOf_cons]
      by_cases hm : mac' = mac
      · rw [hm, if_pos rfl, if_pos hi, if_pos hi]
        rfl
      · have hne : i.mac_addr ≠ mac' := fun h => hm (h.symm.trans hi)
        simp [hm, hne]
    · rw [if_neg hi, staOf_cons, ih, staOf_cons, staOf_cons]
      by_cases hm : mac' = mac
      · simp [hm, hi]
      · simp [hm]

/-- a call for one class changes this class, and no other -/
theorem ctrlOf_onClass {p : RxPriv} {mac : Mac} {i : ReordCtrlInfo} (hi : staOf mac p.stas_reord_list = some i) (tid : Fin 8)
    (f : ReordCtrl → List Handed × ReordCtrl) (k : Class) :
    (onClass i tid f p).1 = (f (ctrlOf (mac, tid) p)).1.flatMap Handed.events ∧
      ctrlOf k (onClass i tid f p).2 = if k = (mac, tid) then (f (ctrlOf (mac, tid) p)).2 else ctrlOf k p := by
  have hc : ctrlOf (mac, tid) p = i.preorder_ctrl tid := by simp [ctrlOf, hi]
  have hmac := staOf_mac hi
  unfold onClass
  rw [hc, hmac]
  refine ⟨perform_events _ _, ?_⟩
  unfold ctrlOf
  rw [perform_stas]
  simp only
  rw [staOf_setClass]
  obtain ⟨mac', tid'⟩ := k
  by_cases hm : mac' = mac
  · subst hm
    by_cases ht : tid' = tid
    · subst ht
      simp [hi]
    · simp [hi, ht]
  · simp [hm]

theorem ctrlOf_add {p : RxPriv} {mac : Mac} (h : staOf mac p.stas_reord_list = none) (k : Class) :
    ctrlOf k { p with stas_reord_list := p.stas_reord_list ++ [⟨mac, fun _ => .init⟩] } = ctrlOf k p := by
  unfold ctrlOf
  by_cases hk : k.1 = mac
  · rw [hk, h, staOf_add h]
    rfl
  · have hsame : staOf k.1 (p.stas_reord_list ++ [⟨mac, fun _ => .init⟩]) = staOf k.1 p.stas_reord_list := by
      unfold staOf
      rw [List.find?_append]
      simp [Ne.symm hk]
    rw [hsame]

/-- no station is on the list twice -/
def Distinct (p : RxPriv) : Prop := (p.stas_reord_list.map ReordCtrlInfo.mac_addr).Nodup

theorem setClass_macs (mac : Mac) (tid : Fin 8) (c : ReordCtrl) (l : List ReordCtrlInfo) :
    (setClass mac tid c l).map ReordCtrlInfo.mac_addr = l.map ReordCtrlInfo.mac_addr := by
  induction l with
  | nil => rfl
  | cons i l ih =>
    rw [setClass]
    split_ifs
    · rfl
    · rw [List.map_cons, List.map_cons, ih]

theorem staOf_eq_none {mac : Mac} {l : List ReordCtrlInfo} : staOf mac l = none ↔ mac ∉ l.map ReordCtrlInfo.mac_addr := by
  simp [staOf, List.find?_eq_none]

theorem distinct_onClass {p : RxPriv} (hp : Distinct p) (i : ReordCtrlInfo) (tid : Fin 8)
    (f : ReordCtrl → List Handed × ReordCtrl) : Distinct (onClass i tid f p).2 := by
  unfold Distinct onClass
  rw [perform_stas]
  simp only
  rwa [setClass_macs]

theorem distinct_add {p : RxPriv} {mac : Mac} (hp : Distinct p) (h : staOf mac p.stas_reord_list = none) (f : Fin 8 → ReordCtrl) :
    Distinct { p with stas_reord_list := p.stas_reord_list ++ [⟨mac, f⟩] } := by
  unfold Distinct
  rw [List.map_append]
  apply List.Nodup.append hp (List.nodup_singleton _)
  intro m hm hm'
  have hmac : m = mac := by simpa using hm'
  exact staOf_eq_none.1 h (hmac ▸ hm)

theorem eraseP_sublist_macs (mac : Mac) (l : List ReordCtrlInfo) :
    ((l.eraseP fun i => i.mac_addr = mac).map ReordCtrlInfo.mac_addr).Sublist (l.map ReordCtrlInfo.mac_addr) :=
  (List.eraseP_sublist).map _

theorem staOf_eraseP {mac mac' : Mac} {l : List ReordCtrlInfo} (hl : (l.map ReordCtrlInfo.mac_addr).Nodup) :
    staOf mac' (l.eraseP fun i => i.mac_addr = mac) = if mac' = mac then none else staOf mac' l := by
  induction l with
  | nil => simp [staOf]
  | cons i l ih =>
    rw [List.map_cons, List.nodup_cons] at hl
    rw [List.eraseP_cons]
    by_cases hi : i.mac_addr = mac
    · simp only [hi, decide_true, cond_true]
      by_cases hm : mac' = mac
      · rw [if_pos hm, hm]
        exact staOf_eq_none.2 (hi ▸ hl.1)
      · rw [if_neg hm, staOf_cons, if_neg fun h => hm (h.symm.trans hi)]
    · simp only [hi, decide_false, cond_false]
      rw [staOf_cons, ih hl.2, staOf_cons]
      by_cases hm : mac' = mac
      · simp [hm, hi]
      · simp [hm]

theorem ctrlOf_timer (p : RxPriv) (mac : Mac) (tid : Fin 8) (o : Op RecvMsdu) :
    (staOf mac p.stas_reord_list = none ∧ reordTimer mac tid (exec o) p = ([], p)) ∨
      (∃ i, staOf mac p.stas_reord_list = some i ∧ reordTimer mac tid (exec o) p = onClass i tid (exec o) p) := by
  unfold reordTimer
  cases h : staOf mac p.stas_reord_list with
  | none => exact Or.inl ⟨rfl, rfl⟩
  | some i => exact Or.inr ⟨i, rfl, rfl⟩

/-- what a call does to the classes: it is a call of one class, a station leaves, or it changes none -/
inductive Acts (a : Call) (p : RxPriv) : Prop where
  | on (k : Class) (o : Op RecvMsdu) (h : a.classOp p = some (k, o)) (hseq : ∀ m ∈ frames [o], m.seq_num < 4096)
      (hev : (a.step p).1 = (exec o (ctrlOf k p)).1.flatMap Handed.events)
      (hc : ∀ k', ctrlOf k' (a.step p).2 = if k' = k then (exec o (ctrlOf k p)).2 else ctrlOf k' p)
  | gone (mac : Mac) (h : a = .deinit mac)
      (hc : ∀ k', ctrlOf k' (a.step p).2 = if k'.1 = mac then .init else ctrlOf k' p)
  | none (h : a.classOp p = none) (hd : ∀ mac, a ≠ .deinit mac) (hc : ∀ k', ctrlOf k' (a.step p).2 = ctrlOf k' p)

theorem timer_acts {a : Call} {p : RxPriv} {mac : Mac} {tid : Fin 8} {o : Op RecvMsdu} (hp : Distinct p)
    (hstep : a.step p = reordTimer mac tid (exec o) p)
    (hop : a.classOp p = (staOf mac p.stas_reord_list).map fun _ => ((mac, tid), o)) (hd : ∀ mac, a ≠ .deinit mac)
    (ho : frames [o] = []) : Distinct (a.step p).2 ∧ Acts a p := by
  rcases ctrlOf_timer p mac tid o with ⟨hsta, h⟩ | ⟨i, hsta, h⟩
  · rw [hstep, h]
    refine ⟨hp, .none ?_ hd ?_⟩
    · rw [hop, hsta]
      rfl
    · intro k'
      rw [hstep, h]
  · rw [hstep, h]
    refine ⟨distinct_onClass hp i tid _, .on (mac, tid) o ?_ (by simp [ho]) ?_ ?_⟩
    · rw [hop, hsta]
      rfl
    · rw [hstep, h]
      exact (ctrlOf_onClass hsta tid (exec o) (mac, tid)).1
    · intro k'
      rw [hstep, h]
      exact (ctrlOf_onClass hsta tid (exec o) k').2

theorem ctrlOf_congr {p p' : RxPriv} (h : p'.stas_reord_list = p.stas_reord_list) (k : Class) : ctrlOf k p' = ctrlOf k p := by
  unfold ctrlOf
  rw [h]

theorem Distinct.congr {p p' : RxPriv} (hp : Distinct p) (h : p'.stas_reord_list = p.stas_reord_list) : Distinct p' := by
  unfold Distinct
  rwa [h]

theorem unit_acts {p : RxPriv} (hp : Distinct p) (mode : Mode) (initOk : Bool) (skb : SkBuff) (seq_num : Fin 4096) (tid : Fin 8)
    (forward is_amsdu : Bool) :
    Distinct ((Call.unit mode initOk skb seq_num tid forward is_amsdu).step p).2 ∧
      Acts (.unit mode initOk skb seq_num tid forward is_amsdu) p := by
  have hd : ∀ mac, Call.unit mode initOk skb seq_num tid forward is_amsdu ≠ .deinit mac := fun mac h => by cases h
  rcases unit_cases p mode initOk skb seq_num tid forward is_amsdu with ⟨hop, h⟩ | ⟨hop, idx, q, hq, h⟩ |
    ⟨hop, hinit, idx, q, hq, h⟩ | ⟨mac, idx, q, l, i, hq, hop, hsta, hl, h⟩
  · exact ⟨hp.congr (by rw [h]), .none hop hd (ctrlOf_congr (by rw [h]))⟩
  · exact ⟨hp.congr (by rw [h, ind_stas]), .none hop hd (ctrlOf_congr (by rw [h, ind_stas]))⟩
  · exact ⟨hp.congr (by rw [h]), .none hop hd (ctrlOf_congr (by rw [h]))⟩
  · have hlist : Distinct ⟨q, l⟩ ∧ ∀ k', ctrlOf k' ⟨q, l⟩ = ctrlOf k' p := by
      rcases hl with rfl | ⟨hnone, rfl, rfl⟩
      · exact ⟨hp, fun _ => rfl⟩
      · exact ⟨distinct_add hp hnone _, ctrlOf_add hnone⟩
    obtain ⟨hdis, hsame⟩ := hlist
    rw [h]
    refine ⟨distinct_onClass hdis i tid _, .on (mac, tid) _ hop ?_ ?_ ?_⟩
    · intro m hm
      rw [List.mem_singleton.1 hm]
      exact seq_num.isLt
    · rw [h, ← hsame]
      exact (ctrlOf_onClass hsta tid _ (mac, tid)).1
    · intro k'
      rw [h, ← hsame, ← hsame k']
      exact (ctrlOf_onClass hsta tid _ k').2

theorem step_acts {p : RxPriv} (hp : Distinct p) (a : Call) : Distinct (a.step p).2 ∧ Acts a p := by
  cases a with
  | unit mode initOk skb seq_num tid forward is_amsdu => exact unit_acts hp mode initOk skb seq_num tid forward is_amsdu
  | flush mode skb tid =>
    obtain ⟨mac, hmac⟩ := staMac_mode mode skb
    have hstep : (Call.flush mode skb tid).step p = reordTimer mac tid (exec .flush) p := by
      rw [Call.step, reord_flush_tid, hmac]
      rfl
    have hop : (Call.flush mode skb tid).classOp p = (staOf mac p.stas_reord_list).map fun _ => ((mac, tid), .flush) := by
      rw [Call.classOp, hmac]
      rfl
    exact timer_acts hp hstep hop (fun mac h => by cases h) rfl
  | handler mac tid => exact timer_acts hp rfl rfl (fun mac h => by cases h) rfl
  | worker mac tid => exact timer_acts hp rfl rfl (fun mac h => by cases h) rfl
  | deinit mac =>
    have hstas : ((Call.deinit mac).step p).2.stas_reord_list = p.stas_reord_list.eraseP fun i => i.mac_addr = mac := by
      rw [Call.step, reord_deinit_sta]
      cases hsta : staOf mac p.stas_reord_list with
      | none =>
        have hnone := List.find?_eq_none.1 hsta
        exact (List.eraseP_of_forall_not hnone).symm
      | some i =>
        simp only
        rw [perform_stas]
    refine ⟨?_, .gone mac rfl ?_⟩
    · unfold Distinct
      rw [hstas]
      exact (eraseP_sublist_macs mac _).nodup hp
    · intro k'
      unfold ctrlOf
      rw [hstas, staOf_eraseP hp]
      split_ifs <;> rfl

/-- what a class has been through since its station was last put on the list, and the events of that -/
def note (k : Class) (p : RxPriv) (h : List (Op RecvMsdu) × List Ev) (a : Call) : List (Op RecvMsdu) × List Ev :=
  match a with
  | .deinit mac => if mac = k.1 then ([], []) else h
  | a =>
    match a.classOp p with
    | some (k', o) => if k' = k then (h.1 ++ [o], h.2 ++ (a.step p).1) else h
    | none => h

def history (k : Class) : List Call → RxPriv → List (Op RecvMsdu) × List Ev → List (Op RecvMsdu) × List Ev
  | [], _, h => h
  | a :: l, p, h => history k l (a.step p).2 (note k p h a)

/-- the history of a class is a run of the class alone, and leaves the control block it has -/
structure Alone (k : Class) (p : RxPriv) (h : List (Op RecvMsdu) × List Ev) : Prop where
  seq : ∀ m ∈ frames h.1, m.seq_num < 4096
  ctrl : ctrlOf k p = (runs h.1 .init).2
  events : h.2 = (runs h.1 .init).1.flatMap Handed.events

theorem frames_append {α : Type} (ops ops' : List (Op α)) : frames (ops ++ ops') = frames ops ++ frames ops' := by
  induction ops with
  | nil => rfl
  | cons o ops ih => cases o <;> simp [frames, ih]

theorem note_alone {k : Class} {p : RxPriv} {h : List (Op RecvMsdu) × List Ev} {a : Call} (hp : Distinct p) (ha : Alone k p h) :
    Alone k (a.step p).2 (note k p h a) := by
  obtain ⟨-, hact⟩ := step_acts hp a
  cases hact with
  | on k' o hop hseq hev hc =>
    have hnote : note k p h a = if k' = k then (h.1 ++ [o], h.2 ++ (a.step p).1) else h := by
      cases a with
      | deinit mac => cases hop
      | _ => simp only [note, hop]
    rw [hnote]
    by_cases hk : k' = k
    · subst hk
      have hctrl := hc k'
      rw [if_pos rfl] at hctrl ⊢
      have hrun : runs (h.1 ++ [o]) .init = ((runs h.1 .init).1 ++ (exec o (ctrlOf k' p)).1, (exec o (ctrlOf k' p)).2) := by
        rw [runs_append, ← ha.ctrl]
        simp [runs]
      refine ⟨?_, ?_, ?_⟩
      · intro m hm
        rw [frames_append] at hm
        rcases List.mem_append.1 hm with hm | hm
        · exact ha.seq m hm
        · exact hseq m hm
      · rw [hrun, hctrl]
      · rw [hrun, List.flatMap_append, ← ha.events, hev]
    · rw [if_neg hk]
      have hctrl := hc k
      rw [if_neg (Ne.symm hk)] at hctrl
      exact ⟨ha.seq, hctrl.trans ha.ctrl, ha.events⟩
  | gone mac he hc =>
    subst he
    have hctrl := hc k
    by_cases hm : mac = k.1
    · rw [if_pos hm.symm] at hctrl
      simp only [note, if_pos hm]
      exact ⟨by simp [frames], hctrl, rfl⟩
    · rw [if_neg (Ne.symm hm)] at hctrl
      simp only [note, if_neg hm]
      exact ⟨ha.seq, hctrl.trans ha.ctrl, ha.events⟩
  | none hop hd hc =>
    have hnote : note k p h a = h := by
      cases a with
      | deinit mac => exact absurd rfl (hd mac)
      | _ => simp only [note, hop]
    rw [hnote]
    exact ⟨ha.seq, (hc k).trans ha.ctrl, ha.events⟩

theorem history_alone {k : Class} {p : RxPriv} {h : List (Op RecvMsdu) × List Ev} (hp : Distinct p) (ha : Alone k p h)
    (l : List Call) : Alone k (rxRun l p).2 (history k l p h) := by
  induction l generalizing p h with
  | nil => exact ha
  | cons a l ih => exact ih (step_acts hp a).1 (note_alone hp ha)

/-- **Every traffic class behaves as if it were alone**: since its station was last put on the list, its events are those
of a run of the class with the frames of its own, whatever the other classes do in between -/
theorem class_runs (k : Class) (l : List Call) :
    Alone k (rxRun l aicwf_rx_init).2 (history k l aicwf_rx_init ([], [])) := by
  apply history_alone
  · simp [Distinct, aicwf_rx_init]
  · exact ⟨by simp [frames], rfl, rfl⟩

end AvaotaOS.Aic8800
