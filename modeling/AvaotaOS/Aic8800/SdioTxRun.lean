/-
Whole runs of the sending side of the AIC8800 Wi-Fi driver (`SdioTx`), for every order of the parties' steps.

- `tx_delivers`: what is handed to the bus are the accepted packets, within each priority in the order they were accepted,
  and they are told apart again; none is handed over twice, and those that are not wait or were freed when the bus went down.
- `tx_covered`: an aggregate is sent only while the firmware keeps two buffers more than it has packets.
- `tx_fits`: an aggregate stays within its memory.
- `tx_wakes`: the thread never waits with work left and nobody about to wake it.
- `tx_drains`: from there it sends all that was accepted.
-/
import AvaotaOS.Aic8800.SdioTx

namespace AvaotaOS.Aic8800.SdioTx

open PrioQueue FrameQueue

variable {dev : SdioDev} {a b : Sender} {s : Sys} {e : Env} {es fs : List Ev} {l : List Act}

/-- a chip, a device that is awake with ten buffers free, and a packet -/
def dc : SdioDev := ⟨.PRODUCT_ID_AIC8800DC, 32⟩

def free : Env := ⟨true, true, fun _ => some 10, true⟩

def voice : TxPkt := ⟨0, 6, List.replicate 28 0, rfl, [1, 2, 3], false⟩

/-- the packet is put into the queue, and the thread sends it -/
def sending : List Act := [.txdata voice, .complete] ++ (List.replicate 12 free).map .thread

/-! ## What a run shows -/

/-- the packets that were accepted -/
def accepted (es : List Ev) : List TxPkt :=
  es.filterMap fun
    | .enq pkt => some pkt
    | _ => none

/-- what was handed to the bus -/
def writes (es : List Ev) : List (List Byte) :=
  es.filterMap fun
    | .txpkt bytes _ => some bytes
    | _ => none

/-- the packets that were freed unsent -/
def freed (es : List Ev) : List TxPkt :=
  es.filterMap fun
    | .free pkt => some pkt
    | _ => none

/-- with so many buffers free, each aggregate has two packets less at most than buffers are left -/
def Covered : ℤ → List Ev → Prop
  | _, [] => True
  | _, .flow ret :: es => Covered ret es
  | c, .txpkt bytes _ :: es =>
    (received bytes).length + DATA_FLOW_CTRL_THRESH ≤ c ∧ Covered (c - (received bytes).length) es
  | c, .enq _ :: es => Covered c es
  | c, .free _ :: es => Covered c es
  | c, .consume _ :: es => Covered c es

theorem accepted_append (es fs : List Ev) : accepted (es ++ fs) = accepted es ++ accepted fs := List.filterMap_append

theorem writes_append (es fs : List Ev) : writes (es ++ fs) = writes es ++ writes fs := List.filterMap_append

theorem freed_append (es fs : List Ev) : freed (es ++ fs) = freed es ++ freed fs := List.filterMap_append

@[simp] theorem accepted_free (pkts : List TxPkt) : accepted (pkts.map .free) = [] := by
  induction pkts with
  | nil => rfl
  | cons p pkts ih => exact ih

@[simp] theorem writes_free (pkts : List TxPkt) : writes (pkts.map .free) = [] := by
  induction pkts with
  | nil => rfl
  | cons p pkts ih => exact ih

@[simp] theorem freed_free (pkts : List TxPkt) : freed (pkts.map .free) = pkts := by
  induction pkts with
  | nil => rfl
  | cons p pkts ih => exact congrArg (p :: ·) ih

/-- the packets of the sender have the property, and those that wait their right priority -/
structure Each (P : TxPkt → Prop) (a : Sender) : Prop where
  held : ∀ x ∈ a.held, x = entry x.2 ∧ P x.2
  aggr : ∀ p ∈ a.aggr, P p

variable {P : TxPkt → Prop}

theorem init_each (P : TxPkt → Prop) : Each P .init := ⟨by simp [Sender.init], by simp [Sender.init]⟩

/-- what holds of each accepted packet holds of all that are held -/
theorem Move.each (h : Move dev a es b) (ha : Each P a) (hs : ∀ p ∈ accepted es, P p) : Each P b := by
  cases h with
  | quiet => exact ha
  | refuse pkt => exact ha
  | accept pkt hup =>
    refine ⟨?_, ha.aggr⟩
    intro x hx
    obtain hx | hx := List.mem_append.1 hx
    · exact ha.held x hx
    · rw [List.mem_singleton.1 hx]
      exact ⟨rfl, hs pkt (by simp [accepted])⟩
  | ask readb h => exact ⟨ha.held, ha.aggr⟩
  | take x hx hc =>
    refine ⟨fun y hy => ha.held y (mem_of_mem_rest hy), ?_⟩
    intro p hp
    obtain hp | hp := List.mem_append.1 hp
    · exact ha.aggr p hp
    · rw [List.mem_singleton.1 hp]
      exact (ha.held x (next_mem hx)).2
  | send buf written hne hc hb => exact ⟨ha.held, by simp⟩
  | down => exact ⟨ha.held, ha.aggr⟩
  | flush pkts hup hl => exact ⟨by simp, ha.aggr⟩

theorem accepted_of_append (hs : ∀ p ∈ accepted (es ++ fs), P p) : (∀ p ∈ accepted es, P p) ∧ ∀ p ∈ accepted fs, P p := by
  rw [accepted_append] at hs
  exact ⟨fun p hp => hs p (List.mem_append_left _ hp), fun p hp => hs p (List.mem_append_right _ hp)⟩

/-! ## The account of the packets -/

/-- the aggregates handed to the bus are these lists of packets, told apart again; with the packets of the aggregate at hand,
those that were flushed and those that wait they are what was accepted, in order -/
structure Accounts (dev : SdioDev) (es : List Ev) (a : Sender) (batches : List (List TxPkt)) (flushed : List (Entry TxPkt)) :
    Prop where
  bus : (writes es).map received = batches.map (List.map (body dev.chipid))
  free : ((flushed.map Prod.snd : List TxPkt) : Multiset TxPkt) ≤ (freed es : Multiset TxPkt)
  down : flushed ≠ [] → a.up = false ∧ a.held = []
  flow : ∀ p, PrioQueue.Flow p ((accepted es).map entry) ((batches.flatten ++ a.aggr).map entry) (flushed ++ a.held)

def Account (dev : SdioDev) (es : List Ev) (a : Sender) : Prop := ∃ batches flushed, Accounts dev es a batches flushed

variable {batches : List (List TxPkt)} {flushed : List (Entry TxPkt)}

/-- a move without a packet, after which the sender has the same packets -/
theorem Accounts.congr (h : Accounts dev es a batches flushed) (hw : writes fs = []) (hacc : accepted fs = [])
    (hheld : b.held = a.held) (haggr : b.aggr = a.aggr) (hup : a.up = false → b.up = false) :
    Accounts dev (es ++ fs) b batches flushed := by
  refine ⟨?_, ?_, fun hne => ?_, fun p => ?_⟩
  · rw [writes_append, hw, List.append_nil]
    exact h.bus
  · rw [freed_append, ← Multiset.coe_add]
    exact le_trans h.free (Multiset.le_add_right _ _)
  · rw [hheld]
    exact ⟨hup (h.down hne).1, (h.down hne).2⟩
  · rw [accepted_append, hacc, List.append_nil, haggr, hheld]
    exact h.flow p

/-- nothing has been flushed while the bus is up, or while packets wait -/
theorem Accounts.unflushed (h : Accounts dev es a batches flushed) (hkeep : a.up = true ∨ a.held ≠ []) : flushed = [] := by
  by_contra hne
  obtain ⟨hdown, hnil⟩ := h.down hne
  obtain hup | hheld := hkeep
  · exact absurd (hdown.symm.trans hup) (by decide)
  · exact hheld hnil

theorem Move.account (h : Move dev a fs b) (ha : Each TxPkt.Sized a) (hacc : Account dev es a) : Account dev (es ++ fs) b := by
  obtain ⟨batches, flushed, hacc⟩ := hacc
  cases h with
  | quiet => exact ⟨batches, flushed, hacc.congr rfl rfl rfl rfl id⟩
  | refuse pkt => exact ⟨batches, flushed, hacc.congr rfl rfl rfl rfl id⟩
  | accept pkt hup =>
    have hnone := hacc.unflushed (.inl hup)
    refine ⟨batches, flushed, ?_, ?_, fun hne => absurd hnone hne, fun p => ?_⟩
    · simpa [writes_append, writes] using hacc.bus
    · simpa [freed_append, freed] using hacc.free
    · have hpush := (hacc.flow p).push (entry pkt)
      rw [List.append_assoc] at hpush
      simpa [accepted_append, accepted] using hpush
  | ask readb h => exact ⟨batches, flushed, hacc.congr rfl rfl rfl rfl id⟩
  | take x hx hc =>
    have hquiet : writes (if x.2.need_cfm then [] else [.consume x.2]) = [] ∧
        accepted (if x.2.need_cfm then [] else [.consume x.2]) = [] ∧
        freed (if x.2.need_cfm then [] else [.consume x.2]) = [] := by
      split <;> exact ⟨rfl, rfl, rfl⟩
    have hnone := hacc.unflushed (.inr (List.ne_nil_of_mem (next_mem hx)))
    have hentry : (batches.flatten ++ a.aggr).map entry ++ [x] = (batches.flatten ++ (a.aggr ++ [x.2])).map entry := by
      have hx' := (ha.held x (next_mem hx)).1
      calc (batches.flatten ++ a.aggr).map entry ++ [x] = (batches.flatten ++ a.aggr).map entry ++ [x.2].map entry := by
            rw [List.map_singleton, ← hx']
        _ = (batches.flatten ++ (a.aggr ++ [x.2])).map entry := by rw [← List.map_append, List.append_assoc]
    refine ⟨batches, flushed, ?_, ?_, fun hne => absurd hnone hne, fun p => ?_⟩
    · rw [writes_append, hquiet.1, List.append_nil]
      exact hacc.bus
    · rw [freed_append, hquiet.2.2, List.append_nil]
      exact hacc.free
    · have hflow := hacc.flow p
      rw [hnone, List.nil_append] at hflow ⊢
      have htake := hflow.take hx
      rw [hentry] at htake
      rw [accepted_append, hquiet.2.1, List.append_nil]
      exact htake
  | send buf written hne hc hb =>
    refine ⟨batches ++ [a.aggr], flushed, ?_, ?_, hacc.down, fun p => ?_⟩
    · have hrec := received_wire ha.aggr hb
      have hnew : writes [.txpkt (aicwf_sdio_txpkt (linkTail buf)) written] = [aicwf_sdio_txpkt (linkTail buf)] := rfl
      calc (writes (es ++ [.txpkt (aicwf_sdio_txpkt (linkTail buf)) written])).map received
          = (writes es).map received ++ [received (aicwf_sdio_txpkt (linkTail buf))] := by
            rw [writes_append, hnew, List.map_append, List.map_singleton]
        _ = batches.map (List.map (body dev.chipid)) ++ [a.aggr.map (body dev.chipid)] := by rw [hacc.bus, hrec]
        _ = (batches ++ [a.aggr]).map (List.map (body dev.chipid)) := by rw [List.map_append, List.map_singleton]
    · simpa [freed_append, freed] using hacc.free
    · simpa [accepted_append, accepted] using hacc.flow p
  | down => exact ⟨batches, flushed, hacc.congr rfl rfl rfl rfl fun _ => rfl⟩
  | flush pkts hup hl =>
    refine ⟨batches, flushed ++ a.held, ?_, ?_, fun _ => ⟨hup, rfl⟩, fun p => ?_⟩
    · rw [writes_append, writes_free, List.append_nil]
      exact hacc.bus
    · calc (((flushed ++ a.held).map Prod.snd : List TxPkt) : Multiset TxPkt)
          = ((flushed.map Prod.snd : List TxPkt) : Multiset TxPkt) + (a.held.map Prod.snd : List TxPkt) := by
            rw [List.map_append, Multiset.coe_add]
        _ ≤ (freed es : Multiset TxPkt) + (pkts : Multiset TxPkt) := add_le_add hacc.free (Multiset.coe_eq_coe.2 hl).ge
        _ = (freed (es ++ pkts.map .free) : Multiset TxPkt) := by rw [Multiset.coe_add, freed_append, freed_free]
    · rw [accepted_append, accepted_free, List.append_nil, List.append_nil]
      exact hacc.flow p

theorem Moves.account (h : Moves dev a fs b) (hs : ∀ p ∈ accepted fs, p.Sized) (ha : Each TxPkt.Sized a)
    (hacc : Account dev es a) : Account dev (es ++ fs) b := by
  induction h generalizing es with
  | nil a => rwa [List.append_nil]
  | cons hmove _ ih =>
    obtain ⟨hnow, hlater⟩ := accepted_of_append hs
    rw [← List.append_assoc]
    exact ih hlater (hmove.each ha hnow) (hmove.account ha hacc)

/-- the run, and the sender it stands for -/
theorem run_account (dev : SdioDev) (mem : ℕ → Byte) (l : List Act)
    (hs : ∀ p ∈ accepted (run dev l (aicwf_sdio_bus_init mem)).1, p.Sized) :
    ∃ a, Agrees dev a (run dev l (aicwf_sdio_bus_init mem)).2 ∧ Account dev (run dev l (aicwf_sdio_bus_init mem)).1 a := by
  obtain ⟨a, hmoves, hag⟩ := run_refines (init_agrees dev mem) l
  have hstart : Account dev [] .init := ⟨[], [], rfl, by simp, fun hne => absurd rfl hne, fun _ => PrioQueue.Flow.nil⟩
  exact ⟨a, hag, hmoves.account hs (init_each _) hstart⟩

/-- **What goes to the bus are the accepted packets**, told apart again, within each priority in the order they were accepted;
the others are in the aggregate at hand, were freed when the bus had gone down, or wait, and none is lost or there twice -/
theorem tx_delivers (dev : SdioDev) (mem : ℕ → Byte) (l : List Act)
    (hs : ∀ p ∈ accepted (run dev l (aicwf_sdio_bus_init mem)).1, p.Sized) :
    ∃ (batches : List (List TxPkt)) (aggr : List TxPkt) (flushed held : List (Entry TxPkt)),
      (writes (run dev l (aicwf_sdio_bus_init mem)).1).map received = batches.map (List.map (body dev.chipid)) ∧
      (run dev l (aicwf_sdio_bus_init mem)).2.tx.aggr_buf.bytes = aggr.flatMap (record dev.chipid) ∧
      FrameQueue.Agrees held (run dev l (aicwf_sdio_bus_init mem)).2.tx.txq ∧
      ((flushed.map Prod.snd : List TxPkt) : Multiset TxPkt) ≤ (freed (run dev l (aicwf_sdio_bus_init mem)).1 : Multiset TxPkt) ∧
      (flushed ≠ [] → (run dev l (aicwf_sdio_bus_init mem)).2.bus = .BUS_DOWN_ST) ∧
      ∀ p, PrioQueue.Flow p ((accepted (run dev l (aicwf_sdio_bus_init mem)).1).map entry) ((batches.flatten ++ aggr).map entry)
        (flushed ++ held) := by
  obtain ⟨a, hag, batches, flushed, hacc⟩ := run_account dev mem l hs
  refine ⟨batches, a.aggr, flushed, a.held, hacc.bus, hag.bytes, hag.txq, hacc.free, fun hne => ?_, hacc.flow⟩
  have hdown := hag.up.symm.trans (hacc.down hne).1
  cases hbus : (run dev l (aicwf_sdio_bus_init mem)).2.bus with
  | BUS_DOWN_ST => rfl
  | BUS_UP_ST =>
    rw [hbus] at hdown
    exact absurd hdown (by decide)

theorem sending_accepted : accepted (run dc sending (aicwf_sdio_bus_init fun _ => 0)).1 = [voice] := rfl

theorem sending_sized : ∀ p ∈ accepted (run dc sending (aicwf_sdio_bus_init fun _ => 0)).1, p.Sized := by
  rw [sending_accepted]
  intro p hp
  rw [List.mem_singleton.1 hp]
  exact (by decide : 3 + 28 ≤ 4092)

theorem tx_delivers_voice : ∃ (batches : List (List TxPkt)) (aggr : List TxPkt) (flushed held : List (Entry TxPkt)),
    (writes (run dc sending (aicwf_sdio_bus_init fun _ => 0)).1).map received =
      batches.map (List.map (body .PRODUCT_ID_AIC8800DC)) ∧
    ∀ p, PrioQueue.Flow p [entry voice] ((batches.flatten ++ aggr).map entry) (flushed ++ held) := by
  obtain ⟨batches, aggr, flushed, held, hw, -, -, -, -, hflow⟩ := tx_delivers dc (fun _ => 0) sending sending_sized
  rw [sending_accepted] at hflow
  exact ⟨batches, aggr, flushed, held, hw, hflow⟩

/-- a packet that waits when the bus goes down -/
example : freed (run dc [.txdata voice, .stop, .flush] (aicwf_sdio_bus_init fun _ => 0)).1 = [voice] := rfl

/-! ## The free buffers -/

theorem covered_free {c : ℤ} (pkts : List TxPkt) (hrest : Covered c fs) : Covered c (pkts.map .free ++ fs) := by
  induction pkts with
  | nil => exact hrest
  | cons p pkts ih => exact ih

theorem Move.covered (h : Move dev a es b) (ha : Each TxPkt.Sized a) (hrest : Covered b.credit fs) : Covered a.credit (es ++ fs) := by
  cases h with
  | quiet => exact hrest
  | refuse pkt => exact hrest
  | accept pkt hup => exact hrest
  | ask readb h => exact hrest
  | take x hx hc =>
    split
    · exact hrest
    · exact hrest
  | send buf written hne hc hb =>
    have hlen : (received (aicwf_sdio_txpkt (linkTail buf))).length = a.aggr.length := by
      rw [received_wire ha.aggr hb, List.length_map]
    rw [List.singleton_append, Covered, hlen]
    exact ⟨hc, hrest⟩
  | down => exact hrest
  | flush pkts hup hl => exact covered_free pkts hrest

theorem Moves.covered (h : Moves dev a es b) (hs : ∀ p ∈ accepted es, p.Sized) (ha : Each TxPkt.Sized a) : Covered a.credit es := by
  induction h with
  | nil => trivial
  | cons hmove _ ih =>
    obtain ⟨hnow, hlater⟩ := accepted_of_append hs
    exact hmove.covered ha (ih hlater (hmove.each ha hnow))

/-- **The firmware is never sent more than it has room for**: each aggregate has two packets less at most than buffers are
free, by what the last look at the register has found and what was sent since -/
theorem tx_covered (dev : SdioDev) (mem : ℕ → Byte) (l : List Act)
    (hs : ∀ p ∈ accepted (run dev l (aicwf_sdio_bus_init mem)).1, p.Sized) :
    Covered 0 (run dev l (aicwf_sdio_bus_init mem)).1 := by
  obtain ⟨a, hmoves, -⟩ := run_refines (init_agrees dev mem) l
  exact hmoves.covered hs (init_each _)

theorem tx_covered_voice : Covered 0 (run dc sending (aicwf_sdio_bus_init fun _ => 0)).1 :=
  tx_covered dc (fun _ => 0) sending sending_sized

/-! ## The memory of the aggregate -/

def MAX_AGGR_TXPKT_LEN : ℕ := 1536 * 64

theorem fcReg_nonneg (dev : SdioDev) (v : Byte) : 0 ≤ fcReg dev v := Int.natCast_nonneg _

theorem flowCtrl_le (dev : SdioDev) (readb : ℕ → Option Byte) (retries : ℕ) :
    flowCtrl dev readb retries ≤ max dev.tx_aggr_counter 0 := by
  induction retries with
  | zero =>
    rw [flowCtrl]
    split
    · omega
    · rename_i v hv
      have hreg := fcReg_nonneg dev v
      split
      · split <;> omega
      · simp only
        omega
  | succ retries ih =>
    rw [flowCtrl]
    split
    · omega
    · split
      · split <;> omega
      · exact ih

/-- no more buffers are taken for free than `tx_aggr_counter` says, and the aggregate has two packets less -/
structure Capped (dev : SdioDev) (a : Sender) : Prop where
  credit : a.credit ≤ max dev.tx_aggr_counter 0
  aggr_count : a.aggr.length ≤ (dev.tx_aggr_counter - DATA_FLOW_CTRL_THRESH).toNat

theorem init_capped (dev : SdioDev) : Capped dev .init := ⟨le_max_right _ _, by simp [Sender.init]⟩

theorem Move.capped (h : Move dev a es b) (ha : Capped dev a) : Capped dev b := by
  have hcredit := ha.credit
  cases h with
  | quiet => exact ha
  | refuse pkt => exact ha
  | accept pkt hup => exact ⟨hcredit, ha.aggr_count⟩
  | ask readb h => exact ⟨flowCtrl_le dev readb _, ha.aggr_count⟩
  | take x hx hc =>
    refine ⟨hcredit, ?_⟩
    rw [DATA_FLOW_CTRL_THRESH] at *
    rw [List.length_append, List.length_singleton]
    omega
  | send buf written hne hc hb =>
    refine ⟨?_, by simp⟩
    simp only
    omega
  | down => exact ⟨hcredit, ha.aggr_count⟩
  | flush pkts hup hl => exact ⟨hcredit, ha.aggr_count⟩

theorem records_le {R : ℕ} {batch : List TxPkt} (chipid : ChipId) (h : ∀ p ∈ batch, (record chipid p).length ≤ R) :
    (batch.flatMap (record chipid)).length ≤ batch.length * R := by
  rw [List.length_flatMap]
  calc (batch.map fun p => (record chipid p).length).sum ≤ (batch.map fun p => (record chipid p).length).length • R :=
        List.sum_le_card_nsmul _ _ (by simpa using h)
    _ = batch.length * R := by rw [List.length_map, smul_eq_mul]

theorem txpkt_length (b : AggrBuf) : (aicwf_sdio_txpkt (linkTail b)).length ≤ b.tail + 516 := by
  have htail : (linkTail b).tail ≤ b.tail + 4 := by
    rw [linkTail]
    split
    · rw [AggrBuf.put, List.length_replicate, TAIL_LEN]
    · omega
  rw [aicwf_sdio_txpkt, List.length_map, List.length_range]
  simp only [SDIOWIFI_FUNC_BLOCKSIZE]
  omega

section

variable {R : ℕ} (hfit : (dev.tx_aggr_counter - DATA_FLOW_CTRL_THRESH).toNat * R + 516 ≤ MAX_AGGR_TXPKT_LEN)

include hfit

/-- the bytes of the aggregate, with the link tail and the rest of a block behind them, have room -/
theorem Capped.bytes (hc : Capped dev a) (ha : ∀ p ∈ a.aggr, (record dev.chipid p).length ≤ R) :
    (a.aggr.flatMap (record dev.chipid)).length + 516 ≤ MAX_AGGR_TXPKT_LEN :=
  calc (a.aggr.flatMap (record dev.chipid)).length + 516 ≤ a.aggr.length * R + 516 :=
        Nat.add_le_add_right (records_le dev.chipid ha) 516
    _ ≤ (dev.tx_aggr_counter - DATA_FLOW_CTRL_THRESH).toNat * R + 516 :=
        Nat.add_le_add_right (Nat.mul_le_mul_right R hc.aggr_count) 516
    _ ≤ MAX_AGGR_TXPKT_LEN := hfit

theorem Move.writes_fit (h : Move dev a es b) (hcap : Capped dev a) (ha : ∀ p ∈ a.aggr, (record dev.chipid p).length ≤ R) :
    ∀ w ∈ writes es, w.length ≤ MAX_AGGR_TXPKT_LEN := by
  cases h with
  | quiet => simp [writes]
  | refuse pkt => simp [writes]
  | accept pkt hup => simp [writes]
  | ask readb h => simp [writes]
  | take x hx hc => split <;> simp [writes]
  | send buf written hne hc hb =>
    intro w hw
    have hbytes := hcap.bytes hfit ha
    rw [← hb, AggrBuf.bytes_length] at hbytes
    rw [List.mem_singleton.1 hw]
    exact le_trans (txpkt_length buf) hbytes
  | down => simp [writes]
  | flush pkts hup hl => simp

theorem Moves.fits (h : Moves dev a es b) (hcap : Capped dev a) (ha : Each (fun p => (record dev.chipid p).length ≤ R) a)
    (hR : ∀ p ∈ accepted es, (record dev.chipid p).length ≤ R) :
    (b.aggr.flatMap (record dev.chipid)).length + 516 ≤ MAX_AGGR_TXPKT_LEN ∧ ∀ w ∈ writes es, w.length ≤ MAX_AGGR_TXPKT_LEN := by
  induction h with
  | nil => exact ⟨hcap.bytes hfit ha.aggr, by simp [writes]⟩
  | cons hmove _ ih =>
    obtain ⟨hnow, hlater⟩ := accepted_of_append hR
    obtain ⟨hend, hrest⟩ := ih (hmove.capped hcap) (hmove.each ha hnow) hlater
    refine ⟨hend, fun w hw => ?_⟩
    rw [writes_append, List.mem_append] at hw
    exact hw.elim (hmove.writes_fit hfit hcap ha.aggr w) (hrest w)

end

/-- **The aggregate stays within its memory**, and so does what is handed to the bus, when so many of the largest packets do
as `tx_aggr_counter` lets into one -/
theorem tx_fits (dev : SdioDev) (mem : ℕ → Byte) (l : List Act) {R : ℕ}
    (hR : ∀ p ∈ accepted (run dev l (aicwf_sdio_bus_init mem)).1, (record dev.chipid p).length ≤ R)
    (hfit : (dev.tx_aggr_counter - DATA_FLOW_CTRL_THRESH).toNat * R + 516 ≤ MAX_AGGR_TXPKT_LEN) :
    (run dev l (aicwf_sdio_bus_init mem)).2.tx.aggr_buf.tail ≤ MAX_AGGR_TXPKT_LEN ∧
      ∀ w ∈ writes (run dev l (aicwf_sdio_bus_init mem)).1, w.length ≤ MAX_AGGR_TXPKT_LEN := by
  obtain ⟨a, hmoves, hag⟩ := run_refines (init_agrees dev mem) l
  obtain ⟨hbytes, hw⟩ := hmoves.fits hfit (init_capped dev) (init_each _) hR
  rw [← hag.bytes, AggrBuf.bytes_length] at hbytes
  exact ⟨le_trans (Nat.le_add_right _ 516) hbytes, hw⟩

/-- with `tx_aggr_counter` as it is by default -/
theorem tx_fits_voice : (run dc sending (aicwf_sdio_bus_init fun _ => 0)).2.tx.aggr_buf.tail ≤ MAX_AGGR_TXPKT_LEN := by
  have hR : ∀ p ∈ accepted (run dc sending (aicwf_sdio_bus_init fun _ => 0)).1, (record dc.chipid p).length ≤ 1552 := by
    rw [sending_accepted]
    intro p hp
    rw [List.mem_singleton.1 hp]
    decide
  exact (tx_fits dc (fun _ => 0) sending hR (by decide)).1

/-! ## Nobody waits for ever -/

/-- a step in which the device is awake and the command at hand, if any, is got rid of -/
def Act.Good : Act → Prop
  | .thread e => e.active = true ∧ e.msg = true
  | _ => True

/-- somebody is about to wake the thread -/
def Sys.Woken (s : Sys) : Prop := 0 < s.bustx_trgg + s.owed

/-- there is something to send -/
def Sys.Busy (s : Sys) : Prop := 0 < s.tx.tx_pktcnt ∨ s.tx.cmd_txstate = true

/-- the thread is past the part that sends the command -/
def Pc.late : Pc → Bool
  | .wait => false
  | .cmd => false
  | _ => true

structure Wakeful (s : Sys) : Prop where
  wait : s.bus = .BUS_UP_ST → s.pc = .wait → s.Busy → s.Woken
  late : s.bus = .BUS_UP_ST → s.pc.late = true → s.tx.cmd_txstate = true → s.Woken
  now : s.pc = .send true ∨ s.pc = .count true → s.tx.cmd_txstate = true

theorem init_wakeful (mem : ℕ → Byte) : Wakeful (aicwf_sdio_bus_init mem) :=
  ⟨fun _ _ h => by simp [Sys.Busy, aicwf_sdio_bus_init] at h, fun _ _ h => by simp [aicwf_sdio_bus_init] at h,
    fun h => by simp [aicwf_sdio_bus_init] at h⟩

theorem not_down (hup : s.bus = .BUS_UP_ST) : s.bus ≠ .BUS_DOWN_ST := by simp [hup]

theorem pktcnt_of_empty (hag : Agrees dev a s) (hup : s.bus = .BUS_UP_ST) (hz : aicwf_is_framequeue_empty s.tx.txq = true) :
    s.tx.tx_pktcnt = 0 := by
  rw [empty_agrees hag.txq] at hz
  rw [hag.tx_pktcnt hup, List.isEmpty_iff.1 hz]
  rfl

/-- a state in which the bus is down, or the thread is not past the command part, with nothing to do where it waits -/
theorem wakeful_early (hlate : s.pc.late = false) (h : s.bus = .BUS_UP_ST → s.pc = .wait → s.Busy → s.Woken) : Wakeful s := by
  refine ⟨h, fun _ hl _ => ?_, fun hn => ?_⟩
  · rw [hlate] at hl
    exact absurd hl (by decide)
  · obtain hn | hn := hn <;> rw [hn] at hlate <;> exact absurd hlate (by decide)

/-- what the thread changes late does not touch the signals -/
structure SameSignals (s t : Sys) : Prop where
  bus : t.bus = s.bus
  woken : t.Woken ↔ s.Woken
  cmd : t.tx.cmd_txstate = s.tx.cmd_txstate

theorem Wakeful.afterSend (h : Wakeful s) (hlate : s.pc.late = true) {txnow : Bool} (hnow : txnow = true → s.tx.cmd_txstate = true)
    {t : Sys} (ht : SameSignals s t) : Wakeful (afterSend txnow t) := by
  have hwoken : s.bus = .BUS_UP_ST → s.tx.cmd_txstate = true → t.Woken := fun hup hc => ht.woken.2 (h.late hup hlate hc)
  cases txnow
  · refine ⟨fun _ hw => absurd hw (by simp [SdioTx.afterSend]), fun hup _ hc => ?_, fun hn => by simp [SdioTx.afterSend] at hn⟩
    exact hwoken (ht.bus ▸ hup) (ht.cmd ▸ hc)
  · apply wakeful_early rfl
    intro hup _ _
    exact hwoken (ht.bus ▸ hup) (hnow rfl)

theorem wait_wakeful (h : Wakeful s) (hpc : s.pc = .wait) : Wakeful (thread dev s e).2 := by
  simp only [thread, hpc]
  split
  · exact h
  · split
    · rename_i hdown
      exact wakeful_early rfl fun hup => absurd hdown (not_down hup)
    · split
      · exact wakeful_early rfl fun _ hw => absurd hw (by simp)
      · rename_i hidle
        exact wakeful_early rfl fun _ _ hb => absurd hb hidle

theorem cmd_wakeful (hpc : s.pc = .cmd) (he : e.active = true) (hm : e.msg = true) : Wakeful (thread dev s e).2 := by
  simp only [thread, hpc, he, hm, Bool.true_eq_false, if_false]
  split
  · rename_i hdown
    exact wakeful_early rfl fun hup => absurd hdown (not_down hup)
  · split
    · exact ⟨fun _ hw => absurd hw (by simp), fun _ _ hc => by simp at hc, fun hn => by simp at hn⟩
    · rename_i hc
      exact ⟨fun _ hw => absurd hw (by simp), fun _ _ hc' => absurd hc' hc, fun hn => by simp at hn⟩

theorem data_wakeful (h : Wakeful s) (hpc : s.pc = .data) (he : e.active = true) : Wakeful (thread dev s e).2 := by
  have hlate : s.bus = .BUS_UP_ST → s.tx.cmd_txstate = true → s.Woken := fun hup => h.late hup (by rw [hpc]; rfl)
  simp only [thread, hpc, he, Bool.true_eq_false, if_false]
  split <;> exact ⟨fun _ hw => absurd hw (by simp [askFlow]), fun hup _ => hlate hup, fun hn => by simp [askFlow] at hn⟩

theorem loop_wakeful (hag : Agrees dev a s) (h : Wakeful s) (hpc : s.pc = .loop) : Wakeful (thread dev s e).2 := by
  have hlate : s.bus = .BUS_UP_ST → s.tx.cmd_txstate = true → s.Woken := fun hup => h.late hup (by rw [hpc]; rfl)
  simp only [thread, hpc]
  split
  · rename_i hz
    apply wakeful_early rfl
    intro hup _ hb
    have hcnt := pktcnt_of_empty hag hup hz
    obtain hb | hc := hb
    · simp [hcnt] at hb
    · exact hlate hup hc
  · split
    · rename_i hdown
      exact wakeful_early rfl fun hup => absurd hdown (not_down hup)
    · split
      · split
        · rename_i hc
          exact wakeful_early rfl fun hup _ _ => hlate hup hc
        · exact ⟨fun _ hw => absurd hw (by simp [askFlow]), fun hup _ => hlate hup, fun hn => by simp [askFlow] at hn⟩
      · refine ⟨fun _ hw => absurd hw (by simp), fun hup _ => hlate hup, fun hn => ?_⟩
        simpa using hn

theorem aggrSend_signals (s : Sys) (e : Env) : SameSignals s (aggrSend s e).2 := ⟨rfl, Iff.rfl, rfl⟩

theorem send_wakeful (h : Wakeful s) {txnow : Bool} (hpc : s.pc = .send txnow) : Wakeful (thread dev s e).2 := by
  have hlate : s.pc.late = true := by rw [hpc]; rfl
  have hnow : txnow = true → s.tx.cmd_txstate = true := fun ht => h.now (.inl (by rw [hpc, ht]))
  have hsame : SameSignals s s := ⟨rfl, Iff.rfl, rfl⟩
  simp only [thread, hpc, sendPkt]
  split
  · apply h.afterSend hlate hnow
    split
    · exact ⟨rfl, Iff.rfl, rfl⟩
    · exact hsame
  · split
    · split
      · exact h.afterSend hlate hnow (aggrSend_signals s e)
      · exact h.afterSend hlate hnow hsame
    · split
      · exact h.afterSend hlate hnow ⟨rfl, Iff.rfl, rfl⟩
      · refine ⟨fun _ hw => absurd hw (by simp), fun hup _ => h.late hup hlate, fun hn => hnow ?_⟩
        simpa using hn

theorem count_wakeful (h : Wakeful s) {txnow : Bool} (hpc : s.pc = .count txnow) : Wakeful (thread dev s e).2 := by
  have hlate : s.pc.late = true := by rw [hpc]; rfl
  have hnow : txnow = true → s.tx.cmd_txstate = true := fun ht => h.now (.inr (by rw [hpc, ht]))
  simp only [thread, hpc, sendCount]
  split
  · exact h.afterSend hlate hnow (aggrSend_signals s e)
  · exact h.afterSend hlate hnow ⟨rfl, Iff.rfl, rfl⟩

theorem thread_wakeful (hag : Agrees dev a s) (h : Wakeful s) (he : e.active = true) (hm : e.msg = true) :
    Wakeful (thread dev s e).2 := by
  cases hpc : s.pc with
  | wait => exact wait_wakeful h hpc
  | cmd => exact cmd_wakeful hpc he hm
  | data => exact data_wakeful h hpc he
  | loop => exact loop_wakeful hag h hpc
  | send txnow => exact send_wakeful h hpc
  | count txnow => exact count_wakeful h hpc

/-- **No step loses a wake-up**: whoever brings work is about to wake the thread, and the thread looks before it waits -/
theorem step_wakeful (hag : Agrees dev a s) (h : Wakeful s) {act : Act} (hact : act.Good) : Wakeful (step dev s act).2 := by
  cases act with
  | txdata pkt =>
    simp only [step, aicwf_sdio_bus_txdata]
    split
    · exact h
    · split
      · exact h
      · exact ⟨fun _ _ _ => Nat.succ_pos _, fun _ _ _ => Nat.succ_pos _, h.now⟩
  | txmsg =>
    rw [step, aicwf_sdio_bus_txmsg]
    split
    · rename_i hdown
      exact ⟨fun hup => absurd hup hdown, fun hup => absurd hup hdown, fun _ => rfl⟩
    · exact ⟨fun _ _ _ => Nat.succ_pos _, fun _ _ _ => Nat.succ_pos _, fun _ => rfl⟩
  | complete =>
    rw [step]
    split
    · exact h
    · exact ⟨fun _ _ _ => by simp [Sys.Woken], fun _ _ _ => by simp [Sys.Woken], h.now⟩
  | stop => exact ⟨fun hup => absurd hup (by simp [step]), fun hup => absurd hup (by simp [step]), h.now⟩
  | flush =>
    rw [step, busFlush]
    split
    · exact h
    · exact ⟨h.wait, h.late, h.now⟩
  | thread e => exact thread_wakeful hag h hact.1 hact.2

theorem run_wakeful (hag : Agrees dev a s) (h : Wakeful s) (hl : ∀ act ∈ l, act.Good) : Wakeful (run dev l s).2 := by
  induction l generalizing a s with
  | nil => exact h
  | cons act l ih =>
    obtain ⟨b, -, hb⟩ := step_refines hag act
    exact ih hb (step_wakeful hag h (hl act List.mem_cons_self)) fun x hx => hl x (List.mem_cons_of_mem act hx)

/-- **The thread never waits with work left and nobody about to wake it**, while the device is awake and takes the commands -/
theorem tx_wakes (dev : SdioDev) (mem : ℕ → Byte) {l : List Act} (hl : ∀ act ∈ l, act.Good) :
    (run dev l (aicwf_sdio_bus_init mem)).2.bus = .BUS_UP_ST → (run dev l (aicwf_sdio_bus_init mem)).2.pc = .wait →
      (run dev l (aicwf_sdio_bus_init mem)).2.Busy → (run dev l (aicwf_sdio_bus_init mem)).2.Woken :=
  (run_wakeful (init_agrees dev mem) (init_wakeful mem) hl).wait

/-- the packet waits, and its caller has not called `complete` yet -/
theorem tx_wakes_voice : (run dc [.txdata voice] (aicwf_sdio_bus_init fun _ => 0)).2.Woken :=
  tx_wakes dc (fun _ => 0) (by simp [Act.Good]) rfl rfl (.inl (by decide))

/-! ## All is sent -/

/-- a step in which the device is awake, a command is got rid of, and the firmware has buffers free -/
structure Feeds (dev : SdioDev) (e : Env) : Prop where
  active : e.active = true
  msg : e.msg = true
  flow : DATA_FLOW_CTRL_THRESH < aicwf_sdio_flow_ctrl dev e.fc_reg

/-- the thread waits and has nothing to do -/
structure Done (s : Sys) : Prop where
  wait : s.pc = .wait
  tx_pktcnt : s.tx.tx_pktcnt = 0
  cmd : s.tx.cmd_txstate = false

/-- how far the thread is from sending the next packet, or from waiting -/
def place (s : Sys) : ℕ :=
  match s.pc, s.tx.cmd_txstate with
  | .wait, _ => 5
  | .cmd, _ => 4
  | .data, false => 3
  | .loop, false => if s.tx.fw_avail_bufcnt ≤ DATA_FLOW_CTRL_THRESH then 2 else 1
  | .send _, false => 0
  | .count _, false => 3
  | .data, true => 7
  | .loop, true => 6
  | .send true, true => 3
  | .send false, true => 4
  | .count true, true => 6
  | .count false, true => 7

theorem place_le (s : Sys) : place s ≤ 7 := by
  unfold place
  split <;> try split
  all_goals omega

theorem place_loop (s : Sys) (hpc : s.pc = .loop) : place s ≤ if s.tx.cmd_txstate = true then 6 else 2 := by
  cases hc : s.tx.cmd_txstate
  · simp only [place, hpc, hc, Bool.false_eq_true, if_false]
    split <;> omega
  · simp [place, hpc, hc]

/-- a step of the thread brings it nearer -/
structure Nearer (s t : Sys) : Prop where
  bus : t.bus = s.bus
  owed : t.owed = s.owed
  done : Done t ∨ (t.tx.tx_pktcnt = s.tx.tx_pktcnt ∧ place t < place s) ∨
    (t.tx.tx_pktcnt + 1 = s.tx.tx_pktcnt ∧ place t < place s + 4)

theorem pktcnt_nonneg (hag : Agrees dev a s) (hup : s.bus = .BUS_UP_ST) : 0 ≤ s.tx.tx_pktcnt := by
  rw [hag.tx_pktcnt hup]
  exact Int.natCast_nonneg _

theorem done_of_idle (hag : Agrees dev a s) (hup : s.bus = .BUS_UP_ST) (hpc : s.pc = .wait) (h : ¬ s.Busy) : Done s := by
  rw [Sys.Busy, not_or] at h
  have hpos := pktcnt_nonneg hag hup
  exact ⟨hpc, by omega, by simpa using h.2⟩

theorem wait_nearer (hag : Agrees dev a s) (h : Wakeful s) (hup : s.bus = .BUS_UP_ST) (howed : s.owed = 0)
    (hpc : s.pc = .wait) : Nearer s (thread dev s e).2 := by
  have hplace : place s = 5 := by simp [place, hpc]
  simp only [thread, hpc]
  split
  · rename_i hnone
    refine ⟨rfl, rfl, .inl (done_of_idle hag hup hpc fun hb => ?_)⟩
    have hw := h.wait hup hpc hb
    rw [Sys.Woken, hnone, howed] at hw
    exact absurd hw (by decide)
  · split
    · rename_i hdown
      exact absurd hdown (not_down hup)
    · split
      · refine ⟨rfl, rfl, .inr (.inl ⟨rfl, ?_⟩)⟩
        rw [hplace]
        simp [place]
      · rename_i hidle
        have hd := done_of_idle hag hup hpc hidle
        exact ⟨rfl, rfl, .inl ⟨rfl, hd.tx_pktcnt, hd.cmd⟩⟩

theorem cmd_nearer (hup : s.bus = .BUS_UP_ST) (he : Feeds dev e) (hpc : s.pc = .cmd) : Nearer s (thread dev s e).2 := by
  have hplace : place s = 4 := by simp [place, hpc]
  simp only [thread, hpc, he.active, he.msg, Bool.true_eq_false, if_false]
  split
  · rename_i hdown
    exact absurd hdown (not_down hup)
  · split
    · exact ⟨rfl, rfl, .inr (.inl ⟨rfl, by rw [hplace]; simp [place]⟩)⟩
    · rename_i hc
      have hc : s.tx.cmd_txstate = false := by simpa using hc
      exact ⟨rfl, rfl, .inr (.inl ⟨rfl, by rw [hplace]; simp [place, hc]⟩)⟩

/-- after the register was read there are buffers free -/
theorem askFlow_place (he : Feeds dev e) : place (askFlow dev s e).2 = if s.tx.cmd_txstate = true then 6 else 1 := by
  have hflow := he.flow
  cases hc : s.tx.cmd_txstate
  · simp [place, askFlow, hc, not_le.2 hflow]
  · simp [place, askFlow, hc]

theorem data_nearer (he : Feeds dev e) (hpc : s.pc = .data) : Nearer s (thread dev s e).2 := by
  have hplace : place s = if s.tx.cmd_txstate = true then 7 else 3 := by
    cases hc : s.tx.cmd_txstate <;> simp [place, hpc, hc]
  simp only [thread, hpc, he.active, Bool.true_eq_false, if_false]
  split
  · refine ⟨rfl, rfl, .inr (.inl ⟨rfl, ?_⟩)⟩
    rw [askFlow_place he, hplace]
    split <;> omega
  · refine ⟨rfl, rfl, .inr (.inl ⟨rfl, ?_⟩)⟩
    have hloop := place_loop { s with pc := .loop } rfl
    rw [hplace]
    exact lt_of_le_of_lt hloop (by split <;> decide)

theorem loop_nearer (hag : Agrees dev a s) (hup : s.bus = .BUS_UP_ST) (he : Feeds dev e) (hpc : s.pc = .loop) :
    Nearer s (thread dev s e).2 := by
  simp only [thread, hpc]
  split
  · rename_i hz
    have hcnt := pktcnt_of_empty hag hup hz
    refine ⟨rfl, rfl, ?_⟩
    cases hc : s.tx.cmd_txstate
    · exact .inl ⟨rfl, hcnt, hc⟩
    · exact .inr (.inl ⟨rfl, by simp [place, hpc, hc]⟩)
  · split
    · rename_i hdown
      exact absurd hdown (not_down hup)
    · split
      · rename_i hfew
        split
        · rename_i hc
          exact ⟨rfl, rfl, .inr (.inl ⟨rfl, by simp [place, hpc, hc]⟩)⟩
        · rename_i hc
          have hc : s.tx.cmd_txstate = false := by simpa using hc
          refine ⟨rfl, rfl, .inr (.inl ⟨rfl, ?_⟩)⟩
          rw [askFlow_place he]
          simp [place, hpc, hc, hfew]
      · rename_i hmany
        refine ⟨rfl, rfl, .inr (.inl ⟨rfl, ?_⟩)⟩
        cases hc : s.tx.cmd_txstate <;> simp [place, hpc, hc, hmany]

theorem send_nearer (hag : Agrees dev a s) (h : Wakeful s) {txnow : Bool} (hpc : s.pc = .send txnow) :
    Nearer s (thread dev s e).2 := by
  obtain ⟨x, -, hstep⟩ := send_eq (e := e) hag hpc
  rw [hstep]
  refine ⟨rfl, rfl, .inr (.inr ⟨by simp, ?_⟩)⟩
  cases txnow
  · cases hc : s.tx.cmd_txstate <;> simp [place, hpc, hc]
  · have hc := h.now (.inl hpc)
    simp [place, hpc, hc]

theorem count_nearer (h : Wakeful s) {txnow : Bool} (hpc : s.pc = .count txnow) : Nearer s (thread dev s e).2 := by
  have hafter : ∀ t : Sys, t.tx.cmd_txstate = s.tx.cmd_txstate → place (afterSend txnow t) < place s := by
    intro t ht
    cases txnow
    · have hloop := place_loop (afterSend false t) rfl
      have hcmd : (afterSend false t).tx.cmd_txstate = s.tx.cmd_txstate := ht
      rw [hcmd] at hloop
      cases hc : s.tx.cmd_txstate <;> simp [hc] at hloop <;> simp [place, hpc, hc] <;> simp [place] at hloop <;> omega
    · have hc := h.now (.inr hpc)
      simp [place, hpc, hc, afterSend]
  simp only [thread, hpc, sendCount]
  split
  · exact ⟨rfl, rfl, .inr (.inl ⟨rfl, hafter _ rfl⟩)⟩
  · exact ⟨rfl, rfl, .inr (.inl ⟨rfl, hafter _ rfl⟩)⟩

theorem thread_nearer (hag : Agrees dev a s) (h : Wakeful s) (hup : s.bus = .BUS_UP_ST) (howed : s.owed = 0) (he : Feeds dev e) :
    Nearer s (thread dev s e).2 := by
  cases hpc : s.pc with
  | wait => exact wait_nearer hag h hup howed hpc
  | cmd => exact cmd_nearer hup he hpc
  | data => exact data_nearer he hpc
  | loop => exact loop_nearer hag hup he hpc
  | send txnow => exact send_nearer hag h hpc
  | count txnow => exact count_nearer h hpc

/-- the steps it takes at most until all is sent -/
def rank (s : Sys) : ℕ := 4 * s.tx.tx_pktcnt.toNat + place s

theorem Nearer.rank (hag : Agrees dev a s) (hup : s.bus = .BUS_UP_ST) {t : Sys} (ht : Agrees dev b t) (h : Nearer s t) :
    Done t ∨ rank t < rank s := by
  have hs := pktcnt_nonneg hag hup
  have ht := pktcnt_nonneg ht (h.bus.trans hup)
  obtain hd | ⟨hcnt, hlt⟩ | ⟨hcnt, hlt⟩ := h.done
  · exact .inl hd
  · right
    rw [SdioTx.rank, SdioTx.rank, hcnt]
    omega
  · right
    rw [SdioTx.rank, SdioTx.rank]
    omega

theorem wait_done (h : Done s) : Done (thread dev s e).2 := by
  have hidle : ¬ (0 < s.tx.tx_pktcnt ∨ s.tx.cmd_txstate = true) := by simp [h.tx_pktcnt, h.cmd]
  simp only [thread, h.wait, if_neg hidle]
  split
  · exact h
  · split <;> exact ⟨rfl, h.tx_pktcnt, h.cmd⟩

/-- **Fed by the firmware, the thread gets done** within the steps that its rank says -/
theorem threads_done {envs : List Env} (hag : Agrees dev a s) (h : Wakeful s) (hup : s.bus = .BUS_UP_ST) (howed : s.owed = 0)
    (he : ∀ e ∈ envs, Feeds dev e) (hn : Done s ∨ rank s < envs.length) :
    Done (run dev (envs.map .thread) s).2 ∧ (run dev (envs.map .thread) s).2.bus = .BUS_UP_ST := by
  induction envs generalizing a s with
  | nil => exact ⟨hn.resolve_right (by simp), hup⟩
  | cons e envs ih =>
    have hfeed := he e List.mem_cons_self
    obtain ⟨b, -, hb⟩ := step_refines hag (.thread e)
    have hnear := thread_nearer hag h hup howed hfeed
    apply ih hb (thread_wakeful hag h hfeed.active hfeed.msg) (hnear.bus.trans hup) (hnear.owed.trans howed)
      fun x hx => he x (List.mem_cons_of_mem e hx)
    obtain hd | hlt := hn
    · exact .inl (wait_done hd)
    · obtain hd | hr := hnear.rank hag hup hb
      · exact .inl hd
      · right
        rw [List.length_cons] at hlt
        exact lt_of_lt_of_le hr (Nat.le_of_lt_succ hlt)

theorem run_append (dev : SdioDev) (l k : List Act) (s : Sys) :
    run dev (l ++ k) s = ((run dev l s).1 ++ (run dev k (run dev l s).2).1, (run dev k (run dev l s).2).2) := by
  induction l generalizing s with
  | nil => rfl
  | cons act l ih =>
    rw [List.cons_append, run, ih]
    simp only [run, List.append_assoc]

theorem done_agrees (hag : Agrees dev a s) (h : Done s) (hup : s.bus = .BUS_UP_ST) : a.held = [] ∧ a.aggr = [] := by
  have hroom := hag.room
  rw [h.wait] at hroom
  refine ⟨List.length_eq_zero_iff.1 ?_, hroom hup⟩
  have hcnt := hag.tx_pktcnt hup
  rw [h.tx_pktcnt] at hcnt
  exact_mod_cast hcnt.symm

/-- the steps with which the thread sends all that waits after the run -/
def enough (dev : SdioDev) (mem : ℕ → Byte) (l : List Act) : ℕ :=
  4 * (run dev l (aicwf_sdio_bus_init mem)).2.tx.tx_pktcnt.toNat + 8

/-- **All that was accepted is sent**, once, within each priority in order, when the firmware has buffers free: after any run
in which the device was awake and took the commands, with the bus up at its end and nobody who still has to wake the thread,
the thread alone gets to where it waits with nothing to do -/
theorem tx_drains (dev : SdioDev) (mem : ℕ → Byte) {l : List Act} {envs : List Env} (hl : ∀ act ∈ l, act.Good)
    (hup : (run dev l (aicwf_sdio_bus_init mem)).2.bus = .BUS_UP_ST) (howed : (run dev l (aicwf_sdio_bus_init mem)).2.owed = 0)
    (he : ∀ e ∈ envs, Feeds dev e) (hn : enough dev mem l ≤ envs.length)
    (hs : ∀ p ∈ accepted (run dev (l ++ envs.map .thread) (aicwf_sdio_bus_init mem)).1, p.Sized) :
    Done (run dev (l ++ envs.map .thread) (aicwf_sdio_bus_init mem)).2 ∧
      ∃ batches : List (List TxPkt),
        (writes (run dev (l ++ envs.map .thread) (aicwf_sdio_bus_init mem)).1).map received =
          batches.map (List.map (body dev.chipid)) ∧
        ∀ p, ofPrio p ((accepted (run dev (l ++ envs.map .thread) (aicwf_sdio_bus_init mem)).1).map entry) =
          ofPrio p (batches.flatten.map entry) := by
  obtain ⟨a, -, hag⟩ := run_refines (init_agrees dev mem) l
  have hwake := run_wakeful (init_agrees dev mem) (init_wakeful mem) hl
  have hrank : rank (run dev l (aicwf_sdio_bus_init mem)).2 < envs.length := by
    have hplace := place_le (run dev l (aicwf_sdio_bus_init mem)).2
    rw [enough] at hn
    rw [rank]
    omega
  have hend := threads_done hag hwake hup howed he (.inr hrank)
  have hsplit : (run dev (l ++ envs.map .thread) (aicwf_sdio_bus_init mem)).2 =
      (run dev (envs.map .thread) (run dev l (aicwf_sdio_bus_init mem)).2).2 := by rw [run_append]
  rw [← hsplit] at hend
  obtain ⟨b, hb, batches, flushed, hacc⟩ := run_account dev mem _ hs
  obtain ⟨hheld, haggr⟩ := done_agrees hb hend.1 hend.2
  have hnone := hacc.unflushed (.inl (hb.up.trans (by rw [hend.2]; rfl)))
  refine ⟨hend.1, batches, hacc.bus, fun p => ?_⟩
  have hp := hacc.flow p
  rw [hheld, haggr, hnone, List.append_nil, List.append_nil, PrioQueue.Flow, ofPrio_nil, List.append_nil] at hp
  exact hp

theorem tx_drains_voice : Done (run dc sending (aicwf_sdio_bus_init fun _ => 0)).2 ∧
    ∃ batches : List (List TxPkt),
      (writes (run dc sending (aicwf_sdio_bus_init fun _ => 0)).1).map received =
        batches.map (List.map (body .PRODUCT_ID_AIC8800DC)) ∧
      ∀ p, ofPrio p [entry voice] = ofPrio p (batches.flatten.map entry) := by
  have hfeeds : ∀ e ∈ List.replicate 12 free, Feeds dc e := by
    intro e he
    rw [List.eq_of_mem_replicate he]
    exact ⟨rfl, rfl, by decide⟩
  exact tx_drains dc (fun _ => 0) (by simp [Act.Good]) rfl rfl hfeeds (by decide) sending_sized

end AvaotaOS.Aic8800.SdioTx
