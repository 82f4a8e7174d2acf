/-
The sending side of the AIC8800 Wi-Fi driver (`aic8800_fdrv/aicwf_sdio.c`): the network stack puts packets into `txq`, commands
are announced in `cmd_txstate`, and `sdio_bustx_thread` writes both to the bus, packets in aggregates no larger than the
buffers the firmware has free.

The parties run next to each other, so a run of the system is a list of their steps in any order. A step is what one party
does under `txqlock` or between two looks at what the others change: the two parts of `aicwf_sdio_bus_txdata`, up to the
unlocking and `complete`; in the thread one `Pc` for each such look; the two parts of `aicwf_sdio_bus_stop`, before and after
it has had `txctl_sema`. Until the bus goes down the semaphore belongs to the thread alone. No signal comes while the driver
waits for it, and nobody starts the bus again.

- `Move`: what the sending side does, said with lists of packets and a number of free buffers.
- `step_refines`: each step of a party is such a move; so are whole runs (`run_refines`).
-/
import AvaotaOS.Aic8800.FrameQueue
import AvaotaOS.Aic8800.SdioFrame

namespace AvaotaOS.Aic8800.SdioTx

open PrioQueue FrameQueue

/-! ## The code -/

def DATA_FLOW_CTRL_THRESH : ℤ := 2

def FLOW_CTRL_RETRY_COUNT : ℕ := 50

def TXQLEN : ℕ := 2048 * 4

inductive BusState where
  | BUS_DOWN_ST
  | BUS_UP_ST
deriving DecidableEq, Repr

/-- what stays as it is: the chip, and the module's parameter -/
structure SdioDev where
  chipid : ChipId
  tx_aggr_counter : ℤ

/-- where `sdio_bustx_thread` is: `wait` for `bustx_trgg`, at the command or the data part of `aicwf_sdio_tx_process`, at the
test of its loop, before the packet is taken out in `aicwf_sdio_send` or before the test that follows; `txnow` is the
argument of the latter -/
inductive Pc where
  | wait
  | cmd
  | data
  | loop
  | send (txnow : Bool)
  | count (txnow : Bool)
deriving DecidableEq, Repr

structure TxPriv where
  fw_avail_bufcnt : ℤ
  cmd_txstate : Bool
  tx_pktcnt : ℤ
  txq : FrameQueue TxPkt
  aggr_buf : AggrBuf

/-- `bustx_trgg` counts the completions nobody has waited for, `owed` the callers that are about to call `complete` -/
structure Sys where
  tx : TxPriv
  bus : BusState
  bustx_trgg : ℕ
  owed : ℕ
  pc : Pc

/-- what `aicwf_sdio_bus_init` makes, on memory that holds anything -/
def aicwf_sdio_bus_init (mem : ℕ → Byte) : Sys :=
  ⟨⟨0, false, 0, aicwf_frame_queue_init 8 TXQLEN, ⟨mem, 0, 0⟩⟩, .BUS_UP_ST, 0, 0, .wait⟩

/-- what happens to packets and on the bus: `txpkt` is a call of `aicwf_sdio_txpkt` with these bytes, and whether they were
written, `flow` what a call of `aicwf_sdio_flow_ctrl` returns, `free` and `consume` the packets that are given back -/
inductive Ev where
  | enq (pkt : TxPkt)
  | free (pkt : TxPkt)
  | consume (pkt : TxPkt)
  | flow (ret : ℤ)
  | txpkt (bytes : List Byte) (written : Bool)

/-- what stands outside in a step of the thread: the device is awake and the semaphore free, `aicwf_sdio_tx_msg` gets rid of
the message, what reads of the flow control register find, `sdio_writesb` succeeds -/
structure Env where
  active : Bool
  msg : Bool
  fc_reg : ℕ → Option Byte
  written : Bool

/-- `fc_reg` after the mask -/
def fcReg (dev : SdioDev) (v : Byte) : ℤ := (if dev.chipid = .PRODUCT_ID_AIC8800D80 then v else v &&& 0x7f).toNat

/-- the loop of `aicwf_sdio_flow_ctrl` with so many retries left; `readb` gives what each read finds, or that it fails -/
def flowCtrl (dev : SdioDev) (readb : ℕ → Option Byte) (retries : ℕ) : ℤ :=
  match readb (FLOW_CTRL_RETRY_COUNT - retries) with
  | none => -1
  | some v =>
    if DATA_FLOW_CTRL_THRESH < fcReg dev v then
      if dev.tx_aggr_counter < fcReg dev v then dev.tx_aggr_counter else fcReg dev v
    else
      match retries with
      | 0 => -fcReg dev v
      | retries + 1 => flowCtrl dev readb retries

def aicwf_sdio_flow_ctrl (dev : SdioDev) (readb : ℕ → Option Byte) : ℤ := flowCtrl dev readb FLOW_CTRL_RETRY_COUNT

def aicwf_sdio_bus_txdata (s : Sys) (pkt : TxPkt) : List Ev × Sys :=
  if s.bus = .BUS_DOWN_ST then ([.free pkt], s)
  else
    let r := aicwf_frame_enq s.tx.txq pkt (pkt.priority &&& 0x7)
    if r.1 = false then ([.free pkt], s)
    else ([.enq pkt], { s with tx := { s.tx with txq := r.2, tx_pktcnt := s.tx.tx_pktcnt + 1 }, owed := s.owed + 1 })

def aicwf_sdio_bus_txmsg (s : Sys) : Sys :=
  let s := { s with tx := { s.tx with cmd_txstate := true } }
  if s.bus ≠ .BUS_UP_ST then s else { s with owed := s.owed + 1 }

def aicwf_sdio_aggr_send (s : Sys) (e : Env) : List Ev × Sys :=
  let b := linkTail s.tx.aggr_buf
  ([.txpkt (aicwf_sdio_txpkt b) (decide (s.bus ≠ .BUS_DOWN_ST) && e.written)],
    { s with tx := { s.tx with aggr_buf := aicwf_sdio_aggrbuf_reset b } })

/-- `fw_avail_bufcnt -= aggr_count`, then `aicwf_sdio_aggr_send` -/
def aggrSend (s : Sys) (e : Env) : List Ev × Sys :=
  aicwf_sdio_aggr_send
    { s with tx := { s.tx with fw_avail_bufcnt := s.tx.fw_avail_bufcnt - s.tx.aggr_buf.aggr_count } } e

/-- where `aicwf_sdio_tx_process` goes after `aicwf_sdio_send` -/
def afterSend (txnow : Bool) (s : Sys) : Sys := { s with pc := if txnow then .wait else .loop }

/-- `aicwf_sdio_send` up to `aicwf_sdio_aggr` -/
def sendPkt (dev : SdioDev) (txnow : Bool) (s : Sys) (e : Env) : List Ev × Sys :=
  let b := s.tx.aggr_buf
  if (b.aggr_count = 0 ∧ b.tail ≠ 0) ∨ (b.aggr_count ≠ 0 ∧ b.tail = 0) then
    ([], afterSend txnow
      (if 0 < b.tail then { s with tx := { s.tx with aggr_buf := aicwf_sdio_aggrbuf_reset b } } else s))
  else if (b.aggr_count : ℤ) = s.tx.fw_avail_bufcnt - DATA_FLOW_CTRL_THRESH then
    if 0 < b.aggr_count then ((aggrSend s e).1, afterSend txnow (aggrSend s e).2) else ([], afterSend txnow s)
  else
    match aicwf_frame_dequeue s.tx.txq with
    | (none, q) => ([], afterSend txnow { s with tx := { s.tx with txq := q } })
    | (some pkt, q) =>
      (if pkt.need_cfm then [] else [.consume pkt],
        { s with
          tx := { s.tx with txq := q, tx_pktcnt := s.tx.tx_pktcnt - 1, aggr_buf := aicwf_sdio_aggr dev.chipid b pkt }
          pc := .count txnow })

/-- the rest of `aicwf_sdio_send` -/
def sendCount (txnow : Bool) (s : Sys) (e : Env) : List Ev × Sys :=
  if s.tx.tx_pktcnt = 0 ∨ txnow = true ∨
      (s.tx.aggr_buf.aggr_count : ℤ) = s.tx.fw_avail_bufcnt - DATA_FLOW_CTRL_THRESH then
    ((aggrSend s e).1, afterSend txnow (aggrSend s e).2)
  else ([], afterSend txnow s)

/-- `fw_avail_bufcnt = aicwf_sdio_flow_ctrl(sdiodev)`, on the way to the loop -/
def askFlow (dev : SdioDev) (s : Sys) (e : Env) : List Ev × Sys :=
  ([.flow (aicwf_sdio_flow_ctrl dev e.fc_reg)],
    { s with tx := { s.tx with fw_avail_bufcnt := aicwf_sdio_flow_ctrl dev e.fc_reg }, pc := .loop })

/-- a step of `sdio_bustx_thread` -/
def thread (dev : SdioDev) (s : Sys) (e : Env) : List Ev × Sys :=
  match s.pc with
  | .wait =>
    if s.bustx_trgg = 0 then ([], s)
    else
      let s := { s with bustx_trgg := s.bustx_trgg - 1 }
      if s.bus = .BUS_DOWN_ST then ([], s)
      else if 0 < s.tx.tx_pktcnt ∨ s.tx.cmd_txstate = true then ([], { s with pc := .cmd }) else ([], s)
  | .cmd =>
    if s.bus = .BUS_DOWN_ST then ([], { s with pc := .wait })
    else if s.tx.cmd_txstate = true then
      if e.active = false then ([], { s with pc := .wait })
      else ([], { s with tx := { s.tx with cmd_txstate := !e.msg }, pc := .data })
    else ([], { s with pc := .data })
  | .data =>
    if e.active = false then ([], { s with pc := .wait })
    else if aicwf_is_framequeue_empty s.tx.txq = false then askFlow dev s e
    else ([], { s with pc := .loop })
  | .loop =>
    if aicwf_is_framequeue_empty s.tx.txq = true then ([], { s with pc := .wait })
    else if s.bus = .BUS_DOWN_ST then ([], { s with pc := .wait })
    else if s.tx.fw_avail_bufcnt ≤ DATA_FLOW_CTRL_THRESH then
      if s.tx.cmd_txstate = true then ([], { s with pc := .wait }) else askFlow dev s e
    else ([], { s with pc := .send s.tx.cmd_txstate })
  | .send txnow => sendPkt dev txnow s e
  | .count txnow => sendCount txnow s e

/-- the thread is where it holds `txctl_sema` and looks at the bus no more before it writes -/
def Pc.sends : Pc → Bool
  | .send _ => true
  | .count _ => true
  | _ => false

/-- the end of `aicwf_sdio_bus_stop`, after it has had `txctl_sema`; `tx_pktcnt` stays as it is -/
def busFlush (s : Sys) : List Ev × Sys :=
  if s.bus = .BUS_UP_ST ∨ s.pc.sends = true then ([], s)
  else
    ((aicwf_frame_queue_flush s.tx.txq).1.map .free,
      { s with tx := { s.tx with txq := (aicwf_frame_queue_flush s.tx.txq).2 } })

/-- a step of a party: `complete` is the end of a call of `aicwf_sdio_bus_txdata` or `aicwf_sdio_bus_txmsg`; `stop` and `flush`
are the parts of `aicwf_sdio_bus_stop` -/
inductive Act where
  | txdata (pkt : TxPkt)
  | txmsg
  | complete
  | stop
  | flush
  | thread (e : Env)

def step (dev : SdioDev) (s : Sys) : Act → List Ev × Sys
  | .txdata pkt => aicwf_sdio_bus_txdata s pkt
  | .txmsg => ([], aicwf_sdio_bus_txmsg s)
  | .complete => if s.owed = 0 then ([], s) else ([], { s with owed := s.owed - 1, bustx_trgg := s.bustx_trgg + 1 })
  | .stop => ([], { s with bus := .BUS_DOWN_ST })
  | .flush => busFlush s
  | .thread e => thread dev s e

def run (dev : SdioDev) : List Act → Sys → List Ev × Sys
  | [], s => ([], s)
  | a :: l, s => ((step dev s a).1 ++ (run dev l (step dev s a).2).1, (run dev l (step dev s a).2).2)

/-! ## The sender it stands for -/

/-- the packets that wait, those in the aggregate, the free buffers of the firmware as far as known, and whether the bus is up -/
structure Sender where
  held : List (Entry TxPkt)
  aggr : List TxPkt
  credit : ℤ
  up : Bool

def Sender.init : Sender := ⟨[], [], 0, true⟩

/-- the priority a packet is queued with -/
def entry (pkt : TxPkt) : Entry TxPkt := (pkt.priority &&& 0x7, pkt)

/-- what the sender does: a packet is accepted or refused; it asks for free buffers while the aggregate is empty; it takes
the next packet only while more than two buffers are left beside those for the aggregate; it sends an aggregate; and when the
bus has gone down it frees what waits -/
inductive Move (dev : SdioDev) : Sender → List Ev → Sender → Prop where
  | quiet (a) : Move dev a [] a
  | refuse (a) (pkt) : Move dev a [.free pkt] a
  | accept (a) (pkt) (h : a.up = true) : Move dev a [.enq pkt] { a with held := a.held ++ [entry pkt] }
  | ask (a) (readb) (h : a.aggr = []) :
    Move dev a [.flow (aicwf_sdio_flow_ctrl dev readb)] { a with credit := aicwf_sdio_flow_ctrl dev readb }
  | take (a) (x) (hx : next a.held = some x) (hc : a.aggr.length + DATA_FLOW_CTRL_THRESH < a.credit) :
    Move dev a (if x.2.need_cfm then [] else [.consume x.2]) ⟨rest a.held, a.aggr ++ [x.2], a.credit, a.up⟩
  | send (a) (b) (written) (hne : a.aggr ≠ []) (hc : a.aggr.length + DATA_FLOW_CTRL_THRESH ≤ a.credit)
      (hb : b.bytes = a.aggr.flatMap (record dev.chipid)) :
    Move dev a [.txpkt (aicwf_sdio_txpkt (linkTail b)) written] ⟨a.held, [], a.credit - a.aggr.length, a.up⟩
  | down (a) : Move dev a [] { a with up := false }
  | flush (a) (l) (h : a.up = false) (hl : List.Perm l (a.held.map Prod.snd)) : Move dev a (l.map .free) { a with held := [] }

inductive Moves (dev : SdioDev) : Sender → List Ev → Sender → Prop where
  | nil (a) : Moves dev a [] a
  | cons {a b c es fs} : Move dev a es b → Moves dev b fs c → Moves dev a (es ++ fs) c

/-- what the place of the thread says about the aggregate: there is room for its packets, with two buffers more -/
def Room (a : Sender) (bus : BusState) : Pc → Prop
  | .wait => bus = .BUS_UP_ST → a.aggr = []
  | .cmd => a.aggr = []
  | .data => a.aggr = []
  | .loop => a.aggr = [] ∨ (a.aggr.length + DATA_FLOW_CTRL_THRESH < a.credit ∧ (bus = .BUS_UP_ST → a.held ≠ []))
  | .send _ => a.aggr.length + DATA_FLOW_CTRL_THRESH < a.credit ∧ a.held ≠ []
  | .count _ => a.aggr ≠ [] ∧ a.aggr.length + DATA_FLOW_CTRL_THRESH ≤ a.credit

/-- the state of the system is that of the sender -/
structure Agrees (dev : SdioDev) (a : Sender) (s : Sys) : Prop where
  txq : FrameQueue.Agrees a.held s.tx.txq
  num_prio : s.tx.txq.num_prio = 8 ∧ ∀ x ∈ a.held, x.1 < 8
  tx_pktcnt : s.bus = .BUS_UP_ST → s.tx.tx_pktcnt = a.held.length
  aggr_count : s.tx.aggr_buf.aggr_count = a.aggr.length
  bytes : s.tx.aggr_buf.bytes = a.aggr.flatMap (record dev.chipid)
  credit : s.tx.fw_avail_bufcnt = a.credit
  up : a.up = decide (s.bus = .BUS_UP_ST)
  room : Room a s.bus s.pc

variable {dev : SdioDev} {a : Sender} {s : Sys} {e : Env}

theorem init_agrees (dev : SdioDev) (mem : ℕ → Byte) : Agrees dev .init (aicwf_sdio_bus_init mem) :=
  ⟨FrameQueue.init_agrees 8 TXQLEN, ⟨rfl, by simp [Sender.init]⟩, fun _ => rfl, rfl, rfl, rfl, rfl, fun _ => rfl⟩

theorem bus_up (h : s.bus ≠ .BUS_DOWN_ST) : s.bus = .BUS_UP_ST := by
  cases hb : s.bus
  · exact absurd hb h
  · rfl

/-! ## The buffer of the aggregate -/

theorem records_length (chipid : ChipId) (l : List TxPkt) :
    (l.flatMap (record chipid)).length % 4 = 0 ∧ 32 * l.length ≤ (l.flatMap (record chipid)).length := by
  induction l with
  | nil => exact ⟨rfl, le_refl 0⟩
  | cons p l ih =>
    have hp := padding_length p
    rw [List.flatMap_cons, List.length_append, record_length, List.length_cons]
    omega

theorem aggr_tail (h : Agrees dev a s) :
    s.tx.aggr_buf.tail % 4 = 0 ∧ (s.tx.aggr_buf.tail = 0 ↔ s.tx.aggr_buf.aggr_count = 0) := by
  have hlen := records_length dev.chipid a.aggr
  rw [← h.bytes, AggrBuf.bytes_length, ← h.aggr_count] at hlen
  refine ⟨hlen.1, ?_, fun hz => ?_⟩
  · omega
  · have hnil : a.aggr = [] := List.length_eq_zero_iff.1 (h.aggr_count ▸ hz)
    rw [← AggrBuf.bytes_length, h.bytes, hnil]
    rfl

theorem aggr_count_succ (chipid : ChipId) (b : AggrBuf) (pkt : TxPkt) :
    (aicwf_sdio_aggr chipid b pkt).aggr_count = b.aggr_count + 1 := by
  rw [aggr_eq]
  exact congrArg (· + 1) (filled_count chipid b pkt)

/-! ## One step -/

theorem txdata_refines (h : Agrees dev a s) (pkt : TxPkt) :
    ∃ a', Move dev a (aicwf_sdio_bus_txdata s pkt).1 a' ∧ Agrees dev a' (aicwf_sdio_bus_txdata s pkt).2 := by
  obtain ⟨hret, -, hq⟩ := enq_agrees h.txq pkt (pkt.priority &&& 0x7)
  by_cases hbus : s.bus = .BUS_DOWN_ST
  · rw [aicwf_sdio_bus_txdata, if_pos hbus]
    exact ⟨a, .refuse a pkt, h⟩
  rw [aicwf_sdio_bus_txdata, if_neg hbus]
  by_cases hroom : a.held.length < s.tx.txq.qmax
  · rw [decide_eq_true hroom] at hret
    rw [if_pos hroom] at hq
    simp only [hret, Bool.true_eq_false, if_false]
    have hup : a.up = true := by rw [h.up, decide_eq_true (bus_up hbus)]
    refine ⟨_, .accept a pkt hup, hq, ⟨?_, ?_⟩, ?_, h.aggr_count, h.bytes, h.credit, h.up, ?_⟩
    · rw [← h.num_prio.1]
      exact enq_num_prio _ _ _
    · intro x hx
      obtain hx | hx := List.mem_append.1 hx
      · exact h.num_prio.2 x hx
      · rw [List.mem_singleton.1 hx]
        exact Nat.lt_succ_of_le Nat.and_le_right
    · intro hup
      simp [h.tx_pktcnt hup]
    · have hr := h.room
      change Room _ s.bus s.pc
      cases hpc : s.pc <;> rw [hpc] at hr <;> simp only [Room] at hr ⊢
      · exact hr
      · exact hr
      · exact hr
      · exact hr.imp_right fun hand => ⟨hand.1, fun _ => by simp⟩
      · exact ⟨hr.1, by simp⟩
      · exact hr
  · rw [decide_eq_false hroom] at hret
    simp only [hret, if_true]
    exact ⟨a, .refuse a pkt, h⟩

theorem wait_refines (h : Agrees dev a s) (hpc : s.pc = .wait) :
    ∃ a', Move dev a (thread dev s e).1 a' ∧ Agrees dev a' (thread dev s e).2 := by
  have hroom := h.room
  rw [hpc] at hroom
  simp only [thread, hpc]
  split
  · exact ⟨a, .quiet a, h⟩
  · split
    · exact ⟨a, .quiet a, h.txq, h.num_prio, h.tx_pktcnt, h.aggr_count, h.bytes, h.credit, h.up, hroom⟩
    · rename_i hup
      split
      · exact ⟨a, .quiet a, h.txq, h.num_prio, h.tx_pktcnt, h.aggr_count, h.bytes, h.credit, h.up, hroom (bus_up hup)⟩
      · exact ⟨a, .quiet a, h.txq, h.num_prio, h.tx_pktcnt, h.aggr_count, h.bytes, h.credit, h.up, hroom⟩

theorem cmd_refines (h : Agrees dev a s) (hpc : s.pc = .cmd) :
    ∃ a', Move dev a (thread dev s e).1 a' ∧ Agrees dev a' (thread dev s e).2 := by
  have hroom : a.aggr = [] := by
    have hr := h.room
    rwa [hpc] at hr
  simp only [thread, hpc]
  split
  · exact ⟨a, .quiet a, h.txq, h.num_prio, h.tx_pktcnt, h.aggr_count, h.bytes, h.credit, h.up, fun _ => hroom⟩
  · split
    · split
      · exact ⟨a, .quiet a, h.txq, h.num_prio, h.tx_pktcnt, h.aggr_count, h.bytes, h.credit, h.up, fun _ => hroom⟩
      · exact ⟨a, .quiet a, h.txq, h.num_prio, h.tx_pktcnt, h.aggr_count, h.bytes, h.credit, h.up, hroom⟩
    · exact ⟨a, .quiet a, h.txq, h.num_prio, h.tx_pktcnt, h.aggr_count, h.bytes, h.credit, h.up, hroom⟩

/-- the number of free buffers is asked for while the aggregate is empty -/
theorem ask_refines (h : Agrees dev a s) (hnil : a.aggr = []) :
    ∃ a', Move dev a (askFlow dev s e).1 a' ∧ Agrees dev a' (askFlow dev s e).2 :=
  ⟨_, .ask a e.fc_reg hnil, h.txq, h.num_prio, h.tx_pktcnt, h.aggr_count, h.bytes, rfl, h.up, .inl hnil⟩

theorem data_refines (h : Agrees dev a s) (hpc : s.pc = .data) :
    ∃ a', Move dev a (thread dev s e).1 a' ∧ Agrees dev a' (thread dev s e).2 := by
  have hroom : a.aggr = [] := by
    have hr := h.room
    rwa [hpc] at hr
  simp only [thread, hpc]
  split
  · exact ⟨a, .quiet a, h.txq, h.num_prio, h.tx_pktcnt, h.aggr_count, h.bytes, h.credit, h.up, fun _ => hroom⟩
  · split
    · exact ask_refines h hroom
    · exact ⟨a, .quiet a, h.txq, h.num_prio, h.tx_pktcnt, h.aggr_count, h.bytes, h.credit, h.up, .inl hroom⟩

theorem loop_refines (h : Agrees dev a s) (hpc : s.pc = .loop) :
    ∃ a', Move dev a (thread dev s e).1 a' ∧ Agrees dev a' (thread dev s e).2 := by
  have hroom := h.room
  rw [hpc] at hroom
  have hempty := empty_agrees h.txq
  simp only [thread, hpc]
  split
  · -- with nothing left to send nothing is in the aggregate
    rename_i hz
    rw [hempty] at hz
    have hheld : a.held = [] := List.isEmpty_iff.1 hz
    refine ⟨a, .quiet a, h.txq, h.num_prio, h.tx_pktcnt, h.aggr_count, h.bytes, h.credit, h.up, fun hup => ?_⟩
    exact hroom.resolve_right fun hand => hand.2 hup hheld
  · rename_i hz
    have hheld : a.held ≠ [] := by
      intro hnil
      rw [hempty, hnil] at hz
      exact hz rfl
    split
    · rename_i hdown
      refine ⟨a, .quiet a, h.txq, h.num_prio, h.tx_pktcnt, h.aggr_count, h.bytes, h.credit, h.up, fun hup => ?_⟩
      exact absurd (hdown.symm.trans hup) (by decide)
    · split
      · -- where the credit is used up the aggregate was sent
        rename_i hfew
        rw [h.credit] at hfew
        have hnil : a.aggr = [] := hroom.resolve_right fun hand => by
          have := hand.1
          omega
        split
        · exact ⟨a, .quiet a, h.txq, h.num_prio, h.tx_pktcnt, h.aggr_count, h.bytes, h.credit, h.up, fun _ => hnil⟩
        · exact ask_refines h hnil
      · rename_i hmany
        rw [h.credit] at hmany
        refine ⟨a, .quiet a, h.txq, h.num_prio, h.tx_pktcnt, h.aggr_count, h.bytes, h.credit, h.up, ?_, hheld⟩
        obtain hnil | hand := hroom
        · rw [hnil, List.length_nil]
          push_cast
          omega
        · exact hand.1

/-- the aggregate with the packets goes to the bus, and the buffer starts anew -/
theorem aggrSend_refines (h : Agrees dev a s) (txnow : Bool) (hne : a.aggr ≠ [])
    (hc : a.aggr.length + DATA_FLOW_CTRL_THRESH ≤ a.credit) :
    ∃ a', Move dev a (aggrSend s e).1 a' ∧ Agrees dev a' (afterSend txnow (aggrSend s e).2) := by
  refine ⟨_, .send a s.tx.aggr_buf _ hne hc h.bytes, h.txq, h.num_prio, h.tx_pktcnt, rfl, rfl, ?_, h.up, ?_⟩
  · change s.tx.fw_avail_bufcnt - (s.tx.aggr_buf.aggr_count : ℤ) = _
    rw [h.credit, h.aggr_count]
  · cases txnow
    · exact .inl rfl
    · exact fun _ => rfl

/-- `aicwf_sdio_send` takes a packet out in every run: its other branches are for states that do not occur -/
theorem send_eq (h : Agrees dev a s) {txnow : Bool} (hpc : s.pc = .send txnow) :
    ∃ x, next a.held = some x ∧ thread dev s e = (if x.2.need_cfm then [] else [.consume x.2],
      { s with
        tx := { s.tx with
          txq := (aicwf_frame_dequeue s.tx.txq).2
          tx_pktcnt := s.tx.tx_pktcnt - 1
          aggr_buf := aicwf_sdio_aggr dev.chipid s.tx.aggr_buf x.2 }
        pc := .count txnow }) := by
  obtain ⟨hc, hheld⟩ : a.aggr.length + DATA_FLOW_CTRL_THRESH < a.credit ∧ a.held ≠ [] := by
    have hr := h.room
    rwa [hpc] at hr
  obtain ⟨-, hzero⟩ := aggr_tail h
  have hsame : ¬ ((s.tx.aggr_buf.aggr_count = 0 ∧ s.tx.aggr_buf.tail ≠ 0) ∨
      (s.tx.aggr_buf.aggr_count ≠ 0 ∧ s.tx.aggr_buf.tail = 0)) := by
    rw [← hzero]
    tauto
  have hless : ¬ (s.tx.aggr_buf.aggr_count : ℤ) = s.tx.fw_avail_bufcnt - DATA_FLOW_CTRL_THRESH := by
    rw [h.aggr_count, h.credit]
    omega
  obtain ⟨x, hx⟩ : ∃ x, next a.held = some x := by
    rw [← Option.ne_none_iff_exists']
    exact fun hnone => hheld (next_none.1 hnone)
  obtain ⟨hret, -, -⟩ := dequeue_agrees h.txq
  rw [hx, Option.map_some] at hret
  have hdeq : aicwf_frame_dequeue s.tx.txq = (some x.2, (aicwf_frame_dequeue s.tx.txq).2) := Prod.ext hret rfl
  refine ⟨x, hx, ?_⟩
  simp only [thread, hpc, sendPkt, if_neg hsame, if_neg hless]
  rw [hdeq]

theorem send_refines (h : Agrees dev a s) {txnow : Bool} (hpc : s.pc = .send txnow) :
    ∃ a', Move dev a (thread dev s e).1 a' ∧ Agrees dev a' (thread dev s e).2 := by
  obtain ⟨hc, hheld⟩ : a.aggr.length + DATA_FLOW_CTRL_THRESH < a.credit ∧ a.held ≠ [] := by
    have hr := h.room
    rwa [hpc] at hr
  obtain ⟨halign, -⟩ := aggr_tail h
  obtain ⟨-, -, hq⟩ := dequeue_agrees h.txq
  obtain ⟨x, hx, hstep⟩ := send_eq (e := e) h hpc
  rw [hstep]
  refine ⟨_, .take a x hx hc, hq, ⟨?_, ?_⟩, ?_, ?_, ?_, h.credit, h.up, ?_⟩
  · rw [← h.num_prio.1]
    exact dequeue_num_prio _
  · exact fun y hy => h.num_prio.2 y (mem_of_mem_rest hy)
  · intro hup
    have hlen := rest_length hx
    have hcnt := h.tx_pktcnt hup
    simp only
    omega
  · simp only [aggr_count_succ, h.aggr_count, List.length_append, List.length_singleton]
  · simp only [aggr_bytes halign, h.bytes, List.flatMap_append, List.flatMap_singleton]
  · refine ⟨by simp, ?_⟩
    simp only [List.length_append, List.length_singleton]
    push_cast
    omega

theorem count_refines (h : Agrees dev a s) {txnow : Bool} (hpc : s.pc = .count txnow) :
    ∃ a', Move dev a (thread dev s e).1 a' ∧ Agrees dev a' (thread dev s e).2 := by
  obtain ⟨hne, hc⟩ : a.aggr ≠ [] ∧ a.aggr.length + DATA_FLOW_CTRL_THRESH ≤ a.credit := by
    have hr := h.room
    rwa [hpc] at hr
  simp only [thread, hpc, sendCount]
  split
  · exact aggrSend_refines h txnow hne hc
  · rename_i hmore
    rw [h.aggr_count, h.credit, not_or, not_or] at hmore
    obtain ⟨hcnt, hnow, hfull⟩ := hmore
    have hheld : s.bus = .BUS_UP_ST → a.held ≠ [] := by
      intro hup hnil
      rw [h.tx_pktcnt hup, hnil] at hcnt
      exact hcnt rfl
    refine ⟨a, .quiet a, h.txq, h.num_prio, h.tx_pktcnt, h.aggr_count, h.bytes, h.credit, h.up, ?_⟩
    rw [afterSend, Bool.not_eq_true] at *
    rw [hnow]
    exact .inr ⟨by omega, hheld⟩

theorem flush_refines (h : Agrees dev a s) :
    ∃ a', Move dev a (busFlush s).1 a' ∧ Agrees dev a' (busFlush s).2 := by
  rw [busFlush]
  split
  · exact ⟨a, .quiet a, h⟩
  · rename_i hnot
    obtain ⟨hdown, hsends⟩ := not_or.1 hnot
    obtain ⟨hperm, hempty⟩ := flush_agrees h.txq (h.num_prio.1.symm ▸ h.num_prio.2)
    have hup : a.up = false := by rw [h.up, decide_eq_false hdown]
    refine ⟨_, .flush a _ hup hperm, hempty, ⟨h.num_prio.1, by simp⟩, fun hup => absurd hup hdown, h.aggr_count, h.bytes,
      h.credit, h.up, ?_⟩
    have hr := h.room
    change Room _ s.bus s.pc
    cases hpc : s.pc <;> rw [hpc] at hr hsends
    · exact hr
    · exact hr
    · exact hr
    · exact hr.imp_right fun hand => ⟨hand.1, fun hup => absurd hup hdown⟩
    · exact absurd rfl hsends
    · exact absurd rfl hsends

/-- **Each step of a party is a move of the sender** -/
theorem step_refines (h : Agrees dev a s) (act : Act) :
    ∃ a', Move dev a (step dev s act).1 a' ∧ Agrees dev a' (step dev s act).2 := by
  cases act with
  | txdata pkt => exact txdata_refines h pkt
  | txmsg =>
    rw [step, aicwf_sdio_bus_txmsg]
    split <;> exact ⟨a, .quiet a, h.txq, h.num_prio, h.tx_pktcnt, h.aggr_count, h.bytes, h.credit, h.up, h.room⟩
  | complete =>
    rw [step]
    split <;> exact ⟨a, .quiet a, h.txq, h.num_prio, h.tx_pktcnt, h.aggr_count, h.bytes, h.credit, h.up, h.room⟩
  | stop =>
    have hdown : ¬ BusState.BUS_DOWN_ST = .BUS_UP_ST := by decide
    refine ⟨_, .down a, h.txq, h.num_prio, fun hup => absurd hup hdown, h.aggr_count, h.bytes, h.credit, rfl, ?_⟩
    have hr := h.room
    change Room _ .BUS_DOWN_ST s.pc
    cases hpc : s.pc <;> rw [hpc] at hr
    · exact fun hup => absurd hup hdown
    · exact hr
    · exact hr
    · exact hr.imp_right fun hand => ⟨hand.1, fun hup => absurd hup hdown⟩
    · exact hr
    · exact hr
  | flush => exact flush_refines h
  | thread e =>
    cases hpc : s.pc with
    | wait => exact wait_refines h hpc
    | cmd => exact cmd_refines h hpc
    | data => exact data_refines h hpc
    | loop => exact loop_refines h hpc
    | send txnow => exact send_refines h hpc
    | count txnow => exact count_refines h hpc

/-- **So are whole runs** -/
theorem run_refines (h : Agrees dev a s) (l : List Act) :
    ∃ a', Moves dev a (run dev l s).1 a' ∧ Agrees dev a' (run dev l s).2 := by
  induction l generalizing a s with
  | nil => exact ⟨a, .nil a, h⟩
  | cons act l ih =>
    obtain ⟨b, hmove, hb⟩ := step_refines h act
    obtain ⟨c, hmoves, hc⟩ := ih hb
    exact ⟨c, .cons hmove hmoves, hc⟩

end AvaotaOS.Aic8800.SdioTx
