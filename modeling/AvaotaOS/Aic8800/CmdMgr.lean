/-
The queue of the commands to the firmware in the AIC8800 Wi-Fi driver (`aic8800_fdrv/rwnx_cmds.c`): one command is sent at a
time, and the next one when the firmware has confirmed it.

Callers of `cmd_mgr_queue`, the worker of `cmd_wq` and the messages of the firmware run next to each other, so a run is a list
of their steps in any order. A step is what one of them does under `lock`, or between two looks at what the others change; the
worker finds the first command and sends it in one step. Commands that want no confirmation do not get here, and none is queued
with `RWNX_CMD_FLAG_NONBLOCK`. A token stands for the command itself, so tokens do not wrap.

- `cmd_one_in_flight`: whatever the firmware sends and whatever times out, the queue is bounded, in the order of the tokens,
  only its first command has been sent, and no command is sent twice.
- `cmd_sticks`: a caller looks at `queue_sz` after it has let go of the lock. When another command comes in between nobody
  wakes the worker, and then no command is sent any more.
- `cmd_wakes`: no wake-up is lost in another way.
-/
import Mathlib.Tactic

namespace AvaotaOS.Aic8800.CmdMgr

/-! ## The code -/

def RWNX_CMD_MAX_QUEUED : ℕ := 16

/-- a command with its token and the flags `RWNX_CMD_FLAG_WAIT_PUSH`, `RWNX_CMD_FLAG_WAIT_CFM` and `RWNX_CMD_FLAG_DONE`;
`reqid` is the message that confirms it. Nothing clears the flags of a slot of `cmd_array`, so a command in the queue has
`done` from the one that had its slot before -/
structure RwnxCmd where
  tkn : ℕ
  reqid : ℕ
  wait_push : Bool
  wait_cfm : Bool
  done : Bool
deriving DecidableEq

/-- where a caller is: before it looks at `queue_sz`, before `WAKE_CMD_WORK` in `cmd_mgr_queue_force_defer`, before
`aicwf_set_cmd_tx`, or where it waits for the completion -/
inductive Caller where
  | check
  | wake
  | push (tkn : ℕ)
  | wait (tkn : ℕ)
deriving DecidableEq

/-- where `cmd_mgr_task_process` is, when it runs: before it looks at the queue, or where it waits -/
inductive Worker where
  | look
  | wait (tkn : ℕ)
deriving DecidableEq

/-- `pending`: `cmdWork` is queued; `complete` are the tokens whose completion was signalled -/
structure RwnxCmdMgr where
  cmds : List RwnxCmd
  queue_sz : ℕ
  next_tkn : ℕ
  crashed : Bool
  complete : List ℕ
  pending : Bool
  worker : Option Worker
  callers : List Caller

def rwnx_cmd_mgr_init : RwnxCmdMgr := ⟨[], 0, 0, false, [], false, none, []⟩

/-- what goes to the bus, and the calls that are turned away -/
inductive Ev where
  | push (tkn : ℕ)
  | EPIPE
  | ENOMEM
deriving DecidableEq

/-- `cmd_complete` up to the completion -/
def cmd_complete (p : RwnxCmd → Bool) (m : RwnxCmdMgr) : RwnxCmdMgr :=
  { m with cmds := m.cmds.eraseP p, queue_sz := if m.cmds.any p then m.queue_sz - 1 else m.queue_sz }

/-- the end of both ways to queue a command -/
def listAdd (reqid : ℕ) (wait_push done : Bool) (caller : ℕ → Caller) (m : RwnxCmdMgr) : List Ev × RwnxCmdMgr :=
  ([], { m with
    cmds := m.cmds ++ [⟨m.next_tkn, reqid, wait_push, true, done⟩]
    queue_sz := m.queue_sz + 1
    next_tkn := m.next_tkn + 1
    callers := m.callers ++ [caller m.next_tkn] })

/-- what the last command waits for -/
def busy (m : RwnxCmdMgr) : Bool := m.cmds.getLast?.any fun c => c.wait_push || c.wait_cfm

/-- `cmd_mgr_queue` under the lock; `traffic`: the command is `ME_TRAFFIC_IND_REQ`, or with `AICWF_ARP_OFFLOAD`
`MM_SET_ARPOFFLOAD_REQ`; `done`: what its slot has of `RWNX_CMD_FLAG_DONE` -/
def cmd_mgr_queue (reqid : ℕ) (traffic done : Bool) (m : RwnxCmdMgr) : List Ev × RwnxCmdMgr :=
  if m.crashed then ([.EPIPE], m)
  else if m.cmds ≠ [] ∧ m.queue_sz = RWNX_CMD_MAX_QUEUED then ([.ENOMEM], m)
  else if busy m || traffic then listAdd reqid true done (fun _ => .check) m
  else listAdd reqid false done .push m

def cmd_mgr_queue_force_defer (reqid : ℕ) (done : Bool) (m : RwnxCmdMgr) : List Ev × RwnxCmdMgr :=
  if m.crashed then ([.EPIPE], m)
  else if m.cmds ≠ [] ∧ m.queue_sz = RWNX_CMD_MAX_QUEUED then ([.ENOMEM], m)
  else listAdd reqid true done (fun _ => .wake) m

/-- the rest of the call of the `i`th caller -/
def callerStep (i : ℕ) (m : RwnxCmdMgr) : List Ev × RwnxCmdMgr :=
  match m.callers[i]? with
  | none => ([], m)
  | some .check =>
    ([], { m with callers := m.callers.eraseIdx i, pending := m.pending || decide (m.queue_sz ≤ 1) })
  | some .wake => ([], { m with callers := m.callers.eraseIdx i, pending := true })
  | some (.push tkn) => ([.push tkn], { m with callers := m.callers.set i (.wait tkn) })
  | some (.wait tkn) =>
    if tkn ∈ m.complete then
      ([], { m with callers := m.callers.eraseIdx i, pending := m.pending || decide (m.cmds ≠ []) })
    else ([], m)

/-- what a time-out does under the lock: a command whose slot has the flag stays in the queue -/
def timedOut (tkn : ℕ) (m : RwnxCmdMgr) : RwnxCmdMgr :=
  { cmd_complete (fun c => c.tkn == tkn && !c.done) m with crashed := true }

/-- the wait of the `i`th caller times out -/
def callerTimeout (i : ℕ) (m : RwnxCmdMgr) : List Ev × RwnxCmdMgr :=
  match m.callers[i]? with
  | some (.wait tkn) =>
    ([], { timedOut tkn m with callers := m.callers.eraseIdx i })
  | _ => ([], m)

/-- a step of `cmd_mgr_task_process` -/
def cmd_mgr_task_process (m : RwnxCmdMgr) : List Ev × RwnxCmdMgr :=
  match m.worker with
  | none => if m.pending then ([], { m with pending := false, worker := some .look }) else ([], m)
  | some .look =>
    match m.cmds with
    | [] => ([], { m with worker := none })
    | c :: cs =>
      if c.wait_push then
        ([.push c.tkn], { m with cmds := { c with wait_push := false } :: cs, worker := some (.wait c.tkn) })
      else ([], { m with worker := none })
  | some (.wait tkn) => if tkn ∈ m.complete then ([], { m with worker := some .look }) else ([], m)

def workerTimeout (m : RwnxCmdMgr) : List Ev × RwnxCmdMgr :=
  match m.worker with
  | some (.wait tkn) => ([], { timedOut tkn m with worker := some .look })
  | _ => ([], m)

/-- a message of the firmware confirms the first command that waits for it and whose callback, if any, takes it -/
def cmd_mgr_msgind (id : ℕ) (cb : RwnxCmd → Bool) (m : RwnxCmdMgr) : List Ev × RwnxCmdMgr :=
  match m.cmds.find? fun c => c.reqid == id && c.wait_cfm && cb c with
  | none => ([], m)
  | some c =>
    ([], { cmd_complete (fun c => c.reqid == id && c.wait_cfm && cb c) m with complete := m.complete ++ [c.tkn] })

inductive Act where
  | queue (reqid : ℕ) (traffic done : Bool)
  | force_defer (reqid : ℕ) (done : Bool)
  | caller (i : ℕ)
  | callerTimeout (i : ℕ)
  | work
  | workTimeout
  | msgind (id : ℕ) (cb : RwnxCmd → Bool)

def step : Act → RwnxCmdMgr → List Ev × RwnxCmdMgr
  | .queue reqid traffic done => cmd_mgr_queue reqid traffic done
  | .force_defer reqid done => cmd_mgr_queue_force_defer reqid done
  | .caller i => callerStep i
  | .callerTimeout i => callerTimeout i
  | .work => cmd_mgr_task_process
  | .workTimeout => workerTimeout
  | .msgind id cb => cmd_mgr_msgind id cb

def run : List Act → RwnxCmdMgr → List Ev × RwnxCmdMgr
  | [], m => ([], m)
  | a :: l, m => ((step a m).1 ++ (run l (step a m).2).1, (run l (step a m).2).2)

variable {m : RwnxCmdMgr}

/-! ## One command at a time -/

/-- the queue is counted, bounded and in order, all in it wait for their confirmation, and behind the first all have to be sent -/
structure Ordered (m : RwnxCmdMgr) : Prop where
  queue_sz : m.queue_sz = m.cmds.length
  bounded : m.cmds.length ≤ RWNX_CMD_MAX_QUEUED
  tkns : m.cmds.Pairwise fun c d => c.tkn < d.tkn
  fresh : ∀ c ∈ m.cmds, c.tkn < m.next_tkn
  cfm : ∀ c ∈ m.cmds, c.wait_cfm = true
  deferred : ∀ c ∈ m.cmds.tail, c.wait_push = true

theorem init_ordered : Ordered rwnx_cmd_mgr_init := by
  refine ⟨rfl, by decide, .nil, ?_, ?_, ?_⟩ <;> simp [rwnx_cmd_mgr_init]

/-- steps that leave the queue as it is -/
theorem Ordered.congr (h : Ordered m) {m' : RwnxCmdMgr} (hc : m'.cmds = m.cmds) (hq : m'.queue_sz = m.queue_sz)
    (ht : m'.next_tkn = m.next_tkn) : Ordered m' := by
  refine ⟨?_, ?_, ?_, ?_, ?_, ?_⟩
  · rw [hc, hq, h.queue_sz]
  · rw [hc]
    exact h.bounded
  · rw [hc]
    exact h.tkns
  · rw [hc, ht]
    exact h.fresh
  · rw [hc]
    exact h.cfm
  · rw [hc]
    exact h.deferred

theorem tail_eraseP_subset (p : RwnxCmd → Bool) (l : List RwnxCmd) : (l.eraseP p).tail ⊆ l.tail := by
  cases l with
  | nil => simp
  | cons c l =>
    cases hp : p c
    · rw [List.eraseP_cons_of_neg (by simp [hp])]
      exact List.eraseP_subset
    · rw [List.eraseP_cons_of_pos hp]
      exact List.tail_subset l

/-- a command leaves the queue -/
theorem Ordered.complete (h : Ordered m) (p : RwnxCmd → Bool) : Ordered (cmd_complete p m) := by
  have hsub : (m.cmds.eraseP p).Sublist m.cmds := List.eraseP_sublist
  refine ⟨?_, le_trans hsub.length_le h.bounded, h.tkns.sublist hsub, fun c hc => h.fresh c (hsub.subset hc),
    fun c hc => h.cfm c (hsub.subset hc), fun c hc => h.deferred c (tail_eraseP_subset p _ hc)⟩
  simp only [cmd_complete, List.length_eraseP, h.queue_sz]

theorem Ordered.listAdd (h : Ordered m) {reqid : ℕ} {wait_push done : Bool} {caller : ℕ → Caller}
    (hroom : m.cmds.length < RWNX_CMD_MAX_QUEUED) (hpush : m.cmds ≠ [] → wait_push = true) :
    Ordered (listAdd reqid wait_push done caller m).2 := by
  refine ⟨?_, ?_, ?_, ?_, ?_, ?_⟩
  · simp [CmdMgr.listAdd, h.queue_sz]
  · simpa [CmdMgr.listAdd] using hroom
  · simp only [CmdMgr.listAdd, List.pairwise_append]
    refine ⟨h.tkns, List.pairwise_singleton _ _, fun c hc d hd => ?_⟩
    rw [List.mem_singleton.1 hd]
    exact h.fresh c hc
  · intro c hc
    obtain hc | hc := List.mem_append.1 hc
    · exact Nat.lt_succ_of_lt (h.fresh c hc)
    · rw [List.mem_singleton.1 hc]
      exact Nat.lt_succ_self _
  · intro c hc
    obtain hc | hc := List.mem_append.1 hc
    · exact h.cfm c hc
    · rw [List.mem_singleton.1 hc]
  · intro c hc
    cases hm : m.cmds with
    | nil => simp [CmdMgr.listAdd, hm] at hc
    | cons d l =>
      have hdef := h.deferred
      rw [hm] at hdef
      simp only [CmdMgr.listAdd, hm, List.cons_append, List.tail_cons] at hc
      obtain hc | hc := List.mem_append.1 hc
      · exact hdef c hc
      · rw [List.mem_singleton.1 hc]
        exact hpush (by simp [hm])

/-- the last command waits, whatever it is -/
theorem busy_eq (h : Ordered m) : busy m = decide (m.cmds ≠ []) := by
  rw [busy]
  cases hl : m.cmds.getLast? with
  | none => simp [List.getLast?_eq_none_iff.1 hl]
  | some c =>
    have hmem := List.mem_of_getLast? hl
    have hne : m.cmds ≠ [] := List.ne_nil_of_mem hmem
    simp [h.cfm c hmem, hne]

/-- there is room where no call is turned away -/
theorem room_of (h : Ordered m) (hfull : ¬ (m.cmds ≠ [] ∧ m.queue_sz = RWNX_CMD_MAX_QUEUED)) :
    m.cmds.length < RWNX_CMD_MAX_QUEUED := by
  have hle := h.bounded
  rw [h.queue_sz] at hfull
  cases hm : m.cmds with
  | nil => decide
  | cons c l =>
    rw [hm] at hfull hle
    have : (c :: l).length ≠ RWNX_CMD_MAX_QUEUED := fun he => hfull ⟨by simp, he⟩
    omega

theorem step_ordered (h : Ordered m) (a : Act) : Ordered (step a m).2 := by
  cases a with
  | queue reqid traffic done =>
    simp only [step, cmd_mgr_queue]
    split
    · exact h
    · split
      · exact h
      · rename_i hfull
        have hroom := room_of h hfull
        split
        · exact h.listAdd hroom fun _ => rfl
        · rename_i hidle
          refine h.listAdd hroom fun hne => ?_
          simp [busy_eq h, hne] at hidle
  | force_defer reqid done =>
    simp only [step, cmd_mgr_queue_force_defer]
    split
    · exact h
    · split
      · exact h
      · rename_i hfull
        exact h.listAdd (room_of h hfull) fun _ => rfl
  | caller i =>
    simp only [step, callerStep]
    split
    · exact h
    · exact h.congr rfl rfl rfl
    · exact h.congr rfl rfl rfl
    · exact h.congr rfl rfl rfl
    · split
      · exact h.congr rfl rfl rfl
      · exact h
  | callerTimeout i =>
    simp only [step, callerTimeout]
    split
    · exact (h.complete _).congr rfl rfl rfl
    · exact h
  | work =>
    simp only [step, cmd_mgr_task_process]
    split
    · split
      · exact h.congr rfl rfl rfl
      · exact h
    · split
      · exact h.congr rfl rfl rfl
      · rename_i c cs hc
        split
        · have hdef := h.deferred
          have htkns := h.tkns
          have hcfm := h.cfm
          have hfresh := h.fresh
          have hlen := h.bounded
          have hsz := h.queue_sz
          rw [hc] at hdef htkns hcfm hfresh hlen hsz
          refine ⟨hsz, hlen, ?_, ?_, ?_, hdef⟩
          · exact List.pairwise_cons.2 (List.pairwise_cons.1 htkns)
          · exact List.forall_mem_cons.2 (List.forall_mem_cons.1 hfresh)
          · exact List.forall_mem_cons.2 (List.forall_mem_cons.1 hcfm)
        · exact h.congr rfl rfl rfl
    · split
      · exact h.congr rfl rfl rfl
      · exact h
  | workTimeout =>
    simp only [step, workerTimeout]
    split
    · exact (h.complete _).congr rfl rfl rfl
    · exact h
  | msgind id cb =>
    simp only [step, cmd_mgr_msgind]
    split
    · exact h
    · exact (h.complete _).congr rfl rfl rfl

theorem run_ordered (h : Ordered m) (l : List Act) : Ordered (run l m).2 := by
  induction l generalizing m with
  | nil => exact h
  | cons a l ih => exact ih (step_ordered h a)

/-- the times that a command has been sent, and is going to be by its caller -/
def sends (evs : List Ev) (m : RwnxCmdMgr) (tkn : ℕ) : ℕ := evs.count (.push tkn) + m.callers.count (.push tkn)

/-- a command is sent once, and not yet while it waits to be sent -/
structure Once (evs : List Ev) (m : RwnxCmdMgr) : Prop where
  once : ∀ tkn, sends evs m tkn ≤ 1
  unsent : ∀ c ∈ m.cmds, c.wait_push = true → sends evs m c.tkn = 0
  fresh : ∀ tkn, m.next_tkn ≤ tkn → sends evs m tkn = 0

theorem init_once : Once [] rwnx_cmd_mgr_init := by
  refine ⟨?_, ?_, ?_⟩ <;> simp [sends, rwnx_cmd_mgr_init]

/-- steps after which no command is sent oftener, and no other waits to be sent -/
theorem Once.congr {evs evs' : List Ev} (h : Once evs m) {m' : RwnxCmdMgr} (hs : ∀ tkn, sends evs' m' tkn ≤ sends evs m tkn)
    (hc : m'.cmds ⊆ m.cmds) (ht : m'.next_tkn = m.next_tkn) : Once evs' m' := by
  refine ⟨fun tkn => le_trans (hs tkn) (h.once tkn), fun c hin hp => ?_, fun tkn hle => ?_⟩
  · exact Nat.le_zero.1 (h.unsent c (hc hin) hp ▸ hs c.tkn)
  · exact Nat.le_zero.1 (h.fresh tkn (ht ▸ hle) ▸ hs tkn)

theorem Once.listAdd {evs : List Ev} (h : Once evs m) (ho : Ordered m) {reqid : ℕ} {wait_push done : Bool} {caller : ℕ → Caller}
    (hcaller : caller m.next_tkn = .push m.next_tkn ∧ wait_push = false ∨ ∀ tkn, caller m.next_tkn ≠ .push tkn) :
    Once (evs ++ (listAdd reqid wait_push done caller m).1) (listAdd reqid wait_push done caller m).2 := by
  have hnone : evs ++ (CmdMgr.listAdd reqid wait_push done caller m).1 = evs := List.append_nil evs
  rw [hnone]
  have hsends : ∀ tkn, sends evs (CmdMgr.listAdd reqid wait_push done caller m).2 tkn =
      sends evs m tkn + if caller m.next_tkn = .push tkn then 1 else 0 := by
    intro tkn
    simp only [sends, CmdMgr.listAdd, List.count_append, List.count_singleton, beq_iff_eq, Nat.add_assoc]
  have hnew : ∀ tkn, caller m.next_tkn = .push tkn → tkn = m.next_tkn := by
    intro tkn htkn
    obtain ⟨hpush, -⟩ | hno := hcaller
    · exact Caller.push.inj (htkn.symm.trans hpush)
    · exact absurd htkn (hno tkn)
  refine ⟨fun tkn => ?_, fun c hc hp => ?_, fun tkn hle => ?_⟩
  · rw [hsends]
    split
    · rename_i htkn
      rw [hnew tkn htkn, h.fresh _ le_rfl]
    · exact h.once tkn
  · rw [hsends]
    obtain hc | hc := List.mem_append.1 hc
    · rw [h.unsent c hc hp, if_neg fun htkn => (ho.fresh c hc).ne (hnew _ htkn)]
    · obtain rfl := List.mem_singleton.1 hc
      obtain ⟨-, hno⟩ | hno := hcaller
      · exact absurd (hno.symm.trans hp) (by decide)
      · rw [h.fresh _ le_rfl, if_neg (hno _)]
  · have hlt : m.next_tkn < tkn := hle
    rw [hsends, h.fresh tkn hlt.le, if_neg fun htkn => hlt.ne' (hnew tkn htkn)]

theorem sends_erase (evs : List Ev) (i tkn : ℕ) :
    evs.count (.push tkn) + (m.callers.eraseIdx i).count (.push tkn) ≤ sends evs m tkn :=
  Nat.add_le_add_left ((List.eraseIdx_sublist _ _).count_le _) _

/-- a caller who sends its command has been counted before -/
theorem sends_push {evs : List Ev} {i t : ℕ} (hi : m.callers[i]? = some (.push t)) (tkn : ℕ) :
    (evs ++ [Ev.push t]).count (.push tkn) + (m.callers.set i (.wait t)).count (.push tkn) = sends evs m tkn := by
  obtain ⟨hlt, hget⟩ := List.getElem?_eq_some_iff.1 hi
  rw [List.count_append, List.count_singleton, List.count_set hlt, hget, sends]
  by_cases ht : t = tkn
  · have hpos : 0 < m.callers.count (.push tkn) := List.count_pos_iff.2 (ht ▸ List.mem_of_getElem? hi)
    simp only [ht, beq_self_eq_true, if_true, show (Caller.wait tkn == Caller.push tkn) = false from rfl]
    simp only [Bool.false_eq_true, if_false]
    omega
  · simp [ht]

theorem step_once {evs : List Ev} (ho : Ordered m) (h : Once evs m) (a : Act) : Once (evs ++ (step a m).1) (step a m).2 := by
  -- calls that are turned away
  have hturned : ∀ e, (∀ tkn, e ≠ Ev.push tkn) → Once (evs ++ [e]) m := by
    intro e he
    refine h.congr (fun tkn => ?_) (List.Subset.refl _) rfl
    rw [sends, List.count_append, List.count_singleton, if_neg (by simpa using he tkn)]
    exact le_rfl
  have hsame : ∀ m' : RwnxCmdMgr, m'.cmds ⊆ m.cmds → m'.next_tkn = m.next_tkn → m'.callers = m.callers →
      Once (evs ++ []) m' := by
    intro m' hc ht hl
    refine h.congr (fun tkn => ?_) hc ht
    rw [sends, hl, List.append_nil, sends]
  cases a with
  | queue reqid traffic done =>
    simp only [step, cmd_mgr_queue]
    split
    · exact hturned _ (by simp)
    · split
      · exact hturned _ (by simp)
      · split
        · exact h.listAdd ho (.inr (by simp))
        · exact h.listAdd ho (.inl ⟨rfl, rfl⟩)
  | force_defer reqid done =>
    simp only [step, cmd_mgr_queue_force_defer]
    split
    · exact hturned _ (by simp)
    · split
      · exact hturned _ (by simp)
      · exact h.listAdd ho (.inr (by simp))
  | caller i =>
    have hleaves : ∀ pending, Once (evs ++ []) { m with callers := m.callers.eraseIdx i, pending := pending } := by
      intro pending
      refine h.congr (fun tkn => ?_) (List.Subset.refl _) rfl
      rw [List.append_nil]
      exact sends_erase evs i tkn
    simp only [step, callerStep]
    split
    · exact hsame m (List.Subset.refl _) rfl rfl
    · exact hleaves _
    · exact hleaves _
    · rename_i hi
      exact h.congr (fun tkn => (sends_push hi tkn).le) (List.Subset.refl _) rfl
    · split
      · exact hleaves _
      · exact hsame m (List.Subset.refl _) rfl rfl
  | callerTimeout i =>
    simp only [step, callerTimeout]
    split
    · refine h.congr (fun tkn => ?_) List.eraseP_subset rfl
      rw [List.append_nil]
      exact sends_erase evs i tkn
    · exact hsame m (List.Subset.refl _) rfl rfl
  | work =>
    simp only [step, cmd_mgr_task_process]
    split
    · split
      · exact hsame _ (List.Subset.refl _) rfl rfl
      · exact hsame m (List.Subset.refl _) rfl rfl
    · split
      · exact hsame _ (List.Subset.refl _) rfl rfl
      · rename_i c cs hcs
        split
        · -- the first command, which has not been sent yet
          rename_i hpush
          have hmem : c ∈ m.cmds := hcs ▸ List.mem_cons_self
          have hfirst := h.unsent c hmem hpush
          have hsends : ∀ tkn, (evs ++ [Ev.push c.tkn]).count (.push tkn) + m.callers.count (.push tkn) =
              sends evs m tkn + if c.tkn = tkn then 1 else 0 := by
            intro tkn
            simp only [sends, List.count_append, List.count_singleton, beq_iff_eq, Ev.push.injEq]
            omega
          refine ⟨fun tkn => ?_, fun d hd hp => ?_, fun tkn hle => ?_⟩
          · rw [sends, hsends]
            split
            · rename_i htkn
              rw [← htkn, hfirst]
            · exact h.once tkn
          · have hlt := ho.tkns
            rw [hcs] at hlt
            obtain rfl | hd := List.mem_cons.1 hd
            · exact absurd hp (by simp)
            · rw [sends, hsends, h.unsent d (hcs ▸ List.mem_cons_of_mem c hd) hp,
                if_neg (List.rel_of_pairwise_cons hlt hd).ne]
          · rw [sends, hsends, h.fresh tkn hle, if_neg fun htkn => absurd (ho.fresh c hmem) (by rw [htkn]; exact not_lt.2 hle)]
        · exact hsame _ (List.Subset.refl _) rfl rfl
    · split
      · exact hsame _ (List.Subset.refl _) rfl rfl
      · exact hsame m (List.Subset.refl _) rfl rfl
  | workTimeout =>
    simp only [step, workerTimeout]
    split
    · exact hsame _ List.eraseP_subset rfl rfl
    · exact hsame m (List.Subset.refl _) rfl rfl
  | msgind id cb =>
    simp only [step, cmd_mgr_msgind]
    split
    · exact hsame m (List.Subset.refl _) rfl rfl
    · exact hsame _ List.eraseP_subset rfl rfl

theorem run_once {evs : List Ev} (ho : Ordered m) (h : Once evs m) (l : List Act) : Once (evs ++ (run l m).1) (run l m).2 := by
  induction l generalizing m evs with
  | nil => simpa [run] using h
  | cons a l ih =>
    have hnext := ih (step_ordered ho a) (step_once ho h a)
    rwa [List.append_assoc] at hnext

/-- **One command at a time**: in every run the queue has 16 commands at most, in the order of their tokens, none of those behind
the first has been sent, and none is sent twice -/
theorem cmd_one_in_flight (l : List Act) :
    (run l rwnx_cmd_mgr_init).2.cmds.length ≤ RWNX_CMD_MAX_QUEUED ∧
      (run l rwnx_cmd_mgr_init).2.queue_sz = (run l rwnx_cmd_mgr_init).2.cmds.length ∧
      (run l rwnx_cmd_mgr_init).2.cmds.Pairwise (fun c d => c.tkn < d.tkn) ∧
      (∀ c ∈ (run l rwnx_cmd_mgr_init).2.cmds.tail, c.wait_push = true ∧ .push c.tkn ∉ (run l rwnx_cmd_mgr_init).1) ∧
      ∀ tkn, (run l rwnx_cmd_mgr_init).1.count (.push tkn) ≤ 1 := by
  have h := run_ordered init_ordered l
  have hsent := run_once init_ordered init_once l
  rw [List.nil_append] at hsent
  refine ⟨h.bounded, h.queue_sz, h.tkns, fun c hc => ⟨h.deferred c hc, ?_⟩, fun tkn => ?_⟩
  · have hnone := hsent.unsent c (List.mem_of_mem_tail hc) (h.deferred c hc)
    exact List.count_eq_zero.1 (Nat.add_eq_zero_iff.1 hnone).1
  · exact le_trans (Nat.le_add_right _ _) (hsent.once tkn)

/-- a command in a slot that has been used before times out, and stays -/
example : ((run [.queue 1 false true, .caller 0, .callerTimeout 0] rwnx_cmd_mgr_init).2.cmds.map RwnxCmd.tkn) = [0] := by decide

/-! ## The lost wake-up -/

/-- nothing is queued and nobody is under way -/
structure Idle (m : RwnxCmdMgr) : Prop where
  cmds : m.cmds = []
  crashed : m.crashed = false
  pending : m.pending = false
  worker : m.worker = none
  callers : m.callers = []

/-- two commands wait to be sent, and who is under way does not wake the worker -/
structure Stuck (m : RwnxCmdMgr) : Prop where
  cmds : 2 ≤ m.cmds.length
  pending : m.pending = false
  worker : m.worker = none
  callers : ∀ x ∈ m.callers, x = .check

/-- a step of the driver by itself, without `cmd_mgr_queue_force_defer` -/
def Act.Own : Act → Prop
  | .force_defer _ _ => False
  | .msgind _ _ => False
  | _ => True

theorem Stuck.listAdd (h : Stuck m) (reqid : ℕ) (done : Bool) : Stuck (listAdd reqid true done (fun _ => .check) m).2 := by
  refine ⟨?_, h.pending, h.worker, ?_⟩
  · have hlen := h.cmds
    simp only [CmdMgr.listAdd, List.length_append]
    omega
  · intro x hx
    obtain hx | hx := List.mem_append.1 hx
    · exact h.callers x hx
    · exact List.mem_singleton.1 hx

theorem step_stuck (ho : Ordered m) (h : Stuck m) {a : Act} (ha : a.Own) :
    Stuck (step a m).2 ∧ ∀ tkn, .push tkn ∉ (step a m).1 := by
  have hne : m.cmds ≠ [] := by
    intro hnil
    have hlen := h.cmds
    simp [hnil] at hlen
  cases a with
  | queue reqid traffic done =>
    simp only [step, cmd_mgr_queue]
    split
    · exact ⟨h, by simp⟩
    · split
      · exact ⟨h, by simp⟩
      · rw [busy_eq ho, decide_eq_true hne, Bool.true_or, if_pos rfl]
        exact ⟨h.listAdd reqid done, by simp [listAdd]⟩
  | force_defer reqid done => exact ha.elim
  | caller i =>
    simp only [step, callerStep]
    split
    · exact ⟨h, by simp⟩
    · have hsz : decide (m.queue_sz ≤ 1) = false := by
        have hlen := h.cmds
        rw [← ho.queue_sz] at hlen
        exact decide_eq_false (by omega)
      refine ⟨⟨h.cmds, ?_, h.worker, fun x hx => h.callers x (List.mem_of_mem_eraseIdx hx)⟩, by simp⟩
      simp [h.pending, hsz]
    all_goals
      rename_i hi
      exact absurd (h.callers _ (List.mem_of_getElem? hi)) (by simp)
  | callerTimeout i =>
    simp only [step, callerTimeout]
    split
    · rename_i hi
      exact absurd (h.callers _ (List.mem_of_getElem? hi)) (by simp)
    · exact ⟨h, by simp⟩
  | work =>
    simp only [step, cmd_mgr_task_process, h.worker, h.pending]
    exact ⟨h, by simp⟩
  | workTimeout =>
    simp only [step, workerTimeout, h.worker]
    exact ⟨h, by simp⟩
  | msgind id cb => exact ha.elim

theorem run_stuck (ho : Ordered m) (h : Stuck m) {l : List Act} (hl : ∀ a ∈ l, a.Own) :
    Stuck (run l m).2 ∧ ∀ tkn, .push tkn ∉ (run l m).1 := by
  induction l generalizing m with
  | nil => exact ⟨h, by simp [run]⟩
  | cons a l ih =>
    obtain ⟨hstuck, hnow⟩ := step_stuck ho h (hl a List.mem_cons_self)
    obtain ⟨hend, hlater⟩ := ih (step_ordered ho a) hstuck fun x hx => hl x (List.mem_cons_of_mem a hx)
    refine ⟨hend, fun tkn hmem => ?_⟩
    obtain hmem | hmem := List.mem_append.1 hmem
    · exact hnow tkn hmem
    · exact hlater tkn hmem

theorem run_append (l k : List Act) (m : RwnxCmdMgr) :
    run (l ++ k) m = ((run l m).1 ++ (run k (run l m).2).1, (run k (run l m).2).2) := by
  induction l generalizing m with
  | nil => rfl
  | cons a l ih =>
    rw [List.cons_append, run, ih]
    simp only [run, List.append_assoc]

/-- the call for an `ME_TRAFFIC_IND_REQ` is overtaken by another between its two looks at the queue -/
def overtaken (r₁ r₂ : ℕ) (traffic done₁ done₂ : Bool) : List Act :=
  [.queue r₁ true done₁, .queue r₂ traffic done₂, .caller 0, .caller 0]

theorem overtaken_stuck (h : Idle m) (hsz : m.queue_sz = 0) (r₁ r₂ : ℕ) (traffic done₁ done₂ : Bool) :
    Stuck (run (overtaken r₁ r₂ traffic done₁ done₂) m).2 ∧ (run (overtaken r₁ r₂ traffic done₁ done₂) m).1 = [] := by
  obtain ⟨hc, hx, hp, hw, hl⟩ := h
  simp [overtaken, run, step, cmd_mgr_queue, hc, hx, hsz, busy, listAdd, callerStep, hl, hp, RWNX_CMD_MAX_QUEUED]
  exact ⟨by simp, rfl, hw, by simp⟩

/-- **A lost wake-up stops all commands**: from any idle state, after the two calls no command is sent any more, however many
more are queued, as long as the firmware has nothing to confirm -/
theorem cmd_sticks {l₀ l : List Act} (h : Idle (run l₀ rwnx_cmd_mgr_init).2) (r₁ r₂ : ℕ)
    (traffic done₁ done₂ : Bool) (hl : ∀ a ∈ l, a.Own) :
    2 ≤ (run (overtaken r₁ r₂ traffic done₁ done₂ ++ l) (run l₀ rwnx_cmd_mgr_init).2).2.cmds.length ∧
      ∀ tkn, .push tkn ∉ (run (overtaken r₁ r₂ traffic done₁ done₂ ++ l) (run l₀ rwnx_cmd_mgr_init).2).1 := by
  have ho := run_ordered init_ordered l₀
  have hsz : (run l₀ rwnx_cmd_mgr_init).2.queue_sz = 0 := by rw [ho.queue_sz, h.cmds, List.length_nil]
  obtain ⟨hstuck, hnone⟩ := overtaken_stuck h hsz r₁ r₂ traffic done₁ done₂
  obtain ⟨hend, hpush⟩ := run_stuck (run_ordered ho (overtaken r₁ r₂ traffic done₁ done₂)) hstuck hl
  rw [run_append, hnone]
  exact ⟨hend.cmds, fun tkn => hpush tkn⟩

/-- the worker is there, and more commands come -/
theorem cmd_sticks_more :
    2 ≤ (run (overtaken 1 2 false true true ++ [.queue 3 false true, .caller 0, .work])
      (run [] rwnx_cmd_mgr_init).2).2.cmds.length := by
  have hidle : Idle (run [] rwnx_cmd_mgr_init).2 := ⟨rfl, rfl, rfl, rfl, rfl⟩
  have hown : ∀ a ∈ [.queue 3 false true, .caller 0, .work], Act.Own a := by simp [Act.Own]
  exact (cmd_sticks hidle 1 2 false true true hown).1

/-! ## Without it -/

/-- the worker runs or is about to be woken -/
def Woken (m : RwnxCmdMgr) : Prop :=
  m.pending = true ∨ m.worker ≠ none ∨ (.check ∈ m.callers ∧ m.queue_sz ≤ 1) ∨ .wake ∈ m.callers ∨
    ∃ tkn ∈ m.complete, .push tkn ∈ m.callers ∨ .wait tkn ∈ m.callers

/-- somebody sends the command or waits for its confirmation -/
def Handled (tkn : ℕ) (m : RwnxCmdMgr) : Prop :=
  m.worker = some (.wait tkn) ∨ .push tkn ∈ m.callers ∨ .wait tkn ∈ m.callers

/-- the first command is on its way -/
structure Alive (m : RwnxCmdMgr) : Prop where
  fresh : ∀ tkn ∈ m.complete, tkn < m.next_tkn
  unconfirmed : ∀ c ∈ m.cmds, c.tkn ∉ m.complete
  woken : m.crashed = false → ∀ c, m.cmds.head? = some c → c.wait_push = true → Woken m
  handled : m.crashed = false → ∀ c, m.cmds.head? = some c → c.wait_push = false → Handled c.tkn m

theorem init_alive : Alive rwnx_cmd_mgr_init := by
  refine ⟨?_, ?_, ?_, ?_⟩ <;> simp [rwnx_cmd_mgr_init]

def Act.Queues : Act → Prop
  | .queue _ _ _ => True
  | .force_defer _ _ => True
  | _ => False

theorem Woken.more (h : Woken m) (hcheck : .check ∉ m.callers) {m' : RwnxCmdMgr} (hp : m'.pending = m.pending)
    (hw : m'.worker = m.worker) (hc : m'.complete = m.complete) (hl : m.callers ⊆ m'.callers) : Woken m' := by
  rw [Woken, hp, hw, hc]
  obtain h | h | h | h | ⟨tkn, ht, h⟩ := h
  · exact .inl h
  · exact .inr (.inl h)
  · exact absurd h.1 hcheck
  · exact .inr (.inr (.inr (.inl (hl h))))
  · exact .inr (.inr (.inr (.inr ⟨tkn, ht, h.imp (fun h => hl h) fun h => hl h⟩)))

/-- a command is queued behind the others, or to be sent by its caller, or with a caller who is going to wake the worker -/
theorem Alive.listAdd (ho : Ordered m) (h : Alive m) (hcheck : .check ∉ m.callers) {reqid : ℕ} {wait_push done : Bool}
    {caller : ℕ → Caller} (hcaller : if wait_push then caller m.next_tkn = .check ∨ caller m.next_tkn = .wake
      else caller m.next_tkn = .push m.next_tkn) : Alive (listAdd reqid wait_push done caller m).2 := by
  have hsub : m.callers ⊆ m.callers ++ [caller m.next_tkn] := List.subset_append_left _ _
  have hlast : caller m.next_tkn ∈ m.callers ++ [caller m.next_tkn] := by simp
  refine ⟨fun tkn ht => Nat.lt_succ_of_lt (h.fresh tkn ht), ?_, ?_, ?_⟩
  · intro c hc
    obtain hc | hc := List.mem_append.1 hc
    · exact h.unconfirmed c hc
    · rw [List.mem_singleton.1 hc]
      exact fun ht => lt_irrefl _ (h.fresh _ ht)
  · intro hx c hc hpush
    cases hm : m.cmds with
    | nil =>
      simp only [CmdMgr.listAdd, hm, List.nil_append, List.head?_cons, Option.some.injEq] at hc
      obtain rfl := hc
      obtain rfl : wait_push = true := hpush
      have hsz : m.queue_sz = 0 := by rw [ho.queue_sz, hm, List.length_nil]
      rw [if_pos rfl] at hcaller
      obtain hk | hk := hcaller
      · exact .inr (.inr (.inl ⟨hk ▸ hlast, by simp [CmdMgr.listAdd, hsz]⟩))
      · exact .inr (.inr (.inr (.inl (hk ▸ hlast))))
    | cons d l =>
      simp only [CmdMgr.listAdd, hm, List.cons_append, List.head?_cons] at hc
      exact (h.woken hx c (by rw [hm, List.head?_cons]; exact hc) hpush).more hcheck rfl rfl rfl hsub
  · intro hx c hc hpush
    cases hm : m.cmds with
    | nil =>
      simp only [CmdMgr.listAdd, hm, List.nil_append, List.head?_cons, Option.some.injEq] at hc
      obtain rfl := hc
      obtain rfl : wait_push = false := hpush
      rw [if_neg (by decide)] at hcaller
      exact .inr (.inl (hcaller ▸ hlast))
    | cons d l =>
      simp only [CmdMgr.listAdd, hm, List.cons_append, List.head?_cons] at hc
      have hin := h.handled hx c (by rw [hm, List.head?_cons]; exact hc) hpush
      exact hin.imp_right fun hin => hin.imp (fun h => hsub h) fun h => hsub h

/-- a step by which the driver gives up -/
theorem Alive.crash (h : Alive m) {m' : RwnxCmdMgr} (hx : m'.crashed = true) (hc : m'.cmds ⊆ m.cmds)
    (hcompl : m'.complete = m.complete) (ht : m'.next_tkn = m.next_tkn) : Alive m' := by
  refine ⟨?_, ?_, fun hno => absurd (hx.symm.trans hno) (by decide), fun hno => absurd (hx.symm.trans hno) (by decide)⟩
  · rw [hcompl, ht]
    exact h.fresh
  · rw [hcompl]
    exact fun c hin => h.unconfirmed c (hc hin)

theorem mem_eraseIdx_of_ne {l : List Caller} {i : ℕ} {x y : Caller} (hx : l[i]? = some x) (hy : y ∈ l) (hne : y ≠ x) :
    y ∈ l.eraseIdx i := by
  obtain ⟨j, hj⟩ := List.getElem?_of_mem hy
  rw [List.mem_eraseIdx_iff_getElem?]
  refine ⟨j, fun hij => ?_, hj⟩
  rw [hij] at hj
  exact hne (Option.some.inj (hj.symm.trans hx))

theorem held_eraseIdx {l : List Caller} {i : ℕ} {x : Caller} (hx : l[i]? = some x) {tkn : ℕ} (hpush : .push tkn ≠ x)
    (hwait : .wait tkn ≠ x) (h : .push tkn ∈ l ∨ .wait tkn ∈ l) : .push tkn ∈ l.eraseIdx i ∨ .wait tkn ∈ l.eraseIdx i :=
  h.imp (fun h => mem_eraseIdx_of_ne hx h hpush) fun h => mem_eraseIdx_of_ne hx h hwait

theorem mem_set_of_ne {l : List Caller} {i : ℕ} {x y z : Caller} (hx : l[i]? = some x) (hy : y ∈ l) (hne : y ≠ x) :
    y ∈ l.set i z := by
  obtain ⟨j, hj⟩ := List.getElem?_of_mem hy
  have hij : i ≠ j := by
    intro hij
    rw [← hij] at hj
    exact hne (Option.some.inj (hj.symm.trans hx))
  apply List.mem_of_getElem? (i := j)
  rw [List.getElem?_set_ne hij, hj]

theorem caller_alive (h : Alive m) (i : ℕ) : Alive (callerStep i m).2 := by
  rw [callerStep]
  split
  · exact h
  · -- a look at `queue_sz`
    rename_i hi
    refine ⟨h.fresh, h.unconfirmed, fun hx c hc hp => ?_, fun hx c hc hp => ?_⟩
    · obtain hw | hw | hw | hw | ⟨tkn, ht, hw⟩ := h.woken hx c hc hp
      · exact .inl (by simp [hw])
      · exact .inr (.inl hw)
      · exact .inl (by simp [hw.2])
      · exact .inr (.inr (.inr (.inl (mem_eraseIdx_of_ne hi hw (by simp)))))
      · exact .inr (.inr (.inr (.inr ⟨tkn, ht, held_eraseIdx hi (by simp) (by simp) hw⟩)))
    · exact (h.handled hx c hc hp).imp_right (held_eraseIdx hi (by simp) (by simp))
  · rename_i hi
    refine ⟨h.fresh, h.unconfirmed, fun _ _ _ _ => .inl rfl, fun hx c hc hp => ?_⟩
    exact (h.handled hx c hc hp).imp_right (held_eraseIdx hi (by simp) (by simp))
  · -- the caller sends its command, and waits
    rename_i tkn hi
    have hwait : .wait tkn ∈ m.callers.set i (.wait tkn) := by
      have hlt := (List.getElem?_eq_some_iff.1 hi).1
      exact List.mem_set hlt _
    have hkeep : ∀ t, (.push t ∈ m.callers ∨ .wait t ∈ m.callers) →
        (.push t ∈ m.callers.set i (.wait tkn) ∨ .wait t ∈ m.callers.set i (.wait tkn)) := by
      intro t ht
      obtain ht | ht := ht
      · by_cases he : t = tkn
        · rw [he]
          exact .inr hwait
        · exact .inl (mem_set_of_ne hi ht (by simp [he]))
      · exact .inr (mem_set_of_ne hi ht (by simp))
    refine ⟨h.fresh, h.unconfirmed, fun hx c hc hp => ?_, fun hx c hc hp => ?_⟩
    · obtain hw | hw | hw | hw | ⟨t, ht, hw⟩ := h.woken hx c hc hp
      · exact .inl hw
      · exact .inr (.inl hw)
      · exact .inr (.inr (.inl ⟨mem_set_of_ne hi hw.1 (by simp), hw.2⟩))
      · exact .inr (.inr (.inr (.inl (mem_set_of_ne hi hw (by simp)))))
      · exact .inr (.inr (.inr (.inr ⟨t, ht, hkeep t hw⟩)))
    · exact (h.handled hx c hc hp).imp_right fun hw => hkeep c.tkn hw
  · rename_i tkn hi
    split
    · -- its command is confirmed, and it wakes the worker for the others
      rename_i hcompl
      refine ⟨h.fresh, h.unconfirmed, fun hx c hc _ => .inl ?_, fun hx c hc hp => ?_⟩
      · have hne : m.cmds ≠ [] := by
          intro hnil
          simp [hnil] at hc
        simp [hne]
      · have hother : c.tkn ≠ tkn := fun he => h.unconfirmed c (List.mem_of_mem_head? hc) (he ▸ hcompl)
        exact (h.handled hx c hc hp).imp_right (held_eraseIdx hi (by simp) (by simpa using hother))
    · exact h

theorem work_alive (h : Alive m) : Alive (cmd_mgr_task_process m).2 := by
  rw [cmd_mgr_task_process]
  split
  · rename_i hw
    split
    · refine ⟨h.fresh, h.unconfirmed, fun _ _ _ _ => .inr (.inl (by simp)), fun hx c hc hp => ?_⟩
      exact .inr ((h.handled hx c hc hp).resolve_left (by simp [hw]))
    · exact h
  · rename_i hw
    split
    · rename_i hnil
      refine ⟨h.fresh, h.unconfirmed, fun _ c hc => ?_, fun _ c hc => ?_⟩ <;> simp [hnil] at hc
    · rename_i c cs hcs
      split
      · refine ⟨h.fresh, ?_, fun _ d hd hp => ?_, fun _ d hd _ => ?_⟩
        · have hun := h.unconfirmed
          rw [hcs] at hun
          exact List.forall_mem_cons.2 (List.forall_mem_cons.1 hun)
        · simp only [List.head?_cons, Option.some.injEq] at hd
          rw [← hd] at hp
          exact absurd hp (by simp)
        · simp only [List.head?_cons, Option.some.injEq] at hd
          rw [← hd]
          exact .inl rfl
      · rename_i hsent
        have hhead : m.cmds.head? = some c := by rw [hcs, List.head?_cons]
        refine ⟨h.fresh, h.unconfirmed, fun _ d hd hp => ?_, fun hx d hd hp => ?_⟩
        · rw [Option.some.inj (hd.symm.trans hhead)] at hp
          exact absurd hp hsent
        · exact .inr ((h.handled hx d hd hp).resolve_left (by simp [hw]))
  · rename_i tkn hw
    split
    · rename_i hcompl
      refine ⟨h.fresh, h.unconfirmed, fun _ _ _ _ => .inr (.inl (by simp)), fun hx c hc hp => ?_⟩
      refine .inr ((h.handled hx c hc hp).resolve_left fun hin => ?_)
      rw [hw] at hin
      have htkn : tkn = c.tkn := by simpa using hin
      exact h.unconfirmed c (List.mem_of_mem_head? hc) (htkn ▸ hcompl)
    · exact h

/-- what is confirmed has another token than all that stay -/
theorem tkn_ne_of_find {p : RwnxCmd → Bool} {l : List RwnxCmd} (hl : l.Pairwise fun c d => c.tkn < d.tkn) {c d : RwnxCmd}
    (hc : l.find? p = some c) (hd : d ∈ l.eraseP p) : d.tkn ≠ c.tkn := by
  induction l with
  | nil => simp at hc
  | cons x l ih =>
    obtain ⟨hx, hl⟩ := List.pairwise_cons.1 hl
    cases hp : p x
    · rw [List.find?_cons_of_neg (by simp [hp])] at hc
      rw [List.eraseP_cons_of_neg (by simp [hp])] at hd
      obtain rfl | hd := List.mem_cons.1 hd
      · exact (hx c (List.mem_of_find?_eq_some hc)).ne
      · exact ih hl hc hd
    · rw [List.find?_cons_of_pos hp] at hc
      rw [List.eraseP_cons_of_pos hp] at hd
      obtain rfl := Option.some.inj hc
      exact (hx d hd).ne'

theorem head_eraseP {p : RwnxCmd → Bool} {x d : RwnxCmd} {l : List RwnxCmd} (hp : p x = false)
    (hd : ((x :: l).eraseP p).head? = some d) : d = x := by
  rw [List.eraseP_cons_of_neg (by simp [hp]), List.head?_cons] at hd
  exact (Option.some.inj hd).symm

theorem msgind_alive (ho : Ordered m) (h : Alive m) (id : ℕ) (cb : RwnxCmd → Bool) : Alive (cmd_mgr_msgind id cb m).2 := by
  rw [cmd_mgr_msgind]
  generalize (fun c : RwnxCmd => c.reqid == id && c.wait_cfm && cb c) = p
  split
  · exact h
  rename_i c₀ hc₀
  have hmem := List.mem_of_find?_eq_some hc₀
  have hsub : m.cmds.eraseP p ⊆ m.cmds := List.eraseP_subset
  have hsz : (cmd_complete p m).queue_sz ≤ m.queue_sz := by
    simp only [cmd_complete]
    split <;> omega
  have hwoken : Woken m → Woken { cmd_complete p m with complete := m.complete ++ [c₀.tkn] } := by
    intro hw
    obtain hw | hw | hw | hw | ⟨tkn, ht, hw⟩ := hw
    · exact .inl hw
    · exact .inr (.inl hw)
    · exact .inr (.inr (.inl ⟨hw.1, le_trans hsz hw.2⟩))
    · exact .inr (.inr (.inr (.inl hw)))
    · exact .inr (.inr (.inr (.inr ⟨tkn, List.mem_append_left _ ht, hw⟩)))
  -- who has handled the command that is confirmed wakes the worker for the next one
  have hnext : Handled c₀.tkn m → Woken { cmd_complete p m with complete := m.complete ++ [c₀.tkn] } := by
    intro hw
    obtain hw | hw := hw
    · exact .inr (.inl (by simp [cmd_complete, hw]))
    · exact .inr (.inr (.inr (.inr ⟨c₀.tkn, by simp, hw⟩)))
  refine ⟨?_, ?_, fun hx d hd hp => ?_, fun hx d hd hp => ?_⟩
  · intro tkn ht
    obtain ht | ht := List.mem_append.1 ht
    · exact h.fresh tkn ht
    · rw [List.mem_singleton.1 ht]
      exact ho.fresh c₀ hmem
  · intro d hd ht
    obtain ht | ht := List.mem_append.1 ht
    · exact h.unconfirmed d (hsub hd) ht
    · exact tkn_ne_of_find ho.tkns hc₀ hd (List.mem_singleton.1 ht)
  · cases hm : m.cmds with
    | nil => simp [hm] at hmem
    | cons x l =>
      have hhead : m.cmds.head? = some x := by rw [hm, List.head?_cons]
      cases hpx : p x
      · simp only [cmd_complete, hm] at hd
        have hd' : d = x := head_eraseP hpx hd
        rw [hd'] at hp
        exact hwoken (h.woken hx x hhead hp)
      · have hxc : x = c₀ := by
          rw [hm, List.find?_cons_of_pos hpx] at hc₀
          exact Option.some.inj hc₀
        cases hpush : x.wait_push
        · exact hnext (hxc ▸ h.handled hx x hhead hpush)
        · exact hwoken (h.woken hx x hhead hpush)
  · cases hm : m.cmds with
    | nil => simp [hm] at hmem
    | cons x l =>
      have hhead : m.cmds.head? = some x := by rw [hm, List.head?_cons]
      cases hpx : p x
      · simp only [cmd_complete, hm] at hd
        have hd' : d = x := head_eraseP hpx hd
        rw [hd'] at hp ⊢
        exact h.handled hx x hhead hp
      · -- behind the first all have still to be sent
        have hdl : d ∈ m.cmds.tail := by
          simp only [cmd_complete, hm, List.eraseP_cons_of_pos hpx] at hd
          rw [hm, List.tail_cons]
          exact List.mem_of_mem_head? hd
        rw [ho.deferred d hdl] at hp
        exact absurd hp (by decide)

theorem step_alive (ho : Ordered m) (h : Alive m) {a : Act} (ha : a.Queues → .check ∉ m.callers) : Alive (step a m).2 := by
  cases a with
  | queue reqid traffic done =>
    simp only [step, cmd_mgr_queue]
    split
    · exact h
    · split
      · exact h
      · split
        · exact h.listAdd ho (ha trivial) (by simp)
        · exact h.listAdd ho (ha trivial) (by simp)
  | force_defer reqid done =>
    simp only [step, cmd_mgr_queue_force_defer]
    split
    · exact h
    · split
      · exact h
      · exact h.listAdd ho (ha trivial) (by simp)
  | caller i => exact caller_alive h i
  | callerTimeout i =>
    simp only [step, callerTimeout]
    split
    · exact h.crash rfl List.eraseP_subset rfl rfl
    · exact h
  | work => exact work_alive h
  | workTimeout =>
    simp only [step, workerTimeout]
    split
    · exact h.crash rfl List.eraseP_subset rfl rfl
    · exact h
  | msgind id cb => exact msgind_alive ho h id cb

/-- no command is queued while a caller is about to look at `queue_sz` -/
def Timely : List Act → RwnxCmdMgr → Prop
  | [], _ => True
  | a :: l, m => (a.Queues → .check ∉ m.callers) ∧ Timely l (step a m).2

theorem run_alive (ho : Ordered m) (h : Alive m) {l : List Act} (hl : Timely l m) : Alive (run l m).2 := by
  induction l generalizing m with
  | nil => exact h
  | cons a l ih => exact ih (step_ordered ho a) (step_alive ho h hl.1) hl.2

/-- **No other wake-up is lost**: in every run in which no command comes in between, and until a command has timed out, the
worker runs or is about to be woken while the first command has to be sent, and when it is sent somebody waits for it -/
theorem cmd_wakes {l : List Act} (hl : Timely l rwnx_cmd_mgr_init) {c : RwnxCmd}
    (hx : (run l rwnx_cmd_mgr_init).2.crashed = false) (hc : (run l rwnx_cmd_mgr_init).2.cmds.head? = some c) :
    (c.wait_push = true → Woken (run l rwnx_cmd_mgr_init).2) ∧
      (c.wait_push = false → Handled c.tkn (run l rwnx_cmd_mgr_init).2) := by
  have h := run_alive init_ordered init_alive hl
  exact ⟨h.woken hx c hc, h.handled hx c hc⟩

theorem cmd_wakes_one : Woken (run [.queue 1 true false] rwnx_cmd_mgr_init).2 := by
  have htimely : Timely [.queue 1 true false] rwnx_cmd_mgr_init := ⟨fun _ => by simp [rwnx_cmd_mgr_init], trivial⟩
  exact (cmd_wakes htimely rfl rfl).1 rfl

end AvaotaOS.Aic8800.CmdMgr
