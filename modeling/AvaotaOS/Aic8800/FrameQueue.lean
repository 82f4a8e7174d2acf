/-
The frame queues of the AIC8800 Wi-Fi driver (`struct frame_queue` of `aic8800_fdrv/aicwf_txrxif.h`, its functions in
`aicwf_txrxif.c`): a list for each priority, with `hi_prio` a bound for the priorities that are in use.

A queue is used under its lock, so a run of it is a list of calls. `qcnt` counts up to `qmax`, which has 16 bits, so it does
not wrap.

- `enq_agrees`, `dequeue_agrees`, `empty_agrees`, `flush_agrees`: each function does what it does to a `PrioQueue` of
  bounded length.
- `frame_queue_refines`: so do whole runs, and within each priority frames leave in the order they came.
-/
import AvaotaOS.Core.PrioQueue

namespace AvaotaOS.Aic8800

open PrioQueue

/-! ## The code -/

structure FrameQueue (α : Type) where
  num_prio : ℕ
  hi_prio : ℕ
  qmax : ℕ
  qcnt : ℕ
  queuelist : ℕ → List α

namespace FrameQueue

variable {α : Type}

def aicwf_frame_queue_init (num_prio max_len : ℕ) : FrameQueue α :=
  ⟨num_prio % 2 ^ 16, 0, max_len % 2 ^ 16, 0, fun _ => []⟩

def aicwf_frame_queue_penq (pq : FrameQueue α) (prio : ℕ) (p : α) : Option α × FrameQueue α :=
  if pq.qmax ≤ (pq.queuelist prio).length then (none, pq)
  else
    (some p, { pq with
      queuelist := Function.update pq.queuelist prio (pq.queuelist prio ++ [p])
      qcnt := pq.qcnt + 1
      hi_prio := if pq.hi_prio < prio then prio else pq.hi_prio })

def aicwf_frame_enq (q : FrameQueue α) (pkt : α) (prio : ℕ) : Bool × FrameQueue α :=
  if (q.queuelist prio).length < q.qmax ∧ q.qcnt < q.qmax then (true, (aicwf_frame_queue_penq q prio pkt).2)
  else (false, q)

def aicwf_is_framequeue_empty (pq : FrameQueue α) : Bool :=
  let len := ((List.range (pq.hi_prio + 1)).map fun prio => (pq.queuelist prio).length).sum
  if 0 < len then false else true

/-- the loop of `aicwf_frame_dequeue` that lowers `hi_prio` -/
def lower (queuelist : ℕ → List α) : ℕ → ℕ
  | 0 => 0
  | prio + 1 => if (queuelist (prio + 1)).isEmpty then lower queuelist prio else prio + 1

def aicwf_frame_dequeue (pq : FrameQueue α) : Option α × FrameQueue α :=
  if pq.qcnt = 0 then (none, pq)
  else
    let prio := lower pq.queuelist pq.hi_prio
    match pq.queuelist prio with
    | [] => (none, { pq with hi_prio := prio })
    | p :: q =>
      (some p, { pq with hi_prio := prio, queuelist := Function.update pq.queuelist prio q, qcnt := pq.qcnt - 1 })

/-- the frames that are freed, and what is left of the queue: `hi_prio` stays -/
def aicwf_frame_queue_flush (pq : FrameQueue α) : List α × FrameQueue α :=
  let freed := (List.range pq.num_prio).flatMap pq.queuelist
  (freed, { pq with
    queuelist := fun prio => if prio < pq.num_prio then [] else pq.queuelist prio
    qcnt := pq.qcnt - freed.length })

/-! ## The queue it stands for -/

/-- the frames of `l`, in the order they came, wait in the queue -/
structure Agrees (l : List (Entry α)) (q : FrameQueue α) : Prop where
  queuelist : ∀ p, q.queuelist p = ofPrio p l
  qcnt : q.qcnt = l.length
  hi_prio : ∀ x ∈ l, x.1 ≤ q.hi_prio

variable {l : List (Entry α)} {q : FrameQueue α} {pkt : α} {prio : ℕ}

theorem init_agrees (num_prio max_len : ℕ) : Agrees [] (aicwf_frame_queue_init num_prio max_len : FrameQueue α) :=
  ⟨fun _ => rfl, rfl, by simp⟩

@[simp] theorem enq_num_prio (q : FrameQueue α) (pkt : α) (prio : ℕ) : (aicwf_frame_enq q pkt prio).2.num_prio = q.num_prio := by
  rw [aicwf_frame_enq, aicwf_frame_queue_penq]
  split
  · split <;> rfl
  · rfl

@[simp] theorem dequeue_num_prio (q : FrameQueue α) : (aicwf_frame_dequeue q).2.num_prio = q.num_prio := by
  rw [aicwf_frame_dequeue]
  split
  · rfl
  · simp only
    split <;> rfl

theorem penq_eq (h : (q.queuelist prio).length < q.qmax) :
    (aicwf_frame_queue_penq q prio pkt).2 = { q with
      queuelist := Function.update q.queuelist prio (q.queuelist prio ++ [pkt])
      qcnt := q.qcnt + 1
      hi_prio := if q.hi_prio < prio then prio else q.hi_prio } := by
  rw [aicwf_frame_queue_penq, if_neg (by omega)]

/-- **A frame is refused where the queue is full over all priorities**, the bound of its own list never decides -/
theorem enq_agrees (h : Agrees l q) (pkt : α) (prio : ℕ) :
    (aicwf_frame_enq q pkt prio).1 = decide (l.length < q.qmax) ∧ (aicwf_frame_enq q pkt prio).2.qmax = q.qmax ∧
      Agrees (if l.length < q.qmax then l ++ [(prio, pkt)] else l) (aicwf_frame_enq q pkt prio).2 := by
  by_cases hlt : l.length < q.qmax
  · have hq : (q.queuelist prio).length < q.qmax := by
      rw [h.queuelist]
      exact lt_of_le_of_lt ofPrio_length_le hlt
    have henq : aicwf_frame_enq q pkt prio = (true, (aicwf_frame_queue_penq q prio pkt).2) := by
      rw [aicwf_frame_enq, if_pos ⟨hq, by rw [h.qcnt]; exact hlt⟩]
    rw [henq, penq_eq hq, if_pos hlt, decide_eq_true hlt]
    refine ⟨rfl, rfl, ?_, ?_, ?_⟩
    · intro p
      change Function.update q.queuelist prio (q.queuelist prio ++ [pkt]) p = _
      by_cases hp : p = prio
      · obtain rfl := hp
        rw [Function.update_self, h.queuelist, ofPrio_append, ofPrio_cons_self (x := (p, pkt)), ofPrio_nil]
      · rw [Function.update_of_ne hp, h.queuelist, ofPrio_append, ofPrio_cons_ne fun he => hp he.symm, ofPrio_nil,
          List.append_nil]
    · rw [List.length_append, List.length_singleton, ← h.qcnt]
    · intro x hx
      have hle : x.1 ≤ q.hi_prio ∨ x.1 = prio := by
        obtain hx | hx := List.mem_append.1 hx
        · exact .inl (h.hi_prio x hx)
        · exact .inr (congrArg Prod.fst (List.mem_singleton.1 hx))
      change x.1 ≤ if q.hi_prio < prio then prio else q.hi_prio
      split <;> omega
  · have henq : aicwf_frame_enq q pkt prio = (false, q) := by
      rw [aicwf_frame_enq, if_neg]
      rw [h.qcnt]
      exact fun hand => hlt hand.2
    rw [henq, if_neg hlt, decide_eq_false hlt]
    exact ⟨rfl, rfl, h⟩

theorem empty_agrees (h : Agrees l q) : aicwf_is_framequeue_empty q = l.isEmpty := by
  cases l with
  | nil => simp [aicwf_is_framequeue_empty, h.queuelist]
  | cons x l =>
    have hx : x.1 ∈ List.range (q.hi_prio + 1) := List.mem_range.2 (Nat.lt_succ_of_le (h.hi_prio x List.mem_cons_self))
    have hpos : 0 < (q.queuelist x.1).length := by
      rw [h.queuelist, ofPrio_cons_self]
      exact Nat.succ_pos _
    have hsum : 0 < ((List.range (q.hi_prio + 1)).map fun prio => (q.queuelist prio).length).sum :=
      lt_of_lt_of_le hpos (List.single_le_sum (by simp) _ (List.mem_map_of_mem hx))
    simp only [aicwf_is_framequeue_empty, if_pos hsum]
    rfl

/-- the loop stops at the highest priority in use -/
theorem lower_eq {queuelist : ℕ → List α} {n k : ℕ} (hk : k ≤ n) (hne : queuelist k ≠ [])
    (h : ∀ p, k < p → queuelist p = []) : lower queuelist n = k := by
  induction n with
  | zero =>
    obtain rfl : k = 0 := by omega
    rfl
  | succ n ih =>
    by_cases he : k = n + 1
    · obtain rfl := he
      rw [lower, if_neg (by simpa using hne)]
    · rw [lower, h (n + 1) (by omega), List.isEmpty_nil, if_pos rfl]
      exact ih (by omega)

theorem dequeue_agrees (h : Agrees l q) :
    (aicwf_frame_dequeue q).1 = (next l).map Prod.snd ∧ (aicwf_frame_dequeue q).2.qmax = q.qmax ∧
      Agrees (rest l) (aicwf_frame_dequeue q).2 := by
  cases hx : next l with
  | none =>
    obtain rfl := next_none.1 hx
    have hd : aicwf_frame_dequeue q = (none, q) := by
      rw [aicwf_frame_dequeue, if_pos (by simpa using h.qcnt)]
    rw [hd]
    exact ⟨rfl, rfl, h⟩
  | some x =>
    obtain ⟨hself, hother, hhigh⟩ := take_spec hx
    have hmem := next_mem hx
    have hcnt : q.qcnt ≠ 0 := by
      rw [h.qcnt]
      exact (List.length_pos_of_mem hmem).ne'
    have hlist : q.queuelist x.1 = x.2 :: ofPrio x.1 (rest l) := by rw [h.queuelist, hself]
    have hlow : lower q.queuelist q.hi_prio = x.1 := by
      apply lower_eq (h.hi_prio x hmem)
      · simp [hlist]
      · intro p hp
        rw [h.queuelist, hhigh p hp]
    have hd : aicwf_frame_dequeue q = (some x.2, { q with
        hi_prio := x.1, queuelist := Function.update q.queuelist x.1 (ofPrio x.1 (rest l)), qcnt := q.qcnt - 1 }) := by
      simp only [aicwf_frame_dequeue, if_neg hcnt, hlow, hlist]
    rw [hd]
    refine ⟨rfl, rfl, ?_, ?_, ?_⟩
    · intro p
      by_cases hp : p = x.1
      · obtain rfl := hp
        exact Function.update_self x.1 _ q.queuelist
      · calc Function.update q.queuelist x.1 (ofPrio x.1 (rest l)) p = q.queuelist p := Function.update_of_ne hp _ _
          _ = ofPrio p (rest l) := by rw [h.queuelist, hother p hp]
    · have hlen := rest_length hx
      simp only [h.qcnt]
      omega
    · intro y hy
      have hle := le_top (mem_of_mem_rest hy)
      rw [← next_top hx] at hle
      exact hle

/-- **The flush frees each frame that waits**, once, and leaves the queue empty -/
theorem flush_agrees (h : Agrees l q) (hl : ∀ x ∈ l, x.1 < q.num_prio) :
    (aicwf_frame_queue_flush q).1.Perm (l.map Prod.snd) ∧ Agrees [] (aicwf_frame_queue_flush q).2 := by
  have hlists : q.queuelist = fun p => ofPrio p l := funext h.queuelist
  have hall : (l.filter fun x => x.1 < q.num_prio) = l := List.filter_eq_self.2 fun x hx => decide_eq_true (hl x hx)
  have hperm : (aicwf_frame_queue_flush q).1.Perm (l.map Prod.snd) := by
    calc (aicwf_frame_queue_flush q).1 = (List.range q.num_prio).flatMap fun p => ofPrio p l := by
          rw [aicwf_frame_queue_flush, hlists]
      List.Perm _ ((l.filter fun x => x.1 < q.num_prio).map Prod.snd) := flatMap_ofPrio_perm q.num_prio l
      _ = l.map Prod.snd := by rw [hall]
  refine ⟨hperm, ?_, ?_, by simp⟩
  · intro p
    change (if p < q.num_prio then [] else q.queuelist p) = []
    split
    · rfl
    · rename_i hp
      rw [h.queuelist]
      exact ofPrio_eq_nil fun x hx he => hp (he ▸ hl x hx)
  · have hlen := hperm.length_eq
    rw [List.length_map, ← h.qcnt] at hlen
    change q.qcnt - (aicwf_frame_queue_flush q).1.length = 0
    rw [hlen, Nat.sub_self]

/-! ## Runs -/

inductive Op (α : Type) where
  | enq (pkt : α) (prio : ℕ)
  | dequeue
  | empty

/-- what a call returns -/
inductive Ret (α : Type) where
  | bool (b : Bool)
  | frame (p : Option α)
deriving DecidableEq, Repr

def exec (q : FrameQueue α) : Op α → Ret α × FrameQueue α
  | .enq pkt prio => (.bool (aicwf_frame_enq q pkt prio).1, (aicwf_frame_enq q pkt prio).2)
  | .dequeue => (.frame (aicwf_frame_dequeue q).1, (aicwf_frame_dequeue q).2)
  | .empty => (.bool (aicwf_is_framequeue_empty q), q)

def runs : List (Op α) → FrameQueue α → List (Ret α) × FrameQueue α
  | [], q => ([], q)
  | o :: ops, q => ((exec q o).1 :: (runs ops (exec q o).2).1, (runs ops (exec q o).2).2)

/-- the queue in the order of arrival, with what has come into it and what was taken out so far -/
structure Spec (α : Type) where
  came : List (Entry α)
  taken : List (Entry α)
  held : List (Entry α)

/-- what a call is to do to a queue of the length `n` -/
def Spec.exec (n : ℕ) (s : Spec α) : Op α → Ret α × Spec α
  | .enq pkt prio =>
    if s.held.length < n then (.bool true, ⟨s.came ++ [(prio, pkt)], s.taken, s.held ++ [(prio, pkt)]⟩) else (.bool false, s)
  | .dequeue => (.frame ((next s.held).map Prod.snd), ⟨s.came, s.taken ++ (next s.held).toList, rest s.held⟩)
  | .empty => (.bool s.held.isEmpty, s)

def Spec.runs (n : ℕ) : List (Op α) → Spec α → List (Ret α) × Spec α
  | [], s => ([], s)
  | o :: ops, s => ((s.exec n o).1 :: (Spec.runs n ops (s.exec n o).2).1, (Spec.runs n ops (s.exec n o).2).2)

theorem exec_agrees {s : Spec α} (h : Agrees s.held q) (o : Op α) :
    (exec q o).1 = (s.exec q.qmax o).1 ∧ (exec q o).2.qmax = q.qmax ∧ Agrees (s.exec q.qmax o).2.held (exec q o).2 := by
  cases o with
  | enq pkt prio =>
    obtain ⟨hret, hmax, hag⟩ := enq_agrees h pkt prio
    by_cases hlt : s.held.length < q.qmax
    · rw [if_pos hlt] at hag
      rw [decide_eq_true hlt] at hret
      simp only [exec, Spec.exec, if_pos hlt, hret]
      exact ⟨trivial, hmax, hag⟩
    · rw [if_neg hlt] at hag
      rw [decide_eq_false hlt] at hret
      simp only [exec, Spec.exec, if_neg hlt, hret]
      exact ⟨trivial, hmax, hag⟩
  | dequeue =>
    obtain ⟨hret, hmax, hag⟩ := dequeue_agrees h
    exact ⟨congrArg Ret.frame hret, hmax, hag⟩
  | empty => exact ⟨congrArg Ret.bool (empty_agrees h), rfl, h⟩

theorem exec_flow {s : Spec α} {p n : ℕ} (h : Flow p s.came s.taken s.held) (o : Op α) :
    Flow p (s.exec n o).2.came (s.exec n o).2.taken (s.exec n o).2.held := by
  cases o with
  | enq pkt prio =>
    rw [Spec.exec]
    split
    · exact h.push _
    · exact h
  | dequeue =>
    cases hx : next s.held with
    | none =>
      obtain hnil := next_none.1 hx
      simp only [Spec.exec, hnil] at h ⊢
      simpa using h
    | some x =>
      have htake := h.take hx
      simpa [Spec.exec, hx] using htake
  | empty => exact h

theorem runs_agrees {s : Spec α} (h : Agrees s.held q) (ops : List (Op α)) :
    (runs ops q).1 = (Spec.runs q.qmax ops s).1 ∧ Agrees (Spec.runs q.qmax ops s).2.held (runs ops q).2 := by
  induction ops generalizing q s with
  | nil => exact ⟨rfl, h⟩
  | cons o ops ih =>
    obtain ⟨hret, hmax, hag⟩ := exec_agrees h o
    obtain ⟨hrets, hags⟩ := ih hag
    rw [hmax] at hrets hags
    exact ⟨by rw [runs, Spec.runs, hret, hrets], hags⟩

theorem spec_flow {s : Spec α} {p n : ℕ} (h : Flow p s.came s.taken s.held) (ops : List (Op α)) :
    Flow p (Spec.runs n ops s).2.came (Spec.runs n ops s).2.taken (Spec.runs n ops s).2.held := by
  induction ops generalizing s with
  | nil => exact h
  | cons o ops ih => exact ih (exec_flow h o)

/-- **A frame queue is a queue with priorities of the length `max_len`**: every run of calls returns what such a queue
returns, and within each priority the frames leave in the order they came, none lost and none twice -/
theorem frame_queue_refines (ops : List (Op α)) (num_prio : ℕ) {max_len : ℕ} (h : max_len < 2 ^ 16) :
    (runs ops (aicwf_frame_queue_init num_prio max_len)).1 = (Spec.runs max_len ops ⟨[], [], []⟩).1 ∧
      Agrees (Spec.runs max_len ops ⟨[], [], []⟩).2.held (runs ops (aicwf_frame_queue_init num_prio max_len)).2 ∧
      ∀ p, Flow p (Spec.runs max_len ops ⟨[], [], []⟩).2.came (Spec.runs max_len ops ⟨[], [], []⟩).2.taken
        (Spec.runs max_len ops ⟨[], [], []⟩).2.held := by
  have hmax : (aicwf_frame_queue_init num_prio max_len : FrameQueue α).qmax = max_len := Nat.mod_eq_of_lt h
  have hrun := runs_agrees (s := ⟨[], [], []⟩) (init_agrees num_prio max_len) ops
  rw [hmax] at hrun
  exact ⟨hrun.1, hrun.2, fun p => spec_flow Flow.nil ops⟩

/-- the queue of the sending side -/
theorem frame_queue_refines_txq :
    (runs [.enq 'a' 1, .enq 'b' 5, .enq 'c' 5, .dequeue, .dequeue, .dequeue, .empty]
      (aicwf_frame_queue_init 8 8192)).1 =
      (Spec.runs 8192 [.enq 'a' 1, .enq 'b' 5, .enq 'c' 5, .dequeue, .dequeue, .dequeue, .empty] ⟨[], [], []⟩).1 :=
  (frame_queue_refines _ 8 (by decide)).1

end FrameQueue

end AvaotaOS.Aic8800
