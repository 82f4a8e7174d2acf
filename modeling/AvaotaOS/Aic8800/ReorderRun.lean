/-
Whole runs of the reorder buffer of one traffic class: frames arrive, the timer fires, its work runs, the class is flushed,
in any order.

- `tracks_of_near`: where each frame is near the highest number so far, it is near the number the buffer waits for.
- `run_follows`: the code does what the buffer does.
- `reord_bounded`: for any sequence numbers.
- `reord_refines`: for a sender whose frames keep near each other; what is handed on in its turn ascends.
- `reord_undoes`: for frames that overtake each other by less than 64.
- `reord_drains`: no frame stays in the buffer.
-/
import AvaotaOS.Aic8800.Reorder

namespace AvaotaOS.Aic8800.Reorder

open ReorderBuffer

/-- what happens to a traffic class -/
inductive Op (α : Type) where
  | frame (x : α)
  | handler
  | worker
  | flush

def Op.map {α β : Type} (f : α → β) : Op α → Op β
  | .frame x => .frame (f x)
  | .handler => .handler
  | .worker => .worker
  | .flush => .flush

def exec : Op RecvMsdu → ReordCtrl → List Handed × ReordCtrl
  | .frame m, c => receive m c
  | .handler, c => ([], reord_timeout_handler c)
  | .worker, c => reord_timeout_worker c
  | .flush, c => reordFlush c

def runs : List (Op RecvMsdu) → ReordCtrl → List Handed × ReordCtrl
  | [], c => ([], c)
  | o :: ops, c => ((exec o c).1 ++ (runs ops (exec o c).2).1, (runs ops (exec o c).2).2)

def frames {α : Type} : List (Op α) → List α
  | [] => []
  | .frame x :: ops => x :: frames ops
  | _ :: ops => frames ops

/-! ## The buffer's side -/

/-- what the buffer sees of it -/
def Op.events : Op Item → List (Event Item)
  | .frame x => [.arrive x]
  | .handler => []
  | .worker => [.expire]
  | .flush => [.flush]

def events (ops : List (Op Item)) : List (Event Item) := ops.flatMap Op.events

abbrev Bufs := Run (Prod.fst : Item → ℤ) 64

def spec (o : Op Item) (s : Bufs) : Bufs := o.events.foldl Run.step s

/-- each frame is near the number the buffer waits for -/
def Tracks : Bufs → List (Op Item) → Prop
  | _, [] => True
  | s, o :: ops =>
    (∀ x, o = .frame x → Numbered x ∧ ∀ b, s.buf = some b → -2048 ≤ x.1 - b.next ∧ x.1 - b.next ≤ 2047) ∧ Tracks (spec o s) ops

theorem exec_follows {s : Bufs} {c : ReordCtrl} {o : Op Item} (h : Agrees s.buf c)
    (ho : ∀ x, o = .frame x → Numbered x ∧ ∀ b, s.buf = some b → -2048 ≤ x.1 - b.next ∧ x.1 - b.next ≤ 2047) :
    (exec (o.map Prod.snd) c).1 = (s.fates o.events).flatMap handed ∧ Agrees (spec o s).buf (exec (o.map Prod.snd) c).2 := by
  cases o with
  | frame x =>
    obtain ⟨hx, hnear⟩ := ho x rfl
    obtain ⟨hout, hag⟩ := receive_agrees h hx hnear
    have hbuf : (spec (.frame x) s).buf = some ((s.buf.getD (Buffer.start Prod.fst 64 x.1)).accept x).1 := by
      simp only [spec, Op.events, List.foldl_cons, List.foldl_nil, Run.step, Run.arrive]
      cases ((s.found x).accept x).2 <;> rfl
    rw [hbuf]
    refine ⟨?_, hag⟩
    simp only [Op.map, exec, Op.events, Run.fates, List.flatMap_cons, List.flatMap_nil, List.append_nil, Run.fate]
    exact hout
  | handler => exact ⟨rfl, handler_agrees h⟩
  | worker =>
    obtain ⟨hout, hag⟩ := worker_agrees h
    have hbuf : (spec .worker s).buf = s.buf.map fun b => b.expire.1 := by
      simp only [spec, Op.events, List.foldl_cons, List.foldl_nil, Run.step]
      cases hb : s.buf with
      | none => exact hb
      | some b => rfl
    rw [hbuf]
    refine ⟨?_, hag⟩
    simp only [Op.map, exec, Op.events, Run.fates, List.flatMap_cons, List.flatMap_nil, List.append_nil, Run.fate, handed]
    exact hout
  | flush =>
    obtain ⟨hout, hag⟩ := flush_agrees h
    refine ⟨?_, hag⟩
    simp only [Op.map, exec, Op.events, Run.fates, List.flatMap_cons, List.flatMap_nil, List.append_nil, Run.fate, handed]
    exact hout

theorem fates_append (s : Bufs) (es es' : List (Event Item)) :
    s.fates (es ++ es') = s.fates es ++ (es.foldl Run.step s).fates es' := by
  induction es generalizing s with
  | nil => rfl
  | cons e es ih => simp [Run.fates, ih]

/-- **The code does what the buffer does**, as long as the frames keep near the number it waits for -/
theorem run_follows {s : Bufs} {c : ReordCtrl} {ops : List (Op Item)} (h : Agrees s.buf c) (ht : Tracks s ops) :
    (runs (ops.map (Op.map Prod.snd)) c).1 = (s.fates (events ops)).flatMap handed ∧
      Agrees ((events ops).foldl Run.step s).buf (runs (ops.map (Op.map Prod.snd)) c).2 := by
  induction ops generalizing s c with
  | nil => exact ⟨rfl, h⟩
  | cons o ops ih =>
    obtain ⟨ho, ht⟩ := ht
    obtain ⟨hout, hag⟩ := exec_follows h ho
    obtain ⟨houts, hags⟩ := ih hag ht
    have hev : events (o :: ops) = o.events ++ events ops := by rw [events, List.flatMap_cons, events]
    rw [hev, fates_append, List.flatMap_append, List.foldl_append]
    refine ⟨?_, hags⟩
    rw [List.map_cons, runs, hout, houts]
    rfl

/-! ## Any sequence numbers -/

/-- the number nearest to the one the buffer waits for -/
def lift (s : Bufs) (m : RecvMsdu) : Item :=
  match s.buf with
  | none => (m.seq_num, m)
  | some b => (b.next + ((m.seq_num - b.next + 2048) % 4096 - 2048), m)

def liftOp (s : Bufs) : Op RecvMsdu → Op Item
  | .frame m => .frame (lift s m)
  | .handler => .handler
  | .worker => .worker
  | .flush => .flush

def lifted : Bufs → List (Op RecvMsdu) → List (Op Item)
  | _, [] => []
  | s, o :: ops => liftOp s o :: lifted (spec (liftOp s o) s) ops

theorem lift_snd (s : Bufs) (m : RecvMsdu) : (lift s m).2 = m := by
  unfold lift
  cases s.buf <;> rfl

theorem liftOp_map (s : Bufs) (o : Op RecvMsdu) : (liftOp s o).map Prod.snd = o := by
  cases o with
  | frame m => rw [liftOp, Op.map, lift_snd]
  | handler => rfl
  | worker => rfl
  | flush => rfl

theorem lifted_map (s : Bufs) (ops : List (Op RecvMsdu)) : (lifted s ops).map (Op.map Prod.snd) = ops := by
  induction ops generalizing s with
  | nil => rfl
  | cons o ops ih => rw [lifted, List.map_cons, liftOp_map, ih]

theorem mem_frames {α : Type} {x : α} {ops : List (Op α)} : x ∈ frames ops ↔ .frame x ∈ ops := by
  induction ops with
  | nil => simp [frames]
  | cons o ops ih => cases o <;> simp [frames, ih]

theorem lifted_tracks {s : Bufs} {ops : List (Op RecvMsdu)} (h : ∀ m ∈ frames ops, m.seq_num < 4096) :
    Tracks s (lifted s ops) := by
  induction ops generalizing s with
  | nil => trivial
  | cons o ops ih =>
    have htail : ∀ m ∈ frames ops, m.seq_num < 4096 :=
      fun m hm => h m (mem_frames.2 (List.mem_cons_of_mem o (mem_frames.1 hm)))
    refine ⟨?_, ih htail⟩
    intro x hx
    cases o with
    | frame m =>
      obtain rfl := Op.frame.inj hx
      have hm := h m (mem_frames.2 List.mem_cons_self)
      unfold Numbered
      rw [lift_snd]
      unfold lift
      cases hb : s.buf with
      | none =>
        refine ⟨by simp only; omega, ?_⟩
        intro b hb'
        cases hb'
      | some b =>
        refine ⟨by simp only; omega, ?_⟩
        intro b' hb'
        obtain rfl := Option.some.inj hb'
        simp only
        omega
    | handler => cases hx
    | worker => cases hx
    | flush => cases hx

theorem init_agrees : Agrees (Run.init (Prod.fst : Item → ℤ) 64).buf ReordCtrl.init := ⟨rfl, fun _ => ⟨rfl, rfl⟩⟩

theorem arrivals_events (ops : List (Op Item)) : arrivals (events ops) = frames ops := by
  induction ops with
  | nil => rfl
  | cons o ops ih =>
    rw [events, List.flatMap_cons, arrivals_append]
    cases o with
    | frame x => simp only [Op.events, arrivals, frames, ← ih]; rfl
    | handler => exact ih
    | worker => exact ih
    | flush => exact ih

theorem frames_map {α β : Type} (f : α → β) (ops : List (Op α)) : frames (ops.map (Op.map f)) = (frames ops).map f := by
  induction ops with
  | nil => rfl
  | cons o ops ih => cases o <;> simp [frames, Op.map, ih]

theorem handed_pframe (f : Fate Item) : (handed f).map Handed.pframe = f.items.map Prod.snd := by
  cases f with
  | late x =>
    simp only [handed, lateHanded, Fate.items, List.map_cons, List.map_nil]
    split_ifs <;> rfl
  | repeated x => rfl
  | taken l =>
    rw [handed, Fate.items, List.map_map]
    rfl

theorem handeds_pframe (l : List (Fate Item)) :
    (l.flatMap handed).map Handed.pframe = (l.flatMap Fate.items).map Prod.snd := by
  induction l with
  | nil => rfl
  | cons f l ih => rw [List.flatMap_cons, List.flatMap_cons, List.map_append, List.map_append, handed_pframe, ih]

/-- what a control block that agrees with the buffer holds -/
theorem agrees_list {s : Bufs} {c : ReordCtrl} (h : Agrees s.buf c) : c.reord_list = s.held.map Prod.snd := by
  unfold Run.held
  cases hb : s.buf with
  | none =>
    rw [hb] at h
    exact h.1
  | some b =>
    rw [hb] at h
    exact h.list

theorem agrees_armed {b : Option Buf} {c : ReordCtrl} (h : Agrees b c) :
    c.reord_list ≠ [] → c.reord_timer = true ∨ c.reord_timer_work = true := by
  cases b with
  | none => exact fun hne => absurd h.1 hne
  | some b => exact h.armed

theorem agrees_length {b : Option Buf} {c : ReordCtrl} (h : Agrees b c) : c.reord_list.length ≤ 63 := by
  cases b with
  | none =>
    rw [h.1]
    exact Nat.zero_le 63
  | some b =>
    have := b.length_lt (by omega)
    rw [h.list, List.length_map]
    omega

/-- from a control block that holds a buffer: what is handed on or freed and what waits then is what waited and what came -/
theorem runs_accounts {b : Option Buf} {c : ReordCtrl} {ops : List (Op RecvMsdu)} (h : Agrees b c)
    (hseq : ∀ m ∈ frames ops, m.seq_num < 4096) :
    (∃ b', Agrees b' (runs ops c).2) ∧
      ((runs ops c).1.map Handed.pframe ++ (runs ops c).2.reord_list).Perm (c.reord_list ++ frames ops) := by
  have hs : Agrees (⟨b, [], [], []⟩ : Bufs).buf c := h
  generalize (⟨b, [], [], []⟩ : Bufs) = s at hs
  obtain ⟨hout, hag⟩ := run_follows hs (lifted_tracks (s := s) hseq)
  have hall := (fates_perm s (events (lifted s ops))).map Prod.snd
  rw [arrivals_events, List.map_append, List.map_append, ← frames_map, ← handeds_pframe, ← hout, ← agrees_list hag,
    ← agrees_list hs, lifted_map] at hall
  rw [lifted_map] at hag
  exact ⟨⟨_, hag⟩, hall⟩

/-- **Whatever the sequence numbers**, at most 63 frames wait, with the timer or its work on the way, and every frame that
came was handed on, was freed or waits, and that once -/
theorem reord_bounded {ops : List (Op RecvMsdu)} (h : ∀ m ∈ frames ops, m.seq_num < 4096) :
    (runs ops .init).2.reord_list.length ≤ 63 ∧
      ((runs ops .init).2.reord_list ≠ [] → (runs ops .init).2.reord_timer = true ∨ (runs ops .init).2.reord_timer_work = true) ∧
      ((runs ops .init).1.map Handed.pframe ++ (runs ops .init).2.reord_list).Perm (frames ops) := by
  obtain ⟨⟨b, hag⟩, hall⟩ := runs_accounts init_agrees h
  exact ⟨agrees_length hag, agrees_armed hag, hall⟩

/-- a frame of its own descriptor -/
def frameOf (seq_num : ℕ) : RecvMsdu := ⟨seq_num % 250, none, 0, seq_num, true, false, fun _ => 0⟩

/-- three frames over the wrap, the last two in the wrong order -/
def overWrap : List Item := [(4095, frameOf 4095), (4097, frameOf 1), (4096, frameOf 0)]

def overWrapOps : List (Op RecvMsdu) := overWrap.map fun y => .frame y.2

theorem overWrap_seq : ∀ m ∈ frames overWrapOps, m.seq_num < 4096 := by
  simp [overWrapOps, overWrap, frames, frameOf]

theorem reord_bounded_overWrap : (runs overWrapOps .init).2.reord_list.length ≤ 63 :=
  (reord_bounded overWrap_seq).1

/-! ## A sender's frames -/

/-- each frame is near the highest one since the class was switched on -/
def Near : Option ℤ → List (Op Item) → Prop
  | _, [] => True
  | hi, .frame x :: ops =>
    Numbered x ∧ (∀ k, hi = some k → k - 2047 ≤ x.1 ∧ x.1 ≤ k + 1984) ∧ Near (some (max (hi.getD x.1) x.1)) ops
  | _, .flush :: ops => Near none ops
  | hi, _ :: ops => Near hi ops

/-- the buffer waits near the highest number it has seen -/
structure Top (hi : ℤ) (b : Buf) : Prop where
  le : b.next ≤ hi + 1
  ge : hi - 63 ≤ b.next
  held : ∀ x ∈ b.held, x.1 ≤ hi

def Tops (hi : Option ℤ) (b : Option Buf) : Prop := (b = none ∧ hi = none) ∨ ∃ b' k, b = some b' ∧ hi = some k ∧ Top k b'

theorem Top.raise {k k' : ℤ} {b : Buf} (h : Top k b) (hk : k ≤ k') (hb : k' - 63 ≤ b.next) : Top k' b :=
  ⟨le_trans h.le (by omega), hb, fun x hx => le_trans (h.held x hx) hk⟩

theorem top_accept {k : ℤ} {b : Buf} (h : Top k b) (x : Item) : Top (max k x.1) (b.accept x).1 := by
  have hle := h.le
  have hge := h.ge
  rcases b.accept_cases x with ⟨hlt, ha⟩ | ⟨-, ⟨y, hy, he⟩, ha⟩ | ⟨l, hxb, hl, hn, hh, -⟩
  · rw [ha]
    exact h.raise (by omega) (by omega)
  · have := h.held y hy
    rw [ha]
    exact h.raise (by omega) (by omega)
  · have hmem : ∀ y ∈ l, y.1 ≤ max k x.1 := by
      intro y hy
      rcases (place_mem Prod.fst hl y).1 hy with rfl | hy
      · exact le_max_right _ _
      · exact le_trans (h.held y hy) (le_max_left _ _)
    have hslide : b.next ≤ b.slide x ∧ x.1 - 63 ≤ b.slide x ∧ b.slide x ≤ max k x.1 + 1 := by
      unfold Buffer.slide
      omega
    have hlow := advance_ge Prod.fst (b.slide x) l
    have htop : advance Prod.fst (b.slide x) l ≤ max k x.1 + 1 := by
      apply advance_le
      · exact hslide.2.2
      · intro y hy
        have := hmem y hy
        omega
    refine ⟨by rw [hn]; exact htop, by rw [hn]; omega, ?_⟩
    intro y hy
    rw [hh] at hy
    exact hmem y ((List.dropWhile_sublist _).subset hy)

theorem top_expire {k : ℤ} {b : Buf} (h : Top k b) : Top k b.expire.1 := by
  have hle := h.le
  have hge := h.ge
  rcases b.expire_cases with ⟨-, hb⟩ | ⟨y, l, hy, hn, hh, -⟩
  · rw [hb]
    exact h
  · have hyb : y ∈ b.held := hy ▸ List.mem_cons_self
    have hlow := advance_ge Prod.fst y.1 b.held
    have hpast := b.past y hyb
    have htop : advance Prod.fst y.1 b.held ≤ k + 1 := by
      apply advance_le
      · have := h.held y hyb
        omega
      · intro z hz
        have := h.held z hz
        omega
    refine ⟨by rw [hn]; exact htop, by rw [hn]; omega, ?_⟩
    intro z hz
    rw [hh] at hz
    exact h.held z ((List.dropWhile_sublist _).subset hz)

theorem top_start (x : Item) : Top x.1 (Buffer.start Prod.fst 64 x.1) := by
  refine ⟨?_, ?_, by simp [Buffer.start]⟩ <;> simp only [Buffer.start] <;> omega

theorem step_arrive_buf (s : Bufs) (x : Item) : (s.step (.arrive x)).buf = some ((s.found x).accept x).1 := by
  simp only [Run.step, Run.arrive]
  cases ((s.found x).accept x).2 <;> rfl

/-- frames that are near the highest one are near the number the buffer waits for -/
theorem tracks_of_near {s : Bufs} {hi : Option ℤ} {ops : List (Op Item)} (ht : Tops hi s.buf) (h : Near hi ops) :
    Tracks s ops := by
  induction ops generalizing s hi with
  | nil => trivial
  | cons o ops ih =>
    cases o with
    | frame x =>
      obtain ⟨hx, hnear, h⟩ := h
      refine ⟨?_, ih ?_ h⟩
      · intro y hy
        obtain rfl := Op.frame.inj hy
        refine ⟨hx, ?_⟩
        intro b hb
        rcases ht with ⟨hn, -⟩ | ⟨b', k, hb', hk, ht⟩
        · rw [hn] at hb
          cases hb
        · obtain rfl := Option.some.inj (hb.symm.trans hb')
          have := hnear k hk
          have := ht.le
          have := ht.ge
          omega
      · right
        refine ⟨_, max (hi.getD x.1) x.1, step_arrive_buf s x, rfl, ?_⟩
        rcases ht with ⟨hn, hk⟩ | ⟨b', k, hb', hk, ht⟩
        · have hfound : s.found x = Buffer.start Prod.fst 64 x.1 := by rw [Run.found, hn, Option.getD_none]
          rw [hfound, hk, Option.getD_none]
          exact top_accept (top_start x) x
        · have hfound : s.found x = b' := by rw [Run.found, hb', Option.getD_some]
          rw [hfound, hk, Option.getD_some]
          exact top_accept ht x
    | handler => exact ⟨fun x hx => (by cases hx), ih ht h⟩
    | worker =>
      refine ⟨fun x hx => (by cases hx), ih ?_ h⟩
      simp only [spec, Op.events, List.foldl_cons, List.foldl_nil, Run.step]
      rcases ht with ⟨hn, hk⟩ | ⟨b', k, hb', hk, ht⟩
      · left
        simp only [hn]
        exact ⟨trivial, hk⟩
      · right
        simp only [hb']
        exact ⟨_, k, rfl, hk, top_expire ht⟩
    | flush => exact ⟨fun x hx => (by cases hx), ih (Or.inl ⟨rfl, rfl⟩) h⟩

theorem tops_init : Tops none (Run.init (Prod.fst : Item → ℤ) 64).buf := Or.inl ⟨rfl, rfl⟩

theorem runs_near {ops : List (Op Item)} (h : Near none ops) :
    (runs (ops.map (Op.map Prod.snd)) .init).1 = ((Run.init Prod.fst 64).fates (events ops)).flatMap handed ∧
      Agrees (Run.run Prod.fst 64 (events ops)).buf (runs (ops.map (Op.map Prod.snd)) .init).2 :=
  run_follows init_agrees (tracks_of_near tops_init h)

theorem events_unflushed {ops : List (Op Item)} (h : ∀ o ∈ ops, o ≠ .flush) : ∀ e ∈ events ops, e ≠ .flush := by
  intro e he hf
  obtain ⟨o, ho, he⟩ := List.mem_flatMap.1 he
  subst hf
  cases o with
  | flush => exact h _ ho rfl
  | frame x => simp [Op.events] at he
  | handler => simp [Op.events] at he
  | worker => simp [Op.events] at he

/-- **The code refines the buffer that counts without wrapping**, and while nothing is flushed the frames that it hands on
in their turn ascend, across any number of wraps -/
theorem reord_refines {ops : List (Op Item)} (h : Near none ops) :
    (runs (ops.map (Op.map Prod.snd)) .init).1 = ((Run.init Prod.fst 64).fates (events ops)).flatMap handed ∧
      Agrees (Run.run Prod.fst 64 (events ops)).buf (runs (ops.map (Op.map Prod.snd)) .init).2 ∧
      ((∀ o ∈ ops, o ≠ .flush) → Ascending Prod.fst (((Run.init Prod.fst 64).fates (events ops)).flatMap Fate.out)) := by
  obtain ⟨hout, hag⟩ := runs_near h
  refine ⟨hout, hag, ?_⟩
  intro hf
  have hasc : Ascending Prod.fst (Run.run Prod.fst 64 (events ops)).out := run_ascending (events_unflushed hf)
  rw [Run.run, Run.foldl_out] at hasc
  exact hasc

theorem reord_refines_overWrap :
    Agrees (Run.run Prod.fst 64 (events (overWrap.map .frame))).buf (runs ((overWrap.map .frame).map (Op.map Prod.snd)) .init).2 := by
  have h : Near none (overWrap.map .frame) := by simp [overWrap, Near, Numbered, frameOf]
  exact (reord_refines h).2.1

/-! ## Frames that overtake each other by less than 64 -/

theorem events_frames (l : List Item) : events (l.map .frame) = l.map .arrive := by
  induction l with
  | nil => rfl
  | cons x l ih =>
    rw [List.map_cons, List.map_cons, ← ih]
    rfl

/-- frames that keep to the window and do not come twice are near each other -/
theorem near_of_close {m k : ℤ} {p l : List Item} (hc : Close Prod.fst 64 m (p ++ l)) (hnum : ∀ y ∈ l, Numbered y)
    (hd : ((p ++ l).map Prod.fst).Nodup) (hm : ∀ y ∈ p ++ l, m ≤ y.1) (hk : k ∈ nums Prod.fst p) (htop : ∀ y ∈ p, y.1 ≤ k) :
    Near (some k) (l.map .frame) := by
  induction l generalizing p k with
  | nil => trivial
  | cons y l ih =>
    have hy : y ∈ p ++ y :: l := List.mem_append_right p List.mem_cons_self
    obtain ⟨z, hz, rfl⟩ := hk
    have happ : p ++ y :: l = (p ++ [y]) ++ l := by simp
    refine ⟨hnum y List.mem_cons_self, ?_, ?_⟩
    · intro k hk
      obtain rfl := Option.some.inj hk
      have hupper : y.1 ≤ z.1 + 64 := by
        by_contra hgt
        have hzm := hm z (List.mem_append_left _ hz)
        obtain ⟨u, hu, hue⟩ := hc p y ⟨l, by simp⟩ (z.1 + 1) (by omega) (by omega)
        have := htop u hu
        omega
      have hlower : z.1 - 64 < y.1 := by
        by_contra hle
        obtain ⟨q, r, rfl⟩ := List.append_of_mem hz
        obtain ⟨u, hu, hue⟩ := hc q z ⟨r ++ y :: l, by simp⟩ y.1 (hm y hy) (by omega)
        rw [List.map_append, List.nodup_append] at hd
        have hup : u ∈ q ++ z :: r := List.mem_append_left _ hu
        exact hd.2.2 _ (List.mem_map_of_mem hup) _ (List.mem_map_of_mem List.mem_cons_self) hue
      omega
    · rw [Option.getD_some]
      rw [happ] at hc hd hm
      apply ih hc (fun u hu => hnum u (List.mem_cons_of_mem y hu)) hd hm
      · rcases le_total z.1 y.1 with hle | hle
        · exact ⟨y, List.mem_append_right p List.mem_cons_self, (max_eq_right hle).symm⟩
        · exact ⟨z, List.mem_append_left _ hz, (max_eq_left hle).symm⟩
      · intro u hu
        rcases List.mem_append.1 hu with hu | hu
        · exact le_trans (htop u hu) (le_max_left _ _)
        · rw [List.mem_singleton.1 hu]
          exact le_max_right _ _

theorem handed_taken {l : List (Fate Item)} (h : ∀ f ∈ l, ∃ o, f = .taken o) :
    l.flatMap handed = (l.flatMap Fate.out).map fun x => .ind x.2 := by
  induction l with
  | nil => rfl
  | cons f l ih =>
    obtain ⟨o, rfl⟩ := h f List.mem_cons_self
    rw [List.flatMap_cons, List.flatMap_cons, List.map_append, ih fun g hg => h g (List.mem_cons_of_mem _ hg)]
    rfl

/-- **Frames that overtake each other by less than 64 reach the network stack in the order they were sent in**: all up to
the first that is missing, and the others wait -/
theorem reord_undoes {x : Item} {l : List Item} (hnum : ∀ y ∈ x :: l, Numbered y) (hc : Close Prod.fst 64 x.1 (x :: l))
    (hd : ((x :: l).map Prod.fst).Nodup) (hm : ∀ y ∈ x :: l, x.1 ≤ y.1) :
    ∃ (out held : List Item) (g : ℤ), (out ++ held).Perm (x :: l) ∧ IsGap (nums Prod.fst (x :: l)) x.1 g ∧
      out.map Prod.fst = upTo x.1 g ∧ (runs ((x :: l).map fun y => .frame y.2) .init).1 = out.map (fun y => .ind y.2) ∧
      (runs ((x :: l).map fun y => .frame y.2) .init).2.reord_list = held.map Prod.snd := by
  have hnear : Near none ((x :: l).map .frame) := by
    refine ⟨hnum x List.mem_cons_self, by simp, ?_⟩
    rw [Option.getD_none, max_self]
    exact near_of_close (p := [x]) hc (fun y hy => hnum y (List.mem_cons_of_mem x hy)) hd hm ⟨x, List.mem_cons_self, rfl⟩
      (by simp)
  have hops : ((x :: l).map .frame).map (Op.map Prod.snd) = (x :: l).map fun y : Item => Op.frame y.2 := by
    rw [List.map_map]
    rfl
  obtain ⟨hout, hag⟩ := runs_near hnear
  rw [hops, events_frames] at hout hag
  obtain ⟨g, hg, ho, -, hclean⟩ := in_order hc
  obtain ⟨hlate, hrep⟩ := hclean hd hm
  obtain ⟨-, -, htaken⟩ := Run.foldl_clean hlate hrep
  have hleft : (Run.run Prod.fst 64 ((x :: l).map .arrive)).out =
      ((Run.init Prod.fst 64).fates ((x :: l).map .arrive)).flatMap Fate.out := by
    rw [Run.run, Run.foldl_out]
    rfl
  have hperm : (Run.run Prod.fst 64 ((x :: l).map .arrive)).all.Perm (arrivals ((x :: l).map .arrive)) :=
    run_perm ((x :: l).map .arrive)
  rw [Run.all, hlate, hrep, List.append_nil, List.append_nil, ← events_frames, arrivals_events] at hperm
  have hframes : frames ((x :: l).map .frame) = x :: l := by
    generalize x :: l = l'
    induction l' with
    | nil => rfl
    | cons y l' ih => rw [List.map_cons, frames, ih]
  rw [hframes, events_frames] at hperm
  refine ⟨_, _, g, hperm, hg, ho, ?_, agrees_list hag⟩
  rw [hout, handed_taken htaken, hleft]

theorem reord_undoes_overWrap :
    ∃ (out held : List Item) (g : ℤ), (out ++ held).Perm overWrap ∧ IsGap (nums Prod.fst overWrap) 4095 g ∧
      out.map Prod.fst = upTo 4095 g ∧ (runs overWrapOps .init).1 = out.map (fun y => .ind y.2) ∧
      (runs overWrapOps .init).2.reord_list = held.map Prod.snd := by
  have hc : Close Prod.fst 64 4095 overWrap := by
    intro p x hp k hk hx
    have hmem : x ∈ overWrap := hp.subset (List.mem_append_right p List.mem_cons_self)
    have hle : x.1 ≤ 4097 := by
      simp only [overWrap, List.mem_cons, List.not_mem_nil, or_false] at hmem
      rcases hmem with rfl | rfl | rfl <;> decide
    omega
  exact reord_undoes (by simp [Numbered, frameOf]) hc (by simp) (by simp)

/-! ## No frame stays -/

theorem runs_append (ops ops' : List (Op RecvMsdu)) (c : ReordCtrl) :
    runs (ops ++ ops') c = ((runs ops c).1 ++ (runs ops' (runs ops c).2).1, (runs ops' (runs ops c).2).2) := by
  induction ops generalizing c with
  | nil => rfl
  | cons o ops ih => simp [runs, ih]

/-- the work of the timer hands on the first of the frames that wait, at least -/
theorem worker_progress {b : Option Buf} {c : ReordCtrl} (h : Agrees b c) :
    ∃ b', Agrees b' (reord_timeout_worker c).2 ∧
      (reord_timeout_worker c).1 ++ (reord_timeout_worker c).2.reord_list.map .ind = c.reord_list.map .ind ∧
      (c.reord_list ≠ [] → (reord_timeout_worker c).2.reord_list.length < c.reord_list.length) := by
  obtain ⟨hout, hag⟩ := worker_agrees h
  refine ⟨_, hag, ?_⟩
  cases b with
  | none =>
    rw [hout, h.1, hag.1]
    exact ⟨rfl, fun hne => absurd rfl hne⟩
  | some b =>
    rw [hout, h.list, hag.list, List.map_map, List.map_map]
    refine ⟨?_, ?_⟩
    · conv_rhs => rw [← b.expire_append]
      rw [List.map_append]
      rfl
    · intro hne
      rw [List.length_map, List.length_map]
      apply Buffer.expire_shorter
      intro hnil
      rw [hnil] at hne
      exact hne rfl

theorem workers_drain {b : Option Buf} {c : ReordCtrl} (h : Agrees b c) {n : ℕ} (hn : c.reord_list.length ≤ n) :
    (runs (List.replicate n .worker) c).1 = c.reord_list.map .ind ∧ (runs (List.replicate n .worker) c).2.reord_list = [] := by
  induction n generalizing b c with
  | zero =>
    have hnil : c.reord_list = [] := List.eq_nil_of_length_eq_zero (by omega)
    rw [hnil]
    exact ⟨rfl, hnil⟩
  | succ n ih =>
    obtain ⟨b', hag, hout, hlt⟩ := worker_progress h
    have hle : (reord_timeout_worker c).2.reord_list.length ≤ n := by
      by_cases hne : c.reord_list = []
      · rw [hne] at hout
        rw [List.map_eq_nil_iff.1 (List.append_eq_nil_iff.1 hout).2]
        exact Nat.zero_le n
      · have := hlt hne
        omega
    obtain ⟨houts, hnil⟩ := ih hag hle
    rw [List.replicate_succ]
    refine ⟨?_, hnil⟩
    calc (runs (.worker :: List.replicate n .worker) c).1
        = (reord_timeout_worker c).1 ++ (runs (List.replicate n .worker) (reord_timeout_worker c).2).1 := rfl
      _ = (reord_timeout_worker c).1 ++ (reord_timeout_worker c).2.reord_list.map .ind := by rw [houts]
      _ = c.reord_list.map .ind := hout

/-- **No frame stays in the buffer**: after 63 timeouts all that waited were handed on, in order -/
theorem reord_drains {ops : List (Op RecvMsdu)} (h : ∀ m ∈ frames ops, m.seq_num < 4096) {n : ℕ} (hn : 63 ≤ n) :
    (runs (ops ++ List.replicate n .worker) .init).1 = (runs ops .init).1 ++ (runs ops .init).2.reord_list.map .ind ∧
      (runs (ops ++ List.replicate n .worker) .init).2.reord_list = [] := by
  obtain ⟨⟨b, hag⟩, -⟩ := runs_accounts init_agrees h
  rw [runs_append]
  have hdrain := workers_drain hag (le_trans (agrees_length hag) hn)
  rw [hdrain.1]
  exact ⟨rfl, hdrain.2⟩

theorem reord_drains_overWrap : (runs (overWrapOps ++ List.replicate 63 .worker) .init).2.reord_list = [] :=
  (reord_drains overWrap_seq (le_refl 63)).2

end AvaotaOS.Aic8800.Reorder
