/-
A reorder buffer: numbered items arrive in any order, each may be missing or come twice, and they are handed on in the
order of their numbers.

The buffer waits for the number `next` and holds what came past it, inside a window of `w` numbers. An item past the
window moves the window on; when a timer expires, the buffer stops waiting and goes on from its first item. `Buffer`
carries its invariant, so what an operation leaves is a buffer again.

- `advance_isGap`: the number reached is the first one that is missing.
- `run_ascending`: what is handed on never goes back, whatever arrives and whenever the timer expires.
- `run_perm`: nothing is lost and nothing comes twice.
- `in_order`: items that overtake each other by less than the window leave in the order of their numbers, none late.
-/
import Mathlib.Tactic

namespace AvaotaOS.ReorderBuffer

variable {α : Type} (num : α → ℤ)

/-! ## The first missing number -/

/-- from `m` on, past every number the list has in a row -/
def advance : ℤ → List α → ℤ
  | m, [] => m
  | m, x :: l => if num x < m then advance m l else if num x = m then advance (m + 1) l else m

abbrev Ascending (l : List α) : Prop := l.Pairwise fun x y => num x < num y

/-- `g` is the first number from `m` on that is not in `S` -/
structure IsGap (S : Set ℤ) (m g : ℤ) : Prop where
  ge : m ≤ g
  full : ∀ k, m ≤ k → k < g → k ∈ S
  missing : g ∉ S

/-- the numbers of a list -/
def nums (l : List α) : Set ℤ := {k | ∃ x ∈ l, num x = k}

theorem IsGap.unique {S : Set ℤ} {m g g' : ℤ} (h : IsGap S m g) (h' : IsGap S m g') : g = g' := by
  by_contra hne
  rcases lt_or_gt_of_ne hne with hlt | hlt
  · exact h.missing (h'.full g h.ge hlt)
  · exact h'.missing (h.full g' h'.ge hlt)

theorem advance_ge (m : ℤ) (l : List α) : m ≤ advance num m l := by
  induction l generalizing m with
  | nil => exact le_refl m
  | cons x l ih =>
    unfold advance
    split_ifs
    · exact ih m
    · have := ih (m + 1)
      omega
    · exact le_refl m

theorem mem_of_lt_advance {m k : ℤ} {l : List α} (hm : m ≤ k) (hk : k < advance num m l) : k ∈ nums num l := by
  induction l generalizing m with
  | nil =>
    rw [advance] at hk
    omega
  | cons x l ih =>
    unfold advance at hk
    split_ifs at hk with h1 h2
    · obtain ⟨y, hy, rfl⟩ := ih hm hk
      exact ⟨y, List.mem_cons_of_mem x hy, rfl⟩
    · by_cases hkm : k = m
      · exact ⟨x, List.mem_cons_self, by omega⟩
      · obtain ⟨y, hy, rfl⟩ := ih (by omega : m + 1 ≤ k) hk
        exact ⟨y, List.mem_cons_of_mem x hy, rfl⟩
    · omega

theorem advance_not_mem (m : ℤ) {l : List α} (hl : Ascending num l) : advance num m l ∉ nums num l := by
  induction l generalizing m with
  | nil =>
    rintro ⟨x, hx, -⟩
    cases hx
  | cons x l ih =>
    obtain ⟨hx, hl⟩ := List.pairwise_cons.1 hl
    rintro ⟨y, hy, he⟩
    unfold advance at he
    split_ifs at he with h1 h2
    · rcases List.mem_cons.1 hy with rfl | hy
      · have := advance_ge num m l
        omega
      · exact ih m hl ⟨y, hy, he⟩
    · rcases List.mem_cons.1 hy with rfl | hy
      · have := advance_ge num (m + 1) l
        omega
      · exact ih (m + 1) hl ⟨y, hy, he⟩
    · rcases List.mem_cons.1 hy with rfl | hy
      · exact h2 he
      · have := hx y hy
        omega

/-- **The number reached is the first one missing** -/
theorem advance_isGap (m : ℤ) {l : List α} (hl : Ascending num l) : IsGap (nums num l) m (advance num m l) :=
  ⟨advance_ge num m l, fun _ => mem_of_lt_advance num, advance_not_mem num m hl⟩

theorem advance_le {m M : ℤ} {l : List α} (hm : m ≤ M) (hl : ∀ x ∈ l, num x < M) : advance num m l ≤ M := by
  induction l generalizing m with
  | nil => exact hm
  | cons x l ih =>
    have hx := hl x List.mem_cons_self
    have hl' : ∀ y ∈ l, num y < M := fun y hy => hl y (List.mem_cons_of_mem x hy)
    unfold advance
    split_ifs
    · exact ih hm hl'
    · exact ih (by omega) hl'
    · exact hm

/-! ## An item takes its place -/

/-- put `x` at its place; `none`: its number is there already -/
def place (x : α) : List α → Option (List α)
  | [] => some [x]
  | y :: l => if num y < num x then (place x l).map (y :: ·) else if num y = num x then none else some (x :: y :: l)

theorem place_perm {x : α} {l l' : List α} (h : place num x l = some l') : l'.Perm (x :: l) := by
  induction l generalizing l' with
  | nil =>
    rw [place, Option.some.injEq] at h
    rw [← h]
  | cons y l ih =>
    unfold place at h
    split_ifs at h with h1 h2
    · obtain ⟨l₁, h₁, rfl⟩ := Option.map_eq_some_iff.1 h
      exact ((ih h₁).cons y).trans (List.Perm.swap x y l)
    · rw [Option.some.injEq] at h
      rw [← h]

theorem place_mem {x : α} {l l' : List α} (h : place num x l = some l') (y : α) : y ∈ l' ↔ y = x ∨ y ∈ l := by
  rw [(place_perm num h).mem_iff, List.mem_cons]

theorem place_ascending {x : α} {l l' : List α} (hl : Ascending num l) (h : place num x l = some l') :
    Ascending num l' := by
  induction l generalizing l' with
  | nil =>
    rw [place, Option.some.injEq] at h
    subst h
    exact List.pairwise_singleton _ x
  | cons y l ih =>
    obtain ⟨hy, hl⟩ := List.pairwise_cons.1 hl
    unfold place at h
    split_ifs at h with h1 h2
    · obtain ⟨l₁, h₁, rfl⟩ := Option.map_eq_some_iff.1 h
      refine List.pairwise_cons.2 ⟨?_, ih hl h₁⟩
      intro z hz
      rcases (place_mem num h₁ z).1 hz with rfl | hz
      · exact h1
      · exact hy z hz
    · rw [Option.some.injEq] at h
      subst h
      refine List.pairwise_cons.2 ⟨?_, List.pairwise_cons.2 ⟨hy, hl⟩⟩
      intro z hz
      rcases List.mem_cons.1 hz with rfl | hz
      · omega
      · have := hy z hz
        omega

/-- nothing is placed exactly where the number is there -/
theorem place_eq_none {x : α} {l : List α} (hl : Ascending num l) : place num x l = none ↔ num x ∈ nums num l := by
  induction l with
  | nil => simp [place, nums]
  | cons y l ih =>
    obtain ⟨hy, hl⟩ := List.pairwise_cons.1 hl
    have hcons : num x ∈ nums num (y :: l) ↔ num y = num x ∨ num x ∈ nums num l := by
      simp [nums]
    rw [hcons]
    unfold place
    split_ifs with h1 h2
    · rw [Option.map_eq_none_iff, ih hl]
      constructor
      · exact Or.inr
      · intro h
        exact h.resolve_left (by omega)
    · simp [h2]
    · constructor
      · intro h
        cases h
      · rintro (h | ⟨z, hz, h⟩)
        · exact absurd h h2
        · have := hy z hz
          omega

theorem place_front {x : α} {l : List α} (hl : ∀ y ∈ l, num x < num y) : place num x l = some (x :: l) := by
  cases l with
  | nil => rfl
  | cons y l =>
    have := hl y List.mem_cons_self
    rw [place, if_neg (by omega), if_neg (by omega)]

/-! ## The buffer and its operations -/

/-- what came past `next`, within `w` numbers of it -/
structure Buffer (w : ℤ) where
  next : ℤ
  held : List α
  ascending : Ascending num held
  past : ∀ x ∈ held, next < num x
  within : ∀ x ∈ held, num x < next + w

variable {num} {w : ℤ}

theorem ge_of_mem_dropWhile {g : ℤ} {l : List α} (hl : Ascending num l) {x : α} (hx : x ∈ l.dropWhile (num · < g)) :
    g ≤ num x := by
  induction l with
  | nil => cases hx
  | cons y l ih =>
    obtain ⟨hy, hl⟩ := List.pairwise_cons.1 hl
    rw [List.dropWhile_cons] at hx
    split_ifs at hx with h
    · exact ih hl hx
    · simp only [decide_eq_true_eq, not_lt] at h
      rcases List.mem_cons.1 hx with rfl | hx
      · exact h
      · have := hy x hx
        omega

theorem settled_past {m : ℤ} {l : List α} (hl : Ascending num l) :
    ∀ x ∈ l.dropWhile (num · < advance num m l), advance num m l < num x := by
  intro x hx
  have hle : advance num m l ≤ num x := ge_of_mem_dropWhile hl hx
  have hne : num x ≠ advance num m l :=
    fun h => advance_not_mem num m hl ⟨x, (List.dropWhile_sublist _).subset hx, h⟩
  omega

/-- the buffer that goes on from `m` with the items `l` -/
def settle (m : ℤ) (l : List α) (hl : Ascending num l) (hw : ∀ x ∈ l, num x < m + w) : Buffer num w where
  next := advance num m l
  held := l.dropWhile (num · < advance num m l)
  ascending := hl.sublist (List.dropWhile_sublist _)
  past := settled_past hl
  within := by
    intro x hx
    have := hw x ((List.dropWhile_sublist _).subset hx)
    have := advance_ge num m l
    omega

/-- what leaves when the buffer goes on from `m` -/
def leaving (num : α → ℤ) (m : ℤ) (l : List α) : List α := l.takeWhile (num · < advance num m l)

/-- what becomes of an item; `taken`: the items that leave -/
inductive Fate (α : Type) where
  | late (x : α)
  | repeated (x : α)
  | taken (out : List α)

/-- what leaves in its turn -/
def Fate.out : Fate α → List α
  | .taken l => l
  | _ => []

/-- what the buffer is done with -/
def Fate.items : Fate α → List α
  | .late x => [x]
  | .repeated x => [x]
  | .taken l => l

namespace Buffer

/-- a buffer that waits for `m` -/
def start (num : α → ℤ) (w m : ℤ) : Buffer num w := ⟨m, [], List.Pairwise.nil, by simp, by simp⟩

/-- where the window stands once `x` is in it -/
def slide (b : Buffer num w) (x : α) : ℤ := max b.next (num x + 1 - w)

theorem slide_within (b : Buffer num w) {x : α} {l : List α} (h : place num x b.held = some l) :
    ∀ y ∈ l, num y < b.slide x + w := by
  intro y hy
  have hle : b.next ≤ b.slide x := le_max_left _ _
  have hx : num x + 1 - w ≤ b.slide x := le_max_right _ _
  rcases (place_mem num h y).1 hy with rfl | hy
  · omega
  · have := b.within y hy
    omega

/-- an item arrives -/
def accept (b : Buffer num w) (x : α) : Buffer num w × Fate α :=
  if num x < b.next then (b, .late x)
  else
    match h : place num x b.held with
    | none => (b, .repeated x)
    | some l => (settle (b.slide x) l (place_ascending num b.ascending h) (b.slide_within h), .taken (leaving num (b.slide x) l))

/-- the timer expires: on from the first item -/
def expire (b : Buffer num w) : Buffer num w × List α :=
  match h : b.held with
  | [] => (b, [])
  | y :: _ =>
    (settle (num y) b.held b.ascending fun x hx => by
      have := b.past y (h ▸ List.mem_cons_self)
      have := b.within x hx
      omega, leaving num (num y) b.held)

end Buffer

theorem leaving_append (num : α → ℤ) (m : ℤ) (l : List α) : leaving num m l ++ l.dropWhile (num · < advance num m l) = l :=
  List.takeWhile_append_dropWhile

theorem leaving_lt {m : ℤ} {l : List α} {x : α} (hx : x ∈ leaving num m l) : num x < advance num m l := by
  simpa using List.all_eq_true.1 List.all_takeWhile x hx

theorem mem_leaving {m : ℤ} {l : List α} (hl : Ascending num l) (x : α) :
    x ∈ leaving num m l ↔ x ∈ l ∧ num x < advance num m l := by
  constructor
  · intro hx
    exact ⟨(List.takeWhile_sublist _).subset hx, leaving_lt hx⟩
  · rintro ⟨hx, hlt⟩
    rw [← leaving_append num m l] at hx
    rcases List.mem_append.1 hx with hx | hx
    · exact hx
    · have := settled_past hl x hx
      omega

/-- **What becomes of an item that arrives** -/
theorem Buffer.accept_cases (b : Buffer num w) (x : α) :
    (num x < b.next ∧ b.accept x = (b, .late x)) ∨
      (b.next < num x ∧ num x ∈ nums num b.held ∧ b.accept x = (b, .repeated x)) ∨
      ∃ l, b.next ≤ num x ∧ place num x b.held = some l ∧ (b.accept x).1.next = advance num (b.slide x) l ∧
        (b.accept x).1.held = l.dropWhile (num · < advance num (b.slide x) l) ∧
        (b.accept x).2 = .taken (leaving num (b.slide x) l) := by
  by_cases hlt : num x < b.next
  · exact Or.inl ⟨hlt, by simp [accept, hlt]⟩
  · rw [not_lt] at hlt
    right
    unfold accept
    rw [if_neg (not_lt.2 hlt)]
    split
    · rename_i h
      have hx := (place_eq_none num b.ascending).1 h
      obtain ⟨y, hy, he⟩ := hx
      have := b.past y hy
      exact Or.inl ⟨by omega, ⟨y, hy, he⟩, rfl⟩
    · rename_i l h
      exact Or.inr ⟨l, hlt, h, rfl, rfl, rfl⟩

/-- **What the timer does** -/
theorem Buffer.expire_cases (b : Buffer num w) :
    (b.held = [] ∧ b.expire = (b, [])) ∨
      ∃ y l, b.held = y :: l ∧ b.expire.1.next = advance num (num y) b.held ∧
        b.expire.1.held = b.held.dropWhile (num · < advance num (num y) b.held) ∧
        b.expire.2 = leaving num (num y) b.held := by
  unfold expire
  split
  · rename_i h
    exact Or.inl ⟨h, rfl⟩
  · rename_i y l h
    exact Or.inr ⟨y, l, h, rfl, rfl, rfl⟩

/-! ## Whole runs -/

inductive Event (α : Type) where
  | arrive (x : α)
  | expire
  | flush

/-- the buffer, when there is one, and what has become of the items -/
structure Run (num : α → ℤ) (w : ℤ) where
  buf : Option (Buffer num w)
  out : List α
  late : List α
  repeated : List α

namespace Run

def init (num : α → ℤ) (w : ℤ) : Run num w := ⟨none, [], [], []⟩

def held (s : Run num w) : List α := (s.buf.map Buffer.held).getD []

/-- the buffer an item finds: the first one sets where the buffer starts -/
def found (s : Run num w) (x : α) : Buffer num w := s.buf.getD (Buffer.start num w (num x))

def arrive (s : Run num w) (x : α) : Run num w :=
  match ((s.found x).accept x).2 with
  | .late y => { s with buf := some ((s.found x).accept x).1, late := s.late ++ [y] }
  | .repeated y => { s with buf := some ((s.found x).accept x).1, repeated := s.repeated ++ [y] }
  | .taken l => { s with buf := some ((s.found x).accept x).1, out := s.out ++ l }

def step (s : Run num w) : Event α → Run num w
  | .arrive x => s.arrive x
  | .expire =>
    match s.buf with
    | none => s
    | some b => { s with buf := some b.expire.1, out := s.out ++ b.expire.2 }
  | .flush => { s with buf := none, out := s.out ++ s.held }

/-- what a step does to its item, or what it lets go -/
def fate (s : Run num w) : Event α → Fate α
  | .arrive x => ((s.found x).accept x).2
  | .expire => .taken ((s.buf.map fun b => b.expire.2).getD [])
  | .flush => .taken s.held

theorem step_out (s : Run num w) (e : Event α) : (s.step e).out = s.out ++ (s.fate e).out := by
  cases e with
  | arrive x =>
    simp only [step, arrive, fate]
    split <;> simp [*, Fate.out]
  | expire =>
    simp only [step, fate]
    split <;> simp [*, Fate.out]
  | flush => rfl

/-- the buffer is done with the items it no longer holds -/
theorem step_items (s : Run num w) (e : Event α) :
    ((s.step e).out ++ (s.step e).late ++ (s.step e).repeated).Perm (s.out ++ s.late ++ s.repeated ++ (s.fate e).items) := by
  have htaken : ∀ l, (s.out ++ l ++ s.late ++ s.repeated).Perm (s.out ++ s.late ++ s.repeated ++ l) := by
    intro l
    rw [← Multiset.coe_eq_coe]
    simp only [← Multiset.coe_add]
    abel
  cases e with
  | arrive x =>
    simp only [step, arrive, fate]
    cases ((s.found x).accept x).2 with
    | late y =>
      simp only [Fate.items, List.append_assoc]
      exact ((List.perm_append_comm).append_left s.late).append_left s.out
    | repeated y => simp [Fate.items]
    | taken l => exact htaken l
  | expire =>
    simp only [step, fate]
    cases s.buf with
    | none => simp [Fate.items]
    | some b => exact htaken _
  | flush => exact htaken _

def run (num : α → ℤ) (w : ℤ) (es : List (Event α)) : Run num w := es.foldl step (init num w)

/-- what the steps come to, one after the other -/
def fates : Run num w → List (Event α) → List (Fate α)
  | _, [] => []
  | s, e :: es => s.fate e :: (s.step e).fates es

theorem foldl_out (s : Run num w) (es : List (Event α)) :
    (es.foldl step s).out = s.out ++ (s.fates es).flatMap Fate.out := by
  induction es generalizing s with
  | nil => simp [fates]
  | cons e es ih => rw [List.foldl_cons, ih, step_out, fates, List.flatMap_cons, List.append_assoc]

theorem foldl_items (s : Run num w) (es : List (Event α)) :
    ((es.foldl step s).out ++ (es.foldl step s).late ++ (es.foldl step s).repeated).Perm
      (s.out ++ s.late ++ s.repeated ++ (s.fates es).flatMap Fate.items) := by
  induction es generalizing s with
  | nil => simp [fates]
  | cons e es ih =>
    rw [List.foldl_cons, fates, List.flatMap_cons, ← List.append_assoc]
    exact (ih _).trans ((s.step_items e).append_right _)

theorem run_concat (es : List (Event α)) (e : Event α) : run num w (es ++ [e]) = (run num w es).step e := by
  simp [run]

/-- **What one step can do** -/
theorem step_cases (s : Run num w) (e : Event α) :
    (∃ x, e = .arrive x ∧ ∃ b, s.found x = b ∧
      ((num x < b.next ∧ s.step e = { s with buf := some b, late := s.late ++ [x] }) ∨
        (b.next < num x ∧ num x ∈ nums num b.held ∧ s.step e = { s with buf := some b, repeated := s.repeated ++ [x] }) ∨
        ∃ l b', b.next ≤ num x ∧ place num x b.held = some l ∧ b'.next = advance num (b.slide x) l ∧
          b'.held = l.dropWhile (num · < advance num (b.slide x) l) ∧
          s.step e = { s with buf := some b', out := s.out ++ leaving num (b.slide x) l })) ∨
      (e = .expire ∧ s.held = [] ∧ s.step e = s) ∨
      (e = .expire ∧ ∃ b y l b', s.buf = some b ∧ b.held = y :: l ∧ b'.next = advance num (num y) b.held ∧
        b'.held = b.held.dropWhile (num · < advance num (num y) b.held) ∧
        s.step e = { s with buf := some b', out := s.out ++ leaving num (num y) b.held }) ∨
      (e = .flush ∧ s.step e = { s with buf := none, out := s.out ++ s.held }) := by
  cases e with
  | arrive x =>
    left
    refine ⟨x, rfl, s.found x, rfl, ?_⟩
    rcases (s.found x).accept_cases x with ⟨hlt, h⟩ | ⟨hgt, hx, h⟩ | ⟨l, hle, hl, hn, hh, h⟩
    · exact Or.inl ⟨hlt, by simp [step, arrive, h]⟩
    · exact Or.inr (Or.inl ⟨hgt, hx, by simp [step, arrive, h]⟩)
    · exact Or.inr (Or.inr ⟨l, _, hle, hl, hn, hh, by simp [step, arrive, h]⟩)
  | expire =>
    right
    cases hb : s.buf with
    | none => exact Or.inl ⟨rfl, by simp [held, hb], by simp [step, hb]⟩
    | some b =>
      rcases b.expire_cases with ⟨hn, h⟩ | ⟨y, l, hy, hn, hh, h⟩
      · refine Or.inl ⟨rfl, by simp [held, hb, hn], ?_⟩
        cases s
        simp only at hb
        simp [step, hb, h]
      · exact Or.inr (Or.inl ⟨rfl, b, y, l, b.expire.1, rfl, hy, hn, hh, by simp [step, hb, h]⟩)
  | flush => exact Or.inr (Or.inr (Or.inr ⟨rfl, rfl⟩))

theorem found_held (s : Run num w) (x : α) : (s.found x).held = s.held := by
  unfold found held
  cases s.buf <;> rfl

/-- a step that adds to neither list lets go what leaves -/
theorem step_clean {s : Run num w} {e : Event α} (hl : (s.step e).late = []) (hr : (s.step e).repeated = []) :
    s.late = [] ∧ s.repeated = [] ∧ ∃ l, s.fate e = .taken l := by
  cases e with
  | arrive x =>
    simp only [step, arrive, fate] at hl hr ⊢
    cases h : ((s.found x).accept x).2 with
    | late y => simp [h] at hl
    | repeated y => simp [h] at hr
    | taken l =>
      simp only [h] at hl hr
      exact ⟨hl, hr, l, rfl⟩
  | expire =>
    simp only [step, fate] at hl hr ⊢
    cases h : s.buf with
    | none => exact ⟨by simpa [h] using hl, by simpa [h] using hr, _, rfl⟩
    | some b => exact ⟨by simpa [h] using hl, by simpa [h] using hr, _, rfl⟩
  | flush => exact ⟨hl, hr, _, rfl⟩

theorem foldl_clean {s : Run num w} {es : List (Event α)} (hl : (es.foldl step s).late = [])
    (hr : (es.foldl step s).repeated = []) : s.late = [] ∧ s.repeated = [] ∧ ∀ f ∈ s.fates es, ∃ l, f = .taken l := by
  induction es generalizing s with
  | nil => exact ⟨hl, hr, by simp [fates]⟩
  | cons e es ih =>
    obtain ⟨hl, hr, hf⟩ := ih hl hr
    obtain ⟨hl, hr, he⟩ := step_clean hl hr
    refine ⟨hl, hr, ?_⟩
    intro f hmem
    rcases List.mem_cons.1 hmem with rfl | hmem
    · exact he
    · exact hf f hmem

end Run

/-- the items that arrive -/
def arrivals : List (Event α) → List α
  | [] => []
  | .arrive x :: es => x :: arrivals es
  | _ :: es => arrivals es

theorem arrivals_append (es es' : List (Event α)) : arrivals (es ++ es') = arrivals es ++ arrivals es' := by
  induction es with
  | nil => rfl
  | cons e es ih => cases e <;> simp [arrivals, ih]

/-! ### The order -/

/-- what has left stands in order, before the number the buffer waits for -/
structure Ordered (s : Run num w) : Prop where
  ascending : Ascending num s.out
  before : ∀ b, s.buf = some b → ∀ x ∈ s.out, num x < b.next
  fresh : s.buf = none → s.out = []

theorem ascending_append {l l' : List α} {m : ℤ} (hl : Ascending num l) (hl' : Ascending num l')
    (hlt : ∀ x ∈ l, num x < m) (hge : ∀ x ∈ l', m ≤ num x) : Ascending num (l ++ l') := by
  apply List.pairwise_append.2
  refine ⟨hl, hl', ?_⟩
  intro x hx y hy
  exact lt_of_lt_of_le (hlt x hx) (hge y hy)

theorem Ordered.leave {s : Run num w} {b b' : Buffer num w} {m : ℤ} {l : List α} (hs : Ordered s)
    (hb : ∀ x ∈ s.out, num x < b.next) (hl : Ascending num l) (hge : ∀ x ∈ l, b.next ≤ num x)
    (hm : b.next ≤ advance num m l) (hn : b'.next = advance num m l) :
    Ordered { s with buf := some b', out := s.out ++ leaving num m l } := by
  refine ⟨?_, ?_, by simp⟩
  · apply ascending_append hs.ascending (hl.sublist (List.takeWhile_sublist _)) hb
    intro x hx
    exact hge x ((List.takeWhile_sublist _).subset hx)
  · intro b'' hb'' x hx
    rw [← Option.some.inj hb'', hn]
    rcases List.mem_append.1 hx with hx | hx
    · have := hb x hx
      omega
    · exact leaving_lt hx

theorem Ordered.found {s : Run num w} (hs : Ordered s) (x : α) : ∀ y ∈ s.out, num y < (s.found x).next := by
  intro y hy
  cases hb : s.buf with
  | none =>
    rw [hs.fresh hb] at hy
    cases hy
  | some b =>
    have := hs.before b hb y hy
    simpa [Run.found, hb] using this

theorem step_ordered {s : Run num w} {e : Event α} (hs : Ordered s) (he : e ≠ .flush) : Ordered (s.step e) := by
  rcases s.step_cases e with ⟨x, -, b, hb, h⟩ | ⟨-, -, h⟩ | ⟨-, b, y, l, b', hb, hy, hn, -, h⟩ | ⟨h, -⟩
  · have hout := hs.found x
    rw [hb] at hout
    have hkeep : ∀ b', some b = some b' → ∀ y ∈ s.out, num y < b'.next := by
      intro b' h'
      rwa [← Option.some.inj h']
    rcases h with ⟨-, h⟩ | ⟨-, -, h⟩ | ⟨l, b', hle, hl, hn, -, h⟩
    · rw [h]
      exact ⟨hs.ascending, hkeep, by simp⟩
    · rw [h]
      exact ⟨hs.ascending, hkeep, by simp⟩
    · rw [h]
      refine hs.leave hout (place_ascending num b.ascending hl) ?_ ?_ hn
      · intro y hy
        rcases (place_mem num hl y).1 hy with rfl | hy
        · exact hle
        · exact (b.past y hy).le
      · exact le_trans (le_max_left _ _) (advance_ge num (b.slide x) l)
  · rw [h]
    exact hs
  · rw [h]
    have hpast := b.past y (hy ▸ List.mem_cons_self)
    refine hs.leave (hs.before b hb) b.ascending (fun x hx => (b.past x hx).le) ?_ hn
    exact le_trans hpast.le (advance_ge num (num y) b.held)
  · exact absurd h he

theorem run_ordered {es : List (Event α)} (h : ∀ e ∈ es, e ≠ .flush) : Ordered (Run.run num w es) := by
  induction es using List.reverseRecOn with
  | nil => exact ⟨List.Pairwise.nil, by simp [Run.run, Run.init], fun _ => rfl⟩
  | append_singleton es e ih =>
    rw [Run.run_concat]
    apply step_ordered
    · exact ih fun e' he' => h e' (List.mem_append_left _ he')
    · exact h e (List.mem_append_right _ List.mem_cons_self)

/-- **What leaves never goes back** while nothing flushes the buffer -/
theorem run_ascending {es : List (Event α)} (h : ∀ e ∈ es, e ≠ .flush) : Ascending num (Run.run num w es).out :=
  (run_ordered h).ascending

/-! ### Nothing is lost, nothing comes twice -/

/-- everything a run knows of -/
def Run.all (s : Run num w) : List α := s.out ++ s.late ++ s.repeated ++ s.held

@[simp] theorem Run.all_some (b : Buffer num w) (o l r : List α) :
    Run.all ⟨some b, o, l, r⟩ = o ++ l ++ r ++ b.held := rfl

@[simp] theorem Run.all_none (o l r : List α) : (⟨none, o, l, r⟩ : Run num w).all = o ++ l ++ r := by
  simp [Run.all, Run.held]

theorem step_perm (s : Run num w) (e : Event α) : (s.step e).all.Perm (s.all ++ arrivals [e]) := by
  have hall : s.all = s.out ++ s.late ++ s.repeated ++ s.held := rfl
  rcases s.step_cases e with ⟨x, rfl, b, hb, h⟩ | ⟨rfl, -, h⟩ | ⟨rfl, b, y, l, b', hb, hy, hn, hh, h⟩ | ⟨rfl, h⟩
  · have hheld : s.held = b.held := by rw [← hb, s.found_held]
    rw [hall, hheld]
    rcases h with ⟨-, h⟩ | ⟨-, -, h⟩ | ⟨l, b', hle, hl, hn, hh, h⟩
    · rw [h, Run.all_some, ← Multiset.coe_eq_coe]
      simp only [arrivals, ← Multiset.coe_add]
      abel
    · rw [h, Run.all_some, ← Multiset.coe_eq_coe]
      simp only [arrivals, ← Multiset.coe_add]
      abel
    · have hsplit : leaving num (b.slide x) l ++ b'.held = l := by rw [hh, leaving_append]
      have hp : (leaving num (b.slide x) l ++ b'.held).Perm ([x] ++ b.held) := by
        rw [hsplit]
        exact place_perm num hl
      rw [h, Run.all_some, ← Multiset.coe_eq_coe]
      rw [← Multiset.coe_eq_coe] at hp
      simp only [arrivals, ← Multiset.coe_add] at hp ⊢
      calc (s.out + leaving num (b.slide x) l + s.late + s.repeated + b'.held : Multiset α)
          = s.out + s.late + s.repeated + (leaving num (b.slide x) l + b'.held) := by abel
        _ = s.out + s.late + s.repeated + ([x] + b.held) := by rw [hp]
        _ = s.out + s.late + s.repeated + b.held + [x] := by abel
  · rw [h]
    simp [arrivals]
  · have hsplit : leaving num (num y) b.held ++ b'.held = b.held := by rw [hh, leaving_append]
    have hheld : s.held = leaving num (num y) b.held ++ b'.held := by rw [hsplit, Run.held, hb, Option.map_some, Option.getD_some]
    rw [h, hall, hheld, Run.all_some, ← Multiset.coe_eq_coe]
    simp only [arrivals, ← Multiset.coe_add, Multiset.coe_nil, add_zero]
    abel
  · rw [h, hall, Run.all_none, ← Multiset.coe_eq_coe]
    simp only [arrivals, ← Multiset.coe_add, Multiset.coe_nil, add_zero]
    abel

theorem foldl_perm (s : Run num w) (es : List (Event α)) : (es.foldl Run.step s).all.Perm (s.all ++ arrivals es) := by
  induction es generalizing s with
  | nil => simp [arrivals]
  | cons e es ih =>
    have hsplit : arrivals (e :: es) = arrivals [e] ++ arrivals es := arrivals_append [e] es
    rw [List.foldl_cons, hsplit, ← List.append_assoc]
    exact (ih _).trans ((step_perm s e).append_right _)

/-- **Every item that arrived has left, was late, was there already or is held, and that once** -/
theorem run_perm (es : List (Event α)) : (Run.run num w es).all.Perm (arrivals es) := foldl_perm (Run.init num w) es

/-- **What the steps come to and what is held then is what was held and what has arrived** -/
theorem fates_perm (s : Run num w) (es : List (Event α)) :
    ((s.fates es).flatMap Fate.items ++ (es.foldl Run.step s).held).Perm (s.held ++ arrivals es) := by
  have hitems := Run.foldl_items s es
  have hall := foldl_perm s es
  simp only [Run.all] at hall
  have hjoin := (hitems.symm.append_right (es.foldl Run.step s).held).trans hall
  rw [List.append_assoc, List.append_assoc (s.out ++ s.late ++ s.repeated)] at hjoin
  exact (List.perm_append_left_iff _).1 hjoin

/-! ### How much is held -/

theorem Buffer.length_lt (b : Buffer num w) (hw : 0 < w) : (b.held.length : ℤ) < w := by
  have hnodup : (b.held.map num).Nodup := by
    apply List.Pairwise.map num (R := fun x y => num x < num y)
    · intro x y hlt
      exact ne_of_lt hlt
    · exact b.ascending
  have hsub : (b.held.map num).toFinset ⊆ Finset.Ioo b.next (b.next + w) := by
    intro k hk
    obtain ⟨x, hx, rfl⟩ := List.mem_map.1 (List.mem_toFinset.1 hk)
    exact Finset.mem_Ioo.2 ⟨b.past x hx, b.within x hx⟩
  have hcard := Finset.card_le_card hsub
  rw [List.toFinset_card_of_nodup hnodup, List.length_map, Int.card_Ioo] at hcard
  omega

/-! ### The timer -/

/-- what is held leaves in order, or is still held -/
theorem Buffer.expire_append (b : Buffer num w) : b.expire.2 ++ b.expire.1.held = b.held := by
  rcases b.expire_cases with ⟨hn, h⟩ | ⟨y, l, -, -, hh, ho⟩
  · rw [h, List.nil_append]
  · rw [hh, ho, leaving_append]

/-- **Every expiry lets at least one item go** -/
theorem Buffer.expire_shorter {b : Buffer num w} (h : b.held ≠ []) : b.expire.1.held.length < b.held.length := by
  rcases b.expire_cases with ⟨hn, -⟩ | ⟨y, l, hy, -, hh, -⟩
  · exact absurd hn h
  · have hlt : num y < advance num (num y) b.held := by
      by_contra hle
      have hge := advance_ge num (num y) b.held
      exact advance_not_mem num (num y) b.ascending ⟨y, hy ▸ List.mem_cons_self, by omega⟩
    rw [hy] at hh hlt ⊢
    rw [hh, List.dropWhile_cons, if_pos (by simpa using hlt), List.length_cons]
    have := (List.dropWhile_sublist (l := l) (num · < advance num (num y) (y :: l))).length_le
    omega

/-! ### Bounded reordering is undone -/

/-- no item overtakes by `w` or more: when `x` comes, every number from `m` to `num x - w` has come -/
def Close (num : α → ℤ) (w m : ℤ) (l : List α) : Prop :=
  ∀ p x, p ++ [x] <+: l → ∀ k, m ≤ k → k ≤ num x - w → k ∈ nums num p

theorem Close.left {m : ℤ} {l l' : List α} (h : Close num w m (l ++ l')) : Close num w m l :=
  fun p x hp => h p x (hp.trans (List.prefix_append l l'))

/-- the run and its buffer after the items `l`, the first of which has the number `m` -/
structure Upto (m : ℤ) (l : List α) (s : Run num w) (b : Buffer num w) : Prop where
  gap : IsGap (nums num l) m b.next
  out : ∀ k, k ∈ nums num s.out ↔ m ≤ k ∧ k < b.next
  held : ∀ k, k ∈ nums num b.held ↔ k ∈ nums num l ∧ b.next < k
  clean : (l.map num).Nodup → (∀ x ∈ l, m ≤ num x) → s.late = [] ∧ s.repeated = []

theorem mem_nums_concat {k : ℤ} {l : List α} {x : α} : k ∈ nums num (l ++ [x]) ↔ k ∈ nums num l ∨ num x = k := by
  simp only [nums, List.mem_append, List.mem_singleton, Set.mem_ofPred_eq]
  constructor
  · rintro ⟨y, hy | rfl, h⟩
    · exact Or.inl ⟨y, hy, h⟩
    · exact Or.inr h
  · rintro (⟨y, hy, h⟩ | h)
    · exact ⟨y, Or.inl hy, h⟩
    · exact ⟨x, Or.inr rfl, h⟩

theorem mem_nums_place {k : ℤ} {x : α} {l l' : List α} (h : place num x l = some l') :
    k ∈ nums num l' ↔ k ∈ nums num l ∨ num x = k := by
  have hsame : k ∈ nums num l' ↔ k ∈ nums num (l ++ [x]) := by
    simp only [nums, Set.mem_ofPred_eq, place_mem num h, List.mem_append, List.mem_singleton, or_comm]
  rw [hsame, mem_nums_concat]

theorem mem_nums_leaving {m k : ℤ} {l : List α} (hl : Ascending num l) :
    k ∈ nums num (leaving num m l) ↔ k ∈ nums num l ∧ k < advance num m l := by
  constructor
  · rintro ⟨x, hx, rfl⟩
    obtain ⟨hx, hlt⟩ := (mem_leaving hl x).1 hx
    exact ⟨⟨x, hx, rfl⟩, hlt⟩
  · rintro ⟨⟨x, hx, rfl⟩, hlt⟩
    exact ⟨x, (mem_leaving hl x).2 ⟨hx, hlt⟩, rfl⟩

theorem mem_nums_dropWhile {m k : ℤ} {l : List α} (hl : Ascending num l) :
    k ∈ nums num (l.dropWhile (num · < advance num m l)) ↔ k ∈ nums num l ∧ advance num m l < k := by
  constructor
  · rintro ⟨x, hx, rfl⟩
    exact ⟨⟨x, (List.dropWhile_sublist _).subset hx, rfl⟩, settled_past hl x hx⟩
  · rintro ⟨⟨x, hx, rfl⟩, hlt⟩
    rw [← leaving_append num m l] at hx
    rcases List.mem_append.1 hx with hx | hx
    · have := leaving_lt hx
      omega
    · exact ⟨x, hx, rfl⟩

theorem nums_append {k : ℤ} {l l' : List α} : k ∈ nums num (l ++ l') ↔ k ∈ nums num l ∨ k ∈ nums num l' := by
  simp only [nums, List.mem_append, Set.mem_ofPred_eq, or_and_right, exists_or]

/-- an item comes at or past `next` and inside the window -/
theorem Upto.take {m : ℤ} {l l' : List α} {s : Run num w} {b b' : Buffer num w} {x : α} (h : Upto m l s b)
    (hx : b.next ≤ num x) (hl' : place num x b.held = some l') (hn : b'.next = advance num b.next l')
    (hh : b'.held = l'.dropWhile (num · < advance num b.next l')) :
    Upto m (l ++ [x]) { s with buf := some b', out := s.out ++ leaving num b.next l' } b' := by
  have hasc := place_ascending num b.ascending hl'
  have hge := advance_ge num b.next l'
  have hmem : ∀ k, b.next ≤ k → (k ∈ nums num l' ↔ k ∈ nums num (l ++ [x])) := by
    intro k hk
    rw [mem_nums_place hl', mem_nums_concat, h.held]
    constructor
    · rintro (⟨hk', -⟩ | he)
      · exact Or.inl hk'
      · exact Or.inr he
    · rintro (hk' | he)
      · have hne : k ≠ b.next := fun he => h.gap.missing (he ▸ hk')
        exact Or.inl ⟨hk', by omega⟩
      · exact Or.inr he
  have hpast : ∀ k ∈ nums num l', b.next ≤ k := by
    intro k hk
    rcases (mem_nums_place hl').1 hk with hk | he
    · exact ((h.held k).1 hk).2.le
    · omega
  refine ⟨⟨?_, ?_, ?_⟩, ?_, ?_, ?_⟩
  · have := h.gap.ge
    omega
  · intro k hmk hk
    by_cases hkb : k < b.next
    · exact mem_nums_concat.2 (Or.inl (h.gap.full k hmk hkb))
    · rw [hn] at hk
      exact (hmem k (by omega)).1 (mem_of_lt_advance num (by omega) hk)
  · intro hmiss
    rw [hn] at hmiss
    exact advance_not_mem num b.next hasc ((hmem _ hge).2 hmiss)
  · intro k
    rw [nums_append, h.out, mem_nums_leaving hasc, hn]
    constructor
    · rintro (⟨hmk, hk⟩ | ⟨hk, hlt⟩)
      · exact ⟨hmk, by omega⟩
      · have := hpast k hk
        have := h.gap.ge
        exact ⟨by omega, hlt⟩
    · rintro ⟨hmk, hk⟩
      by_cases hkb : k < b.next
      · exact Or.inl ⟨hmk, hkb⟩
      · exact Or.inr ⟨mem_of_lt_advance num (by omega) hk, hk⟩
  · intro k
    rw [hh, mem_nums_dropWhile hasc, hn]
    constructor
    · rintro ⟨hk, hlt⟩
      exact ⟨(hmem k (by omega)).1 hk, hlt⟩
    · rintro ⟨hk, hlt⟩
      exact ⟨(hmem k (by omega)).2 hk, hlt⟩
  · intro hnd hm
    rw [List.map_append] at hnd
    exact h.clean (List.nodup_append.1 hnd).1 fun y hy => hm y (List.mem_append_left _ hy)

/-- an item comes whose number the buffer has passed or holds -/
theorem Upto.skip {m : ℤ} {l : List α} {s s' : Run num w} {b : Buffer num w} {x : α} (h : Upto m l s b)
    (hx : num x < b.next ∨ num x ∈ nums num b.held) (ho : s'.out = s.out) :
    Upto m (l ++ [x]) s' b := by
  have hseen : m ≤ num x → num x ∈ nums num l := by
    intro hm
    rcases hx with hx | hx
    · exact h.gap.full _ hm hx
    · exact ((h.held _).1 hx).1
  have hmem : ∀ k, m ≤ k → (k ∈ nums num (l ++ [x]) ↔ k ∈ nums num l) := by
    intro k hk
    rw [mem_nums_concat]
    constructor
    · rintro (hk' | rfl)
      · exact hk'
      · exact hseen hk
    · exact Or.inl
  have hge := h.gap.ge
  refine ⟨⟨hge, ?_, ?_⟩, by rw [ho]; exact h.out, ?_, ?_⟩
  · intro k hmk hk
    exact (hmem k hmk).2 (h.gap.full k hmk hk)
  · intro hmiss
    exact h.gap.missing ((hmem _ hge).1 hmiss)
  · intro k
    rw [h.held]
    constructor
    · rintro ⟨hk, hlt⟩
      exact ⟨(hmem k (by omega)).2 hk, hlt⟩
    · rintro ⟨hk, hlt⟩
      exact ⟨(hmem k (by omega)).1 hk, hlt⟩
  · intro hnd hm
    obtain ⟨y, hy, he⟩ := hseen (hm x (List.mem_append_right _ List.mem_cons_self))
    rw [List.map_append, List.nodup_append] at hnd
    exact absurd he (hnd.2.2 _ (List.mem_map_of_mem hy) _ List.mem_cons_self)

/-- one more item of a sequence that keeps to the window -/
theorem Upto.concat {m : ℤ} {l : List α} {s : Run num w} {x : α} (h : Upto m l s (s.found x))
    (hc : Close num w m (l ++ [x])) :
    ∃ b, (s.step (.arrive x)).buf = some b ∧ Upto m (l ++ [x]) (s.step (.arrive x)) b := by
  have hslide : (s.found x).next ≤ num x → (s.found x).slide x = (s.found x).next := by
    intro hx
    apply max_eq_left
    by_contra hlt
    exact h.gap.missing (hc l x (List.prefix_refl _) _ h.gap.ge (by omega))
  rcases s.step_cases (.arrive x) with ⟨y, hy, b, rfl, hs⟩ | ⟨hx, -⟩ | ⟨hx, -⟩ | ⟨hx, -⟩
  · obtain rfl := Event.arrive.inj hy
    rcases hs with ⟨hlt, hs⟩ | ⟨-, hmem, hs⟩ | ⟨l', b', hle, hl', hn, hh, hs⟩
    · exact ⟨_, by rw [hs], h.skip (Or.inl hlt) (by rw [hs])⟩
    · exact ⟨_, by rw [hs], h.skip (Or.inr hmem) (by rw [hs])⟩
    · rw [hslide hle] at hn hh hs
      rw [hs]
      exact ⟨b', rfl, h.take hle hl' hn hh⟩
  · cases hx
  · cases hx
  · cases hx

theorem upto_start (m : ℤ) : Upto m [] (Run.init num w) (Buffer.start num w m) := by
  refine ⟨⟨le_refl m, ?_, ?_⟩, ?_, ?_, fun _ _ => ⟨rfl, rfl⟩⟩
  · intro k hmk hk
    simp only [Buffer.start] at hk
    omega
  · rintro ⟨y, hy, -⟩
    cases hy
  · intro k
    simp only [nums, Run.init, Buffer.start, List.not_mem_nil, false_and, exists_false, Set.mem_ofPred_eq, false_iff]
    omega
  · intro k
    simp [nums, Buffer.start]

theorem run_upto {x : α} {l : List α} (hc : Close num w (num x) (x :: l)) :
    ∃ b, (Run.run num w ((x :: l).map .arrive)).buf = some b ∧ Upto (num x) (x :: l) (Run.run num w ((x :: l).map .arrive)) b := by
  induction l using List.reverseRecOn with
  | nil =>
    have hfirst : Upto (num x) [] (Run.init num w) ((Run.init num w).found x) := upto_start (num x)
    exact hfirst.concat hc
  | append_singleton l y ih =>
    rw [← List.cons_append] at hc ⊢
    obtain ⟨b, hb, hu⟩ := ih hc.left
    rw [List.map_append, List.map_singleton, Run.run_concat]
    have hfound : (Run.run num w ((x :: l).map .arrive)).found y = b := by rw [Run.found, hb, Option.getD_some]
    exact Upto.concat (hfound ▸ hu) hc

/-- the numbers from `m` to `n`, `n` not included -/
def upTo (m n : ℤ) : List ℤ := (List.range (n - m).toNat).map fun i : ℕ => m + (i : ℤ)

theorem mem_upTo {m n k : ℤ} : k ∈ upTo m n ↔ m ≤ k ∧ k < n := by
  simp only [upTo, List.mem_map, List.mem_range]
  constructor
  · rintro ⟨i, hi, rfl⟩
    omega
  · rintro ⟨hm, hn⟩
    exact ⟨(k - m).toNat, by omega, by omega⟩

theorem upTo_ascending (m n : ℤ) : (upTo m n).Pairwise (· < ·) := by
  apply List.pairwise_map.2
  apply List.pairwise_lt_range.imp
  intro i j hij
  omega

theorem mem_nums {k : ℤ} {l : List α} : k ∈ nums num l ↔ k ∈ l.map num := by
  simp [nums]

/-- **Items that overtake each other by less than the window leave in the order of their numbers**: all up to the first
number that is missing have left, the others are held -/
theorem in_order {x : α} {l : List α} (hc : Close num w (num x) (x :: l)) :
    ∃ g, IsGap (nums num (x :: l)) (num x) g ∧ (Run.run num w ((x :: l).map .arrive)).out.map num = upTo (num x) g ∧
      (∀ k, k ∈ nums num (Run.run num w ((x :: l).map .arrive)).held ↔ k ∈ nums num (x :: l) ∧ g < k) ∧
      (((x :: l).map num).Nodup → (∀ y ∈ x :: l, num x ≤ num y) →
        (Run.run num w ((x :: l).map .arrive)).late = [] ∧ (Run.run num w ((x :: l).map .arrive)).repeated = []) := by
  obtain ⟨b, hb, hu⟩ := run_upto hc
  refine ⟨b.next, hu.gap, ?_, ?_, hu.clean⟩
  · have hasc : ((Run.run num w ((x :: l).map .arrive)).out.map num).Pairwise (· < ·) :=
      List.pairwise_map.2 (run_ascending (by simp))
    apply hasc.eq_of_mem_iff (upTo_ascending _ _)
    intro k
    rw [← mem_nums, hu.out, mem_upTo]
  · intro k
    rw [Run.held, hb, Option.map_some, Option.getD_some]
    exact hu.held k

end AvaotaOS.ReorderBuffer
