/-
What `init-resize.sh` does to the partition table.

The script deletes the mounted root partition and creates it again, with a start sector that `grep`, `cut` and `sed` have
found in the listing. `grep "^1"` also finds the lines of 10 to 19, so a start of another partition could come out; but
then there are two words, and `[` refuses the comparison.

- `smaller_iff`: the comparison lets `fdisk` run exactly where the listing is there, no other number begins with that of
  the root partition, and the root partition does not end with the disk.
- `recreate_valid`: what `fdisk` then makes of a valid table is valid.
- `resize_safe`: no run touches another partition, moves the root partition or makes it smaller; and what a run has made
  of the table the next one leaves.
-/
import Mathlib.Tactic
import AvaotaOS.Device.InitResize

namespace AvaotaOS.InitResize

open Shell Text

/-! ## Free segments -/

namespace Table

variable {t : Table}

theorem le_fold {l : List Partition} {b x : ℕ} (hb : x ≤ b) (h : ∀ q ∈ l, x ≤ q.start - 1) :
    x ≤ l.foldr (fun q e => min (q.start - 1) e) b := by
  induction l with
  | nil => exact hb
  | cons q l ih =>
    rw [List.foldr_cons, le_min_iff]
    exact ⟨h q (by simp), ih fun q hq => h q (by simp [hq])⟩

theorem fold_le_base (l : List Partition) (b : ℕ) : l.foldr (fun q e => min (q.start - 1) e) b ≤ b := by
  induction l with
  | nil => exact le_rfl
  | cons q l ih => exact (min_le_right _ _).trans ih

theorem fold_le_mem {l : List Partition} {q : Partition} (hq : q ∈ l) (b : ℕ) :
    l.foldr (fun q e => min (q.start - 1) e) b ≤ q.start - 1 := by
  induction l with
  | nil => simp at hq
  | cons a l ih =>
    rcases List.mem_cons.1 hq with rfl | hq
    · exact min_le_left _ _
    · exact (min_le_right _ _).trans (ih hq)

theorem mem_ahead {p q : Partition} :
    q ∈ t.ahead p ↔ q ∈ t.parts ∧ q.num ≠ p.num ∧ q.layer = p.layer ∧ p.start < q.start := by
  simp [ahead]

/-- a partition reaches at most to the end of its segment -/
theorem Valid.stop_le_segEnd (h : t.Valid) {p : Partition} (hp : p ∈ t.parts) : p.stop ≤ t.segEnd p := by
  apply le_fold (h.inside p hp).2
  intro q hq
  obtain ⟨hq, hn, hl, hs⟩ := mem_ahead.1 hq
  have hpq := h.apart p hp q hq (Ne.symm hn) hl.symm
  have hpp := (h.inside p hp).1
  have hqq := (h.inside q hq).1
  omega

theorem segEnd_le_bound (p : Partition) : t.segEnd p ≤ t.bound p := fold_le_base _ _

/-- the segment ends before the next partition begins -/
theorem segEnd_lt {p q : Partition} (hq : q ∈ t.parts) (hn : q.num ≠ p.num) (hl : q.layer = p.layer)
    (hs : p.start < q.start) : t.segEnd p < q.start := by
  have hle := fold_le_mem (mem_ahead.2 ⟨hq, hn, hl, hs⟩) (t.bound p)
  rw [segEnd]
  omega

theorem Valid.eq_of_num (h : t.Valid) {p q : Partition} (hp : p ∈ t.parts) (hq : q ∈ t.parts) (hn : p.num = q.num) :
    p = q :=
  List.inj_on_of_nodup_map h.nodup hp hq hn

theorem entry_mem {n : ℕ} {p : Partition} (h : t.entry n = some p) : p ∈ t.parts ∧ p.num = n :=
  ⟨List.mem_of_find?_eq_some h, by simpa using List.find?_some h⟩

theorem Valid.entry_eq (h : t.Valid) {p : Partition} (hp : p ∈ t.parts) : t.entry p.num = some p := by
  obtain ⟨q, hq⟩ : ∃ q, t.entry p.num = some q := Option.isSome_iff_exists.1 (List.find?_isSome.2 ⟨p, hp, by simp⟩)
  obtain ⟨hm, hn⟩ := entry_mem hq
  rw [hq, h.eq_of_num hm hp hn]

/-! ## The new entry -/

/-- entry `n` reaches to the end of its segment -/
def stretch (t : Table) (n : ℕ) (p : Partition) : Partition := if p.num = n then { p with stop := t.segEnd p } else p

@[simp] theorem stretch_num (n : ℕ) (p : Partition) : (t.stretch n p).num = p.num := by unfold stretch; split <;> rfl
@[simp] theorem stretch_start (n : ℕ) (p : Partition) : (t.stretch n p).start = p.start := by unfold stretch; split <;> rfl
@[simp] theorem stretch_kind (n : ℕ) (p : Partition) : (t.stretch n p).kind = p.kind := by unfold stretch; split <;> rfl
@[simp] theorem stretch_layer (n : ℕ) (p : Partition) : (t.stretch n p).layer = p.layer := by simp [Partition.layer]

theorem stretch_other {n : ℕ} {p : Partition} (h : p.num ≠ n) : t.stretch n p = p := if_neg h

theorem stretch_self {n : ℕ} {p : Partition} (h : p.num = n) : t.stretch n p = { p with stop := t.segEnd p } := if_pos h

/-- created from its own start, an entry is only stretched -/
theorem Valid.recreate_eq (h : t.Valid) {p : Partition} (hp : p ∈ t.parts) :
    t.recreate p.num p.start = { t with parts := t.parts.map (t.stretch p.num) } := by
  rw [recreate]
  congr 1
  apply List.map_congr_left
  intro q hq
  by_cases hn : q.num = p.num
  · obtain rfl := h.eq_of_num hq hp hn
    rw [if_pos rfl, stretch_self rfl]
  · rw [if_neg hn, stretch_other hn]

section Stretch

variable {n : ℕ}

/-- the extended partition stays -/
theorem Valid.bound_stretch (h : t.Valid) {p : Partition} (hp : p ∈ t.parts) (hk : p.kind = .primary) (q : Partition) :
    Table.bound { t with parts := t.parts.map (t.stretch p.num) } q = t.bound q := by
  have hf : (t.parts.map (t.stretch p.num)).find? (·.kind = .extended) = t.parts.find? (·.kind = .extended) := by
    rw [List.find?_map]
    have hc : ((fun x : Partition => decide (x.kind = .extended)) ∘ t.stretch p.num) =
        fun x : Partition => decide (x.kind = .extended) := by
      funext x
      simp
    rw [hc]
    cases hx : t.parts.find? (·.kind = .extended) with
    | none => rfl
    | some x =>
      have hxk : x.kind = .extended := by simpa using List.find?_some hx
      rw [Option.map_some, stretch_other]
      intro hn
      rw [h.eq_of_num (List.mem_of_find?_eq_some hx) hp hn, hk] at hxk
      exact absurd hxk (by simp)
  simp only [bound, hf]

theorem ahead_stretch (q : Partition) :
    Table.ahead { t with parts := t.parts.map (t.stretch n) } q = (t.ahead q).map (t.stretch n) := by
  simp only [ahead, List.filter_map]
  congr 1
  apply List.filter_congr
  intro x _
  simp

theorem Valid.segEnd_stretch (h : t.Valid) {p : Partition} (hp : p ∈ t.parts) (hk : p.kind = .primary) (q : Partition) :
    Table.segEnd { t with parts := t.parts.map (t.stretch p.num) } q = t.segEnd q := by
  rw [segEnd, ahead_stretch, h.bound_stretch hp hk, List.foldr_map]
  simp only [stretch_start]
  rfl

end Stretch

/-- **What `fdisk` makes of a valid table is valid** -/
theorem Valid.recreate_valid (h : t.Valid) {p : Partition} (hp : p ∈ t.parts) (hk : p.kind = .primary) :
    (t.recreate p.num p.start).Valid := by
  rw [h.recreate_eq hp]
  have hlayer : p.layer = false := by simp [Partition.layer, hk]
  have hmem : ∀ x ∈ t.parts.map (t.stretch p.num), ∃ q ∈ t.parts, x = t.stretch p.num q := by
    intro x hx
    obtain ⟨q, hq, rfl⟩ := List.mem_map.1 hx
    exact ⟨q, hq, rfl⟩
  -- an end of a partition, after and before
  have hstop : ∀ q ∈ t.parts, q.stop ≤ (t.stretch p.num q).stop ∧ (t.stretch p.num q).stop ≤ t.segEnd q := by
    intro q hq
    by_cases hn : q.num = p.num
    · rw [stretch_self hn]
      exact ⟨h.stop_le_segEnd hq, le_rfl⟩
    · rw [stretch_other hn]
      exact ⟨le_rfl, h.stop_le_segEnd hq⟩
  refine ⟨?_, h.last_lt, ?_, ?_, ?_, ?_⟩
  · rw [List.map_map]
    exact (List.map_congr_left fun q _ => stretch_num _ q).symm ▸ h.nodup
  · intro x hx
    obtain ⟨q, hq, rfl⟩ := hmem x hx
    have hb := h.bound_stretch hp hk (t.stretch p.num q)
    have hbq : t.bound (t.stretch p.num q) = t.bound q := by simp [bound]
    rw [hb, hbq, stretch_start]
    exact ⟨(h.inside q hq).1.trans (hstop q hq).1, (hstop q hq).2.trans (segEnd_le_bound q)⟩
  · intro x hx
    obtain ⟨q, hq, rfl⟩ := hmem x hx
    have hb := h.bound_stretch hp hk (t.stretch p.num q)
    have hbq : t.bound (t.stretch p.num q) = t.bound q := by simp [bound]
    rw [hb, hbq]
    exact h.bound_le q hq
  · intro x hx y hy hn hl
    obtain ⟨q, hq, rfl⟩ := hmem x hx
    obtain ⟨r, hr, rfl⟩ := hmem y hy
    rw [stretch_num, stretch_num] at hn
    rw [stretch_layer, stretch_layer] at hl
    rw [stretch_start, stretch_start]
    have hqr := h.apart q hq r hr hn hl
    have hqs := h.inside q hq
    have hrs := h.inside r hr
    rcases hqr with hlt | hlt
    · left
      exact (hstop q hq).2.trans_lt (segEnd_lt hr (Ne.symm hn) hl.symm (by omega))
    · right
      exact (hstop r hr).2.trans_lt (segEnd_lt hq hn hl (by omega))
  · intro x hx hxl
    obtain ⟨q, hq, rfl⟩ := hmem x hx
    rw [stretch_layer] at hxl
    obtain ⟨y, hy, hyk, hys, hye⟩ := h.nested q hq hxl
    have hqn : q.num ≠ p.num := by
      intro hn
      rw [h.eq_of_num hq hp hn, hlayer] at hxl
      exact absurd hxl (by simp)
    refine ⟨t.stretch p.num y, List.mem_map_of_mem hy, by rw [stretch_kind]; exact hyk, ?_, ?_⟩
    · rw [stretch_start, stretch_start]; exact hys
    · rw [stretch_other hqn]
      exact hye.trans (hstop y hy).1

/-- the partition then ends with its segment -/
theorem Valid.recreate_atEnd (h : t.Valid) {p : Partition} (hp : p ∈ t.parts) (hk : p.kind = .primary) :
    (t.recreate p.num p.start).atEnd p.num = true ∧
      (t.recreate p.num p.start).entry p.num = some { p with stop := t.segEnd p } := by
  have he : (t.recreate p.num p.start).entry p.num = some { p with stop := t.segEnd p } := by
    have hm : ({ p with stop := t.segEnd p } : Partition) ∈ (t.recreate p.num p.start).parts := by
      rw [h.recreate_eq hp, ← stretch_self (t := t) (rfl : p.num = p.num)]
      exact List.mem_map_of_mem hp
    exact (h.recreate_valid hp hk).entry_eq hm
  refine ⟨?_, he⟩
  rw [atEnd, he, h.recreate_eq hp]
  simp only [Option.any_some, decide_eq_true_eq]
  rw [h.segEnd_stretch hp hk]
  simp [segEnd, ahead, bound, Partition.layer]

/-- a partition that ends with its segment is created as it was -/
theorem Valid.recreate_of_atEnd (h : t.Valid) {p : Partition} (hp : p ∈ t.parts) (he : t.atEnd p.num = true) :
    t.recreate p.num p.start = t := by
  rw [atEnd, h.entry_eq hp, Option.any_some, decide_eq_true_eq] at he
  rw [h.recreate_eq hp]
  have hm : t.parts.map (t.stretch p.num) = t.parts := by
    refine (List.map_congr_left fun q hq => ?_).trans (List.map_id _)
    by_cases hn : q.num = p.num
    · obtain rfl := h.eq_of_num hq hp hn
      rw [stretch_self rfl, ← he]
      rfl
    · exact stretch_other hn
  rw [hm]

end Table

/-! ## What the filters find -/

section Scrape

variable (d : Root) (e : Env)

/-- `findmnt`, `lsblk` and `parted` answer -/
def Located : Prop := e.findmnt = true ∧ e.lsblk = true ∧ e.parted = true

instance : Decidable (Located e) := by unfold Located; infer_instance

/-- no other partition has a number that begins with `n` -/
def Table.Alone (t : Table) (n : ℕ) : Prop := ∀ p ∈ t.parts, decimal n <+: decimal p.num → p.num = n

/-- the partitions whose lines `grep "^${PART_NUM}"` finds -/
def Table.found (t : Table) (n : ℕ) : List Partition := t.parts.filter fun p => (decimal n).isPrefixOf (decimal p.num)

theorem unit_no_colon (n : ℕ) : ':' ∉ decimal n ++ ['s'] := by
  intro h
  rcases List.mem_append.1 h with h | h
  · exact colon_not_mem_decimal n h
  · exact absurd (List.mem_singleton.1 h) (by decide)

theorem cut_start (p : Partition) : digitsOf (cut 1 (p.line e.info)) = decimal p.start := by
  rw [Partition.line, cut_record, cutField_succ (colon_not_mem_decimal _), cutField_zero (unit_no_colon _),
    digitsOf_unit _ (by decide)]

theorem cut_stop (p : Partition) : digitsOf (cut 2 (p.line e.info)) = decimal p.stop := by
  rw [Partition.line, cut_record, cutField_succ (colon_not_mem_decimal _), cutField_succ (unit_no_colon _),
    cutField_zero (unit_no_colon _), digitsOf_unit _ (by decide)]

theorem line_found (n : ℕ) (p : Partition) :
    (decimal n).isPrefixOf (p.line e.info) = (decimal n).isPrefixOf (decimal p.num) := by
  rw [Bool.eq_iff_iff, List.isPrefixOf_iff_prefix, List.isPrefixOf_iff_prefix, Partition.line]
  exact prefix_record n p.num _

/-- a number is not the beginning of a line that begins with something else -/
theorem decimal_not_prefix (n : ℕ) {c : Char} (hc : c.isDigit = false) (l : List Char) :
    (decimal n).isPrefixOf (c :: l) = false := by
  rw [Bool.eq_false_iff, Ne, List.isPrefixOf_iff_prefix]
  intro h
  cases hn : decimal n with
  | nil => exact decimal_ne_nil n hn
  | cons a r =>
    rw [hn] at h
    obtain ⟨u, hu⟩ := h
    obtain ⟨rfl, -⟩ := List.cons.inj hu
    have ha : a.isDigit = true := isDigit_decimal (n := n) (by simp [hn])
    rw [hc] at ha
    exact absurd ha (by simp)

/-- the two lines before the partitions begin with a letter and with a slash -/
theorem grep_number (t : Table) (n : ℕ) :
    grepStart (decimal n) (listing d e t) = (t.found n).map (·.line e.info) := by
  have h1 : (decimal n).isPrefixOf "BYT;".toList = false := decimal_not_prefix n (by decide) _
  have h2 : (decimal n).isPrefixOf (d.dev ++ ':' :: ((decimal t.size ++ ['s']) ++ ':' :: e.devInfo)) = false :=
    decimal_not_prefix n (c := '/') (by decide) _
  rw [grepStart, listing, List.filter_cons_of_neg (Bool.eq_false_iff.1 h1), List.filter_cons_of_neg (Bool.eq_false_iff.1 h2),
    List.filter_map, Table.found]
  congr 1
  apply List.filter_congr
  intro p _
  exact line_found e n p

theorem grep_dev (t : Table) :
    grepStart "/dev".toList (listing d e t) = [d.dev ++ ':' :: ((decimal t.size ++ ['s']) ++ ':' :: e.devInfo)] := by
  have hp : ∀ l ∈ t.parts.map (·.line e.info), "/dev".toList.isPrefixOf l = false := by
    intro l hl
    obtain ⟨p, -, rfl⟩ := List.mem_map.1 hl
    rw [Bool.eq_false_iff, Ne, List.isPrefixOf_iff_prefix]
    rintro ⟨u, hu⟩
    have hdev : "/dev".toList = '/' :: "dev".toList := rfl
    -- a partition's line begins with a digit
    cases hn : decimal p.num with
    | nil => exact decimal_ne_nil _ hn
    | cons a r =>
      rw [Partition.line, hn, hdev] at hu
      obtain ⟨ha, -⟩ := List.cons.inj hu
      have hc : '/' ∈ decimal p.num := by
        rw [hn, ha]
        exact List.mem_cons_self
      exact absurd (isDigit_decimal hc) (by decide)
  have hd : "/dev".toList.isPrefixOf (d.dev ++ ':' :: ((decimal t.size ++ ['s']) ++ ':' :: e.devInfo)) = true := by
    rw [List.isPrefixOf_iff_prefix, Root.dev, List.append_assoc]
    exact ⟨"/".toList ++ (d.pkname ++ ':' :: ((decimal t.size ++ ['s']) ++ ':' :: e.devInfo)), by simp⟩
  rw [grepStart, listing, List.filter_cons_of_neg (by decide), List.filter_cons_of_pos hd,
    List.filter_eq_nil_iff.2 fun l hl => Bool.eq_false_iff.1 (hp l hl)]

theorem scrape_found {k : ℕ} {f : Partition → ℕ} (hf : ∀ p, digitsOf (cut k (p.line e.info)) = decimal (f p)) (t : Table)
    (n : ℕ) : scrape k (decimal n) (listing d e t) = (t.found n).map f := by
  rw [scrape, grep_number, List.filterMap_map]
  have hs : ((fun l => number (digitsOf (cut k l))) ∘ fun p : Partition => p.line e.info) = some ∘ f := by
    funext p
    simp only [Function.comp_apply, hf, number_decimal]
  rw [hs, ← List.filterMap_map, List.filterMap_some]

theorem scrape_size (t : Table) : scrape 1 "/dev".toList (listing d e t) = [t.size] := by
  have hc : ':' ∉ d.dev := by
    rw [Root.dev, List.mem_append, not_or]
    exact ⟨by decide, d.pkname_colon⟩
  rw [scrape, grep_dev]
  simp only [List.filterMap_cons, List.filterMap_nil]
  rw [cut_record, cutField_succ hc, cutField_zero (unit_no_colon _), digitsOf_unit _ (by decide), number_decimal]

/-! ## Up to the comparison -/

variable (m : Machine)

/-- the shell at the comparison -/
def inspected : World := effect (exec d e) inspect ⟨m, [], [], [], [], [], [], []⟩

/-- **Everything answers**: the words are the starts and the ends of the partitions that are found -/
theorem inspected_located (h : Located e) :
    inspected d e m = ⟨m, d.path, d.dev, decimal d.num, listing d e m.table, (m.table.found d.num).map (·.start),
      (m.table.found d.num).map (·.stop), [(m.table.size : ℤ) - 1]⟩ := by
  obtain ⟨h1, h2, h3⟩ := h
  simp only [inspected, inspect, effect_cons, effect_nil, exec, h1, h2, h3, if_true, true_and, Root.path,
    trailingDigits_append d.stem_last, scrape_found d e (cut_start e), scrape_found d e (cut_stop e), scrape_size,
    List.map_cons, List.map_nil]
  rfl

/-- **Something does not answer**: there is no listing, and no word for the end -/
theorem inspected_lost (h : ¬ Located e) : (inspected d e m).m = m ∧ (inspected d e m).PART_END = [] := by
  have hdev : ¬ "/dev/".toList = d.dev := by
    intro hd
    rw [Root.dev, List.self_eq_append_right] at hd
    exact d.pkname_ne hd
  have hpath : ¬ ([] : List Char) = d.path := by
    intro hp
    have hn := congrArg List.length hp
    rw [Root.path, List.length_append, List.length_nil] at hn
    exact decimal_ne_nil d.num (List.length_eq_zero_iff.1 (by omega))
  have hnone : ∀ k p, scrape k p [] = [] := fun _ _ => rfl
  by_cases h12 : e.findmnt = true ∧ e.lsblk = true
  · have h3 : e.parted = false := by
      rw [Bool.eq_false_iff]
      exact fun h3 => h ⟨h12.1, h12.2, h3⟩
    simp only [inspected, inspect, effect_cons, effect_nil, exec, h12.1, h12.2, h3, hnone, Bool.false_eq_true, false_and,
      if_true, if_false, List.map_nil, and_self]
  · -- the device is not known
    have hf : e.findmnt = false ∨ e.lsblk = false := by
      rw [not_and_or] at h12
      simpa using h12
    rcases hf with h1 | h2
    · simp only [inspected, inspect, effect_cons, effect_nil, exec, h1, hdev, hpath, hnone, Bool.false_eq_true, and_false,
        if_false, List.map_nil, and_self]
    · simp only [inspected, inspect, effect_cons, effect_nil, exec, h2, hdev, hnone, Bool.false_eq_true, false_and, and_false,
        if_false, List.map_nil]
      cases e.findmnt <;> simp

theorem inspected_m : (inspected d e m).m = m := by
  by_cases h : Located e
  · rw [inspected_located d e m h]
  · exact (inspected_lost d e m h).1

variable {m} {p : Partition}

/-- the root partition is found, and nothing else where it is alone -/
theorem found_alone (hv : m.table.Valid) (hp : m.table.entry d.num = some p) (ha : m.table.Alone d.num) :
    m.table.found d.num = [p] := by
  obtain ⟨hm, hn⟩ := Table.entry_mem hp
  have hnd : m.table.parts.Nodup := hv.nodup.of_map
  have hf : m.table.found d.num = m.table.parts.filter (· = p) := by
    apply List.filter_congr
    intro q hq
    rw [Bool.eq_iff_iff, List.isPrefixOf_iff_prefix, decide_eq_true_iff]
    constructor
    · intro h
      exact hv.eq_of_num hq hm ((ha q hq h).trans hn.symm)
    · rintro rfl
      rw [hn]
  rw [hf, List.filter_eq, List.count_eq_one_of_mem hnd hm]
  rfl

theorem alone_of_found {a : ℕ} (hp : m.table.entry d.num = some p) (hf : (m.table.found d.num).map (·.stop) = [a]) :
    m.table.Alone d.num := by
  obtain ⟨hm, hn⟩ := Table.entry_mem hp
  obtain ⟨x, hx, -⟩ := List.map_eq_singleton_iff.1 hf
  have hmem : ∀ q ∈ m.table.parts, decimal d.num <+: decimal q.num → q = x := by
    intro q hq h
    have hq : q ∈ m.table.found d.num := List.mem_filter.2 ⟨hq, List.isPrefixOf_iff_prefix.2 h⟩
    rw [hx] at hq
    exact List.mem_singleton.1 hq
  intro q hq h
  rw [hmem q hq h, ← hmem p hm (by rw [hn]), hn]

/-- **The comparison lets `fdisk` run** exactly where there is a listing, the root partition is alone in it, and it does
not end with the disk -/
theorem smaller_iff (hv : m.table.Valid) (hp : m.table.entry d.num = some p) :
    smaller (inspected d e m) = true ↔ Located e ∧ m.table.Alone d.num ∧ p.stop + 1 < m.table.size := by
  by_cases hl : Located e
  · constructor
    · intro h
      rw [inspected_located d e m hl, smaller] at h
      split at h
      · rename_i a b ha hb
        obtain ⟨rfl⟩ := List.cons.inj hb
        have hal := alone_of_found d hp ha
        simp only [found_alone d hv hp hal, List.map_cons, List.map_nil, List.cons.injEq, and_true] at ha
        rw [decide_eq_true_iff] at h
        exact ⟨hl, hal, by omega⟩
      · exact absurd h (by simp)
    · rintro ⟨-, ha, hs⟩
      rw [inspected_located d e m hl, found_alone d hv hp ha]
      simp only [smaller, List.map_cons, List.map_nil, decide_eq_true_eq]
      omega
  · have h0 : smaller (inspected d e m) = false := by
      rw [smaller, (inspected_lost d e m hl).2]
    simp [h0, hl]

/-! ## One run -/

variable (m)

/-- the shell after `resize_root` -/
def resized : World :=
  effect (exec d e) (if smaller (inspected d e m) then grow else [.logLargest]) (inspected d e m)

theorem never_killed (c : Cmd) (w : World) : (exec d e c w).1 ≠ .killed := by
  cases c with
  | decrement =>
    simp only [exec]
    split
    · simp
    · split_ifs <;> simp
    · simp
  | findmnt | lsblk | parted | fdisk | resize2fs =>
    simp only [exec]
    split_ifs <;> simp
  | _ => simp [exec]

theorem eval_resize_root (s : St Cmd World) (hr : s.out = .run) :
    eval (exec d e) true resize_root s =
      { eval (exec d e) true (block (if smaller (effect (exec d e) inspect s.w) then grow else [.logLargest]))
          (eval (exec d e) true (block inspect) s) with ok := true } := by
  have hA := eval_block_through (never_killed d e) true inspect s (Or.inr rfl) hr
  obtain ⟨hw, -, -⟩ := eval_block_run (exec d e) true inspect s hA
  have hcond : eval (exec d e) true (.cond smaller (block grow) (block [.logLargest])) (eval (exec d e) true (block inspect) s) =
      eval (exec d e) true (block (if smaller (effect (exec d e) inspect s.w) then grow else [.logLargest]))
        (eval (exec d e) true (block inspect) s) := by
    rw [eval, hw]
    split <;> rfl
  have hB := eval_block_through (never_killed d e) true
    (if smaller (effect (exec d e) inspect s.w) then grow else [.logLargest]) _ (Or.inr rfl) hA
  rw [resize_root, seqs, seqs, seqs, seqs, eval, next_run hA, eval, hcond, next_run hB, eval, eval, next_run]
  · rfl
  · exact hB

/-- **The script always comes to `systemctl disable`**: errexit is ignored in the condition, and the function ends with
`return 0` -/
theorem init_resize_run :
    (init_resize d e m).w = (exec d e .disable (resized d e m)).2 ∧
      (init_resize d e m).log =
        trace (exec d e) inspect ⟨m, [], [], [], [], [], [], []⟩ ++
          trace (exec d e) (if smaller (inspected d e m) then grow else [.logLargest]) (inspected d e m) ++
            [(.disable, true)] := by
  obtain ⟨s, hs⟩ : ∃ s : St Cmd World, s = { start Cmd ⟨m, [], [], [], [], [], [], []⟩ with e := true } := ⟨_, rfl⟩
  have hr : s.out = .run := by rw [hs]; rfl
  have hw : s.w = ⟨m, [], [], [], [], [], [], []⟩ := by rw [hs]; rfl
  have hl : s.log = [] := by rw [hs]; rfl
  have hA := eval_block_through (never_killed d e) true inspect s (Or.inr rfl) hr
  obtain ⟨hAw, -, hAl⟩ := eval_block_run (exec d e) true inspect s hA
  have hB := eval_block_through (never_killed d e) true (if smaller (inspected d e m) then grow else [.logLargest]) _
    (Or.inr rfl) hA
  obtain ⟨hBw, -, hBl⟩ := eval_block_run (exec d e) true _ _ hB
  have heval : init_resize d e m =
      simple (exec d e) false .disable
        { eval (exec d e) true (block (if smaller (inspected d e m) then grow else [.logLargest]))
            (eval (exec d e) true (block inspect) s) with ok := true } := by
    have hroot := eval_resize_root d e s hr
    rw [hw] at hroot
    have hscript : init_resize d e m =
        (eval (exec d e) true resize_root s).next fun s' =>
          if s'.ok then eval (exec d e) false (.cmd .disable) s' else eval (exec d e) false (.cmd .logFailed) s' := by
      rw [hs]
      rfl
    rw [hscript, hroot, next_run]
    · rfl
    · exact hB
  rw [heval, simple_w, simple_log, hBw, hBl, hAw, hAl, hw, hl]
  refine ⟨rfl, ?_⟩
  simp [inspected, exec]

/-- the table is changed by the dialogue, or not at all -/
theorem init_resize_table :
    (init_resize d e m).w.m.table =
      if smaller (inspected d e m) = true ∧ e.fdisk = true then
        dialogue e (inspected d e m).PART_NUM (inspected d e m).PART_START m.table
      else m.table := by
  have hm := inspected_m d e m
  rw [(init_resize_run d e m).1, resized]
  cases hs : smaller (inspected d e m) with
  | false => simp [exec, World.say, hm]
  | true => cases hf : e.fdisk <;> cases hr : e.resize2fs <;> simp [grow, exec, World.say, hm, hf, hr]

theorem fdisk_log {b : Bool} (h : (Cmd.fdisk, b) ∈ (init_resize d e m).log) :
    smaller (inspected d e m) = true ∧ b = e.fdisk := by
  rw [(init_resize_run d e m).2] at h
  cases hs : smaller (inspected d e m) with
  | false => simp [hs, trace, inspect] at h
  | true => cases hf : e.fdisk <;> simp [hs, trace, inspect, grow, exec, hf] at h <;> simp [h]

variable {m}

/-- **The dialogue is about the root partition** -/
theorem dialogue_words (hv : m.table.Valid) (hp : m.table.entry d.num = some p) (hs : smaller (inspected d e m) = true) :
    (inspected d e m).PART_NUM = decimal d.num ∧ (inspected d e m).PART_START = [p.start] := by
  obtain ⟨hl, ha, -⟩ := (smaller_iff d e hv hp).1 hs
  rw [inspected_located d e m hl, found_alone d hv hp ha]
  exact ⟨rfl, rfl⟩

/-- the start of a primary partition is free once its entry is gone -/
theorem free_start (hv : m.table.Valid) (hp : m.table.entry d.num = some p) (hk : p.kind = .primary) :
    m.table.free d.num p.start = true := by
  obtain ⟨hm, hn⟩ := Table.entry_mem hp
  have hb := hv.bound_le p hm
  have hpp := hv.inside p hm
  simp only [Table.free, hp, Option.any_some, hk, decide_true, Bool.true_and, Bool.and_eq_true, decide_eq_true_eq,
    List.all_eq_true, Bool.or_eq_true]
  refine ⟨by omega, fun q hq => ?_⟩
  have hqq := (hv.inside q hq).1
  by_cases hqn : q.num = d.num
  · exact Or.inl (Or.inl (Or.inl hqn))
  · cases hql : q.layer with
    | true => exact Or.inl (Or.inl (Or.inr rfl))
    | false =>
      have hl : p.layer = q.layer := by rw [hql]; simp [Partition.layer, hk]
      rcases hv.apart p hm q hq (by rw [hn]; exact Ne.symm hqn) hl with h | h
      · exact Or.inr (by omega)
      · exact Or.inl (Or.inr h)

theorem dialogue_eq (hv : m.table.Valid) (hp : m.table.entry d.num = some p) (hk : p.kind = .primary)
    (hs : smaller (inspected d e m) = true) :
    dialogue e (inspected d e m).PART_NUM (inspected d e m).PART_START m.table = m.table.recreate p.num p.start := by
  obtain ⟨hnum, hstart⟩ := dialogue_words d e hv hp hs
  rw [hnum, hstart]
  simp only [dialogue, number_decimal, free_start d hv hp hk, if_true, (Table.entry_mem hp).2]

end Scrape

/-! ## Any run -/

/-- the partitions of `t` are those of `t'`, the root partition maybe longer, and `t'` is a table as it should be -/
structure Table.Kept (n : ℕ) (t t' : Table) : Prop where
  valid : t'.Valid
  size : t'.size = t.size
  numbers : t'.parts.map (·.num) = t.parts.map (·.num)
  others : ∀ q ∈ t.parts, q.num ≠ n → q ∈ t'.parts
  root : ∀ p ∈ t.parts, p.num = n → ∃ p' ∈ t'.parts, p'.num = n ∧ p'.start = p.start ∧ p.stop ≤ p'.stop

theorem Table.Valid.kept_self {t : Table} (h : t.Valid) (n : ℕ) : t.Kept n t :=
  ⟨h, rfl, rfl, fun _ hq _ => hq, fun p hp hn => ⟨p, hp, hn, rfl, le_rfl⟩⟩

theorem Table.Valid.kept_recreate {t : Table} (h : t.Valid) {p : Partition} (hp : p ∈ t.parts) (hk : p.kind = .primary) :
    t.Kept p.num (t.recreate p.num p.start) := by
  have hv := h.recreate_valid hp hk
  rw [h.recreate_eq hp] at hv ⊢
  refine ⟨hv, rfl, ?_, ?_, ?_⟩
  · rw [List.map_map]
    exact List.map_congr_left fun q _ => stretch_num _ q
  · intro q hq hn
    exact List.mem_map.2 ⟨q, hq, stretch_other hn⟩
  · intro q hq hn
    refine ⟨_, List.mem_map_of_mem hq, by rw [stretch_num, hn], stretch_start _ q, ?_⟩
    rw [stretch_self hn]
    exact h.stop_le_segEnd hq

section Run

variable (d : Root) (e e' : Env) {m : Machine} {p : Partition}

theorem kept_run (hv : m.table.Valid) (hp : m.table.entry d.num = some p) (hk : p.kind = .primary) :
    m.table.Kept d.num (init_resize d e m).w.m.table := by
  obtain ⟨hm, hn⟩ := Table.entry_mem hp
  rw [init_resize_table]
  split_ifs with h
  · rw [dialogue_eq d e hv hp hk h.1, ← hn]
    exact hv.kept_recreate hm hk
  · exact hv.kept_self d.num

/-- a table whose root partition ends with its segment is left as it is -/
theorem unchanged_of_atEnd (hv : m.table.Valid) (hp : m.table.entry d.num = some p) (hk : p.kind = .primary)
    (he : m.table.atEnd d.num = true) : (init_resize d e m).w.m.table = m.table := by
  obtain ⟨hm, hn⟩ := Table.entry_mem hp
  rw [init_resize_table]
  split_ifs with h
  · rw [dialogue_eq d e hv hp hk h.1]
    exact hv.recreate_of_atEnd hm (by rw [hn]; exact he)
  · rfl

/-- **The next run leaves what a run has made of the table** -/
theorem second_run (hv : m.table.Valid) (hp : m.table.entry d.num = some p) (hk : p.kind = .primary)
    (hl : Located e) (hf : e.fdisk = true) :
    (init_resize d e' (init_resize d e m).w.m).w.m.table = (init_resize d e m).w.m.table := by
  obtain ⟨hm, hn⟩ := Table.entry_mem hp
  by_cases hs : smaller (inspected d e m) = true
  · have ht : (init_resize d e m).w.m.table = m.table.recreate p.num p.start := by
      rw [init_resize_table, if_pos ⟨hs, hf⟩, dialogue_eq d e hv hp hk hs]
    obtain ⟨hend, hentry⟩ := hv.recreate_atEnd hm hk
    rw [← ht, hn] at hend hentry
    have hv' := (hv.recreate_valid hm hk)
    rw [← ht] at hv'
    exact unchanged_of_atEnd d e' hv' hentry hk hend
  · -- nothing was done, and the reason is in the table
    have ht : (init_resize d e m).w.m.table = m.table := by
      rw [init_resize_table, if_neg fun h => hs h.1]
    rw [init_resize_table d e', if_neg]
    rintro ⟨hs', -⟩
    rw [← ht] at hv hp
    obtain ⟨-, ha, hlt⟩ := (smaller_iff d e' hv hp).1 hs'
    rw [ht] at hv hp ha hlt
    exact hs ((smaller_iff d e hv hp).2 ⟨hl, ha, hlt⟩)

end Run

/-- **`init-resize.sh` endangers no partition**: for a valid table with the root on a primary partition, whatever the
programs answer, `fdisk` is given the number and the start of the root partition or is not started; the table stays valid,
no other partition changes, and the root partition keeps its start and gets no smaller. What a run that got its answers has
made of the table, a second run leaves. -/
theorem resize_safe (d : Root) (e : Env) (m : Machine) (p : Partition) (hv : m.table.Valid)
    (hp : m.table.entry d.num = some p) (hk : p.kind = .primary) :
    (∀ b, (Cmd.fdisk, b) ∈ (init_resize d e m).log →
      (inspected d e m).PART_NUM = decimal d.num ∧ (inspected d e m).PART_START = [p.start]) ∧
    m.table.Kept d.num (init_resize d e m).w.m.table ∧
    (Located e → e.fdisk = true → ∀ e' : Env,
      (init_resize d e' (init_resize d e m).w.m).w.m.table = (init_resize d e m).w.m.table) := by
  refine ⟨fun b hb => ?_, kept_run d e hv hp hk, fun hl hf e' => second_run d e e' hv hp hk hl hf⟩
  exact dialogue_words d e hv hp (fdisk_log d e m hb).1

/-! ## An image on a larger card -/

theorem mmcblk0p_last : ∀ c ∈ "/dev/mmcblk0p".toList.getLast?, c.isDigit = false := by
  have hlast : "/dev/mmcblk0p".toList.getLast? = some 'p' := by decide
  rw [hlast]
  rintro c ⟨⟩
  rfl

def mmcblk0p2 : Root := ⟨"/dev/mmcblk0p".toList, "mmcblk0".toList, 2, mmcblk0p_last, by decide, by decide⟩

/-- boot and root as `pack.sh` makes them, on a card of 4 GiB -/
def card : Machine :=
  ⟨⟨8388608, 8388607, [⟨1, 2048, 524287, .primary⟩, ⟨2, 524288, 3670015, .primary⟩]⟩, 3670015, true, []⟩

/-- every program answers -/
def answers : Env := ⟨true, true, true, true, true, fun _ => [], [], id⟩

theorem card_valid : card.table.Valid := by
  refine ⟨by decide, by decide, by decide, by decide, by decide, by decide⟩

theorem resize_safe_card :
    card.table.Kept 2 (init_resize mmcblk0p2 answers card).w.m.table :=
  (resize_safe mmcblk0p2 answers card ⟨2, 524288, 3670015, .primary⟩ card_valid (by decide) rfl).2.1

end AvaotaOS.InitResize
