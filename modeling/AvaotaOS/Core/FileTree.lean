/-
A directory tree: paths below a root, and what the usual tools do to it. The contents of files are arbitrary.

A `DirTree` carries its well-formedness: whatever stands in a directory stands in a directory (`closed`). A symbolic link is
taken to lead out of the tree; it comes with the file it leads to, if it leads to one. The tools are `write` (a
redirection, and `cp` onto a file), `edit` (`sed -i`), `mkdirP`, `cpInto` and `pack` (`gzip`). A tool that refuses
leaves the tree as it is (`none`).

`total` adds up what a measure counts for each entry, as `du` does.
-/
import Mathlib.Tactic
import Mathlib.Data.List.AList

namespace AvaotaOS.FileTree

/-- the names on the way from the root; `[]` is the root itself -/
abbrev Path := List String

inductive Node (γ : Type) where
  | file (c : γ)
  | dir
  | link (c : Option γ)
deriving DecidableEq, Repr

variable {γ : Type}

/-- is there a directory -/
def dirAt (m : AList fun _ : Path => Node γ) (q : Path) : Bool :=
  match q, m.lookup q with
  | [], _ | _, some .dir => true
  | _, _ => false

structure DirTree (γ : Type) where
  nodes : AList fun _ : Path => Node γ
  closed : ∀ a n, a ++ [n] ∈ nodes → dirAt nodes a = true

namespace DirTree

def lookup (t : DirTree γ) (q : Path) : Option (Node γ) := t.nodes.lookup q

def isDir (t : DirTree γ) (q : Path) : Bool := dirAt t.nodes q

@[ext] theorem ext {t u : DirTree γ} (h : t.nodes = u.nodes) : t = u := by
  cases t; cases u; congr

@[simp] theorem isDir_nil (t : DirTree γ) : t.isDir [] = true := rfl

theorem isDir_append (t : DirTree γ) (a : Path) (n : String) : t.isDir (a ++ [n]) = true ↔ t.lookup (a ++ [n]) = some .dir := by
  unfold isDir dirAt lookup
  split <;> simp_all

/-- above what there is there are directories -/
theorem isDir_of_lookup {t : DirTree γ} {a : Path} {n : String} {x : Node γ} (h : t.lookup (a ++ [n]) = some x) :
    t.isDir a = true :=
  t.closed a n (AList.lookup_isSome.1 (by rw [show t.nodes.lookup (a ++ [n]) = some x from h]; rfl))

theorem isDir_above {t : DirTree γ} {a q : Path} {x : Node γ} (h : t.lookup (a ++ q) = some x) (hq : q ≠ []) :
    t.isDir a = true := by
  induction q using List.reverseRecOn generalizing x with
  | nil => exact absurd rfl hq
  | append_singleton q n ih =>
    rw [← List.append_assoc] at h
    have hd := isDir_of_lookup h
    by_cases hq : q = []
    · simpa [hq] using hd
    · obtain ⟨q', m, rfl⟩ := (List.eq_nil_or_concat' q).resolve_left hq
      rw [← List.append_assoc, isDir_append, List.append_assoc] at hd
      exact ih hd hq

/-! ## One entry -/

theorem dirAt_insert_ne (m : AList fun _ : Path => Node γ) {q a : Path} (x : Node γ) (h : a ≠ q) :
    dirAt (m.insert q x) a = dirAt m a := by
  unfold dirAt
  rw [AList.lookup_insert_ne h]

/-- put an entry into a directory, in the place of anything but a directory -/
def put (t : DirTree γ) (a : Path) (n : String) (x : Node γ) (ha : t.isDir a = true) (hn : t.isDir (a ++ [n]) = false) :
    DirTree γ where
  nodes := t.nodes.insert (a ++ [n]) x
  closed b m h := by
    rcases (AList.mem_insert _).1 h with h | h
    · obtain ⟨rfl, -⟩ := List.append_inj' h rfl
      rw [dirAt_insert_ne _ _ (by simp)]
      exact ha
    · have hb := t.closed b m h
      by_cases he : b = a ++ [n]
      · subst he
        exact absurd hb (by rw [show dirAt t.nodes (a ++ [n]) = false from hn]; simp)
      · rwa [dirAt_insert_ne _ _ he]

/-- `rm` of anything but a directory -/
def rm (t : DirTree γ) (a : Path) (n : String) : DirTree γ :=
  if hn : t.isDir (a ++ [n]) = true then t
  else
    { nodes := t.nodes.erase (a ++ [n])
      closed := fun b m h => by
        have hb := t.closed b m (AList.mem_erase.1 h).2
        by_cases he : b = a ++ [n]
        · subst he
          exact absurd hb hn
        · unfold dirAt
          rw [AList.lookup_erase_ne he]
          exact hb }

section Put

variable {t : DirTree γ} {a : Path} {n : String} {x : Node γ} {ha : t.isDir a = true} {hn : t.isDir (a ++ [n]) = false}

@[simp] theorem lookup_put_self : (t.put a n x ha hn).lookup (a ++ [n]) = some x := AList.lookup_insert _

theorem lookup_put_ne {q : Path} (h : q ≠ a ++ [n]) : (t.put a n x ha hn).lookup q = t.lookup q := AList.lookup_insert_ne h

theorem isDir_put_ne {q : Path} (h : q ≠ a ++ [n]) : (t.put a n x ha hn).isDir q = t.isDir q := dirAt_insert_ne _ _ h

theorem lookup_rm_self (h : t.isDir (a ++ [n]) = false) : (t.rm a n).lookup (a ++ [n]) = none := by
  rw [rm, dif_neg (by simp [h])]
  exact AList.lookup_erase _ _

theorem lookup_rm_ne {q : Path} (h : q ≠ a ++ [n]) : (t.rm a n).lookup q = t.lookup q := by
  unfold rm
  split
  · rfl
  · exact AList.lookup_erase_ne h

end Put

/-! ## The tools -/

/-- the content one reads there -/
def read (t : DirTree γ) (q : Path) : Option γ :=
  match t.lookup q with
  | some (.file c) => some c
  | some (.link c) => c
  | _ => none

/-- can a redirection write there -/
def writable (t : DirTree γ) (a : Path) (n : String) : Bool :=
  t.isDir a && !t.isDir (a ++ [n]) &&
    match t.lookup (a ++ [n]) with
    | some (.link none) => false
    | _ => true

theorem writable_dir {t : DirTree γ} {a : Path} {n : String} (h : t.writable a n = true) :
    t.isDir a = true ∧ t.isDir (a ++ [n]) = false := by
  simp only [writable, Bool.and_eq_true, Bool.not_eq_true'] at h
  exact h.1

/-- what stands where something has been written: what is written through a link does not stand in the tree -/
def written (old : Option (Node γ)) (c : γ) : Node γ :=
  match old with
  | some (.link _) => .link (some c)
  | _ => .file c

theorem written_cases (old : Option (Node γ)) (c : γ) : written old c = .file c ∨ written old c = .link (some c) := by
  unfold written
  split <;> simp

/-- `> a/n` -/
def write (a : Path) (n : String) (c : γ) (t : DirTree γ) : Option (DirTree γ) :=
  if h : t.writable a n = true then
    some (t.put a n (written (t.lookup (a ++ [n])) c) (writable_dir h).1 (writable_dir h).2)
  else none

/-- `sed -i` puts a new file in the place of the old one, and of a link -/
def edit (a : Path) (n : String) (f : γ → γ) (t : DirTree γ) : Option (DirTree γ) :=
  if h : t.writable a n = true then
    (t.read (a ++ [n])).map fun c => t.put a n (.file (f c)) (writable_dir h).1 (writable_dir h).2
  else none

/-- `mkdir -p`: the directories above are made as far as nothing else stands in the way -/
def mkdirFrom : Path → Path → DirTree γ → DirTree γ
  | _, [], t => t
  | a, n :: q, t =>
    if hn : t.isDir (a ++ [n]) = true then mkdirFrom (a ++ [n]) q t
    else
      match t.lookup (a ++ [n]) with
      | some _ => t
      | none => if ha : t.isDir a = true then mkdirFrom (a ++ [n]) q (t.put a n .dir ha (by simpa using hn)) else t

def mkdirP (q : Path) (t : DirTree γ) : DirTree γ := mkdirFrom [] q t

/-- `cp` of a file that is called `base` to `a/n` -/
def cpInto (a : Path) (n base : String) (c : γ) (t : DirTree γ) : Option (DirTree γ) :=
  if t.isDir (a ++ [n]) then write (a ++ [n]) base c t else write a n c t

/-- what `gzip a/n` compresses: a regular file only, and in the place of an old archive only if told to (`force`) -/
def zips (t : DirTree γ) (a : Path) (n gz : String) (force : Bool) : Option γ :=
  match t.lookup (a ++ [n]), t.lookup (a ++ [gz]) with
  | some (.file c), none => some c
  | some (.file _), some .dir => none
  | some (.file c), some _ => if force then some c else none
  | _, _ => none

/-- the archive is made, then the file is removed -/
def gzip (a : Path) (n gz : String) (f : γ → γ) (force : Bool) (t : DirTree γ) : Option (DirTree γ) :=
  (t.zips a n gz force).bind fun c =>
    if h : t.isDir a = true ∧ t.isDir (a ++ [gz]) = false then some ((t.put a gz (.file (f c)) h.1 h.2).rm a n) else none

/-- what a redirection leaves after `sed -i` has gone over the file -/
def renew (a : Path) (n : String) (c : γ) (t : DirTree γ) : DirTree γ :=
  if h : t.writable a n = true then t.put a n (.file c) (writable_dir h).1 (writable_dir h).2 else t

section Renew

variable {t : DirTree γ} {a : Path} {n : String} {c : γ}

theorem renew_pos (h : t.writable a n = true) :
    t.renew a n c = t.put a n (.file c) (writable_dir h).1 (writable_dir h).2 := dif_pos h

theorem renew_neg (h : ¬t.writable a n = true) : t.renew a n c = t := dif_neg h

theorem lookup_renew_ne {q : Path} (h : q ≠ a ++ [n]) : (t.renew a n c).lookup q = t.lookup q := by
  unfold renew
  split
  · exact lookup_put_ne h
  · rfl

theorem lookup_renew_self (h : t.writable a n = true) : (t.renew a n c).lookup (a ++ [n]) = some (.file c) := by
  rw [renew_pos h, lookup_put_self]

theorem isDir_renew_ne {q : Path} (h : q ≠ a ++ [n]) : (t.renew a n c).isDir q = t.isDir q := by
  unfold renew
  split
  · exact isDir_put_ne h
  · rfl

/-- what one can write at other places stays -/
theorem writable_renew_ne {m : String} (h : m ≠ n) : (t.renew a n c).writable a m = t.writable a m := by
  have h1 : a ++ [m] ≠ a ++ [n] := by simpa using h
  rw [writable, writable, isDir_renew_ne h1, isDir_renew_ne (by simp), lookup_renew_ne h1]

/-- a file that has been put somewhere can be written -/
theorem writable_put {x : Node γ} {ha : t.isDir a = true} {hn : t.isDir (a ++ [n]) = false} (hx : x ≠ .dir)
    (hl : x ≠ .link none) : (t.put a n x ha hn).writable a n = true := by
  have hd : (t.put a n x ha hn).isDir (a ++ [n]) = false := by
    rw [← Bool.not_eq_true, isDir_append, lookup_put_self]
    exact fun h => hx (Option.some.inj h)
  rw [writable, hd, isDir_put_ne (by simp), ha, lookup_put_self]
  split <;> simp_all

theorem edit_put {x : Node γ} {ha : t.isDir a = true} {hn : t.isDir (a ++ [n]) = false} (hx : x ≠ .dir)
    (hl : x ≠ .link none) (hr : (t.put a n x ha hn).read (a ++ [n]) = some c) (f : γ → γ) :
    (t.put a n x ha hn).edit a n f = some (t.put a n (.file (f c)) ha hn) := by
  rw [edit, dif_pos (writable_put hx hl), hr, Option.map_some]
  congr 1
  ext1
  exact AList.insert_insert _

theorem edit_renew (f : γ → γ) : ((t.renew a n c).edit a n f).getD (t.renew a n c) = t.renew a n (f c) := by
  by_cases h : t.writable a n = true
  · have hr : (t.put a n (.file c) (writable_dir h).1 (writable_dir h).2).read (a ++ [n]) = some c := by
      rw [read, lookup_put_self]
    rw [renew_pos h, renew_pos h, edit_put (by simp) (by simp) hr, Option.getD_some]
  · rw [renew_neg h, renew_neg h, edit, dif_neg h, Option.getD_none]

theorem edit_write (f : γ → γ) :
    (((t.write a n c).getD t).edit a n f).getD ((t.write a n c).getD t) = t.renew a n (f c) := by
  by_cases h : t.writable a n = true
  · have hr : (t.put a n (written (t.lookup (a ++ [n])) c) (writable_dir h).1 (writable_dir h).2).read (a ++ [n]) =
        some c := by
      rw [read, lookup_put_self]
      rcases written_cases (t.lookup (a ++ [n])) c with hw | hw <;> rw [hw]
    have hx : written (t.lookup (a ++ [n])) c ≠ .dir ∧ written (t.lookup (a ++ [n])) c ≠ .link none := by
      rcases written_cases (t.lookup (a ++ [n])) c with hw | hw <;> simp [hw]
    rw [write, dif_pos h, Option.getD_some, edit_put hx.1 hx.2 hr, Option.getD_some, renew_pos h]
  · rw [write, dif_neg h, Option.getD_none, edit, dif_neg h, Option.getD_none, renew_neg h]

end Renew

/-! ## What the tools change -/

/-- a regular file stands there, or can be made there -/
def plainAt (t : DirTree γ) (a : Path) (n : String) : Bool :=
  t.isDir a &&
    match t.lookup (a ++ [n]) with
    | none | some (.file _) => true
    | _ => false

section Changes

variable {t : DirTree γ} {a : Path} {n : String} {c : γ}

theorem isDir_of_plainAt (h : t.plainAt a n = true) : t.isDir a = true ∧ t.isDir (a ++ [n]) = false := by
  unfold plainAt at h
  rw [Bool.and_eq_true] at h
  refine ⟨h.1, ?_⟩
  rw [← Bool.not_eq_true, isDir_append]
  intro hd
  rw [hd] at h
  exact absurd h.2 (by simp)

theorem writable_of_plainAt (h : t.plainAt a n = true) : t.writable a n = true := by
  obtain ⟨h1, h2⟩ := isDir_of_plainAt h
  unfold plainAt at h
  unfold writable
  rw [h1, h2] at *
  revert h
  cases t.lookup (a ++ [n]) with
  | none => simp
  | some x => cases x <;> simp

theorem write_plain (h : t.plainAt a n = true) :
    t.write a n c = some (t.put a n (.file c) (isDir_of_plainAt h).1 (isDir_of_plainAt h).2) := by
  have hw : written (t.lookup (a ++ [n])) c = .file c := by
    unfold plainAt at h
    unfold written
    revert h
    cases t.lookup (a ++ [n]) with
    | none => simp
    | some x => cases x <;> simp
  rw [write, dif_pos (writable_of_plainAt h), hw]

/-- what can be read can be written -/
theorem read_of_not_writable (h : t.writable a n = false) : t.read (a ++ [n]) = none := by
  have hkind : ∀ x, t.lookup (a ++ [n]) = some x → x ≠ .dir → x = .link none := by
    intro x hx hd
    have hn : t.isDir (a ++ [n]) = false := by
      rw [← Bool.not_eq_true, isDir_append, hx]
      exact fun he => hd (Option.some.inj he)
    rw [writable, isDir_of_lookup hx, hn, hx] at h
    cases x with
    | file c => simp at h
    | dir => exact absurd rfl hd
    | link d => cases d <;> simp_all
  unfold read
  cases hl : t.lookup (a ++ [n]) with
  | none => rfl
  | some x =>
    cases x with
    | dir => rfl
    | file c => exact absurd (hkind _ hl (by simp)) (by simp)
    | link d =>
      have hd := hkind _ hl (by simp)
      simp_all

/-- elsewhere nothing is written, or through a link -/
theorem write_other (h : t.plainAt a n = false) : (t.write a n c).getD t = t ∨
    ∃ d ha hn, t.lookup (a ++ [n]) = some (.link d) ∧ (t.write a n c).getD t = t.put a n (.link (some c)) ha hn := by
  by_cases hw : t.writable a n = true
  · right
    obtain ⟨h1, h2⟩ := writable_dir hw
    unfold plainAt at h
    rw [h1, Bool.true_and] at h
    rw [write, dif_pos hw]
    cases hl : t.lookup (a ++ [n]) with
    | none => simp [hl] at h
    | some x =>
      cases x with
      | file c => simp [hl] at h
      | dir => exact absurd ((isDir_append _ _ _).2 hl) (by simp [h2])
      | link d => exact ⟨d, h1, h2, rfl, rfl⟩
  · left
    rw [write, dif_neg hw, Option.getD_none]

theorem plainAt_of_file {d : γ} (h : t.lookup (a ++ [n]) = some (.file d)) : t.plainAt a n = true := by
  rw [plainAt, isDir_of_lookup h, h]
  rfl

theorem lookup_write_other (h : t.plainAt a n = false) (d : γ) :
    ((t.write a n c).getD t).lookup (a ++ [n]) ≠ some (.file d) := by
  intro hd
  rcases write_other (c := c) h with hw | ⟨e, ha, hn, -, hw⟩
  · rw [hw] at hd
    rw [plainAt_of_file hd] at h
    exact Bool.noConfusion h
  · rw [hw, lookup_put_self] at hd
    exact absurd hd (by simp)

theorem lookup_write_ne {q : Path} (h : q ≠ a ++ [n]) : ((t.write a n c).getD t).lookup q = t.lookup q := by
  by_cases hw : t.writable a n = true
  · rw [write, dif_pos hw, Option.getD_some, lookup_put_ne h]
  · rw [write, dif_neg hw, Option.getD_none]

theorem zips_file {gz : String} {force : Bool} (h : t.zips a n gz force = some c) :
    t.lookup (a ++ [n]) = some (.file c) ∧ t.isDir (a ++ [gz]) = false := by
  rw [← Bool.not_eq_true, isDir_append]
  unfold zips at h
  cases h1 : t.lookup (a ++ [n]) with
  | none => simp [h1] at h
  | some x =>
    cases x with
    | dir | link _ => simp [h1] at h
    | file d =>
      cases h2 : t.lookup (a ++ [gz]) with
      | none => simpa [h1, h2] using h
      | some y => cases y <;> simp_all

theorem gzip_some {gz : String} {f : γ → γ} {force : Bool} (h : t.zips a n gz force = some c) :
    ∃ ha hg, t.gzip a n gz f force = some ((t.put a gz (.file (f c)) ha hg).rm a n) := by
  obtain ⟨h1, h2⟩ := zips_file h
  refine ⟨isDir_of_lookup h1, h2, ?_⟩
  rw [gzip, h, Option.bind_some, dif_pos ⟨isDir_of_lookup h1, h2⟩]

end Changes

/-! ## Directories -/

section Mkdir

variable {t : DirTree γ}

/-- where there is something already nothing is made -/
theorem mkdirFrom_found {a q : Path} {x : Node γ} (h : t.lookup (a ++ q) = some x) : mkdirFrom a q t = t := by
  induction q generalizing a with
  | nil => rfl
  | cons n q ih =>
    have ha : a ++ n :: q = (a ++ [n]) ++ q := by simp
    rw [mkdirFrom]
    split
    · exact ih (ha ▸ h)
    · rename_i hn
      cases q with
      | nil => rw [h]
      | cons m q => exact absurd (isDir_above (ha ▸ h) (by simp)) hn

/-- the same where something else than a directory stands in the way -/
theorem mkdirFrom_blocked {a q r : Path} {x : Node γ} (h : t.lookup (a ++ q) = some x) (hd : t.isDir (a ++ q) = false) :
    mkdirFrom a (q ++ r) t = t := by
  induction q generalizing a with
  | nil =>
    simp only [List.append_nil] at h hd
    cases r with
    | nil => rfl
    | cons m r =>
      have hm : t.isDir (a ++ [m]) = false := by
        rw [← Bool.not_eq_true, isDir_append]
        intro hl
        rw [isDir_of_lookup hl] at hd
        exact Bool.noConfusion hd
      rw [List.nil_append, mkdirFrom, dif_neg (by simp [hm]), dif_neg (by simp [hd])]
      split <;> rfl
  | cons n q ih =>
    have ha : a ++ n :: q = (a ++ [n]) ++ q := by simp
    rw [ha] at h hd
    rw [List.cons_append, mkdirFrom]
    split
    · exact ih h hd
    · rename_i hn
      cases q with
      | nil => rw [show t.lookup (a ++ [n]) = some x by simpa using h]
      | cons m q => exact absurd (isDir_above h (by simp)) hn

/-- only directories on the way are made -/
theorem lookup_mkdirFrom {a p q : Path} (h : ¬q <+: a ++ p) : (mkdirFrom a p t).lookup q = t.lookup q := by
  induction p generalizing a t with
  | nil => rfl
  | cons n p ih =>
    have h' : ¬q <+: (a ++ [n]) ++ p := by simpa using h
    rw [mkdirFrom]
    split
    · exact ih h'
    · split
      · rfl
      · split
        · rw [ih h']
          refine lookup_put_ne ?_
          rintro rfl
          exact h' (List.prefix_append _ _)
        · rfl

theorem isDir_mkdirFrom {a p : Path} (ha : t.isDir a = true)
    (h : ∀ r, r <+: p → r ≠ [] → t.lookup (a ++ r) = none ∨ t.isDir (a ++ r) = true) :
    (mkdirFrom a p t).isDir (a ++ p) = true := by
  induction p generalizing a t with
  | nil => simpa [mkdirFrom] using ha
  | cons n p ih =>
    have hp : a ++ n :: p = (a ++ [n]) ++ p := by simp
    have hr : ∀ r, r <+: p → t.lookup (a ++ [n] ++ r) = none ∨ t.isDir (a ++ [n] ++ r) = true := by
      intro r hr
      simpa using h (n :: r) (List.cons_prefix_cons.2 ⟨rfl, hr⟩) (by simp)
    rw [mkdirFrom, hp]
    split
    · exact ih ‹_› fun r hrp _ => hr r hrp
    · rename_i hn
      have hnone : t.lookup (a ++ [n]) = none := by
        rcases hr [] List.nil_prefix with h0 | h0
        · simpa using h0
        · exact absurd (by simpa using h0) hn
      simp only [hnone]
      refine ih ((isDir_append _ _ _).2 lookup_put_self) ?_
      intro r hrp hne
      have hd : a ++ [n] ++ r ≠ a ++ [n] := by simpa using hne
      rw [lookup_put_ne hd, isDir_put_ne hd]
      exact hr r hrp

end Mkdir

/-! ## Listing and adding up -/

/-- `find -type f`: the regular files with their contents -/
def files (t : DirTree γ) : List (Path × γ) :=
  t.nodes.entries.filterMap fun e =>
    match e.2 with
    | .file c => some (e.1, c)
    | _ => none

/-- what a measure counts for the entries -/
def total (room : Node γ → ℕ) (t : DirTree γ) : ℕ := (t.nodes.entries.map fun e => room e.2).sum

theorem mem_files {t : DirTree γ} {q : Path} {c : γ} : (q, c) ∈ t.files ↔ t.lookup q = some (.file c) := by
  rw [lookup, ← Option.mem_def, AList.mem_lookup_iff, files, List.mem_filterMap]
  constructor
  · rintro ⟨⟨q', x⟩, he, hx⟩
    cases x with
    | file c' =>
      obtain ⟨rfl, rfl⟩ := Prod.mk.inj (Option.some.inj hx)
      exact he
    | dir | link _ => exact absurd hx (by simp)
  · intro he
    exact ⟨_, he, rfl⟩

/-- each file is listed once -/
theorem files_nodup (t : DirTree γ) : (t.files.map Prod.fst).Nodup := by
  refine List.Nodup.sublist ?_ t.nodes.keys_nodup
  rw [files, List.map_filterMap, AList.keys, List.keys]
  induction t.nodes.entries with
  | nil => simp
  | cons e l ih =>
    rcases e with ⟨q, x⟩
    cases x with
    | file c => simpa using ih
    | dir | link _ => simpa using ih.cons q

theorem filterMap_kerase {β : Type} (f : (Σ _ : Path, Node γ) → Option β) {q : Path} (hf : ∀ x, f ⟨q, x⟩ = none)
    (l : List (Σ _ : Path, Node γ)) : (l.kerase q).filterMap f = l.filterMap f := by
  induction l with
  | nil => rfl
  | cons e l ih =>
    by_cases he : q = e.1
    · subst he
      rw [List.kerase_cons_eq rfl, List.filterMap_cons_none (hf e.2)]
    · rw [List.kerase_cons_ne he, List.filterMap_cons, List.filterMap_cons, ih]

theorem sum_kerase (r : Node γ → ℕ) (q : Path) (l : List (Σ _ : Path, Node γ)) :
    ((l.kerase q).map fun e => r e.2).sum + (l.dlookup q).elim 0 r = (l.map fun e => r e.2).sum := by
  induction l with
  | nil => simp
  | cons e l ih =>
    rcases e with ⟨q', x⟩
    by_cases he : q = q'
    · subst he
      have hk : List.kerase q (⟨q, x⟩ :: l) = l := List.kerase_cons_eq rfl
      rw [hk, List.dlookup_cons_eq, List.map_cons, List.sum_cons]
      exact Nat.add_comm _ _
    · rw [List.kerase_cons_ne he, List.dlookup_cons_ne l ⟨q', x⟩ he, List.map_cons, List.map_cons, List.sum_cons,
        List.sum_cons, Nat.add_assoc, ih]

section Total

variable {t : DirTree γ} {a : Path} {n : String} {c : γ} (room : Node γ → ℕ)

/-- the entry that was there goes, the new one comes -/
theorem total_put {x : Node γ} {ha : t.isDir a = true} {hn : t.isDir (a ++ [n]) = false} :
    (t.put a n x ha hn).total room + (t.lookup (a ++ [n])).elim 0 room = t.total room + room x := by
  have h := sum_kerase room (a ++ [n]) t.nodes.entries
  rw [total, put, AList.entries_insert, List.map_cons, List.sum_cons, Nat.add_assoc, lookup, AList.lookup, h,
    Nat.add_comm, total]

theorem total_rm (hn : t.isDir (a ++ [n]) = false) :
    (t.rm a n).total room + (t.lookup (a ++ [n])).elim 0 room = t.total room := by
  rw [rm, dif_neg (by simp [hn])]
  exact sum_kerase room (a ++ [n]) t.nodes.entries

/-- a file that is not asked for does not change the list -/
theorem files_put {β : Type} (f : Path × γ → Option β) (hf : ∀ c, f (a ++ [n], c) = none) {x : Node γ}
    {ha : t.isDir a = true} {hn : t.isDir (a ++ [n]) = false} :
    (t.put a n x ha hn).files.filterMap f = t.files.filterMap f := by
  rw [files, files, List.filterMap_filterMap, List.filterMap_filterMap, put, AList.entries_insert]
  rw [List.filterMap_cons_none, filterMap_kerase]
  · intro y
    cases y with
    | file c => exact hf c
    | dir | link _ => rfl
  · cases x with
    | file c => exact hf c
    | dir | link _ => rfl

end Total

end DirTree

end AvaotaOS.FileTree
