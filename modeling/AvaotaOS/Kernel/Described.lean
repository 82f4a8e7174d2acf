/-
When the metadata describes the packages.

A package is described (`Described`) if `DEBIAN/md5sums` lists exactly the regular files outside `DEBIAN`, each once and
with the digest of its content, and the Installed-Size field is what `du` counts, both for the tree `dpkg-deb -b` packs.

The sums are taken before `gen_package_doc` writes the copyright and the changelog of the package, so they describe it only
if these were there already (`Stands`): `documented_sums` is the exact condition. `du` runs before the files of `DEBIAN`
are written, and the headers package has a constant size. `described_iff` puts the two together.
-/
import Mathlib.Tactic
import AvaotaOS.Kernel.Metadata

namespace AvaotaOS.Metadata

open Shell FileTree
open MkLinux (Pkg DebFile Cmd)

/-! ## What the metadata says -/

/-- the digest of the regular file at a place -/
def sumAt (x : Tools) (t : PkgTree) (q : Path) : Option Digest :=
  match t.lookup q with
  | some (.file c) => some (x.md5sum c)
  | _ => none

/-- the lines list exactly the regular files outside `DEBIAN`, each once, with their digests -/
structure Lists (x : Tools) (l : List (Digest × Path)) (t : PkgTree) : Prop where
  once : (l.map Prod.snd).Nodup
  exact : ∀ d q, (d, q) ∈ l ↔ outside q = true ∧ ∃ c, t.lookup q = some (.file c) ∧ x.md5sum c = d

/-- a field of a control file -/
def field (k : List Char) (l : Lines) : Option (List Char) :=
  (l.find? fun s => s.takeWhile (· ≠ ':') = k).map fun s => (s.dropWhile (· ≠ ':')).drop 2

structure Described (x : Tools) (t : PkgTree) : Prop where
  sums : ∃ l, t.lookup ["DEBIAN", "md5sums"] = some (.file (.sums l)) ∧ Lists x l t
  size : ∃ l, t.lookup ["DEBIAN", "control"] = some (.file (.text l)) ∧
    field "Installed-Size".toList l = some (Text.decimal (x.du t))

theorem sumAt_eq_some {x : Tools} {t : PkgTree} {q : Path} {d : Digest} :
    sumAt x t q = some d ↔ ∃ c, t.lookup q = some (.file c) ∧ x.md5sum c = d := by
  unfold sumAt
  split
  · simp_all
  · rename_i h
    constructor
    · intro hn
      exact absurd hn (by simp)
    · rintro ⟨c, hc, -⟩
      exact absurd hc (h c)

theorem sumLine_eq (x : Tools) (t : PkgTree) (q : Path) : sumLine x t q = (sumAt x t q).map fun d => (d, q) := by
  unfold sumLine sumAt
  cases t.lookup q with
  | none => rfl
  | some y => cases y <;> rfl

/-- two trees have the same list iff they have the same digests -/
theorem lists_iff {x : Tools} {l : List (Digest × Path)} {t u : PkgTree} (h : Lists x l t) :
    Lists x l u ↔ ∀ q, outside q = true → sumAt x u q = sumAt x t q := by
  constructor
  · intro hu q hq
    apply Option.ext
    intro d
    rw [sumAt_eq_some, sumAt_eq_some]
    have ht := h.exact d q
    have hu := hu.exact d q
    simp only [hq, true_and] at ht hu
    rw [← ht, hu]
  · intro hs
    refine ⟨h.once, ?_⟩
    intro d q
    rw [h.exact d q, ← sumAt_eq_some, ← sumAt_eq_some]
    constructor
    · rintro ⟨hq, ht⟩
      exact ⟨hq, (hs q hq).trans ht⟩
    · rintro ⟨hq, hu⟩
      exact ⟨hq, (hs q hq).symm.trans hu⟩

/-- **What `gen_md5` lists is right for the tree it looks at** -/
theorem lists_sumLines (b : Build) (t : PkgTree) : Lists b.tools (b.sumLines t) t := by
  have hline : ∀ d q r, sumLine b.tools t r = some (d, q) ↔ r = q ∧ sumAt b.tools t q = some d := by
    intro d q r
    rw [sumLine_eq, Option.map_eq_some_iff]
    constructor
    · rintro ⟨d', hd, he⟩
      obtain ⟨rfl, rfl⟩ := Prod.mk.inj he
      exact ⟨rfl, hd⟩
    · rintro ⟨rfl, hd⟩
      exact ⟨d, hd, rfl⟩
  refine ⟨?_, ?_⟩
  · have hsub : ∀ l : List Path, ((l.filterMap (sumLine b.tools t)).map Prod.snd).Sublist l := by
      intro l
      induction l with
      | nil => simp
      | cons r l ih =>
        cases hr : sumLine b.tools t r with
        | none =>
          rw [List.filterMap_cons_none hr]
          exact ih.cons r
        | some e =>
          rw [List.filterMap_cons_some hr, List.map_cons, ((hline e.1 e.2 r).1 hr).1]
          exact ih.cons_cons e.2
    exact (t.files_nodup.filter _).sublist (hsub _)
  · intro d q
    rw [Build.sumLines, List.mem_filterMap, ← sumAt_eq_some]
    constructor
    · rintro ⟨r, hr, hl⟩
      obtain ⟨rfl, hs⟩ := (hline d q r).1 hl
      exact ⟨(List.mem_filter.1 hr).2, hs⟩
    · rintro ⟨hq, hs⟩
      obtain ⟨c, hc, -⟩ := sumAt_eq_some.1 hs
      refine ⟨q, List.mem_filter.2 ⟨List.mem_map.2 ⟨(q, c), DirTree.mem_files.2 hc, rfl⟩, hq⟩, ?_⟩
      exact (hline d q q).2 ⟨rfl, hs⟩

/-! ## What `gen_package_doc` changes -/

/-- what `du` counts for the entry at a place -/
def roomAt (x : Tools) (t : PkgTree) (q : Path) : ℕ := (t.lookup q).elim 0 x.room

section Write

variable {x : Tools} {t : PkgTree} {a : Path} {n : String} {c : Content}

theorem sumAt_put_file {ha : t.isDir a = true} {hn : t.isDir (a ++ [n]) = false} (q : Path) :
    sumAt x (t.put a n (.file c) ha hn) q = if q = a ++ [n] then some (x.md5sum c) else sumAt x t q := by
  unfold sumAt
  by_cases hq : q = a ++ [n]
  · rw [if_pos hq, hq, DirTree.lookup_put_self]
  · rw [if_neg hq, DirTree.lookup_put_ne hq]

/-- a file that is written counts where no link or directory stands -/
theorem sumAt_write (q : Path) : sumAt x ((t.write a n c).getD t) q =
    if q = a ++ [n] ∧ t.plainAt a n = true then some (x.md5sum c) else sumAt x t q := by
  cases hp : t.plainAt a n with
  | true => simp only [DirTree.write_plain hp, Option.getD_some, sumAt_put_file, and_true]
  | false =>
    simp only [Bool.false_eq_true, and_false, if_false]
    rcases DirTree.write_other (c := c) hp with h | ⟨d, ha, hn, hl, h⟩
    · rw [h]
    · rw [h]
      unfold sumAt
      by_cases hq : q = a ++ [n]
      · rw [hq, DirTree.lookup_put_self, hl]
      · rw [DirTree.lookup_put_ne hq]

theorem isDir_write (q : Path) : ((t.write a n c).getD t).isDir q = t.isDir q := by
  have hput : ∀ y ha hn, y ≠ Node.dir → (t.put a n y ha hn).isDir q = t.isDir q := by
    intro y ha hn hy
    by_cases hq : q = a ++ [n]
    · rw [hq, hn, ← Bool.not_eq_true, DirTree.isDir_append, DirTree.lookup_put_self]
      exact fun h => hy (Option.some.inj h)
    · exact DirTree.isDir_put_ne hq
  cases hp : t.plainAt a n with
  | true =>
    rw [DirTree.write_plain hp, Option.getD_some]
    exact hput _ _ _ (by simp)
  | false =>
    rcases DirTree.write_other (c := c) hp with h | ⟨d, ha, hn, -, h⟩
    · rw [h]
    · rw [h]
      exact hput _ _ _ (by simp)

/-- what `du` counts: a link takes the same room wherever it leads -/
theorem total_write : ((t.write a n c).getD t).total x.room + (if t.plainAt a n then roomAt x t (a ++ [n]) else 0) =
    t.total x.room + if t.plainAt a n then x.file c else 0 := by
  cases hp : t.plainAt a n with
  | true =>
    simp only [DirTree.write_plain hp, Option.getD_some, if_true]
    exact DirTree.total_put x.room
  | false =>
    simp only [Bool.false_eq_true, if_false, Nat.add_zero]
    rcases DirTree.write_other (c := c) hp with h | ⟨d, ha, hn, hl, h⟩
    · rw [h]
    · have hput : (t.put a n (.link (some c)) ha hn).total x.room + _ = _ := DirTree.total_put x.room
      rw [hl] at hput
      rw [h]
      exact Nat.add_right_cancel hput

end Write

namespace Build

variable (b : Build) (p : Pkg)

/-- a copyright file with this digest is there, or none can be put there -/
def CopyrightStands (t : PkgTree) : Prop :=
  match t.lookup (b.docDir p ++ ["copyright"]) with
  | none => False
  | some (.file c) => b.tools.md5sum c = b.tools.md5sum (.text (copyright.map String.toList))
  | some _ => True

/-- `gzip` finds an old archive that it does not overwrite -/
def Refuses (t : PkgTree) : Prop :=
  match t.lookup (b.docDir p ++ ["changelog.gz"]) with
  | none => False
  | some .dir => True
  | some _ => b.overwrite p = false

/-- the changelog `src` changes no digest: it is there and stays, or is compressed over an archive with that digest -/
def ChangelogStands (src : Option Content) (t : PkgTree) : Prop :=
  match t.lookup (b.docDir p ++ ["changelog"]), src with
  | some (.file c), some s => b.tools.md5sum s = b.tools.md5sum c ∧ b.Refuses p t
  | some (.file _), none => b.Refuses p t
  | none, some s => b.overwrite p = true ∧ sumAt b.tools t (b.docDir p ++ ["changelog.gz"]) = some (b.tools.md5sum (b.tools.gzip p s))
  | _, _ => True

/-- the documentation changes no digest: what it writes was there before, or something stands in its way -/
def Stands (src : Option Content) (t : PkgTree) : Prop :=
  match t.lookup (b.docDir p) with
  | none => ∃ a r, docParent = a ++ r ∧ t.lookup a ≠ none ∧ t.isDir a = false
  | some (.file c) => ∀ s, src = some s → b.tools.md5sum s = b.tools.md5sum c
  | some .dir => b.CopyrightStands p t ∧ b.ChangelogStands p src t
  | some (.link _) => True

end Build

section Documented

variable {b : Build} {p : Pkg} {t : PkgTree}

theorem docDir_eq : b.docDir p = Build.docParent ++ [b.docName p] := rfl

theorem isDir_docDir : t.isDir (b.docDir p) = true ↔ t.lookup (b.docDir p) = some .dir := DirTree.isDir_append _ _ _

/-- where the directory cannot be entered only `cp` may write, in its place -/
theorem documented_closed (hm : t.mkdirP (b.docDir p) = t) (hd : t.isDir (b.docDir p) = false) :
    b.documented p t =
      ((t.read ["DEBIAN", "changelog"]).bind fun c => t.write Build.docParent (b.docName p) c).getD t := by
  have hcopy : b.copyrighted p t = t := by
    rw [Build.copyrighted, DirTree.write, dif_neg]
    · rfl
    · exact fun h => by simp [(DirTree.writable_dir h).1] at hd
  have hcp : b.copied p t =
      ((t.read ["DEBIAN", "changelog"]).bind fun c => t.write Build.docParent (b.docName p) c).getD t := by
    have hc : ∀ c, t.cpInto Build.docParent (b.docName p) "changelog" c = t.write Build.docParent (b.docName p) c := by
      intro c
      rw [DirTree.cpInto, ← docDir_eq, hd]
      rfl
    simp only [Build.copied, hc]
  have hdir : (b.copied p t).isDir (b.docDir p) = false := by
    rw [hcp]
    cases t.read ["DEBIAN", "changelog"] with
    | none => exact hd
    | some c => exact (isDir_write _).trans hd
  have hz : b.zipped p (b.copied p t) = b.copied p t := by
    rw [Build.zipped, DirTree.gzip]
    cases hz : (b.copied p t).zips (b.docDir p) "changelog" "changelog.gz" (b.overwrite p) with
    | none => rfl
    | some c => simp [hdir]
  rw [Build.documented, hm, hcopy, hz, hcp]

/-- in a directory the three steps work on entries of their own -/
theorem documented_open (hm : t.mkdirP (b.docDir p) = t) : b.documented p t = b.zipped p (b.copied p (b.copyrighted p t)) := by
  rw [Build.documented, hm]

theorem zips_refused {c : Content} (hl : t.lookup (b.docDir p ++ ["changelog"]) = some (.file c)) (hr : b.Refuses p t) :
    t.zips (b.docDir p) "changelog" "changelog.gz" (b.overwrite p) = none := by
  unfold Build.Refuses at hr
  unfold DirTree.zips
  rw [hl]
  cases hg : t.lookup (b.docDir p ++ ["changelog.gz"]) with
  | none => simp [hg] at hr
  | some y => cases y <;> simp_all

theorem zips_taken {c : Content} (hl : t.lookup (b.docDir p ++ ["changelog"]) = some (.file c)) (hr : ¬b.Refuses p t) :
    t.zips (b.docDir p) "changelog" "changelog.gz" (b.overwrite p) = some c := by
  unfold Build.Refuses at hr
  unfold DirTree.zips
  rw [hl]
  cases hg : t.lookup (b.docDir p ++ ["changelog.gz"]) with
  | none => rfl
  | some y => cases y <;> simp_all

theorem zips_no_file (hl : ∀ c, t.lookup (b.docDir p ++ ["changelog"]) ≠ some (.file c)) :
    t.zips (b.docDir p) "changelog" "changelog.gz" (b.overwrite p) = none := by
  unfold DirTree.zips
  split
  · exact absurd ‹_› (hl _)
  · exact absurd ‹_› (hl _)
  · exact absurd ‹_› (hl _)
  · rfl

theorem zipped_none (h : t.zips (b.docDir p) "changelog" "changelog.gz" (b.overwrite p) = none) : b.zipped p t = t := by
  rw [Build.zipped, DirTree.gzip, h]
  rfl

/-- the archive takes the place of the file -/
theorem sumAt_zipped {c : Content} (h : t.zips (b.docDir p) "changelog" "changelog.gz" (b.overwrite p) = some c) (q : Path) :
    sumAt b.tools (b.zipped p t) q =
      if q = b.docDir p ++ ["changelog"] then none
      else if q = b.docDir p ++ ["changelog.gz"] then some (b.tools.md5sum (b.tools.gzip p c)) else sumAt b.tools t q := by
  obtain ⟨ha, hg, hz⟩ := DirTree.gzip_some (f := b.tools.gzip p) h
  have hne : b.docDir p ++ ["changelog"] ≠ b.docDir p ++ ["changelog.gz"] := by simp
  have hd : (t.put (b.docDir p) "changelog.gz" (.file (b.tools.gzip p c)) ha hg).isDir (b.docDir p ++ ["changelog"]) =
      false := by
    rw [DirTree.isDir_put_ne hne, ← Bool.not_eq_true, DirTree.isDir_append, (DirTree.zips_file h).1]
    simp
  rw [Build.zipped, hz, Option.getD_some]
  by_cases hq : q = b.docDir p ++ ["changelog"]
  · rw [if_pos hq, hq, sumAt, DirTree.lookup_rm_self hd]
  · rw [if_neg hq, sumAt, DirTree.lookup_rm_ne hq, ← sumAt, sumAt_put_file]

/-- `cp` of the changelog into a directory -/
theorem copied_eq (hd : t.isDir (b.docDir p) = true) : b.copied p t =
    match t.read ["DEBIAN", "changelog"] with
    | none => t
    | some s => (t.write (b.docDir p) "changelog" s).getD t := by
  have hc : ∀ s, t.cpInto Build.docParent (b.docName p) "changelog" s = t.write (b.docDir p) "changelog" s := by
    intro s
    rw [DirTree.cpInto, ← docDir_eq, hd]
    rfl
  rw [Build.copied]
  cases t.read ["DEBIAN", "changelog"] with
  | none => rfl
  | some s => rw [Option.bind_some, hc]

theorem overwrites_of_sumAt {d : Digest} (h : sumAt b.tools t (b.docDir p ++ ["changelog.gz"]) = some d) :
    b.Refuses p t ↔ b.overwrite p = false := by
  obtain ⟨c, hc, -⟩ := sumAt_eq_some.1 h
  rw [Build.Refuses, hc]

/-- without a changelog only an old one can be compressed -/
theorem zipped_iff : (∀ q, sumAt b.tools (b.zipped p t) q = sumAt b.tools t q) ↔ b.ChangelogStands p none t := by
  unfold Build.ChangelogStands
  by_cases hf : ∃ c, t.lookup (b.docDir p ++ ["changelog"]) = some (.file c)
  · obtain ⟨c, hc⟩ := hf
    rw [hc]
    dsimp only
    constructor
    · intro h
      by_contra hr
      have hz := sumAt_zipped (zips_taken hc hr) (b.docDir p ++ ["changelog"])
      rw [if_pos rfl, h, sumAt, hc] at hz
      exact absurd hz (by simp)
    · intro hr q
      rw [zipped_none (zips_refused hc hr)]
  · push Not at hf
    rw [zipped_none (zips_no_file hf)]
    split <;> simp_all

/-- a changelog that is not written is not compressed -/
theorem changelog_barred {s : Content} (hp : t.plainAt (b.docDir p) "changelog" = false)
    (hf : ∀ c, t.lookup (b.docDir p ++ ["changelog"]) ≠ some (.file c)) :
    b.zipped p ((t.write (b.docDir p) "changelog" s).getD t) = (t.write (b.docDir p) "changelog" s).getD t := by
  have hl : ∀ c, ((t.write (b.docDir p) "changelog" s).getD t).lookup (b.docDir p ++ ["changelog"]) ≠ some (.file c) := by
    intro c
    rcases DirTree.write_other (c := s) hp with h | ⟨d, ha, hn, -, h⟩
    · rw [h]
      exact hf c
    · rw [h, DirTree.lookup_put_self]
      simp
  exact zipped_none (zips_no_file hl)

theorem refuses_write (s : Content) :
    b.Refuses p ((t.write (b.docDir p) "changelog" s).getD t) ↔ b.Refuses p t := by
  rw [Build.Refuses, DirTree.lookup_write_ne (by simp), Build.Refuses]

theorem lookup_changelog (hp : t.plainAt (b.docDir p) "changelog" = true) (s : Content) :
    ((t.write (b.docDir p) "changelog" s).getD t).lookup (b.docDir p ++ ["changelog"]) = some (.file s) := by
  rw [DirTree.write_plain hp, Option.getD_some, DirTree.lookup_put_self]

/-- no digest changes in the last two steps iff the changelog stands -/
theorem changelog_iff (hd : t.isDir (b.docDir p) = true) :
    (∀ q, sumAt b.tools (b.zipped p (b.copied p t)) q = sumAt b.tools t q) ↔
      b.ChangelogStands p (t.read ["DEBIAN", "changelog"]) t := by
  rw [copied_eq hd]
  cases t.read ["DEBIAN", "changelog"] with
  | none => exact zipped_iff
  | some s =>
    dsimp only
    obtain ⟨u, hu⟩ : ∃ u, u = (t.write (b.docDir p) "changelog" s).getD t := ⟨_, rfl⟩
    have href : b.Refuses p u ↔ b.Refuses p t := by rw [hu, refuses_write]
    have hsum : ∀ q, sumAt b.tools u q = if q = b.docDir p ++ ["changelog"] ∧ t.plainAt (b.docDir p) "changelog" = true
        then some (b.tools.md5sum s) else sumAt b.tools t q := by
      intro q
      rw [hu]
      exact sumAt_write q
    have hfile : t.plainAt (b.docDir p) "changelog" = true → u.lookup (b.docDir p ++ ["changelog"]) = some (.file s) := by
      intro hp
      rw [hu, lookup_changelog hp]
    rw [← hu]
    unfold Build.ChangelogStands
    cases hl : t.lookup (b.docDir p ++ ["changelog"]) with
    | none =>
      have hp : t.plainAt (b.docDir p) "changelog" = true := by rw [DirTree.plainAt, hd, hl]; rfl
      have hnone : sumAt b.tools t (b.docDir p ++ ["changelog"]) = none := by rw [sumAt, hl]
      simp only [hp, and_true] at hsum
      constructor
      · intro h
        by_cases hr : b.Refuses p u
        · -- the file stays, though there was none
          have hc := h (b.docDir p ++ ["changelog"])
          rw [zipped_none (zips_refused (hfile hp) hr), hsum, if_pos rfl, hnone] at hc
          exact absurd hc (by simp)
        · have hg := h (b.docDir p ++ ["changelog.gz"])
          rw [sumAt_zipped (zips_taken (hfile hp) hr), if_neg (by simp), if_pos rfl] at hg
          refine ⟨?_, hg.symm⟩
          rw [href, overwrites_of_sumAt hg.symm] at hr
          simpa using hr
      · rintro ⟨ho, hg⟩ q
        have hr : ¬b.Refuses p u := by
          rw [href, overwrites_of_sumAt hg, ho]
          simp
        rw [sumAt_zipped (zips_taken (hfile hp) hr), hsum]
        by_cases hq : q = b.docDir p ++ ["changelog"]
        · rw [if_pos hq, hq, hnone]
        · rw [if_neg hq, if_neg hq]
          split
          · rename_i hq'
            rw [hq', hg]
          · rfl
    | some y =>
      cases y with
      | file c =>
        have hp : t.plainAt (b.docDir p) "changelog" = true := by rw [DirTree.plainAt, hd, hl]; rfl
        have hold : sumAt b.tools t (b.docDir p ++ ["changelog"]) = some (b.tools.md5sum c) := by rw [sumAt, hl]
        simp only [hp, and_true] at hsum
        constructor
        · intro h
          have hc := h (b.docDir p ++ ["changelog"])
          by_cases hr : b.Refuses p u
          · rw [zipped_none (zips_refused (hfile hp) hr), hsum, if_pos rfl, hold] at hc
            exact ⟨Option.some.inj hc, href.1 hr⟩
          · rw [sumAt_zipped (zips_taken (hfile hp) hr), if_pos rfl, hold] at hc
            exact absurd hc (by simp)
        · rintro ⟨hs, hr⟩ q
          rw [zipped_none (zips_refused (hfile hp) (href.2 hr)), hsum]
          split
          · rename_i hq
            rw [hq, hold, hs]
          · rfl
      | dir | link _ =>
        have hp : t.plainAt (b.docDir p) "changelog" = false := by rw [DirTree.plainAt, hd, hl]; rfl
        refine iff_of_true ?_ trivial
        intro q
        rw [hu, changelog_barred hp (by simp [hl]), sumAt_write, if_neg (by simp [hp])]

/-- the last two steps change two entries -/
theorem changelog_other (hd : t.isDir (b.docDir p) = true) {q : Path} (h1 : q ≠ b.docDir p ++ ["changelog"])
    (h2 : q ≠ b.docDir p ++ ["changelog.gz"]) : sumAt b.tools (b.zipped p (b.copied p t)) q = sumAt b.tools t q := by
  have hc : sumAt b.tools (b.copied p t) q = sumAt b.tools t q := by
    rw [copied_eq hd]
    cases t.read ["DEBIAN", "changelog"] with
    | none => rfl
    | some s => rw [sumAt_write, if_neg (by simp [h1])]
  cases hz : (b.copied p t).zips (b.docDir p) "changelog" "changelog.gz" (b.overwrite p) with
  | none => rw [zipped_none hz, hc]
  | some c => rw [sumAt_zipped hz, if_neg h1, if_neg h2, hc]

theorem copyright_iff (hd : t.isDir (b.docDir p) = true) :
    (∀ q, sumAt b.tools (b.copyrighted p t) q = sumAt b.tools t q) ↔ b.CopyrightStands p t := by
  have hsum : ∀ q, sumAt b.tools (b.copyrighted p t) q = _ := fun q => sumAt_write q
  simp only [hsum]
  unfold Build.CopyrightStands
  cases hl : t.lookup (b.docDir p ++ ["copyright"]) with
  | none =>
    have hp : t.plainAt (b.docDir p) "copyright" = true := by rw [DirTree.plainAt, hd, hl]; rfl
    refine iff_of_false ?_ id
    intro h
    have hc := h (b.docDir p ++ ["copyright"])
    rw [if_pos ⟨rfl, hp⟩, sumAt, hl] at hc
    exact absurd hc (by simp)
  | some y =>
    cases y with
    | file c =>
      have hp : t.plainAt (b.docDir p) "copyright" = true := by rw [DirTree.plainAt, hd, hl]; rfl
      have hold : sumAt b.tools t (b.docDir p ++ ["copyright"]) = some (b.tools.md5sum c) := by rw [sumAt, hl]
      constructor
      · intro h
        have hc := h (b.docDir p ++ ["copyright"])
        rw [if_pos ⟨rfl, hp⟩, hold] at hc
        exact (Option.some.inj hc).symm
      · intro h q
        split
        · rename_i hq
          rw [hq.1, hold, h]
        · rfl
    | dir | link _ =>
      have hp : t.plainAt (b.docDir p) "copyright" = false := by rw [DirTree.plainAt, hd, hl]; rfl
      refine iff_of_true ?_ trivial
      intro q
      rw [if_neg (by simp [hp])]

theorem lookup_copyrighted {q : Path} (hq : q ≠ b.docDir p ++ ["copyright"]) : (b.copyrighted p t).lookup q = t.lookup q :=
  DirTree.lookup_write_ne hq

theorem read_copyrighted : (b.copyrighted p t).read ["DEBIAN", "changelog"] = t.read ["DEBIAN", "changelog"] := by
  rw [DirTree.read, lookup_copyrighted (by simp [Build.docDir, Build.docParent]), DirTree.read]

theorem changelogStands_copyrighted :
    b.ChangelogStands p ((b.copyrighted p t).read ["DEBIAN", "changelog"]) (b.copyrighted p t) ↔
      b.ChangelogStands p (t.read ["DEBIAN", "changelog"]) t := by
  unfold Build.ChangelogStands Build.Refuses sumAt
  rw [read_copyrighted, lookup_copyrighted (by simp), lookup_copyrighted (by simp)]

/-- the stage in a directory that is there -/
theorem documented_dir_iff (hl : t.lookup (b.docDir p) = some .dir) :
    (∀ q, sumAt b.tools (b.documented p t) q = sumAt b.tools t q) ↔
      b.CopyrightStands p t ∧ b.ChangelogStands p (t.read ["DEBIAN", "changelog"]) t := by
  have hd : t.isDir (b.docDir p) = true := isDir_docDir.2 hl
  have hd1 : (b.copyrighted p t).isDir (b.docDir p) = true := (isDir_write _).trans hd
  rw [documented_open (DirTree.mkdirFrom_found hl), ← copyright_iff hd, ← changelogStands_copyrighted,
    ← changelog_iff hd1]
  constructor
  · intro h
    have h2 : ∀ q, sumAt b.tools (b.zipped p (b.copied p (b.copyrighted p t))) q = sumAt b.tools (b.copyrighted p t) q := by
      intro q
      by_cases hq : q = b.docDir p ++ ["copyright"]
      · exact changelog_other hd1 (by simp [hq]) (by simp [hq])
      · rw [h, sumAt, sumAt, lookup_copyrighted hq]
    exact ⟨fun q => (h2 q).symm.trans (h q), h2⟩
  · rintro ⟨h1, h2⟩ q
    exact (h2 q).trans (h1 q)

/-- a directory that has to be made gets a copyright file that was not there -/
theorem documented_made (hl : t.lookup (b.docDir p) = none)
    (hfree : ∀ a r, Build.docParent = a ++ r → t.lookup a = none ∨ t.isDir a = true) :
    sumAt b.tools (b.documented p t) (b.docDir p ++ ["copyright"]) ≠ sumAt b.tools t (b.docDir p ++ ["copyright"]) := by
  have hd : (t.mkdirP (b.docDir p)).isDir (b.docDir p) = true := by
    refine DirTree.isDir_mkdirFrom rfl ?_
    intro r hr _
    rw [Build.docDir, List.prefix_concat_iff] at hr
    rcases hr with rfl | ⟨s, hs⟩
    · exact Or.inl hl
    · exact hfree r s hs.symm
  have hnone : t.lookup (b.docDir p ++ ["copyright"]) = none := by
    by_contra hne
    obtain ⟨y, hy⟩ := Option.ne_none_iff_exists'.1 hne
    have hdir := isDir_docDir.1 (DirTree.isDir_of_lookup hy)
    rw [hl] at hdir
    exact absurd hdir (by simp)
  have hsame : (t.mkdirP (b.docDir p)).lookup (b.docDir p ++ ["copyright"]) = none := by
    rw [DirTree.mkdirP, DirTree.lookup_mkdirFrom, hnone]
    intro hp
    have := hp.length_le
    simp at this
  have hp : (t.mkdirP (b.docDir p)).plainAt (b.docDir p) "copyright" = true := by rw [DirTree.plainAt, hd, hsame]; rfl
  have hd1 : (b.copyrighted p (t.mkdirP (b.docDir p))).isDir (b.docDir p) = true := (isDir_write _).trans hd
  rw [Build.documented, changelog_other hd1 (by simp) (by simp), Build.copyrighted, sumAt_write, if_pos ⟨rfl, hp⟩, sumAt,
    hnone]
  simp

/-- the stage leaves `DEBIAN` alone -/
theorem lookup_documented {q : Path} (hq : q.head? = some "DEBIAN") : (b.documented p t).lookup q = t.lookup q := by
  have husr : ∀ r : Path, r ≠ [] → r <+: b.docDir p ∨ b.docDir p <+: r → q ≠ r := by
    rintro r hr h rfl
    have hh : q.head? = some "usr" := by
      rcases h with ⟨s, hs⟩ | ⟨s, hs⟩
      · cases q with
        | nil => exact absurd rfl hr
        | cons n q => exact congrArg _ (List.cons.inj hs).1
      · rw [← hs]
        rfl
    rw [hq] at hh
    exact absurd hh (by decide)
  have hdir : ∀ n, q ≠ b.docDir p ++ [n] := fun n => husr _ (by simp) (Or.inr (List.prefix_append _ _))
  have hself : q ≠ Build.docParent ++ [b.docName p] := husr _ (by simp) (Or.inl (List.prefix_rfl))
  have hmk : (t.mkdirP (b.docDir p)).lookup q = t.lookup q := by
    refine DirTree.lookup_mkdirFrom ?_
    intro hp
    exact husr q (by rintro rfl; exact absurd hq (by simp)) (Or.inl hp) rfl
  have hcp : ∀ u : PkgTree, (b.copied p u).lookup q = u.lookup q := by
    intro u
    rw [Build.copied]
    cases u.read ["DEBIAN", "changelog"] with
    | none => rfl
    | some s =>
      rw [Option.bind_some, DirTree.cpInto]
      split
      · exact DirTree.lookup_write_ne (hdir _)
      · exact DirTree.lookup_write_ne hself
  have hz : ∀ u : PkgTree, (b.zipped p u).lookup q = u.lookup q := by
    intro u
    cases h : u.zips (b.docDir p) "changelog" "changelog.gz" (b.overwrite p) with
    | none => rw [zipped_none h]
    | some c =>
      obtain ⟨ha, hg, hgz⟩ := DirTree.gzip_some (f := b.tools.gzip p) h
      rw [Build.zipped, hgz, Option.getD_some, DirTree.lookup_rm_ne (hdir _), DirTree.lookup_put_ne (hdir _)]
  rw [Build.documented, hz, hcp, Build.copyrighted, DirTree.lookup_write_ne (hdir _), hmk]

/-- below something that is no directory nothing is written -/
theorem blocked_spec {a r : Path} (har : Build.docParent = a ++ r) (ha : t.lookup a ≠ none) (hda : t.isDir a = false) :
    t.mkdirP (b.docDir p) = t ∧ t.plainAt Build.docParent (b.docName p) = false := by
  obtain ⟨y, hy⟩ := Option.ne_none_iff_exists'.1 ha
  constructor
  · have hdoc : b.docDir p = a ++ (r ++ [b.docName p]) := by rw [Build.docDir, har, List.append_assoc]
    rw [DirTree.mkdirP, hdoc]
    exact DirTree.mkdirFrom_blocked hy hda
  · have hpar : t.isDir Build.docParent = false := by
      rw [← Bool.not_eq_true]
      intro hpd
      cases r using List.reverseRecOn with
      | nil =>
        rw [List.append_nil] at har
        rw [← har, hpd] at hda
        exact absurd hda (by simp)
      | append_singleton r n =>
        rw [har, ← List.append_assoc, DirTree.isDir_append, List.append_assoc] at hpd
        rw [DirTree.isDir_above hpd (by simp)] at hda
        exact absurd hda (by simp)
    rw [DirTree.plainAt, hpar]
    rfl

/-- a place that is no directory and where no file can stand -/
theorem closed_spec {y : Node Content} (hl : t.lookup (b.docDir p) = some y) (hy : y ≠ .dir) :
    t.mkdirP (b.docDir p) = t ∧ t.isDir (b.docDir p) = false := by
  refine ⟨DirTree.mkdirFrom_found hl, ?_⟩
  rw [← Bool.not_eq_true, isDir_docDir, hl]
  exact fun h => hy (Option.some.inj h)

theorem plainAt_file {c : Content} (hl : t.lookup (b.docDir p) = some (.file c)) :
    t.plainAt Build.docParent (b.docName p) = true := by
  have hpar : t.isDir Build.docParent = true := DirTree.isDir_of_lookup hl
  rw [DirTree.plainAt, hpar, ← docDir_eq, hl]
  rfl

theorem plainAt_link {d : Option Content} (hl : t.lookup (b.docDir p) = some (.link d)) :
    t.plainAt Build.docParent (b.docName p) = false := by
  rw [DirTree.plainAt, ← docDir_eq, hl]
  simp

/-- **When the documentation changes no digest**: exactly if it stands before it is written -/
theorem documented_sums : (∀ q, sumAt b.tools (b.documented p t) q = sumAt b.tools t q) ↔
    b.Stands p (t.read ["DEBIAN", "changelog"]) t := by
  unfold Build.Stands
  cases hl : t.lookup (b.docDir p) with
  | none =>
    dsimp only
    have hd : t.isDir (b.docDir p) = false := by
      rw [← Bool.not_eq_true, isDir_docDir, hl]
      simp
    constructor
    · intro h
      by_contra hfree
      push Not at hfree
      refine documented_made hl ?_ (h _)
      intro a r har
      by_cases ha : t.lookup a = none
      · exact Or.inl ha
      · exact Or.inr (by simpa using hfree a r har ha)
    · rintro ⟨a, r, har, ha, hda⟩ q
      obtain ⟨hm, hp⟩ := blocked_spec har ha hda
      rw [documented_closed hm hd]
      cases t.read ["DEBIAN", "changelog"] with
      | none => rfl
      | some s => exact (sumAt_write q).trans (if_neg (by simp [hp]))
  | some y =>
    cases y with
    | dir => exact documented_dir_iff hl
    | link d =>
      obtain ⟨hm, hd⟩ := closed_spec hl (by simp)
      refine iff_of_true ?_ trivial
      intro q
      rw [documented_closed hm hd]
      cases t.read ["DEBIAN", "changelog"] with
      | none => rfl
      | some s => exact (sumAt_write q).trans (if_neg (by simp [plainAt_link hl]))
    | file c =>
      obtain ⟨hm, hd⟩ := closed_spec hl (by simp)
      have hold : sumAt b.tools t (b.docDir p) = some (b.tools.md5sum c) := by rw [sumAt, hl]
      rw [documented_closed hm hd]
      dsimp only
      cases t.read ["DEBIAN", "changelog"] with
      | none => exact iff_of_true (fun _ => rfl) (fun s hs => absurd hs (by simp))
      | some s =>
        have hsum : ∀ q, sumAt b.tools ((t.write Build.docParent (b.docName p) s).getD t) q = _ := fun q => sumAt_write q
        simp only [Option.bind_some, hsum, plainAt_file hl, and_true, ← docDir_eq]
        constructor
        · intro h s' hs
          have hc := h (b.docDir p)
          rw [if_pos rfl, hold] at hc
          rw [← Option.some.inj hs, Option.some.inj hc]
        · intro h q
          split
          · rename_i hq
            rw [hq, hold, h s rfl]
          · rfl

end Documented

/-! ## What `du` counts for the documentation -/

/-- what the entries at the places of some files take, and what the files take -/
def oldRoom (x : Tools) (t : PkgTree) (l : List (Path × Content)) : ℕ := (l.map fun f => roomAt x t f.1).sum

def newRoom (x : Tools) (l : List (Path × Content)) : ℕ := (l.map fun f => x.file f.2).sum

theorem oldRoom_congr {x : Tools} {t u : PkgTree} {l : List (Path × Content)} (h : ∀ f ∈ l, u.lookup f.1 = t.lookup f.1) :
    oldRoom x u l = oldRoom x t l := by
  rw [oldRoom, oldRoom]
  congr 1
  refine List.map_congr_left fun f hf => ?_
  rw [roomAt, h f hf, roomAt]

@[simp] theorem oldRoom_append (x : Tools) (t : PkgTree) (l m : List (Path × Content)) :
    oldRoom x t (l ++ m) = oldRoom x t l + oldRoom x t m := by
  simp [oldRoom]

@[simp] theorem newRoom_append (x : Tools) (l m : List (Path × Content)) :
    newRoom x (l ++ m) = newRoom x l + newRoom x m := by
  simp [newRoom]

@[simp] theorem oldRoom_cons (x : Tools) (t : PkgTree) (f : Path × Content) (l : List (Path × Content)) :
    oldRoom x t (f :: l) = roomAt x t f.1 + oldRoom x t l := rfl

@[simp] theorem newRoom_cons (x : Tools) (f : Path × Content) (l : List (Path × Content)) :
    newRoom x (f :: l) = x.file f.2 + newRoom x l := rfl

@[simp] theorem oldRoom_nil (x : Tools) (t : PkgTree) : oldRoom x t [] = 0 := rfl

@[simp] theorem newRoom_nil (x : Tools) : newRoom x [] = 0 := rfl

namespace Build

variable (b : Build) (p : Pkg)

def copyrightWrites (t : PkgTree) : List (Path × Content) :=
  match t.lookup (b.docDir p ++ ["copyright"]) with
  | some (.file _) => [(b.docDir p ++ ["copyright"], .text (copyright.map String.toList))]
  | _ => []

def changelogWrites (src : Option Content) (t : PkgTree) : List (Path × Content) :=
  match t.lookup (b.docDir p ++ ["changelog"]), src with
  | some (.file _), some s => [(b.docDir p ++ ["changelog"], s)]
  | none, some s => [(b.docDir p ++ ["changelog.gz"], b.tools.gzip p s)]
  | _, _ => []

/-- the files the stage writes anew where the documentation stands -/
def docWrites (src : Option Content) (t : PkgTree) : List (Path × Content) :=
  match t.lookup (b.docDir p), src with
  | some .dir, _ => b.copyrightWrites p t ++ b.changelogWrites p src t
  | some (.file _), some s => [(b.docDir p, s)]
  | _, _ => []

end Build

section DocTotal

variable {b : Build} {p : Pkg} {t : PkgTree}

theorem copyrighted_total (hd : t.isDir (b.docDir p) = true) (h : b.CopyrightStands p t) :
    (b.copyrighted p t).total b.tools.room + oldRoom b.tools t (b.copyrightWrites p t) =
      t.total b.tools.room + newRoom b.tools (b.copyrightWrites p t) := by
  have htot : (b.copyrighted p t).total b.tools.room + _ = _ := total_write (x := b.tools)
  unfold Build.CopyrightStands at h
  unfold Build.copyrightWrites
  cases hl : t.lookup (b.docDir p ++ ["copyright"]) with
  | none => simp [hl] at h
  | some y =>
    cases y with
    | file c =>
      have hp : t.plainAt (b.docDir p) "copyright" = true := by rw [DirTree.plainAt, hd, hl]; rfl
      simpa [hp] using htot
    | dir | link _ =>
      have hp : t.plainAt (b.docDir p) "copyright" = false := by rw [DirTree.plainAt, hd, hl]; rfl
      simpa [hp] using htot

/-- the archive in the place of an old one, and the file gone -/
theorem zipped_total {c : Content} (h : t.zips (b.docDir p) "changelog" "changelog.gz" (b.overwrite p) = some c) :
    (b.zipped p t).total b.tools.room + (roomAt b.tools t (b.docDir p ++ ["changelog.gz"]) + b.tools.file c) =
      t.total b.tools.room + b.tools.file (b.tools.gzip p c) := by
  obtain ⟨ha, hg, hz⟩ := DirTree.gzip_some (f := b.tools.gzip p) h
  have hne : b.docDir p ++ ["changelog"] ≠ b.docDir p ++ ["changelog.gz"] := by simp
  have hput : (t.put (b.docDir p) "changelog.gz" (.file (b.tools.gzip p c)) ha hg).total b.tools.room + _ = _ :=
    DirTree.total_put b.tools.room
  have hl := (DirTree.zips_file h).1
  have hd : (t.put (b.docDir p) "changelog.gz" (.file (b.tools.gzip p c)) ha hg).isDir (b.docDir p ++ ["changelog"]) =
      false := by
    rw [DirTree.isDir_put_ne hne, ← Bool.not_eq_true, DirTree.isDir_append, hl]
    simp
  have hrm := DirTree.total_rm b.tools.room hd
  rw [DirTree.lookup_put_ne hne, hl] at hrm
  rw [Build.zipped, hz, Option.getD_some, roomAt]
  calc _ = ((t.put (b.docDir p) "changelog.gz" (.file (b.tools.gzip p c)) ha hg).rm (b.docDir p) "changelog").total
          b.tools.room + b.tools.file c + (t.lookup (b.docDir p ++ ["changelog.gz"])).elim 0 b.tools.room := by omega
    _ = (t.put (b.docDir p) "changelog.gz" (.file (b.tools.gzip p c)) ha hg).total b.tools.room +
          (t.lookup (b.docDir p ++ ["changelog.gz"])).elim 0 b.tools.room := congrArg (· + _) hrm
    _ = _ := hput

theorem changelog_total (hd : t.isDir (b.docDir p) = true) (h : b.ChangelogStands p (t.read ["DEBIAN", "changelog"]) t) :
    (b.zipped p (b.copied p t)).total b.tools.room +
        oldRoom b.tools t (b.changelogWrites p (t.read ["DEBIAN", "changelog"]) t) =
      t.total b.tools.room + newRoom b.tools (b.changelogWrites p (t.read ["DEBIAN", "changelog"]) t) := by
  rw [copied_eq hd]
  cases hs : t.read ["DEBIAN", "changelog"] with
  | none =>
    rw [hs] at h
    have hz : b.zipped p t = t := by
      unfold Build.ChangelogStands at h
      by_cases hf : ∃ c, t.lookup (b.docDir p ++ ["changelog"]) = some (.file c)
      · obtain ⟨c, hc⟩ := hf
        rw [hc] at h
        exact zipped_none (zips_refused hc h)
      · push Not at hf
        exact zipped_none (zips_no_file hf)
    have hw : b.changelogWrites p none t = [] := by
      unfold Build.changelogWrites
      split <;> simp_all
    rw [hw]
    exact congrArg (·.total b.tools.room + 0) hz
  | some s =>
    rw [hs] at h
    dsimp only
    have htot : ((t.write (b.docDir p) "changelog" s).getD t).total b.tools.room + _ = _ := total_write (x := b.tools)
    unfold Build.ChangelogStands at h
    unfold Build.changelogWrites
    cases hl : t.lookup (b.docDir p ++ ["changelog"]) with
    | none =>
      rw [hl] at h
      have hp : t.plainAt (b.docDir p) "changelog" = true := by rw [DirTree.plainAt, hd, hl]; rfl
      have hr : ¬b.Refuses p ((t.write (b.docDir p) "changelog" s).getD t) := by
        rw [refuses_write, overwrites_of_sumAt h.2, h.1]
        simp
      have hz := zipped_total (zips_taken (lookup_changelog hp s) hr)
      rw [roomAt, DirTree.lookup_write_ne (by simp), ← roomAt] at hz
      have hnone : roomAt b.tools t (b.docDir p ++ ["changelog"]) = 0 := by rw [roomAt, hl]; rfl
      simp only [hp, if_true, hnone] at htot
      simp only [oldRoom_cons, oldRoom_nil, newRoom_cons, newRoom_nil]
      omega
    | some y =>
      cases y with
      | file c =>
        rw [hl] at h
        have hp : t.plainAt (b.docDir p) "changelog" = true := by rw [DirTree.plainAt, hd, hl]; rfl
        have hr : b.Refuses p ((t.write (b.docDir p) "changelog" s).getD t) := (refuses_write s).2 h.2
        rw [zipped_none (zips_refused (lookup_changelog hp s) hr)]
        simpa [hp] using htot
      | dir | link _ =>
        have hp : t.plainAt (b.docDir p) "changelog" = false := by rw [DirTree.plainAt, hd, hl]; rfl
        rw [changelog_barred hp (by simp [hl])]
        simpa [hp] using htot

/-- outside a directory the changelog at most takes the place of a file -/
theorem closed_total (hm : t.mkdirP (b.docDir p) = t) (hd : t.isDir (b.docDir p) = false)
    (hp : t.plainAt Build.docParent (b.docName p) = false) : (b.documented p t).total b.tools.room = t.total b.tools.room := by
  rw [documented_closed hm hd]
  cases t.read ["DEBIAN", "changelog"] with
  | none => rfl
  | some s =>
    have htot : ((t.write Build.docParent (b.docName p) s).getD t).total b.tools.room + _ = _ := total_write (x := b.tools)
    simpa [hp] using htot

/-- **What `du` counts after the stage**, where no digest changes: only the rewritten files may take other room -/
theorem documented_total (h : b.Stands p (t.read ["DEBIAN", "changelog"]) t) :
    (b.documented p t).total b.tools.room + oldRoom b.tools t (b.docWrites p (t.read ["DEBIAN", "changelog"]) t) =
      t.total b.tools.room + newRoom b.tools (b.docWrites p (t.read ["DEBIAN", "changelog"]) t) := by
  unfold Build.Stands at h
  unfold Build.docWrites
  cases hl : t.lookup (b.docDir p) with
  | none =>
    rw [hl] at h
    obtain ⟨a, r, har, ha, hda⟩ := h
    obtain ⟨hm, hp⟩ := blocked_spec har ha hda
    have hd : t.isDir (b.docDir p) = false := by
      rw [← Bool.not_eq_true, isDir_docDir, hl]
      simp
    exact closed_total hm hd hp
  | some y =>
    cases y with
    | link d =>
      obtain ⟨hm, hd⟩ := closed_spec hl (by simp)
      exact closed_total hm hd (plainAt_link hl)
    | file c =>
      obtain ⟨hm, hd⟩ := closed_spec hl (by simp)
      rw [documented_closed hm hd]
      cases t.read ["DEBIAN", "changelog"] with
      | none => rfl
      | some s =>
        have htot : ((t.write Build.docParent (b.docName p) s).getD t).total b.tools.room + _ = _ :=
          total_write (x := b.tools)
        simpa [plainAt_file hl, docDir_eq] using htot
    | dir =>
      rw [hl] at h
      have hd : t.isDir (b.docDir p) = true := isDir_docDir.2 hl
      have hd1 : (b.copyrighted p t).isDir (b.docDir p) = true := (isDir_write _).trans hd
      have hread := read_copyrighted (b := b) (p := p) (t := t)
      have hone := copyrighted_total hd h.1
      have htwo := changelog_total hd1 (changelogStands_copyrighted.2 h.2)
      have hsame : b.changelogWrites p (t.read ["DEBIAN", "changelog"]) (b.copyrighted p t) =
          b.changelogWrites p (t.read ["DEBIAN", "changelog"]) t := by
        unfold Build.changelogWrites
        rw [lookup_copyrighted (by simp)]
      have hold : oldRoom b.tools (b.copyrighted p t) (b.changelogWrites p (t.read ["DEBIAN", "changelog"]) t) =
          oldRoom b.tools t (b.changelogWrites p (t.read ["DEBIAN", "changelog"]) t) := by
        refine oldRoom_congr fun f hf => lookup_copyrighted ?_
        unfold Build.changelogWrites at hf
        split at hf <;> simp_all
      rw [hread, hsame, hold] at htwo
      rw [documented_open (DirTree.mkdirFrom_found hl)]
      dsimp only
      rw [oldRoom_append, newRoom_append]
      omega

end DocTotal

/-! ## The Installed-Size field -/

/-- a line of a generated file after the first `n` seds -/
def Build.line (b : Build) (p : Pkg) (f : DebFile) (ver size : List Char) : ℕ → List Char → List Char
  | 0, s => s
  | n + 1, s => Text.sed ((placeholders p f).getD n "").toList ((b.args p f ver size).getD n []) (b.line p f ver size n s)

theorem text_eq (b : Build) (p : Pkg) (f : DebFile) (ver size : List Char) (n : ℕ) :
    b.text p f ver size n = .text ((template p f).map fun s => b.line p f ver size n s.toList) := by
  induction n with
  | zero => rfl
  | succ n ih =>
    rw [Build.text, ih, Build.substitute, List.map_map]
    rfl

/-- the placeholder begins neither with the two characters nor with the second of them -/
def foreign (c d : Char) : List Char → Bool
  | x :: y :: _ => !((x == '.' || x == c) && (y == '.' || y == d)) && !(x == '.' || x == d)
  | _ => false

theorem sed_foreign {q r l : List Char} {c d : Char} (h : foreign c d q = true) :
    ∃ l', Text.sed q r (c :: d :: l) = c :: d :: l' := by
  match q, h with
  | x :: y :: q, h =>
    simp only [foreign, Bool.and_eq_true, Bool.not_eq_true'] at h
    have h1 : Text.dotMatch (x :: y :: q) (c :: d :: l) = false := by
      rw [Text.dotMatch, Text.dotMatch, ← Bool.and_assoc, h.1, Bool.false_and]
    have h2 : Text.dotMatch (x :: y :: q) (d :: l) = false := by
      rw [Text.dotMatch, h.2, Bool.false_and]
    exact ⟨_, by rw [Text.sed_cons h1, Text.sed_cons h2]⟩

theorem line_foreign {b : Build} {p : Pkg} {f : DebFile} {ver size l : List Char} {c d : Char} {n : ℕ}
    (h : ∀ i < n, foreign c d ((placeholders p f).getD i "").toList = true) :
    ∃ l', b.line p f ver size n (c :: d :: l) = c :: d :: l' := by
  induction n with
  | zero => exact ⟨l, rfl⟩
  | succ n ih =>
    obtain ⟨l', hl⟩ := ih fun i hi => h i (by omega)
    rw [Build.line, hl]
    exact sed_foreign (h n (by omega))

/-- the lines before the last one keep their beginning, which is not that of `Installed-Size` -/
theorem control_lines (p : Pkg) : ∀ s ∈ (controlTemplate p).dropLast,
    ∃ c d l, s.toList = c :: d :: l ∧ c ≠ 'I' ∧ ∀ i < 5, foreign c d ((placeholders p .control).getD i "").toList = true := by
  have hcheck : ((controlTemplate p).dropLast.all fun s =>
      match s.toList with
      | c :: d :: _ => c != 'I' && (List.range 5).all fun i => foreign c d ((placeholders p .control).getD i "").toList
      | _ => false) = true := by
    cases p <;> decide +kernel
  intro s hs
  have h := List.all_eq_true.1 hcheck s hs
  split at h
  · rename_i c d l hl
    rw [Bool.and_eq_true, List.all_eq_true] at h
    exact ⟨c, d, l, hl, by simpa using h.1, fun i hi => h.2 i (List.mem_range.2 hi)⟩
  · exact absurd h (by simp)

/-- what the template of the headers says, and the number of `du` for the others: `${6}`, whatever that word is -/
def Build.installedSize (b : Build) (p : Pkg) (ver size : List Char) : List Char :=
  match p with
  | .headers => "68130".toList
  | _ => (b.args p .control ver size).getD 4 []

/-- a line without the placeholders stays -/
theorem line_still {b : Build} {p : Pkg} {f : DebFile} {ver size l : List Char} {n : ℕ}
    (h : ∀ i < n, Text.pieces ((placeholders p f).getD i "").toList 0 l = [l]) : b.line p f ver size n l = l := by
  induction n with
  | zero => rfl
  | succ n ih => rw [Build.line, ih fun i hi => h i (by omega), Text.sed_none (h n (by omega))]

theorem last_line (b : Build) (p : Pkg) (ver size : List Char) :
    b.line p .control ver size 5 ((controlTemplate p).getLast?.getD "").toList =
      "Installed-Size: ".toList ++ b.installedSize p ver size := by
  have hsize : (p = .headers → False) → b.line p .control ver size 5 "Installed-Size: INS_SIZE".toList =
      "Installed-Size: ".toList ++ (b.args p .control ver size).getD 4 [] := by
    intro _
    have hp : Text.pieces ((placeholders p .control).getD 4 "").toList 0 "Installed-Size: INS_SIZE".toList =
        ["Installed-Size: ".toList, []] := by
      cases p <;> decide +kernel
    have hs : ∀ i < 4, Text.pieces ((placeholders p .control).getD i "").toList 0 "Installed-Size: INS_SIZE".toList =
        ["Installed-Size: INS_SIZE".toList] := by
      cases p <;> decide +kernel
    rw [Build.line, line_still hs, Text.sed_once hp, List.append_nil]
  cases p with
  | headers => exact line_still (by decide +kernel)
  | dtb | image | libcDev => exact hsize (by simp)

theorem find_last {l : Lines} {s k : List Char} (h : ∀ r ∈ l, r.takeWhile (· ≠ ':') ≠ k) (hs : s.takeWhile (· ≠ ':') = k) :
    field k (l ++ [s]) = some ((s.dropWhile (· ≠ ':')).drop 2) := by
  have hfound : [s].find? (fun r => r.takeWhile (· ≠ ':') = k) = some s := List.find?_cons_of_pos (decide_eq_true hs)
  rw [field, List.find?_append, List.find?_eq_none.2 (fun r hr => by simpa using h r hr), Option.none_or, hfound]
  rfl

/-- **The field of the control file** -/
theorem field_control (b : Build) (p : Pkg) (ver size : List Char) : ∃ l,
    b.text p .control ver size (placeholders p .control).length = .text l ∧
      field "Installed-Size".toList l = some (b.installedSize p ver size) := by
  have hlen : (placeholders p .control).length = 5 := by cases p <;> rfl
  have ht : template p .control = (controlTemplate p).dropLast ++ [(controlTemplate p).getLast?.getD ""] := by
    cases p <;> rfl
  refine ⟨_, text_eq b p .control ver size _, ?_⟩
  rw [hlen, ht, List.map_append, List.map_singleton, last_line, find_last]
  · rfl
  · intro r hr
    obtain ⟨s, hs, rfl⟩ := List.mem_map.1 hr
    obtain ⟨c, d, l, hl, hc, hf⟩ := control_lines p s hs
    obtain ⟨l', hl'⟩ := line_foreign hf
    rw [hl, hl']
    intro hk
    by_cases hcol : c = ':'
    · simp [hcol] at hk
    · rw [List.takeWhile_cons_of_pos (by simpa using hcol)] at hk
      exact hc (List.cons.inj hk).1
  · rfl

/-! ## The tree with its metadata -/

theorem fileName_inj {f g : DebFile} (h : fileName f = fileName g) : f = g := by
  cases f <;> cases g <;> first | rfl | exact absurd h (by decide)

theorem fileName_ne (f : DebFile) : fileName f ≠ "md5sums" := by
  cases f <;> decide

theorem debFiles_nodup (p : Pkg) : (debFiles p).Nodup := by
  cases p <;> decide

/-- the place of a generated file -/
def debPath (f : DebFile) : Path := ["DEBIAN"] ++ [fileName f]

section Generated

variable {b : Build} {p : Pkg} {ver size : List Char}

theorem lookup_made_ne {t : PkgTree} {f : DebFile} {q : Path} (h : q ≠ debPath f) :
    (b.made p ver size t f).lookup q = t.lookup q := DirTree.lookup_renew_ne h

theorem lookup_fold {fs : List DebFile} {t : PkgTree} {q : Path} (h : ∀ f ∈ fs, q ≠ debPath f) :
    (fs.foldl (b.made p ver size) t).lookup q = t.lookup q := by
  induction fs generalizing t with
  | nil => rfl
  | cons f fs ih => rw [List.foldl_cons, ih fun g hg => h g (by simp [hg]), lookup_made_ne (h f (by simp))]

/-- a generated file that can be written is there in the end -/
theorem lookup_fold_mem {fs : List DebFile} (hn : fs.Nodup) {t : PkgTree} {f : DebFile} (hf : f ∈ fs)
    (hw : t.writable ["DEBIAN"] (fileName f) = true) : (fs.foldl (b.made p ver size) t).lookup (debPath f) =
      some (.file (b.text p f ver size (placeholders p f).length)) := by
  induction fs generalizing t with
  | nil => exact absurd hf (by simp)
  | cons g fs ih =>
    rw [List.nodup_cons] at hn
    rw [List.foldl_cons]
    by_cases hg : f = g
    · subst hg
      rw [lookup_fold]
      · exact DirTree.lookup_renew_self hw
      · intro g hg he
        have hfg : fileName f = fileName g := by simpa [debPath] using he
        exact hn.1 (fileName_inj hfg ▸ hg)
    · refine ih hn.2 (by simpa [hg] using hf) ?_
      rw [Build.made, DirTree.writable_renew_ne fun h => hg (fileName_inj h), hw]

/-- where none can be written what was there stays -/
theorem lookup_fold_blocked {fs : List DebFile} {t : PkgTree} {f : DebFile}
    (hw : t.writable ["DEBIAN"] (fileName f) = false) :
    (fs.foldl (b.made p ver size) t).lookup (debPath f) = t.lookup (debPath f) := by
  induction fs generalizing t with
  | nil => rfl
  | cons g fs ih =>
    rw [List.foldl_cons]
    by_cases hg : f = g
    · subst hg
      rw [Build.made, DirTree.renew_neg (by simp [hw])]
      exact ih hw
    · have hne : fileName f ≠ fileName g := fun h => hg (fileName_inj h)
      rw [ih, lookup_made_ne (by simpa [debPath] using hne)]
      rw [Build.made, DirTree.writable_renew_ne hne, hw]

theorem total_renew (x : Tools) (t : PkgTree) (a : Path) (n : String) (c : Content) :
    (t.renew a n c).total x.room + (if t.writable a n then roomAt x t (a ++ [n]) else 0) =
      t.total x.room + if t.writable a n then x.file c else 0 := by
  cases hw : t.writable a n with
  | true =>
    simp only [DirTree.renew_pos hw, if_true]
    exact DirTree.total_put x.room
  | false =>
    rw [DirTree.renew_neg (by simp [hw])]
    simp only [Bool.false_eq_true, if_false]

/-- the generated files that can be written, with their places -/
def Build.generated (b : Build) (p : Pkg) (ver size : List Char) (t : PkgTree) (fs : List DebFile) : List (Path × Content) :=
  (fs.filter fun f => t.writable ["DEBIAN"] (fileName f)).map fun f =>
    (debPath f, b.text p f ver size (placeholders p f).length)

theorem generated_made {fs : List DebFile} {f : DebFile} (hf : f ∉ fs) (t : PkgTree) :
    b.generated p ver size (b.made p ver size t f) fs = b.generated p ver size t fs := by
  rw [Build.generated, Build.generated]
  congr 1
  refine List.filter_congr fun g hg => ?_
  rw [Build.made, DirTree.writable_renew_ne]
  exact fun h => hf (fileName_inj h ▸ hg)

theorem total_fold {fs : List DebFile} (hn : fs.Nodup) (t : PkgTree) :
    (fs.foldl (b.made p ver size) t).total b.tools.room + oldRoom b.tools t (b.generated p ver size t fs) =
      t.total b.tools.room + newRoom b.tools (b.generated p ver size t fs) := by
  induction fs generalizing t with
  | nil => rfl
  | cons f fs ih =>
    rw [List.nodup_cons] at hn
    have hrest := ih hn.2 (b.made p ver size t f)
    have hone := total_renew b.tools t ["DEBIAN"] (fileName f) (b.text p f ver size (placeholders p f).length)
    have hsame : oldRoom b.tools (b.made p ver size t f) (b.generated p ver size t fs) =
        oldRoom b.tools t (b.generated p ver size t fs) := by
      refine oldRoom_congr fun g hg => lookup_made_ne ?_
      obtain ⟨g, hg', rfl⟩ := List.mem_map.1 hg
      intro he
      have hfg : fileName g = fileName f := by simpa [debPath] using he
      exact hn.1 (fileName_inj hfg ▸ (List.mem_filter.1 hg').1)
    rw [generated_made hn.1, hsame] at hrest
    rw [← Build.made] at hone
    rw [List.foldl_cons]
    cases hw : t.writable ["DEBIAN"] (fileName f) with
    | true =>
      have hgen : b.generated p ver size t (f :: fs) =
          (debPath f, b.text p f ver size (placeholders p f).length) :: b.generated p ver size t fs := by
        simp only [Build.generated, List.filter_cons, hw, if_true, List.map_cons]
      simp only [hw, if_true] at hone
      rw [hgen, oldRoom_cons, newRoom_cons]
      dsimp only
      rw [show ["DEBIAN"] ++ [fileName f] = debPath f from rfl] at hone
      omega
    | false =>
      have hgen : b.generated p ver size t (f :: fs) = b.generated p ver size t fs := by
        simp only [Build.generated, List.filter_cons, hw, Bool.false_eq_true, if_false]
      simp only [hw, Bool.false_eq_true, if_false, Nat.add_zero] at hone
      rw [hgen, hrest, hone]

end Generated

/-! ## The exact condition -/

theorem sumLines_eq (b : Build) (t : PkgTree) : b.sumLines t =
    t.files.filterMap fun f => if outside f.1 then some (b.tools.md5sum f.2, f.1) else none := by
  rw [Build.sumLines, List.filterMap_filter, List.filterMap_map]
  refine List.filterMap_congr fun f hf => ?_
  have hl : t.lookup f.1 = some (.file f.2) := DirTree.mem_files.1 hf
  simp only [Function.comp_apply, sumLine, hl]

section Whole

variable {b : Build} {p : Pkg} {ver : List Char} {t : PkgTree}

theorem sumLines_made {size : List Char} (f : DebFile) : b.sumLines (b.made p ver size t f) = b.sumLines t := by
  rw [sumLines_eq, sumLines_eq, Build.made]
  cases hw : t.writable ["DEBIAN"] (fileName f) with
  | true =>
    rw [DirTree.renew_pos hw]
    exact DirTree.files_put _ fun _ => rfl
  | false => rw [DirTree.renew_neg (by simp [hw])]

theorem sumLines_fold {size : List Char} (fs : List DebFile) :
    b.sumLines (fs.foldl (b.made p ver size) t) = b.sumLines t := by
  induction fs generalizing t with
  | nil => rfl
  | cons f fs ih => rw [List.foldl_cons, ih, sumLines_made]

theorem debPath_inside {q : Path} (hq : q.head? ≠ some "DEBIAN") (f : DebFile) : q ≠ debPath f := by
  rintro rfl
  exact hq rfl

/-- nothing but `DEBIAN` is touched before the documentation -/
theorem lookup_described {q : Path} (hq : q.head? ≠ some "DEBIAN") :
    (b.described p ver t).lookup q = (debianDir t).lookup q := by
  rw [Build.described, Build.summed, DirTree.lookup_write_ne, Build.filled, lookup_fold fun f _ => debPath_inside hq f]
  rintro rfl
  exact hq rfl

theorem isDir_congr {u : PkgTree} {q : Path} (h : u.lookup q = t.lookup q) : u.isDir q = t.isDir q := by
  cases q using List.reverseRecOn with
  | nil => rfl
  | append_singleton a n => rw [Bool.eq_iff_iff, DirTree.isDir_append, DirTree.isDir_append, h]

theorem docDir_head (n : List String) : (b.docDir p ++ n).head? ≠ some "DEBIAN" := by
  simp [Build.docDir, Build.docParent]

theorem stands_congr {u : PkgTree} (h : ∀ q : Path, q.head? ≠ some "DEBIAN" → u.lookup q = t.lookup q)
    (src : Option Content) : b.Stands p src u ↔ b.Stands p src t := by
  have hblocked : (∃ a r, Build.docParent = a ++ r ∧ u.lookup a ≠ none ∧ u.isDir a = false) ↔
      ∃ a r, Build.docParent = a ++ r ∧ t.lookup a ≠ none ∧ t.isDir a = false := by
    refine exists_congr fun a => exists_congr fun r => and_congr_right fun har => ?_
    have ha : a.head? ≠ some "DEBIAN" := by
      cases a with
      | nil => simp
      | cons m a =>
        rw [← (List.cons.inj har).1]
        simp
    rw [h a ha, isDir_congr (h a ha)]
  have hdoc : u.lookup (b.docDir p) = t.lookup (b.docDir p) := h _ (by simpa using docDir_head (b := b) (p := p) [])
  unfold Build.Stands Build.CopyrightStands Build.ChangelogStands Build.Refuses sumAt
  rw [hblocked, hdoc, h _ (docDir_head _), h _ (docDir_head _), h _ (docDir_head _)]

theorem docWrites_congr {u : PkgTree} (h : ∀ q : Path, q.head? ≠ some "DEBIAN" → u.lookup q = t.lookup q)
    (src : Option Content) : b.docWrites p src u = b.docWrites p src t := by
  have hdoc : u.lookup (b.docDir p) = t.lookup (b.docDir p) := h _ (by simpa using docDir_head (b := b) (p := p) [])
  unfold Build.docWrites Build.copyrightWrites Build.changelogWrites
  rw [hdoc, h _ (docDir_head _), h _ (docDir_head _)]

theorem docWrites_head {src : Option Content} {f : Path × Content} (hf : f ∈ b.docWrites p src t) :
    f.1.head? ≠ some "DEBIAN" := by
  have hplace : ∃ n, f.1 = b.docDir p ++ n := by
    unfold Build.docWrites Build.copyrightWrites Build.changelogWrites at hf
    split at hf
    · rcases List.mem_append.1 hf with h | h
      · split at h
        · exact ⟨["copyright"], by rw [List.mem_singleton.1 h]⟩
        · simp at h
      · split at h
        · exact ⟨["changelog"], by rw [List.mem_singleton.1 h]⟩
        · exact ⟨["changelog.gz"], by rw [List.mem_singleton.1 h]⟩
        · simp at h
    · exact ⟨[], by rw [List.mem_singleton.1 hf, List.append_nil]⟩
    · simp at hf
  obtain ⟨n, hn⟩ := hplace
  rw [hn]
  exact docDir_head n

end Whole

namespace Build

variable (b : Build) (p : Pkg)

/-- the tree when `du` looks at it -/
def listed : PkgTree := debianDir (b.tree p)

def size : List Char := b.duLine p (b.listed p)

/-- the changelog `gen_package_doc` finds -/
def changelogOf : Option Content :=
  if (b.listed p).writable ["DEBIAN"] "changelog" then
    some (b.text p .changelog b.kernelVer (b.size p) (placeholders p .changelog).length)
  else none

/-- the files the stages write, where the documentation stands -/
def rewritten : List (Path × Content) :=
  b.generated p b.kernelVer (b.size p) (b.listed p) (debFiles p) ++
    ((["DEBIAN", "md5sums"], .sums (b.sumLines (b.listed p))) :: b.docWrites p (b.changelogOf p) (b.listed p))

/-- the condition on what the install stages have left -/
structure Holds : Prop where
  control : (b.listed p).writable ["DEBIAN"] "control" = true
  sums : (b.listed p).plainAt ["DEBIAN"] "md5sums" = true
  docs : b.Stands p (b.changelogOf p) (b.listed p)
  /-- what `du` has counted, with the difference the written files make, is what the control file says -/
  size : ∃ n, b.installedSize p b.kernelVer (b.size p) = Text.decimal n ∧
    n + oldRoom b.tools (b.listed p) (b.rewritten p) =
      b.tools.du (b.listed p) + newRoom b.tools (b.rewritten p)

end Build

section Final

variable {b : Build} {p : Pkg}

theorem filled_lookup {f : DebFile} (hf : f ∈ debFiles p) (hw : (b.listed p).writable ["DEBIAN"] (fileName f) = true) :
    (b.described p b.kernelVer (b.tree p)).lookup (debPath f) =
      some (.file (b.text p f b.kernelVer (b.size p) (placeholders p f).length)) := by
  rw [Build.described, Build.summed, DirTree.lookup_write_ne]
  · exact lookup_fold_mem (debFiles_nodup p) hf hw
  · have hne := fileName_ne f
    simpa [debPath] using hne

theorem md5sums_ne (f : DebFile) : (["DEBIAN"] ++ ["md5sums"] : Path) ≠ debPath f := by
  have hne := fileName_ne f
  simpa [debPath, eq_comm] using hne

theorem filled_blocked {f : DebFile} (hw : (b.listed p).writable ["DEBIAN"] (fileName f) = false) :
    (b.described p b.kernelVer (b.tree p)).lookup (debPath f) = (b.listed p).lookup (debPath f) := by
  rw [Build.described, Build.summed, DirTree.lookup_write_ne (md5sums_ne f).symm]
  exact lookup_fold_blocked hw

theorem plainAt_filled : (b.filled p b.kernelVer (b.tree p)).plainAt ["DEBIAN"] "md5sums" =
    (b.listed p).plainAt ["DEBIAN"] "md5sums" := by
  have hl : (b.filled p b.kernelVer (b.tree p)).lookup (["DEBIAN"] ++ ["md5sums"]) = (b.listed p).lookup _ :=
    lookup_fold fun f _ => md5sums_ne f
  have hd : (b.filled p b.kernelVer (b.tree p)).isDir ["DEBIAN"] = (b.listed p).isDir ["DEBIAN"] :=
    isDir_congr (lookup_fold fun f _ => by simp [debPath])
  rw [DirTree.plainAt, DirTree.plainAt, hl, hd]

/-- the changelog that is copied -/
theorem read_described :
    (b.described p b.kernelVer (b.tree p)).read ["DEBIAN", "changelog"] = b.changelogOf p := by
  unfold Build.changelogOf
  have hmem : DebFile.changelog ∈ debFiles p := by cases p <;> decide
  cases hw : (b.listed p).writable ["DEBIAN"] "changelog" with
  | true =>
    have hl := filled_lookup hmem hw
    rw [DirTree.read, show (["DEBIAN", "changelog"] : Path) = debPath .changelog from rfl, hl]
    rfl
  | false =>
    have hl := filled_blocked (f := .changelog) hw
    rw [DirTree.read, show (["DEBIAN", "changelog"] : Path) = debPath .changelog from rfl, hl]
    exact DirTree.read_of_not_writable hw

theorem final_lookup {q : Path} (hq : q.head? = some "DEBIAN") :
    (b.final p).lookup q = (b.described p b.kernelVer (b.tree p)).lookup q := lookup_documented hq

theorem final_stands : b.Stands p ((b.described p b.kernelVer (b.tree p)).read ["DEBIAN", "changelog"])
    (b.described p b.kernelVer (b.tree p)) ↔ b.Stands p (b.changelogOf p) (b.listed p) := by
  rw [read_described]
  exact stands_congr (fun q hq => lookup_described hq) _

/-- **What is packed is what was described, iff the documentation stands** -/
theorem final_sums : (∀ q, outside q = true →
    sumAt b.tools (b.final p) q = sumAt b.tools (b.filled p b.kernelVer (b.tree p)) q) ↔
      b.Stands p (b.changelogOf p) (b.listed p) := by
  have hout : ∀ q, outside q = true → sumAt b.tools (b.described p b.kernelVer (b.tree p)) q =
      sumAt b.tools (b.filled p b.kernelVer (b.tree p)) q := by
    intro q hq
    have hne : q ≠ ["DEBIAN"] ++ ["md5sums"] := by
      rintro rfl
      exact absurd hq (by decide)
    rw [sumAt, Build.described, Build.summed, DirTree.lookup_write_ne hne, sumAt]
  rw [← final_stands, ← documented_sums]
  constructor
  · intro h q
    by_cases hq : outside q = true
    · rw [hout q hq]
      exact h q hq
    · have hhead : q.head? = some "DEBIAN" := by
        simp only [outside, Bool.not_eq_true', Bool.not_eq_false, decide_eq_true_eq] at hq
        exact hq.1
      rw [sumAt, lookup_documented hhead, sumAt]
  · intro h q hq
    rw [← hout q hq]
    exact h q

/-- **What `du` counts for the packed tree** -/
theorem final_du (hs : (b.listed p).plainAt ["DEBIAN"] "md5sums" = true)
    (hd : b.Stands p (b.changelogOf p) (b.listed p)) :
    b.tools.du (b.final p) + oldRoom b.tools (b.listed p) (b.rewritten p) =
      b.tools.du (b.listed p) + newRoom b.tools (b.rewritten p) := by
  have hdoc := documented_total (final_stands.2 hd)
  have hgen : (b.filled p b.kernelVer (b.tree p)).total b.tools.room +
      oldRoom b.tools (b.listed p) (b.generated p b.kernelVer (b.size p) (b.listed p) (debFiles p)) =
        (b.listed p).total b.tools.room +
          newRoom b.tools (b.generated p b.kernelVer (b.size p) (b.listed p) (debFiles p)) :=
    total_fold (debFiles_nodup p) (b.listed p)
  have hsum : (b.described p b.kernelVer (b.tree p)).total b.tools.room + _ = _ := total_write (x := b.tools)
  have hlines : b.sumLines (b.filled p b.kernelVer (b.tree p)) = b.sumLines (b.listed p) := sumLines_fold _
  have hroom : roomAt b.tools (b.filled p b.kernelVer (b.tree p)) (["DEBIAN"] ++ ["md5sums"]) =
      roomAt b.tools (b.listed p) ["DEBIAN", "md5sums"] := by
    rw [roomAt, Build.filled, lookup_fold fun f _ => md5sums_ne f]
    rfl
  have hw : b.docWrites p (b.changelogOf p) (b.described p b.kernelVer (b.tree p)) =
      b.docWrites p (b.changelogOf p) (b.listed p) := docWrites_congr (fun q hq => lookup_described hq) _
  have hold : oldRoom b.tools (b.described p b.kernelVer (b.tree p)) (b.docWrites p (b.changelogOf p) (b.listed p)) =
      oldRoom b.tools (b.listed p) (b.docWrites p (b.changelogOf p) (b.listed p)) :=
    oldRoom_congr fun f hf => lookup_described (docWrites_head hf)
  simp only [plainAt_filled, hs, if_true, hlines, hroom] at hsum
  rw [read_described, hw, hold] at hdoc
  rw [Build.rewritten, oldRoom_append, newRoom_append, oldRoom_cons, newRoom_cons, Tools.du, Tools.du, Build.final]
  dsimp only
  omega

theorem control_mem (p : Pkg) : DebFile.control ∈ debFiles p := by
  cases p <;> decide

/-- a package is made iff its control file can be written -/
theorem deb_eq_final (h : (b.listed p).writable ["DEBIAN"] "control" = true) : b.deb p = some (b.final p) := by
  have hc : (b.final p).lookup ["DEBIAN", "control"] = some (.file _) :=
    (final_lookup rfl).trans (filled_lookup (control_mem p) h)
  rw [deb_eq, packed, hc]

theorem final_of_deb {t : PkgTree} (h : b.deb p = some t) :
    t = b.final p ∧ (b.listed p).writable ["DEBIAN"] "control" = true := by
  rw [deb_eq, packed] at h
  split at h
  · rename_i c hc
    refine ⟨(Option.some.inj h).symm, ?_⟩
    by_contra hw
    rw [Bool.not_eq_true] at hw
    have hread := DirTree.read_of_not_writable hw
    rw [final_lookup rfl, show (["DEBIAN", "control"] : Path) = debPath .control from rfl, filled_blocked hw] at hc
    rw [DirTree.read, show (["DEBIAN"] ++ ["control"] : Path) = debPath .control from rfl, hc] at hread
    exact absurd hread (by simp)
  · exact absurd h (by simp)

/-- the sums are a regular file exactly if one can be made there -/
theorem final_md5sums (hp : (b.listed p).plainAt ["DEBIAN"] "md5sums" = true) :
    (b.final p).lookup ["DEBIAN", "md5sums"] =
      some (.file (.sums (b.sumLines (b.filled p b.kernelVer (b.tree p))))) := by
  rw [← plainAt_filled] at hp
  rw [final_lookup rfl, Build.described, Build.summed, DirTree.write_plain hp, Option.getD_some]
  exact DirTree.lookup_put_self

theorem holds_of_described {t : PkgTree} (ht : b.deb p = some t) (hd : Described b.tools t) : b.Holds p := by
  obtain ⟨rfl, hcontrol⟩ := final_of_deb ht
  obtain ⟨s, hs, hlist⟩ := hd.sums
  have hplain : (b.listed p).plainAt ["DEBIAN"] "md5sums" = true := by
    by_contra hp
    rw [← plainAt_filled, Bool.not_eq_true] at hp
    rw [final_lookup rfl] at hs
    exact DirTree.lookup_write_other hp _ hs
  have hdocs : b.Stands p (b.changelogOf p) (b.listed p) := by
    have he : s = b.sumLines (b.filled p b.kernelVer (b.tree p)) := by
      have hsame := hs.symm.trans (final_md5sums hplain)
      simpa using hsame
    rw [he] at hlist
    exact final_sums.1 ((lists_iff (lists_sumLines b _)).1 hlist)
  refine ⟨hcontrol, hplain, hdocs, b.tools.du (b.final p), ?_, final_du hplain hdocs⟩
  obtain ⟨l, htext, hfield⟩ := field_control b p b.kernelVer (b.size p)
  obtain ⟨l', hl', hf'⟩ := hd.size
  rw [final_lookup rfl, show (["DEBIAN", "control"] : Path) = debPath .control from rfl,
    filled_lookup (control_mem p) hcontrol, htext] at hl'
  have he : l = l' := by simpa using hl'
  rw [← he, hfield] at hf'
  exact Option.some.inj hf'

theorem described_of_holds (h : b.Holds p) : Described b.tools (b.final p) := by
  obtain ⟨l, htext, hfield⟩ := field_control b p b.kernelVer (b.size p)
  obtain ⟨n, hn, htot⟩ := h.size
  have hdu := final_du h.sums h.docs
  refine ⟨⟨_, final_md5sums h.sums, (lists_iff (lists_sumLines b _)).2 (final_sums.2 h.docs)⟩, l, ?_, ?_⟩
  · rw [final_lookup rfl, ← htext]
    exact filled_lookup (control_mem p) h.control
  · rw [hfield, hn, show n = b.tools.du (b.final p) by omega]

/-- **When a package is described by its metadata** -/
theorem described_iff (b : Build) (p : Pkg) : (∃ t, b.deb p = some t ∧ Described b.tools t) ↔ b.Holds p := by
  constructor
  · rintro ⟨t, ht, hd⟩
    exact holds_of_described ht hd
  · intro h
    exact ⟨b.final p, deb_eq_final h.control, described_of_holds h⟩

/-- a build that leaves the place of the documentation free packs files that are not listed -/
theorem not_stands_of_free {src : Option Content} {t : PkgTree} (hl : t.lookup (b.docDir p) = none)
    (hfree : ∀ a ∈ Build.docParent.inits, t.lookup a = none ∨ t.isDir a = true) : ¬b.Stands p src t := by
  unfold Build.Stands
  rw [hl]
  rintro ⟨a, r, har, ha, hd⟩
  rcases hfree a ((List.mem_inits _ _).2 ⟨r, har.symm⟩) with h | h
  · exact ha h
  · rw [h] at hd
    exact Bool.noConfusion hd

/-- where every word of the call is one word the field says what `du` has counted -/
theorem installedSize_eq (hp : p ≠ .headers) {v n k : List Char} (hv : Text.words b.AVA_VERSION = [v])
    (hn : Text.words b.PKG_NAME = [n]) (hk : Text.words b.kernelVer = [k]) :
    b.installedSize p b.kernelVer (b.size p) = Text.decimal (b.tools.du (b.listed p)) := by
  have hdu : Text.words (b.size p) = Text.decimal (b.tools.du (b.listed p)) :: Text.words (b.path p) := by
    refine Text.words_cons (Text.decimal_ne_nil _) ?_ rfl _
    intro c hc
    have hdigit := Text.isDigit_decimal hc
    by_contra hb
    simp only [Text.isBlank, Bool.not_eq_false, Bool.or_eq_true, beq_iff_eq] at hb
    rcases hb with (rfl | rfl) | rfl <;> exact absurd hdigit (by decide)
  have harch : Text.words (ARCH b.sel.board) = ["arm64".toList] := by
    rw [ARCH]
    decide +kernel
  cases p with
  | headers => exact absurd rfl hp
  | dtb | image | libcDev => simp [Build.installedSize, Build.args, hv, hn, hk, hdu, harch]

end Final

/-! ## A build of the usual kind -/

def noFiles : PkgTree := ⟨∅, fun _ _ h => absurd h (AList.notMem_empty _)⟩

/-- one file of the kernel in each package -/
def a1Tree : Pkg → PkgTree
  | .dtb => (noFiles.mkdirP ["boot", "dtb-5.15.154"]).renew ["boot", "dtb-5.15.154"] "avaota-a1.dtb" (.bytes [0xd0])
  | .image => (noFiles.mkdirP ["lib", "modules", "5.15.154"]).renew ["lib", "modules", "5.15.154"] "modules.dep" (.bytes [])
  | .headers => (noFiles.mkdirP ["usr", "src", "linux"]).renew ["usr", "src", "linux"] "Makefile" (.bytes [1])
  | .libcDev => (noFiles.mkdirP ["usr", "include"]).renew ["usr", "include"] "errno.h" (.bytes [2])

def a1Build : Build where
  sel := ⟨.avaotaA1, "bsp", ⟨"sun55i_t527_bsp_defconfig", "none"⟩, Board.linuxConf_a1_bsp⟩
  AVA_VERSION := "0.3.0.4".toList
  workspace := "/build_dir".toList
  tools := ⟨fun _ => 0, fun _ c => c, fun _ => 4, 4, 0⟩
  tree := a1Tree
  overwrite := fun _ => false

/-- the dtb package is made, and its documentation is not in its sums -/
theorem dtb_undescribed : (a1Build.deb .dtb).isSome = true ∧
    ¬∀ p, ∃ t, a1Build.deb p = some t ∧ Described a1Build.tools t := by
  constructor
  · rw [deb_eq_final (by decide +kernel)]
    rfl
  · intro h
    obtain ⟨t, ht, hd⟩ := h .dtb
    exact not_stands_of_free (by decide +kernel) (by decide +kernel) (holds_of_described ht hd).docs

end AvaotaOS.Metadata
