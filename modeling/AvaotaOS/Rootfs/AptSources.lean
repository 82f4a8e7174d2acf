/-
The archive a rootfs is built from and the one its apt fetches from: `run_debootstrap` and `prepare_apt-list` of
`mkrootfs.sh`, and the default mirror of `input_box`.

Both are kept as text. `run_debootstrap` writes two one-line entries for mmdebstrap from `${MIRROR}`, `${VERSION}` and
`${LIST}`; `prepare_apt-list` takes a template from `os/${VERSION}/apt-list` and replaces its mirror with `sed`. They are
then read the way apt reads them.

- `ubuntu_agrees`: for the Ubuntu releases the two agree, for every mirror.
- `debian_no_component`: for the Debian releases `LIST` is not set, and the entries have no component.
- `agree_iff`: the two together.

Not modelled: the comments and the blank lines of the one-line templates, `SRC_LIST`, which nothing reads, and the packages.
-/
import Mathlib.Tactic
import AvaotaOS.Core.Text

namespace AvaotaOS.AptSources

open Text

/-! ## Releases and mirrors -/

inductive Release where
  | focal
  | jammy
  | noble
  | bullseye
  | bookworm
  | trixie
deriving DecidableEq, Repr

/-- `${VERSION}` -/
def Release.name : Release → List Char
  | focal => "focal".toList
  | jammy => "jammy".toList
  | noble => "noble".toList
  | bullseye => "bullseye".toList
  | bookworm => "bookworm".toList
  | trixie => "trixie".toList

def Release.ubuntu : Release → Bool
  | focal | jammy | noble => true
  | _ => false

def IsUrl (m : List Char) : Prop := "://".toList <:+: m

instance (m : List Char) : Decidable (IsUrl m) := inferInstanceAs (Decidable ("://".toList <:+: m))

/-- a mirror that can be given: a URL without the characters that `sed` or the shell would treat in a way of their own, and
without the word VERSION -/
structure Mirror where
  url : List Char
  isUrl : IsUrl url
  blankless : ∀ c ∈ url, isBlank c = false
  plain : '|' ∉ url ∧ '&' ∉ url ∧ '\\' ∉ url
  noVERSION : ¬ "VERSION".toList <:+: url

def ubuntuPorts : Mirror :=
  ⟨"https://ports.ubuntu.com/ubuntu-ports".toList, by decide, by decide, by decide, by decide⟩

def debianMirror : Mirror := ⟨"http://deb.debian.org/debian".toList, by decide, by decide, by decide, by decide⟩

/-- `MIRROR` after `input_box`: what was given, or the default of the release, which bullseye does not have -/
def input_box (v : Release) (given : Option Mirror) : List Char :=
  match given with
  | some m => m.url
  | none =>
    match v with
    | .focal | .jammy | .noble => ubuntuPorts.url
    | .bookworm | .trixie => debianMirror.url
    | .bullseye => "none".toList

/-! ## The entries for mmdebstrap -/

/-- `LIST` is set for the Ubuntu releases only -/
def LIST (v : Release) : List Char := if v.ubuntu then "main multiverse restricted universe".toList else []

/-- the suites the rootfs is built from -/
def suites (v : Release) : List (List Char) := [v.name, v.name ++ "-updates".toList]

/-- `"deb ${MIRROR} ${VERSION} ${LIST}"` and the same for the updates -/
def run_debootstrap (v : Release) (MIRROR : List Char) : List (List Char) :=
  (suites v).map fun suite => "deb".toList ++ ' ' :: (MIRROR ++ ' ' :: (suite ++ ' ' :: LIST v))

/-! ## The sources in the rootfs -/

def ubuntuList (name : List Char) : List (List Char) :=
  [(name, "main restricted".toList), (name ++ "-updates".toList, "main restricted".toList),
    (name, "universe".toList), (name ++ "-updates".toList, "universe".toList),
    (name, "multiverse".toList), (name ++ "-updates".toList, "multiverse".toList),
    (name ++ "-backports".toList, "main restricted universe multiverse".toList),
    (name ++ "-security".toList, "main restricted".toList), (name ++ "-security".toList, "universe".toList),
    (name ++ "-security".toList, "multiverse".toList)].map fun (suite, components) =>
      "deb http://ports.ubuntu.com/ubuntu-ports/ ".toList ++ suite ++ ' ' :: components

/-- the files under `os/${VERSION}/apt-list`, line by line -/
def template : Release → List (List Char)
  | .focal => ubuntuList "focal".toList
  | .jammy => ubuntuList "jammy".toList
  | .noble =>
    ["Types: deb".toList, "URIs: http://ports.ubuntu.com/ubuntu-ports/".toList,
      "Suites: noble noble-updates noble-security noble-backports".toList,
      "Components: main restricted universe multiverse".toList,
      "Signed-By: /usr/share/keyrings/ubuntu-archive-keyring.gpg".toList]
  | .bullseye =>
    ["deb http://deb.debian.org/debian bullseye main".toList,
      "deb http://deb.debian.org/debian-security bullseye-security main".toList,
      "deb http://deb.debian.org/debian bullseye-updates main".toList]
  | .bookworm | .trixie =>
    ["Types: deb".toList, "# http://snapshot.debian.org/archive/debian/20240513T000000Z".toList,
      "URIs: http://deb.debian.org/debian".toList, "Suites: VERSION VERSION-updates".toList, "Components: main".toList,
      "Signed-By: /usr/share/keyrings/debian-archive-keyring.gpg".toList, [],
      "Types: deb".toList, "# http://snapshot.debian.org/archive/debian-security/20240513T000000Z".toList,
      "URIs: http://deb.debian.org/debian-security".toList, "Suites: VERSION-security".toList, "Components: main".toList,
      "Signed-By: /usr/share/keyrings/debian-archive-keyring.gpg".toList]

/-- the pattern of the Ubuntu releases -/
def portsPattern : List Char := "http://ports.ubuntu.com/ubuntu-ports".toList

def prepare_apt_list (v : Release) (MIRROR : List Char) : List (List Char) :=
  match v with
  | .focal | .jammy | .noble => (template v).map (sed portsPattern MIRROR)
  | .bullseye => (template v).map (sed "http://deb.debian.org".toList MIRROR)
  | .bookworm | .trixie =>
    ((template v).map (sed "http://deb.debian.org/debian".toList MIRROR)).map (sed "VERSION".toList v.name)

/-! ## How apt reads them -/

structure Entry where
  url : List Char
  suite : List Char
  components : List (List Char)
deriving DecidableEq, Repr

/-- a line in the one-line format -/
def parseLine (l : List Char) : Option Entry :=
  match words l with
  | deb :: url :: suite :: components => if deb = "deb".toList then some ⟨url, suite, components⟩ else none
  | _ => none

/-- the stanzas of a file in the deb822 format: they are separated by empty lines -/
def stanzas : List (List Char) → List (List (List Char))
  | [] => [[]]
  | [] :: ls => [] :: stanzas ls
  | (c :: l) :: ls => (stanzas ls).modifyHead ((c :: l) :: ·)

def field (name : List Char) (stanza : List (List Char)) : List (List Char) :=
  (stanza.filter name.isPrefixOf).flatMap fun l => words (l.drop name.length)

def parseStanza (stanza : List (List Char)) : List Entry :=
  if "deb".toList ∈ field "Types:".toList stanza then
    (field "URIs:".toList stanza).flatMap fun url =>
      (field "Suites:".toList stanza).map fun suite => ⟨url, suite, field "Components:".toList stanza⟩
  else []

/-- the archives apt fetches from; the format goes with the name of the file -/
def aptReads (v : Release) (lines : List (List Char)) : List Entry :=
  match v with
  | .focal | .jammy | .bullseye => lines.filterMap parseLine
  | .noble | .bookworm | .trixie => (stanzas lines).flatMap parseStanza

/-! ## Agreement -/

/-- up to a trailing slash -/
def SameUrl (a b : List Char) : Prop := a = b ∨ a = b ++ ['/'] ∨ b = a ++ ['/']

/-- **The rootfs fetches from the mirror it was built from** -/
structure Agree (v : Release) (given : Option Mirror) : Prop where
  entry : ∀ l ∈ run_debootstrap v (input_box v given), ∃ e, parseLine l = some e ∧ e.suite ∈ suites v ∧ IsUrl e.url ∧
    e.components ≠ [] ∧ ∀ c ∈ e.components, ∃ t ∈ aptReads v (prepare_apt_list v (input_box v given)),
      SameUrl t.url e.url ∧ t.suite = e.suite ∧ c ∈ t.components
  security : v.ubuntu = false → ∃ t ∈ aptReads v (prepare_apt_list v (input_box v given)),
    t.url = input_box v given ++ "-security".toList ∧ t.suite = v.name ++ "-security".toList

/-! ## The entries -/

section Entries

variable {v : Release} {M : List Char}

theorem Mirror.ne_nil (m : Mirror) : m.url ≠ [] := by
  intro h
  have hu := m.isUrl
  rw [h] at hu
  exact absurd hu (by decide)

theorem parse_deb (hne : M ≠ []) (hM : ∀ c ∈ M, isBlank c = false) {r suite : List Char} {components : List (List Char)}
    (hr : words r = suite :: components) :
    parseLine ("deb".toList ++ ' ' :: (M ++ ' ' :: r)) = some ⟨M, suite, components⟩ := by
  have hdeb : ∀ c ∈ "deb".toList, isBlank c = false := by decide
  rw [parseLine, words_cons (by decide) hdeb rfl, words_cons hne hM rfl, hr]
  exact if_pos rfl

/-- the entries that mmdebstrap is given -/
theorem parse_entry (hne : M ≠ []) (hM : ∀ c ∈ M, isBlank c = false) {l : List Char} (hl : l ∈ run_debootstrap v M) :
    ∃ suite ∈ suites v, parseLine l = some ⟨M, suite, words (LIST v)⟩ := by
  obtain ⟨suite, hs, rfl⟩ := List.mem_map.1 hl
  refine ⟨suite, hs, parse_deb hne hM ?_⟩
  have hword : ∀ s ∈ suites v, s ≠ [] ∧ ∀ c ∈ s, isBlank c = false := by cases v <;> decide
  exact words_cons (hword suite hs).1 (hword suite hs).2 rfl _

/-- **Without `LIST` the entries have no component** -/
theorem debian_no_component (hv : v.ubuntu = false) (given : Option Mirror) : ¬ Agree v given := by
  intro h
  have hM : input_box v given ≠ [] ∧ ∀ c ∈ input_box v given, isBlank c = false := by
    cases given with
    | some m => exact ⟨m.ne_nil, m.blankless⟩
    | none => cases v <;> first | exact absurd hv (by decide) | exact ⟨by decide, by decide⟩
  obtain ⟨l, hl⟩ : ∃ l, l ∈ run_debootstrap v (input_box v given) := ⟨_, List.mem_cons_self⟩
  obtain ⟨suite, -, hp⟩ := parse_entry hM.1 hM.2 hl
  obtain ⟨e, he, -, -, hc, -⟩ := h.entry l hl
  obtain rfl := Option.some.inj (hp.symm.trans he)
  apply hc
  simp [LIST, hv]

end Entries

/-! ## The sources of the Ubuntu releases -/

section Ubuntu

variable {v : Release} (m : Mirror)

/-- the mirror with the slash of the template -/
def slashed : List Char := m.url ++ ['/']

theorem slashed_ne_nil : slashed m ≠ [] := by simp [slashed]

theorem slashed_blankless : ∀ c ∈ slashed m, isBlank c = false := by
  intro c hc
  rcases List.mem_append.1 hc with hc | hc
  · exact m.blankless c hc
  · obtain rfl := List.mem_singleton.1 hc
    rfl

/-- a line of the template, and what is behind the mirror -/
theorem line_read {t r suite : List Char} {components : List (List Char)}
    (ht : pieces portsPattern 0 t = ["deb ".toList, '/' :: ' ' :: r]) (hr : words r = suite :: components) :
    parseLine (sed portsPattern m.url t) = some ⟨slashed m, suite, components⟩ := by
  have hsed : sed portsPattern m.url t = "deb".toList ++ ' ' :: (slashed m ++ ' ' :: r) := by
    rw [sed_once ht]
    simp [slashed]
  rw [hsed]
  exact parse_deb (slashed_ne_nil m) (slashed_blankless m) hr

/-- what is behind the mirror in a line of the template -/
def behind (t : List Char) : List Char := t.drop "deb http://ports.ubuntu.com/ubuntu-ports/ ".toList.length

/-- **focal and jammy**: every suite and component of the bootstrap has its line -/
theorem list_covers (hv : v = .focal ∨ v = .jammy) :
    ∀ suite ∈ suites v, ∀ c ∈ words (LIST v), ∃ t ∈ template v,
      pieces portsPattern 0 t = ["deb ".toList, '/' :: ' ' :: behind t] ∧
        words (behind t) = suite :: (words (behind t)).tail ∧ c ∈ (words (behind t)).tail := by
  rcases hv with rfl | rfl <;> decide

/-- the stanza of noble with the mirror in its place -/
def nobleStanza : List (List Char) :=
  ["Types: deb".toList, "URIs: ".toList ++ slashed m, "Suites: noble noble-updates noble-security noble-backports".toList,
    "Components: main restricted universe multiverse".toList,
    "Signed-By: /usr/share/keyrings/ubuntu-archive-keyring.gpg".toList]

theorem noble_lines : prepare_apt_list .noble m.url = nobleStanza m := by
  have huris : pieces portsPattern 0 "URIs: http://ports.ubuntu.com/ubuntu-ports/".toList = ["URIs: ".toList, ['/']] := by
    decide
  simp only [prepare_apt_list, template, List.map_cons, List.map_nil]
  rw [sed_none (by decide), sed_once huris, sed_none (by decide), sed_none (by decide), sed_none (by decide)]
  rfl

theorem noble_uris : field "URIs:".toList (nobleStanza m) = [slashed m] := by
  have hfield : field "URIs:".toList (nobleStanza m) = words (' ' :: slashed m) ++ [] := rfl
  rw [hfield, List.append_nil, words_blank rfl, words_word (slashed_ne_nil m) (slashed_blankless m)]

/-- **noble**: its suites, with all the components -/
theorem noble_reads {suite : List Char} (hs : suite ∈ suites .noble) :
    ⟨slashed m, suite, words "main restricted universe multiverse".toList⟩ ∈
      aptReads .noble (prepare_apt_list .noble m.url) := by
  have hstanza : aptReads .noble (nobleStanza m) = parseStanza (nobleStanza m) ++ [] := rfl
  have htypes : field "Types:".toList (nobleStanza m) = ["deb".toList] := rfl
  have hcomponents : field "Components:".toList (nobleStanza m) = words "main restricted universe multiverse".toList := rfl
  have hsuites : suite ∈ field "Suites:".toList (nobleStanza m) := by
    have hlist : field "Suites:".toList (nobleStanza m) =
        ["noble".toList, "noble-updates".toList, "noble-security".toList, "noble-backports".toList] := rfl
    rw [hlist]
    revert suite
    decide
  rw [noble_lines, hstanza, List.append_nil, parseStanza, htypes, noble_uris, hcomponents, if_pos (by simp)]
  simpa using hsuites

/-- **The Ubuntu releases**, for every mirror -/
theorem ubuntu_covers (hv : v.ubuntu = true) {suite c : List Char} (hs : suite ∈ suites v) (hc : c ∈ words (LIST v)) :
    ∃ t ∈ aptReads v (prepare_apt_list v m.url), t.url = slashed m ∧ t.suite = suite ∧ c ∈ t.components := by
  have hlist : v = .focal ∨ v = .jammy →
      aptReads v (prepare_apt_list v m.url) = ((template v).map (sed portsPattern m.url)).filterMap parseLine := by
    rintro (rfl | rfl) <;> rfl
  have hone : v = .focal ∨ v = .jammy →
      ∃ t ∈ aptReads v (prepare_apt_list v m.url), t.url = slashed m ∧ t.suite = suite ∧ c ∈ t.components := by
    intro hv
    obtain ⟨t, ht, hp, hr, hc⟩ := list_covers hv suite hs c hc
    refine ⟨⟨slashed m, suite, (words (behind t)).tail⟩, ?_, rfl, rfl, hc⟩
    rw [hlist hv, List.mem_filterMap]
    exact ⟨_, List.mem_map_of_mem ht, line_read m hp hr⟩
  cases v with
  | focal => exact hone (Or.inl rfl)
  | jammy => exact hone (Or.inr rfl)
  | noble =>
    have hcomponents : ∀ c ∈ words (LIST .noble), c ∈ words "main restricted universe multiverse".toList := by decide
    exact ⟨_, noble_reads m hs, rfl, rfl, hcomponents c hc⟩
  | bullseye | bookworm | trixie => exact absurd hv (by decide)

/-- the default of an Ubuntu release is a mirror like another -/
theorem input_box_ubuntu (hv : v.ubuntu = true) (given : Option Mirror) : input_box v given = (given.getD ubuntuPorts).url := by
  cases given with
  | some m => rfl
  | none => cases v <;> first | rfl | exact absurd hv (by decide)

theorem ubuntu_agrees (hv : v.ubuntu = true) (given : Option Mirror) : Agree v given := by
  have hbox := input_box_ubuntu hv given
  generalize given.getD ubuntuPorts = m at hbox
  refine ⟨fun l hl => ?_, fun h => absurd (hv.symm.trans h) (by decide)⟩
  rw [hbox] at hl ⊢
  obtain ⟨suite, hs, hp⟩ := parse_entry m.ne_nil m.blankless hl
  refine ⟨_, hp, hs, m.isUrl, ?_, fun c hc => ?_⟩
  · have hlist : words (LIST v) ≠ [] := by
      clear hp hl hs hbox
      cases v <;> revert hv <;> decide
    exact hlist
  · obtain ⟨t, ht, hurl, hsuite, hct⟩ := ubuntu_covers m hv hs hc
    exact ⟨t, ht, Or.inr (Or.inl hurl), hsuite, hct⟩

end Ubuntu

/-- **A rootfs fetches from the mirror it was built from exactly where it is a rootfs of an Ubuntu release**, for every
mirror, given or not -/
theorem agree_iff (v : Release) (given : Option Mirror) : Agree v given ↔ v = .focal ∨ v = .jammy ∨ v = .noble := by
  have hv : v.ubuntu = true ↔ v = .focal ∨ v = .jammy ∨ v = .noble := by cases v <;> decide
  rw [← hv]
  constructor
  · intro h
    by_contra hno
    exact debian_no_component (by simpa using hno) given h
  · intro h
    exact ubuntu_agrees h given

/-- **bookworm with its default mirror**: the entry is `deb http://deb.debian.org/debian bookworm`, without a component -/
theorem bookworm_disagrees : ¬ Agree .bookworm none := by
  intro h
  obtain ⟨e, he, -, -, hc, -⟩ := h.entry _ List.mem_cons_self
  have hp : parseLine ("deb".toList ++ ' ' :: (debianMirror.url ++ ' ' :: ("bookworm".toList ++ ' ' :: LIST .bookworm))) =
      some ⟨debianMirror.url, "bookworm".toList, []⟩ := by decide
  obtain rfl := Option.some.inj (hp.symm.trans he)
  exact hc rfl

end AvaotaOS.AptSources
