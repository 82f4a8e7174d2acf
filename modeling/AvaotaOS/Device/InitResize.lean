/-
`target/services/init-resize/init-resize.sh` as a script over its commands, and the machine it acts on: the partition
table of the disk, the root file system, the service and the log.

What `findmnt`, `lsblk`, `parted`, `fdisk` and `resize2fs` answer is up to the environment. The shell variables hold the
text, or the words of it that the script goes on with: `PART_START` and `PART_END` come out of `sed` as words of digits,
one for each line that `grep` has found.

Of `parted -ms` the model uses: a line `BYT;`, a line for the device, and a line `num:startS:endS:...` for each partition.
Of `fdisk`: the dialogue with a primary partition and a start sector outside of every other partition creates the
partition from there to the end of the free segment; what it makes of any other input is left open (`garbled`).

Not modelled: `LAST_PART_NUM`, which nothing reads.
-/
import Mathlib.Tactic
import AvaotaOS.Core.Shell
import AvaotaOS.Core.Text

namespace AvaotaOS.InitResize

open Shell Text

/-! ## Partition tables -/

inductive Kind where
  | primary
  | extended
  | logical
deriving DecidableEq, Repr

/-- an entry, with its first and its last sector -/
structure Partition where
  num : ℕ
  start : ℕ
  stop : ℕ
  kind : Kind
deriving DecidableEq, Repr

structure Table where
  /-- the sectors of the disk -/
  size : ℕ
  /-- the last sector a partition can have -/
  last : ℕ
  parts : List Partition
deriving DecidableEq, Repr

/-- logical partitions lie in the extended one, all others lie side by side -/
def Partition.layer (p : Partition) : Bool := p.kind = .logical

namespace Table

variable (t : Table)

def entry (n : ℕ) : Option Partition := t.parts.find? (·.num = n)

/-- where the space that a partition lies in ends -/
def bound (p : Partition) : ℕ :=
  if p.layer then ((t.parts.find? (·.kind = .extended)).map (·.stop)).getD t.last else t.last

/-- the other partitions that begin after the start of `p` -/
def ahead (p : Partition) : List Partition :=
  t.parts.filter fun q => q.num ≠ p.num ∧ q.layer = p.layer ∧ p.start < q.start

/-- the end of the free segment that `p` starts in when its own entry is gone -/
def segEnd (p : Partition) : ℕ := (t.ahead p).foldr (fun q e => min (q.start - 1) e) (t.bound p)

/-- the sector is in no partition but entry `n`, which is a primary one -/
def free (n start : ℕ) : Bool :=
  (t.entry n).any (·.kind = .primary) && decide (start ≤ t.last) &&
    t.parts.all fun q => q.num = n || q.layer || q.stop < start || start < q.start

/-- delete entry `n` and create it from `start` to the end of the free segment -/
def recreate (n start : ℕ) : Table :=
  { t with parts := t.parts.map fun p =>
      if p.num = n then { p with start := start, stop := t.segEnd { p with start := start } } else p }

/-- the partition ends at the end of the space available to it -/
def atEnd (n : ℕ) : Bool := (t.entry n).any fun p => p.stop = t.segEnd p

/-- the numbers differ, every partition is inside the disk, those of one layer are apart, and the logical ones are in the
extended one -/
structure Valid : Prop where
  nodup : (t.parts.map (·.num)).Nodup
  last_lt : t.last < t.size
  inside : ∀ p ∈ t.parts, p.start ≤ p.stop ∧ p.stop ≤ t.bound p
  bound_le : ∀ p ∈ t.parts, t.bound p ≤ t.last
  apart : ∀ p ∈ t.parts, ∀ q ∈ t.parts, p.num ≠ q.num → p.layer = q.layer → p.stop < q.start ∨ q.stop < p.start
  nested : ∀ p ∈ t.parts, p.layer = true → ∃ x ∈ t.parts, x.kind = .extended ∧ x.start ≤ p.start ∧ p.stop ≤ x.stop

end Table

/-! ## Machine and shell -/

inductive LogLine where
  /-- `Reseize ... finished.` -/
  | finished
  /-- `Already the largest! Do not need resize any more!` -/
  | largest
  /-- `Fail to root!` -/
  | failed
deriving DecidableEq, Repr

structure Machine where
  table : Table
  /-- the last sector of the root file system -/
  fsEnd : ℕ
  enabled : Bool
  log : List LogLine

/-- the device of the root file system: a disk, and the number of a partition on it -/
structure Root where
  stem : List Char
  pkname : List Char
  num : ℕ
  stem_last : ∀ c ∈ stem.getLast?, c.isDigit = false
  pkname_ne : pkname ≠ []
  pkname_colon : ':' ∉ pkname

def Root.path (d : Root) : List Char := d.stem ++ decimal d.num

def Root.dev (d : Root) : List Char := "/dev/".toList ++ d.pkname

structure Env where
  findmnt : Bool
  lsblk : Bool
  parted : Bool
  fdisk : Bool
  resize2fs : Bool
  /-- the rest of a line of `parted` -/
  info : Partition → List Char
  devInfo : List Char
  /-- what `fdisk` makes of a dialogue it has other questions in -/
  garbled : Table → Table

structure World where
  m : Machine
  ROOT_PART : List Char
  ROOT_DEV : List Char
  PART_NUM : List Char
  PART_INFO : List (List Char)
  PART_START : List ℕ
  PART_END : List ℕ
  ROOT_END : List ℤ

inductive Cmd where
  | findmnt
  | lsblk
  | partNum
  | parted
  | partStart
  | partEnd
  | rootEnd
  | decrement
  | fdisk
  | resize2fs
  | logFinished
  | logLargest
  | disable
  | logFailed
deriving DecidableEq, Repr

/-! ## What the commands do -/

def Partition.line (info : Partition → List Char) (p : Partition) : List Char :=
  decimal p.num ++ ':' :: ((decimal p.start ++ ['s']) ++ ':' :: ((decimal p.stop ++ ['s']) ++ ':' :: info p))

/-- `parted -ms unit s p` -/
def listing (d : Root) (e : Env) (t : Table) : List (List Char) :=
  "BYT;".toList :: (d.dev ++ ':' :: ((decimal t.size ++ ['s']) ++ ':' :: e.devInfo)) :: t.parts.map (·.line e.info)

/-- `grep "^p" | cut -f <k+1> -d: | sed 's/[^0-9]//g'`, as words -/
def scrape (k : ℕ) (p : List Char) (info : List (List Char)) : List ℕ :=
  (grepStart p info).filterMap fun l => number (digitsOf (cut k l))

/-- `p d <num> n p <num> <start> <default> p w` -/
def dialogue (e : Env) (num : List Char) (start : List ℕ) (t : Table) : Table :=
  match number num, start with
  | some n, [s] => if t.free n s then t.recreate n s else e.garbled t
  | _, _ => e.garbled t

def World.say (w : World) (l : LogLine) : World := { w with m := { w.m with log := w.m.log ++ [l] } }

def exec (d : Root) (e : Env) (c : Cmd) (w : World) : Stat × World :=
  match c with
  | .findmnt => if e.findmnt then (.ok, { w with ROOT_PART := d.path }) else (.fail, { w with ROOT_PART := [] })
  | .lsblk =>
    if e.lsblk ∧ w.ROOT_PART = d.path then (.ok, { w with ROOT_DEV := d.dev })
    else (.fail, { w with ROOT_DEV := "/dev/".toList })
  | .partNum => (.ok, { w with PART_NUM := trailingDigits w.ROOT_PART })
  | .parted =>
    if e.parted ∧ w.ROOT_DEV = d.dev then (.ok, { w with PART_INFO := listing d e w.m.table })
    else (.fail, { w with PART_INFO := [] })
  | .partStart => (.ok, { w with PART_START := scrape 1 w.PART_NUM w.PART_INFO })
  | .partEnd => (.ok, { w with PART_END := scrape 2 w.PART_NUM w.PART_INFO })
  | .rootEnd => (.ok, { w with ROOT_END := (scrape 1 "/dev".toList w.PART_INFO).map Int.ofNat })
  | .decrement =>
    -- an unset variable counts as 0, and `((0--))` has status 1
    match w.ROOT_END with
    | [] => (.fail, { w with ROOT_END := [-1] })
    | [x] => (if x = 0 then .fail else .ok, { w with ROOT_END := [x - 1] })
    | _ => (.fail, w)
  | .fdisk =>
    if e.fdisk then (.ok, { w with m := { w.m with table := dialogue e w.PART_NUM w.PART_START w.m.table } })
    else (.fail, w)
  | .resize2fs =>
    if e.resize2fs then
      (.ok, { w with m := { w.m with fsEnd := ((w.m.table.entry d.num).map (·.stop)).getD w.m.fsEnd } })
    else (.fail, w)
  | .logFinished => (.ok, w.say .finished)
  | .logLargest => (.ok, w.say .largest)
  | .logFailed => (.ok, w.say .failed)
  | .disable => (.ok, { w with m := { w.m with enabled := false } })

/-! ## The script -/

/-- `[ $PART_END -lt $ROOT_END ]`: any other number of words is an error of `[`, which is no success either -/
def smaller (w : World) : Bool :=
  match w.PART_END, w.ROOT_END with
  | [a], [b] => (a : ℤ) < b
  | _, _ => false

def inspect : List Cmd := [.findmnt, .lsblk, .partNum, .parted, .partStart, .partEnd, .rootEnd, .decrement]

def grow : List Cmd := [.fdisk, .resize2fs, .logFinished]

/-- the function ends with `return 0` -/
def resize_root : Sh Cmd World := seqs [block inspect, .cond smaller (block grow) (block [.logLargest]), .tt]

def script : Sh Cmd World := .seq (.errexit true) (.ite resize_root (.cmd .disable) (.cmd .logFailed))

/-- one run of the script -/
def init_resize (d : Root) (e : Env) (m : Machine) : St Cmd World :=
  run (exec d e) script ⟨m, [], [], [], [], [], [], []⟩

end AvaotaOS.InitResize
