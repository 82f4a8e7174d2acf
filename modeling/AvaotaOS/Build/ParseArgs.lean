/-
`parseargs` as the loop it is. `build_all.sh` and the five scripts under `scripts/` hold six copies, each with its own
options.

A round looks at `$1`: it returns 1 at a help option, shifts an empty word away, shifts an option and its value away, and
returns 2 at any other word. The call stands on the left of `||`, so no failing command ends it: at the end of the
arguments the second `shift` of a branch fails, the loop ends there, and its status is that of the failed `shift`.

- `ends_pairs`: what the rounds over options with values come to, whatever follows.
- `parseargs_spec`: every call returns, with 0 iff the arguments are empty words and options with values; each setting
  then holds its last value or its default.
- `parseargs_refines`: `Args.parseargs` is this loop where it returns 0.
-/
import Mathlib.Tactic
import AvaotaOS.Core.Rounds
import AvaotaOS.Build.Args

namespace AvaotaOS.ParseArgs

open Text ShellWords Rounds Args

/-! ## The loop -/

/-- the scripts with a copy -/
inductive Copy where
  | script (c : Script)
  | mkbootloader
deriving DecidableEq, Repr

namespace Copy

def opts : Copy → List Opt
  | script c => c.opts
  | mkbootloader => [opt "-b" "--board" .BOARD]

def default_param : Copy → Setting → Word
  | script c => c.default_param
  | mkbootloader => fun s => if s = .BOARD then "avaota-a1".toList else []

end Copy

/-- what the loop works on: the positional parameters, the settings, and the status of the last command -/
structure Vars where
  params : List Word
  set : Setting → Word
  status : ℕ

namespace Vars

/-- `$1`, `$2` -/
def arg (v : Vars) (k : ℕ) : Word := v.params.getD (k - 1) []

/-- with nothing left to shift it fails -/
def shift (v : Vars) : Vars :=
  match v.params with
  | [] => { v with status := 1 }
  | _ :: l => { v with params := l, status := 0 }

/-- ``BOARD=`echo $2` `` -/
def assign (h : Host) (i : Setting) (v : Vars) : Vars :=
  { v with set := Function.update v.set i (h.value (v.arg 2)), status := 0 }

end Vars

/-- the condition and the body of the loop; a loop that ends has the status of its last body -/
def round (h : Host) (opts : List Opt) (v : Vars) : Round Vars (ℕ × (Setting → Word)) :=
  if v.params.length = 0 then .leave (v.status, v.set)
  else if isHelp (v.arg 1) then .leave (1, v.set)
  else if v.arg 1 = [] then .next v.shift
  else
    match find opts (v.arg 1) with
    | some i => .next (v.assign h i).shift.shift
    | none => .leave (2, v.set)

structure Return where
  status : ℕ
  set : Setting → Word
  EXTRA_ARGS : Bool

/-- a call with these arguments, in `n` rounds at most. Only `build_all.sh` has `EXTRA_ARGS`. -/
def parseargs (h : Host) (c : Copy) (n : ℕ) (args : List Word) : Option Return :=
  if args.length = 0 then some ⟨0, c.default_param, c = .script .build_all⟩
  else (rounds (round h c.opts) n ⟨args, c.default_param, 0⟩).map fun r => ⟨r.1, r.2, false⟩

/-! ## What it accepts -/

def Flag (opts : List Opt) (a : Word) : Prop := ∃ o ∈ opts, a = o.short ∨ a = o.long

/-- empty words, and flags with one value each -/
inductive Pairs (opts : List Opt) : List Word → List (Setting × Word) → Prop where
  | nil : Pairs opts [] []
  | empty {l ps} : Pairs opts l ps → Pairs opts ([] :: l) ps
  | pair {o a w l ps} : o ∈ opts → a = o.short ∨ a = o.long → Pairs opts l ps →
      Pairs opts (a :: w :: l) ((o.setting, w) :: ps)

/-- the last value of a setting -/
def last (ps : List (Setting × Word)) (i : Setting) : Option Word := (ps.filter fun p => p.1 = i).getLast?.map Prod.snd

/-- no blanks and no characters of a pattern -/
def Simple (w : Word) : Prop := ∀ c ∈ w, isBlank c = false ∧ c ≠ '*' ∧ c ≠ '?' ∧ c ≠ '['

/-- what follows the pairs, and what the loop returns there -/
inductive Rest (opts : List Opt) : List Word → ℕ → Prop where
  | done : Rest opts [] 0
  | missing {a} : Flag opts a → Rest opts [a] 1
  | help {a l} : isHelp a = true → Rest opts (a :: l) 1
  | unknown {a l} : a ≠ [] → ¬ Flag opts a → isHelp a = false → Rest opts (a :: l) 2

/-- the flags of a copy can be told apart -/
structure Distinct (opts : List Opt) : Prop where
  short : ∀ o ∈ opts, find opts o.short = some o.setting
  long : ∀ o ∈ opts, find opts o.long = some o.setting
  help : ∀ o ∈ opts, isHelp o.short = false ∧ isHelp o.long = false
  ne_nil : ∀ o ∈ opts, o.short ≠ [] ∧ o.long ≠ []

theorem distinct (c : Copy) : Distinct c.opts := by
  rcases c with (_ | _ | _ | _ | _) | _ <;> refine ⟨?_, ?_, ?_, ?_⟩ <;> decide

section Loop

variable {h : Host} {opts : List Opt} {T : Setting → Word} {a w : Word} {l : List Word}

theorem Flag.taken (hd : Distinct opts) {o : Opt} (ho : o ∈ opts) (ha : a = o.short ∨ a = o.long) :
    find opts a = some o.setting ∧ isHelp a = false ∧ a ≠ [] := by
  rcases ha with rfl | rfl
  · exact ⟨hd.short o ho, (hd.help o ho).1, (hd.ne_nil o ho).1⟩
  · exact ⟨hd.long o ho, (hd.help o ho).2, (hd.ne_nil o ho).2⟩

theorem find_none_iff : find opts a = none ↔ ¬ Flag opts a := by
  simp only [find, Flag, Option.map_eq_none_iff, List.find?_eq_none, Bool.or_eq_true, beq_iff_eq, not_exists, not_and]

theorem find_some {i : Setting} (hf : find opts a = some i) : ∃ o ∈ opts, (a = o.short ∨ a = o.long) ∧ o.setting = i := by
  obtain ⟨o, ho, rfl⟩ := Option.map_eq_some_iff.1 hf
  have hp := List.find?_some ho
  simp only [Bool.or_eq_true, beq_iff_eq] at hp
  exact ⟨o, List.mem_of_find?_eq_some ho, hp, rfl⟩

/-! ### One round -/

theorem round_nil (k : ℕ) : round h opts ⟨[], T, k⟩ = .leave (k, T) := rfl

theorem round_empty (k : ℕ) : round h opts ⟨[] :: l, T, k⟩ = .next ⟨l, T, 0⟩ := rfl

theorem round_help (ha : isHelp a = true) (k : ℕ) : round h opts ⟨a :: l, T, k⟩ = .leave (1, T) := by
  simp [round, Vars.arg, ha]

theorem round_unknown (hne : a ≠ []) (hf : ¬ Flag opts a) (ha : isHelp a = false) (k : ℕ) :
    round h opts ⟨a :: l, T, k⟩ = .leave (2, T) := by
  simp [round, Vars.arg, ha, hne, find_none_iff.2 hf]

theorem round_pair {i : Setting} (hf : find opts a = some i) (hne : a ≠ []) (ha : isHelp a = false) (k : ℕ) :
    round h opts ⟨a :: w :: l, T, k⟩ = .next ⟨l, Function.update T i (h.value w), 0⟩ := by
  simp [round, Vars.arg, ha, hne, hf, Vars.assign, Vars.shift]

/-- the value is empty, and the second `shift` fails -/
theorem round_missing {i : Setting} (hf : find opts a = some i) (hne : a ≠ []) (ha : isHelp a = false) (k : ℕ) :
    round h opts ⟨[a], T, k⟩ = .next ⟨[], Function.update T i (h.value []), 1⟩ := by
  simp [round, Vars.arg, ha, hne, hf, Vars.assign, Vars.shift]

variable (h opts) in
/-- **Every round takes a word away** -/
theorem round_shorter (v v₁ : Vars) (hv : round h opts v = .next v₁) : v₁.params.length < v.params.length := by
  obtain ⟨ws, T, k⟩ := v
  have hshift : ∀ v : Vars, v.shift.params = v.params.tail := by
    intro v
    rcases v with ⟨_ | ⟨w, l⟩, T, k⟩ <;> rfl
  unfold round at hv
  split_ifs at hv with hlen _ _
  · obtain rfl := Round.next.inj hv
    rw [hshift, List.length_tail]
    exact Nat.sub_lt (Nat.pos_of_ne_zero hlen) one_pos
  · split at hv
    · obtain rfl := Round.next.inj hv
      rw [hshift, hshift, List.length_tail, List.length_tail]
      have hset : ∀ i, (Vars.assign h i ⟨ws, T, k⟩).params.length = ws.length := fun _ => rfl
      rw [hset]
      simp only at hlen ⊢
      omega
    · simp at hv

/-! ### All rounds -/

/-- **Pairs are taken, whatever follows** -/
theorem ends_pairs (hd : Distinct opts) {pre : List Word} {ps : List (Setting × Word)} (hp : Pairs opts pre ps)
    {r : ℕ × (Setting → Word)} :
    Ends (round h opts) ⟨pre ++ l, T, 0⟩ r ↔ Ends (round h opts) ⟨l, Args.assign h ps T, 0⟩ r := by
  induction hp generalizing T with
  | nil => exact Iff.rfl
  | empty _ ih => exact (Ends.of_next (round_empty 0)).trans ih
  | pair ho ha _ ih =>
    obtain ⟨hf, hh, hne⟩ := Flag.taken hd ho ha
    exact (Ends.of_next (round_pair hf hne hh 0)).trans ih

theorem ends_rest (hd : Distinct opts) {st : ℕ} (hr : Rest opts l st) :
    ∃ U, Ends (round h opts) ⟨l, T, 0⟩ (st, U) ∧ (l = [] → U = T) := by
  cases hr with
  | done => exact ⟨T, Ends.leave (round_nil 0), fun _ => rfl⟩
  | missing hf =>
    obtain ⟨o, ho, ha⟩ := hf
    obtain ⟨hf, hh, hne⟩ := Flag.taken hd ho ha
    exact ⟨_, Ends.next (round_missing hf hne hh 0) (Ends.leave (round_nil 1)), by simp⟩
  | help ha => exact ⟨T, Ends.leave (round_help ha 0), by simp⟩
  | unknown hne hf ha => exact ⟨T, Ends.leave (round_unknown hne hf ha 0), by simp⟩

variable (opts) in
/-- **Every vector is pairs and a rest**: by the rounds of the loop -/
theorem decompose (args : List Word) :
    ∃ pre ps l st, args = pre ++ l ∧ Pairs opts pre ps ∧ Rest opts l st := by
  induction hn : args.length using Nat.strong_induction_on generalizing args with
  | _ n ih =>
    match args with
    | [] => exact ⟨[], [], [], 0, rfl, Pairs.nil, Rest.done⟩
    | a :: l =>
      by_cases hne : a = []
      · obtain ⟨pre, ps, r, st, h1, h2, h3⟩ := ih l.length (by simp [← hn]) l rfl
        exact ⟨[] :: pre, ps, r, st, by rw [hne, h1, List.cons_append], h2.empty, h3⟩
      · cases ha : isHelp a with
        | true => exact ⟨[], [], a :: l, 1, rfl, Pairs.nil, Rest.help ha⟩
        | false =>
          by_cases hf : Flag opts a
          · match l with
            | [] => exact ⟨[], [], [a], 1, rfl, Pairs.nil, Rest.missing hf⟩
            | w :: l =>
              obtain ⟨o, ho, hao⟩ := hf
              obtain ⟨pre, ps, r, st, h1, h2, h3⟩ := ih l.length (by simp only [← hn, List.length_cons]; omega) l rfl
              exact ⟨a :: w :: pre, (o.setting, w) :: ps, r, st, by rw [h1, List.cons_append, List.cons_append],
                Pairs.pair ho hao h2, h3⟩
          · exact ⟨[], [], a :: l, 2, rfl, Pairs.nil, Rest.unknown hne hf ha⟩

/-- the status of a rest -/
theorem ends_status (hd : Distinct opts) {pre : List Word} {ps : List (Setting × Word)} (hp : Pairs opts pre ps) {st : ℕ}
    (hr : Rest opts l st) {r : ℕ × (Setting → Word)} (he : Ends (round h opts) ⟨pre ++ l, T, 0⟩ r) : r.1 = st := by
  obtain ⟨U, hU, -⟩ := ends_rest (h := h) (T := Args.assign h ps T) hd hr
  exact congrArg Prod.fst (Ends.unique hU ((ends_pairs hd hp).1 he))

/-- **The loop returns 0 iff the arguments are pairs** -/
theorem ends_zero_iff (hd : Distinct opts) {args : List Word} {U : Setting → Word} :
    Ends (round h opts) ⟨args, T, 0⟩ (0, U) ↔ ∃ ps, Pairs opts args ps ∧ U = Args.assign h ps T := by
  constructor
  · intro he
    obtain ⟨pre, ps, l, st, rfl, hp, hr⟩ := decompose opts args
    have hst := ends_status hd hp hr he
    obtain ⟨V, hV, hnil⟩ := ends_rest (h := h) (T := Args.assign h ps T) hd hr
    cases hr with
    | done =>
      have hUV := Ends.unique hV ((ends_pairs hd hp).1 he)
      exact ⟨ps, by simpa using hp, (congrArg Prod.snd hUV).trans (hnil rfl)⟩
    | missing | help | unknown => simp at hst
  · rintro ⟨ps, hp, rfl⟩
    have hend : Ends (round h opts) ⟨[], Args.assign h ps T, 0⟩ (0, Args.assign h ps T) := Ends.leave (round_nil 0)
    simpa using (ends_pairs (l := []) hd hp).2 hend

end Loop

/-! ## The settings -/

section Settings

variable {h : Host} {T : Setting → Word}

/-- **A setting holds its last value, or what it held before** -/
theorem assign_last (ps : List (Setting × Word)) (T : Setting → Word) (i : Setting) :
    Args.assign h ps T i = ((last ps i).map h.value).getD (T i) := by
  induction ps generalizing T with
  | nil => rfl
  | cons p ps ih =>
    have hcons : Args.assign h (p :: ps) T = Args.assign h ps (Function.update T p.1 (h.value p.2)) := rfl
    rw [hcons, ih]
    by_cases hi : p.1 = i
    · subst hi
      cases hl : (ps.filter fun q => q.1 = p.1).getLast? with
      | none => simp [last, hl, List.getLast?_cons]
      | some q => simp [last, hl, List.getLast?_cons]
    · simp [last, hi, Function.update_of_ne (Ne.symm hi)]

instance (w : Word) : Decidable (Simple w) := by
  unfold Simple; infer_instance

theorem fields_simple {names : List Word} {w : Word} (hw : Simple w) (hne : w ≠ []) : fields names w = [w] := by
  rw [fields_isWord ⟨hne, fun c hc => (hw c hc).1⟩, glob_literal (not_pattern fun c hc => (hw c hc).2), word_bare]

theorem value_simple {w : Word} (hw : Simple w) (ho : isOption w = false) : h.value w = w := by
  by_cases hne : w = []
  · subst hne
    simp [Host.value, Host.echo, chomp]
  · rw [value_one h (fields_simple hw hne) ⟨hne, fun c hc => (hw c hc).1⟩, ho]
    rfl

theorem last_mem {ps : List (Setting × Word)} {i : Setting} {w : Word} (hl : last ps i = some w) : (i, w) ∈ ps := by
  obtain ⟨p, hp, rfl⟩ := Option.map_eq_some_iff.1 hl
  have hm := List.mem_filter.1 (List.mem_of_getLast? hp)
  have hi : p.1 = i := by simpa using hm.2
  rw [← hi]
  exact hm.1

/-- the arguments say which pairs they are -/
theorem Pairs.unique {opts : List Opt} (hd : Distinct opts) {l : List Word} {ps qs : List (Setting × Word)}
    (hp : Pairs opts l ps) (hq : Pairs opts l qs) : qs = ps := by
  induction hp generalizing qs with
  | nil =>
    cases hq
    rfl
  | empty _ ih =>
    cases hq with
    | empty hq => exact ih hq
    | pair ho ha _ => exact absurd rfl (Flag.taken hd ho ha).2.2
  | pair ho ha _ ih =>
    cases hq with
    | empty _ => exact absurd rfl (Flag.taken hd ho ha).2.2
    | pair ho₁ ha₁ hq =>
      have hset := (Flag.taken hd ho ha).1.symm.trans (Flag.taken hd ho₁ ha₁).1
      rw [ih hq, Option.some.inj hset]

theorem Pairs.words {opts : List Opt} {l : List Word} {ps : List (Setting × Word)} (hp : Pairs opts l ps) :
    ∀ p ∈ ps, p.2 ∈ l := by
  induction hp with
  | nil => simp
  | empty _ ih => exact fun p hm => List.mem_cons_of_mem _ (ih p hm)
  | pair _ _ _ ih =>
    intro p hm
    rcases List.mem_cons.1 hm with rfl | hm
    · simp
    · exact List.mem_cons_of_mem _ (List.mem_cons_of_mem _ (ih p hm))

end Settings

/-! ## A call -/

/-- what a call of `parseargs` with these arguments returns -/
structure Decides (h : Host) (c : Copy) (args : List Word) (r : Return) : Prop where
  accepts : r.status = 0 ↔ ∃ ps, Pairs c.opts args ps
  settings : ∀ ps, Pairs c.opts args ps → (∀ w ∈ args, Simple w) → (∀ p ∈ ps, isOption p.2 = false) →
    ∀ i, r.set i = (last ps i).getD (c.default_param i)
  /-- pairs of different settings can change places -/
  order : ∀ ps l qs, Pairs c.opts args ps → Pairs c.opts l qs →
    (∀ i, (qs.filter fun p => p.1 = i) = ps.filter fun p => p.1 = i) →
    ∃ q, (∀ n, l.length < n → parseargs h c n l = some q) ∧ q.status = r.status ∧ q.set = r.set
  missing : ∀ pre ps a, Pairs c.opts pre ps → Flag c.opts a → args = pre ++ [a] → r.status = 1
  help : ∀ pre ps a l, Pairs c.opts pre ps → isHelp a = true → args = pre ++ a :: l → r.status = 1
  unknown : ∀ pre ps a l, Pairs c.opts pre ps → a ≠ [] → ¬ Flag c.opts a → isHelp a = false → args = pre ++ a :: l →
    r.status = 2

/-- **A call returns what its loop ends with**, and the loop ends within as many rounds as there are words -/
theorem parseargs_ends (h : Host) (c : Copy) (args : List Word) :
    ∃ r, (∀ n, args.length < n → parseargs h c n args = some r) ∧
      Ends (round h c.opts) ⟨args, c.default_param, 0⟩ (r.status, r.set) ∧
      (r.EXTRA_ARGS = true ↔ c = .script .build_all ∧ args = []) := by
  by_cases hargs : args = []
  · subst hargs
    exact ⟨⟨0, c.default_param, c = .script .build_all⟩, fun _ _ => rfl, Ends.leave (round_nil 0), by simp⟩
  · have hlen : args.length ≠ 0 := by simpa using hargs
    obtain ⟨⟨st, U⟩, he⟩ := ends_of_measure (fun v : Vars => v.params.length) (round_shorter h c.opts)
      ⟨args, c.default_param, 0⟩
    refine ⟨⟨st, U, false⟩, fun n hn => ?_, he, by simp [hargs]⟩
    rw [parseargs, if_neg hlen, rounds_of_ends (fun v : Vars => v.params.length) (round_shorter h c.opts) he hn]
    rfl

theorem ends_set {h : Host} {c : Copy} {args : List Word} {ps : List (Setting × Word)} (hp : Pairs c.opts args ps)
    {r : Return} (he : Ends (round h c.opts) ⟨args, c.default_param, 0⟩ (r.status, r.set)) :
    r.status = 0 ∧ r.set = Args.assign h ps c.default_param := by
  have hps := (ends_zero_iff (h := h) (T := c.default_param) (distinct c)).2 ⟨ps, hp, rfl⟩
  have heq := Ends.unique hps he
  exact ⟨congrArg Prod.fst heq, congrArg Prod.snd heq⟩

/-- **Every call returns within as many rounds as it has words: 0 iff its arguments are empty words and options with
values, 1 at a missing value or a help option, 2 at any other word** -/
theorem parseargs_spec (h : Host) (c : Copy) (args : List Word) :
    ∃ r, (∀ n, args.length < n → parseargs h c n args = some r) ∧ Decides h c args r := by
  have hd := distinct c
  obtain ⟨r, hr, he, -⟩ := parseargs_ends h c args
  have hstatus : ∀ {pre ps l st}, Pairs c.opts pre ps → Rest c.opts l st → args = pre ++ l → r.status = st := by
    intro pre ps l st hp hl heq
    subst heq
    exact ends_status hd hp hl he
  refine ⟨r, hr, ?_, ?_, ?_, ?_, ?_, ?_⟩
  · constructor
    · intro h0
      rw [h0] at he
      obtain ⟨ps, hp, -⟩ := (ends_zero_iff hd).1 he
      exact ⟨ps, hp⟩
    · rintro ⟨ps, hp⟩
      exact (ends_set hp he).1
  · intro ps hp hsimple hopt i
    rw [(ends_set hp he).2, assign_last]
    cases hl : last ps i with
    | none => rfl
    | some w =>
      have hm := last_mem hl
      exact value_simple (hsimple w (hp.words _ hm)) (hopt _ hm)
  · intro ps l qs hp hq hsame
    obtain ⟨q, hqr, hqe, -⟩ := parseargs_ends h c l
    refine ⟨q, hqr, (ends_set hq hqe).1.trans (ends_set hp he).1.symm, ?_⟩
    rw [(ends_set hq hqe).2, (ends_set hp he).2]
    funext i
    rw [assign_last, assign_last, last, last, hsame i]
  · intro pre ps a hp hf heq
    exact hstatus hp (Rest.missing hf) heq
  · intro pre ps a l hp ha heq
    exact hstatus hp (Rest.help ha) heq
  · intro pre ps a l hp hne hf ha heq
    exact hstatus hp (Rest.unknown hne hf ha) heq

/-! ## The calls of the settings -/

/-- **Where it goes on, `Args.parseargs` is the loop** -/
theorem parseargs_pairs_iff {h : Host} {opts : List Opt} (hd : Distinct opts) {args : List Word} {T U : Setting → Word} :
    Args.parseargs h opts args T = some U ↔ ∃ ps, Pairs opts args ps ∧ U = Args.assign h ps T := by
  constructor
  · intro hp
    fun_induction Args.parseargs h opts args T with
    | case1 T => exact ⟨[], Pairs.nil, (Option.some.inj hp).symm⟩
    | case2 => simp at hp
    | case3 T l _ ih =>
      obtain ⟨ps, h1, h2⟩ := ih hp
      exact ⟨ps, h1.empty, h2⟩
    | case4 a T _ _ i w l hf ih =>
      obtain ⟨o, ho, ha, rfl⟩ := find_some hf
      obtain ⟨ps, h1, h2⟩ := ih hp
      exact ⟨(o.setting, w) :: ps, Pairs.pair ho ha h1, h2⟩
    | case5 => simp at hp
  · rintro ⟨ps, hp, rfl⟩
    induction hp generalizing T with
    | nil => rfl
    | empty _ ih =>
      have hcons : ∀ l, Args.parseargs h opts ([] :: l) T = Args.parseargs h opts l T := by
        intro l
        rw [Args.parseargs.eq_def]
        rfl
      rw [hcons]
      exact ih
    | pair ho ha _ ih =>
      obtain ⟨hf, hh, hne⟩ := Flag.taken hd ho ha
      rw [parseargs_cons hh hne hf]
      exact ih

theorem parseargs_refines {h : Host} {c : Script} {args : List Word} {U : Setting → Word} :
    Args.parseargs h c.opts args c.default_param = some U ↔
      ∃ r, (∀ n, args.length < n → parseargs h (.script c) n args = some r) ∧ r.status = 0 ∧ r.set = U := by
  have hd : Distinct c.opts := distinct (.script c)
  rw [parseargs_pairs_iff hd]
  obtain ⟨r, hr, he, -⟩ := parseargs_ends h (.script c) args
  constructor
  · rintro ⟨ps, hp, rfl⟩
    obtain ⟨h0, hs⟩ := ends_set (c := .script c) hp he
    exact ⟨r, hr, h0, hs⟩
  · rintro ⟨q, hq, h0, rfl⟩
    obtain rfl : q = r := Option.some.inj ((hq _ (Nat.lt_succ_self _)).symm.trans (hr _ (Nat.lt_succ_self _)))
    rw [h0] at he
    exact (ends_zero_iff hd).1 he

end AvaotaOS.ParseArgs
