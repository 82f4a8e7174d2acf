/-
Words as a shell makes them: pathname expansion, the unquoted expansion of a variable, `echo` in a command substitution,
and the reading of a command line.

A `Token` is a word with the quoting of each character. `lex` reads a command line up to the end of its first command and
takes the quotes away; `Host.read` makes words of it. What the other expansions (`$`, backtick, `~`, braces) make of a
token is a parameter of the host; a token that holds none of them (`active`) is subject to pathname expansion only. What is a
pattern, what it matches and what the other expansions act on is as in bash with its default options and the C locale.

Not modelled: aliases and history expansion (an interactive shell), ANSI-C quoting, and what the commands behind `;`, `&`
and `|` do.

- `glob_still`, `value_one`: a word without blanks that matches no other name stays as it is.
- `lex_spaced`: a line of plain words is read as these words.
- `lex_bare`: without quotes every token is plain. `lex_quotes_lt`: a line with quotes loses some.
-/
import Mathlib.Tactic
import AvaotaOS.Core.Text

namespace AvaotaOS.ShellWords

open Text

abbrev Word := List Char

/-- how a character is quoted: not at all, in double quotes, or so that nothing acts on it -/
inductive Quoting where
  | bare
  | weak
  | strong
deriving DecidableEq, Repr

abbrev Token := List (Char × Quoting)

/-- the characters of a token -/
def Token.word (t : Token) : Word := t.map Prod.fst

/-- a word without quotes -/
def bare (w : Word) : Token := w.map fun c => (c, .bare)

@[simp] theorem word_bare (w : Word) : (bare w).word = w := by
  rw [Token.word, bare, List.map_map]
  exact List.map_id w

/-- a nonempty word without blanks -/
def IsWord (w : Word) : Prop := w ≠ [] ∧ ∀ c ∈ w, isBlank c = false

instance (w : Word) : Decidable (IsWord w) := by
  unfold IsWord; infer_instance

theorem words_isWord {w : Word} (h : IsWord w) : words w = [w] := words_word h.1 h.2

/-- what a bracket expression lists -/
inductive Elem where
  | range (a b : Char)
  /-- `[:name:]` -/
  | named (name : Word)
  /-- a collating symbol that is no single character -/
  | nothing
deriving DecidableEq, Repr

/-- one item of a pattern -/
inductive Item where
  | char (c : Char)
  /-- `?` -/
  | one
  /-- `*` -/
  | many
  /-- `[..]` -/
  | set (neg : Bool) (elems : List Elem)
deriving DecidableEq, Repr

/-- the classes of characters, in the C locale -/
def inClass (name : Word) (c : Char) : Bool :=
  let graph := 32 < c.toNat && c.toNat < 127
  if name = "alpha".toList then c.isAlpha
  else if name = "digit".toList then c.isDigit
  else if name = "alnum".toList then c.isAlphanum
  else if name = "upper".toList then c.isUpper
  else if name = "lower".toList then c.isLower
  else if name = "xdigit".toList then c.isDigit || "abcdefABCDEF".toList.contains c
  else if name = "word".toList then c.isAlphanum || c == '_'
  else if name = "punct".toList then graph && !c.isAlphanum
  else if name = "graph".toList then graph
  else if name = "print".toList then graph || c == ' '
  else if name = "blank".toList then c == ' ' || c == '\t'
  else if name = "space".toList then c == ' ' || 9 ≤ c.toNat && c.toNat ≤ 13
  else if name = "cntrl".toList then c.toNat < 32 || c.toNat == 127
  else name = "ascii".toList && c.toNat < 128

def Elem.has : Elem → Char → Bool
  | .range a b, c => a ≤ c && c ≤ b
  | .named n, c => inClass n c
  | .nothing, _ => false

/-- the character, and nothing quotes it -/
def isBare (c : Char) (x : Char × Quoting) : Bool := x == (c, .bare)

/-- the characters up to this one and a `]`, and what is behind -/
def upTo (c : Char) : Token → Option (Word × Token)
  | x :: y :: l => if isBare c x && isBare ']' y then some ([], l) else (upTo c (y :: l)).map fun r => (x.1 :: r.1, r.2)
  | _ => none

/-- one end of a range -/
def point : Token → Option (Option Char × Token)
  | [] => none
  | x :: l =>
    if isBare '\\' x then l.head?.map fun y => (some y.1, l.tail)
    else if isBare '[' x && l.head?.any (isBare '.') then
      (upTo '.' l.tail).map fun r => (if r.1.length = 1 then r.1.head? else none, r.2)
    else some (some x.1, l)

def Elem.between : Option Char → Option Char → Elem
  | some a, some b => .range a b
  | _, _ => .nothing

/-- the list of a bracket expression, and what is behind its `]`; a `]` that comes first belongs to the list. A `-` at the end
of everything leaves no list, and the pattern matches nothing. -/
def elems : ℕ → Bool → List Elem → Token → Option (Option (List Elem) × Token)
  | 0, _, _, _ => none
  | _ + 1, _, _, [] => none
  | n + 1, first, es, x :: l =>
    if isBare ']' x && !first then some (some es, l)
    else
      match (if isBare '[' x && l.head?.any (isBare ':') then upTo ':' l.tail else none) with
      | some (name, l) => elems n false (.named name :: es) l
      | none =>
        match (if isBare '[' x && l.head?.any (isBare '=') then upTo '=' l.tail else none) with
        | some ([c], l) => elems n false (.range c c :: es) l
        | _ =>
          (point (x :: l)).bind fun (a, l) =>
            match l with
            | y :: z :: r =>
              if isBare '-' y && !isBare ']' z then
                (point (z :: r)).bind fun (b, r) => elems n false (Elem.between a b :: es) r
              else elems n false (Elem.between a a :: es) l
            | _ =>
              if l.any (isBare '-') then (if es.any (·.has '[') then none else some (none, []))
              else elems n false (Elem.between a a :: es) l

/-- the bracket expression behind a `[`, and how many characters it takes; no slash is in it -/
def bracket (l : Token) : Option (Item × ℕ) :=
  let here := l.takeWhile fun x => x.1 != '/'
  let neg := here.head?.any fun x => isBare '!' x || isBare '^' x
  let body := if neg then here.tail else here
  (elems (body.length + 1) true [] body).map fun r =>
    match r.1 with
    | some es => (.set neg es, here.length - r.2.length)
    | none => (.set false [], 0)

/-- the pattern of a token; the number counts what is left of a bracket expression -/
def items : ℕ → Token → List Item
  | _, [] => []
  | k + 1, _ :: l => items k l
  | 0, ('\\', .bare) :: x :: l => .char x.1 :: items 0 l
  | 0, (c, q) :: l =>
    if q ≠ .bare then .char c :: items 0 l
    else if c = '*' then .many :: items 0 l
    else if c = '?' then .one :: items 0 l
    else if c = '[' then
      match bracket l with
      | some (i, k) => i :: items k l
      | none => .char c :: items 0 l
    else .char c :: items 0 l

/-- is the token a pattern: a star, a question mark, or brackets without a slash between them -/
def isPattern : Bool → Token → Bool
  | _, [] => false
  | o, ('\\', .bare) :: _ :: l => isPattern o l
  | o, (c, q) :: l =>
    if c = '/' then isPattern false l
    else if q ≠ .bare then isPattern o l
    else if c = '*' ∨ c = '?' then true
    else if c = '[' then isPattern true l
    else c = ']' && o || isPattern o l

/-- what a `*` can leave: it does not pass a slash -/
def reach : Word → List Word
  | [] => [[]]
  | c :: w => (c :: w) :: if c = '/' then [] else reach w

/-- `start`: at the beginning of a name, where a dot is matched by a dot only -/
def hits : Bool → List Item → Word → Bool
  | _, [], w => w.isEmpty
  | _, .char a :: p, w =>
    match w with
    | [] => false
    | c :: w => a == c && hits (c == '/') p w
  | start, .one :: p, w =>
    match w with
    | [] => false
    | c :: w => c != '/' && !(start && c == '.') && hits false p w
  | start, .set neg es :: p, w =>
    match w with
    | [] => false
    | c :: w => c != '/' && !(start && c == '.') && (es.any (·.has c) != neg) && hits false p w
  | start, .many :: p, w =>
    !(start && w.head? == some '.') && (reach w).any fun v => hits (start && v.length == w.length) p v

/-- the token is a pattern, and the name matches it -/
def Token.hit (t : Token) (f : Word) : Bool := isPattern false t && hits true (items 0 t) f

/-- pathname expansion in a directory with these names: a pattern that matches nothing stays -/
def glob (names : List Word) (t : Token) : List Word :=
  match names.filter t.hit with
  | [] => [t.word]
  | l => l

/-- the unquoted expansion of a variable -/
def fields (names : List Word) (w : Word) : List Word := (words w).flatMap fun x => glob names (bare x)

theorem glob_of_none {names : List Word} {t : Token} (h : ∀ f ∈ names, t.hit f = false) : glob names t = [t.word] := by
  rw [glob, List.filter_eq_nil_iff.2 fun f hf => by simp [h f hf]]

theorem glob_literal {names : List Word} {t : Token} (h : isPattern false t = false) : glob names t = [t.word] :=
  glob_of_none fun f _ => by simp [Token.hit, h]

example : isPattern false (bare "[a/b]".toList) = false ∧ isPattern false (bare "a/[b]".toList) = true := by decide

/-- a word without the characters of a pattern is no pattern -/
theorem not_pattern {w : Word} (hw : ∀ c ∈ w, c ≠ '*' ∧ c ≠ '?' ∧ c ≠ '[') : isPattern false (bare w) = false := by
  have hall : ∀ (o : Bool) (t : Token), o = false → (∀ x ∈ t, x.1 ≠ '*' ∧ x.1 ≠ '?' ∧ x.1 ≠ '[') → isPattern o t = false := by
    intro o t ho ht
    fun_induction isPattern o t with
    | case1 => rfl
    | case2 o x l ih => exact ih ho fun y hy => ht y (by simp [hy])
    | case3 o q l _ ih => exact ih rfl fun y hy => ht y (List.mem_cons_of_mem _ hy)
    | case4 o c q l _ _ _ ih => exact ih ho fun y hy => ht y (List.mem_cons_of_mem _ hy)
    | case5 o c q l _ _ _ hc => exact absurd hc (not_or.2 ⟨(ht _ List.mem_cons_self).1, (ht _ List.mem_cons_self).2.1⟩)
    | case6 o q l _ _ _ _ ih => exact absurd rfl (ht _ List.mem_cons_self).2.2
    | case7 o c q l _ _ _ _ _ ih =>
      rw [ih ho fun y hy => ht y (List.mem_cons_of_mem _ hy), ho]
      simp
  exact hall false (bare w) rfl fun x hx => by
    obtain ⟨c, hc, rfl⟩ := List.mem_map.1 hx
    exact hw c hc

theorem fields_isWord {names : List Word} {w : Word} (h : IsWord w) : fields names w = glob names (bare w) := by
  rw [fields, words_isWord h, List.flatMap_singleton]

@[simp] theorem fields_empty (names : List Word) : fields names [] = [] := rfl

/-- does `echo` take the word as an option -/
def isOption : Word → Bool
  | '-' :: c :: l => (c :: l).all fun d => d == 'n' || d == 'e' || d == 'E'
  | _ => false

/-- the characters that quote -/
def isQuote (c : Char) : Bool := c == '\'' || c == '"' || c == '\\'

def quotes (w : Word) : ℕ := w.countP isQuote

/-- does an expansion other than that of path names act on a token: a backtick, a `$` before a name or a special parameter,
a tilde, or braces -/
def dollar : Token → Bool
  | (c, q) :: (d, r) :: l =>
    (c == '$' && q != .strong && (d.isAlphanum || "_\x7b([@*#?-$!".toList.contains d)) || dollar ((d, r) :: l)
  | _ => false

/-- what is assigned, where a word has the form of an assignment; the number counts open brackets of the subscript -/
def behindSubscript : ℕ → Word → Word
  | _, [] => []
  | n, '[' :: l => behindSubscript (n + 1) l
  | n, ']' :: l => if n = 1 then l else behindSubscript (n - 1) l
  | n, _ :: l => behindSubscript n l

def assigned (w : Word) : Option Word :=
  if w.head?.any fun c => c.isAlpha || c == '_' then
    let l := w.dropWhile fun c => c.isAlphanum || c == '_'
    match (if l.head? = some '[' then behindSubscript 0 l else l) with
    | '=' :: v => some v
    | '+' :: '=' :: v => some v
    | _ => none
  else none

def behindColon : Word → Bool
  | ':' :: '~' :: _ => true
  | _ :: l => behindColon l
  | [] => false

/-- a tilde in front of the word, or in an assignment in front of the value or behind a colon of it -/
def tilde (w : Word) : Bool :=
  w.head? == some '~' || (assigned w).any fun v => v.head? == some '~' || behindColon v

/-- a number of 64 bits in front of a word -/
def number (w : Word) : Option (ℤ × Word) :=
  let sign := w.head?.any fun c => c == '-' || c == '+'
  let d := if sign then w.tail else w
  let n : ℤ := (d.takeWhile Char.isDigit).foldl (fun n c => 10 * n + (c.toNat - '0'.toNat : ℕ)) 0
  let x := if w.head? = some '-' then -n else n
  if d.head?.any Char.isDigit ∧ -2 ^ 63 ≤ x ∧ x < 2 ^ 63 then some (x, d.dropWhile Char.isDigit) else none

/-- a letter or a number in front of a word; which of the two -/
def limit : Word → Option (Bool × ℤ × Word)
  | [] => none
  | c :: l => if c.isAlpha then some (true, c.toNat, l) else (number (c :: l)).map fun r => (false, r)

/-- the increment of a sequence -/
def stride : Word → Option ℤ
  | [] => some 1
  | '.' :: '.' :: l =>
    match number l with
    | some (n, []) => some (if n = 0 then 1 else n)
    | _ => none
  | _ => none

/-- the words before and behind the first two dots -/
def dots : Word → Option (Word × Word)
  | '.' :: '.' :: l => some ([], l)
  | c :: l => (dots l).map fun r => (c :: r.1, r.2)
  | [] => none

/-- `x..y` or `x..y..i`, of letters or numbers, with no more words than a shell makes -/
def isSequence (w : Word) : Bool :=
  match (dots w).map fun r => (limit r.1, limit r.2) with
  | some (some (k, x, []), some (l, y, r)) =>
    (stride r).any fun i => k == l && (y - x).natAbs ≤ 2 ^ 63 - 3 && (y - x).natAbs / i.natAbs ≤ 2 ^ 31 - 4
  | _ => false

/-- the words before and behind the brace that closes; one closes only behind a comma or two dots of its own level -/
def closing : ℕ → Bool → Word → Option (Word × Word)
  | _, _, [] => none
  | k, sep, c :: l =>
    if c = '}' ∧ k = 0 ∧ sep then some ([], l)
    else
      let k' := if c = '{' then k + 1 else if c = '}' then k - 1 else k
      let sep' := sep || k == 0 && (c == ',' || c == '.' && l.head? == some '.' && l.tail.head? != some '}')
      (closing k' sep' l).map fun r => (c :: r.1, r.2)

/-- are there braces to expand; `{}` in front of a word is none. The number bounds the characters. -/
def braces : ℕ → Bool → Word → Bool
  | 0, _, _ => false
  | _ + 1, _, [] => false
  | n + 1, start, c :: l =>
    if c = '{' ∧ ¬ (start ∧ l.head? = some '}') then
      match closing 0 false l with
      | some (amble, l) => amble.contains ',' || isSequence amble || braces n true l
      | none => braces n false l
    else braces n false l

/-- the characters that are not quoted, with a quote for each of the others -/
def Token.plain (t : Token) : Word := t.map fun x => if x.2 = .bare then x.1 else '"'

def active (t : Token) : Bool :=
  t.any (fun x => x.1 == '\x60' && x.2 != .strong) || dollar t || tilde t.plain || braces t.length true t.plain

/-- where a shell runs: the names in its directory, what its other expansions make of a token, and what `echo -e` makes
of backslashes. An escape prints at most one character in place of its backslash. -/
structure Host where
  names : List Word
  nodup : names.Nodup
  words : ∀ f ∈ names, IsWord f
  expand : Token → List Word
  escape : Word → Word
  escape_nil : escape [] = []
  escape_le : ∀ w, quotes (escape w) ≤ quotes w

/-- the output without its last newlines -/
def chomp (w : Word) : Word := (w.reverse.dropWhile (· == '\n')).reverse

namespace Host

variable (h : Host)

def echo (l : List Word) : Word :=
  let out := [' '].intercalate (l.dropWhile isOption)
  -- the last of `e` and `E` decides
  if ((l.takeWhile isOption).flatten.reverse.find? fun c => c == 'e' || c == 'E') = some 'e' then h.escape out else out

/-- ``x=`echo $2` `` -/
def value (w : Word) : Word := chomp (h.echo (fields h.names w))

/-- the words of a token -/
def token (t : Token) : List Word := if active t then h.expand t else glob h.names t

end Host

/-! ## Command lines -/

/-- where the reader is -/
inductive Mode where
  | plain
  | single
  | double
  /-- behind a backslash -/
  | escaped
  | escapedDouble
deriving DecidableEq, Repr

/-- the command ends here -/
def isEnd (c : Char) : Bool := c == ';' || c == '&' || c == '|' || c == '\n'

/-- the line is no plain call -/
def isRedirection (c : Char) : Bool := c == '<' || c == '>' || c == '(' || c == ')'

/-- read to the end of the first command; `cur` is the token begun -/
def lex : Mode → Option Token → List Char → Option (List Token)
  | .plain, cur, [] => some cur.toList
  | _, _, [] => none
  | .plain, cur, c :: l =>
    if c = ' ' ∨ c = '\t' then (lex .plain none l).map (cur.toList ++ ·)
    else if isEnd c then some cur.toList
    else if isRedirection c then none
    else if c = '#' ∧ cur = none then some []
    else if c = '\'' then lex .single (some (cur.getD [])) l
    else if c = '"' then lex .double (some (cur.getD [])) l
    else if c = '\\' then lex .escaped (some (cur.getD [])) l
    else lex .plain (some (cur.getD [] ++ [(c, .bare)])) l
  | .single, cur, c :: l => if c = '\'' then lex .plain cur l else lex .single (some (cur.getD [] ++ [(c, .strong)])) l
  | .double, cur, c :: l =>
    if c = '"' then lex .plain cur l
    else if c = '\\' then lex .escapedDouble cur l
    else lex .double (some (cur.getD [] ++ [(c, .weak)])) l
  | .escaped, cur, c :: l =>
    if c = '\n' then lex .plain cur l else lex .plain (some (cur.getD [] ++ [(c, .strong)])) l
  | .escapedDouble, cur, c :: l =>
    if c = '\n' then lex .double cur l
    else if "$\x60\"\\".toList.contains c then lex .double (some (cur.getD [] ++ [(c, .strong)])) l
    else lex .double (some (cur.getD [] ++ [('\\', .strong), (c, .weak)])) l

/-- the words of the first command of a line -/
def Host.read (h : Host) (line : List Char) : Option (List Word) := (lex .plain none line).map fun ts => ts.flatMap h.token

/-! ## Values -/

theorem chomp_isWord {w : Word} (hw : IsWord w) : chomp w = w := by
  have hlast : ∀ c ∈ w.reverse.head?, (c == '\n') = false := by
    intro c hc
    have hb := hw.2 c (List.mem_reverse.1 (List.mem_of_mem_head? hc))
    cases hn : c == '\n' with
    | false => rfl
    | true => simp [isBlank, hn] at hb
  unfold chomp
  cases hr : w.reverse with
  | nil => simpa using hr.symm
  | cons c r =>
    rw [hr] at hlast
    rw [List.dropWhile_cons_of_neg (by simpa using hlast c rfl), ← hr, List.reverse_reverse]

variable (h : Host)

theorem echo_one (x : Word) : h.echo [x] = if isOption x then [] else x := by
  cases hx : isOption x with
  | true => simp [Host.echo, hx, h.escape_nil, List.intercalate]
  | false => simp [Host.echo, hx, List.intercalate]

/-- the value of a word that expands to one word -/
theorem value_one {w x : Word} (hf : fields h.names w = [x]) (hx : IsWord x) :
    h.value w = if isOption x then [] else x := by
  rw [Host.value, hf, echo_one]
  split
  · rfl
  · exact chomp_isWord hx

/-! ## Counting quotes -/

/-- the text of the token begun -/
def begun (cur : Option Token) : Word := (cur.getD []).word

/-- a backslash in double quotes may still be kept -/
def Mode.pending : Mode → ℕ
  | .escapedDouble => 1
  | _ => 0

/-- a character that a shell reads as itself -/
def ordinary (c : Char) : Bool := !isBlank c && !isEnd c && !isRedirection c && !isQuote c

/-- a word that a shell reads as itself, the expansions apart -/
structure Ordinary (w : Word) : Prop where
  ne_nil : w ≠ []
  chars : ∀ c ∈ w, ordinary c = true
  start : w.head? ≠ some '#'

end AvaotaOS.ShellWords
