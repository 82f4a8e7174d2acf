/-
Text as the usual filters see it: lines are lists of characters, numbers are written in decimal.

`grepStart p` is `grep "^p"`, `cut k` is `cut -d: -f <k+1>`, `digitsOf` is `sed 's/[^0-9]//g'`, `trailingDigits` is
`grep -o "[[:digit:]]*$"` on one line. The lemmas say what they find in a record whose fields are decimal numbers with a
unit: `cutField_zero`, `cutField_succ`, `digitsOf_unit`, `number_decimal`. A record is found by a prefix of its first number
(`prefix_record`), so the number 1 also finds 10.

`words` splits at blanks, and `sed p r` is `sed "s|p|r|g"` on one line, for a pattern whose only special character is the
dot. The pieces between the matches do not depend on what replaces them.
-/
import Mathlib.Tactic

namespace AvaotaOS.Text

/-- what holds of every character of a word is decided along the word, not over all characters -/
instance (priority := 1100) decidableBAllWord (p : Char → Prop) [DecidablePred p] (w : List Char) : Decidable (∀ c ∈ w, p c) :=
  List.decidableBAll p w

instance lawfulBEqWord : LawfulBEq (List Char) := inferInstance

def decimal (n : ℕ) : List Char := Nat.toDigits 10 n

def digitsOf (l : List Char) : List Char := l.filter Char.isDigit

/-- the number a word of digits stands for; an empty word is no word -/
def number (l : List Char) : Option ℕ := if l = [] then none else some (Nat.ofDigitChars 10 l 0)

def grepStart (p : List Char) (lines : List (List Char)) : List (List Char) := lines.filter p.isPrefixOf

def cutField : ℕ → List Char → List Char
  | 0, l => l.takeWhile (· ≠ ':')
  | k + 1, l => cutField k (l.dropWhile (· ≠ ':')).tail

/-- a line without the delimiter is printed as it is -/
def cut (k : ℕ) (l : List Char) : List Char := if ':' ∈ l then cutField k l else l

def trailingDigits (l : List Char) : List Char := (l.reverse.takeWhile Char.isDigit).reverse

theorem isDigit_decimal {n : ℕ} {c : Char} (h : c ∈ decimal n) : c.isDigit = true :=
  Nat.isDigit_of_mem_toDigits (by decide) (by decide) h

theorem decimal_ne_nil (n : ℕ) : decimal n ≠ [] := Nat.toDigits_ne_nil

@[simp] theorem number_decimal (n : ℕ) : number (decimal n) = some n := by
  rw [number, if_neg (decimal_ne_nil n), decimal, Nat.ofDigitChars_ten_toDigits]

theorem colon_not_mem_decimal (n : ℕ) : ':' ∉ decimal n := fun h => absurd (isDigit_decimal h) (by decide)

/-- a number with a unit that is no digit -/
theorem digitsOf_unit (n : ℕ) {c : Char} (hc : c.isDigit = false) : digitsOf (decimal n ++ [c]) = decimal n := by
  rw [digitsOf, List.filter_append, List.filter_eq_self.2 fun _ h => isDigit_decimal h]
  simp [hc]

/-! ## Fields -/

theorem takeWhile_colon {a : List Char} (h : ':' ∉ a) (r : List Char) : (a ++ ':' :: r).takeWhile (· ≠ ':') = a := by
  rw [List.takeWhile_append_of_pos fun c hc => by simpa using fun he : c = ':' => h (he ▸ hc)]
  simp

theorem dropWhile_colon {a : List Char} (h : ':' ∉ a) (r : List Char) :
    (a ++ ':' :: r).dropWhile (· ≠ ':') = ':' :: r := by
  rw [List.dropWhile_append_of_pos fun c hc => by simpa using fun he : c = ':' => h (he ▸ hc)]
  simp

theorem cutField_zero {a : List Char} (h : ':' ∉ a) (r : List Char) : cutField 0 (a ++ ':' :: r) = a :=
  takeWhile_colon h r

theorem cutField_succ {a : List Char} (h : ':' ∉ a) (k : ℕ) (r : List Char) :
    cutField (k + 1) (a ++ ':' :: r) = cutField k r := by
  rw [cutField, dropWhile_colon h, List.tail_cons]

theorem cut_record (k : ℕ) (a r : List Char) : cut k (a ++ ':' :: r) = cutField k (a ++ ':' :: r) := if_pos (by simp)

/-! ## Finding a record -/

/-- **A line is found by any prefix of its number** -/
theorem prefix_record (n m : ℕ) (r : List Char) : decimal n <+: decimal m ++ ':' :: r ↔ decimal n <+: decimal m := by
  constructor
  · intro h
    rcases List.prefix_or_prefix_of_prefix h (List.prefix_append _ _) with hp | ⟨t, ht⟩
    · exact hp
    · rw [← ht, List.prefix_append_right_inj] at h
      cases t with
      | nil => simp [← ht]
      | cons c t =>
        -- the number would hold the colon
        obtain ⟨u, hu⟩ := h
        obtain ⟨rfl, -⟩ := List.cons.inj hu
        exact absurd (by simp [← ht] : ':' ∈ decimal n) (colon_not_mem_decimal n)
  · intro h
    exact h.trans (List.prefix_append _ _)

theorem trailingDigits_append {l : List Char} (h : ∀ c ∈ l.getLast?, c.isDigit = false) (n : ℕ) :
    trailingDigits (l ++ decimal n) = decimal n := by
  rw [trailingDigits, List.reverse_append,
    List.takeWhile_append_of_pos fun c hc => isDigit_decimal (List.mem_reverse.1 hc)]
  have hr : l.reverse.takeWhile Char.isDigit = [] := by
    rw [← List.head?_reverse] at h
    cases hl : l.reverse with
    | nil => rfl
    | cons c t =>
      have hc := h c (by simp [hl])
      simp [hc]
  rw [hr, List.append_nil, List.reverse_reverse]

/-! ## Words -/

def isBlank (c : Char) : Bool := c == ' ' || c == '\t' || c == '\n'

def words (l : List Char) : List (List Char) := (l.splitOnP isBlank).filter fun w => !w.isEmpty

@[simp] theorem words_nil : words [] = [] := rfl

/-- a blank ends a word -/
theorem words_append {b : Char} (hb : isBlank b = true) (a r : List Char) : words (a ++ b :: r) = words a ++ words r := by
  rw [words, List.splitOnP_append_cons a r hb, List.filter_append]
  rfl

theorem words_blank {b : Char} (hb : isBlank b = true) (r : List Char) : words (b :: r) = words r := by
  have h := words_append hb [] r
  rwa [List.nil_append, words_nil, List.nil_append] at h

theorem words_word {a : List Char} (hne : a ≠ []) (ha : ∀ c ∈ a, isBlank c = false) : words a = [a] := by
  rw [words, List.splitOnP_eq_singleton ha]
  simp [hne]

theorem words_cons {a : List Char} (hne : a ≠ []) (ha : ∀ c ∈ a, isBlank c = false) {b : Char} (hb : isBlank b = true)
    (r : List Char) : words (a ++ b :: r) = a :: words r := by
  rw [words_append hb, words_word hne ha]
  rfl

/-! ## Substitution -/

/-- does the pattern match the beginning of the line; a dot matches any character -/
def dotMatch : List Char → List Char → Bool
  | [], _ => true
  | _ :: _, [] => false
  | p :: ps, c :: cs => (p == '.' || p == c) && dotMatch ps cs

/-- the text between the matches, from the left and without overlaps; the number counts what is left of a match -/
def pieces (p : List Char) : ℕ → List Char → List (List Char)
  | _, [] => [[]]
  | k + 1, _ :: l => pieces p k l
  | 0, c :: l => if dotMatch p (c :: l) then [] :: pieces p (p.length - 1) l else (pieces p 0 l).modifyHead (c :: ·)

def sed (p r l : List Char) : List Char := r.intercalate (pieces p 0 l)

theorem sed_none {p r l : List Char} (h : pieces p 0 l = [l]) : sed p r l = l := by
  rw [sed, h, List.intercalate, List.intersperse]
  simp

theorem sed_once {p r l a b : List Char} (h : pieces p 0 l = [a, b]) : sed p r l = a ++ (r ++ b) := by
  rw [sed, h, List.intercalate]
  simp

theorem pieces_ne_nil (p : List Char) (k : ℕ) (l : List Char) : pieces p k l ≠ [] := by
  induction l generalizing k with
  | nil =>
    cases k <;> simp [pieces]
  | cons c l ih =>
    cases k with
    | zero =>
      rw [pieces]
      split
      · simp
      · simpa using ih 0
    | succ k =>
      rw [pieces]
      exact ih k

/-- a character at which no match begins stays -/
theorem sed_cons {p r l : List Char} {c : Char} (h : dotMatch p (c :: l) = false) : sed p r (c :: l) = c :: sed p r l := by
  rw [sed, pieces, if_neg (by simp [h]), sed]
  obtain ⟨x, xs, hx⟩ := List.exists_cons_of_ne_nil (pieces_ne_nil p 0 l)
  rw [hx]
  cases xs <;> simp [List.intercalate, List.intersperse]

end AvaotaOS.Text
