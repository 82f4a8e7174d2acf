/-
A cache that is filled once for each key: the first request for a key builds what every later one is served.

`memo l` is the cache after the requests `l`. `memo_eq`: it holds what the first request for a key has built.
`transparent_iff`: its entries are what each request would have built exactly where requests of one key build one thing.
-/
import Mathlib.Tactic

namespace AvaotaOS.Memo

variable {α κ β : Type} [DecidableEq κ] (key : α → κ) (build : α → β)

/-- one request: what is there already stays -/
def fill (c : κ → Option β) (a : α) : κ → Option β :=
  match c (key a) with
  | none => Function.update c (key a) (some (build a))
  | some _ => c

/-- the cache after a list of requests -/
def memo (l : List α) : κ → Option β := l.foldl (fill key build) fun _ => none

theorem memo_concat (l : List α) (a : α) : memo key build (l ++ [a]) = fill key build (memo key build l) a := by
  simp [memo]

theorem fill_found {c : κ → Option β} {a : α} (h : c (key a) ≠ none) : fill key build c a = c := by
  unfold fill
  split
  · exact absurd ‹_› h
  · rfl

theorem fill_missing {c : κ → Option β} {a : α} (h : c (key a) = none) :
    fill key build c a = Function.update c (key a) (some (build a)) := by
  simp [fill, h]

theorem fill_self (c : κ → Option β) (a : α) : fill key build c a (key a) ≠ none := by
  by_cases h : c (key a) = none
  · simp [fill_missing key build h]
  · rwa [fill_found key build h]

/-- an entry stays -/
theorem fill_of_some {c : κ → Option β} {k : κ} {b : β} (h : c k = some b) (a : α) : fill key build c a k = some b := by
  by_cases hc : c (key a) = none
  · have hk : k ≠ key a := by
      rintro rfl
      simp [hc] at h
    rw [fill_missing key build hc, Function.update_of_ne hk, h]
  · rw [fill_found key build hc, h]

theorem foldl_fill (l : List α) (c : κ → Option β) (k : κ) :
    l.foldl (fill key build) c k = (c k).or ((l.find? (key · = k)).map build) := by
  induction l generalizing c with
  | nil => simp
  | cons a l ih =>
    rw [List.foldl_cons, ih, List.find?_cons]
    by_cases hk : key a = k
    · subst hk
      cases hc : c (key a) with
      | none => simp [fill_missing key build hc]
      | some b => simp [fill_of_some key build hc]
    · have hother : fill key build c a k = c k := by
        by_cases hc : c (key a) = none
        · rw [fill_missing key build hc, Function.update_of_ne (Ne.symm hk)]
        · rw [fill_found key build hc]
      simp [hother, hk]

/-- **The cache holds what the first request for a key has built** -/
theorem memo_eq (l : List α) (k : κ) : memo key build l k = (l.find? (key · = k)).map build := by
  rw [memo, foldl_fill]
  rfl

/-- **The cache serves every request what it would have built itself** exactly where its key decides that -/
theorem transparent_iff (l : List α) :
    (∀ a ∈ l, memo key build l (key a) = some (build a)) ↔ ∀ a ∈ l, ∀ b ∈ l, key a = key b → build a = build b := by
  constructor
  · intro h a ha b hb hk
    have ha' := h a ha
    have hb' := h b hb
    rw [hk, hb'] at ha'
    exact (Option.some.inj ha').symm
  · intro h a ha
    rw [memo_eq]
    cases hf : l.find? (key · = key a) with
    | none => exact absurd (List.find?_eq_none.1 hf a ha) (by simp)
    | some b =>
      have hkey := List.find?_some hf
      rw [Option.map_some, h b (List.mem_of_find?_eq_some hf) a ha (by simpa using hkey)]

end AvaotaOS.Memo
