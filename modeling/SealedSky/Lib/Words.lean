import Mathlib.Data.List.Chain

/-!
# Words with one separator between them

A text is brought into words by writing a separator for all that is no letter (`mark`), one separator
for every run of them (`squeeze`), and none at the ends (`strip`). `words` says what that comes to.

* `strip_squeeze_mark` — the three steps give the words of the text with one separator between them.
* `clean_join` — such a text is clean, and the steps leave a clean text alone (`steps_of_clean`).
* `join_sep_iff` — where the separators stand.
-/
namespace SealedSky.Words

/-- Letters, and a separator that is none. -/
structure Alphabet (α : Type) where
  letter : α → Bool
  sep : α
  sep_letter : letter sep = false

namespace Alphabet

variable {α : Type} (A : Alphabet α)

/-- A separator for all that is no letter. -/
def mark (s : List α) : List α := s.map fun u => if A.letter u then u else A.sep

/-- One separator for every run of them. -/
def squeeze [DecidableEq α] : List α → List α
  | [] => []
  | [u] => [u]
  | u :: v :: r => if u = A.sep ∧ v = A.sep then squeeze (v :: r) else u :: squeeze (v :: r)

/-- A separator in front and one behind are taken off. -/
def strip [DecidableEq α] (s : List α) : List α :=
  let t := if s.head? = some A.sep then s.tail else s
  if t.getLast? = some A.sep then t.dropLast else t

/-- The runs of letters. -/
def words : List α → List (List α)
  | [] => []
  | [u] => if A.letter u then [[u]] else []
  | u :: v :: r =>
    if A.letter u then
      if A.letter v then
        match words (v :: r) with
        | w :: ws => (u :: w) :: ws
        | [] => [[u]]
      else [u] :: words (v :: r)
    else words (v :: r)

/-- Words with one separator between them. -/
def join : List (List α) → List α
  | [] => []
  | [w] => w
  | w :: w' :: ws => w ++ A.sep :: join (w' :: ws)

/-- What are words: letters, and at least one. -/
def Proper (ws : List (List α)) : Prop := ∀ w ∈ ws, w ≠ [] ∧ ∀ u ∈ w, A.letter u = true

/-- Letters and separators, no two separators in a row and none at the ends. -/
structure Clean (s : List α) : Prop where
  mem : ∀ u ∈ s, A.letter u = true ∨ u = A.sep
  apart : s.IsChain fun u v => ¬ (u = A.sep ∧ v = A.sep)
  head : s.head? ≠ some A.sep
  last : s.getLast? ≠ some A.sep

variable {A}

/-! ## The words of a text -/

theorem ne_sep {u : α} (hu : A.letter u = true) : u ≠ A.sep := by
  rintro rfl
  rw [A.sep_letter] at hu
  cases hu

theorem proper_words (s : List α) : A.Proper (A.words s) := by
  unfold Proper
  fun_induction words A s with
  | case1 => simp
  | case2 u hu => simp [hu]
  | case3 u hu => simp
  | case4 u v r hu hv w ws heq ih =>
    intro x hx
    rw [heq] at ih
    rcases List.mem_cons.1 hx with rfl | hx
    · refine ⟨by simp, fun a ha => ?_⟩
      rcases List.mem_cons.1 ha with rfl | ha
      · exact hu
      · exact (ih w List.mem_cons_self).2 a ha
    · exact ih x (List.mem_cons_of_mem w hx)
  | case5 u v r hu hv heq ih => simp [hu]
  | case6 u v r hu hv ih =>
    intro x hx
    rcases List.mem_cons.1 hx with rfl | hx
    · simp [hu]
    · exact ih x hx
  | case7 u v r hu ih => exact ih

theorem words_cons_ne_nil {v : α} (hv : A.letter v = true) (r : List α) : A.words (v :: r) ≠ [] := by
  cases r with
  | nil => simp [words, hv]
  | cons w r =>
    rw [words, if_pos hv]
    split
    · split <;> simp
    · simp

/-- A text without words has no letters. -/
theorem letter_of_words_nil {s : List α} (h : A.words s = []) : ∀ u ∈ s, A.letter u = false := by
  induction s with
  | nil => simp
  | cons u s ih =>
    have hu : A.letter u = false := by
      by_contra hu
      exact words_cons_ne_nil (eq_true_of_ne_false hu) s h
    intro x hx
    rcases List.mem_cons.1 hx with rfl | hx
    · exact hu
    · refine ih ?_ x hx
      cases s with
      | nil => rfl
      | cons v s =>
        rw [words, if_neg (by rw [hu]; decide)] at h
        exact h

theorem join_cons_cons (u : α) (w : List α) (ws : List (List α)) :
    A.join ((u :: w) :: ws) = u :: A.join (w :: ws) := by
  cases ws <;> rfl

/-- What `squeeze` leaves in front of the words. -/
def leading (A : Alphabet α) : List α → List α
  | [] => []
  | u :: _ => if A.letter u then [] else [A.sep]

/-- What it leaves behind them. -/
def trailing (A : Alphabet α) (s : List α) : List α :=
  if A.words s = [] then [] else
    match s.getLast? with
    | some u => if A.letter u then [] else [A.sep]
    | none => []

theorem trailing_cons {u v : α} {r : List α} (h : A.words (v :: r) ≠ []) :
    A.trailing (u :: v :: r) = A.trailing (v :: r) := by
  have h' : A.words (u :: v :: r) ≠ [] := by
    by_cases hu : A.letter u = true
    · exact words_cons_ne_nil hu _
    · rwa [words, if_neg hu]
  rw [trailing, trailing, if_neg h, if_neg h', List.getLast?_cons_cons]

theorem trailing_cons_sep {u v : α} {r : List α} (hu : ¬ A.letter u = true) :
    A.trailing (u :: v :: r) = A.trailing (v :: r) := by
  have hwords : A.words (u :: v :: r) = A.words (v :: r) := by rw [words, if_neg hu]
  rw [trailing, trailing, hwords, List.getLast?_cons_cons]

/-- A word with nothing but separators behind it. -/
theorem trailing_of_words_nil {u v : α} {r : List α} (hu : A.letter u = true)
    (h : A.words (v :: r) = []) : A.trailing (u :: v :: r) = [A.sep] := by
  obtain ⟨x, hx⟩ : ∃ x, (v :: r).getLast? = some x := ⟨_, List.getLast?_eq_some_getLast (by simp)⟩
  have hletter := letter_of_words_nil h x (List.mem_of_getLast? hx)
  rw [trailing, if_neg (words_cons_ne_nil hu _), List.getLast?_cons_cons, hx]
  simp [hletter]

/-! ## The three steps -/

section
variable [DecidableEq α]

theorem squeeze_letter {u : α} (hu : A.letter u = true) (s : List α) :
    A.squeeze (u :: s) = u :: A.squeeze s := by
  cases s with
  | nil => rfl
  | cons v s => rw [squeeze, if_neg fun h => ne_sep hu h.1]

/-- **What is left of a text**: its words, and a separator where it does not start or end with one. -/
theorem squeeze_mark (s : List α) :
    A.squeeze (A.mark s) = A.leading s ++ (A.join (A.words s) ++ A.trailing s) := by
  induction s with
  | nil => rfl
  | cons u s ih =>
    cases s with
    | nil =>
      by_cases hu : A.letter u = true
      · simp [mark, squeeze, leading, trailing, join, words, hu]
      · simp [mark, squeeze, leading, trailing, join, words, hu]
    | cons v r =>
      by_cases hu : A.letter u = true
      · have hstep : A.squeeze (A.mark (u :: v :: r)) = u :: A.squeeze (A.mark (v :: r)) := by
          rw [mark, List.map_cons, if_pos hu, squeeze_letter hu, mark]
        have hlead : A.leading (u :: v :: r) = [] := by simp [leading, hu]
        rw [hstep, ih, hlead]
        by_cases hv : A.letter v = true
        · -- the word goes on
          obtain ⟨w, ws, hws⟩ := List.exists_cons_of_ne_nil (words_cons_ne_nil hv r)
          have hlead' : A.leading (v :: r) = [] := by simp [leading, hv]
          rw [trailing_cons (by rw [hws]; simp), words, if_pos hu, if_pos hv, hws, hlead',
            join_cons_cons]
          rfl
        · have hlead' : A.leading (v :: r) = [A.sep] := by simp [leading, hv]
          have hwords : A.words (u :: v :: r) = [u] :: A.words (v :: r) := by
            rw [words, if_pos hu, if_neg hv]
          rw [hlead', hwords]
          cases hws : A.words (v :: r) with
          | nil =>
            rw [trailing_of_words_nil hu hws, trailing, if_pos hws]
            rfl
          | cons w ws =>
            rw [trailing_cons (by rw [hws]; simp)]
            rfl
      · have hlead : A.leading (u :: v :: r) = [A.sep] := by simp [leading, hu]
        have hwords : A.words (u :: v :: r) = A.words (v :: r) := by rw [words, if_neg hu]
        rw [hlead, hwords, trailing_cons_sep hu]
        by_cases hv : A.letter v = true
        · have hlead' : A.leading (v :: r) = [] := by simp [leading, hv]
          rw [hlead', List.nil_append] at ih
          rw [← ih, mark, mark, List.map_cons, List.map_cons, if_neg hu, if_pos hv, squeeze,
            if_neg fun h => ne_sep hv h.2]
          rfl
        · have hlead' : A.leading (v :: r) = [A.sep] := by simp [leading, hv]
          rw [hlead'] at ih
          rw [← ih, mark, mark, List.map_cons, List.map_cons, if_neg hu, if_neg hv, squeeze,
            if_pos ⟨rfl, rfl⟩]

end

/-! ## Clean texts -/

theorem isChain_letters {w : List α} (h : ∀ u ∈ w, A.letter u = true) :
    w.IsChain fun u v => ¬ (u = A.sep ∧ v = A.sep) :=
  (List.pairwise_of_forall_mem_list fun a ha b _ (hab : a = A.sep ∧ b = A.sep) =>
    ne_sep (h a ha) hab.1).isChain

theorem join_ne_nil {ws : List (List α)} (h : A.Proper ws) (hne : ws ≠ []) : A.join ws ≠ [] := by
  cases ws with
  | nil => exact absurd rfl hne
  | cons w ws =>
    have hw := (h w List.mem_cons_self).1
    cases ws with
    | nil => exact hw
    | cons w' ws => simp [join]

/-- **Words with one separator between them are a clean text.** -/
theorem clean_join {ws : List (List α)} (h : A.Proper ws) : A.Clean (A.join ws) := by
  fun_induction join A ws with
  | case1 => exact ⟨by simp, List.isChain_nil, by simp, by simp⟩
  | case2 w =>
    obtain ⟨hne, hletters⟩ := h w List.mem_cons_self
    refine ⟨fun u hu => Or.inl (hletters u hu), isChain_letters hletters, ?_, ?_⟩
    · intro hhead
      exact ne_sep (hletters _ (List.mem_of_mem_head? hhead)) rfl
    · intro hlast
      exact ne_sep (hletters _ (List.mem_of_getLast? hlast)) rfl
  | case3 w w' ws ih =>
    obtain ⟨hne, hletters⟩ := h w List.mem_cons_self
    have hrest := ih fun x hx => h x (List.mem_cons_of_mem w hx)
    refine ⟨?_, ?_, ?_, ?_⟩
    · intro u hu
      rcases List.mem_append.1 hu with hu | hu
      · exact Or.inl (hletters u hu)
      · rcases List.mem_cons.1 hu with rfl | hu
        · exact Or.inr rfl
        · exact hrest.mem u hu
    · refine List.isChain_append.2 ⟨isChain_letters hletters, List.isChain_cons.2 ⟨?_, hrest.apart⟩, ?_⟩
      · intro y hy hab
        rw [Option.mem_def, hab.2] at hy
        exact hrest.head hy
      · intro x hx y _ hab
        exact ne_sep (hletters x (List.mem_of_getLast? hx)) hab.1
    · intro hhead
      rw [List.head?_append_of_ne_nil _ hne] at hhead
      exact ne_sep (hletters _ (List.mem_of_mem_head? hhead)) rfl
    · have hjoin := join_ne_nil (fun x hx => h x (List.mem_cons_of_mem w hx)) (by simp)
      obtain ⟨v, r, hvr⟩ := List.exists_cons_of_ne_nil hjoin
      rw [List.getLast?_append_of_ne_nil _ (by simp), hvr, List.getLast?_cons_cons, ← hvr]
      exact hrest.last

section
variable [DecidableEq α]

theorem strip_clean {s : List α} (h : A.Clean s) : A.strip s = s := by
  rw [strip, if_neg h.head]
  exact if_neg h.last

/-- A separator in front and one behind are all that is taken off. -/
theorem strip_around {s front back : List α} (h : A.Clean s) (hs : s ≠ [])
    (hfront : front = [] ∨ front = [A.sep]) (hback : back = [] ∨ back = [A.sep]) :
    A.strip (front ++ (s ++ back)) = s := by
  have hhead : (s ++ back).head? ≠ some A.sep := by
    rw [List.head?_append_of_ne_nil _ hs]
    exact h.head
  have hfirst : (if (front ++ (s ++ back)).head? = some A.sep then (front ++ (s ++ back)).tail
      else front ++ (s ++ back)) = s ++ back := by
    rcases hfront with rfl | rfl
    · exact if_neg hhead
    · exact if_pos rfl
  rw [strip, hfirst]
  rcases hback with rfl | rfl
  · rw [List.append_nil]
    exact if_neg h.last
  · simp

/-- **The three steps give the words of a text with one separator between them.** -/
theorem strip_squeeze_mark (s : List α) :
    A.strip (A.squeeze (A.mark s)) = A.join (A.words s) := by
  have hlead : A.leading s = [] ∨ A.leading s = [A.sep] := by
    unfold leading
    split
    · exact Or.inl rfl
    · split <;> simp
  rw [squeeze_mark]
  by_cases hwords : A.words s = []
  · rw [trailing, if_pos hwords, hwords, join, List.append_nil, List.append_nil]
    rcases hlead with h | h
    · rw [h]
      rfl
    · rw [h]
      simp [strip]
  · refine strip_around (clean_join (proper_words s)) (join_ne_nil (proper_words s) hwords) hlead ?_
    unfold trailing
    split
    · exact Or.inl rfl
    · split
      · split <;> simp
      · exact Or.inl rfl

theorem squeeze_apart {s : List α} (h : s.IsChain fun u v => ¬ (u = A.sep ∧ v = A.sep)) :
    A.squeeze s = s := by
  fun_induction squeeze A s with
  | case1 => rfl
  | case2 u => rfl
  | case3 u v r hsep ih => exact absurd hsep (List.isChain_cons_cons.1 h).1
  | case4 u v r hsep ih => rw [ih (List.isChain_cons_cons.1 h).2]

/-- **A clean text is left alone.** -/
theorem steps_of_clean {s : List α} (h : A.Clean s) : A.strip (A.squeeze (A.mark s)) = s := by
  have hmark : A.mark s = s := by
    refine (List.map_congr_left fun u hu => ?_).trans (List.map_id s)
    rcases h.mem u hu with hletter | rfl
    · exact if_pos hletter
    · split <;> rfl
  rw [hmark, squeeze_apart h.apart, strip_clean h]

end

/-- **What is left of a clean text that is cut off** is clean unless it ends in a separator. -/
theorem clean_take_iff {s : List α} (h : A.Clean s) (n : ℕ) :
    A.Clean (s.take (n + 1)) ↔ s[n]? ≠ some A.sep := by
  by_cases hn : n < s.length
  · have hlast : (s.take (n + 1)).getLast? = s[n]? := by
      rw [List.getLast?_take, if_neg (Nat.succ_ne_zero n), Nat.add_sub_cancel,
        List.getElem?_eq_getElem hn]
      rfl
    constructor
    · intro hclean
      rw [← hlast]
      exact hclean.last
    · intro hsep
      refine ⟨fun u hu => h.mem u (List.mem_of_mem_take hu), h.apart.take _, ?_, by rwa [hlast]⟩
      rw [List.head?_take, if_neg (Nat.succ_ne_zero n)]
      exact h.head
  · rw [List.take_of_length_le (by omega), List.getElem?_eq_none (by omega)]
    exact iff_of_true h (by simp)

/-! ## Where the separators stand -/

theorem length_join_cons (w : List α) {ws : List (List α)} (h : ws ≠ []) :
    (A.join (w :: ws)).length = w.length + 1 + (A.join ws).length := by
  cases ws with
  | nil => exact absurd rfl h
  | cons w' ws =>
    rw [join, List.length_append, List.length_cons]
    omega

/-- **A separator stands exactly behind the first words**, where others follow. -/
theorem join_sep_iff {ws : List (List α)} (h : A.Proper ws) (i : ℕ) :
    (A.join ws)[i]? = some A.sep ↔
      ∃ front back, ws = front ++ back ∧ front ≠ [] ∧ back ≠ [] ∧ (A.join front).length = i := by
  fun_induction join A ws generalizing i with
  | case1 => simp
  | case2 w =>
    refine iff_of_false ?_ ?_
    · intro hsep
      exact ne_sep ((h w List.mem_cons_self).2 _ (List.mem_of_getElem? hsep)) rfl
    · rintro ⟨front, back, hsplit, hfront, hback, -⟩
      have hlen := congrArg List.length hsplit
      have hf := List.length_pos_of_ne_nil hfront
      have hb := List.length_pos_of_ne_nil hback
      rw [List.length_append, List.length_singleton] at hlen
      omega
  | case3 w w' ws ih =>
    have hrest := ih fun x hx => h x (List.mem_cons_of_mem w hx)
    constructor
    · intro hsep
      rcases lt_trichotomy i w.length with hi | rfl | hi
      · rw [List.getElem?_append_left hi] at hsep
        exact absurd rfl (ne_sep ((h w List.mem_cons_self).2 _ (List.mem_of_getElem? hsep)))
      · exact ⟨[w], w' :: ws, rfl, by simp, by simp, rfl⟩
      · obtain ⟨j, rfl⟩ : ∃ j, i = w.length + 1 + j := ⟨i - (w.length + 1), by omega⟩
        rw [List.getElem?_append_right (by omega), Nat.add_assoc, Nat.add_sub_cancel_left,
          Nat.add_comm, List.getElem?_cons_succ] at hsep
        obtain ⟨front, back, hsplit, hfront, hback, hlen⟩ := (hrest j).1 hsep
        refine ⟨w :: front, back, by rw [hsplit, List.cons_append], by simp, hback, ?_⟩
        rw [length_join_cons w hfront, hlen]
    · rintro ⟨front, back, hsplit, hfront, hback, rfl⟩
      obtain ⟨x, front, rfl⟩ := List.exists_cons_of_ne_nil hfront
      obtain ⟨rfl, htail⟩ := List.cons.inj hsplit
      by_cases hnil : front = []
      · subst hnil
        simp [join]
      · have hsep := (hrest _).2 ⟨front, back, htail, hnil, hback, rfl⟩
        rw [length_join_cons w hnil, List.getElem?_append_right (by omega), Nat.add_assoc,
          Nat.add_sub_cancel_left, Nat.add_comm, List.getElem?_cons_succ]
        exact hsep

end Alphabet

end SealedSky.Words
