import Mathlib.Data.List.Basic
import Mathlib.Data.List.Induction

/-!
# Cutting a stream after its terminators

`cuts` are the stretches of a stream that end in a terminator, the terminator included, and `rest` is
what stands behind the last of them. `Cut` says what such a division is, and there is only one
(`Cut.unique`); `collect` is a program that puts the lines together element by element.

* `cut_cuts` — nothing is lost and nothing is added.
* `foldl_collect` — what `collect` ends with are the cuts it keeps and the rest.
-/
namespace SealedSky.Lines

variable {α : Type} (p : α → Bool)

/-! ## The cuts of a stream -/

def cut : List α → List (List α) × List α
  | [] => ([], [])
  | a :: as =>
    if p a then ([a] :: (cut as).1, (cut as).2)
    else
      match (cut as).1 with
      | [] => ([], a :: (cut as).2)
      | l :: ls => ((a :: l) :: ls, (cut as).2)

/-- The stretches that end in a terminator. -/
def cuts (as : List α) : List (List α) := (cut p as).1

/-- What stands behind the last terminator. -/
def rest (as : List α) : List α := (cut p as).2

/-- A terminator, with none before it. -/
def IsLine (l : List α) : Prop := ∃ w t, l = w ++ [t] ∧ (∀ a ∈ w, ¬ p a) ∧ p t

/-- `as` is the lines `ls` and, behind them, `r`, which holds no terminator. -/
structure Cut (as : List α) (ls : List (List α)) (r : List α) : Prop where
  flatten : ls.flatten ++ r = as
  line : ∀ l ∈ ls, IsLine p l
  rest : ∀ a ∈ r, ¬ p a

variable {p}

theorem IsLine.cons {a : α} {l : List α} (ha : ¬ p a) (h : IsLine p l) : IsLine p (a :: l) := by
  obtain ⟨w, t, rfl, hw, ht⟩ := h
  refine ⟨a :: w, t, rfl, ?_, ht⟩
  intro b hb
  rcases List.mem_cons.1 hb with rfl | hb
  · exact ha
  · exact hw b hb

theorem cut_cuts (as : List α) : Cut p as (cuts p as) (rest p as) := by
  unfold cuts rest
  induction as with
  | nil => exact ⟨rfl, by simp [cut], by simp [cut]⟩
  | cons a as ih =>
    obtain ⟨hflat, hline, hrest⟩ := ih
    unfold cut
    by_cases ha : p a
    · rw [if_pos ha]
      refine ⟨by simp [hflat], ?_, hrest⟩
      intro l hl
      rcases List.mem_cons.1 hl with rfl | hl
      · exact ⟨[], a, rfl, by simp, ha⟩
      · exact hline l hl
    · rw [if_neg ha]
      generalize (cut p as).1 = ls at hflat hline
      cases ls with
      | nil =>
        refine ⟨by simpa using hflat, by simp, ?_⟩
        intro b hb
        rcases List.mem_cons.1 hb with rfl | hb
        · exact ha
        · exact hrest b hb
      | cons l ls =>
        refine ⟨by simpa using hflat, ?_, hrest⟩
        intro k hk
        rcases List.mem_cons.1 hk with rfl | hk
        · exact (hline l List.mem_cons_self).cons ha
        · exact hline k (List.mem_cons_of_mem _ hk)

/-- The first terminator shows where the first line ends. -/
theorem line_unique {v w xs ys : List α} {s t : α} (hv : ∀ a ∈ v, ¬ p a) (hs : p s)
    (hw : ∀ a ∈ w, ¬ p a) (ht : p t) (h : v ++ s :: xs = w ++ t :: ys) :
    v = w ∧ s = t ∧ xs = ys := by
  have htake : ∀ {u zs : List α} {r : α}, (∀ a ∈ u, ¬ p a) → p r →
      (u ++ r :: zs).takeWhile (fun a => !p a) = u := by
    intro u zs r hu hr
    rw [List.takeWhile_append_of_pos (by simpa using hu), List.takeWhile_cons_of_neg (by simpa using hr),
      List.append_nil]
  have hvw : v = w := by
    have hleft : (v ++ s :: xs).takeWhile (fun a => !p a) = v := htake hv hs
    rw [← hleft, h, htake hw ht]
  subst hvw
  obtain ⟨hst, hxy⟩ := List.cons.inj (List.append_cancel_left h)
  exact ⟨rfl, hst, hxy⟩

theorem Cut.no_terminator {ls : List (List α)} {as r : List α} (h : Cut p as ls r)
    (has : ∀ a ∈ as, ¬ p a) : ls = [] := by
  cases ls with
  | nil => rfl
  | cons l ls =>
    obtain ⟨w, t, rfl, -, ht⟩ := h.line l List.mem_cons_self
    exact absurd ht (has t (by simp [← h.flatten]))

/-- **One way to cut.** -/
theorem Cut.unique {as r r' : List α} {ls ls' : List (List α)} (h : Cut p as ls r)
    (h' : Cut p as ls' r') : ls = ls' ∧ r = r' := by
  induction ls generalizing as ls' with
  | nil =>
    have hr : r = as := h.flatten
    have hls' := h'.no_terminator (hr ▸ h.rest)
    subst hls'
    exact ⟨rfl, hr.trans h'.flatten.symm⟩
  | cons l ls ih =>
    cases ls' with
    | nil =>
      have hr : r' = as := h'.flatten
      exact absurd (h.no_terminator (hr ▸ h'.rest)) (by simp)
    | cons l' ls' =>
      obtain ⟨w, t, rfl, hw, ht⟩ := h.line l List.mem_cons_self
      obtain ⟨w', t', rfl, hw', ht'⟩ := h'.line l' List.mem_cons_self
      have hcut := h.flatten.trans h'.flatten.symm
      simp only [List.flatten_cons, List.append_assoc, List.singleton_append] at hcut
      obtain ⟨rfl, rfl, hrest⟩ := line_unique hw ht hw' ht' hcut
      have htail := ih ⟨rfl, fun k hk => h.line k (List.mem_cons_of_mem _ hk), h.rest⟩
        ⟨hrest.symm, fun k hk => h'.line k (List.mem_cons_of_mem _ hk), h'.rest⟩
      exact ⟨by rw [htail.1], htail.2⟩

/-! ## One element more -/

theorem cut_concat_terminator (as : List α) {a : α} (ha : p a) :
    cuts p (as ++ [a]) = cuts p as ++ [rest p as ++ [a]] ∧ rest p (as ++ [a]) = [] := by
  have h := cut_cuts (p := p) as
  refine (cut_cuts (as ++ [a])).unique ⟨?_, ?_, by simp⟩
  · rw [List.append_nil, List.flatten_append, List.flatten_singleton, ← List.append_assoc, h.flatten]
  · intro l hl
    rcases List.mem_append.1 hl with hl | hl
    · exact h.line l hl
    · exact ⟨rest p as, a, List.mem_singleton.1 hl, h.rest, ha⟩

theorem cut_concat_plain (as : List α) {a : α} (ha : ¬ p a) :
    cuts p (as ++ [a]) = cuts p as ∧ rest p (as ++ [a]) = rest p as ++ [a] := by
  have h := cut_cuts (p := p) as
  refine (cut_cuts (as ++ [a])).unique ⟨?_, h.line, ?_⟩
  · simp [← List.append_assoc, h.flatten]
  · intro b hb
    rcases List.mem_append.1 hb with hb | hb
    · exact h.rest b hb
    · exact List.mem_singleton.1 hb ▸ ha

/-! ## Collecting lines -/

variable (p)

/-- The lines so far and the line that is being written; a finished line is kept or dropped. -/
def collect (keep : List α → Bool) (s : List (List α) × List α) (a : α) :
    List (List α) × List α :=
  if p a then (s.1 ++ [s.2 ++ [a]].filter keep, []) else (s.1, s.2 ++ [a])

/-- **What is collected.** -/
theorem foldl_collect (keep : List α → Bool) (as : List α) :
    as.foldl (collect p keep) ([], []) = ((cuts p as).filter keep, rest p as) := by
  induction as using List.reverseRecOn with
  | nil => rfl
  | append_singleton as a ih =>
    rw [List.foldl_concat, ih, collect]
    by_cases ha : p a
    · obtain ⟨hc, hr⟩ := cut_concat_terminator as ha
      rw [if_pos ha, hc, hr, List.filter_append]
    · obtain ⟨hc, hr⟩ := cut_concat_plain as ha
      rw [if_neg ha, hc, hr]

end SealedSky.Lines
