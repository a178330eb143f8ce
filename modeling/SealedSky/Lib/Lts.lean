import Mathlib.Data.List.Induction

/-!
# Labelled transition systems

A system is an initial state and a partial step function of the action taken. A run is a list of
actions, so an interleaving of concurrent parties is a run whose actions name the party, and
"every interleaving" is "every list of actions".

* `run_inv` — what every step preserves, every run preserves.
* `run_inv_history` — the same, for what depends on the actions taken so far.
* `run_inv_of_meets` — the same, for runs whose steps all meet a guard in the state before them.
* `always_iff_meets` — when a guard is exactly what keeps the states of a run good.
* `run_view` — an observer whose view no foreign action changes sees its own actions alone.
* `run_part` — a part of a system whose steps are those of another, or leave it alone, has the runs of the
  other.
-/
namespace SealedSky

universe u v

/-- A system over states `σ` and actions `α`; `step s a = none` means `a` is not enabled in `s`. -/
structure Lts (σ : Type u) (α : Type v) where
  init : σ
  step : σ → α → Option σ

namespace Lts

variable {σ : Type u} {α : Type v} (S : Lts σ α)

/-- The state after a list of actions, or `none` if one of them is not enabled where it is taken. -/
def run : σ → List α → Option σ
  | s, [] => some s
  | s, a :: as =>
    match S.step s a with
    | some t => run t as
    | none => none

/-- Every action of the run is taken in a state that meets the guard `g`. -/
def Meets (g : σ → α → Prop) : σ → List α → Prop
  | _, [] => True
  | s, a :: as =>
    g s a ∧ match S.step s a with
      | some t => Meets g t as
      | none => True

instance decidableMeets (g : σ → α → Prop) [∀ s a, Decidable (g s a)] :
    ∀ s as, Decidable (S.Meets g s as)
  | _, [] => .isTrue trivial
  | s, a :: as =>
    have : Decidable (match S.step s a with | some t => S.Meets g t as | none => True) :=
      match S.step s a with
      | some t => decidableMeets g t as
      | none => .isTrue trivial
    inferInstanceAs (Decidable (_ ∧ _))

@[simp] theorem run_nil (s : σ) : S.run s [] = some s := rfl

theorem run_cons {s t : σ} {a : α} {as : List α} :
    S.run s (a :: as) = some t ↔ ∃ m, S.step s a = some m ∧ S.run m as = some t := by
  simp only [run]
  split
  · rename_i m hm
    simp [hm]
  · rename_i hn
    simp [hn]

theorem run_append (s : σ) (as bs : List α) :
    S.run s (as ++ bs) = (S.run s as).bind fun t => S.run t bs := by
  induction as generalizing s with
  | nil => rfl
  | cons a as ih =>
    rw [List.cons_append]
    simp only [run]
    cases S.step s a with
    | none => rfl
    | some t => exact ih t

theorem run_trans {s m t : σ} {as bs : List α} (hm : S.run s as = some m)
    (ht : S.run m bs = some t) : S.run s (as ++ bs) = some t := by
  rw [run_append, hm]
  exact ht

theorem run_concat {s m t : σ} {as : List α} {a : α} (hm : S.run s as = some m)
    (ht : S.step m a = some t) : S.run s (as ++ [a]) = some t :=
  S.run_trans hm ((S.run_cons).2 ⟨t, ht, rfl⟩)

theorem meets_cons {g : σ → α → Prop} {s m : σ} {a : α} {as : List α} (h : S.step s a = some m) :
    S.Meets g s (a :: as) ↔ g s a ∧ S.Meets g m as := by
  simp only [Meets, h]

/-- The predicate holds in every state of the run, the first and the last included. -/
def Always (P : σ → Prop) : σ → List α → Prop
  | s, [] => P s
  | s, a :: as =>
    P s ∧ match S.step s a with
      | some t => Always P t as
      | none => True

theorem always_cons {P : σ → Prop} {s m : σ} {a : α} {as : List α} (h : S.step s a = some m) :
    S.Always P s (a :: as) ↔ P s ∧ S.Always P m as := by
  simp only [Always, h]

variable {S}

theorem Meets.mono {g g' : σ → α → Prop} (hg : ∀ s a, g s a → g' s a) {s : σ} {as : List α}
    (h : S.Meets g s as) : S.Meets g' s as := by
  induction as generalizing s with
  | nil => trivial
  | cons a as ih =>
    refine ⟨hg s a h.1, ?_⟩
    have h2 := h.2
    split at h2
    · exact ih h2
    · trivial

theorem Meets.and {g g' : σ → α → Prop} {s : σ} {as : List α} (h : S.Meets g s as)
    (h' : S.Meets g' s as) : S.Meets (fun s a => g s a ∧ g' s a) s as := by
  induction as generalizing s with
  | nil => trivial
  | cons a as ih =>
    refine ⟨⟨h.1, h'.1⟩, ?_⟩
    have h2 := h.2
    have h2' := h'.2
    split at h2
    · rename_i t ht
      simp only [ht] at h2'
      exact ih h2 h2'
    · trivial

theorem meets_of_mem {g : σ → α → Prop} {s : σ} {as : List α} (hg : ∀ s, ∀ a ∈ as, g s a) :
    S.Meets g s as := by
  induction as generalizing s with
  | nil => trivial
  | cons a as ih =>
    refine ⟨hg s a List.mem_cons_self, ?_⟩
    split
    · exact ih fun s b hb => hg s b (List.mem_cons_of_mem a hb)
    · trivial

theorem meets_append {g : σ → α → Prop} {s m : σ} {as bs : List α} (h : S.run s as = some m) :
    S.Meets g s (as ++ bs) ↔ S.Meets g s as ∧ S.Meets g m bs := by
  induction as generalizing s with
  | nil =>
    simp only [run_nil, Option.some.injEq] at h
    rw [List.nil_append, h, Meets, true_and]
  | cons a as ih =>
    obtain ⟨t, hst, h⟩ := (run_cons S).1 h
    rw [List.cons_append, meets_cons S hst, meets_cons S hst, ih h, and_assoc]

theorem Always.head {P : σ → Prop} {s : σ} {as : List α} (h : S.Always P s as) : P s := by
  cases as with
  | nil => exact h
  | cons a as => exact h.1

/-- **Exactness rule.** Where a step out of a state with the invariant keeps it under the guard, and
leads to a good state only under the guard, the states of a run are all good exactly when all its steps
meet the guard. -/
theorem always_iff_meets {I P : σ → Prop} {g : σ → α → Prop} (hP : ∀ s, I s → P s)
    (hkeep : ∀ s a t, I s → S.step s a = some t → g s a → I t)
    (hguard : ∀ s a t, I s → S.step s a = some t → P t → g s a) {as : List α} {s t : σ}
    (hs : I s) (hr : S.run s as = some t) : S.Always P s as ↔ S.Meets g s as := by
  induction as generalizing s with
  | nil => exact iff_of_true (hP s hs) trivial
  | cons a as ih =>
    obtain ⟨m, hsm, hr'⟩ := (run_cons S).1 hr
    rw [always_cons S hsm, meets_cons S hsm, and_iff_right (hP s hs)]
    constructor
    · intro hall
      have hg : g s a := hguard s a m hs hsm hall.head
      exact ⟨hg, (ih (hkeep s a m hs hsm hg) hr').1 hall⟩
    · rintro ⟨hg, hmeets⟩
      exact (ih (hkeep s a m hs hsm hg) hr').2 hmeets

/-- **Guarded invariant rule.** -/
theorem run_inv_of_meets {P : σ → Prop} {g : σ → α → Prop}
    (hstep : ∀ s a t, P s → g s a → S.step s a = some t → P t) {as : List α} {s t : σ}
    (hs : P s) (hm : S.Meets g s as) (hr : S.run s as = some t) : P t := by
  induction as generalizing s with
  | nil =>
    simp only [run_nil, Option.some.injEq] at hr
    exact hr ▸ hs
  | cons a as ih =>
    obtain ⟨m, hsm, hr'⟩ := (run_cons S).1 hr
    obtain ⟨hg, hm'⟩ := (meets_cons S hsm).1 hm
    exact ih (hstep s a m hs hg hsm) hm' hr'

/-- **Invariant rule.** -/
theorem run_inv {P : σ → Prop} (hstep : ∀ s a t, P s → S.step s a = some t → P t)
    {as : List α} {s t : σ} (hs : P s) (hr : S.run s as = some t) : P t := by
  exact run_inv_of_meets (g := fun _ _ => True) (fun s a t h _ => hstep s a t h) hs
    (meets_of_mem fun _ _ _ => trivial) hr

/-- **Invariant rule with a history.** -/
theorem run_inv_history {P : List α → σ → Prop} {s : σ} (hinit : P [] s)
    (hstep : ∀ as m a t, S.run s as = some m → P as m → S.step m a = some t → P (as ++ [a]) t)
    {as : List α} {t : σ} (hr : S.run s as = some t) : P as t := by
  induction as using List.reverseRecOn generalizing t with
  | nil =>
    simp only [run_nil, Option.some.injEq] at hr
    exact hr ▸ hinit
  | append_singleton as a ih =>
    rw [run_append, Option.bind_eq_some_iff] at hr
    obtain ⟨m, hm, hr⟩ := hr
    obtain ⟨t', hst, hr⟩ := (run_cons S).1 hr
    simp only [run_nil, Option.some.injEq] at hr
    exact hstep as m a t hm (ih hm) (hr ▸ hst)

/-- **View rule.** `mine` reads an observer's own actions off the run, and `upd` is what one of them
does to its view; a foreign action does nothing to it. -/
theorem run_view {β γ : Type*} {view : σ → β} {mine : α → Option γ} {upd : β → γ → β}
    (hown : ∀ s a t x, S.step s a = some t → mine a = some x → view t = upd (view s) x)
    (hforeign : ∀ s a t, S.step s a = some t → mine a = none → view t = view s)
    {as : List α} {s t : σ} (hr : S.run s as = some t) :
    view t = (as.filterMap mine).foldl upd (view s) := by
  induction as generalizing s with
  | nil =>
    simp only [run_nil, Option.some.injEq] at hr
    exact congrArg view hr.symm
  | cons a as ih =>
    obtain ⟨m, hsm, hr'⟩ := (run_cons S).1 hr
    cases hx : mine a with
    | none => rw [List.filterMap_cons_none hx, ih hr', hforeign s a m hsm hx]
    | some x => rw [List.filterMap_cons_some hx, List.foldl_cons, ih hr', hown s a m x hsm hx]

/-- Where every action is enabled, every list of actions is a run. -/
theorem exists_run (hstep : ∀ s a, ∃ t, S.step s a = some t) (s : σ) (as : List α) :
    ∃ t, S.run s as = some t := by
  induction as generalizing s with
  | nil => exact ⟨s, rfl⟩
  | cons a as ih =>
    obtain ⟨m, hm⟩ := hstep s a
    obtain ⟨t, ht⟩ := ih m
    exact ⟨t, (run_cons S).2 ⟨m, hm, ht⟩⟩

/-! ## Parts of a system -/

/-- **Projection rule.** Where every step of `S` is a step of `T` on a part of the state, or leaves the
part alone, a run of `S` is a run of `T` on that part, and what guards the steps of the one guards those
of the other. -/
theorem run_part {τ β : Type*} {T : Lts τ β} (part : σ → τ) {g : σ → α → Prop} {g' : τ → β → Prop}
    (hstep : ∀ s a t, g s a → S.step s a = some t →
      (∃ b, g' (part s) b ∧ T.step (part s) b = some (part t)) ∨ part t = part s)
    {as : List α} {s t : σ} (hm : S.Meets g s as) (hr : S.run s as = some t) :
    ∃ bs, T.run (part s) bs = some (part t) ∧ T.Meets g' (part s) bs := by
  induction as generalizing s with
  | nil =>
    rw [run_nil, Option.some.injEq] at hr
    exact ⟨[], congrArg (fun s => some (part s)) hr, trivial⟩
  | cons a as ih =>
    obtain ⟨m, hsm, hr'⟩ := (run_cons S).1 hr
    obtain ⟨hg, hm'⟩ := (meets_cons S hsm).1 hm
    obtain ⟨bs, hbs, hmeets⟩ := ih hm' hr'
    rcases hstep s a m hg hsm with ⟨b, hb, hstep'⟩ | hsame
    · exact ⟨b :: bs, (run_cons T).2 ⟨part m, hstep', hbs⟩, (meets_cons T hstep').2 ⟨hb, hmeets⟩⟩
    · rw [hsame] at hbs hmeets
      exact ⟨bs, hbs, hmeets⟩

end Lts

end SealedSky
