/-!
# Computations that may fail

The rules of `>>=` and of `Except.map`: what comes of a value and of an error, and where a value of the
whole comes from. `firstOk` tries one thing after another until one has a value.
-/
namespace SealedSky.Fallible

variable {ε α β : Type}

@[simp] theorem ok_bind (a : α) (f : α → Except ε β) : (Except.ok a >>= f) = f a := rfl

@[simp] theorem error_bind (e : ε) (f : α → Except ε β) :
    (Except.error e >>= f) = .error e := rfl

@[simp] theorem ok_map (a : α) (f : α → β) : (Except.ok a : Except ε α).map f = .ok (f a) := rfl

/-- A value has gone through both parts. -/
theorem bind_eq_ok {x : Except ε α} {f : α → Except ε β} {b : β} :
    x >>= f = .ok b ↔ ∃ a, x = .ok a ∧ f a = .ok b := by
  cases x with
  | error e => simp
  | ok a => simp

/-- The first value of a list of attempts, else the last error, or `d` of no attempts. -/
def firstOk (f : α → Except ε β) (d : ε) : Option ε → List α → Except ε β
  | lastErr, [] => .error (lastErr.getD d)
  | _, a :: as =>
    match f a with
    | .ok b => .ok b
    | .error e => firstOk f d (some e) as

/-- A value is that of an attempt that only errors come before. -/
theorem firstOk_eq_ok {f : α → Except ε β} {d : ε} {lastErr : Option ε} {as : List α} {b : β} :
    firstOk f d lastErr as = .ok b ↔
      ∃ before a after, as = before ++ a :: after ∧ f a = .ok b ∧
        ∀ a' ∈ before, ∃ e, f a' = .error e := by
  induction as generalizing lastErr with
  | nil => simp [firstOk]
  | cons a as ih =>
    rw [firstOk]
    cases h : f a with
    | ok b' =>
      constructor
      · intro hb
        exact ⟨[], a, as, rfl, h.trans hb, by simp⟩
      · rintro ⟨_ | ⟨a', before⟩, c, after, heq, hc, hbefore⟩
        · cases heq
          exact h.symm.trans hc
        · cases heq
          obtain ⟨e, he⟩ := hbefore a List.mem_cons_self
          rw [h] at he
          cases he
    | error e =>
      rw [ih]
      constructor
      · rintro ⟨before, c, after, rfl, hc, hbefore⟩
        refine ⟨a :: before, c, after, rfl, hc, fun a' ha' => ?_⟩
        rcases List.mem_cons.1 ha' with rfl | ha'
        · exact ⟨e, h⟩
        · exact hbefore a' ha'
      · rintro ⟨_ | ⟨a', before⟩, c, after, heq, hc, hbefore⟩
        · cases heq
          rw [h] at hc
          cases hc
        · cases heq
          exact ⟨before, c, after, rfl, hc, fun a' ha' => hbefore a' (List.mem_cons_of_mem _ ha')⟩

end SealedSky.Fallible
