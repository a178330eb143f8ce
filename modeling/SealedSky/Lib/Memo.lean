import Mathlib.Data.List.InsertIdx
import Mathlib.Data.List.Nodup
import Mathlib.Logic.Function.Basic

/-!
# Memo tables of asynchronous functions

A caller asks for a key. What is in the table is had at once; else the question is on its way, and the
value that comes back is put into the table, over one that came before. Nothing keeps two questions for
one key from being on their way together, so a value is final only once none is.

* `Settled.ask`, `Settled.answer` — a value with no question on its way stays.
* `mem_pending_ask`, `mem_pending_answer` — which questions are on their way.
* `distinct_answer` — whoever has asked one question at a time has one answer.
-/
namespace SealedSky

universe u v w

/-- The values of type `ν` that are known for keys, and the questions, each with who asked it. -/
structure Memo (κ : Type u) (ν : Type v) (ω : Type w) where
  table : κ → Option ν
  pending : List (κ × ω)

namespace Memo

variable {κ : Type u} {ν : Type v} {ω : Type w}

def empty : Memo κ ν ω := ⟨fun _ => none, []⟩

/-- What is known needs no question. -/
def ask (m : Memo κ ν ω) (k : κ) (who : ω) : Memo κ ν ω :=
  if (m.table k).isSome then m else { m with pending := m.pending ++ [(k, who)] }

/-- The question at `i` comes back with a value. -/
def answer [DecidableEq κ] (m : Memo κ ν ω) (i : ℕ) (v : ν) : Option ((κ × ω) × Memo κ ν ω) :=
  (m.pending[i]?).map fun q =>
    (q, ⟨Function.update m.table q.1 (some v), m.pending.eraseIdx i⟩)

@[simp] theorem table_ask (m : Memo κ ν ω) (k : κ) (who : ω) : (m.ask k who).table = m.table := by
  unfold ask
  split <;> rfl

theorem pending_ask {m : Memo κ ν ω} {k : κ} (h : m.table k = none) (who : ω) :
    (m.ask k who).pending = m.pending ++ [(k, who)] := by
  rw [ask, h]
  rfl

theorem mem_pending_ask {m : Memo κ ν ω} {k : κ} {who : ω} {q : κ × ω} :
    q ∈ (m.ask k who).pending ↔ q ∈ m.pending ∨ m.table k = none ∧ q = (k, who) := by
  unfold ask
  by_cases h : (m.table k).isSome = true
  · obtain ⟨v, hv⟩ := Option.isSome_iff_exists.1 h
    simp [hv]
  · simp [Option.not_isSome_iff_eq_none.1 h]

section
variable [DecidableEq κ] {m m' : Memo κ ν ω} {i : ℕ} {v : ν} {q q' : κ × ω}

theorem mem_of_answer (h : m.answer i v = some (q, m')) : q ∈ m.pending := by
  obtain ⟨q, hq, heq⟩ := Option.map_eq_some_iff.1 h
  cases heq
  exact List.mem_of_getElem? hq

theorem table_answer (h : m.answer i v = some (q, m')) :
    m'.table = Function.update m.table q.1 (some v) := by
  obtain ⟨q, hq, heq⟩ := Option.map_eq_some_iff.1 h
  cases heq
  rfl

theorem mem_pending_answer (h : m.answer i v = some (q, m')) (hq' : q' ∈ m'.pending) :
    q' ∈ m.pending := by
  obtain ⟨q, -, heq⟩ := Option.map_eq_some_iff.1 h
  cases heq
  exact List.mem_of_mem_eraseIdx hq'

theorem mem_pending_of_ne (h : m.answer i v = some (q, m')) (hq' : q' ∈ m.pending)
    (hne : q' ≠ q) : q' ∈ m'.pending := by
  obtain ⟨q, hq, heq⟩ := Option.map_eq_some_iff.1 h
  cases heq
  obtain ⟨j, hj⟩ := List.getElem?_of_mem hq'
  refine List.mem_eraseIdx_iff_getElem?.2 ⟨j, ?_, hj⟩
  rintro rfl
  rw [hq] at hj
  exact hne (Option.some.inj hj).symm

/-- Where every question is somebody else's, they stay so, and the one who has an answer waits no more. -/
theorem distinct_answer (hnd : (m.pending.map Prod.snd).Nodup) (h : m.answer i v = some (q, m')) :
    (m'.pending.map Prod.snd).Nodup ∧ ∀ q' ∈ m'.pending, q'.2 ≠ q.2 := by
  obtain ⟨q, hq, heq⟩ := Option.map_eq_some_iff.1 h
  cases heq
  constructor
  · have herase := hnd.sublist (List.eraseIdx_sublist (m.pending.map Prod.snd) i)
    rwa [List.eraseIdx_map] at herase
  · intro q' hq' heq
    obtain ⟨j, hij, hj⟩ := List.mem_eraseIdx_iff_getElem?.1 hq'
    obtain ⟨hi, hgeti⟩ := List.getElem?_eq_some_iff.1 hq
    obtain ⟨hj, hgetj⟩ := List.getElem?_eq_some_iff.1 hj
    have hi' : i < (m.pending.map Prod.snd).length := by simpa using hi
    have hj' : j < (m.pending.map Prod.snd).length := by simpa using hj
    have hsame : (m.pending.map Prod.snd)[j] = (m.pending.map Prod.snd)[i] := by
      rw [List.getElem_map, List.getElem_map, hgeti, hgetj, heq]
    exact hij (hnd.getElem_inj_iff.1 hsame)

end

/-- The value is known, and none is on its way. -/
def Settled (m : Memo κ ν ω) (k : κ) (v : ν) : Prop :=
  m.table k = some v ∧ ∀ q ∈ m.pending, q.1 ≠ k

theorem Settled.ask {m : Memo κ ν ω} {k : κ} {v : ν} (h : m.Settled k v) (k' : κ) (who : ω) :
    (m.ask k' who).Settled k v := by
  refine ⟨by rw [table_ask, h.1], fun q hq hk => ?_⟩
  rcases mem_pending_ask.1 hq with hold | ⟨hnone, rfl⟩
  · exact h.2 q hold hk
  · obtain rfl : k' = k := hk
    rw [h.1] at hnone
    cases hnone

theorem Settled.answer [DecidableEq κ] {m m' : Memo κ ν ω} {k : κ} {v v' : ν} {i : ℕ} {q : κ × ω}
    (h : m.Settled k v) (hanswer : m.answer i v' = some (q, m')) : m'.Settled k v := by
  refine ⟨?_, fun q' hq' => h.2 q' (mem_pending_answer hanswer hq')⟩
  rw [table_answer hanswer, Function.update_of_ne (h.2 q (mem_of_answer hanswer)).symm, h.1]

end Memo

end SealedSky
