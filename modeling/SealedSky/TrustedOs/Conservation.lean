import Mathlib.Data.List.Nodup
import SealedSky.TrustedOs.Rpc

/-!
# Nothing is lost between the callers and the applet (`docker/trusted_os/rpc.go`)

The two channels and the applet form a cycle: a caller blocks on a full `appletRequestCh`, the applet on
a full `appletReplyCh`, and only a waiting caller empties that. For an applet that answers every call the
cycle is one queue, and something in it can always move.

* `Flow`, `run_flow` — the requests pushed are, in order, those whose reply was taken, the one whose reply
  is out, the one in the applet and the one that waits for it.
* `Flow.progress` — while a caller is not done, a step is enabled.
-/
namespace SealedSky.TrustedOs

/-- The request of connection `i`. -/
def request (calls : Nat → AppletCall) (i : Nat) : Tagged AppletCall := ⟨i, calls i⟩

section
variable {σ : Type} {f : σ → AppletCall → σ × String} {calls : Nat → AppletCall} {s t : State σ}

/-- The cycle as one queue of connections, with as many waiting as it owes a reply. -/
structure Flow (s : State σ) : Prop where
  running : s.stopped = false
  order : s.pushed = s.returned.map (fun p => p.2.owner) ++ inFlight s
  once : s.pushed.Nodup
  owed : s.waiting.length = (inFlight s).length
  accounted : ∀ i ∈ s.pushed, i ∈ s.waiting ∨ i ∈ s.returned.map Prod.fst
  replies : s.served.map (fun e => (e.owner, e.reply)) =
    (s.returned.map Prod.snd ++ s.appletReplyCh.buf).map fun m => (m.owner, some m.val)

theorem flow_start (m : σ) : Flow (start m) := by
  constructor <;> simp [start, inFlight]

theorem step_flow (a : Action) (hs : Flow s) (h : step (.always f) calls s a = some t) :
    Flow t := by
  have horder := hs.order
  have howed := hs.owed
  cases a with
  | push i =>
    obtain ⟨hi, ch, hch, rfl⟩ := step_push h
    refine ⟨hs.running, ?_, ?_, ?_, ?_, hs.replies⟩
    · simp [inFlight, hch, horder]
    · exact hs.once.append (List.nodup_singleton i) (List.disjoint_singleton.2 hi)
    · simp [inFlight, hch] at howed ⊢
      omega
    · intro j hj
      rcases List.mem_append.1 hj with hj | hj
      · exact (hs.accounted j hj).imp_left fun hw => List.mem_append_left _ hw
      · exact Or.inl (List.mem_append_right _ hj)
  | recv =>
    obtain ⟨-, hb, m, ch, hch, rfl⟩ := step_recv h
    refine ⟨hs.running, ?_, hs.once, ?_, hs.accounted, hs.replies⟩
    · simp [inFlight, hch, hb, horder]
    · simp [inFlight, hch, hb] at howed ⊢
      omega
  | send =>
    obtain ⟨-, m, hb, ⟨hnone, -⟩ | ⟨ans, ch, hA, hch, rfl⟩⟩ := step_send h
    · cases hnone
    · cases hA
      refine ⟨hs.running, ?_, hs.once, ?_, hs.accounted, ?_⟩
      · simp [inFlight, hch, hb, horder]
      · simp [inFlight, hch, hb] at howed ⊢
        omega
      · simp [hch, hs.replies]
  | take i =>
    obtain ⟨hi, m, ch, hch, rfl⟩ := step_take h
    refine ⟨hs.running, ?_, hs.once, ?_, ?_, ?_⟩
    · simp [inFlight, hch, horder]
    · rw [List.length_erase_of_mem hi, howed]
      simp [inFlight, hch]
    · intro j hj
      by_cases hji : j = i
      · exact Or.inr (by simp [hji])
      · refine (hs.accounted j hj).imp (fun hw => ?_) fun hr => ?_
        · exact (List.mem_erase_of_ne hji).2 hw
        · rw [List.map_append]
          exact List.mem_append_left _ hr
    · simp [hs.replies, hch]

theorem run_flow {m : σ} {as : List Action}
    (h : (appletLts (.always f) calls m).run (start m) as = some s) : Flow s :=
  Lts.run_inv (P := Flow) (fun _ a _ hs hst => step_flow a hs hst) (flow_start m) h

/-- **No deadlock**: while a connection has not finished, it can push its call, the applet can go on, or
a waiting connection can take a reply. -/
theorem Flow.progress (hs : Flow s) {i : Nat} (hi : i ∉ s.returned.map Prod.fst) :
    ∃ a ∈ [Action.push i, .recv, .send] ++ s.waiting.map .take,
      ∃ t, step (.always f) calls s a = some t := by
  by_cases hreply : s.appletReplyCh.buf = []
  · cases hb : s.busy with
    | some m =>
      -- the applet can put out its reply
      obtain ⟨ch, hch⟩ := s.appletReplyCh.send?_isSome (by simp [hreply])
        ⟨m.owner, (f s.mem m.val).2⟩
      refine ⟨.send, by simp, Option.isSome_iff_exists.1 ?_⟩
      simp only [step, hs.running, hb, finish, Applet.always, hch]
      rfl
    | none =>
      by_cases hrequest : s.appletRequestCh.buf = []
      · -- nothing is in flight, so the connection has not pushed its call yet
        have hflight : inFlight s = [] := by simp [inFlight, hreply, hb, hrequest]
        have hwaiting : s.waiting = [] := by
          rw [← List.length_eq_zero_iff, hs.owed, hflight, List.length_nil]
        have hpushed : i ∉ s.pushed := fun hp => (hs.accounted i hp).elim
          (fun hw => by rw [hwaiting] at hw; cases hw) hi
        obtain ⟨ch, hch⟩ := s.appletRequestCh.send?_isSome (by simp [hrequest]) ⟨i, calls i⟩
        refine ⟨.push i, by simp, Option.isSome_iff_exists.1 ?_⟩
        simp only [step, if_neg hpushed, hch]
        rfl
      · obtain ⟨m, ch, hch⟩ := s.appletRequestCh.recv?_isSome hrequest
        refine ⟨.recv, by simp, Option.isSome_iff_exists.1 ?_⟩
        simp only [step, hs.running, hb, hch]
        rfl
  · -- as many wait as there are replies to come
    have hne : s.waiting ≠ [] := by
      rw [← List.length_pos_iff, hs.owed, inFlight, List.length_append, List.length_append,
        List.length_map]
      have := List.length_pos_of_ne_nil hreply
      omega
    obtain ⟨j, hj⟩ := List.exists_mem_of_ne_nil _ hne
    obtain ⟨m, ch, hch⟩ := s.appletReplyCh.recv?_isSome hreply
    refine ⟨.take j, by simp [hj], Option.isSome_iff_exists.1 ?_⟩
    simp only [step, if_pos hj, hch]
    rfl

/-- What is in the channels and in the applet, and what has come out of them. -/
structure Conserved (f : σ → AppletCall → σ × String) (calls : Nat → AppletCall) (s : State σ) :
    Prop where
  requests : s.pushed.map (request calls) =
    s.returned.map (fun p => request calls p.2.owner) ++
      s.appletReplyCh.buf.map (fun m => request calls m.owner) ++
      s.busy.toList ++ s.appletRequestCh.buf
  once : s.pushed.Nodup
  replies : s.served.map (fun e => (e.owner, e.reply)) =
    (s.returned.map Prod.snd ++ s.appletReplyCh.buf).map fun m => (m.owner, some m.val)
  answers : ∀ e ∈ s.served, Genuine (.always f) calls e
  progress : ∀ i, i ∉ s.returned.map Prod.fst →
    ∃ a ∈ [Action.push i, .recv, .send] ++ s.waiting.map .take,
      ∃ t, step (.always f) calls s a = some t

theorem OwnCall.request {m : Tagged AppletCall} (h : OwnCall calls m) :
    TrustedOs.request calls m.owner = m := by
  obtain ⟨owner, val⟩ := m
  exact congrArg (Tagged.mk owner) (Eq.symm h)

/-- **No request and no reply is lost, duplicated or reordered, and the callers never deadlock**, for any
number of them and any interleaving. -/
theorem run_conserved {m : σ} {as : List Action}
    (h : (appletLts (.always f) calls m).run (start m) as = some s) : Conserved f calls s := by
  have hflow := run_flow h
  have hqueued := run_queued h
  refine ⟨?_, hflow.once, hflow.replies, hqueued.served, fun i hi => hflow.progress hi⟩
  have hbusy : s.busy.toList.map (fun m => request calls m.owner) = s.busy.toList := by
    cases hb : s.busy with
    | none => rfl
    | some m => exact congrArg (fun m => [m]) (hqueued.busy m hb).request
  have hrequests : s.appletRequestCh.buf.map (fun m => request calls m.owner) =
      s.appletRequestCh.buf := by
    conv_rhs => rw [← List.map_id s.appletRequestCh.buf]
    exact List.map_congr_left fun m hm => (hqueued.requests m hm).request
  calc s.pushed.map (request calls)
      = (s.returned.map (fun p => p.2.owner) ++ inFlight s).map (request calls) := by
        rw [hflow.order]
    _ = s.returned.map (fun p => request calls p.2.owner) ++
          s.appletReplyCh.buf.map (fun m => request calls m.owner) ++
          s.busy.toList.map (fun m => request calls m.owner) ++
          s.appletRequestCh.buf.map (fun m => request calls m.owner) := by
        simp [inFlight, Function.comp_def]
    _ = _ := by rw [hbusy, hrequests]

end

/-- Two connections: the reply to the first is out while the applet has the call of the second. -/
theorem run_conserved_two : ∃ s,
    (appletLts (.always fun (_ : Unit) c => ((), c.input)) (fun _ => ⟨"Echo", "hi"⟩) ()).run (start ())
        [.push 0, .recv, .push 1, .send, .recv] = some s ∧
      s.appletReplyCh.buf = [⟨0, "hi"⟩] ∧ s.busy = some ⟨1, "Echo", "hi"⟩ ∧
      Conserved (fun (_ : Unit) c => ((), c.input)) (fun _ => ⟨"Echo", "hi"⟩) s :=
  ⟨_, rfl, rfl, rfl, @run_conserved Unit _ _ _ () [.push 0, .recv, .push 1, .send, .recv] rfl⟩

end SealedSky.TrustedOs
