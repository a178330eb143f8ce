import SealedSky.Lib.Lts
import SealedSky.Lib.Chan

/-!
# The applet channels (`docker/trusted_os/rpc.go`, `bridge.go`)

Every bridge connection whose method is not `__upload` runs `CallApplet` in a goroutine of its own:
it pushes its call onto `appletRequestCh` and then receives from `appletReplyCh`, two separate
channel operations with no lock and no request id. The applet alternates `RPC.Recv` and `RPC.Send`.
Both channels are buffered to depth 1. A run of `appletLts` is any interleaving of these operations,
for any number of connections; which waiting connection takes a reply is up to the run.

Messages carry the connection they belong to. The tag is history only: no step reads it.

* `Queued`, `run_queued` — requests are served in the order pushed, and the replies carry the
  callers' own calls.
* `fifo_run` — if replies are taken in the order of the pushes and no reply is lost, every caller
  gets its own.
* `callApplet_own_iff` — for an applet that answers every call, the callers get their own replies
  exactly in the runs that take every reply in the order of the pushes.
-/
namespace SealedSky.TrustedOs

/-- `AppletCall` (rpc.go:29). -/
structure AppletCall where
  method : String
  input : String
  deriving DecidableEq

/-- `bridgeRequest` (bridge.go:25). -/
structure BridgeRequest where
  method : String
  input : String
  deriving DecidableEq

/-- The dispatch of `handleBridgeConn` (bridge.go:61): `__upload` is intercepted, every other
method goes to `CallApplet`. -/
def BridgeRequest.appletCall? (req : BridgeRequest) : Option AppletCall :=
  if req.method = "__upload" then none else some ⟨req.method, req.input⟩

/-- A message and the connection whose call it belongs to. -/
structure Tagged (α : Type) where
  owner : Nat
  val : α
  deriving DecidableEq

/-- One turn of the applet's loop on a call: the memory it leaves, the bytes its handler put out,
and the string its `RPC.Send` delivers, if that message reaches `RPC.Send` at all. -/
structure Answer (σ : Type) where
  mem : σ
  output : List UInt8
  reply : Option String

/-- The applet as the Trusted OS sees it; `none` is a turn that ends the applet. -/
abbrev Applet (σ : Type) := σ → AppletCall → Option (Answer σ)

/-- An applet whose every turn delivers a reply. -/
def Applet.always {σ : Type} (f : σ → AppletCall → σ × String) : Applet σ := fun m c =>
  some ⟨(f m c).1, (f m c).2.toUTF8.data.toList, some (f m c).2⟩

/-- History of the applet's turns: whose call, and what came of it. -/
structure Served where
  owner : Nat
  output : List UInt8
  reply : Option String
  deriving DecidableEq

structure State (σ : Type) where
  appletRequestCh : Chan (Tagged AppletCall) 1
  appletReplyCh : Chan (Tagged String) 1
  mem : σ
  /-- The call between its `RPC.Recv` and its `RPC.Send`. -/
  busy : Option (Tagged AppletCall)
  stopped : Bool
  /-- Connections whose call has been pushed, in order. -/
  pushed : List Nat
  /-- Those of them still at `<-appletReplyCh`, the longest waiting first. -/
  waiting : List Nat
  /-- What each finished `CallApplet` returned. -/
  returned : List (Nat × Tagged String)
  served : List Served

inductive Action where
  /-- `appletRequestCh <- AppletCall{…}` by connection `i` (rpc.go:69). -/
  | push (i : Nat)
  /-- `RPC.Recv` (rpc.go:52). -/
  | recv
  /-- The handler's turn and `RPC.Send` (rpc.go:60). -/
  | send
  /-- `<-appletReplyCh` by connection `i` (rpc.go:70). -/
  | take (i : Nat)
  deriving DecidableEq

section
variable {σ : Type} (A : Applet σ) (calls : Nat → AppletCall)

/-- The end of a turn: `RPC.Send` blocks while `appletReplyCh` is full. A turn without a reply
leaves the channels alone; a turn that ends the applet keeps its call for good. -/
def finish (s : State σ) (m : Tagged AppletCall) : Option (State σ) :=
  match A s.mem m.val with
  | none => some { s with stopped := true }
  | some a =>
    match a.reply with
    | none => some { s with
        mem := a.mem, busy := none, served := s.served ++ [⟨m.owner, a.output, none⟩] }
    | some r =>
      match s.appletReplyCh.send? ⟨m.owner, r⟩ with
      | none => none
      | some ch => some { s with
          appletReplyCh := ch, mem := a.mem, busy := none,
          served := s.served ++ [⟨m.owner, a.output, some r⟩] }

def step (s : State σ) : Action → Option (State σ)
  | .push i =>
    if i ∈ s.pushed then none
    else match s.appletRequestCh.send? ⟨i, calls i⟩ with
      | none => none
      | some ch => some { s with
          appletRequestCh := ch, pushed := s.pushed ++ [i], waiting := s.waiting ++ [i] }
  | .recv =>
    if s.stopped then none
    else match s.busy, s.appletRequestCh.recv? with
      | none, some (m, ch) => some { s with appletRequestCh := ch, busy := some m }
      | _, _ => none
  | .send =>
    if s.stopped then none
    else match s.busy with
      | none => none
      | some m => finish A s m
  | .take i =>
    if i ∈ s.waiting then
      match s.appletReplyCh.recv? with
      | none => none
      | some (m, ch) => some { s with
          appletReplyCh := ch, waiting := s.waiting.erase i, returned := s.returned ++ [(i, m)] }
    else none

/-- The channels empty, the applet at its first `RPC.Recv`, no connection yet. -/
def start (m : σ) : State σ :=
  ⟨.empty, .empty, m, none, false, [], [], [], []⟩

def appletLts (m : σ) : Lts (State σ) Action := ⟨start m, step A calls⟩

end

/-! ## What each step does -/

section
variable {σ : Type} {A : Applet σ} {calls : Nat → AppletCall} {s t : State σ}

theorem step_push {i : Nat} (h : step A calls s (.push i) = some t) :
    i ∉ s.pushed ∧ ∃ ch, ch.buf = s.appletRequestCh.buf ++ [⟨i, calls i⟩] ∧
      t = { s with appletRequestCh := ch, pushed := s.pushed ++ [i], waiting := s.waiting ++ [i] } := by
  simp only [step] at h
  split at h
  · cases h
  · rename_i hi
    split at h
    · cases h
    · rename_i ch hch
      cases h
      exact ⟨hi, ch, Chan.send?_eq_some hch, rfl⟩

theorem step_recv (h : step A calls s .recv = some t) :
    s.stopped = false ∧ s.busy = none ∧ ∃ m ch, s.appletRequestCh.buf = m :: ch.buf ∧
      t = { s with appletRequestCh := ch, busy := some m } := by
  simp only [step] at h
  split at h
  · cases h
  · rename_i hst
    split at h
    · rename_i m ch hb hr
      cases h
      exact ⟨by simpa using hst, hb, m, ch, Chan.recv?_eq_some hr, rfl⟩
    · cases h

/-- A turn ends the applet, or is logged and leaves no call pending, with its reply, if it has
one, last in `appletReplyCh`. -/
theorem step_send (h : step A calls s .send = some t) :
    s.stopped = false ∧ ∃ m, s.busy = some m ∧
      ((A s.mem m.val = none ∧ t = { s with stopped := true }) ∨
       ∃ a ch, A s.mem m.val = some a ∧
         ch.buf = s.appletReplyCh.buf ++ (a.reply.map (⟨m.owner, ·⟩)).toList ∧
         t = { s with
           appletReplyCh := ch, mem := a.mem, busy := none,
           served := s.served ++ [⟨m.owner, a.output, a.reply⟩] }) := by
  simp only [step] at h
  split at h
  · cases h
  · rename_i hst
    split at h
    · cases h
    · rename_i m hb
      refine ⟨by simpa using hst, m, hb, ?_⟩
      unfold finish at h
      split at h
      · rename_i hA
        cases h
        exact Or.inl ⟨hA, rfl⟩
      · rename_i a hA
        right
        split at h
        · rename_i hr
          cases h
          exact ⟨a, s.appletReplyCh, hA, by simp [hr], by simp [hr]⟩
        · rename_i r hr
          split at h
          · cases h
          · rename_i ch hch
            cases h
            exact ⟨a, ch, hA, by simp [hr, Chan.send?_eq_some hch], by simp [hr]⟩

theorem step_take {i : Nat} (h : step A calls s (.take i) = some t) :
    i ∈ s.waiting ∧ ∃ m ch, s.appletReplyCh.buf = m :: ch.buf ∧
      t = { s with
        appletReplyCh := ch, waiting := s.waiting.erase i, returned := s.returned ++ [(i, m)] } := by
  simp only [step] at h
  split at h
  · rename_i hi
    split at h
    · cases h
    · rename_i m ch hr
      cases h
      exact ⟨hi, m, ch, Chan.recv?_eq_some hr, rfl⟩
  · cases h

/-! ## Every run: calls and replies keep their tags -/

/-- The call tagged `i` is connection `i`'s own. -/
def OwnCall (calls : Nat → AppletCall) (m : Tagged AppletCall) : Prop := m.val = calls m.owner

/-- The reply tagged `i` is one the applet gave to connection `i`'s call. -/
def OwnAnswer (s : State σ) (m : Tagged String) : Prop :=
  ∃ e ∈ s.served, e.owner = m.owner ∧ e.reply = some m.val

/-- The applet did answer the call of the entry's owner with what the entry says. -/
def Genuine (A : Applet σ) (calls : Nat → AppletCall) (e : Served) : Prop :=
  ∃ mem a, A mem (calls e.owner) = some a ∧ a.output = e.output ∧ a.reply = e.reply

structure Queued (A : Applet σ) (calls : Nat → AppletCall) (s : State σ) : Prop where
  requests : ∀ m ∈ s.appletRequestCh.buf, OwnCall calls m
  busy : ∀ m, s.busy = some m → OwnCall calls m
  served : ∀ e ∈ s.served, Genuine A calls e
  replies : ∀ m ∈ s.appletReplyCh.buf, OwnAnswer s m
  returned : ∀ p ∈ s.returned, OwnAnswer s p.2

theorem queued_start (m : σ) : Queued A calls (start m) := by
  constructor <;> simp [start]

theorem OwnAnswer.served_append {m : Tagged String} (h : OwnAnswer s m) (e : Served)
    (ht : t.served = s.served ++ [e]) : OwnAnswer t m := by
  obtain ⟨e', he', ho, hr⟩ := h
  exact ⟨e', by rw [ht]; exact List.mem_append_left _ he', ho, hr⟩

theorem step_queued (a : Action) (hs : Queued A calls s) (h : step A calls s a = some t) :
    Queued A calls t := by
  cases a with
  | push i =>
    obtain ⟨-, ch, hch, rfl⟩ := step_push h
    refine ⟨fun m hm => ?_, hs.busy, hs.served, hs.replies, hs.returned⟩
    simp only [hch, List.mem_append, List.mem_singleton] at hm
    rcases hm with hm | rfl
    · exact hs.requests m hm
    · rfl
  | recv =>
    obtain ⟨-, -, m, ch, hch, rfl⟩ := step_recv h
    refine ⟨fun m' hm' => hs.requests m' (by simp [hch, hm']), fun m' hm' => ?_,
      hs.served, hs.replies, hs.returned⟩
    simp only [Option.some.injEq] at hm'
    subst hm'
    exact hs.requests m (by simp [hch])
  | send =>
    obtain ⟨-, m, hb, ⟨-, rfl⟩ | ⟨ans, ch, hA, hch, rfl⟩⟩ := step_send h
    · exact ⟨hs.requests, hs.busy, hs.served, hs.replies, hs.returned⟩
    · have hown : m.val = calls m.owner := hs.busy m hb
      refine ⟨hs.requests, by simp, fun e he => ?_, fun m' hm' => ?_, fun p hp => ?_⟩
      · simp only [List.mem_append, List.mem_singleton] at he
        rcases he with he | rfl
        · exact hs.served e he
        · exact ⟨s.mem, ans, hown ▸ hA, rfl, rfl⟩
      · simp only [hch, List.mem_append] at hm'
        rcases hm' with hm' | hm'
        · exact (hs.replies m' hm').served_append _ rfl
        · simp only [Option.mem_toList, Option.map_eq_some_iff] at hm'
          obtain ⟨r, hr, rfl⟩ := hm'
          exact ⟨⟨m.owner, ans.output, ans.reply⟩, by simp, rfl, hr⟩
      · exact (hs.returned p hp).served_append _ rfl
  | take i =>
    obtain ⟨-, m, ch, hch, rfl⟩ := step_take h
    refine ⟨hs.requests, hs.busy, hs.served, fun m' hm' => hs.replies m' (by simp [hch, hm']),
      fun p hp => ?_⟩
    simp only [List.mem_append, List.mem_singleton] at hp
    rcases hp with hp | rfl
    · exact hs.returned p hp
    · exact hs.replies m (by simp [hch])

theorem run_queued {m : σ} {as : List Action}
    (h : (appletLts A calls m).run (start m) as = some s) : Queued A calls s :=
  Lts.run_inv (P := Queued A calls) (fun _ a _ hs hst => step_queued a hs hst) (queued_start m) h

/-! ## Which caller gets which reply -/

/-- Whose replies are out or owed, in the order of the pushes. -/
def inFlight (s : State σ) : List Nat :=
  s.appletReplyCh.buf.map Tagged.owner ++ s.busy.toList.map Tagged.owner ++
    s.appletRequestCh.buf.map Tagged.owner

/-- A reply is taken by the connection that has waited longest. -/
def OldestFirst (s : State σ) : Action → Prop
  | .take i => s.waiting.head? = some i
  | _ => True

instance (s : State σ) : ∀ a, Decidable (OldestFirst s a)
  | .take i => inferInstanceAs (Decidable (s.waiting.head? = some i))
  | .push _ | .recv | .send => .isTrue trivial

/-- A turn that does not end the applet delivers a reply. -/
def Replies (A : Applet σ) (s : State σ) : Action → Prop
  | .send => ∀ m a, s.busy = some m → A s.mem m.val = some a → a.reply.isSome
  | _ => True

/-- The callers wait in the order of the replies to come, and those served got their own. -/
structure Paired (s : State σ) : Prop where
  order : s.waiting = inFlight s
  own : ∀ p ∈ s.returned, p.2.owner = p.1

theorem paired_start (m : σ) : Paired (start m) := by
  constructor <;> simp [start, inFlight]

/-- The reply about to be taken belongs to the longest waiting connection. -/
theorem Paired.head {m : Tagged String} {ch : Chan (Tagged String) 1} (hs : Paired s)
    (hch : s.appletReplyCh.buf = m :: ch.buf) : s.waiting.head? = some m.owner := by
  rw [hs.order]
  simp [inFlight, hch]

theorem step_paired (a : Action) (hs : Paired s) (hold : OldestFirst s a) (hrep : Replies A s a)
    (h : step A calls s a = some t) : Paired t := by
  have ho := hs.order
  cases a with
  | push i =>
    obtain ⟨-, ch, hch, rfl⟩ := step_push h
    refine ⟨?_, hs.own⟩
    simp [inFlight, hch, ho]
  | recv =>
    obtain ⟨-, hb, m, ch, hch, rfl⟩ := step_recv h
    refine ⟨?_, hs.own⟩
    simp [inFlight, hch, hb, ho]
  | send =>
    obtain ⟨-, m, hb, ⟨-, rfl⟩ | ⟨ans, ch, hA, hch, rfl⟩⟩ := step_send h
    · exact ⟨ho, hs.own⟩
    · obtain ⟨r, hr⟩ := Option.isSome_iff_exists.1 (hrep m ans hb hA)
      refine ⟨?_, hs.own⟩
      simp [inFlight, hch, hb, hr, ho]
  | take i =>
    obtain ⟨hi, m, ch, hch, rfl⟩ := step_take h
    have hown : m.owner = i := Option.some.inj ((hs.head hch).symm.trans hold)
    refine ⟨?_, fun p hp => ?_⟩
    · simp [inFlight, hch, ho, hown]
    · simp only [List.mem_append, List.mem_singleton] at hp
      rcases hp with hp | rfl
      · exact hs.own p hp
      · exact hown

/-- **First come, first served.** If every reply is taken by the connection that has waited longest
and no reply is lost, every connection that got a reply got its own. -/
theorem fifo_run {m : σ} {as : List Action}
    (hold : (appletLts A calls m).Meets OldestFirst (start m) as)
    (hrep : (appletLts A calls m).Meets (Replies A) (start m) as)
    (h : (appletLts A calls m).run (start m) as = some s) : Paired s :=
  Lts.run_inv_of_meets (P := Paired) (fun _ a _ hs hg hst => step_paired a hs hg.1 hg.2 hst)
    (paired_start m) (hold.and hrep) h

theorem step_returned (a : Action) (h : step A calls s a = some t) :
    ∀ p ∈ s.returned, p ∈ t.returned := by
  intro p hp
  cases a with
  | push i => obtain ⟨-, ch, -, rfl⟩ := step_push h; exact hp
  | recv => obtain ⟨-, -, m, ch, -, rfl⟩ := step_recv h; exact hp
  | send => obtain ⟨-, m, -, ⟨-, rfl⟩ | ⟨ans, ch, -, -, rfl⟩⟩ := step_send h <;> exact hp
  | take i =>
    obtain ⟨-, m, ch, -, rfl⟩ := step_take h
    exact List.mem_append_left _ hp

theorem run_returned {m : σ} {as : List Action} (h : (appletLts A calls m).run s as = some t) :
    ∀ p ∈ s.returned, p ∈ t.returned :=
  fun p hp => Lts.run_inv (P := fun u => p ∈ u.returned)
    (fun _ a _ hu hst => step_returned a hst p hu) hp h

end

section
variable {σ : Type} (f : σ → AppletCall → σ × String) (calls : Nat → AppletCall)

theorem replies_always (s : State σ) (a : Action) : Replies (.always f) s a := by
  cases a with
  | send =>
    intro m ans _ hA
    simp only [Applet.always, Option.some.injEq] at hA
    simp [← hA]
  | push i => trivial
  | recv => trivial
  | take i => trivial

/-- The converse of `fifo_run`: in a run that paired every caller with its own reply, every reply
was taken by the connection that had waited longest. -/
theorem oldestFirst_of_own (m : σ) : ∀ (as : List Action) (s t : State σ), Paired s →
    (appletLts (.always f) calls m).run s as = some t → (∀ p ∈ t.returned, p.2.owner = p.1) →
    (appletLts (.always f) calls m).Meets OldestFirst s as
  | [], _, _, _, _, _ => trivial
  | a :: as, s, t, hs, h, hown => by
    obtain ⟨u, hsu, hut⟩ := (Lts.run_cons _).1 h
    change step (.always f) calls s a = some u at hsu
    have hold : OldestFirst s a := by
      cases a with
      | take i =>
        obtain ⟨-, r, ch, hch, rfl⟩ := step_take hsu
        have hr : r.owner = i := hown (i, r) (run_returned hut (i, r) (by simp))
        exact hr ▸ hs.head hch
      | push i => trivial
      | recv => trivial
      | send => trivial
    refine (Lts.meets_cons _ hsu).2 ⟨hold, ?_⟩
    exact oldestFirst_of_own m as u t (step_paired a hs hold (replies_always f s a) hsu) hut hown

/-- **Who gets whose reply.** For an applet that answers every call, any number of connections and
any interleaving: each `CallApplet` returned the applet's reply to its own call if and only if
every reply was taken by the connection whose push was the oldest of those still waiting. -/
theorem callApplet_own_iff (m : σ) (as : List Action) (s : State σ)
    (h : (appletLts (.always f) calls m).run (start m) as = some s) :
    (∀ p ∈ s.returned, p.2.owner = p.1 ∧ ∃ mem, (f mem (calls p.1)).2 = p.2.val) ↔
      (appletLts (.always f) calls m).Meets OldestFirst (start m) as := by
  constructor
  · intro hown
    exact oldestFirst_of_own f calls m as _ _ (paired_start m) h fun p hp => (hown p hp).1
  · intro hold p hp
    have hrep : (appletLts (.always f) calls m).Meets (Replies (.always f)) (start m) as :=
      Lts.meets_of_mem fun s a _ => replies_always f s a
    have hp1 : p.2.owner = p.1 := (fifo_run hold hrep h).own p hp
    refine ⟨hp1, ?_⟩
    obtain ⟨e, he, ho, hr⟩ := (run_queued h).returned p hp
    obtain ⟨mem, ans, hA, -, ha⟩ := (run_queued h).served e he
    simp only [Applet.always, Option.some.injEq] at hA
    refine ⟨mem, ?_⟩
    rw [hr, ← hA, ho, hp1] at ha
    exact Option.some.inj ha

/-- What two connections ask. -/
def echoCalls (i : Nat) : AppletCall := ⟨"Echo", if i = 0 then "hi" else "there"⟩

/-- The second call waits while the first is served. -/
def echoRun : List Action :=
  [.push 0, .recv, .push 1, .send, .take 0, .recv, .send, .take 1]

theorem callApplet_own_two :
    (∀ p ∈ [(0, (⟨0, "hi"⟩ : Tagged String)), (1, ⟨1, "there"⟩)],
        p.2.owner = p.1 ∧ ∃ _mem : Unit, (echoCalls p.1).input = p.2.val) ↔
      (appletLts (.always fun (_ : Unit) c => ((), c.input)) echoCalls ()).Meets
        OldestFirst (start ()) echoRun :=
  callApplet_own_iff (fun _ c => ((), c.input)) echoCalls () echoRun _ rfl

/-- Connection 0 is served first, but connection 1, already waiting, takes its reply. -/
theorem callApplet_crossed :
    ¬ ∀ (f : Unit → AppletCall → Unit × String) (calls : Nat → AppletCall) (as : List Action)
        (s : State Unit), (appletLts (.always f) calls ()).run (start ()) as = some s →
        ∀ p ∈ s.returned, p.2.owner = p.1 ∧ ∃ mem, (f mem (calls p.1)).2 = p.2.val := by
  intro hall
  obtain ⟨-, mem, hmem⟩ := hall (fun _ c => ((), c.input)) (fun i => ⟨"Echo", if i = 0 then "a" else "b"⟩)
    [.push 0, .recv, .push 1, .send, .take 1] _ rfl (1, ⟨0, "a"⟩) (List.mem_singleton_self _)
  exact absurd hmem (by decide)

end

/-- "Exactly one call is in flight at a time" (rpc.go:43): no push while a caller waits. -/
def OneInFlight {σ : Type} (s : State σ) : Action → Prop
  | .push _ => s.waiting = []
  | _ => True

/-- What the comment on the channels assumes is enough, whatever the applet. -/
theorem oldestFirst_of_oneInFlight {σ : Type} {A : Applet σ} {calls : Nat → AppletCall} {m : σ} :
    ∀ {as : List Action} {s t : State σ}, s.waiting.length ≤ 1 →
      (appletLts A calls m).Meets OneInFlight s as → (appletLts A calls m).run s as = some t →
      (appletLts A calls m).Meets OldestFirst s as
  | [], _, _, _, _, _ => trivial
  | a :: as, s, t, hw, hone, h => by
    obtain ⟨u, hsu, hut⟩ := (Lts.run_cons _).1 h
    obtain ⟨hg, hone'⟩ := (Lts.meets_cons _ hsu).1 hone
    change step A calls s a = some u at hsu
    refine (Lts.meets_cons _ hsu).2 ⟨?_, oldestFirst_of_oneInFlight ?_ hone' hut⟩
    · cases a with
      | take i =>
        obtain ⟨hi, -⟩ := step_take hsu
        obtain ⟨j, hj⟩ := List.length_eq_one_iff.1 (Nat.le_antisymm hw (List.length_pos_of_mem hi))
        rw [hj, List.mem_singleton] at hi
        simp [OldestFirst, hj, hi]
      | push i => trivial
      | recv => trivial
      | send => trivial
    · cases a with
      | push i =>
        obtain ⟨-, ch, -, rfl⟩ := step_push hsu
        have hg' : s.waiting = [] := hg
        simp [hg']
      | recv => obtain ⟨-, -, r, ch, -, rfl⟩ := step_recv hsu; exact hw
      | send =>
        obtain ⟨-, r, -, ⟨-, rfl⟩ | ⟨ans, ch, -, -, rfl⟩⟩ := step_send hsu <;> exact hw
      | take i =>
        obtain ⟨-, r, ch, -, rfl⟩ := step_take hsu
        exact Nat.le_trans (List.length_erase_le ..) hw

end SealedSky.TrustedOs
