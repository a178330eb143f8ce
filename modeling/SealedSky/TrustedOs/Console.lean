import SealedSky.Lib.Lines
import SealedSky.Lib.Lts

/-!
# The console behind the exception handler (`docker/trusted_os/handler.go`)

Both worlds write to one console, byte by byte: the applet with `svc`, the Normal World with `smc`.
`appletHandler` gives each of them a buffer, and a finished line is logged under `TA` or `OS`. An
interleaving is a list of exceptions, each of which says what its context is; `monitor.SecureHandler`,
which gets the system calls that are left, is a parameter and writes nothing here.

* `appletHandler_view` — what one exception does to the console of either world.
* `console_separated` — what is logged under a prefix are the lines that world wrote, and nothing of
  it depends on the other world.
-/
namespace SealedSky.TrustedOs.Console

open Lines

/-! ## The handler -/

/-- The offset of the data abort in the ARM vector table. -/
def DATA_ABORT : Nat := 0x10

/-- The offset of the supervisor call. -/
def SUPERVISOR : Nat := 0x8

def SYS_EXIT : UInt32 := 0

def SYS_WRITE : UInt32 := 1

/-- What the handler reads of a `monitor.ExecCtx`: why and where it stopped, its world, and the first
two registers. -/
structure ExecCtx where
  exceptionVector : Nat
  nonSecure : Bool
  r15 : UInt32
  a0 : UInt32
  a1 : UInt32
  deriving DecidableEq

/-- An entry of the log: `log.Printf("%s %s", prefix, string(*buf))`, the notice of a trapped abort,
and `log.Print(ctx)`. -/
inductive Entry where
  | line (tag : String) (buf : List UInt8)
  | trapped (pc : UInt32)
  | context (ctx : ExecCtx)
  deriving DecidableEq

/-- `secureBuf`, `nonsecureBuf`, and what has been logged. -/
structure State where
  secureBuf : List UInt8
  nonsecureBuf : List UInt8
  log : List Entry
  deriving DecidableEq

def State.start : State := ⟨[], [], []⟩

/-- The buffer `buf` points to. -/
def State.buf (s : State) (secure : Bool) : List UInt8 :=
  if secure then s.secureBuf else s.nonsecureBuf

/-- `*buf = bs`. -/
def State.setBuf (s : State) (secure : Bool) (bs : List UInt8) : State :=
  if secure then { s with secureBuf := bs } else { s with nonsecureBuf := bs }

def State.print (s : State) (e : Entry) : State := { s with log := s.log ++ [e] }

/-- `prefix`. -/
def tag (secure : Bool) : String := if secure then "TA" else "OS"

/-- `b == '\n' || b == '\r'`. -/
def isTerminator (b : UInt8) : Bool := b = 10 ∨ b = 13

/-- `bufferedLog` (handler.go:56). -/
def bufferedLog (b : UInt8) (secure : Bool) (s : State) : State :=
  let s := s.setBuf secure (s.buf secure ++ [b])
  if isTerminator b then
    let s := if (s.buf secure).length > 1 then s.print (.line (tag secure) (s.buf secure)) else s
    s.setBuf secure []
  else s

/-- What the handler answers the monitor: go on, `ctx.Stop()`, or an error. -/
inductive Outcome where
  | resume
  | stop
  | error (msg : String)
  deriving DecidableEq

/-- `appletHandler` (handler.go:20). -/
def appletHandler (secureHandler : ExecCtx → Outcome) (ctx : ExecCtx) (s : State) : State × Outcome :=
  if ctx.exceptionVector = DATA_ABORT ∧ ctx.nonSecure then
    ((s.print (.trapped (ctx.r15 - 8))).print (.context ctx), .stop)
  else if ctx.exceptionVector ≠ SUPERVISOR then
    (s, .error ("unexpected exception " ++ String.ofList (Nat.toDigits 16 ctx.exceptionVector)))
  else if ctx.a0 = SYS_WRITE then
    (bufferedLog ctx.a1.toUInt8 (!ctx.nonSecure) s, .resume)
  else if ctx.a0 = SYS_EXIT then (s, .stop)
  else if ctx.nonSecure then
    (s.print (.context ctx), .error "unexpected monitor call from Normal World")
  else (s, secureHandler ctx)

/-- The console as the monitor drives it, whichever world stops next. -/
def consoleLts (secureHandler : ExecCtx → Outcome) : Lts State ExecCtx where
  init := .start
  step s ctx := some (appletHandler secureHandler ctx s).1

/-! ## What a world writes and what is shown of it -/

/-- The byte that the exception asks to be written for the world. -/
def ExecCtx.written (secure : Bool) (ctx : ExecCtx) : Option UInt8 :=
  if ctx.exceptionVector = SUPERVISOR ∧ ctx.a0 = SYS_WRITE ∧ ctx.nonSecure = !secure then
    some ctx.a1.toUInt8
  else none

/-- The line, if it is one under the world's prefix. -/
def Entry.shown (secure : Bool) : Entry → Option (List UInt8)
  | .line t bs => if t = tag secure then some bs else none
  | .trapped _ => none
  | .context _ => none

def State.lines (s : State) (secure : Bool) : List (List UInt8) := s.log.filterMap (Entry.shown secure)

/-- What a world has on the console: its lines, and the bytes that wait for a terminator. -/
def State.view (secure : Bool) (s : State) : List (List UInt8) × List UInt8 :=
  (s.lines secure, s.buf secure)

/-- A terminator alone is no line. -/
def keep (l : List UInt8) : Bool := l.length ≠ 1

@[simp] theorem tag_inj {v w : Bool} : tag v = tag w ↔ v = w := by
  revert v w
  decide

@[simp] theorem buf_setBuf (s : State) (v w : Bool) (bs : List UInt8) :
    (s.setBuf v bs).buf w = if v = w then bs else s.buf w := by
  cases v <;> cases w <;> rfl

@[simp] theorem log_setBuf (s : State) (v : Bool) (bs : List UInt8) : (s.setBuf v bs).log = s.log := by
  cases v <;> rfl

@[simp] theorem buf_print (s : State) (e : Entry) (w : Bool) : (s.print e).buf w = s.buf w := rfl

@[simp] theorem log_print (s : State) (e : Entry) : (s.print e).log = s.log ++ [e] := rfl

@[simp] theorem view_print {w : Bool} {e : Entry} (he : e.shown w = none) (s : State) :
    (s.print e).view w = s.view w := by
  simp [State.view, State.lines, he]

/-- What a byte does to the buffers. -/
theorem buf_bufferedLog (b : UInt8) (v w : Bool) (s : State) :
    (bufferedLog b v s).buf w =
      if v = w then if isTerminator b then [] else s.buf v ++ [b] else s.buf w := by
  unfold bufferedLog
  by_cases hw : v = w
  · by_cases hb : isTerminator b
    · simp [hb, hw]
    · simp [hb, hw]
  · by_cases hb : isTerminator b
    · simp only [hb, if_true, buf_setBuf, if_neg hw]
      split
      · simp [hw]
      · simp [hw]
    · simp [hb, hw]

/-- What a byte does to the log. -/
theorem log_bufferedLog (b : UInt8) (v : Bool) (s : State) :
    (bufferedLog b v s).log =
      if isTerminator b ∧ 1 < (s.buf v ++ [b]).length then s.log ++ [.line (tag v) (s.buf v ++ [b])]
      else s.log := by
  unfold bufferedLog
  by_cases hb : isTerminator b
  · simp only [hb, if_true, true_and, buf_setBuf, log_setBuf]
    split
    · rw [log_print, log_setBuf]
    · rw [log_setBuf]
  · simp [hb]

/-- A byte is one step of the world that wrote it. -/
theorem bufferedLog_own (b : UInt8) (secure : Bool) (s : State) :
    (bufferedLog b secure s).view secure = collect isTerminator keep (s.view secure) b := by
  have hkeep : keep (s.buf secure ++ [b]) = decide (1 < (s.buf secure ++ [b]).length) := by
    simp [keep, List.length_pos_iff]
  unfold State.view State.lines collect
  rw [buf_bufferedLog, log_bufferedLog, if_pos rfl]
  by_cases hb : isTerminator b
  · by_cases hlen : 1 < (s.buf secure ++ [b]).length
    · simp only [hb, hlen, hkeep, and_self, if_true, List.filterMap_append, List.filterMap_cons,
        Entry.shown, List.filterMap_nil, List.filter_cons, decide_true, List.filter_nil]
    · simp only [hb, hlen, hkeep, and_false, if_true, if_false, List.filter_cons, decide_false,
        Bool.false_eq_true, List.filter_nil, List.append_nil]
  · simp only [hb, Bool.false_eq_true, false_and, if_false]

/-- A byte of one world leaves the console of the other alone. -/
theorem bufferedLog_foreign (b : UInt8) {v w : Bool} (hw : v ≠ w) (s : State) :
    (bufferedLog b v s).view w = s.view w := by
  unfold State.view State.lines
  rw [buf_bufferedLog, log_bufferedLog, if_neg hw]
  split
  · simp [Entry.shown, hw]
  · rfl

/-- **What an exception does to the console of either world.** -/
theorem appletHandler_view (secureHandler : ExecCtx → Outcome) (ctx : ExecCtx) (s : State)
    (secure : Bool) :
    (appletHandler secureHandler ctx s).1.view secure =
      match ctx.written secure with
      | some b => collect isTerminator keep (s.view secure) b
      | none => s.view secure := by
  unfold appletHandler ExecCtx.written
  by_cases habort : ctx.exceptionVector = DATA_ABORT ∧ ctx.nonSecure
  · have hsvc : ctx.exceptionVector ≠ SUPERVISOR := by
      rw [habort.1]
      decide
    rw [if_pos habort, if_neg (fun h => hsvc h.1)]
    simp only
    rw [view_print rfl, view_print rfl]
  rw [if_neg habort]
  by_cases hsvc : ctx.exceptionVector = SUPERVISOR
  · rw [if_neg (not_not_intro hsvc)]
    by_cases hwrite : ctx.a0 = SYS_WRITE
    · rw [if_pos hwrite]
      by_cases hworld : ctx.nonSecure = !secure
      · rw [if_pos ⟨hsvc, hwrite, hworld⟩, hworld, Bool.not_not]
        exact bufferedLog_own _ secure s
      · rw [if_neg (fun h => hworld h.2.2)]
        refine bufferedLog_foreign _ (fun h => hworld ?_) s
        rw [← h, Bool.not_not]
    · have hnone : ¬ (ctx.exceptionVector = SUPERVISOR ∧ ctx.a0 = SYS_WRITE ∧
          ctx.nonSecure = !secure) := fun h => hwrite h.2.1
      rw [if_neg hwrite, if_neg hnone]
      by_cases hexit : ctx.a0 = SYS_EXIT
      · rw [if_pos hexit]
      · rw [if_neg hexit]
        by_cases hns : ctx.nonSecure
        · rw [if_pos hns]
          exact view_print rfl s
        · rw [if_neg hns]
  · rw [if_pos hsvc, if_neg (fun h => hsvc h.1)]

/-- The console of a world after a run, put together from its own bytes. -/
theorem view_of_run {secureHandler : ExecCtx → Outcome} {ctxs : List ExecCtx} {s : State}
    (h : (consoleLts secureHandler).run .start ctxs = some s) (secure : Bool) :
    s.view secure = ((cuts isTerminator (ctxs.filterMap (ExecCtx.written secure))).filter keep,
      rest isTerminator (ctxs.filterMap (ExecCtx.written secure))) := by
  have hstart : State.start.view secure = ([], []) := by
    cases secure
    · rfl
    · rfl
  have hstep : ∀ {u t : State} {ctx : ExecCtx}, (consoleLts secureHandler).step u ctx = some t →
      t = (appletHandler secureHandler ctx u).1 := fun h => (Option.some.inj h).symm
  rw [← foldl_collect, ← hstart]
  refine Lts.run_view (S := consoleLts secureHandler) ?_ ?_ h
  · intro u ctx t b h hb
    rw [hstep h, appletHandler_view, hb]
  · intro u ctx t h hb
    rw [hstep h, appletHandler_view, hb]

/-- Of a line that ends in CR LF, the LF is a cut of its own. -/
example : (cuts isTerminator [104, 105, 13, 10, 10, 111]).filter keep = [[104, 105, 13]] ∧
    rest isTerminator [104, 105, 13, 10, 10, 111] = [111] := by decide

/-- Every line on the console is under the prefix of a world. -/
def Tagged (s : State) : Prop := ∀ t bs, .line t bs ∈ s.log → ∃ secure, t = tag secure

theorem tagged_print {s : State} {e : Entry} (hs : Tagged s)
    (he : ∀ t bs, .line t bs = e → ∃ secure, t = tag secure) : Tagged (s.print e) := by
  intro t bs hmem
  rcases List.mem_append.1 hmem with hmem | hmem
  · exact hs t bs hmem
  · exact he t bs (List.mem_singleton.1 hmem)

theorem tagged_bufferedLog (b : UInt8) (v : Bool) {s : State} (hs : Tagged s) :
    Tagged (bufferedLog b v s) := by
  intro t bs hmem
  rw [log_bufferedLog] at hmem
  split at hmem
  · rcases List.mem_append.1 hmem with hmem | hmem
    · exact hs t bs hmem
    · cases List.mem_singleton.1 hmem
      exact ⟨v, rfl⟩
  · exact hs t bs hmem

theorem tagged_appletHandler (secureHandler : ExecCtx → Outcome) (ctx : ExecCtx) {s : State}
    (hs : Tagged s) : Tagged (appletHandler secureHandler ctx s).1 := by
  unfold appletHandler
  repeat' split
  · refine tagged_print (tagged_print hs ?_) ?_
    · intro t bs h
      cases h
    · intro t bs h
      cases h
  · exact hs
  · exact tagged_bufferedLog _ _ hs
  · exact hs
  · refine tagged_print hs ?_
    intro t bs h
    cases h
  · exact hs

/-- **Console separation.** After every sequence of exceptions, from whichever world, the lines under
a world's prefix are the cuts of the bytes that world wrote, less those that are a terminator alone,
and its buffer is what stands behind the last terminator: with the cuts it is all that was written.
Another sequence with the same bytes from this world shows the same, whatever the other world does in
it. -/
theorem console_separated (secureHandler : ExecCtx → Outcome) (ctxs : List ExecCtx) :
    ∃ s, (consoleLts secureHandler).run .start ctxs = some s ∧ Tagged s ∧ ∀ secure,
      s.lines secure =
        (cuts isTerminator (ctxs.filterMap (ExecCtx.written secure))).filter (·.length ≠ 1) ∧
      s.buf secure = rest isTerminator (ctxs.filterMap (ExecCtx.written secure)) ∧
      Cut isTerminator (ctxs.filterMap (ExecCtx.written secure))
        (cuts isTerminator (ctxs.filterMap (ExecCtx.written secure))) (s.buf secure) ∧
      ∀ ctxs' s', (consoleLts secureHandler).run .start ctxs' = some s' →
        ctxs'.filterMap (ExecCtx.written secure) = ctxs.filterMap (ExecCtx.written secure) →
        s'.lines secure = s.lines secure ∧ s'.buf secure = s.buf secure := by
  obtain ⟨s, hs⟩ := (consoleLts secureHandler).exists_run (fun u ctx => ⟨_, rfl⟩) .start ctxs
  have htagged : Tagged s := by
    refine Lts.run_inv (S := consoleLts secureHandler) (P := Tagged) ?_ (fun _ _ h => ?_) hs
    · intro u ctx t hu hstep
      exact Option.some.inj hstep ▸ tagged_appletHandler secureHandler ctx hu
    · cases h
  refine ⟨s, hs, htagged, fun secure => ?_⟩
  obtain ⟨hlines, hbuf⟩ := Prod.mk.inj (view_of_run hs secure)
  refine ⟨hlines, hbuf, hbuf ▸ cut_cuts _, fun ctxs' s' hs' hw => ?_⟩
  have hview := (view_of_run hs' secure).trans (hw ▸ (view_of_run hs secure).symm)
  exact Prod.mk.inj hview

end SealedSky.TrustedOs.Console
