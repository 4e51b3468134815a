import FileWarden.Command
import FileWarden.Proofs.Loop

/-!
# Sinks

Whatever a sink does with what it is given, it is given the transcript, in order.

- **Sessions** (`Loop.runInto_eq`, `Session.runInto_eq`): with a sink, a loop and a session come to
  what they come to without one.
- **Commands** (`Command.replayInto_eq`, `Command.watchInto_eq`): so do commands. One that fails gave
  nothing to its sink.
- **Reports** (`Report.ofReplay_eq`, `Report.ofWatch_eq`): the report on a command is that on the
  session that it starts.
-/

namespace FileWarden

variable {σ κ ω φ α β : Type}

/-! ## Sessions -/

theorem Rules.processInto_eq (emit : κ → Notice → κ) (r : Rules)
    (block : σ → Pid → Except SourceError Unit × σ) (l : Ledger) (s : σ) (k : κ) (e : Event) :
    r.processInto emit block l s k e =
      let p := r.process block l s e
      (p.result, p.ledger, p.source, p.notices.foldl emit k) := by
  rw [processInto, process, processSeeing]
  rcases r.judge l e with ⟨_ | _ | n | n, l'⟩
  case crossed => rcases block s e.pid with ⟨_ | _, s'⟩ <;> rfl
  all_goals rfl

namespace Loop

variable (emit : κ → Entry → κ) (src : Source σ) (r : Rules)

theorem turnInto_eq (m : Loop σ) (k : κ) :
    m.turnInto emit src r k =
      let ran := m.turn src r
      (ran.loop, ran.stopped, ran.transcript.foldl emit k) := by
  cases h : (src.next m.source m.token).answer with
  | ok e =>
    rw [turn_of_event h]
    simp only [turnInto, h, Rules.processInto_eq]
    cases (r.process src.block m.ledger (src.next m.source m.token).source e).result <;>
      simp [entries, Run.failure?, List.foldl_append, List.foldl_map]
  | error err =>
    by_cases hcancelled : err = .cancelled
    · subst hcancelled
      rw [turn_of_cancelled h, turnInto, h]
      rfl
    · rw [turn_of_failed h hcancelled, turnInto, h]
      cases err <;> first | exact absurd rfl hcancelled | rfl

/-- Whatever a sink does, the loop is the same, and the sink gets the transcript in order. -/
theorem runInto_eq (bound : Nat) (m : Loop σ) (k : κ) :
    m.runInto emit src r bound k =
      let ran := m.run src r bound
      (ran.loop, ran.stopped, ran.transcript.foldl emit k) := by
  fun_induction run src r bound m generalizing k with
  | case1 => rfl
  | case2 bound m hcancelled => simp [runInto, hcancelled]
  | case3 bound m hfresh first hstopped => simp [runInto, hfresh, turnInto_eq, first, hstopped]
  | case4 bound m hfresh first hgoes rest ih =>
    simp [runInto, hfresh, turnInto_eq, first, hgoes, rest, ih]

end Loop

theorem Session.runInto_eq (emit : κ → Entry → κ) (src : Source σ) (r : Rules)
    (journal : Option String) (bound : Nat) (s : σ) (t : Token) (k : κ) :
    runInto emit src r journal bound s t k =
      let ended := run src r journal bound s t
      (ended.summary, ended.source, ended.stopped, ended.transcript.foldl emit k) := by
  simp only [runInto, run, Loop.complete, Loop.runInto_eq]
  simp [List.foldl_append]

/-! ## Commands -/

namespace Command

namespace Act

/-- One part of a command after the other. A failure of the first keeps what the sink was given. -/
@[simp] theorem run_bind (x : Act κ α) (f : α → Act κ β) (k : κ) :
    (x >>= f).run.run k =
      match x.run.run k with
      | (.ok a, k) => (f a).run.run k
      | (.error e, k) => (.error e, k) := by
  simp only [ExceptT.run, StateT.run, bind, ExceptT.bind, ExceptT.mk, StateT.bind, ExceptT.bindCont]
  rcases x k with ⟨_ | _, _⟩ <;> rfl

@[simp] theorem run_get (k : κ) : (get : Act κ κ).run.run k = (.ok k, k) := rfl

@[simp] theorem run_ofExcept (x : Except CommandError α) (k : κ) :
    (MonadExcept.ofExcept x : Act κ α).run.run k = (x, k) := by
  cases x <;> rfl

@[simp] theorem run_modifyGet (f : κ → α × κ) (k : κ) :
    (modifyGet f : Act κ α).run.run k = (.ok (f k).1, (f k).2) := rfl

end Act

/-- What a command leaves to its sink, told of the command without one: the transcript of the session,
and nothing if none was started. -/
def told (emit : κ → Entry → κ) (k : κ) : Except CommandError (Session σ) →
    Except CommandError Summary × κ
  | .ok s => (.ok s.summary, s.transcript.foldl emit k)
  | .error e => (.error e, k)

variable (emit : κ → Entry → κ) (read : κ → String → Except FileError String) (src : Source σ)
  (reads : σ → Nat) (o : Options) (token : Token) (k : κ)

theorem sessionInto_eq (lines : List LogLine) (r : Rules) (journal : Option String) (bound : Nat)
    (s : σ) :
    sessionInto emit lines src r journal bound s token k =
      let ended := (Session.run src r journal bound s token).announced lines
      (ended.summary, ended.transcript.foldl emit k) := by
  simp only [sessionInto, Session.runInto_eq, Session.announced, List.foldl_append]

theorem replayInto_eq (initial : List Event → σ) (path : String) :
    (replayInto emit read src reads initial path o token).run.run k =
      told emit k (replayOn src reads initial (read k) path o token) := by
  simp only [replayInto, Act.run_bind, Act.run_get, Act.run_ofExcept, Act.run_modifyGet,
    sessionInto_eq, replayOn]
  cases o.rules (read k) with
  | error e => rfl
  | ok r =>
    dsimp only
    cases recording (read k) path <;> rfl

theorem watchInto_eq (opener : Opener ω σ) (w : ω) :
    (watchInto emit read src reads opener o token).run.run (k, w) =
      let (session, w) := watch (read k) src reads opener o token w
      ((told emit k session).1, (told emit k session).2, w) := by
  simp only [watchInto, Act.run_bind, Act.run_get, Act.run_ofExcept, Act.run_modifyGet,
    sessionInto_eq, watch]
  cases o.rules (read k) with
  | error e => rfl
  | ok r =>
    dsimp only
    rcases opener w with ⟨_ | _, w'⟩ <;> rfl

end Command

/-! ## Reports -/

variable [FileStore φ]

theorem Journal.foldl_emit (journal : Option Journal) (t : Transcript)
    (log : List LogLine) (files : φ) :
    t.foldl (emit journal) (log, files) =
      (log ++ (deliver journal files t).1, (deliver journal files t).2) := by
  induction t generalizing log files with
  | nil => simp [deliver]
  | cons e t ih => simp [emit, deliver, ih]

namespace Report

variable (files : φ) (o : Options) (time : Instant) (token : Token)

/-- A log and the files, as a sink, are left what the report on the session says. -/
theorem ofSession_eq (session : Except CommandError (Session σ)) :
    ofSession o time files session =
      let left := Command.told (Journal.emit (journal o time)) ([], files) session
      ⟨left.1, left.2.1, left.2.2⟩ := by
  cases session with
  | ok s => simp only [Command.told, Journal.foldl_emit, ofSession, List.nil_append]
  | error e => rfl

theorem ofReplay_eq (path : String) :
    ofReplay files path o time token =
      ofSession o time files (Command.replay (FileStore.read files) path o token) := by
  rw [ofReplay, Command.replayInto_eq, ofSession_eq]
  rfl

theorem ofWatch_eq (src : Source σ) (reads : σ → Nat) (opener : Command.Opener ω σ) (w : ω) :
    ofWatch files src reads opener o time token w = ofSession o time files
      (Command.watch (FileStore.read files) src reads opener o token w).1 := by
  rw [ofWatch, Command.watchInto_eq, ofSession_eq]

end Report
end FileWarden
