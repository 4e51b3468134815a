import FileWarden.Proofs.DryRun

/-!
# When commands fail

A command looks for faults in a fixed order, and fails with the first that it finds. Each fault is
said on its own, whatever the others are.

- **Faults** (`Options.faults`, `Command.replayFaults`, `Command.watchFaults`): what can be wrong,
  in the order in which it is looked for. Stages that each fail with their first fault do so one
  after the other (`fault?_bind`).
- **Openers** (`Command.Opener.counted`): an opener that counts how often it is called.
- **Commands** (`Report.fails_with_first_fault`): before a command fails, nothing was logged,
  written, read, blocked or closed. A command that starts a session succeeds.
-/

namespace FileWarden

variable {ε α β σ ω φ : Type}

/-! ## Faults -/

/-- What an answer says is wrong, if it does. -/
def fault? : Except ε α → Option ε
  | .ok _ => none
  | .error e => some e

/-- The first of some faults, each of which may be there or not. -/
def firstFault (faults : List (Option ε)) : Option ε := faults.findSome? id

theorem firstFault_singleton (fault : Option ε) : firstFault [fault] = fault := by
  cases fault <;> rfl

theorem firstFault_append (faults more : List (Option ε)) :
    firstFault (faults ++ more) = (firstFault faults).or (firstFault more) :=
  List.findSome?_append

theorem mem_of_firstFault {faults : List (Option ε)} {e : ε} (h : firstFault faults = some e) :
    some e ∈ faults := by
  obtain ⟨fault, hmem, rfl⟩ := List.exists_of_findSome?_eq_some h
  exact hmem

theorem fault?_eq_some {x : Except ε α} {e : ε} : fault? x = some e ↔ x = .error e := by
  cases x <;> simp [fault?]

/-- One stage after the other fails with the first of the faults of both. -/
theorem fault?_bind {x : Except ε α} {f : α → Except ε β} {faults more : List (Option ε)}
    (hx : fault? x = firstFault faults) (hf : ∀ a, x = .ok a → fault? (f a) = firstFault more) :
    fault? (x >>= f) = firstFault (faults ++ more) := by
  rw [firstFault_append, ← hx]
  cases x with
  | ok a => exact hf a rfl
  | error e => rfl

theorem ok_of_mapError {δ : Type} {x : Except ε α} {f : ε → δ} {a : α}
    (h : x.mapError f = .ok a) : x = .ok a := by
  cases x with
  | ok b => cases h; rfl
  | error e => cases h

theorem fault?_mapError {δ : Type} (x : Except ε α) (f : ε → δ) :
    fault? (x.mapError f) = (fault? x).map f := by
  cases x <;> rfl

namespace Options

/-- All patterns, as far as the file can be read. -/
def texts (read : String → Except FileError String) (o : Options) : List String :=
  o.commandTexts ++ (o.patternsFile.bind fun path => (read path).toOption).elim [] Policy.lineTexts

/-- What can be wrong with options: a threshold of 0, no patterns and no file of patterns, a file of
patterns that cannot be read, and no pattern in what is given. -/
def faults (read : String → Except FileError String) (o : Options) : List (Option CommandError) :=
  [if o.threshold = 0 then some (.options (.invalidThreshold 0)) else none,
    if o.patternsFile = none ∧ o.commandTexts = [] then some (.options .noPatterns) else none,
    o.patternsFile.bind fun path => (fault? (read path)).map (.patterns ⟨path, ·⟩),
    if o.texts read = [] then some (.options .noPatterns) else none]

/-- Rules are made only after the threshold was checked, so they are never at fault. -/
theorem rules_not_mem_faults (read : String → Except FileError String) (o : Options)
    (c : RulesError) : some (.rules c) ∉ o.faults read := by
  simp only [faults, List.mem_cons, List.not_mem_nil, or_false, not_or]
  refine ⟨?_, ?_, ?_, ?_⟩
  · split <;> simp
  · split <;> simp
  · cases o.patternsFile <;> simp
  · split <;> simp

theorem threshold_of_validate {o : Options} (h : o.validate = .ok ()) : o.threshold ≠ 0 := by
  intro hzero
  simp [validate, hzero] at h

/-- The patterns of the file are there, unless it cannot be read. -/
theorem fileTexts_cases (read : String → Except FileError String) (o : Options) :
    fault? (o.fileTexts read) =
        o.patternsFile.bind (fun path => (fault? (read path)).map (⟨path, ·⟩)) ∧
      ∀ ts, o.fileTexts read = .ok ts → o.commandTexts ++ ts = o.texts read := by
  unfold fileTexts texts
  cases o.patternsFile with
  | none => simp [fault?]
  | some path => cases hread : read path <;> simp [hread, fault?, Except.toOption]

/-- Options give rules, or fail with their first fault. -/
theorem fault?_rules (read : String → Except FileError String) (o : Options) :
    fault? (o.rules read) = firstFault (o.faults read) := by
  obtain ⟨hunreadable, htexts⟩ := fileTexts_cases read o
  show fault? _ = firstFault ([_, _] ++ ([_] ++ [_]))
  refine fault?_bind ?_ fun _ hvalid => fault?_bind ?_ fun fileTexts hfile => ?_
  · unfold validate
    by_cases hthreshold : o.threshold = 0
    · simp [hthreshold, fault?, firstFault, Except.mapError]
    · by_cases hnone : o.patternsFile = none ∧ o.commandTexts = [] <;>
        simp [hthreshold, hnone, fault?, firstFault, Except.mapError]
  · rw [fault?_mapError, hunreadable, firstFault_singleton]
    cases o.patternsFile with
    | none => rfl
    | some path => exact Option.map_map ..
  · have hthreshold := threshold_of_validate (ok_of_mapError hvalid)
    simp only [htexts fileTexts (ok_of_mapError hfile)]
    by_cases hempty : o.texts read = []
    · simp [hempty, fault?, firstFault]
    · simp [hempty, fault?, firstFault, Rules.make, hthreshold, Except.mapError]

example :
    let missing (path : String) : Except FileError String := .error (.io .notFound path)
    let o : Options := ⟨none, some "patterns", 0, 0, none⟩
    o.faults missing = [some (.options (.invalidThreshold 0)), none,
      some (.patterns ⟨"patterns", .io .notFound "patterns"⟩), some (.options .noPatterns)] := by
  decide

end Options

namespace Command

/-- What can be wrong with a dry run: its options, a file of events that cannot be read, and a line
of it that is no event. -/
def replayFaults (read : String → Except FileError String) (path : String) (o : Options) :
    List (Option CommandError) :=
  o.faults read ++
    [(fault? (read path)).map (.recording <| .unreadable ·),
      (read path).toOption.bind fun text =>
        (fault? (Event.ofRecording text)).map (.recording <| .line ·)]

/-- What can be wrong with a session on a live source: its options, and what the opener says. -/
def watchFaults (read : String → Except FileError String) (opener : Opener ω σ) (o : Options)
    (w : ω) : List (Option CommandError) :=
  o.faults read ++ [(fault? (opener w).1).map .probe]

theorem fault?_recording (read : String → Except FileError String) (path : String) :
    (fault? (recording read path)).map CommandError.recording =
      firstFault [(fault? (read path)).map (.recording <| .unreadable ·),
        (read path).toOption.bind fun text =>
          (fault? (Event.ofRecording text)).map (.recording <| .line ·)] := by
  unfold recording
  cases hread : read path with
  | error cause => rfl
  | ok text =>
    cases hline : Event.ofRecording text <;>
      simp [hline, fault?, firstFault, Except.mapError, Except.toOption]

/-- A dry run fails with its first fault, whatever its source is and would do. -/
theorem fault?_replayOn (src : Source σ) (reads : σ → Nat) (initial : List Event → σ)
    (read : String → Except FileError String) (path : String) (o : Options) (token : Token) :
    fault? (replayOn src reads initial read path o token) =
      firstFault (replayFaults read path o) := by
  refine fault?_bind (o.fault?_rules read) fun rules _ => ?_
  have hrecording := fault?_recording read path
  rw [← fault?_mapError] at hrecording
  exact fault?_bind hrecording fun _ _ => (rfl : none = firstFault [])

theorem fault?_watch (read : String → Except FileError String) (src : Source σ) (reads : σ → Nat)
    (opener : Opener ω σ) (o : Options) (token : Token) (w : ω) :
    fault? (watch read src reads opener o token w).1 =
      firstFault (watchFaults read opener o w) := by
  rw [watchFaults, firstFault_append, ← o.fault?_rules read, firstFault_singleton, watch]
  cases o.rules read with
  | error e => rfl
  | ok rules => rcases opener w with ⟨_ | _, w'⟩ <;> rfl

theorem rules_not_mem_replayFaults (read : String → Except FileError String) (path : String)
    (o : Options) (c : RulesError) : some (.rules c) ∉ replayFaults read path o := by
  cases hread : read path <;> simp [replayFaults, o.rules_not_mem_faults, hread, Except.toOption]

theorem rules_not_mem_watchFaults (read : String → Except FileError String)
    (opener : Opener ω σ) (o : Options) (w : ω) (c : RulesError) :
    some (.rules c) ∉ watchFaults read opener o w := by
  simp [watchFaults, o.rules_not_mem_faults]

/-- An opener that counts how often it is called. -/
def Opener.counted (opener : Opener ω σ) : Opener (ω × Nat) σ := fun w =>
  ((opener w.1).1, (opener w.1).2, w.2 + 1)

/-- An opener is called once if the options give rules, and not at all otherwise. -/
theorem watch_counted (read : String → Except FileError String) (src : Source σ) (reads : σ → Nat)
    (opener : Opener ω σ) (o : Options) (token : Token) (w : ω) :
    let watched := watch read src reads opener o token w
    watch read src reads opener.counted o token (w, 0) =
      (watched.1, watched.2, match o.rules read with
        | .ok _ => 1
        | .error _ => 0) := by
  simp only [watch, Opener.counted]
  cases o.rules read with
  | error e => rfl
  | ok rules => rcases opener w with ⟨_ | _, w'⟩ <;> rfl

/-- If no live source was opened, it does not matter what one would do. -/
theorem watch_of_error {read : String → Except FileError String} {src : Source σ} {reads : σ → Nat}
    {opener : Opener ω σ} {o : Options} {token : Token} {w : ω} {e : CommandError}
    (h : (watch read src reads opener o token w).1 = .error e) (src' : Source σ)
    (reads' : σ → Nat) :
    watch read src' reads' opener o token w = watch read src reads opener o token w := by
  unfold watch at h ⊢
  cases hrules : o.rules read with
  | error e => rfl
  | ok rules =>
    rcases hopen : opener w with ⟨e | source, w'⟩
    · rfl
    · simp [hrules, hopen] at h

theorem replay_ok {read : String → Except FileError String} {path : String} {o : Options}
    {token : Token} {session : Session Replay} (h : replay read path o token = .ok session) :
    ∃ r es, o.rules read = .ok r ∧ recording read path = .ok es := by
  cases hrules : o.rules read with
  | error e => simp [replay, replayOn, hrules, bind, Except.bind] at h
  | ok r =>
    cases hevents : recording read path with
    | error e => simp [replay, replayOn, hrules, hevents, bind, Except.bind, Except.mapError] at h
    | ok es => exact ⟨r, es, rfl, rfl⟩

/-- A dry run ends by itself, also if it is cancelled before it starts. -/
theorem stopped_of_replay {read : String → Except FileError String} {path : String} {o : Options}
    {token : Token} {session : Session Replay} (h : replay read path o token = .ok session) :
    session.stopped = true := by
  obtain ⟨r, es, hrules, hevents⟩ := replay_ok h
  rw [replay_eq hrules hevents] at h
  cases h
  cases hfresh : token.cancelled with
  | true => simp [Session.announced, Session.run, Loop.complete, Loop.run, Loop.start, hfresh]
  | false =>
    have hrun := Session.run_supplied (Replay.supplies es) hfresh r o.journal (Nat.lt_succ_self _)
    exact congrArg Session.stopped hrun

end Command

namespace Report

variable [FileStore φ]

/-- **A command fails with the first fault, before it has done anything.** Its log is empty then, the
files are as they were, and it did not matter what its source would do. The opener is called once if
the options give rules, and not at all otherwise. A command that starts a session succeeds, whatever
fails in it, and a dry run comes to its end. -/
theorem fails_with_first_fault (files : φ) (path : String) (o : Options) (time : Instant)
    (token : Token) (src : Source σ) (reads : σ → Nat) (opener : Command.Opener ω σ) (w : ω) :
    let read := FileStore.read files
    let replayed := Command.replay read path o token
    let watched := Command.watch read src reads opener o token w
    (fault? (o.rules read) = firstFault (o.faults read) ∧
      fault? replayed = firstFault (Command.replayFaults read path o) ∧
      fault? watched.1 = firstFault (Command.watchFaults read opener o w)) ∧
    Command.watch read src reads opener.counted o token (w, 0) =
      (watched.1, watched.2, match o.rules read with
        | .ok _ => 1
        | .error _ => 0) ∧
    (∀ e, replayed = .error e →
      ofReplay files path o time token = ⟨.error e, [], files⟩ ∧ (∀ c, e ≠ .rules c) ∧
      ∀ (τ : Type) (src' : Source τ) reads' initial',
        Command.replayOn src' reads' initial' read path o token = .error e) ∧
    (∀ e, watched.1 = .error e →
      ofWatch files src reads opener o time token w = ⟨.error e, [], files⟩ ∧ (∀ c, e ≠ .rules c) ∧
      ∀ src' reads', Command.watch read src' reads' opener o token w = watched) ∧
    (∀ session, replayed = .ok session → session.stopped = true ∧
      (ofReplay files path o time token).result = .ok session.summary) ∧
    ∀ session, watched.1 = .ok session →
      (ofWatch files src reads opener o time token w).result = .ok session.summary := by
  intro read replayed watched
  have hreplayed : fault? replayed = firstFault (Command.replayFaults read path o) :=
    Command.fault?_replayOn Replay.source Replay.reads (.untilDrained · false) read path o token
  have hwatched : fault? watched.1 = firstFault (Command.watchFaults read opener o w) :=
    Command.fault?_watch read src reads opener o token w
  -- With the log and the files as a sink, the commands come to the same.
  have hreplay : ofReplay files path o time token = ofSession o time files replayed :=
    ofReplay_eq files o time token path
  have hwatch : ofWatch files src reads opener o time token w = ofSession o time files watched.1 :=
    ofWatch_eq files o time token src reads opener w
  rw [hreplay, hwatch]
  refine ⟨⟨o.fault?_rules read, hreplayed, hwatched⟩,
    Command.watch_counted read src reads opener o token w, fun e he => ?_, fun e he => ?_,
    fun session hsession => ⟨Command.stopped_of_replay hsession, ?_⟩, fun session hsession => ?_⟩
  · have hfirst := hreplayed.symm.trans (fault?_eq_some.mpr he)
    refine ⟨congrArg (ofSession o time files) he, ?_, fun τ src' reads' initial' => ?_⟩
    · rintro c rfl
      exact Command.rules_not_mem_replayFaults read path o c (mem_of_firstFault hfirst)
    · exact fault?_eq_some.mp ((Command.fault?_replayOn ..).trans hfirst)
  · have hfirst := hwatched.symm.trans (fault?_eq_some.mpr he)
    refine ⟨congrArg (ofSession o time files) he, ?_, Command.watch_of_error he⟩
    rintro c rfl
    exact Command.rules_not_mem_watchFaults read opener o w c (mem_of_firstFault hfirst)
  · exact congrArg (fun ran => (ofSession o time files ran).result) hsession
  · exact congrArg (fun ran => (ofSession o time files ran).result) hsession

end Report
end FileWarden
