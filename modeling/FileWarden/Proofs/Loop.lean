import FileWarden.Engine.Loop
import FileWarden.Proofs.Reports

/-!
# The control loop on given reads

A feed is a source whose reads are given beforehand: what each answers, and whether it cancels the
token before it answers. Its blocks are any blocks that keep a state of their own.

- **Where the loop stops** (`Ended`): with a token that is cancelled, or after a read that ended as
  cancelled. No other read ends it, and no block that fails.
- **One read** (`turn_event`, `turn_cancelled`, `turn_failed`): what one turn of the loop comes to.
- **All reads** (`run_feed`): the loop reads as far as it must, decides on every event that was read
  as `Rules.run` does, and counts what it saw.
- **What it tells** (`told`, `notices_told`): each read leaves its own entries, in order.
- **The whole loop** (`complete_folds_events`): all of this of `Loop.complete`.
-/

namespace FileWarden

/-! ## Feeds -/

/-- What a read answers, and whether the token is cancelled before. -/
structure Read where
  answer : Except SourceError Event
  cancels : Bool

namespace Read

/-- The event that a read answers, if it does. -/
def event? (a : Read) : Option Event :=
  match a.answer with
  | .ok e => some e
  | .error _ => none

/-- Whether a read fails, other than by being cancelled. -/
def fails (a : Read) : Bool :=
  match a.answer with
  | .ok _ => false
  | .error .cancelled => false
  | .error _ => true

/-- The token after a read. -/
def tokenAfter (a : Read) (t : Token) : Token := if a.cancels then t.cancel else t

section

variable {a : Read} {e : Event} {err : SourceError} (made : List Read)

theorem events_of_ok (h : a.answer = .ok e) :
    (a :: made).filterMap event? = e :: made.filterMap event? := by
  simp [event?, h]

theorem events_of_error (h : a.answer = .error err) :
    (a :: made).filterMap event? = made.filterMap event? := by
  simp [event?, h]

theorem countP_fails_of_ok (h : a.answer = .ok e) :
    (a :: made).countP fails = made.countP fails := by
  simp [fails, h]

theorem countP_fails_of_cancelled (h : a.answer = .error .cancelled) :
    (a :: made).countP fails = made.countP fails := by
  simp [fails, h]

theorem countP_fails_of_failed (h : a.answer = .error err) (hne : err ≠ .cancelled) :
    (a :: made).countP fails = made.countP fails + 1 := by
  rw [List.countP_cons_of_pos]
  cases err with
  | cancelled => exact absurd rfl hne
  | _ => simp only [fails, h]

end

end Read

/-- A source whose reads are given: the reads that are left, how often it was read, and the state of
its blocks. -/
structure Feed (τ : Type) where
  left : List Read
  asked : Nat
  blocks : τ

namespace Feed

variable {τ : Type}

/-- A read of a feed. It is closed when no read is left. -/
def next (f : Feed τ) (t : Token) : Reading (Feed τ) :=
  match f.left with
  | [] => ⟨.error .closed, t, { f with asked := f.asked + 1 }⟩
  | a :: left => ⟨a.answer, a.tokenAfter t, ⟨left, f.asked + 1, f.blocks⟩⟩

/-- Feeds as event sources. -/
def source (block : τ → Pid → Except SourceError Unit × τ) : Source (Feed τ) where
  next := next
  block f p := ((block f.blocks p).1, { f with blocks := (block f.blocks p).2 })
  close f := (.ok (), f)

/-- A feed decides on an event as its blocks do. -/
theorem process_source (block : τ → Pid → Except SourceError Unit × τ) (r : Rules) (l : Ledger)
    (f : Feed τ) (e : Event) : r.process (source block).block l f e =
      let p := r.process block l f.blocks e
      ⟨p.result, p.notices, p.ledger, { f with blocks := p.source }⟩ := by
  obtain ⟨hresult, hnotices, hledger, hsource⟩ := r.process_alike (source block).block block
    (fun g s => g = { f with blocks := s }) (s := f) (e := e) rfl rfl rfl l
  simp only [← hresult, ← hnotices, ← hledger, ← hsource]

end Feed

theorem Transcript.notices_append (t u : Transcript) :
    Transcript.notices (t ++ u) = Transcript.notices t ++ Transcript.notices u :=
  List.filterMap_append

theorem Transcript.notices_map_notice (ns : List Notice) :
    Transcript.notices (ns.map .notice) = ns := by
  simp [Transcript.notices, List.filterMap_map, Function.comp_def, Entry.notice?]

theorem Transcript.notices_map_line (ls : List LogLine) :
    Transcript.notices (ls.map .line) = [] := by
  simp [Transcript.notices, Entry.notice?]

namespace Loop

variable {τ : Type} {block : τ → Pid → Except SourceError Unit × τ} {r : Rules} {l : Ledger}
  {s : τ} {t : Token} {a : Read} {e : Event} {made left : List Read} {asked : Nat} {stats : Stats}

/-! ## One read -/

/-- What the loop tells of an event that is answered and reported so. -/
def entries (e : Event) (answer : Except BlockFailure Outcome × List Notice) : Transcript :=
  .line (openLine e) :: answer.2.map .notice ++
    (Run.failure? answer.1).toList.map fun f => .line (blockFailureLine f)

theorem turn_of_event {σ : Type} {src : Source σ} {m : Loop σ}
    (h : (src.next m.source m.token).answer = .ok e) :
    turn src r m =
      let read := src.next m.source m.token
      let p := r.process src.block m.ledger read.source e
      ⟨⟨p.source, read.token, p.ledger, ⟨m.stats.events + 1, m.stats.readErrors,
          m.stats.processErrors + (Run.failure? p.result).toList.length⟩⟩,
        entries e (p.result, p.notices), false⟩ := by
  simp only [turn, handle, h]
  cases (r.process src.block m.ledger (src.next m.source m.token).source e).result <;>
    simp [entries, Run.failure?]

theorem turn_of_cancelled {σ : Type} {src : Source σ} {m : Loop σ}
    (h : (src.next m.source m.token).answer = .error .cancelled) :
    turn src r m =
      let read := src.next m.source m.token
      ⟨⟨read.source, read.token, m.ledger, m.stats⟩, [], true⟩ := by
  simp only [turn, h]

theorem turn_of_failed {σ : Type} {src : Source σ} {m : Loop σ} {err : SourceError}
    (h : (src.next m.source m.token).answer = .error err) (hne : err ≠ .cancelled) :
    turn src r m =
      let read := src.next m.source m.token
      ⟨⟨read.source, read.token, m.ledger,
          ⟨m.stats.events, m.stats.readErrors + 1, m.stats.processErrors⟩⟩,
        [.line (readErrorLine err)], false⟩ := by
  cases err with
  | cancelled => exact absurd rfl hne
  | _ => simp only [turn, h]

theorem turn_event (h : a.answer = .ok e) :
    turn (Feed.source block) r ⟨⟨a :: left, asked, s⟩, t, l, stats⟩ =
      let p := r.process block l s e
      ⟨⟨⟨left, asked + 1, p.source⟩, a.tokenAfter t, p.ledger,
          ⟨stats.events + 1, stats.readErrors,
            stats.processErrors + (Run.failure? p.result).toList.length⟩⟩,
        entries e (p.result, p.notices), false⟩ := by
  rw [turn_of_event h]
  simp only [Feed.process_source]
  rfl

theorem turn_cancelled (h : a.answer = .error .cancelled) :
    turn (Feed.source block) r ⟨⟨a :: left, asked, s⟩, t, l, stats⟩ =
      ⟨⟨⟨left, asked + 1, s⟩, a.tokenAfter t, l, stats⟩, [], true⟩ :=
  turn_of_cancelled h

theorem turn_failed {err : SourceError} (h : a.answer = .error err) (hne : err ≠ .cancelled) :
    turn (Feed.source block) r ⟨⟨a :: left, asked, s⟩, t, l, stats⟩ =
      ⟨⟨⟨left, asked + 1, s⟩, a.tokenAfter t, l,
          ⟨stats.events, stats.readErrors + 1, stats.processErrors⟩⟩,
        [.line (readErrorLine err)], false⟩ :=
  turn_of_failed h hne

theorem run_of_turn {σ : Type} {src : Source σ} {m m' : Loop σ} {tr : Transcript}
    (hfresh : m.token.cancelled = false) (h : m.turn src r = ⟨m', tr, false⟩) (bound : Nat) :
    m.run src r (bound + 1) =
      let rest := m'.run src r bound
      ⟨rest.loop, tr ++ rest.transcript, rest.stopped⟩ := by
  simp [run, hfresh, h]

theorem run_of_turn_stopped {σ : Type} {src : Source σ} {m m' : Loop σ} {tr : Transcript}
    (hfresh : m.token.cancelled = false) (h : m.turn src r = ⟨m', tr, true⟩) (bound : Nat) :
    m.run src r (bound + 1) = ⟨m', tr, true⟩ := by
  simp [run, hfresh, h]

/-! ## Where the loop stops -/

/-- With the token `t` at its start, the loop stops after the reads if not before: the token is
cancelled, or a read ended as cancelled. -/
def Ended (t : Token) (made : List Read) : Prop :=
  t.cancelled = true ∨ ∃ a ∈ made, a.cancels = true ∨ a.answer = .error .cancelled

instance : Decidable (Ended t made) := inferInstanceAs (Decidable (_ ∨ _))

@[simp] theorem cancelled_tokenAfter (a : Read) (t : Token) :
    (a.tokenAfter t).cancelled = (a.cancels || t.cancelled) := by
  rw [Read.tokenAfter]
  cases a.cancels <;> rfl

theorem ended_nil : Ended t [] ↔ t.cancelled = true := by simp [Ended]

theorem ended_cons (h : a.answer ≠ .error .cancelled) :
    Ended t (a :: made) ↔ Ended (a.tokenAfter t) made := by
  simp [Ended, h, or_assoc, or_left_comm]

/-- The loop stops after the reads, and not before. -/
structure EndsWith (t : Token) (made : List Read) : Prop where
  ended : Ended t made
  first : ∀ k < made.length, ¬ Ended t (made.take k)

namespace EndsWith

theorem fresh (h : EndsWith t (a :: made)) : t.cancelled = false := by
  rw [← Bool.not_eq_true, ← ended_nil]
  exact h.first 0 (by simp)

theorem tail (h : EndsWith t (a :: made)) (ha : a.answer ≠ .error .cancelled) :
    EndsWith (a.tokenAfter t) made where
  ended := (ended_cons ha).mp h.ended
  first k hk := by
    rw [← ended_cons ha]
    exact h.first (k + 1) (Nat.succ_lt_succ hk)

theorem tail_nil (h : EndsWith t (a :: made)) (ha : a.answer = .error .cancelled) :
    made = [] := by
  by_contra hne
  refine h.first 1 ?_ (.inr ⟨a, by simp, .inr ha⟩)
  rw [List.length_cons]
  exact Nat.succ_lt_succ (List.length_pos_iff.mpr hne)

end EndsWith

/-- Reads that end the loop begin with those after which it stops first. -/
theorem Ended.exists_least {reads : List Read} (h : Ended t reads) :
    ∃ n ≤ reads.length, IsLeast {k | Ended t (reads.take k)} n ∧ EndsWith t (reads.take n) := by
  classical
  have hex : ∃ k, Ended t (reads.take k) := ⟨reads.length, by rwa [List.take_length]⟩
  have hle : Nat.find hex ≤ reads.length := Nat.find_min' hex (by rwa [List.take_length])
  refine ⟨Nat.find hex, hle, ⟨Nat.find_spec hex, fun k => Nat.find_min' hex⟩,
    Nat.find_spec hex, fun k hk => ?_⟩
  rw [List.length_take, Nat.min_eq_left hle] at hk
  rw [List.take_take, Nat.min_eq_left hk.le]
  exact Nat.find_min hex hk

/-! ## All reads -/

/-- What the loop tells of reads, where the events among them are answered and reported so. -/
def told : List Read → List (Except BlockFailure Outcome × List Notice) → Transcript
  | [], _ => []
  | a :: made, answers =>
    match a.answer, answers with
    | .ok e, answer :: answers => entries e answer ++ told made answers
    | .ok _, [] => []
    | .error .cancelled, answers => told made answers
    | .error err, answers => .line (readErrorLine err) :: told made answers

theorem told_event (h : a.answer = .ok e) (answer : Except BlockFailure Outcome × List Notice)
    (answers : List (Except BlockFailure Outcome × List Notice)) :
    told (a :: made) (answer :: answers) = entries e answer ++ told made answers := by
  simp only [told, h]

theorem told_cancelled (h : a.answer = .error .cancelled)
    (answers : List (Except BlockFailure Outcome × List Notice)) :
    told (a :: made) answers = told made answers := by
  simp only [told, h]

theorem told_failed {err : SourceError} (h : a.answer = .error err) (hne : err ≠ .cancelled)
    (answers : List (Except BlockFailure Outcome × List Notice)) :
    told (a :: made) answers = .line (readErrorLine err) :: told made answers := by
  cases err with
  | cancelled => exact absurd rfl hne
  | _ => simp only [told, h]

/-- The loop reads up to the first read after which it must stop, and no further. It decides on the
events that it reads as `Rules.run` does. -/
theorem run_feed (block : τ → Pid → Except SourceError Unit × τ) (r : Rules) (left : List Read)
    (asked : Nat) (s : τ) (l : Ledger) (stats : Stats) (h : EndsWith t made) {bound : Nat}
    (hbound : made.length ≤ bound) :
    run (Feed.source block) r bound ⟨⟨made ++ left, asked, s⟩, t, l, stats⟩ =
      let events := made.filterMap Read.event?
      let folded := r.run block l s events
      ⟨⟨⟨left, asked + made.length, folded.source⟩,
          made.foldl (fun t a => a.tokenAfter t) t, folded.ledger,
          ⟨stats.events + events.length, stats.readErrors + made.countP Read.fails,
            stats.processErrors + folded.failures.length⟩⟩,
        told made folded.answers, true⟩ := by
  -- The induction is on the reads made. `EndsWith` goes over to the rest after each that does not
  -- end as cancelled, with the token as the read leaves it.
  induction made generalizing t l s asked stats bound with
  | nil =>
    have hcancelled := ended_nil.mp h.ended
    cases bound <;> simp [run, hcancelled, told, Rules.run, Run.failures]
  | cons a made ih =>
    obtain ⟨bound, rfl⟩ := Nat.exists_eq_add_of_le' (Nat.zero_lt_of_lt hbound)
    have hbound := Nat.le_of_succ_le_succ hbound
    rw [List.cons_append]
    cases ha : a.answer with
    | ok e =>
      -- The event is decided on before anything else is read.
      rw [run_of_turn h.fresh (turn_event ha), ih _ _ _ _ (h.tail (by simp [ha])) hbound]
      simp only [Read.events_of_ok _ ha, Read.countP_fails_of_ok _ ha, Rules.run, Run.failures_cons,
        told_event ha, List.foldl_cons, List.length_append, List.length_cons, Nat.add_assoc,
        Nat.add_comm 1]
    | error err =>
      by_cases hcancelled : err = .cancelled
      · subst hcancelled
        obtain rfl := h.tail_nil ha
        rw [run_of_turn_stopped h.fresh (turn_cancelled ha)]
        simp [Read.event?, Read.fails, ha, told, Rules.run, Run.failures]
      · rw [run_of_turn h.fresh (turn_failed ha hcancelled),
          ih _ _ _ _ (h.tail (by simpa [ha] using hcancelled)) hbound]
        simp only [Read.events_of_error _ ha, Read.countP_fails_of_failed _ ha hcancelled,
          told_failed ha hcancelled, List.foldl_cons, List.length_cons, List.singleton_append,
          Nat.add_assoc, Nat.add_comm 1]

/-! ## What it tells -/

/-- The notices of an event stand between lines of the log. -/
theorem notices_entries (e : Event) (answer : Except BlockFailure Outcome × List Notice) :
    Transcript.notices (entries e answer) = answer.2 := by
  have hfailure (fs : List BlockFailure) :
      Transcript.notices (fs.map fun f => .line (blockFailureLine f)) = [] := by
    rw [← Transcript.notices_map_line (fs.map blockFailureLine), List.map_map]
    rfl
  rw [entries, Transcript.notices_append, hfailure, List.append_nil]
  exact Transcript.notices_map_notice answer.2

theorem notices_told {answers : List (Except BlockFailure Outcome × List Notice)}
    (h : answers.length = (made.filterMap Read.event?).length) :
    Transcript.notices (told made answers) = answers.flatMap (·.2) := by
  induction made generalizing answers with
  | nil => rw [List.eq_nil_of_length_eq_zero h]; rfl
  | cons a made ih =>
    cases ha : a.answer with
    | ok e =>
      cases answers with
      | nil => simp [Read.event?, ha] at h
      | cons answer answers =>
        rw [Read.events_of_ok _ ha] at h
        rw [told_event ha, Transcript.notices_append, notices_entries, List.flatMap_cons,
          ih (Nat.succ.inj h)]
    | error err =>
      rw [Read.events_of_error _ ha] at h
      by_cases hcancelled : err = .cancelled
      · subst hcancelled
        rw [told_cancelled ha, ih h]
      · rw [told_failed ha hcancelled, ← ih h]
        rfl

/-- **Every event that is read is decided on.** On reads that end it, the loop stops after the first
of them after which it must. It comes to what `Rules.run` comes to on the events among its reads,
each decided on once and in order, also one whose read cancelled the token. -/
theorem complete_folds_events (r : Rules) (block : τ → Pid → Except SourceError Unit × τ) (s : τ)
    (l : Ledger) (t : Token) (reads : List Read) (h : Ended t reads) :
    ∃ n ≤ reads.length, IsLeast {k | Ended t (reads.take k)} n ∧ ∀ bound ≥ n,
      let ran := complete (Feed.source block) r bound ⟨⟨reads, 0, s⟩, t, l, ⟨0, 0, 0⟩⟩
      let made := reads.take n
      let events := made.filterMap Read.event?
      let folded := r.run block l s events
      ran.stopped = true ∧
      ran.loop.source = ⟨reads.drop n, n, folded.source⟩ ∧
      ran.loop.ledger = folded.ledger ∧
      ran.transcript = told made folded.answers ++ [.line (stopLine ran.loop.stats)] ∧
      ran.transcript.notices = folded.notices ∧
      ran.loop.stats = ⟨events.length, made.countP Read.fails, folded.failures.length⟩ := by
  obtain ⟨n, hle, hleast, hends⟩ := h.exists_least
  refine ⟨n, hle, hleast, fun bound hbound => ?_⟩
  have hlength : (reads.take n).length = n := by rw [List.length_take, Nat.min_eq_left hle]
  have hrun := run_feed block r (reads.drop n) 0 s l ⟨0, 0, 0⟩ hends (hlength.le.trans hbound)
  rw [List.take_append_drop, hlength] at hrun
  simp only [Nat.zero_add] at hrun
  simp only [complete, hrun]
  refine ⟨trivial, trivial, trivial, trivial, ?_, trivial⟩
  have hnotices := notices_told (r.length_answers block l s ((reads.take n).filterMap Read.event?))
  rw [Transcript.notices_append, hnotices]
  exact List.append_nil _

/-- Four reads, of which the loop makes three: the third cancels the token and still answers an
event, whose block fails. -/
theorem complete_reads_until_cancelled :
    let secret : Event := ⟨7, 0, "cat", "/etc/shadow", 0⟩
    let notes : Event := ⟨7, 0, "cat", "/home/notes", 0⟩
    let reads : List Read :=
      [⟨.error .closed, false⟩, ⟨.ok notes, false⟩, ⟨.ok secret, true⟩, ⟨.ok secret, false⟩]
    let denied : Unit → Pid → Except SourceError Unit × Unit :=
      fun _ p => (.error (.block p "denied"), ())
    let r : Rules := ⟨Policy.ofTexts ["/etc/shadow"], 1, .all, by decide⟩
    let ran := complete (Feed.source denied) r 4 ⟨⟨reads, 0, ()⟩, .fresh, .empty, ⟨0, 0, 0⟩⟩
    Ended .fresh reads ∧ ran.stopped = true ∧ ran.loop.stats = ⟨2, 1, 1⟩ ∧
    ran.loop.source = ⟨[⟨.ok secret, false⟩], 3, ()⟩ ∧
    ran.transcript.notices = [.violation 7 "cat" "/etc/shadow" 1 1] := by
  intro secret notes reads denied r ran
  have hended : Ended .fresh reads := by decide
  obtain ⟨n, -, hleast, hran⟩ := complete_folds_events r denied () .empty .fresh reads hended
  have hthree : IsLeast {k | Ended .fresh (reads.take k)} 3 := by
    refine ⟨by decide, fun k hk => Nat.le_of_not_lt fun hlt => ?_⟩
    have hnone : ∀ k < 3, ¬ Ended .fresh (reads.take k) := by decide
    exact hnone k hlt hk
  obtain rfl := hleast.unique hthree
  obtain ⟨hstopped, hsource, -, -, hnotices, hstats⟩ := hran 4 (by decide)
  refine ⟨hended, hstopped, hstats.trans ?_, hsource, hnotices.trans ?_⟩ <;>
  · dsimp only [r, denied, reads, secret, notes]
    decide +kernel

end Loop
end FileWarden
