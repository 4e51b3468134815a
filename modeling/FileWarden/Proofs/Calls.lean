import FileWarden.Proofs.Loop
import FileWarden.Session

/-!
# Calls of a source

- **Recording** (`Source.recorded`): a source that writes down how it is called and what it answers.
  Loops and sessions on it come to what they come to on the source itself (`complete_recorded`,
  `Session.run_recorded`).
- **Blocks** (`blockings`): the blocks among the calls, each with what came of it.
-/

namespace FileWarden

variable {σ : Type}

/-- A block that was asked for, and what came of it. -/
structure Blocking where
  pid : Pid
  answer : Except SourceError Unit

/-- A call of a source and what it answered. -/
inductive Call where
  | next (token : Token) (answer : Except SourceError Event)
  | block (b : Blocking)
  | close (answer : Except SourceError Unit)

/-- The block that a call asked for, if it did. -/
def Call.blocking? : Call → Option Blocking
  | .block b => some b
  | .next .. => none
  | .close _ => none

/-- The blocks among calls, in order. -/
def Call.blockings (calls : List Call) : List Blocking := calls.filterMap blocking?

theorem Call.blockings_append (calls more : List Call) :
    blockings (calls ++ more) = blockings calls ++ blockings more :=
  List.filterMap_append

/-- A source that writes down its calls, in order. -/
def Source.recorded (src : Source σ) : Source (σ × List Call) where
  next s t :=
    let r := src.next s.1 t
    ⟨r.answer, r.token, r.source, s.2 ++ [.next t r.answer]⟩
  block s p :=
    let b := src.block s.1 p
    (b.1, b.2, s.2 ++ [.block ⟨p, b.1⟩])
  close s :=
    let c := src.close s.1
    (c.1, c.2, s.2 ++ [.close c.1])

/-! ## Recording changes nothing else -/

/-- A loop without the calls that were written down. -/
def Loop.unrecorded (m : Loop (σ × List Call)) : Loop σ := ⟨m.source.1, m.token, m.ledger, m.stats⟩

/-- What a part of the loop comes to, without the calls that were written down. -/
def Ran.unrecorded (ran : Ran (σ × List Call)) : Ran σ :=
  ⟨ran.loop.unrecorded, ran.transcript, ran.stopped⟩

/-- A session without the calls that were written down. -/
def Session.unrecorded (s : Session (σ × List Call)) : Session σ :=
  ⟨s.summary, s.transcript, s.source.1, s.stopped⟩

variable (src : Source σ) (r : Rules)

theorem Rules.process_recorded (l : Ledger) (s : σ × List Call) (e : Event) :
    r.process src.block l s.1 e =
      let p := r.process src.recorded.block l s e
      ⟨p.result, p.notices, p.ledger, p.source.1⟩ := by
  obtain ⟨hresult, hnotices, hledger, hsource⟩ := r.process_alike src.recorded.block src.block
    (fun a b => a.1 = b) (s := s) (e := e) rfl rfl rfl l
  simp only [hresult, hnotices, hledger, hsource]

namespace Loop

theorem turn_recorded (m : Loop (σ × List Call)) :
    m.unrecorded.turn src r = (m.turn src.recorded r).unrecorded := by
  cases h : (src.next m.source.1 m.token).answer with
  | ok e =>
    have hplain : (src.next m.unrecorded.source m.unrecorded.token).answer = .ok e := h
    have hrecorded : (src.recorded.next m.source m.token).answer = .ok e := h
    have hprocess := r.process_recorded src m.ledger (src.recorded.next m.source m.token).source e
    rw [turn_of_event hplain, turn_of_event hrecorded]
    simp only [unrecorded, Ran.unrecorded, Source.recorded] at hprocess ⊢
    simp only [hprocess]
  | error err =>
    have hplain : (src.next m.unrecorded.source m.unrecorded.token).answer = .error err := h
    have hrecorded : (src.recorded.next m.source m.token).answer = .error err := h
    by_cases hcancelled : err = .cancelled
    · subst hcancelled
      rw [turn_of_cancelled hplain, turn_of_cancelled hrecorded]
      rfl
    · rw [turn_of_failed hplain hcancelled, turn_of_failed hrecorded hcancelled]
      rfl

theorem run_recorded (bound : Nat) (m : Loop (σ × List Call)) :
    m.unrecorded.run src r bound = (m.run src.recorded r bound).unrecorded := by
  induction bound generalizing m with
  | zero => rfl
  | succ bound ih =>
    cases hrecorded : m.token.cancelled with
    | true => simp [run, hrecorded, Ran.unrecorded, unrecorded]
    | false =>
      have hplain : m.unrecorded.token.cancelled = false := hrecorded
      have hturn := turn_recorded src r m
      rcases hm : m.turn src.recorded r with ⟨m', t, _ | _⟩ <;> rw [hm] at hturn
      · rw [run_of_turn hplain hturn, run_of_turn hrecorded hm, ih]
        rfl
      · rw [run_of_turn_stopped hplain hturn, run_of_turn_stopped hrecorded hm]
        rfl

theorem complete_recorded (bound : Nat) (m : Loop (σ × List Call)) :
    m.unrecorded.complete src r bound = (m.complete src.recorded r bound).unrecorded := by
  rw [complete, run_recorded]
  rfl

end Loop

theorem Session.run_recorded (journal : Option String) (bound : Nat) (s : σ) (t : Token) :
    run src r journal bound s t = (run src.recorded r journal bound (s, []) t).unrecorded := by
  have hstart : Loop.start s t = (Loop.start (s, ([] : List Call)) t).unrecorded := rfl
  simp only [run, hstart, Loop.complete_recorded]
  rfl

end FileWarden
