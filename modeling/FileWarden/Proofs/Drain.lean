import FileWarden.Proofs.Protocol
import FileWarden.Proofs.Replay
import FileWarden.Proofs.Supply

/-!
# The loop on a replay

The loop has no end of its own: it reads until its token is cancelled. On a replay that cancels its
reader the events that are left get fewer with each read, and the read after the last of them
cancels the token.

- **Supplies that count** (`Source.Drains.recorded`): a supply that writes down its calls is a
  supply. The reads it has answered and the events it has left add up to the same number throughout.
- **Replays** (`Replay.drains`): a replay that cancels its reader is a supply, also one that rejects
  its blocks. It notes the processes that cross the threshold (`blockAll_block`).
- **Failures** (`Rules.pids_failures`): blocks that all come to the same fail for every process that
  crosses, or for none.
- **The whole loop** (`Loop.replay_drained`): its counts on such a replay, and that it leaves one
  alone if it starts with a token that is cancelled.
-/

namespace FileWarden

/-! ## Supplies -/

/-- A supply that writes down its calls is a supply. Each read that answers an event takes one of
those that are left, and no block is a read. -/
theorem Source.Drains.recorded {σ τ : Type} {src : Source σ}
    {block : τ → Pid → Except SourceError Unit × τ} {holds : σ → τ → List Event → Prop}
    (h : src.Drains block holds) (total : Nat) :
    src.recorded.Drains block fun s b es =>
      holds s.1 b es ∧ s.2.countP Call.isNext + es.length = total where
  next {s b e es t} hs ht := by
    obtain ⟨hanswer, htoken, hnext⟩ := h.next hs.1 ht
    refine ⟨hanswer, htoken, hnext, ?_⟩
    show (s.2 ++ [Call.next t _]).countP Call.isNext + es.length = total
    rw [List.countP_append, ← hs.2, List.length_cons, Nat.add_assoc, Nat.add_comm es.length]
    rfl
  last hs ht := h.last hs.1 ht
  block {s b es} p hs := by
    obtain ⟨hanswer, hblock⟩ := h.block p hs.1
    refine ⟨hanswer, hblock, ?_⟩
    rw [← hs.2, Source.recorded, List.countP_append]
    rfl

namespace Replay

variable {r : Replay}

/-- A replay that is open and cancels its reader is a supply of the events that are left. Its blocks
look at its settings only. -/
theorem drains : source.Drains Replay.block fun s b es =>
    s = { b with pending := es } ∧ b.closed = false ∧ b.atEnd = .cancelReader where
  next {s b e es t} hs ht := by
    obtain ⟨rfl, hopen, hend⟩ := hs
    obtain ⟨hnext, -⟩ := next_of_pending (r := { b with pending := e :: es }) hopen ht rfl
    exact ⟨congrArg (·.answer) hnext, congrArg (·.token) hnext, congrArg (·.source) hnext, hopen,
      hend⟩
  last {s b t} hs ht := by
    obtain ⟨rfl, hopen, -⟩ := hs
    obtain ⟨hnext, -⟩ := next_of_drained (r := { b with pending := [] }) hopen ht rfl
    exact ⟨congrArg (·.answer) hnext, congrArg (·.token) hnext⟩
  block {s b es} p hs := by
    obtain ⟨rfl, hopen, hend⟩ := hs
    have hblock := block_of_open (r := { b with pending := es }) hopen p
    rw [block_of_open hopen p]
    exact ⟨congrArg (·.1) hblock, congrArg (·.2) hblock, hopen, hend⟩

/-- An open replay notes the processes that it is asked to block. -/
theorem blockAll_block (hopen : r.closed = false) (ps : List Pid) :
    Rules.blockAll Replay.block r ps = { r with calls := r.calls ++ ps } := by
  induction ps generalizing r with
  | nil => rw [List.append_nil]; rfl
  | cons p ps ih =>
    have hcons : Rules.blockAll Replay.block r (p :: ps) =
        Rules.blockAll Replay.block (r.block p).2 ps := rfl
    have hrest := ih (r := { r with calls := r.calls ++ [p] }) hopen
    rw [hcons, block_of_open hopen]
    simpa using hrest

end Replay

/-! ## Failures -/

namespace Rules

variable {σ : Type} {r : Rules} {block : σ → Pid → Except SourceError Unit × σ} {s : σ}

/-- A block fails only for an event that crosses, and for no process but its own. -/
theorem pid_failureAt (before : List Event) (e : Event) (b : Except SourceError Unit) :
    (Run.failure? (r.answerAt before e b)).toList.map BlockFailure.pid =
      if r.crosses before e ∧ b.isOk = false then [e.pid] else [] := by
  cases hanswer : r.answerAt before e b with
  | error f =>
    obtain ⟨hcross, hpid, rfl⟩ := (answerAt_error_iff before e b f).mp hanswer
    simp [Run.failure?, hcross, hpid, Except.isOk, Except.toBool]
  | ok outcome =>
    rw [if_neg]
    · rfl
    rintro ⟨hcross, hfails⟩
    cases b with
    | ok => cases hfails
    | error cause =>
      have hfailure := (answerAt_error_iff before e (.error cause) ⟨e.pid, cause⟩).mpr
        ⟨hcross, rfl, rfl⟩
      rw [hanswer] at hfailure
      cases hfailure

/-- If all blocks come to the same, none fails, or they fail for each process that crosses. -/
theorem pids_failures {ok : Bool} (h : ∀ before e, (r.blockAnswer block s before e).isOk = ok)
    (es : List Event) : (r.run block .empty s es).failures.map BlockFailure.pid =
      if ok then [] else r.crossings es := by
  induction es using List.reverseRecOn with
  | nil => cases ok <;> rfl
  | append_singleton es e ih =>
    rw [failures_concat, List.map_append, ih, pid_failureAt, h, crossings_concat]
    cases ok <;> simp

theorem length_crossings (r : Rules) (block : σ → Pid → Except SourceError Unit × σ) (s : σ)
    (es : List Event) :
    (r.crossings es).length = (r.run block .empty s es).ledger.blocked.length := by
  rw [← (r.perm_crossings block s es).length_eq, (r.perm_blocked block s es).length_eq]

/-- The blocks of an open replay all fail, or none does. -/
theorem length_failures_replay (r : Rules) {replay : Replay} (hopen : replay.closed = false)
    (es : List Event) : (r.run Replay.block .empty replay es).failures.length =
      if replay.rejecting then (r.crossings es).length else 0 := by
  have hanswers (before : List Event) (e : Event) :
      (r.blockAnswer Replay.block replay before e).isOk = !replay.rejecting := by
    have hblock := Replay.block_of_open
      (r := { replay with calls := replay.calls ++ r.crossings before }) hopen e.pid
    rw [blockAnswer, Replay.blockAll_block hopen, hblock]
    cases replay.rejecting <;> rfl
  rw [← List.length_map, pids_failures hanswers]
  cases replay.rejecting <;> rfl

end Rules

/-! ## The whole loop -/

namespace Loop

/-- A loop whose token is cancelled does nothing. -/
theorem run_of_cancelled {σ : Type} {src : Source σ} {m : Loop σ} (h : m.token.cancelled = true)
    (r : Rules) (bound : Nat) : m.run src r bound = ⟨m, [], true⟩ := by
  cases bound <;> simp [run, h]

/-- The loop empties a replay that cancels its reader. The read that finds nothing left is the last,
and leaves the replay as it is. -/
theorem run_replay (r : Rules) (es : List Event) (rejecting : Bool) {bound : Nat}
    (hbound : es.length < bound) :
    let replay := Replay.untilDrained es rejecting
    let folded := r.run Replay.block .empty replay es
    let ran := run Replay.source.recorded r bound (start (replay, []) .fresh)
    ran.stopped = true ∧ ∃ calls, calls.countP Call.isNext = es.length + 1 ∧
      ran.loop = ⟨({ replay with pending := [], calls := r.crossings es }, calls),
        Token.fresh.cancel, folded.ledger, ⟨es.length, 0, folded.failures.length⟩⟩ := by
  intro replay folded ran
  let left : Replay := { replay with pending := [], calls := r.crossings es }
  have hstart : (replay = { replay with pending := es } ∧ replay.closed = false ∧
      replay.atEnd = .cancelReader) ∧ ([] : List Call).countP Call.isNext + es.length = es.length :=
    ⟨⟨rfl, rfl, rfl⟩, Nat.zero_add _⟩
  obtain ⟨last, ⟨⟨hlast, -⟩, hreads⟩, hrun⟩ := (Replay.drains.recorded es.length).run_drained
    (s := (replay, [])) hstart (rfl : Token.fresh.cancelled = false) r .empty ⟨0, 0, 0⟩ hbound
  have hleft : last.1 = left := by
    rw [hlast, r.source_run, Replay.blockAll_block rfl]
    rfl
  obtain ⟨hnext, -⟩ := Replay.next_of_drained (r := left) (t := .fresh) rfl rfl rfl
  refine ⟨congrArg Ran.stopped hrun, last.2 ++ [.next .fresh (.error .cancelled)], ?_,
    (congrArg Ran.loop hrun).trans ?_⟩
  · rw [List.countP_append, ← hreads]
    rfl
  · have hread : Replay.source.recorded.next last .fresh =
        ⟨.error .cancelled, Token.fresh.cancel, left,
          last.2 ++ [.next .fresh (.error .cancelled)]⟩ := by
      simp only [Source.recorded, Replay.source, hleft, hnext]
    simp only [hread, Nat.zero_add]
    rfl

/-- **The loop drains a replay.** On a replay that cancels its reader, the loop stops by itself
after one read more than there are events, and each blocked process was asked for once. With a token
that is cancelled at the start, nothing is called. That the calls are written down changes nothing.
-/
theorem replay_drained (r : Rules) (es : List Event) (rejecting : Bool) (bound : Nat) :
    let replay := Replay.untilDrained es rejecting
    let whole (t : Token) := complete Replay.source.recorded r bound (start (replay, []) t)
    (∀ t, complete Replay.source r bound (start replay t) = (whole t).unrecorded) ∧
    (es.length < bound →
      let ran := whole .fresh
      let blocked := ran.loop.ledger.blocked
      ran.stopped = true ∧ ran.loop.token.cancelled = true ∧
      ran.loop.source.2.countP Call.isNext = es.length + 1 ∧
      ran.loop.stats = ⟨es.length, 0, if rejecting then blocked.length else 0⟩ ∧
      ran.loop.source.1.pending = [] ∧ ran.loop.source.1.totalCalls = blocked.length) ∧
    whole Token.fresh.cancel =
      ⟨start (replay, []) Token.fresh.cancel, [.line (stopLine ⟨0, 0, 0⟩)], true⟩ := by
  intro replay whole
  refine ⟨fun t => complete_recorded Replay.source r bound (start (replay, []) t),
    fun hbound => ?_, ?_⟩
  · obtain ⟨hstopped, calls, hreads, hloop⟩ := run_replay r es rejecting hbound
    intro ran blocked
    have hran : ran.loop = _ := hloop
    have hblocked : blocked.length = (r.crossings es).length := by
      rw [r.length_crossings Replay.block replay es]
      exact congrArg (·.ledger.blocked.length) hran
    rw [hran, r.length_failures_replay rfl, hblocked]
    exact ⟨hstopped, rfl, hreads, rfl, rfl, Replay.totalCalls_eq_length _⟩
  · unfold whole complete
    rw [run_of_cancelled rfl]
    rfl

end Loop
end FileWarden
