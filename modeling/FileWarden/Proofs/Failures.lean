import FileWarden.Proofs.Calls
import FileWarden.Source.Script

/-!
# Failed blocks

A block that fails changes nothing but what is reported about it. Two runs are compared whose reads
are answered alike, and whose blocks come to what they may.

- **Courses** (`Course.Told`): what happens in a run, with the outcome of its blocks left open. With
  their outcomes it is told as a transcript: a block that succeeds is a notice, one that fails is a
  warning in the same place.
- **One read** (`Rules.reaction`): what follows from the answer of a read is told by the ledger
  before it, but for the outcome of a block (`Loop.turn_told`).
- **One run** (`Ran.Follows`): a run follows a course, asks for the blocks in it, and counts those
  that fail.
- **Two runs** (`Loop.run_alike`): the loops stay alike, up to their counts of failed blocks, and
  follow one course.
- **The whole loop** (`Loop.failed_blocks_only_reported`): all of this of `Loop.complete`.
-/

namespace FileWarden

variable {σ τ : Type}

/-! ## Outcomes of blocks -/

/-- Whether a block failed. -/
def Blocking.failed (b : Blocking) : Bool :=
  match b.answer with
  | .ok () => false
  | .error _ => true

/-- A call, as it would be if blocks succeeded. -/
def Call.asIfBlocked : Call → Call
  | .block b => .block ⟨b.pid, .ok ()⟩
  | c => c

theorem Call.asIfBlocked_map_block (bs : List Blocking) :
    (bs.map Call.block).map asIfBlocked = (bs.map Blocking.pid).map (.block ⟨·, .ok ()⟩) := by
  simp [Function.comp_def, asIfBlocked]

theorem Call.blockings_map_block (bs : List Blocking) : blockings (bs.map .block) = bs := by
  simp [blockings, List.filterMap_map, Function.comp_def, blocking?]

/-- Whether a notice is about a violation. -/
def Notice.isViolation : Notice → Bool
  | .violation .. => true
  | .blocked .. => false

/-! ## Courses -/

/-- A piece of what happens in a loop. It leaves open what comes of a block. -/
inductive Piece where
  | line (l : LogLine)
  | violation (e : Event) (count threshold : Count)
  | block (e : Event) (count : Count)

/-- What happens in a loop, in order. -/
abbrev Course := List Piece

namespace Course

variable {c c' : Course} {bs bs' : List Blocking} {t t' : Transcript}

/-- A course is told, with the outcomes of its blocks. -/
inductive Told : Course → List Blocking → Transcript → Prop
  | nil : Told [] [] []
  | line (l : LogLine) {c bs t} : Told c bs t → Told (.line l :: c) bs (.line l :: t)
  | violation (e : Event) (n m : Count) {c bs t} : Told c bs t →
      Told (.violation e n m :: c) bs (.notice (.violation e.pid e.comm e.path n m) :: t)
  | blocked (e : Event) (n : Count) {c bs t} : Told c bs t →
      Told (.block e n :: c) (⟨e.pid, .ok ()⟩ :: bs) (.notice (.blocked e.pid e.comm n) :: t)
  | failed (e : Event) (n : Count) (cause : SourceError) {c bs t} : Told c bs t →
      Told (.block e n :: c) (⟨e.pid, .error cause⟩ :: bs)
        (.line (Loop.blockFailureLine ⟨e.pid, cause⟩) :: t)

/-- The processes that are to be blocked in a course. -/
def pids (c : Course) : List Pid :=
  c.filterMap fun
    | .block e _ => some e.pid
    | .line _ => none
    | .violation .. => none

/-- The notices of the violations in a course. -/
def violations (c : Course) : List Notice :=
  c.filterMap fun
    | .violation e n m => some (.violation e.pid e.comm e.path n m)
    | .line _ => none
    | .block .. => none

namespace Told

theorem append (h : Told c bs t) (h' : Told c' bs' t') :
    Told (c ++ c') (bs ++ bs') (t ++ t') := by
  induction h with
  | nil => exact h'
  | line l _ ih => exact .line l ih
  | violation e n m _ ih => exact .violation e n m ih
  | blocked e n _ ih => exact .blocked e n ih
  | failed e n cause _ ih => exact .failed e n cause ih

/-- The blocks that are asked for are those of the course. -/
theorem map_pid (h : Told c bs t) : bs.map Blocking.pid = pids c := by
  induction h with
  | nil => rfl
  | line l _ ih => exact ih
  | violation e n m _ ih => exact ih
  | blocked e n _ ih => exact congrArg (e.pid :: ·) ih
  | failed e n cause _ ih => exact congrArg (e.pid :: ·) ih

/-- The violations that are reported are those of the course. -/
theorem filter_isViolation (h : Told c bs t) :
    t.notices.filter Notice.isViolation = violations c := by
  induction h with
  | nil => rfl
  | line l _ ih => exact ih
  | violation e n m _ ih => exact congrArg (.violation e.pid e.comm e.path n m :: ·) ih
  | blocked e n _ ih => exact ih
  | failed e n cause _ ih => exact ih

/-- The processes that are reported as blocked are those whose blocks succeed. -/
theorem blockedPids_notices (h : Told c bs t) :
    Notice.blockedPids t.notices = (bs.filter (!·.failed)).map Blocking.pid := by
  induction h with
  | nil => rfl
  | line l _ ih => exact ih
  | violation e n m _ ih => exact ih
  | blocked e n _ ih => exact congrArg (e.pid :: ·) ih
  | failed e n cause _ ih => exact ih

end Told
end Course

/-! ## One event -/

/-- What happens at an event, as the ledger before it tells. -/
def Rules.courseAt (r : Rules) (l : Ledger) (e : Event) : Course :=
  .line (Loop.openLine e) :: match (r.judge l e).1 with
    | .notTargeted => []
    | .allowed => []
    | .counted n => [.violation e n r.threshold]
    | .crossed n => [.violation e n r.threshold, .block e n]

/-- Whatever comes of a block, an event is judged by the ledger, follows its course, and has the
source asked for the blocks of that. -/
theorem Rules.process_recorded_told (src : Source σ) (r : Rules) (l : Ledger) (s : σ × List Call)
    (e : Event) :
    let p := r.process src.recorded.block l s e
    p.ledger = (r.judge l e).2 ∧ ∃ bs : List Blocking,
      p.source = (blockAll src.block s.1 (bs.map Blocking.pid), s.2 ++ bs.map .block) ∧
      (Run.failure? p.result).toList.length = bs.countP Blocking.failed ∧
      (r.courseAt l e).Told bs (Loop.entries e (p.result, p.notices)) := by
  simp only [process, processSeeing, courseAt]
  rcases r.judge l e with ⟨_ | _ | n | n, l'⟩
  case notTargeted => exact ⟨rfl, [], by simp [blockAll], rfl, .line _ .nil⟩
  case allowed => exact ⟨rfl, [], by simp [blockAll], rfl, .line _ .nil⟩
  case counted => exact ⟨rfl, [], by simp [blockAll], rfl, .line _ (.violation e n _ .nil)⟩
  case crossed =>
    simp only [Source.recorded]
    rcases hblock : src.block s.1 e.pid with ⟨cause | _, s'⟩
    · exact ⟨rfl, [⟨e.pid, .error cause⟩], by simp [blockAll, hblock], rfl,
        .line _ (.violation e n _ (.failed e n cause .nil))⟩
    · exact ⟨rfl, [⟨e.pid, .ok ()⟩], by simp [blockAll, hblock], rfl,
        .line _ (.violation e n _ (.blocked e n .nil))⟩

/-- What follows from a read, up to what comes of the blocks. -/
structure Reaction where
  course : Course
  /-- Whether the loop stops. -/
  stopped : Bool
  ledger : Ledger
  /-- How many events were read, and how many reads failed. -/
  events : Nat
  readErrors : Nat

/-- What follows from the answer of a read, as the ledger before it tells. -/
def Rules.reaction (r : Rules) (l : Ledger) : Except SourceError Event → Reaction
  | .ok e => ⟨r.courseAt l e, false, (r.judge l e).2, 1, 0⟩
  | .error .cancelled => ⟨[], true, l, 0, 0⟩
  | .error err => ⟨[.line (Loop.readErrorLine err)], false, l, 0, 1⟩

/-! ## One run -/

/-- A part of a loop that begins with `m` follows a course: it asks for the blocks of that, tells it
with their outcomes, and counts those that fail. -/
def Ran.Follows (m : Loop (σ × List Call)) (ran : Ran (σ × List Call)) (c : Course) : Prop :=
  ∃ calls, ran.loop.source.2 = m.source.2 ++ calls ∧
    c.Told (Call.blockings calls) ran.transcript ∧
    ran.loop.stats.processErrors =
      m.stats.processErrors + (Call.blockings calls).countP Blocking.failed

theorem Ran.Follows.trans {m : Loop (σ × List Call)} {first rest : Ran (σ × List Call)}
    {c c' : Course} (h : Follows m first c) (h' : Follows first.loop rest c') (stopped : Bool) :
    Follows m ⟨rest.loop, first.transcript ++ rest.transcript, stopped⟩ (c ++ c') := by
  obtain ⟨calls, hcalls, htold, hfailures⟩ := h
  obtain ⟨calls', hcalls', htold', hfailures'⟩ := h'
  refine ⟨calls ++ calls', ?_, ?_, ?_⟩
  · rw [hcalls', hcalls, List.append_assoc]
  · rw [Call.blockings_append]
    exact htold.append htold'
  · rw [hfailures', hfailures, Call.blockings_append, List.countP_append, Nat.add_assoc]

/-! ## Two runs -/

/-- Sources that answer reads alike in states that are alike. A block is answered by each as it
likes, and leaves them alike. -/
structure Source.ReadsAlike (src : Source σ) (src' : Source τ) (alike : σ → τ → Prop) : Prop where
  next : ∀ {s s'} t, alike s s' → (src.next s t).answer = (src'.next s' t).answer ∧
    (src.next s t).token = (src'.next s' t).token ∧
    alike (src.next s t).source (src'.next s' t).source
  block : ∀ {s s'} p, alike s s' → alike (src.block s p).2 (src'.block s' p).2

/-- Loops that are alike up to what came of their blocks. -/
structure Loop.Alike (alike : σ → τ → Prop) (m : Loop (σ × List Call))
    (m' : Loop (τ × List Call)) : Prop where
  source : alike m.source.1 m'.source.1
  calls : m.source.2.map Call.asIfBlocked = m'.source.2.map Call.asIfBlocked
  token : m.token = m'.token
  ledger : m.ledger = m'.ledger
  events : m.stats.events = m'.stats.events
  readErrors : m.stats.readErrors = m'.stats.readErrors

/-- Two parts of loops stop alike, and follow one course. -/
structure Ran.Alike (alike : σ → τ → Prop) (m : Loop (σ × List Call)) (m' : Loop (τ × List Call))
    (ran : Ran (σ × List Call)) (ran' : Ran (τ × List Call)) : Prop where
  stopped : ran.stopped = ran'.stopped
  loop : ran.loop.Alike alike ran'.loop
  course : ∃ c, ran.Follows m c ∧ ran'.Follows m' c

/-- What a whole loop tells of a course: the course with the outcomes of its blocks, and the last
line. Of the blocks in it, those that fail are counted, and the others are reported. -/
structure Ran.Tells (ran : Ran (σ × List Call)) (c : Course) : Prop where
  transcript : ∃ told, c.Told (Call.blockings ran.loop.source.2) told ∧
    ran.transcript = told ++ [.line (Loop.stopLine ran.loop.stats)]
  failures : ran.loop.stats.processErrors =
    (Call.blockings ran.loop.source.2).countP Blocking.failed
  blocked : Notice.blockedPids ran.transcript.notices =
    ((Call.blockings ran.loop.source.2).filter (!·.failed)).map Blocking.pid
  blocks : (Call.blockings ran.loop.source.2).map Blocking.pid = c.pids
  violations : ran.transcript.notices.filter Notice.isViolation = c.violations

variable {src : Source σ} {src' : Source τ} {alike : σ → τ → Prop}

theorem Source.ReadsAlike.blockAll (h : src.ReadsAlike src' alike) {s : σ} {s' : τ}
    (hs : alike s s') (ps : List Pid) :
    alike (Rules.blockAll src.block s ps) (Rules.blockAll src'.block s' ps) := by
  induction ps generalizing s s' with
  | nil => exact hs
  | cons p ps ih => exact ih (h.block p hs)

/-- Scripts of the same items answer reads alike, whatever blocks they fail. -/
theorem Script.readsAlike : Script.source.ReadsAlike Script.source (·.items = ·.items) where
  next {s s'} t hs := by
    have hs : s.items = s'.items := hs
    simp only [Script.source, Script.next, hs, and_self]
  block p hs := hs

namespace Loop

variable {m : Loop (σ × List Call)} {m' : Loop (τ × List Call)}

/-- Without a read, nothing happens. -/
theorem Alike.ran (hm : m.Alike alike m') (stopped : Bool) :
    Ran.Alike alike m m' ⟨m, [], stopped⟩ ⟨m', [], stopped⟩ :=
  ⟨rfl, hm, [], ⟨[], (List.append_nil _).symm, .nil, rfl⟩,
    ⟨[], (List.append_nil _).symm, .nil, rfl⟩⟩

/-- A turn of the loop follows from the answer of its read and the ledger before it, but for what
comes of the blocks. -/
theorem turn_told (r : Rules) {a : Except SourceError Event}
    (h : (src.next m.source.1 m.token).answer = a) :
    let read := src.next m.source.1 m.token
    let ran := m.turn src.recorded r
    let reaction := r.reaction m.ledger a
    ran.Follows m reaction.course ∧ ran.stopped = reaction.stopped ∧
    ran.loop.source.1 = Rules.blockAll src.block read.source reaction.course.pids ∧
    ran.loop.source.2.map Call.asIfBlocked = m.source.2.map Call.asIfBlocked ++
      .next m.token a :: reaction.course.pids.map (.block ⟨·, .ok ()⟩) ∧
    ran.loop.token = read.token ∧ ran.loop.ledger = reaction.ledger ∧
    ran.loop.stats.events = m.stats.events + reaction.events ∧
    ran.loop.stats.readErrors = m.stats.readErrors + reaction.readErrors := by
  have hrecorded : (src.recorded.next m.source m.token).answer = a := h
  have hcall : (src.recorded.next m.source m.token).source.2 = m.source.2 ++ [.next m.token a] := by
    rw [← h]
    rfl
  have hmap : (m.source.2 ++ [Call.next m.token a]).map Call.asIfBlocked =
      m.source.2.map Call.asIfBlocked ++ [.next m.token a] := List.map_append
  cases a with
  | ok e =>
    have hblockings (bs : List Blocking) :
        Call.blockings (.next m.token (.ok e) :: bs.map .block) = bs := Call.blockings_map_block bs
    obtain ⟨hledger, bs, hsource, hfailures, htold⟩ :=
      r.process_recorded_told src m.ledger (src.recorded.next m.source m.token).source e
    rw [turn_of_event hrecorded]
    dsimp only
    refine ⟨⟨.next m.token (.ok e) :: bs.map .block, ?_, ?_, ?_⟩, rfl, ?_, ?_, rfl, hledger, rfl,
      rfl⟩
    · rw [hsource, hcall, List.append_assoc]
      rfl
    · rw [hblockings]
      exact htold
    · rw [hblockings, hfailures]
    · rw [hsource, htold.map_pid]
      rfl
    · rw [hsource, hcall, List.map_append, hmap, Call.asIfBlocked_map_block, htold.map_pid,
        List.append_assoc]
      rfl
  | error err =>
    have hcalls := (congrArg (List.map Call.asIfBlocked) hcall).trans hmap
    by_cases hcancelled : err = .cancelled
    · subst hcancelled
      rw [turn_of_cancelled hrecorded]
      exact ⟨⟨_, hcall, .nil, rfl⟩, rfl, rfl, hcalls, rfl, rfl, rfl, rfl⟩
    · have hreaction : r.reaction m.ledger (.error err) =
          ⟨[.line (readErrorLine err)], false, m.ledger, 0, 1⟩ := by
        cases err <;> first | exact absurd rfl hcancelled | rfl
      rw [turn_of_failed hrecorded hcancelled, hreaction]
      exact ⟨⟨_, hcall, .line _ .nil, rfl⟩, rfl, rfl, hcalls, rfl, rfl, rfl, rfl⟩

/-- One read: both loops react alike. -/
theorem turn_alike (h : src.ReadsAlike src' alike) (r : Rules) (hm : m.Alike alike m') :
    Ran.Alike alike m m' (m.turn src.recorded r) (m'.turn src'.recorded r) := by
  obtain ⟨hanswer, hread, hnext⟩ := h.next m.token hm.source
  rw [hm.token] at hread hnext
  have hanswer' : (src'.next m'.source.1 m'.token).answer =
      (src.next m.source.1 m.token).answer := by
    rw [hanswer, hm.token]
  -- Both react to the same answer, with the same ledger.
  obtain ⟨hfollows, hstopped, hsource, hcalls, htoken, hledger, hevents, hreadErrors⟩ :=
    turn_told r (rfl : (src.next m.source.1 m.token).answer = _)
  obtain ⟨hfollows', hstopped', hsource', hcalls', htoken', hledger', hevents', hreadErrors'⟩ :=
    turn_told r hanswer'
  rw [hm.ledger] at hfollows hstopped hsource hcalls hledger hevents hreadErrors
  refine ⟨hstopped.trans hstopped'.symm, ⟨?_, ?_, ?_, ?_, ?_, ?_⟩, _, hfollows, hfollows'⟩
  · rw [hsource, hsource', hm.token]
    exact h.blockAll hnext _
  · rw [hcalls, hcalls', hm.calls, hm.token]
  · rw [htoken, htoken', hm.token, hread]
  · rw [hledger, hledger']
  · rw [hevents, hevents', hm.events]
  · rw [hreadErrors, hreadErrors', hm.readErrors]

/-- All reads: whatever came of the blocks before, the next read is made alike. -/
theorem run_alike (h : src.ReadsAlike src' alike) (r : Rules) (bound : Nat)
    (hm : m.Alike alike m') :
    Ran.Alike alike m m' (m.run src.recorded r bound) (m'.run src'.recorded r bound) := by
  induction bound generalizing m m' with
  | zero =>
    rw [run, run, hm.token]
    exact hm.ran _
  | succ bound ih =>
    cases hfresh : m'.token.cancelled with
    | true =>
      rw [run, run, hm.token, hfresh]
      exact hm.ran true
    | false =>
      have hplain : m.token.cancelled = false := by rw [hm.token, hfresh]
      obtain ⟨hstopped, hloop, c, hfollows, hfollows'⟩ := turn_alike h r hm
      rcases hfirst : m.turn src.recorded r with ⟨n, t, stopped⟩
      rcases hfirst' : m'.turn src'.recorded r with ⟨n', t', stopped'⟩
      rw [hfirst] at hstopped hloop hfollows
      rw [hfirst'] at hstopped hloop hfollows'
      obtain rfl : stopped = stopped' := hstopped
      cases stopped with
      | true =>
        rw [run_of_turn_stopped hplain hfirst, run_of_turn_stopped hfresh hfirst']
        exact ⟨rfl, hloop, c, hfollows, hfollows'⟩
      | false =>
        rw [run_of_turn hplain hfirst, run_of_turn hfresh hfirst']
        obtain ⟨hstopped, hloop, c', hrest, hrest'⟩ := ih hloop
        exact ⟨hstopped, hloop, c ++ c', hfollows.trans hrest _, hfollows'.trans hrest' _⟩

/-- A loop that follows a course from its start tells it. -/
theorem tells_of_follows {s : σ} {t : Token} {r : Rules} {bound : Nat} {c : Course}
    (h : Ran.Follows (start (s, []) t) (run src.recorded r bound (start (s, []) t)) c) :
    (complete src.recorded r bound (start (s, []) t)).Tells c := by
  obtain ⟨calls, hcalls, htold, hfailures⟩ := h
  obtain rfl := hcalls.trans (List.nil_append _)
  have hnotices : Transcript.notices (complete src.recorded r bound (start (s, []) t)).transcript =
      (run src.recorded r bound (start (s, []) t)).transcript.notices :=
    (Transcript.notices_append ..).trans (List.append_nil _)
  refine ⟨⟨_, htold, rfl⟩, hfailures.trans (Nat.zero_add _), ?_, htold.map_pid, ?_⟩
  · rw [hnotices, htold.blockedPids_notices]
    rfl
  · rw [hnotices, htold.filter_isViolation]

/-- **A failed block changes only what is reported about it.** Two loops on sources whose reads are
answered alike make the same reads, ask for the same blocks and end with equal ledgers. Both tell
one course, in which a failure takes the place of a block. That the calls are written down changes
nothing. -/
theorem failed_blocks_only_reported (h : src.ReadsAlike src' alike) {s : σ} {s' : τ}
    (hs : alike s s') (r : Rules) (t : Token) (bound : Nat) :
    let ran := complete src.recorded r bound (start (s, []) t)
    let ran' := complete src'.recorded r bound (start (s', []) t)
    (complete src r bound (start s t) = ran.unrecorded ∧
      complete src' r bound (start s' t) = ran'.unrecorded) ∧
    ran.stopped = ran'.stopped ∧ ran.loop.token = ran'.loop.token ∧
    ran.loop.ledger = ran'.loop.ledger ∧
    ran.loop.source.2.map Call.asIfBlocked = ran'.loop.source.2.map Call.asIfBlocked ∧
    (Call.blockings ran.loop.source.2).map Blocking.pid =
      (Call.blockings ran'.loop.source.2).map Blocking.pid ∧
    ran.transcript.notices.filter Notice.isViolation =
      ran'.transcript.notices.filter Notice.isViolation ∧
    ran.loop.stats.events = ran'.loop.stats.events ∧
    ran.loop.stats.readErrors = ran'.loop.stats.readErrors ∧
    ∃ c : Course, ran.Tells c ∧ ran'.Tells c := by
  intro ran ran'
  have hstart : Alike alike (start (s, []) t) (start (s', []) t) := ⟨hs, rfl, rfl, rfl, rfl, rfl⟩
  obtain ⟨hstopped, hloop, c, hfollows, hfollows'⟩ := run_alike h r bound hstart
  have htells : ran.Tells c := tells_of_follows hfollows
  have htells' : ran'.Tells c := tells_of_follows hfollows'
  refine ⟨⟨complete_recorded src r bound (start (s, []) t),
      complete_recorded src' r bound (start (s', []) t)⟩, hstopped, hloop.token,
    hloop.ledger, hloop.calls, ?_, ?_, hloop.events, hloop.readErrors, c, htells, htells'⟩
  · rw [htells.blocks, htells'.blocks]
  · rw [htells.violations, htells'.violations]

/-- The first block fails or does not. Process 7 goes on reading, and is not blocked again. -/
theorem failed_block_of_script :
    let opens (p : Pid) : Script.Item := .answer (.ok ⟨p, 0, "cat", "/etc/shadow", 0⟩)
    let script (failing : List Pid) : Script :=
      ⟨[opens 7, opens 8, opens 7, .answer (.error .closed), opens 7], failing, [], none⟩
    let r : Rules := ⟨Policy.ofTexts ["/etc/shadow"], 2, .all, by decide⟩
    let ran (failing : List Pid) :=
      complete Script.source.recorded r 6 (start (script failing, []) .fresh)
    (script []).items = (script [7]).items ∧
    (ran []).loop.ledger = (ran [7]).loop.ledger ∧ (ran []).stopped = (ran [7]).stopped ∧
    (Call.blockings (ran []).loop.source.2).map Blocking.pid =
      (Call.blockings (ran [7]).loop.source.2).map Blocking.pid ∧
    (ran []).transcript.notices.filter Notice.isViolation =
      (ran [7]).transcript.notices.filter Notice.isViolation ∧
    (ran [7]).stopped = true ∧ (ran [7]).loop.ledger.blocked = [7] ∧
    (ran []).loop.stats = ⟨4, 1, 0⟩ ∧ Notice.blockedPids (ran []).transcript.notices = [7] ∧
    (ran [7]).loop.stats = ⟨4, 1, 1⟩ ∧ Notice.blockedPids (ran [7]).transcript.notices = [] := by
  intro opens script r ran
  have halike : (script []).items = (script [7]).items := rfl
  obtain ⟨-, hstopped, -, hledger, -, hpids, hviolations, -⟩ :=
    failed_blocks_only_reported Script.readsAlike halike r .fresh 6
  refine ⟨halike, hledger, hstopped, hpids, hviolations, ?_⟩
  dsimp only [ran, r, script, opens]
  decide +kernel

end Loop
end FileWarden
