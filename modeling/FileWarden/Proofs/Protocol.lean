import FileWarden.Proofs.Calls
import FileWarden.Proofs.Command
import FileWarden.Source.Script

/-!
# The order of calls

- **Use** (`Source.Used`): how a reader may call a source up to its close. What it may do next is
  told by where it stands (`Standing`): by its last call, and by its token.
- **Sessions** (`Session.used_run`): every session uses its source so. One turn of the loop makes
  one read, and at most one block behind it (`Loop.usedTo_turn`).
- **Order** (`Source.InOrder`): what this says of the calls one by one (`Source.Used.inOrder`). The
  source is closed once, at the end; a block is for the event that was just read; and nothing is
  read after a read that was cancelled, or with a token that is cancelled.
- **Commands** (`Command.calls_in_order`): the calls of a command that starts a session.
-/

namespace FileWarden

variable {σ ω : Type} {src : Source σ} {calls earlier later : List Call}

namespace Call

/-- Whether a call is a read. -/
def isNext : Call → Bool
  | next .. => true
  | block _ => false
  | close _ => false

/-- Whether a call closes the source. -/
def isClose : Call → Bool
  | next .. => false
  | block _ => false
  | close _ => true

end Call

/-! ## Use -/

/-- What the last call of a reader allows. -/
inductive Stage where
  | ready
  /-- An event of this process was read, so the process may be blocked. -/
  | holding (p : Pid)
  /-- A read was cancelled, so the source is to be closed. -/
  | over

/-- What a read allows. -/
def Stage.ofRead : Except SourceError Event → Stage
  | .ok e => .holding e.pid
  | .error .cancelled => .over
  | .error _ => .ready

theorem Stage.ofRead_of_failed {err : SourceError} (h : err ≠ .cancelled) :
    ofRead (.error err) = .ready := by
  cases err with
  | cancelled => exact absurd rfl h
  | _ => rfl

/-- Where a reader stands: what its last call allows, the state of the source and its token. -/
structure Standing (σ : Type) where
  stage : Stage
  source : σ
  token : Token

namespace Standing

/-- Where a reader begins. -/
def start (s : σ) (t : Token) : Standing σ := ⟨.ready, s, t⟩

/-- Where a reader stands after a call. -/
def after (src : Source σ) (x : Standing σ) : Call → Standing σ
  | .next _ answer =>
    ⟨.ofRead answer, (src.next x.source x.token).source, (src.next x.source x.token).token⟩
  | .block b => ⟨.ready, (src.block x.source b.pid).2, x.token⟩
  | .close _ => ⟨.over, (src.close x.source).2, x.token⟩

/-- Nothing more is to be read. -/
def Ended (x : Standing σ) : Prop := x.stage = .over ∨ x.token.cancelled = true

/-- A process is to be blocked only right after a read of one of its events. -/
theorem exists_of_holding {s : σ} {t : Token} {p : Pid}
    (h : (earlier.foldl (after src) (start s t)).stage = .holding p) :
    ∃ before u e, earlier = before ++ [.next u (.ok e)] ∧ e.pid = p := by
  obtain rfl | ⟨before, c, rfl⟩ := List.eq_nil_or_concat earlier
  · cases h
  rw [List.concat_eq_append, List.foldl_append] at h
  rcases c with ⟨u, e | e⟩ | b | answer
  · cases e <;> cases h
  · cases h
    exact ⟨before, u, e, List.concat_eq_append .., rfl⟩
  · cases h
  · cases h

end Standing

/-- The calls that a reader makes from where it stands up to the close of the source. -/
inductive Source.Used (src : Source σ) : Standing σ → List Call → Prop
  | close (x : Standing σ) : Used src x [.close (src.close x.source).1]
  /-- Unless everything is over, a reader whose token is not cancelled may read. -/
  | next {x : Standing σ} {calls : List Call} (hgoes : ¬ x.Ended)
      (rest : Used src (x.after src (.next x.token (src.next x.source x.token).answer)) calls) :
      Used src x (.next x.token (src.next x.source x.token).answer :: calls)
  /-- A reader that holds an event may block its process. -/
  | block {s : σ} {t : Token} {p : Pid} {calls : List Call}
      (rest : Used src ⟨.ready, (src.block s p).2, t⟩ calls) :
      Used src ⟨.holding p, s, t⟩ (.block ⟨p, (src.block s p).1⟩ :: calls)

namespace Source.Used

variable {x : Standing σ} {c : Call}

/-- A reader that holds an event need not block its process. -/
theorem of_ready {s : σ} {t : Token} (p : Pid) (h : src.Used ⟨.ready, s, t⟩ calls) :
    src.Used ⟨.holding p, s, t⟩ calls := by
  cases h with
  | close => exact .close _
  | next hgoes rest =>
    refine .next (fun hended => hgoes ?_) rest
    exact hended.imp (fun hover => nomatch hover) id

/-- From where the reader stands after some of its calls, it makes the others. -/
theorem drop (h : src.Used x (earlier ++ c :: later)) :
    src.Used (earlier.foldl (Standing.after src) x) (c :: later) := by
  induction earlier generalizing x with
  | nil => exact h
  | cons d earlier ih =>
    have hne : earlier ++ c :: later ≠ [] := by simp
    rw [List.cons_append] at h
    generalize earlier ++ c :: later = rest at h ih hne
    cases h with
    | close => exact absurd rfl hne
    | next _ rest => exact ih rest
    | block rest => exact ih rest

theorem not_next_of_ended (h : src.Used x calls) (hended : x.Ended) :
    ∀ c ∈ calls, c.isNext = false := by
  induction h with
  | close => simp [Call.isNext]
  | next hgoes => exact absurd hended hgoes
  | block _ ih =>
    exact List.forall_mem_cons.mpr ⟨rfl, ih (hended.imp (fun hover => nomatch hover) id)⟩

theorem exists_close (h : src.Used x calls) :
    ∃ earlier answer, calls = earlier ++ [.close answer] ∧ ∀ c ∈ earlier, c.isClose = false := by
  induction h with
  | close x => exact ⟨[], _, rfl, by simp⟩
  | next _ _ ih =>
    obtain ⟨earlier, answer, rfl, hearlier⟩ := ih
    exact ⟨_ :: earlier, answer, rfl, List.forall_mem_cons.mpr ⟨rfl, hearlier⟩⟩
  | block _ ih =>
    obtain ⟨earlier, answer, rfl, hearlier⟩ := ih
    exact ⟨_ :: earlier, answer, rfl, List.forall_mem_cons.mpr ⟨rfl, hearlier⟩⟩

end Source.Used

/-! ## Sessions -/

/-- An event has the source asked to block its process once, or not at all. -/
theorem Rules.calls_process (src : Source σ) (r : Rules) (l : Ledger) (s : σ × List Call)
    (e : Event) :
    let source := (r.process src.recorded.block l s e).source
    source = s ∨ source =
      ((src.block s.1 e.pid).2, s.2 ++ [.block ⟨e.pid, (src.block s.1 e.pid).1⟩]) := by
  simp only [process, processSeeing]
  rcases r.judge l e with ⟨_ | _ | n | n, l'⟩
  case crossed =>
    right
    simp only [Source.recorded]
    rcases src.block s.1 e.pid with ⟨_ | _, s'⟩ <;> rfl
  all_goals exact .inl rfl

namespace Loop

variable {r : Rules} {m : Loop (σ × List Call)}

/-- Where the reader stands when a turn of the loop begins. -/
def standing (m : Loop (σ × List Call)) : Standing σ := .start m.source.1 m.token

theorem not_ended_standing (hfresh : m.token.cancelled = false) : ¬ m.standing.Ended := by
  simp [Standing.Ended, standing, Standing.start, hfresh]

/-- The calls that lead from one turn to another are used, whatever is used after them. -/
def UsedTo (src : Source σ) (m m' : Loop (σ × List Call)) : Prop :=
  ∃ made, m'.source.2 = m.source.2 ++ made ∧
    ∀ rest, src.Used m'.standing rest → src.Used m.standing (made ++ rest)

/-- The calls of a loop that ended with `m'` are used, if the source is then closed. -/
def UsedUp (src : Source σ) (m m' : Loop (σ × List Call)) : Prop :=
  ∃ made, m'.source.2 = m.source.2 ++ made ∧
    src.Used m.standing (made ++ [.close (src.close m'.source.1).1])

/-- The read of a turn is used, whatever is used after it. -/
theorem used_next (hfresh : m.token.cancelled = false) {answer : Except SourceError Event}
    (ha : (src.next m.source.1 m.token).answer = answer)
    (h : src.Used ⟨.ofRead answer, (src.next m.source.1 m.token).source,
      (src.next m.source.1 m.token).token⟩ calls) :
    src.Used m.standing (.next m.token answer :: calls) := by
  subst ha
  exact .next (not_ended_standing hfresh) h

/-- A turn after which the loop goes on makes a read, and maybe a block. -/
theorem usedTo_turn (hfresh : m.token.cancelled = false)
    (hgoes : (m.turn src.recorded r).stopped = false) :
    UsedTo src m (m.turn src.recorded r).loop := by
  cases ha : (src.next m.source.1 m.token).answer with
  | ok e =>
    have hrecorded : (src.recorded.next m.source m.token).answer = .ok e := ha
    have hread : (src.recorded.next m.source m.token).source =
        ((src.next m.source.1 m.token).source, m.source.2 ++ [.next m.token (.ok e)]) := by
      rw [← ha]
      rfl
    have hcalls := r.calls_process src m.ledger (src.recorded.next m.source m.token).source e
    rw [turn_of_event hrecorded]
    dsimp only
    rw [hread] at hcalls ⊢
    rcases hcalls with hsource | hsource
    · refine ⟨[.next m.token (.ok e)], congrArg Prod.snd hsource, fun rest hrest => ?_⟩
      rw [standing, hsource] at hrest
      exact used_next hfresh ha (hrest.of_ready e.pid)
    · refine ⟨[.next m.token (.ok e), .block ⟨e.pid,
        (src.block (src.next m.source.1 m.token).source e.pid).1⟩], ?_, fun rest hrest => ?_⟩
      · rw [hsource, List.append_assoc]
        rfl
      · rw [standing, hsource] at hrest
        exact used_next hfresh ha (.block hrest)
  | error err =>
    have hrecorded : (src.recorded.next m.source m.token).answer = .error err := ha
    by_cases hcancelled : err = .cancelled
    · subst hcancelled
      rw [turn_of_cancelled hrecorded] at hgoes
      cases hgoes
    · rw [turn_of_failed hrecorded hcancelled]
      refine ⟨[.next m.token (.error err)], ?_, fun rest hrest => used_next hfresh ha ?_⟩
      · rw [← ha]
        rfl
      · rw [Stage.ofRead_of_failed hcancelled]
        exact hrest

/-- A turn after which the loop stops makes a read that is cancelled. -/
theorem usedUp_turn (hfresh : m.token.cancelled = false)
    (hstopped : (m.turn src.recorded r).stopped = true) :
    UsedUp src m (m.turn src.recorded r).loop := by
  cases ha : (src.next m.source.1 m.token).answer with
  | ok e =>
    have hrecorded : (src.recorded.next m.source m.token).answer = .ok e := ha
    rw [turn_of_event hrecorded] at hstopped
    cases hstopped
  | error err =>
    have hrecorded : (src.recorded.next m.source m.token).answer = .error err := ha
    by_cases hcancelled : err = .cancelled
    · subst hcancelled
      rw [turn_of_cancelled hrecorded]
      refine ⟨[.next m.token (.error .cancelled)], ?_, used_next hfresh ha (.close _)⟩
      rw [← ha]
      rfl
    · rw [turn_of_failed hrecorded hcancelled] at hstopped
      cases hstopped

/-- However far a loop goes, its calls are used if the source is then closed. -/
theorem usedUp_run (src : Source σ) (r : Rules) (bound : Nat) (m : Loop (σ × List Call)) :
    UsedUp src m (m.run src.recorded r bound).loop := by
  have hnothing (m : Loop (σ × List Call)) : UsedUp src m m :=
    ⟨[], (List.append_nil _).symm, .close m.standing⟩
  fun_induction run src.recorded r bound m with
  | case1 m => exact hnothing m
  | case2 _ m => exact hnothing m
  | case3 bound m hfresh first hstopped => exact usedUp_turn (Bool.eq_false_iff.mpr hfresh) hstopped
  | case4 bound m hfresh first hgoes rest ih =>
    obtain ⟨made, hmade, hused⟩ :=
      usedTo_turn (Bool.eq_false_iff.mpr hfresh) (Bool.eq_false_iff.mpr hgoes)
    obtain ⟨more, hmore, hrest⟩ := ih
    refine ⟨made ++ more, ?_, ?_⟩
    · rw [← List.append_assoc, ← hmade]
      exact hmore
    · rw [List.append_assoc]
      exact hused _ hrest

end Loop

/-- A session uses its source up to the close. -/
theorem Session.used_run (src : Source σ) (r : Rules) (journal : Option String) (bound : Nat)
    (s : σ) (t : Token) :
    src.Used (.start s t) (run src.recorded r journal bound (s, []) t).source.2 := by
  obtain ⟨made, hmade, hused⟩ := Loop.usedUp_run src r bound (Loop.start (s, []) t)
  have hcalls : (run src.recorded r journal bound (s, []) t).source.2 =
      ((Loop.start (s, []) t).run src.recorded r bound).loop.source.2 ++
        [.close (src.close ((Loop.start (s, []) t).run src.recorded r bound).loop.source.1).1] :=
    rfl
  rw [hcalls, hmade]
  exact hused

/-! ## Order -/

/-- What the calls of a reader say that holds the token `t`, where the source began in the state
`s`. -/
structure Source.InOrder (src : Source σ) (s : σ) (t : Token) (calls : List Call) : Prop where
  /-- The source is closed once, and nothing is called after that. -/
  close_last : ∃ earlier answer, calls = earlier ++ [.close answer] ∧
    ∀ c ∈ earlier, c.isClose = false
  /-- A block follows directly on a read that answered an event of the process. -/
  block_after_event : ∀ earlier b later, calls = earlier ++ .block b :: later →
    ∃ before u e, earlier = before ++ [.next u (.ok e)] ∧ e.pid = b.pid
  /-- Nothing is read after a read that was cancelled. -/
  cancelled_read : ∀ earlier u later, calls = earlier ++ .next u (.error .cancelled) :: later →
    ∀ c ∈ later, c.isNext = false
  /-- Nothing is read once the token is cancelled. -/
  cancelled_token : ∀ earlier later, calls = earlier ++ later →
    (earlier.foldl (Standing.after src) (.start s t)).token.cancelled = true →
    ∀ c ∈ later, c.isNext = false

namespace Source.Used

variable {s : σ} {t : Token}

/-- A reader that stands at the end after some calls reads no more. -/
theorem not_next_of_ended_after {x : Standing σ} (h : src.Used x (earlier ++ later))
    (hended : (earlier.foldl (Standing.after src) x).Ended) : ∀ c ∈ later, c.isNext = false := by
  cases later with
  | nil => simp
  | cons c later => exact h.drop.not_next_of_ended hended

theorem inOrder (h : src.Used (.start s t) calls) : src.InOrder s t calls where
  close_last := h.exists_close
  block_after_event earlier b later hcalls := by
    subst hcalls
    have hblock := h.drop
    have hholding : (earlier.foldl (Standing.after src) (.start s t)).stage = .holding b.pid := by
      generalize earlier.foldl (Standing.after src) (.start s t) = x at hblock
      cases hblock
      rfl
    exact Standing.exists_of_holding hholding
  cancelled_read earlier u later hcalls := by
    rw [hcalls, List.append_cons] at h
    refine h.not_next_of_ended_after (.inl ?_)
    rw [List.foldl_append]
    rfl
  cancelled_token earlier later hcalls hcancelled := by
    subst hcalls
    exact h.not_next_of_ended_after (.inr hcancelled)

end Source.Used

/-- A session calls its source in order. -/
theorem Session.inOrder_run (src : Source σ) (r : Rules) (journal : Option String) (bound : Nat)
    (s : σ) (t : Token) (lines : List LogLine) :
    let recorded := (run src.recorded r journal bound (s, []) t).announced lines
    recorded.unrecorded = (run src r journal bound s t).announced lines ∧
      src.InOrder s t recorded.source.2 :=
  ⟨congrArg (announced lines) (run_recorded src r journal bound s t).symm,
    (used_run src r journal bound s t).inOrder⟩

/-! ## Commands -/

namespace Command

/-- An opener of a source that writes down its calls. -/
def Opener.recorded (opener : Opener ω σ) : Opener ω (σ × List Call) := fun w =>
  ((opener w).1.map (·, []), (opener w).2)

theorem watch_ok {read : String → Except FileError String} {reads : σ → Nat}
    {opener : Opener ω σ} {o : Options} {token : Token} {w : ω} {session : Session σ}
    (h : (watch read src reads opener o token w).1 = .ok session) :
    ∃ r source, o.rules read = .ok r ∧ (opener w).1 = .ok source := by
  cases hrules : o.rules read with
  | error e => simp [watch, hrules] at h
  | ok r =>
    rcases hopen : opener w with ⟨e | source, w'⟩
    · simp [watch, hrules, hopen] at h
    · exact ⟨r, source, rfl, rfl⟩

/-- **Sources are called in order.** The source of a session is closed once, and not called after
that. A block comes right after the read that answered an event of its process. Nothing is read once
a read or the token is cancelled; who else asks to stop is taken to do so in the read before. -/
theorem calls_in_order (read : String → Except FileError String) (path : String) (o : Options)
    (token : Token) (src : Source σ) (reads : σ → Nat) (opener : Opener ω σ) (w : ω) :
    (∀ session, (watch read src reads opener o token w).1 = .ok session →
      ∃ source recorded, (opener w).1 = .ok source ∧
        (watch read src.recorded (reads ·.1) opener.recorded o token w).1 = .ok recorded ∧
        recorded.unrecorded = session ∧ src.InOrder source token recorded.source.2) ∧
    ∀ session, replay read path o token = .ok session →
      ∃ es recorded, recording read path = .ok es ∧
        replayOn Replay.source.recorded (·.1.reads) (.untilDrained · false, []) read path o token =
          .ok recorded ∧
        recorded.unrecorded = session ∧
        Replay.source.InOrder (.untilDrained es false) token recorded.source.2 := by
  refine ⟨fun session hsession => ?_, fun session hsession => ?_⟩
  · obtain ⟨r, source, hrules, hopen⟩ := watch_ok hsession
    have hrecorded : (opener.recorded w).1 = .ok (source, []) := by
      rw [Opener.recorded, hopen]
      rfl
    obtain ⟨hunrecorded, horder⟩ := Session.inOrder_run src r o.journal (reads source) source token
      (r.banner ++ [watchLine])
    rw [watch_eq hrules hopen] at hsession
    cases hsession
    exact ⟨source, _, hopen, watch_eq hrules hrecorded .., hunrecorded, horder⟩
  · obtain ⟨r, es, hrules, hevents⟩ := replay_ok hsession
    obtain ⟨hunrecorded, horder⟩ := Session.inOrder_run Replay.source r o.journal (es.length + 1)
      (.untilDrained es false) token (r.banner ++ [replayLine es path])
    rw [replay_eq hrules hevents] at hsession
    cases hsession
    exact ⟨es, _, hevents, replayOn_eq hrules hevents .., hunrecorded, horder⟩

/-- A block that fails, a read that fails and a close that fails. The token is cancelled by the read
that says so. -/
theorem calls_in_order_of_script :
    let secret (p : Pid) : Script.Item := .answer (.ok ⟨p, 0, "cat", "/etc/shadow", 0⟩)
    let script : Script := ⟨[secret 7, .answer (.error .closed), secret 8], [7], [], some "gone"⟩
    let o : Options := ⟨some "/etc/shadow", none, 1, 0, none⟩
    let opener : Opener Unit Script := fun _ => (.ok script, ())
    let read (path : String) : Except FileError String := .error (.io .notFound path)
    let watched :=
      (watch read Script.source.recorded (·.1.reads) opener.recorded o .fresh ()).1
    ∃ recorded, watched = .ok recorded ∧ Script.source.InOrder script .fresh recorded.source.2 ∧
      recorded.source.2.map Call.isNext = [true, false, true, true, false, true, false] ∧
      recorded.source.2.map Call.isClose = [false, false, false, false, false, false, true] := by
  intro secret script o opener read watched
  have hrules : o.rules read = .ok ⟨Policy.ofTexts ["/etc/shadow"], 1, .all, by decide⟩ := by
    decide +kernel
  have hcalls : watched.map (fun s => (s.source.2.map Call.isNext, s.source.2.map Call.isClose)) =
      .ok ([true, false, true, true, false, true, false],
        [false, false, false, false, false, false, true]) := by
    decide +kernel
  obtain ⟨source, recorded, hopen, hrecorded, -, horder⟩ :=
    (calls_in_order read "/ev" o .fresh Script.source Script.reads opener ()).1 _
      (watch_eq hrules rfl Script.source Script.reads .fresh)
  obtain rfl : script = source := Except.ok.inj hopen
  have hwatched : watched = .ok recorded := hrecorded
  rw [hwatched] at hcalls
  obtain ⟨hnexts, hcloses⟩ := Prod.mk.inj (Except.ok.inj hcalls)
  exact ⟨recorded, hwatched, horder, hnexts, hcloses⟩

end Command
end FileWarden
