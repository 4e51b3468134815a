import FileWarden.Proofs.Reports

/-!
# Processes apart from each other

- **Accounts** (`Rules.account`): what a run says of one process. It is how many violations the
  process has, whether it is blocked, how the block was called for it, and what was reported of it.
- **Own events** (`Event.ofPid`): the account of a process is told by its own events alone
  (`account_own`), also under other rules that judge these alike (`AlikeFor`).
- **Ledgers** (`Reflects.unique`): two ledgers are equal if they reflect as many violations of every
  process, whatever the order in which these came.
- **Isolation** (`accounts_apart`): a run on all processes, a run on one, and a run on the events of
  this one say the same of it.
-/

namespace FileWarden

/-- The events of a process, in order. -/
def Event.ofPid (p : Pid) (es : List Event) : List Event := es.filter (·.pid = p)

theorem Event.ofPid_concat (p : Pid) (es : List Event) (e : Event) :
    ofPid p (es ++ [e]) = if e.pid = p then ofPid p es ++ [e] else ofPid p es := by
  by_cases h : e.pid = p <;> simp [ofPid, List.filter_append, h]

/-- What a run says of one process. -/
@[ext]
structure Account where
  count : Count
  blocked : Bool
  /-- The calls of the block, each by the process that was to be blocked. -/
  calls : List Pid
  notices : List Notice
  deriving DecidableEq

/-- Nothing is said of the process. -/
def Account.none : Account := ⟨0, false, [], []⟩

namespace Ledger

theorem mem_counts_iff {l : Ledger} {p : Pid} {n : Count} :
    (p, n) ∈ l.counts ↔ p ∈ l.offenderPids ∧ l.count p = n := by
  constructor
  · intro h
    exact ⟨List.mem_map.mpr ⟨_, h, rfl⟩, Counts.get_of_mem l.counts_ascending h⟩
  · rintro ⟨h, rfl⟩
    obtain ⟨⟨q, n⟩, hc, rfl⟩ := List.mem_map.mp h
    rwa [show l.count q = n from Counts.get_of_mem l.counts_ascending hc]

/-- A ledger is told by its counts, by who has one, and by who is blocked. -/
theorem eq_of_queries {l m : Ledger} (hcount : ∀ p, l.count p = m.count p)
    (hoffender : ∀ p, p ∈ l.offenderPids ↔ p ∈ m.offenderPids)
    (hblocked : ∀ p, p ∈ l.blocked ↔ p ∈ m.blocked) : l = m := by
  have hcounts : l.counts = m.counts := by
    refine List.Pairwise.eq_of_mem_iff l.counts_ascending m.counts_ascending fun ⟨p, n⟩ => ?_
    rw [mem_counts_iff, mem_counts_iff, hcount, hoffender]
  have hblocks : l.blocked = m.blocked :=
    List.Pairwise.eq_of_mem_iff l.blocked_ascending m.blocked_ascending hblocked
  cases l
  cases m
  congr

end Ledger

namespace Rules

variable {σ : Type} {r r' : Rules} {p : Pid} {es fs : List Event}
  {block : σ → Pid → Except SourceError Unit × σ} {s : σ}

/-- The same rules for other processes. -/
def aimedAt (r : Rules) (t : Target) : Rules := { r with target := t }

/-- What a run from the empty ledger says of a process. -/
def account (r : Rules) (block : σ → Pid → Except SourceError Unit × σ) (s : σ) (es : List Event)
    (p : Pid) : Account where
  count := (r.run block .empty s es).ledger.count p
  blocked := (r.run block .empty s es).ledger.isBlocked p
  calls := ((r.blockCalls block s es).map (·.pid)).filter (· = p)
  notices := (r.run block .empty s es).notices.filter (·.pid = p)

/-- Rules that judge the events of a process alike. -/
structure AlikeFor (p : Pid) (r r' : Rules) : Prop where
  violatedBy : ∀ e : Event, e.pid = p → r.violatedBy e = r'.violatedBy e
  threshold : r.threshold = r'.threshold

theorem AlikeFor.refl (p : Pid) (r : Rules) : AlikeFor p r r := ⟨fun _ _ => rfl, rfl⟩

/-- To watch a process alone makes no difference to the process. -/
theorem alikeFor_aimedAt (p : Pid) (r : Rules) :
    AlikeFor p (r.aimedAt (.only p)) (r.aimedAt .all) where
  violatedBy e he := by simp [Rules.violatedBy, aimedAt, Target.admits, he]
  threshold := rfl

/-! ## One process -/

theorem account_count_toNat (r : Rules) (block : σ → Pid → Except SourceError Unit × σ) (s : σ)
    (es : List Event) (p : Pid) :
    (r.account block s es p).count.toNat = min (r.violations p es) (2 ^ 32 - 1) :=
  (r.reflects_run block s es).count p

theorem account_blocked_iff (r : Rules) (block : σ → Pid → Except SourceError Unit × σ) (s : σ)
    (es : List Event) (p : Pid) :
    (r.account block s es p).blocked = true ↔ r.threshold.toNat ≤ r.violations p es :=
  Ledger.isBlocked_iff.trans ((r.reflects_run block s es).blocked p)

/-- The block is called once for a process that has as many violations as the threshold says, and
not at all for any other. -/
theorem account_calls (r : Rules) (block : σ → Pid → Except SourceError Unit × σ) (s : σ)
    (es : List Event) (p : Pid) : (r.account block s es p).calls =
      if r.threshold.toNat ≤ r.violations p es then [p] else [] := by
  have hreplicate (ps : List Pid) : ps.filter (· = p) = List.replicate (ps.count p) p :=
    List.filter_eq p
  simp only [account, pids_blockCalls, hreplicate, count_crossings]
  split <;> rfl

theorem violations_own (h : AlikeFor p r r') (es : List Event) :
    r.violations p es = r'.violations p (Event.ofPid p es) := by
  rw [violations, violations, Event.ofPid, List.countP_filter]
  refine List.countP_congr fun e _ => ?_
  by_cases he : e.pid = p
  · simp [he, h.violatedBy e he]
  · simp [he]

/-- Every notice about an event is about its process. -/
theorem pid_of_mem_noticesAt {before : List Event} {e : Event} {b : Except SourceError Unit}
    {n : Notice} (h : n ∈ r.noticesAt before e b) : n.pid = e.pid := by
  unfold noticesAt at h
  split at h
  · rcases List.mem_cons.mp h with rfl | h
    · rfl
    · split at h
      · rw [List.mem_singleton.mp h, Notice.pid]
      · cases h
  · cases h

theorem filter_noticesAt (p : Pid) (before : List Event) (e : Event)
    (b : Except SourceError Unit) : (r.noticesAt before e b).filter (·.pid = p) =
      if e.pid = p then r.noticesAt before e b else [] := by
  split
  · rename_i he
    exact List.filter_eq_self.mpr fun n hn => by simp [pid_of_mem_noticesAt hn, he]
  · rename_i he
    exact List.filter_eq_nil_iff.mpr fun n hn => by simp [pid_of_mem_noticesAt hn, he]

/-- What is reported of an event is told by the earlier events of its process. -/
theorem noticesAt_own {e : Event} (h : AlikeFor e.pid r r') (before : List Event)
    (b : Except SourceError Unit) :
    r.noticesAt before e b = r'.noticesAt (Event.ofPid e.pid before) e b := by
  have hviolations := violations_own h before
  have hviolated := h.violatedBy e rfl
  unfold noticesAt crosses countAt
  rw [hviolations, hviolated, h.threshold]

theorem notices_own (hsteady : ∀ s s' q, (block s q).1 = (block s' q).1) (h : AlikeFor p r r')
    (es : List Event) : (r.account block s es p).notices =
      (r'.account block s (Event.ofPid p es) p).notices := by
  simp only [account]
  induction es using List.reverseRecOn with
  | nil => rfl
  | append_singleton es e ih =>
    rw [notices_concat, List.filter_append, ih, filter_noticesAt, Event.ofPid_concat]
    by_cases he : e.pid = p
    · subst he
      have hanswer : r.blockAnswer block s es e =
          r'.blockAnswer block s (Event.ofPid e.pid es) e := hsteady ..
      rw [if_pos rfl, if_pos rfl, notices_concat, List.filter_append, filter_noticesAt, if_pos rfl,
        noticesAt_own h, hanswer]
    · rw [if_neg he, if_neg he, List.append_nil]

/-- The account of a process is told by its own events, also under other rules that judge these
alike. -/
theorem account_own (hsteady : ∀ s s' q, (block s q).1 = (block s' q).1) (h : AlikeFor p r r')
    (es : List Event) :
    r.account block s es p = r'.account block s (Event.ofPid p es) p := by
  have hviolations := violations_own h es
  apply Account.ext
  case count =>
    apply UInt32.toNat_inj.mp
    rw [account_count_toNat, account_count_toNat, hviolations]
  case blocked =>
    rw [Bool.eq_iff_iff, account_blocked_iff, account_blocked_iff, hviolations, h.threshold]
  case calls => rw [account_calls, account_calls, hviolations, h.threshold]
  case notices => exact notices_own hsteady h es

/-! ## The other processes -/

theorem violations_aimedAt_only {q : Pid} (hq : q ≠ p) (r : Rules) (es : List Event) :
    (r.aimedAt (.only p)).violations q es = 0 := by
  rw [violations, List.countP_eq_zero]
  intro e _
  by_cases he : e.pid = q
  · simp [he, Rules.violatedBy, aimedAt, Target.admits, hq]
  · simp [he]

theorem notices_of_violations_eq_zero (h : r.violations p es = 0) :
    (r.account block s es p).notices = [] := by
  simp only [account]
  induction es using List.reverseRecOn with
  | nil => rfl
  | append_singleton es e ih =>
    rw [violations_concat, Nat.add_eq_zero_iff] at h
    obtain ⟨hes, he⟩ := h
    rw [notices_concat, List.filter_append, ih hes, filter_noticesAt, List.nil_append]
    split
    · rename_i hp
      refine noticesAt_of_not_violated (Bool.eq_false_iff.mpr fun hviolated => ?_) _
      rw [if_pos ⟨hp, hviolated⟩] at he
      exact Nat.one_ne_zero he
    · rfl

/-- Nothing is said of a process without violations. -/
theorem account_of_violations_eq_zero (h : r.violations p es = 0) :
    r.account block s es p = .none := by
  have hbelow : ¬ r.threshold.toNat ≤ r.violations p es := by
    have := r.threshold_toNat_pos
    omega
  apply Account.ext
  case count =>
    apply UInt32.toNat_inj.mp
    rw [account_count_toNat, h]
    rfl
  case blocked =>
    exact Bool.eq_false_iff.mpr fun hblocked =>
      hbelow ((r.account_blocked_iff block s es p).mp hblocked)
  case calls => rw [account_calls, if_neg hbelow, Account.none]
  case notices => rw [notices_of_violations_eq_zero h, Account.none]

/-! ## Ledgers -/

/-- Two ledgers are equal if they reflect as many violations of every process. -/
theorem Reflects.unique {l m : Ledger} (hl : r.Reflects es l) (hm : r.Reflects fs m)
    (h : ∀ p, r.violations p es = r.violations p fs) : l = m := by
  apply Ledger.eq_of_queries
  · intro p
    apply UInt32.toNat_inj.mp
    rw [hl.count, hm.count, h]
  · intro p
    rw [hl.offender, hm.offender, h]
  · intro p
    rw [hl.blocked, hm.blocked, h]

/-- **Processes do not influence each other.** If the answer to a block depends on the process
alone, then a run on all processes, a run on one of them, and a run on the events of this one give
the same account of it. Lists with the same events of each process, in the same order, leave the
same ledger. -/
theorem accounts_apart (r : Rules) (block : σ → Pid → Except SourceError Unit × σ) (s : σ) (p : Pid)
    (es : List Event) (hsteady : ∀ s s' q, (block s q).1 = (block s' q).1) :
    let everyone := r.aimedAt .all
    let alone := r.aimedAt (.only p)
    alone.account block s es p = everyone.account block s es p ∧
    everyone.account block s (Event.ofPid p es) p = everyone.account block s es p ∧
    (∀ q ≠ p, alone.account block s es q = .none ∧
      q ∉ (alone.run block .empty s es).ledger.offenderPids) ∧
    ∀ t fs, (∀ q, Event.ofPid q es = Event.ofPid q fs) →
      ((r.aimedAt t).run block .empty s es).ledger =
        ((r.aimedAt t).run block .empty s fs).ledger := by
  intro everyone alone
  have hall : everyone.account block s es p =
      everyone.account block s (Event.ofPid p es) p := account_own hsteady (.refl p everyone) es
  refine ⟨?_, hall.symm, fun q hq => ?_, fun t fs hown => ?_⟩
  · rw [hall]
    exact account_own hsteady (alikeFor_aimedAt p r) es
  · have hzero : alone.violations q es = 0 := violations_aimedAt_only hq r es
    refine ⟨account_of_violations_eq_zero hzero, fun hmem => ?_⟩
    rw [(alone.reflects_run block s es).offender, hzero] at hmem
    exact Nat.lt_irrefl 0 hmem
  · refine ((r.aimedAt t).reflects_run block s es).unique
      ((r.aimedAt t).reflects_run block s fs) fun q => ?_
    rw [violations_own (.refl q _) es, hown q, ← violations_own (.refl q _) fs]

/-- The events of two processes, taken in turn, with a source that cannot block the second. -/
theorem accounts_apart_in_turn :
    let secret (p : Pid) : Event := ⟨p, 0, "cat", "/etc/shadow", 0⟩
    let es := [secret 7, secret 8, ⟨7, 0, "cat", "/home/notes", 0⟩, secret 8, secret 7]
    let block (asked : Nat) (p : Pid) : Except SourceError Unit × Nat :=
      (if p = 8 then .error (.block p "denied") else .ok (), asked + 1)
    let r : Rules := ⟨Policy.ofTexts ["/etc/shadow"], 2, .all, by decide⟩
    let seen (p : Pid) (n : Count) : Notice := .violation p "cat" "/etc/shadow" n 2
    (∀ s s' q, (block s q).1 = (block s' q).1) ∧
    (r.aimedAt .all).account block 0 es 7 =
      ⟨2, true, [7], [seen 7 1, seen 7 2, .blocked 7 "cat" 2]⟩ ∧
    (r.aimedAt (.only 7)).account block 0 es 7 =
      ⟨2, true, [7], [seen 7 1, seen 7 2, .blocked 7 "cat" 2]⟩ ∧
    (r.aimedAt .all).account block 0 es 8 = ⟨2, true, [8], [seen 8 1, seen 8 2]⟩ ∧
    (r.aimedAt (.only 7)).account block 0 es 8 = .none := by
  intro secret es block r seen
  have hsteady : ∀ s s' q, (block s q).1 = (block s' q).1 := fun _ _ _ => rfl
  obtain ⟨halone, -, hnone, -⟩ := accounts_apart r block 0 7 es hsteady
  have hseven : (r.aimedAt .all).account block 0 es 7 =
      ⟨2, true, [7], [seen 7 1, seen 7 2, .blocked 7 "cat" 2]⟩ := by decide +kernel
  refine ⟨hsteady, hseven, halone.trans hseven, by decide +kernel, (hnone 8 (by decide)).1⟩

end Rules
end FileWarden
