import FileWarden.Proofs.Reports

/-!
# Stricter rules

Rules are at least as strict as others if they find every violation that these find, and block a
process after no more violations (`AtLeast`).

- **Violations** (`violations_le`): under stricter rules a process has no fewer violations.
- **Ledgers** (`AtLeast.count_le`, `AtLeast.blocked_subset`): so its count is no smaller, and it is
  blocked if it is blocked under the others.
- **Patterns** (`Policy.disallows_of_subset`): more patterns disallow more paths. Their order and
  their repetition make no difference (`Policy.disallows_congr`), so a run is the same
  (`run_of_policy`).
- **Both together** (`stricter_rules_block_more`).
-/

namespace FileWarden

namespace Policy

theorem disallows_iff {texts : List String} {path : String} :
    (ofTexts texts).disallows path = true ↔
      ∃ text ∈ texts, (Pattern.ofString text).matchesPath path = true := by
  simp [ofTexts, disallows]

theorem disallows_of_subset {texts texts' : List String} (h : texts ⊆ texts') {path : String}
    (hpath : (ofTexts texts).disallows path = true) : (ofTexts texts').disallows path = true := by
  obtain ⟨text, htext, hmatch⟩ := disallows_iff.mp hpath
  exact disallows_iff.mpr ⟨text, h htext, hmatch⟩

/-- Patterns in another order, or repeated, disallow the same paths. -/
theorem disallows_congr {texts texts' : List String} (h : ∀ text, text ∈ texts ↔ text ∈ texts')
    (path : String) : (ofTexts texts).disallows path = (ofTexts texts').disallows path := by
  rw [Bool.eq_iff_iff]
  exact ⟨disallows_of_subset fun text => (h text).mp, disallows_of_subset fun text => (h text).mpr⟩

end Policy

namespace Rules

variable {σ : Type} {r r' : Rules} {p : Pid} {es : List Event} {l l' : Ledger}

/-! ## Stricter rules -/

/-- The rules `r'` are at least as strict as the rules `r`. -/
structure AtLeast (r r' : Rules) : Prop where
  violatedBy : ∀ e, r.violatedBy e = true → r'.violatedBy e = true
  threshold : r'.threshold ≤ r.threshold

theorem violations_le (h : ∀ e, r.violatedBy e = true → r'.violatedBy e = true) (p : Pid)
    (es : List Event) : r.violations p es ≤ r'.violations p es := by
  refine List.countP_mono_left fun e _ he => ?_
  simp only [Bool.and_eq_true] at he ⊢
  exact ⟨he.1, h e he.2⟩

namespace AtLeast

theorem count_le (h : AtLeast r r') (hl : r.Reflects es l) (hl' : r'.Reflects es l') (p : Pid) :
    l.count p ≤ l'.count p := by
  have hviolations := violations_le h.violatedBy p es
  rw [UInt32.le_iff_toNat_le, hl.count, hl'.count]
  omega

theorem blocked_subset (h : AtLeast r r') (hl : r.Reflects es l) (hl' : r'.Reflects es l') :
    l.blocked ⊆ l'.blocked := by
  intro p hp
  have hthreshold := UInt32.le_iff_toNat_le.mp h.threshold
  rw [hl'.blocked]
  calc r'.threshold.toNat ≤ r.threshold.toNat := hthreshold
    _ ≤ r.violations p es := (hl.blocked p).mp hp
    _ ≤ r'.violations p es := violations_le h.violatedBy p es

end AtLeast

/-- More patterns and a threshold that is no greater are at least as strict. -/
theorem atLeast_of_subset {texts texts' : List String} {t t' : Count} (ht : t ≠ 0) (ht' : t' ≠ 0)
    (target : Target) (hpatterns : texts ⊆ texts') (hthreshold : t' ≤ t) :
    AtLeast ⟨.ofTexts texts, t, target, ht⟩ ⟨.ofTexts texts', t', target, ht'⟩ where
  violatedBy e he := by
    obtain ⟨hadmits, hdisallows⟩ := violatedBy_iff.mp he
    exact violatedBy_iff.mpr ⟨hadmits, Policy.disallows_of_subset hpatterns hdisallows⟩
  threshold := hthreshold

/-! ## Policies that disallow the same paths -/

section SamePaths

variable {policy : Policy} (h : ∀ path, policy.disallows path = r.policy.disallows path)
include h

theorem judge_of_policy (l : Ledger) (e : Event) :
    { r with policy }.judge l e = r.judge l e := by
  simp only [judge, h]

theorem processSeeing_of_policy (block : Ledger → σ → Pid → Except SourceError Unit × σ)
    (l : Ledger) (s : σ) (e : Event) :
    { r with policy }.processSeeing block l s e = r.processSeeing block l s e := by
  simp only [processSeeing, judge_of_policy h, violation]

theorem runSeeing_of_policy (block : Ledger → σ → Pid → Except SourceError Unit × σ) (l : Ledger)
    (s : σ) (es : List Event) :
    { r with policy }.runSeeing block l s es = r.runSeeing block l s es := by
  induction es generalizing l s with
  | nil => rfl
  | cons e es ih => simp only [runSeeing, processSeeing_of_policy h, ih]

end SamePaths

/-- **Stricter rules find and block more.** With more patterns or a smaller threshold, no count gets
smaller and no blocked process stays unblocked, whatever becomes of the blocks. Neither the order of
the patterns nor their repetition makes a difference, and the threshold none to the counts. -/
theorem stricter_rules_block_more {τ : Type} (texts texts' : List String) (t t' : Count)
    (ht : t ≠ 0) (ht' : t' ≠ 0) (target : Target)
    (block : σ → Pid → Except SourceError Unit × σ) (s : σ)
    (block' : τ → Pid → Except SourceError Unit × τ) (s' : τ) (es : List Event)
    (hpatterns : texts ⊆ texts') (hthreshold : t' ≤ t) :
    let r : Rules := ⟨.ofTexts texts, t, target, ht⟩
    let r' : Rules := ⟨.ofTexts texts', t', target, ht'⟩
    let run := r.run block .empty s es
    let run' := r'.run block' .empty s' es
    (∀ p, run.ledger.count p ≤ run'.ledger.count p) ∧
    run.ledger.blocked ⊆ run'.ledger.blocked ∧
    (∀ same, (∀ text, text ∈ same ↔ text ∈ texts) →
      { r with policy := .ofTexts same }.run block .empty s es = run ∧
      { r with policy := .ofTexts same }.blockCalls block s es = r.blockCalls block s es) ∧
    ∀ u hu p,
      (Rules.run ⟨.ofTexts texts, u, target, hu⟩ block' .empty s' es).ledger.count p =
        run.ledger.count p := by
  intro r r' run run'
  have h : AtLeast r r' := atLeast_of_subset ht ht' target hpatterns hthreshold
  have hrun : r.Reflects es run.ledger := r.reflects_run block s es
  have hrun' : r'.Reflects es run'.ledger := r'.reflects_run block' s' es
  refine ⟨h.count_le hrun hrun', h.blocked_subset hrun hrun', fun same hsame => ?_,
    fun u hu p => ?_⟩
  · have hpaths := Policy.disallows_congr hsame
    refine ⟨?_, congrArg (·.source.2) (runSeeing_of_policy hpaths (noting block) .empty (s, []) es)⟩
    rw [run_eq_runSeeing, runSeeing_of_policy hpaths, ← run_eq_runSeeing]
  · -- Which events are violations does not depend on the threshold.
    have hother := (Rules.reflects_run ⟨.ofTexts texts, u, target, hu⟩ block' s' es).count p
    exact UInt32.toNat_inj.mp (hother.trans (hrun.count p).symm)

/-- One pattern more and a threshold of 1, with a source that cannot block a process. -/
theorem one_pattern_more_blocks_more :
    let opened (p : Pid) (path : String) : Event := ⟨p, 0, "cat", path, 0⟩
    let es := [opened 7 "/etc/shadow", opened 8 "/etc/hosts", opened 7 "/home/secret",
      opened 7 "/etc/passwd"]
    let granted (_ : Unit) (_ : Pid) : Except SourceError Unit × Unit := (.ok (), ())
    let denied (_ : Unit) (p : Pid) : Except SourceError Unit × Unit :=
      (.error (.block p "denied"), ())
    let texts := ["/etc/*"]
    let more := ["secret", "/etc/*"]
    let l := (Rules.run ⟨.ofTexts texts, 2, .all, by decide⟩ granted .empty () es).ledger
    let l' := (Rules.run ⟨.ofTexts more, 1, .all, by decide⟩ denied .empty () es).ledger
    texts ⊆ more ∧ (1 : Count) ≤ 2 ∧ l.count 7 = 2 ∧ l'.count 7 = 3 ∧ l.count 7 ≤ l'.count 7 ∧
    l.blocked = [7] ∧ l'.blocked = [7, 8] ∧ l.blocked ⊆ l'.blocked := by
  intro opened es granted denied texts more l l'
  have hpatterns : texts ⊆ more := by decide
  obtain ⟨hcount, hblocked, -⟩ := stricter_rules_block_more texts more 2 1 (by decide) (by decide)
    .all granted () denied () es hpatterns (by decide)
  exact ⟨hpatterns, by decide, by decide +kernel, by decide +kernel, hcount 7, by decide +kernel,
    by decide +kernel, hblocked⟩

end Rules
end FileWarden
