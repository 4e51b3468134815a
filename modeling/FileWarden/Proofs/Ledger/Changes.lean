import FileWarden.Proofs.Ledger

/-!
# Ledgers after any changes

A ledger is changed in two ways: a violation is recorded, or a process is marked. The two may come in
any order and any number, also in ways in which no rules use them.

- **Invariant** (`Tells cs l`): the ledger `l` holds what the changes `cs` tell. One change keeps it
  (`Tells.change`), so it holds after all of them (`tells_after`).
- **Totals** (`toNat_total_record`): a record raises the total by one, unless the count of its
  process is at its greatest. The order in which counts are added does not matter, and no order comes
  to more than 64 bits (`total_of_perm`, `sum_take_lt`).
- **All of it** (`ledger_after_changes`): what a ledger answers after any changes.
-/

namespace FileWarden

namespace Counts

/-- Counting one more raises the sum of the counts by one, or by nothing at the greatest count. -/
theorem sum_bump {p : Pid} {cs : List (Pid × Count)} (h : cs.Pairwise (·.1 < ·.1)) :
    ((bump p cs).map (·.2.toNat)).sum =
      (cs.map (·.2.toNat)).sum + if get p cs = 0xFFFFFFFF then 0 else 1 := by
  induction cs with
  | nil => rfl
  | cons c cs ih =>
    obtain ⟨q, n⟩ := c
    obtain ⟨hq, hcs⟩ := List.pairwise_cons.mp h
    unfold bump
    split
    · rename_i hlt
      -- All processes of the list are greater, so `p` had no count.
      have hnone : p ∉ ((q, n) :: cs).map (·.1) := by
        rw [List.map_cons, List.mem_cons, not_or]
        refine ⟨UInt32.ne_of_lt hlt, fun hmem => ?_⟩
        obtain ⟨c, hc, rfl⟩ := List.mem_map.mp hmem
        exact UInt32.lt_irrefl _ (UInt32.lt_trans hlt (hq c hc))
      rw [get_of_not_mem hnone, if_neg (by decide), List.map_cons, List.sum_cons, Nat.add_comm]
      rfl
    split
    · rename_i heq
      subst heq
      have hnext := Count.toNat_next n
      have hn := n.toNat_lt
      simp only [List.map_cons, List.sum_cons, get, if_true]
      split
      · rename_i hmax
        subst hmax
        rfl
      · rename_i hmax
        have : n.toNat ≠ 0xFFFFFFFF := fun e => hmax (UInt32.toNat_inj.mp e)
        omega
    · rename_i hne
      simp only [List.map_cons, List.sum_cons, get, if_neg hne, ih hcs]
      omega

end Counts

namespace Ledger

/-! ## Changes -/

/-- A change of a ledger. -/
inductive Change where
  /-- A violation of a process is counted. -/
  | record (p : Pid)
  /-- A process is blocked. -/
  | mark (p : Pid)
  deriving DecidableEq, Repr

variable {cs : List Change} {l : Ledger} {p : Pid}

/-- A ledger after a change. -/
def change (l : Ledger) : Change → Ledger
  | .record p => l.record p
  | .mark p => (l.mark p).2

/-- The ledger after some changes, in order, of which nothing was known before. -/
def after (cs : List Change) : Ledger := cs.foldl change empty

theorem after_concat (cs : List Change) (c : Change) : after (cs ++ [c]) = (after cs).change c :=
  List.foldl_concat ..

/-- A ledger that holds what changes tell, and nothing else. -/
structure Tells (cs : List Change) (l : Ledger) : Prop where
  count : ∀ p, (l.count p).toNat = min (cs.count (.record p)) (2 ^ 32 - 1)
  offender : ∀ p, p ∈ l.offenderPids ↔ .record p ∈ cs
  blocked : ∀ p, p ∈ l.blocked ↔ .mark p ∈ cs

namespace Tells

theorem record (h : Tells cs l) (p : Pid) : Tells (cs ++ [.record p]) (l.record p) where
  count q := by
    rw [count_record, List.count_append, List.count_singleton]
    by_cases hq : q = p
    · subst hq
      rw [if_pos rfl, Count.toNat_next, h.count, if_pos (beq_self_eq_true _)]
      omega
    · rw [if_neg hq, h.count, if_neg (by simpa using Ne.symm hq), Nat.add_zero]
  offender q := by
    rw [mem_offenderPids_record, h.offender]
    simp [or_comm]
  blocked q := by
    show q ∈ l.blocked ↔ _
    rw [h.blocked]
    simp

theorem mark (h : Tells cs l) (p : Pid) : Tells (cs ++ [.mark p]) (l.mark p).2 where
  count q := by
    rw [count_mark, h.count, List.count_append]
    simp
  offender q := by
    rw [offenderPids_mark, h.offender]
    simp
  blocked q := by
    show q ∈ insertPid p l.blocked ↔ _
    rw [mem_insertPid, h.blocked]
    simp [or_comm]

/-- A change is told by the ledger after it, along with the changes before. -/
theorem change (h : Tells cs l) (c : Change) : Tells (cs ++ [c]) (l.change c) := by
  cases c with
  | record p => exact h.record p
  | mark p => exact h.mark p

end Tells

theorem tells_after (cs : List Change) : Tells cs (after cs) := by
  induction cs using List.reverseRecOn with
  | nil => exact ⟨fun p => rfl, fun p => by simp [after], fun p => by simp [after, empty]⟩
  | append_singleton cs c ih =>
    rw [after_concat]
    exact ih.change c

/-- Only processes with violations are listed. -/
theorem Tells.pos (h : Tells cs l) {c : Pid × Count} (hc : c ∈ l.counts) : 1 ≤ c.2.toNat := by
  have hmem : c.1 ∈ l.offenderPids := List.mem_map.mpr ⟨c, hc, rfl⟩
  have hpos := List.count_pos_iff.mpr ((h.offender c.1).mp hmem)
  have hcount : l.count c.1 = c.2 := Counts.get_of_mem l.counts_ascending hc
  rw [← hcount, h.count]
  omega

theorem Tells.isBlocked (h : Tells cs l) (p : Pid) : l.isBlocked p = true ↔ .mark p ∈ cs := by
  rw [isBlocked_iff, h.blocked]

/-- Marking says whether the process is marked for the first time. -/
theorem Tells.mark_fst (h : Tells cs l) (p : Pid) : (l.mark p).1 = true ↔ .mark p ∉ cs := by
  rw [← h.isBlocked]
  simp [Ledger.mark]

theorem Tells.offenders_eq (h : Tells cs l) : l.offenders = {p | .record p ∈ cs}.ncard := by
  rw [offenders_eq_ncard]
  congr 1
  ext p
  exact h.offender p

/-! ## Totals -/

theorem toNat_total_record (l : Ledger) (p : Pid) :
    (l.record p).total.toNat = l.total.toNat + if l.count p = 0xFFFFFFFF then 0 else 1 := by
  rw [toNat_total, toNat_total]
  exact Counts.sum_bump l.counts_ascending

section

variable {counts : List (Pid × Count)} (h : counts.Perm l.counts)
include h

/-- In whatever order counts are added, the sum stays below `2 ^ 64` after each of them. -/
theorem sum_take_lt (k : Nat) : ((counts.take k).map (·.2.toNat)).sum < 2 ^ 64 := by
  have hle : ((counts.take k).map (·.2.toNat)).sum ≤ (counts.map (·.2.toNat)).sum :=
    ((List.take_sublist k counts).map _).sum_le_sum fun _ _ => Nat.zero_le _
  rw [(h.map _).sum_eq] at hle
  exact hle.trans_lt l.sum_counts_lt

/-- Counts may be added in any order. -/
theorem total_of_perm : counts.foldl (fun sum c => sum + c.2.toUInt64) 0 = l.total := by
  apply UInt64.toNat_inj.mp
  have hlt := l.sum_counts_lt
  rw [← (h.map _).sum_eq] at hlt
  rw [Counts.toNat_foldl counts 0 (by simpa using hlt), toNat_total, (h.map _).sum_eq]
  exact Nat.zero_add _

end

/-- **A ledger after any changes.** Each count is the number of its records, up to `2 ^ 32 - 1`;
marks and counts leave each other alone, and only the first mark of a process answers so. The total
is the exact sum of the counts, in whatever order they are added up. -/
theorem ledger_after_changes (cs : List Change) :
    let l := after cs
    (∀ p, (l.count p).toNat = min (cs.count (.record p)) (2 ^ 32 - 1)) ∧
    (∀ c ∈ l.counts, 1 ≤ c.2.toNat) ∧
    l.offenders = {p | .record p ∈ cs}.ncard ∧
    (∀ p, (after (cs ++ [.mark p])).counts = l.counts ∧
      (after (cs ++ [.record p])).blocked = l.blocked) ∧
    (∀ p, (l.isBlocked p = true ↔ .mark p ∈ cs) ∧ ((l.mark p).1 = true ↔ .mark p ∉ cs)) ∧
    (l.total.toNat = ∑ᶠ p : Pid, (l.count p).toNat ∧ ∑ᶠ p : Pid, (l.count p).toNat < 2 ^ 64) ∧
    (∀ counts : List (Pid × Count), counts.Perm l.counts →
      counts.foldl (fun sum c => sum + c.2.toUInt64) 0 = l.total ∧
      ∀ k, ((counts.take k).map (·.2.toNat)).sum < 2 ^ 64) ∧
    ∀ p, (after (cs ++ [.record p])).total.toNat =
      l.total.toNat + if l.count p = 0xFFFFFFFF then 0 else 1 := by
  intro l
  have h : Tells cs l := tells_after cs
  refine ⟨h.count, fun c => h.pos, h.offenders_eq, fun p => ?_,
    fun p => ⟨h.isBlocked p, h.mark_fst p⟩, ⟨l.total_eq_finsum, ?_⟩,
    fun counts hperm => ⟨total_of_perm hperm, sum_take_lt hperm⟩, fun p => ?_⟩
  · rw [after_concat, after_concat]
    exact ⟨rfl, rfl⟩
  · rw [← l.total_eq_finsum]
    exact l.total.toNat_lt
  · rw [after_concat]
    exact l.toNat_total_record p

end Ledger
end FileWarden
