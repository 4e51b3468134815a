import FileWarden.Notice

/-!
# The ledger

What is known of each process: how many violations it has, and whether it is blocked.

* `record` counts a violation; a count stops at the greatest number of 32 bits.
* `mark` blocks a process, and says whether it was not blocked before.
* Counts and blocked processes are kept in ascending order, so two ledgers with the same content are
  equal, and `count_record`, `isBlocked_mark` say what each operation does to them.
-/

namespace FileWarden

/-- The count after `n`; the greatest count stays. -/
def Count.next (n : Count) : Count := if n = 0xFFFFFFFF then n else n + 1

theorem Count.toNat_next (n : Count) : (Count.next n).toNat = min (n.toNat + 1) 0xFFFFFFFF := by
  have hn := n.toNat_lt
  unfold Count.next
  split
  · subst n; rfl
  · rename_i h
    have : n.toNat ≠ 0xFFFFFFFF := fun e => h (UInt32.toNat_inj.mp e)
    simp only [UInt32.toNat_add, UInt32.reduceToNat]
    omega

/-! ## Counts by process -/

namespace Counts

/-- The count of a process, 0 if it is not listed. -/
def get (p : Pid) : List (Pid × Count) → Count
  | [] => 0
  | (q, n) :: rest => if p = q then n else get p rest

/-- Counts one more for a process. A new process goes in front of the first greater one. -/
def bump (p : Pid) : List (Pid × Count) → List (Pid × Count)
  | [] => [(p, 1)]
  | (q, n) :: rest =>
    if p < q then (p, 1) :: (q, n) :: rest
    else if p = q then (q, Count.next n) :: rest
    else (q, n) :: bump p rest

theorem mem_bump {p : Pid} {c : Pid × Count} {cs : List (Pid × Count)} (h : c ∈ bump p cs) :
    c.1 = p ∨ c ∈ cs := by
  induction cs with
  | nil => simp [bump] at h; simp [h]
  | cons d cs ih => obtain ⟨q, n⟩ := d; grind [bump]

theorem ascending_bump {p : Pid} {cs : List (Pid × Count)} (h : cs.Pairwise (·.1 < ·.1)) :
    (bump p cs).Pairwise (·.1 < ·.1) := by
  induction cs with
  | nil => simp [bump]
  | cons d cs ih =>
    obtain ⟨q, n⟩ := d
    obtain ⟨hq, hcs⟩ := List.pairwise_cons.mp h
    unfold bump
    split
    · rename_i hlt
      refine List.pairwise_cons.mpr ⟨fun c hc => ?_, h⟩
      rcases List.mem_cons.mp hc with rfl | hc
      · exact hlt
      · exact UInt32.lt_trans hlt (hq c hc)
    · split
      · exact List.pairwise_cons.mpr ⟨hq, hcs⟩
      · rename_i hlt hne
        refine List.pairwise_cons.mpr ⟨fun c hc => ?_, ih hcs⟩
        rcases mem_bump hc with hc | hc
        · rw [hc]
          exact UInt32.lt_of_le_of_ne (UInt32.not_lt.mp hlt) (Ne.symm hne)
        · exact hq c hc

/-- Counting for `p` changes the count of `p` alone. The first count of a process is 1. -/
theorem get_bump {p q : Pid} {cs : List (Pid × Count)} (h : cs.Pairwise (·.1 < ·.1)) :
    get q (bump p cs) = if q = p then Count.next (get p cs) else get q cs := by
  induction cs with
  | nil =>
    simp only [bump, get]
    split <;> rfl
  | cons d cs ih =>
    obtain ⟨r, n⟩ := d
    obtain ⟨hr, hcs⟩ := List.pairwise_cons.mp h
    have absent (hlt : p < r) : get p cs = 0 := by
      clear ih h hcs
      induction cs with
      | nil => rfl
      | cons e cs ih =>
        have : r < e.1 := hr e List.mem_cons_self
        have hne : p ≠ e.1 := fun he => by
          have := UInt32.lt_trans hlt this
          rw [he] at this
          exact UInt32.lt_irrefl _ this
        simp only [get, if_neg hne]
        exact ih fun c hc => hr c (List.mem_cons_of_mem _ hc)
    unfold bump
    split
    · rename_i hlt
      have hne : p ≠ r := UInt32.ne_of_lt hlt
      simp only [get, if_neg hne, absent hlt]
      split <;> rfl
    · split
      · rename_i heq
        subst heq
        simp only [get]
        split <;> simp_all
      · rename_i hne
        simp only [get, ih hcs, if_neg hne]
        split
        · rename_i hq
          subst hq
          rw [if_neg (Ne.symm hne)]
        · rfl

end Counts

/-! ## Blocked processes -/

/-- An ascending list with a process put in its place. -/
def insertPid (p : Pid) : List Pid → List Pid
  | [] => [p]
  | q :: rest =>
    if p < q then p :: q :: rest else if p = q then q :: rest else q :: insertPid p rest

theorem mem_insertPid {p q : Pid} {ps : List Pid} : q ∈ insertPid p ps ↔ q = p ∨ q ∈ ps := by
  induction ps with
  | nil => simp [insertPid]
  | cons r ps ih => grind [insertPid]

theorem ascending_insertPid {p : Pid} {ps : List Pid} (h : ps.Pairwise (· < ·)) :
    (insertPid p ps).Pairwise (· < ·) := by
  induction ps with
  | nil => simp [insertPid]
  | cons q ps ih =>
    obtain ⟨hq, hps⟩ := List.pairwise_cons.mp h
    unfold insertPid
    split
    · rename_i hlt
      refine List.pairwise_cons.mpr ⟨fun r hr => ?_, h⟩
      rcases List.mem_cons.mp hr with rfl | hr
      · exact hlt
      · exact UInt32.lt_trans hlt (hq r hr)
    · split
      · exact h
      · rename_i hlt hne
        refine List.pairwise_cons.mpr ⟨fun r hr => ?_, ih hps⟩
        rcases mem_insertPid.mp hr with rfl | hr
        · exact UInt32.lt_of_le_of_ne (UInt32.not_lt.mp hlt) (Ne.symm hne)
        · exact hq r hr

/-! ## The ledger -/

/-- The counts and the blocked processes, each in ascending order of the process. -/
structure Ledger where
  counts : List (Pid × Count)
  blocked : List Pid
  counts_ascending : counts.Pairwise (·.1 < ·.1)
  blocked_ascending : blocked.Pairwise (· < ·)
  deriving DecidableEq

namespace Ledger

/-- Nothing is known. -/
def empty : Ledger := ⟨[], [], .nil, .nil⟩

/-- How many violations a process has. -/
def count (l : Ledger) (p : Pid) : Count := Counts.get p l.counts

/-- Whether a process is blocked. -/
def isBlocked (l : Ledger) (p : Pid) : Bool := l.blocked.contains p

/-- Whether any process is blocked. -/
def anyBlocked (l : Ledger) : Bool := !l.blocked.isEmpty

/-- How many processes have violations. -/
def offenders (l : Ledger) : Nat := l.counts.length

/-- The violations of all processes together. -/
def total (l : Ledger) : UInt64 := l.counts.foldl (fun sum c => sum + c.2.toUInt64) 0

/-- Counts a violation. -/
def record (l : Ledger) (p : Pid) : Ledger :=
  { l with
    counts := Counts.bump p l.counts
    counts_ascending := Counts.ascending_bump l.counts_ascending }

/-- Blocks a process, and says whether it was not blocked before. -/
def mark (l : Ledger) (p : Pid) : Bool × Ledger :=
  (!l.isBlocked p,
    { l with
      blocked := insertPid p l.blocked
      blocked_ascending := ascending_insertPid l.blocked_ascending })

theorem count_record (l : Ledger) (p q : Pid) :
    (l.record p).count q = if q = p then Count.next (l.count p) else l.count q :=
  Counts.get_bump l.counts_ascending

@[simp] theorem isBlocked_record (l : Ledger) (p q : Pid) :
    (l.record p).isBlocked q = l.isBlocked q := rfl

@[simp] theorem count_mark (l : Ledger) (p q : Pid) : (l.mark p).2.count q = l.count q := rfl

theorem isBlocked_mark (l : Ledger) (p q : Pid) :
    (l.mark p).2.isBlocked q = (q == p || l.isBlocked q) := by
  rw [Bool.eq_iff_iff]
  simp [mark, isBlocked, mem_insertPid]

end Ledger
end FileWarden
