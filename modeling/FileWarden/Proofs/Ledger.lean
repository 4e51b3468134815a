import FileWarden.Ledger
import Mathlib

/-!
# Totals of a ledger

- **Offenders** (`offenderPids`): the processes with violations, each once (`nodup_offenderPids`), so
  there are at most `2 ^ 32` of them (`offenders_le`).
- **Total** (`toNat_total`): the sum of all counts. Counts of 32 bits for at most `2 ^ 32` processes
  stay below `2 ^ 64`, so the sum of 64 bits does not wrap. `total_eq_finsum` takes the sum over all
  processes; those without violations add nothing.
-/

namespace FileWarden

namespace Counts

/-- Adding counts to a sum of 64 bits that has room for them. -/
theorem toNat_foldl (cs : List (Pid × Count)) (s : UInt64)
    (h : s.toNat + (cs.map (·.2.toNat)).sum < 2 ^ 64) :
    (cs.foldl (fun sum c => sum + c.2.toUInt64) s).toNat =
      s.toNat + (cs.map (·.2.toNat)).sum := by
  induction cs generalizing s with
  | nil => simp
  | cons c cs ih =>
    simp only [List.map_cons, List.sum_cons] at h
    have hs : (s + c.2.toUInt64).toNat = s.toNat + c.2.toNat := by
      rw [UInt64.toNat_add, UInt32.toNat_toUInt64]
      exact Nat.mod_eq_of_lt (by omega)
    rw [List.foldl_cons, ih _ (by omega), hs, List.map_cons, List.sum_cons]
    omega

theorem get_of_not_mem {p : Pid} {cs : List (Pid × Count)} (h : p ∉ cs.map (·.1)) :
    get p cs = 0 := by
  induction cs with
  | nil => rfl
  | cons c cs ih =>
    simp only [List.map_cons, List.mem_cons, not_or] at h
    simp only [get, if_neg h.1]
    exact ih h.2

theorem get_of_mem {p : Pid} {n : Count} {cs : List (Pid × Count)}
    (ha : cs.Pairwise (·.1 < ·.1)) (h : (p, n) ∈ cs) : get p cs = n := by
  induction cs with
  | nil => cases h
  | cons c cs ih =>
    obtain ⟨hc, hcs⟩ := List.pairwise_cons.mp ha
    rcases List.mem_cons.mp h with rfl | h
    · simp [get]
    · have hne : p ≠ c.1 := (UInt32.ne_of_lt (hc _ h)).symm
      simp only [get, if_neg hne]
      exact ih hcs h

theorem mem_keys_bump {p q : Pid} {cs : List (Pid × Count)} :
    q ∈ (bump p cs).map (·.1) ↔ q = p ∨ q ∈ cs.map (·.1) := by
  induction cs with
  | nil => simp [bump]
  | cons c cs ih =>
    unfold bump
    split
    · simp
    · split
      · rename_i heq
        simp [heq]
      · simp only [List.map_cons, List.mem_cons, ih]
        tauto

end Counts

namespace Ledger

/-- The processes with violations. -/
def offenderPids (l : Ledger) : List Pid := l.counts.map (·.1)

theorem nodup_offenderPids (l : Ledger) : l.offenderPids.Nodup :=
  List.pairwise_map.mpr (l.counts_ascending.imp fun h => UInt32.ne_of_lt h)

@[simp] theorem offenderPids_empty : empty.offenderPids = [] := rfl

@[simp] theorem mem_offenderPids_record {l : Ledger} {p q : Pid} :
    q ∈ (l.record p).offenderPids ↔ q = p ∨ q ∈ l.offenderPids := Counts.mem_keys_bump

@[simp] theorem offenderPids_mark {l : Ledger} {p : Pid} :
    (l.mark p).2.offenderPids = l.offenderPids := rfl

theorem isBlocked_iff {l : Ledger} {p : Pid} : l.isBlocked p = true ↔ p ∈ l.blocked := by
  simp [isBlocked]

theorem anyBlocked_iff {l : Ledger} : l.anyBlocked = true ↔ l.blocked ≠ [] := by
  simp [anyBlocked]

theorem offenders_eq_ncard (l : Ledger) : l.offenders = {p | p ∈ l.offenderPids}.ncard := by
  have h : {p | p ∈ l.offenderPids} = (l.offenderPids.toFinset : Set Pid) := by
    ext p; simp
  rw [h, Set.ncard_coe_finset, List.toFinset_card_of_nodup l.nodup_offenderPids]
  simp [offenders, offenderPids]

/-- A process has one of `2 ^ 32` numbers. -/
theorem offenders_le (l : Ledger) : l.offenders ≤ 2 ^ 32 := by
  have hn : (l.offenderPids.map UInt32.toNat).Nodup :=
    l.nodup_offenderPids.map fun _ _ h => UInt32.toNat_inj.mp h
  have hs : (l.offenderPids.map UInt32.toNat).toFinset ⊆ Finset.range (2 ^ 32) := by
    intro n hm
    simp only [List.mem_toFinset, List.mem_map] at hm
    obtain ⟨p, -, rfl⟩ := hm
    exact Finset.mem_range.mpr p.toNat_lt
  have hc := Finset.card_le_card hs
  rw [List.toFinset_card_of_nodup hn, Finset.card_range] at hc
  simpa [offenders, offenderPids] using hc

/-- The counts of all processes together have room in 64 bits. -/
theorem sum_counts_lt (l : Ledger) : (l.counts.map (·.2.toNat)).sum < 2 ^ 64 := by
  have hb : ∀ n ∈ l.counts.map (·.2.toNat), n ≤ 2 ^ 32 - 1 := by
    intro n hn
    obtain ⟨c, -, rfl⟩ := List.mem_map.mp hn
    have := c.2.toNat_lt
    omega
  have hs := List.sum_le_card_nsmul _ _ hb
  have hl : l.counts.length ≤ 2 ^ 32 := l.offenders_le
  rw [List.length_map, smul_eq_mul] at hs
  calc (l.counts.map (·.2.toNat)).sum ≤ l.counts.length * (2 ^ 32 - 1) := hs
    _ ≤ 2 ^ 32 * (2 ^ 32 - 1) := Nat.mul_le_mul_right _ hl
    _ < 2 ^ 64 := by norm_num

theorem toNat_total (l : Ledger) : l.total.toNat = (l.counts.map (·.2.toNat)).sum := by
  rw [total, Counts.toNat_foldl l.counts 0 (by simpa using l.sum_counts_lt)]
  simp

/-- The total is the sum of the counts of all processes. -/
theorem total_eq_finsum (l : Ledger) : l.total.toNat = ∑ᶠ p : Pid, (l.count p).toNat := by
  have hsupp : Function.support (fun p => (l.count p).toNat) ⊆ l.offenderPids.toFinset := by
    intro p hp
    by_contra hm
    have hn : p ∉ l.offenderPids := fun h => hm (by simpa using h)
    have : l.count p = 0 := Counts.get_of_not_mem hn
    exact hp (by simp [this])
  rw [finsum_eq_sum_of_support_subset _ hsupp, List.sum_toFinset _ l.nodup_offenderPids, toNat_total,
    offenderPids, List.map_map]
  refine congrArg List.sum (List.map_congr_left fun c hc => ?_)
  rw [Function.comp_apply, show l.count c.1 = c.2 from Counts.get_of_mem l.counts_ascending hc]

end Ledger
end FileWarden
