import Mathlib

/-!
# Tables indexed by a byte
-/

namespace Core

open List

def allBytes : List UInt8 := (List.range 256).map UInt8.ofNat

lemma mem_allBytes (b : UInt8) : b ∈ allBytes := by
  refine List.mem_map.mpr ⟨b.toNat, ?_, UInt8.ofNat_toNat⟩
  exact List.mem_range.mpr b.toNat_lt

lemma nodup_allBytes : allBytes.Nodup := by
  refine List.Nodup.map_on ?_ nodup_range
  intro m hm n hn h
  have hval := congrArg UInt8.toNat h
  rw [mem_range] at hm hn
  rwa [UInt8.toNat_ofNat_of_lt' hm, UInt8.toNat_ofNat_of_lt' hn] at hval

/-- A list without repetitions whose only element is `b`. -/
lemma eq_singleton_of_nodup {l : List UInt8} {b : UInt8} (hl : l.Nodup) (h : ∀ i, i ∈ l ↔ i = b) :
    l = [b] := by
  refine List.perm_singleton.mp ((perm_ext_iff_of_nodup hl (nodup_singleton b)).mpr ?_)
  intro i
  rw [h, mem_singleton]

lemma filter_allBytes (b : UInt8) : allBytes.filter (fun i => b == i) = [b] := by
  apply eq_singleton_of_nodup (nodup_allBytes.filter _)
  intro i
  rw [mem_filter, beq_iff_eq, eq_comm]
  exact and_iff_right (mem_allBytes i)

instance fintypeUInt8 : Fintype UInt8 := ⟨⟨allBytes, nodup_allBytes⟩, mem_allBytes⟩

section Present

variable {α : Type} (isEmpty : α → Bool)

/-- Indices of the entries that are not empty, in ascending order. -/
def present (t : UInt8 → α) : List UInt8 := allBytes.filter fun i => !isEmpty (t i)

variable {isEmpty} {t : UInt8 → α}

lemma mem_present {i : UInt8} : i ∈ present isEmpty t ↔ isEmpty (t i) = false := by
  simp [present, mem_allBytes]

lemma nodup_present : (present isEmpty t).Nodup := nodup_allBytes.filter _

lemma present_eq_nil : present isEmpty t = [] ↔ ∀ i, isEmpty (t i) = true := by
  simp [eq_nil_iff_forall_not_mem, mem_present]

/-- A single entry is left. -/
lemma present_eq_singleton {i : UInt8} :
    present isEmpty t = [i] ↔ ∀ j, isEmpty (t j) = false ↔ j = i := by
  constructor
  · intro h j
    have hmem : j ∈ present isEmpty t ↔ isEmpty (t j) = false := mem_present
    rw [← hmem, h, mem_singleton]
  · intro h
    apply eq_singleton_of_nodup nodup_present
    intro j
    rw [mem_present, h]

end Present

end Core
