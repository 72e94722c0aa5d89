import Mathlib.Data.List.AList
import Mathlib.Data.Finset.Card

/-!
# Tables of descriptors

A table of open descriptors is an `AList`, and the number of open descriptors is the number
of its keys.  A descriptor that is opened or closed adds one or takes one away.

`lowest` is the lowest number that is not in use.  It is below a bound exactly when fewer
numbers below the bound are in use than there are (`lowest_lt_iff`).
-/

namespace EasyWebServer

namespace Descriptors

variable {α β : Type*} [DecidableEq α] {fds : AList (fun _ : α => β)} {fd : α}

/-- A descriptor more is open. -/
theorem length_keys_insert (h : fd ∉ fds) (b : β) :
    (fds.insert fd b).keys.length = fds.keys.length + 1 := by
  have hmem : fd ∉ fds.keys := fun hk => h (AList.mem_keys.mpr hk)
  rw [AList.keys_insert, List.erase_of_not_mem hmem, List.length_cons]

/-- A descriptor less is open. -/
theorem length_keys_erase (h : fd ∈ fds) :
    (fds.erase fd).keys.length + 1 = fds.keys.length := by
  have hmem : fd ∈ fds.keys := AList.mem_keys.mp h
  have hpos := List.length_pos_of_mem hmem
  rw [AList.keys_erase, List.length_erase_of_mem hmem]
  omega

/-! ## The lowest number that is not in use -/

/-- The lowest number that is not in the list. -/
def lowest (used : List Nat) : Nat :=
  ((List.range (used.length + 1)).find? (fun fd => decide (fd ∉ used))).getD 0

/-- It is not in use, and every number below it is. -/
theorem lowest_spec (used : List Nat) :
    lowest used ∉ used ∧ ∀ fd < lowest used, fd ∈ used := by
  rw [lowest]
  rcases hfind : (List.range (used.length + 1)).find? (fun fd => decide (fd ∉ used)) with _ | fd
  · -- More candidates than numbers in use.
    have hsub : List.range (used.length + 1) ⊆ used := by
      intro fd hfd
      have hnot := List.find?_eq_none.mp hfind fd hfd
      simpa using hnot
    have hlen := ((List.nodup_range).subperm hsub).length_le
    rw [List.length_range] at hlen
    omega
  · obtain ⟨hfd, -, hbelow⟩ := List.find?_range_eq_some.mp hfind
    refine ⟨by simpa using hfd, fun k hk => ?_⟩
    simpa using hbelow k hk

theorem lowest_eq {used : List Nat} {fd : Nat} (hfd : fd ∉ used) (hbelow : ∀ k < fd, k ∈ used) :
    lowest used = fd := by
  obtain ⟨hfree, hleast⟩ := lowest_spec used
  rcases Nat.lt_trichotomy (lowest used) fd with hlt | heq | hgt
  · exact absurd (hbelow _ hlt) hfree
  · exact heq
  · exact absurd (hleast fd hgt) hfd

/-- It is below the bound when the numbers in use below the bound are fewer. -/
theorem lowest_lt_iff {used low : List Nat} {bound : Nat} (hlow : low.Nodup)
    (hmem : ∀ fd, fd ∈ low ↔ fd ∈ used ∧ fd < bound) :
    lowest used < bound ↔ low.length < bound := by
  obtain ⟨hfree, hleast⟩ := lowest_spec used
  have hsub : low.toFinset ⊆ Finset.range bound := by
    intro fd hfd
    exact Finset.mem_range.mpr ((hmem fd).mp (List.mem_toFinset.mp hfd)).2
  have hcard : low.toFinset.card = low.length := List.toFinset_card_of_nodup hlow
  constructor
  · intro hlt
    have hstrict : low.toFinset ⊂ Finset.range bound := by
      refine Finset.ssubset_iff_subset_ne.mpr ⟨hsub, fun heq => ?_⟩
      have hin : lowest used ∈ low.toFinset := heq ▸ Finset.mem_range.mpr hlt
      exact hfree ((hmem _).mp (List.mem_toFinset.mp hin)).1
    have hless := Finset.card_lt_card hstrict
    rwa [hcard, Finset.card_range] at hless
  · intro hless
    by_contra hge
    -- every number below the bound is in use
    have hall : Finset.range bound ⊆ low.toFinset := by
      intro fd hfd
      have hfd := Finset.mem_range.mp hfd
      exact List.mem_toFinset.mpr ((hmem fd).mpr ⟨hleast fd (by omega), hfd⟩)
    have hle := Finset.card_le_card hall
    rw [hcard, Finset.card_range] at hle
    omega

end Descriptors

end EasyWebServer
