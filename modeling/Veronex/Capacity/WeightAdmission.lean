import Veronex.Capacity.Overcommit

/-! # Admission and model weight

A model that was refused for lack of memory is refused with a larger weight as well, unless that
weight alone takes the test past the total: `refused_heavier_iff`.
-/
namespace Veronex
set_option autoImplicit false

namespace ProviderVramState
variable {state : ProviderVramState} {model : String} {ms : ModelState} {w w' : ℕ}
  {probePermits : ℤ} {probeRate : ℕ}

/-- The state in which the model has this weight. -/
def weighing (state : ProviderVramState) (model : String) (ms : ModelState) (w : ℕ) :
    ProviderVramState :=
  state.setModel model { ms with weightMb := w }

/-- The reservation passes the limit and is refused for lack of VRAM. -/
def RefusedForVram (state : ProviderVramState) (model : String) (probePermits : ℤ)
    (probeRate : ℕ) : Prop :=
  (state.checkLimit model probePermits probeRate).2 = false ∧
    (state.tryReserve model probePermits probeRate).2 = none

/-- Sizes in MB. -/
structure Sized (state : ProviderVramState) (w : ℕ) : Prop where
  total : state.totalMb < 2 ^ 62
  reserved : state.reservedKvMb < 2 ^ 62
  weight : w < 2 ^ 62

theorem i64_bounds (x : ℤ) : -(2 ^ 63) ≤ i64 x ∧ i64 x < 2 ^ 63 := by
  have hlo : -((U64 : ℤ) / 2) ≤ x.bmod U64 := Int.le_bmod (by decide)
  have hhi : x.bmod U64 < ((U64 : ℤ) + 1) / 2 := Int.bmod_lt (by decide)
  rw [show (U64 : ℤ) = 2 ^ 64 from rfl] at hlo hhi
  rw [i64]
  omega

theorem safetyMb_bounds (total permil : ℕ) :
    -(2 ^ 54) < safetyMb total permil ∧ safetyMb total permil < 2 ^ 54 := by
  unfold safetyMb
  have hbounds := i64_bounds (i64 total * permil)
  generalize i64 (i64 total * permil) = x at hbounds ⊢
  have habs : (x.tdiv 1000).natAbs = x.natAbs / 1000 := Int.natAbs_tdiv x 1000
  generalize x.tdiv 1000 = y at habs ⊢
  omega

theorem weighing_cost (hloaded : ms.isLoaded = false) :
    reserveCost ((state.weighing model ms w).models.lookup model) =
      { kvMb := max ms.kvPerRequestMb 32, needLoadWeight := true, weightCost := w } := by
  have hlookup : (state.weighing model ms w).models.lookup model = some { ms with weightMb := w } :=
    AList.lookup_insert _
  rw [hlookup, reserveCost]
  simp [hloaded]

theorem weighing_checkLimit :
    ((state.weighing model ms w).checkLimit model probePermits probeRate).2 =
      (shouldBlock ms probePermits probeRate).1 := by
  have hlookup : (state.weighing model ms w).models.lookup model = some { ms with weightMb := w } :=
    AList.lookup_insert _
  rw [checkLimit, hlookup]
  rfl

/-- Past the limit the reservation is a matter of the memory. -/
theorem weighing_refused_iff (hprobed : 0 < state.totalMb) (hloaded : ms.isLoaded = false)
    (hfree : (shouldBlock ms probePermits probeRate).1 = false) :
    ((state.weighing model ms w).tryReserve model probePermits probeRate).2 = none ↔
      availableFor state.totalMb state.cachedLoadedWeightMb state.reservedKvMb state.safetyPermil w <
        i64 (max ms.kvPerRequestMb 32 : ℕ) := by
  have hcost : reserveCost ((state.weighing model ms w).models.lookup model) =
      { kvMb := max ms.kvPerRequestMb 32, needLoadWeight := true, weightCost := w } :=
    weighing_cost hloaded
  have havail := (state.weighing model ms w).checkLimit_available model probePermits probeRate
    { kvMb := max ms.kvPerRequestMb 32, needLoadWeight := true, weightCost := w }
  have hlimit : ((state.weighing model ms w).checkLimit model probePermits probeRate).2 =
      (shouldBlock ms probePermits probeRate).1 := weighing_checkLimit
  have hsame : (state.weighing model ms w).totalMb ≠ 0 := Nat.ne_of_gt hprobed
  rw [hfree] at hlimit
  rw [tryReserve, if_neg hsame, tryReserveProbed, hcost]
  simp only [hlimit, casLoop, havail, Bool.false_eq_true, if_false]
  have hmemory : (state.weighing model ms w).available
      { kvMb := max ms.kvPerRequestMb 32, needLoadWeight := true, weightCost := w } =
      availableFor state.totalMb state.cachedLoadedWeightMb state.reservedKvMb state.safetyPermil w :=
    rfl
  rw [hmemory]
  split
  · next hshort => exact iff_of_true rfl hshort
  · next hlong => exact iff_of_false (by rintro ⟨⟩) hlong

/-- With more than the total the memory is taken for unified, and there is enough of it. -/
theorem availableFor_unified {total loaded curKv permil : ℕ} (htotal : total < 2 ^ 62)
    (hw : w < 2 ^ 62) (hloaded : loaded ≤ total) (hover : total < loaded + w) (kv : ℤ) :
    ¬ availableFor total loaded curKv permil w < i64 kv := by
  have hcap : i64 (total : ℤ) = total := i64_of_bounds (by omega) (by omega)
  have hsum : i64 ((loaded : ℤ) + w) = (loaded : ℤ) + w := i64_of_bounds (by omega) (by omega)
  have hkv := (i64_bounds kv).2
  rw [availableFor, hcap, hsum, if_pos (by omega), show I64_MAX = 2 ^ 63 - 1 from rfl]
  omega

/-- Up to the total a larger weight leaves less. -/
theorem availableFor_lt {total loaded curKv permil : ℕ} (htotal : total < 2 ^ 62)
    (hkv : curKv < 2 ^ 62) (hlt : w < w') (hfits : loaded + w' ≤ total) :
    availableFor total loaded curKv permil w' < availableFor total loaded curKv permil w := by
  obtain ⟨hlo, hhi⟩ := safetyMb_bounds total permil
  have hcap : i64 (total : ℤ) = total := i64_of_bounds (by omega) (by omega)
  have hsum : ∀ u : ℕ, u ≤ w' → i64 ((loaded : ℤ) + u) = (loaded : ℤ) + u :=
    fun u hu => i64_of_bounds (by omega) (by omega)
  have hrest : ∀ u : ℕ, u ≤ w' → availableFor total loaded curKv permil u =
      (total : ℤ) - loaded - curKv - DEFAULT_BUFFER_MB - safetyMb total permil - u := by
    intro u hu
    rw [availableFor, hcap, hsum u hu, if_neg (by omega)]
    have hbuffer : DEFAULT_BUFFER_MB = 512 := rfl
    generalize safetyMb total permil = safety at hlo hhi ⊢
    exact i64_of_bounds (by omega) (by omega)
  rw [hrest w' (Nat.le_refl _), hrest w hlt.le]
  omega

/-- A refused model is refused with a larger weight, unless that weight takes it past the total. -/
theorem refused_heavier_iff (hprobed : 0 < state.totalMb) (hloaded : ms.isLoaded = false)
    (hfits : state.cachedLoadedWeightMb ≤ state.totalMb) (hsized : state.Sized w') (hlt : w < w')
    (hrefused : (state.weighing model ms w).RefusedForVram model probePermits probeRate) :
    ((state.weighing model ms w').tryReserve model probePermits probeRate).2 = none ↔
      state.cachedLoadedWeightMb + w' ≤ state.totalMb := by
  obtain ⟨hfree, hnone⟩ := hrefused
  rw [weighing_checkLimit] at hfree
  rw [weighing_refused_iff hprobed hloaded hfree] at hnone ⊢
  constructor
  · intro hshort
    by_contra hover
    exact availableFor_unified hsized.total hsized.weight hfits (by omega) _ hshort
  · intro hunder
    exact (availableFor_lt hsized.total hsized.reserved hlt hunder).trans hnone

/-- 100000 MB with a model of 5000 MB loaded. -/
def smallLoaded : ProviderVramState :=
  { ProviderVramState.fresh with totalMb := 100000, cachedLoadedWeightMb := 5000 }

/-- The profile of a model that is not loaded. -/
def unloaded : ModelState := ModelState.new 0 false 32 0

theorem refused_of_94990 :
    ((smallLoaded.weighing "huge" unloaded 95000).tryReserve "huge" 1 3).2 = none := by
  have hsized : smallLoaded.Sized 95000 := ⟨by decide, by decide, by decide⟩
  have hrefused : (smallLoaded.weighing "huge" unloaded 94990).RefusedForVram "huge" 1 3 :=
    ⟨by decide, by decide⟩
  exact (refused_heavier_iff (by decide) rfl (by decide) hsized (by decide) hrefused).mpr (by decide)

/-- A model of 95000 MB is refused and one of 95001 MB is granted. -/
theorem heavier_granted :
    ¬ ∀ (state : ProviderVramState) (model : String) (ms : ModelState) (w w' : ℕ)
      (probePermits : ℤ) (probeRate : ℕ), 0 < state.totalMb → ms.isLoaded = false →
      state.cachedLoadedWeightMb ≤ state.totalMb → w < w' →
      (state.weighing model ms w).RefusedForVram model probePermits probeRate →
      ((state.weighing model ms w').tryReserve model probePermits probeRate).2 = none := by
  intro hall
  have hrefused : (smallLoaded.weighing "huge" unloaded 95000).RefusedForVram "huge" 1 3 :=
    ⟨by decide, by decide⟩
  have hnone := hall smallLoaded "huge" unloaded 95000 95001 1 3 (by decide) rfl (by decide)
    (by decide) hrefused
  revert hnone
  decide

end ProviderVramState

end Veronex
