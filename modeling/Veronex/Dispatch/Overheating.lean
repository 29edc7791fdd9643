import Mathlib.Data.Rat.Floor
import Veronex.Capacity.SyncProvider
import Veronex.Dispatch.Eligibility

/-! # Providers without VRAM

`get_ollama_available_vram_mb` of `infrastructure/outbound/provider_router.rs` tells a provider that
is overheating or full by its answer; `pick_best_provider` takes the largest one.

`pick_refuses_iff`: when a provider that is picked has VRAM.
-/
namespace Veronex
set_option autoImplicit false

/-- `HwMetrics`, with what only dispatch reads. -/
structure GpuMetrics extends HwMetrics where
  vramUsedMb : ℕ
  tempC : ℚ
  tempJunctionC : ℚ
  tempMemC : ℚ

namespace GpuMetrics
variable (hw : GpuMetrics)

def vramFreeMb : ℤ := hw.vramTotalMb - hw.vramUsedMb

def maxTempC : ℚ := max (max hw.tempC hw.tempJunctionC) hw.tempMemC

def isOverheating : Bool := 85 ≤ hw.maxTempC

end GpuMetrics

def I64_MIN : ℤ := -2 ^ 63

/-- What is known of the VRAM of the providers. -/
structure VramSources where
  /-- `load_hw_metrics`, where there is a Valkey. -/
  loadHwMetrics : Option (ProviderId → Option GpuMetrics)
  totalVramMb : ProviderId → ℤ

def VramSources.getOllamaAvailableVramMb (src : VramSources) (provider : LlmProvider) : ℤ :=
  let registered :=
    if src.totalVramMb provider.id = 0 then I64_MAX else src.totalVramMb provider.id
  match src.loadHwMetrics.bind fun load => load provider.id with
  | some hw =>
    if hw.isOverheating then I64_MIN
    else if 0 < hw.vramTotalMb then hw.vramFreeMb
    else registered
  | none => registered

/-- Overheating, or full. -/
def VramSources.Unavailable (src : VramSources) (provider : LlmProvider) : Prop :=
  src.getOllamaAvailableVramMb provider = I64_MIN ∨ src.getOllamaAvailableVramMb provider ≤ 0

theorem VramSources.unavailable_iff (src : VramSources) (provider : LlmProvider) :
    src.Unavailable provider ↔ src.getOllamaAvailableVramMb provider ≤ 0 := by
  refine or_iff_right_of_imp fun hmin => ?_
  rw [hmin]
  decide

namespace RoutingPorts
variable {r : RoutingPorts} {model : String} {avail : LlmProvider → ℤ}
  {pickGemini : List LlmProvider → Except PickError LlmProvider} {src : VramSources}

/-- No provider has more available VRAM than the one that is taken. -/
theorem le_mostAvailable {scored : List LlmProvider} {best : LlmProvider}
    (h : mostAvailable avail scored = some best) : ∀ b ∈ scored, avail b ≤ avail best := by
  induction scored using List.reverseRecOn generalizing best with
  | nil => simp
  | append_singleton scored b ih =>
    rw [mostAvailable, List.foldl_concat, ← mostAvailable] at h
    intro c hc
    cases hlast : mostAvailable avail scored with
    | none =>
      have hnil : scored = [] := by
        by_contra hne
        have hsome : ∃ best', mostAvailable avail scored = some best' := mostAvailable_isSome hne
        obtain ⟨best', hbest⟩ := hsome
        exact Option.some_ne_none best' (hbest.symm.trans hlast)
      rw [hlast] at h
      obtain rfl : b = best := Option.some.inj h
      obtain rfl : c = b := by simpa [hnil] using hc
      exact le_rfl
    | some best' =>
      rw [hlast] at h
      dsimp only at h
      have hbefore := ih hlast
      rcases List.mem_append.mp hc with hold | hnew
      · have hle := hbefore c hold
        split at h
        · obtain rfl := Option.some.inj h
          omega
        · obtain rfl := Option.some.inj h
          exact hle
      · obtain rfl := List.mem_singleton.mp hnew
        split at h
        · obtain rfl := Option.some.inj h
          exact le_rfl
        · obtain rfl := Option.some.inj h
          omega

/-- With a registered Ollama provider, one is taken from the candidates or there is no VRAM. -/
theorem pickBestProvider_eq {all : List LlmProvider} (hall : r.listAll = some all)
    (hregistered : ∃ b ∈ all, b.providerType = .ollama) :
    r.pickBestProvider model pickGemini avail .ollama =
      ((mostAvailable avail (r.directCandidates model)).elim (.error .noOllamaProvider) .ok) := by
  obtain ⟨b, hb, hollama⟩ := hregistered
  have hne : (all.filter fun b => b.providerType = .ollama).isEmpty = false := by
    rw [List.isEmpty_eq_false_iff]
    exact List.ne_nil_of_mem (List.mem_filter.mpr ⟨hb, by simpa using hollama⟩)
  rw [pickBestProvider, hall]
  dsimp only
  rw [hne, if_neg Bool.false_ne_true, directCandidates, hall, Option.getD_some]
  cases mostAvailable avail _ with
  | none => rfl
  | some best => rfl

/-- A provider that is picked has VRAM, and without a candidate that has there is an error. -/
def Refuses (r : RoutingPorts) (model : String)
    (pickGemini : List LlmProvider → Except PickError LlmProvider) (src : VramSources) : Prop :=
  let picked := r.pickBestProvider model pickGemini src.getOllamaAvailableVramMb .ollama
  (∀ b, picked = .ok b → ¬ src.Unavailable b) ∧
    ((∃ b ∈ r.listAll.getD [], b.providerType = .ollama) →
      (∀ b ∈ r.directCandidates model, src.Unavailable b) → picked = .error .noOllamaProvider)

/-- A candidate is registered. -/
theorem registered_of_candidate {b : LlmProvider} (hb : b ∈ r.directCandidates model) :
    ∃ all, r.listAll = some all ∧ ∃ b ∈ all, b.providerType = .ollama := by
  by_contra hnone
  have hempty : (r.listAll.getD []).filter (fun b => b.providerType = .ollama) = [] := by
    rw [List.filter_eq_nil_iff]
    intro c hc hollama
    cases hall : r.listAll with
    | none => simp [hall] at hc
    | some all =>
      rw [hall, Option.getD_some] at hc
      exact hnone ⟨all, hall, c, hc, by simpa using hollama⟩
  rw [directCandidates, hempty, directSelected_nil] at hb
  exact List.not_mem_nil hb

/-- Providers without VRAM are refused exactly if there is no candidate, or one that has VRAM. -/
theorem pick_refuses_iff (r : RoutingPorts) (model : String)
    (pickGemini : List LlmProvider → Except PickError LlmProvider) (src : VramSources) :
    r.Refuses model pickGemini src ↔
      r.directCandidates model = [] ∨
        ∃ b ∈ r.directCandidates model, ¬ src.Unavailable b := by
  obtain ⟨hcandidate, hpicked⟩ :=
    pickBestProvider_ollama r model pickGemini src.getOllamaAvailableVramMb
  constructor
  · rintro ⟨havailable, -⟩
    by_contra hrefused
    obtain ⟨hne, hall⟩ := not_or.mp hrefused
    obtain ⟨best, hbest⟩ := hpicked hne
    exact hall ⟨best, hcandidate best hbest, havailable best hbest⟩
  · rintro (hempty | ⟨b, hb, havailable⟩)
    · refine ⟨fun best hbest => ?_, fun hregistered _ => ?_⟩
      · have hmem := hcandidate best hbest
        rw [hempty] at hmem
        exact absurd hmem List.not_mem_nil
      · cases hall : r.listAll with
        | none => simp [hall] at hregistered
        | some all =>
          rw [hall, Option.getD_some] at hregistered
          rw [pickBestProvider_eq hall hregistered, hempty]
          rfl
    · obtain ⟨all, hall, hregistered⟩ := registered_of_candidate hb
      refine ⟨fun best hbest => ?_, fun _ hnone => absurd (hnone b hb) havailable⟩
      rw [pickBestProvider_eq hall hregistered] at hbest
      cases hmost : mostAvailable src.getOllamaAvailableVramMb (r.directCandidates model) with
      | none =>
        rw [hmost] at hbest
        cases hbest
      | some most =>
        rw [hmost] at hbest
        obtain rfl : most = best := Except.ok.inj hbest
        have hle := le_mostAvailable hmost b hb
        rw [VramSources.unavailable_iff] at havailable ⊢
        omega

/-! ## One provider that is too hot -/

/-- Provider 1 is registered. -/
def onlyProvider : RoutingPorts :=
  { listAll := some [ollamaProvider 1], ollamaModelRepo := none, modelSelectionRepo := none
    globalModelSettingsRepo := none, isPreloadExcluded := fun _ _ => false }

/-- Its junction is at 90 °C. -/
def hotJunction : VramSources :=
  { loadHwMetrics := some fun _ => some
      { memAvailableMb := 0, vramTotalMb := 16384, gpuVendor := "amd", vramUsedMb := 0
        tempC := 70, tempJunctionC := 90, tempMemC := 70 }
    totalVramMb := fun _ => 16384 }

theorem hot_provider_picked :
    ¬ ∀ (r : RoutingPorts) (model : String)
      (pickGemini : List LlmProvider → Except PickError LlmProvider) (src : VramSources),
      r.Refuses model pickGemini src := by
  intro hall
  have hrefused := (hall onlyProvider "" (fun _ => .error .listAll) hotJunction).1
    (ollamaProvider 1) rfl
  refine hrefused (.inl ?_)
  decide +kernel

end RoutingPorts
end Veronex
