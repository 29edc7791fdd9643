import Veronex.Dispatch.Scoring

/-! # Which providers may serve a model

`filter_candidates` of `application/use_cases/inference/dispatcher.rs` for jobs from the queue, and
`pick_best_provider` of `infrastructure/outbound/provider_router.rs` for jobs that are routed
directly. Both ask `provider_selected_models`: the first for the rows that disable a model, the
second for those that enable one.

`eligible_on_both_iff`: for which rows the two agree on an Ollama provider.
-/
namespace Veronex
set_option autoImplicit false

def GEMINI_TIER_FREE : String := "free"

/-! ## The table -/

/-- A row of `provider_selected_models`. -/
structure SelectedModel where
  providerId : ProviderId
  modelName : String
  isEnabled : Bool

def SelectedModel.key (row : SelectedModel) : ProviderId × String := (row.providerId, row.modelName)

structure SelectionTable where
  rows : List SelectedModel
  /-- The primary key. -/
  keys_nodup : (rows.map SelectedModel.key).Nodup

/-- `ProviderModelSelectionRepository`; none is an error. -/
structure ModelSelectionRepo where
  listEnabled : ProviderId → Option (List String)
  listDisabled : ProviderId → Option (List String)

namespace SelectionTable
variable (table : SelectionTable) (id : ProviderId) (model : String)

/-- The model names of a provider with this flag. -/
def names (isEnabled : Bool) : List String :=
  (table.rows.filter fun row => row.providerId = id ∧ row.isEnabled = isEnabled).map
    SelectedModel.modelName

/-- The queries; nothing depends on the order of their rows. -/
def repo : ModelSelectionRepo :=
  { listEnabled := fun id => some (table.names id true)
    listDisabled := fun id => some (table.names id false) }

/-- `is_enabled` of a row, if there is one. -/
def row : Option Bool :=
  (table.rows.find? fun row => row.key = (id, model)).map SelectedModel.isEnabled

def empty : SelectionTable := { rows := [], keys_nodup := List.nodup_nil }

/-- `INSERT .. ON CONFLICT DO UPDATE SET is_enabled`. -/
def setEnabled (enabled : Bool) : SelectionTable :=
  if hkey : (id, model) ∈ table.rows.map SelectedModel.key then
    { rows := table.rows.map fun row =>
        if row.key = (id, model) then { row with isEnabled := enabled } else row
      keys_nodup := by
        have hkeys : (table.rows.map fun row =>
            if row.key = (id, model) then { row with isEnabled := enabled } else row).map
              SelectedModel.key = table.rows.map SelectedModel.key := by
          rw [List.map_map]
          refine List.map_congr_left fun row _ => ?_
          dsimp only [Function.comp_apply]
          split <;> rfl
        rw [hkeys]
        exact table.keys_nodup }
  else
    { rows := table.rows ++ [{ providerId := id, modelName := model, isEnabled := enabled }]
      keys_nodup := by
        rw [List.map_append, List.nodup_append]
        refine ⟨table.keys_nodup, List.nodup_singleton _, ?_⟩
        intro key hmem key' hkey' heq
        obtain rfl : key' = (id, model) := List.mem_singleton.mp hkey'
        exact hkey (heq ▸ hmem) }

end SelectionTable

/-! ## The two paths -/

/-- What routing asks; none is an error of the call, or a port that is not there. -/
structure RoutingPorts where
  listAll : Option (List LlmProvider)
  /-- `providers_for_model` -/
  ollamaModelRepo : Option (String → Option (List ProviderId))
  modelSelectionRepo : Option ModelSelectionRepo
  /-- `is_enabled` of the global settings. -/
  globalModelSettingsRepo : Option (String → Option Bool)
  isPreloadExcluded : ProviderId → String → Bool

inductive PickError
  | listAll
  | noRegisteredProvider (pt : ProviderType)
  | noOllamaProvider

namespace RoutingPorts
variable (r : RoutingPorts) (model : String)

/-- Stage 0: the global model gate rejects. -/
def globallyDisabled : Bool :=
  model ≠ "" ∧ (r.globalModelSettingsRepo.bind fun repo => repo model) = some false

/-- Stage 1: type and tier. -/
def ofType (providerType : ProviderType) (geminiTier : Option String) : List LlmProvider :=
  (r.listAll.getD []).filter fun b =>
    b.providerType = providerType ∧ ¬ (geminiTier = some GEMINI_TIER_FREE ∧ b.isFreeTier = false)

/-- Stage 2: model availability. -/
def queueAvailable (candidates : List LlmProvider) : List LlmProvider :=
  match r.ollamaModelRepo.bind fun repo => repo model with
  | some ids =>
    if ids = [] then candidates
    else
      let filtered := candidates.filter fun b => b.id ∈ ids
      if filtered = [] then candidates else filtered
  | none => candidates

/-- Stage 3: a provider with a row that disables the model is left out. -/
def queueSelected (candidates : List LlmProvider) : List LlmProvider :=
  match r.modelSelectionRepo with
  | some repo => candidates.filter fun b =>
    match repo.listDisabled b.id with
    | some disabled => model ∉ disabled
    | none => true
  | none => candidates

def filterCandidates (providerType : ProviderType) (geminiTier : Option String) :
    List LlmProvider :=
  if r.globallyDisabled model then []
  else if providerType ≠ .ollama ∨ model = "" then r.ofType providerType geminiTier
  else
    (r.queueSelected model (r.queueAvailable model (r.ofType providerType geminiTier))).filter
      fun b => !r.isPreloadExcluded b.id model

/-- The providers that have the model synced. -/
def directAvailable (candidates : List LlmProvider) : List LlmProvider :=
  match r.ollamaModelRepo with
  | some repo =>
    if model ≠ "" then
      match repo model with
      | some (id :: ids) =>
        let filtered := candidates.filter fun b => b.id ∈ id :: ids
        if filtered.isEmpty then candidates else filtered
      | _ => candidates
    else candidates
  | none => candidates

/-- A provider that enables models, but not this one, is left out. -/
def filterByModelSelection (repo : ModelSelectionRepo) (candidates : List LlmProvider) :
    List LlmProvider :=
  candidates.filter fun b =>
    match repo.listEnabled b.id with
    | some enabled => if enabled.isEmpty then true else model ∈ enabled
    | none => true

def directSelected (candidates : List LlmProvider) : List LlmProvider :=
  match r.modelSelectionRepo with
  | some repo => if model ≠ "" then filterByModelSelection model repo candidates else candidates
  | none => candidates

/-- The Ollama providers `pick_best_provider` picks from. -/
def directCandidates : List LlmProvider :=
  r.directSelected model (r.directAvailable model
    ((r.listAll.getD []).filter fun b => b.providerType = .ollama))

/-- `max_by_key`: the last of those with the most available VRAM. -/
def mostAvailable (avail : LlmProvider → ℤ) (scored : List LlmProvider) : Option LlmProvider :=
  scored.foldl (fun best b =>
    match best with
    | some best => if avail best ≤ avail b then some b else some best
    | none => some b) none

/-- `pick_best_provider`; how a Gemini provider is picked is a parameter. -/
def pickBestProvider (pickGemini : List LlmProvider → Except PickError LlmProvider)
    (avail : LlmProvider → ℤ) (pt : ProviderType) : Except PickError LlmProvider :=
  match r.listAll with
  | none => .error .listAll
  | some all =>
    let candidates := all.filter fun b => b.providerType = pt
    if candidates.isEmpty then .error (.noRegisteredProvider pt)
    else
      match pt with
      | .gemini => pickGemini candidates
      | .ollama =>
        match mostAvailable avail (r.directSelected model (r.directAvailable model candidates)) with
        | some b => .ok b
        | none => .error .noOllamaProvider

end RoutingPorts

/-! ## What the queries answer -/

namespace SelectionTable
variable {table : SelectionTable} {id : ProviderId} {model : String} {enabled : Bool}

/-- The primary key makes the row of a provider and a model unique. -/
theorem row_eq_some_iff : table.row id model = some enabled ↔
    ∃ row ∈ table.rows, row.key = (id, model) ∧ row.isEnabled = enabled := by
  have hinj : ∀ row ∈ table.rows, ∀ row' ∈ table.rows, row.key = row'.key → row = row' :=
    List.inj_on_of_nodup_map table.keys_nodup
  rw [row, Option.map_eq_some_iff]
  constructor
  · rintro ⟨row, hfind, hflag⟩
    have hkey := List.find?_some hfind
    exact ⟨row, List.mem_of_find?_eq_some hfind, by simpa using hkey, hflag⟩
  · rintro ⟨row, hmem, hkey, hflag⟩
    cases hfind : table.rows.find? fun row => row.key = (id, model) with
    | none =>
      have hnot := List.find?_eq_none.mp hfind row hmem
      exact absurd hkey (by simpa using hnot)
    | some row' =>
      have hkey' : row'.key = (id, model) := by simpa using List.find?_some hfind
      have hsame := hinj row' (List.mem_of_find?_eq_some hfind) row hmem (hkey'.trans hkey.symm)
      exact ⟨row', rfl, hsame ▸ hflag⟩

theorem mem_names_iff : model ∈ table.names id enabled ↔ table.row id model = some enabled := by
  rw [row_eq_some_iff, names, List.mem_map]
  refine exists_congr fun row => ?_
  rw [List.mem_filter, decide_eq_true_iff, SelectedModel.key, Prod.mk.injEq]
  tauto

/-- `set_enabled` writes the row of its provider and model, and no other. -/
theorem setEnabled_row (table : SelectionTable) (id : ProviderId) (model : String) (enabled : Bool)
    (id' : ProviderId) (model' : String) :
    (table.setEnabled id model enabled).row id' model' =
      if (id', model') = (id, model) then some enabled else table.row id' model' := by
  have hrows : ∀ row, row ∈ (table.setEnabled id model enabled).rows ↔
      row ∈ table.rows ∧ row.key ≠ (id, model) ∨
        row = { providerId := id, modelName := model, isEnabled := enabled } := by
    intro row
    unfold setEnabled
    split
    · next hkey =>
      obtain ⟨old, hold, holdKey⟩ := List.mem_map.mp hkey
      rw [List.mem_map]
      constructor
      · rintro ⟨row₀, hmem, rfl⟩
        by_cases hsame : row₀.key = (id, model)
        · rw [if_pos hsame]
          obtain ⟨hid, hname⟩ := Prod.mk.inj hsame
          exact .inr (by rw [← hid, ← hname])
        · rw [if_neg hsame]
          exact .inl ⟨hmem, hsame⟩
      · rintro (⟨hmem, hother⟩ | rfl)
        · exact ⟨row, hmem, if_neg hother⟩
        · obtain ⟨hid, hname⟩ := Prod.mk.inj holdKey
          refine ⟨old, hold, ?_⟩
          rw [if_pos holdKey, ← hid, ← hname]
    · next hkey =>
      have hother : row ∈ table.rows → row.key ≠ (id, model) :=
        fun hmem heq => hkey (heq ▸ List.mem_map_of_mem hmem)
      rw [List.mem_append, List.mem_singleton]
      exact or_congr_left (and_iff_left_of_imp hother).symm
  ext flag
  by_cases hsame : (id', model') = (id, model)
  · rw [if_pos hsame, row_eq_some_iff]
    constructor
    · rintro ⟨row, hmem, hkey, rfl⟩
      rcases (hrows row).mp hmem with ⟨-, hother⟩ | rfl
      · exact absurd (hkey.trans hsame) hother
      · rfl
    · intro hflag
      exact ⟨_, (hrows _).mpr (.inr rfl), hsame.symm, Option.some.inj hflag⟩
  · rw [if_neg hsame, row_eq_some_iff, row_eq_some_iff]
    refine exists_congr fun row => ?_
    rw [hrows]
    constructor
    · rintro ⟨⟨hmem, -⟩ | rfl, hkey, hflag⟩
      · exact ⟨hmem, hkey, hflag⟩
      · exact absurd hkey.symm hsame
    · rintro ⟨hmem, hkey, hflag⟩
      exact ⟨.inl ⟨hmem, fun h => hsame (hkey.symm.trans h)⟩, hkey, hflag⟩

/-- The two queries lead to the same answer for a provider and a model. -/
def Agrees (table : SelectionTable) (id : ProviderId) (model : String) : Prop :=
  match table.row id model with
  | some true => True
  | some false => ∃ other, table.row id other = some true
  | none => ∀ other, table.row id other ≠ some true

end SelectionTable

/-! ## Agreement -/

namespace RoutingPorts
variable {r : RoutingPorts} {model : String} {p : LlmProvider}

/-- The providers of a model as far as `ollama_models` tells. -/
def available (r : RoutingPorts) (model : String) : List LlmProvider :=
  r.queueAvailable model (r.ofType .ollama none)

/-- Both paths read `ollama_models` the same way. -/
theorem directAvailable_eq (hmodel : model ≠ "") (candidates : List LlmProvider) :
    r.directAvailable model candidates = r.queueAvailable model candidates := by
  unfold directAvailable queueAvailable
  cases r.ollamaModelRepo with
  | none => rfl
  | some repo =>
    dsimp only [Option.bind_some]
    rw [if_pos hmodel]
    cases repo model with
    | none => rfl
    | some ids =>
      cases ids with
      | nil => rfl
      | cons id ids => simp

theorem ofType_ollama (r : RoutingPorts) :
    r.ofType .ollama none = (r.listAll.getD []).filter fun b => b.providerType = .ollama := by
  unfold ofType
  simp

theorem mem_filterCandidates (hmodel : model ≠ "") (hopen : r.globallyDisabled model = false)
    (hincluded : r.isPreloadExcluded p.id model = false) :
    p ∈ r.filterCandidates model .ollama none ↔ p ∈ r.queueSelected model (r.available model) := by
  unfold filterCandidates available
  rw [hopen, if_neg (by decide), if_neg (by simp [hmodel]), List.mem_filter, hincluded]
  simp

theorem mem_directCandidates (hmodel : model ≠ "") :
    p ∈ r.directCandidates model ↔ p ∈ r.directSelected model (r.available model) := by
  rw [directCandidates, directAvailable_eq hmodel, available, ofType_ollama]

theorem mem_queueSelected {table : SelectionTable} {candidates : List LlmProvider}
    (hrepo : r.modelSelectionRepo = some table.repo) :
    p ∈ r.queueSelected model candidates ↔
      p ∈ candidates ∧ table.row p.id model ≠ some false := by
  unfold queueSelected
  rw [hrepo]
  dsimp only [SelectionTable.repo]
  rw [List.mem_filter, decide_eq_true_iff, SelectionTable.mem_names_iff]

theorem mem_directSelected {table : SelectionTable} {candidates : List LlmProvider}
    (hmodel : model ≠ "") (hrepo : r.modelSelectionRepo = some table.repo) :
    p ∈ r.directSelected model candidates ↔
      p ∈ candidates ∧ ((∀ other, table.row p.id other ≠ some true) ∨
        table.row p.id model = some true) := by
  have hnone : (table.names p.id true).isEmpty = true ↔
      ∀ other, table.row p.id other ≠ some true := by
    rw [List.isEmpty_iff, List.eq_nil_iff_forall_not_mem]
    exact forall_congr' fun other => not_congr SelectionTable.mem_names_iff
  unfold directSelected filterByModelSelection
  rw [hrepo]
  dsimp only [SelectionTable.repo]
  rw [if_pos hmodel, List.mem_filter, ← hnone, ← SelectionTable.mem_names_iff]
  refine and_congr_right fun _ => ?_
  split
  · next hempty => simp [hempty]
  · next hsome => simp [hsome]

/-- A provider is eligible for a model on both paths or on neither exactly if it does not have the
model, or its rows disable the model beside one that they enable, enable it, or enable none and do
not name it. -/
theorem eligible_on_both_iff (r : RoutingPorts) (table : SelectionTable) (model : String)
    (p : LlmProvider) (hrepo : r.modelSelectionRepo = some table.repo)
    (hopen : r.globallyDisabled model = false)
    (hincluded : r.isPreloadExcluded p.id model = false) :
    (p ∈ r.filterCandidates model .ollama none ↔ p ∈ r.directCandidates model) ↔
      model = "" ∨ p ∉ r.available model ∨ table.Agrees p.id model := by
  by_cases hmodel : model = ""
  · subst hmodel
    have hqueue : r.filterCandidates "" .ollama none = r.ofType .ollama none := by
      rw [filterCandidates, hopen, if_neg (by decide), if_pos (.inr rfl)]
    have hdirect : r.directCandidates "" = r.ofType .ollama none := by
      rw [ofType_ollama, directCandidates, directSelected, directAvailable]
      cases r.ollamaModelRepo <;> cases r.modelSelectionRepo <;> rfl
    rw [hqueue, hdirect]
    simp
  · rw [mem_filterCandidates hmodel hopen hincluded, mem_directCandidates hmodel,
      mem_queueSelected hrepo, mem_directSelected hmodel hrepo, SelectionTable.Agrees]
    by_cases havailable : p ∈ r.available model
    · cases hrow : table.row p.id model with
      | none => simp [hmodel, havailable]
      | some enabled => 
        cases enabled with
        | true => simp
        | false => simp [hmodel, havailable]
    · simp [havailable]

/-! ## Picking -/

theorem mostAvailable_concat (avail : LlmProvider → ℤ) (scored : List LlmProvider)
    (b : LlmProvider) : ∃ best, mostAvailable avail (scored ++ [b]) = some best ∧
      (best = b ∨ mostAvailable avail scored = some best) := by
  unfold mostAvailable
  rw [List.foldl_concat]
  cases hbest : scored.foldl (fun best b =>
      match best with
      | some best => if avail best ≤ avail b then some b else some best
      | none => some b) none with
  | none => exact ⟨b, rfl, .inl rfl⟩
  | some best =>
    dsimp only
    split
    · exact ⟨b, rfl, .inl rfl⟩
    · exact ⟨best, rfl, .inr rfl⟩

theorem mostAvailable_mem {avail : LlmProvider → ℤ} {scored : List LlmProvider} {best : LlmProvider}
    (h : mostAvailable avail scored = some best) : best ∈ scored := by
  induction scored using List.reverseRecOn with
  | nil => cases h
  | append_singleton scored b ih =>
    obtain ⟨best', hbest, hcases⟩ := mostAvailable_concat avail scored b
    obtain rfl : best = best' := Option.some.inj (h.symm.trans hbest)
    rcases hcases with rfl | hbefore
    · exact List.mem_append_right _ (List.mem_singleton_self _)
    · exact List.mem_append_left _ (ih hbefore)

theorem mostAvailable_isSome {avail : LlmProvider → ℤ} {scored : List LlmProvider}
    (h : scored ≠ []) : ∃ best, mostAvailable avail scored = some best := by
  induction scored using List.reverseRecOn with
  | nil => exact absurd rfl h
  | append_singleton scored b _ =>
    obtain ⟨best, hbest, -⟩ := mostAvailable_concat avail scored b
    exact ⟨best, hbest⟩

/-- Without a provider of the type there is no candidate. -/
theorem directSelected_nil (r : RoutingPorts) (model : String) :
    r.directSelected model (r.directAvailable model []) = [] := by
  have havailable : r.directAvailable model [] = [] := by
    unfold directAvailable
    cases r.ollamaModelRepo with
    | none => rfl
    | some repo =>
      dsimp only
      split
      · split
        · rfl
        · rfl
      · rfl
  rw [havailable]
  unfold directSelected filterByModelSelection
  cases r.modelSelectionRepo with
  | none => rfl
  | some repo =>
    dsimp only
    split
    · rfl
    · rfl

/-- Routed directly, a job gets an eligible provider, and gets one if there is any. -/
theorem pickBestProvider_ollama (r : RoutingPorts) (model : String)
    (pickGemini : List LlmProvider → Except PickError LlmProvider) (avail : LlmProvider → ℤ) :
    (∀ b, r.pickBestProvider model pickGemini avail .ollama = .ok b →
        b ∈ r.directCandidates model) ∧
      (r.directCandidates model ≠ [] →
        ∃ b, r.pickBestProvider model pickGemini avail .ollama = .ok b) := by
  unfold pickBestProvider directCandidates
  cases r.listAll with
  | none =>
    rw [Option.getD_none, List.filter_nil, directSelected_nil]
    exact ⟨fun b h => (by cases h), fun h => absurd rfl h⟩
  | some all =>
    rw [Option.getD_some]
    dsimp only
    split
    · next hempty =>
      rw [List.isEmpty_iff.mp hempty, directSelected_nil]
      exact ⟨fun b h => (by cases h), fun h => absurd rfl h⟩
    generalize r.directSelected model (r.directAvailable model
      (all.filter fun b => b.providerType = .ollama)) = candidates
    constructor
    · intro b h
      split at h
      · next best hbest =>
        cases h
        exact mostAvailable_mem hbest
      · cases h
    · intro hne
      obtain ⟨best, hbest⟩ : ∃ best, mostAvailable avail candidates = some best :=
        mostAvailable_isSome hne
      exact ⟨best, by rw [hbest]⟩

/-! ## One provider -/

/-- Provider 1, for which `table` is all that is asked. -/
def singleProvider (table : SelectionTable) : RoutingPorts :=
  { listAll := some [ollamaProvider 1], ollamaModelRepo := none
    modelSelectionRepo := some table.repo, globalModelSettingsRepo := none
    isPreloadExcluded := fun _ _ => false }

/-- Provider 1 enables one model and disables another. -/
def oneOfTwo : SelectionTable := (SelectionTable.empty.setEnabled 1 "a" true).setEnabled 1 "b" false

theorem disabled_beside_enabled :
    ollamaProvider 1 ∈ (singleProvider oneOfTwo).filterCandidates "b" .ollama none ↔
      ollamaProvider 1 ∈ (singleProvider oneOfTwo).directCandidates "b" := by
  refine (eligible_on_both_iff (singleProvider oneOfTwo) oneOfTwo "b" (ollamaProvider 1) rfl
    (by decide) rfl).mpr (.inr (.inr ?_))
  exact ⟨"a", by decide +kernel⟩

/-- The only row disables the model. -/
theorem disabled_alone_disagrees :
    ¬ ∀ (r : RoutingPorts) (table : SelectionTable) (model : String) (p : LlmProvider),
      r.modelSelectionRepo = some table.repo → r.globallyDisabled model = false →
        r.isPreloadExcluded p.id model = false →
          (p ∈ r.filterCandidates model .ollama none ↔ p ∈ r.directCandidates model) := by
  intro hall
  have hagree := hall (singleProvider (SelectionTable.empty.setEnabled 1 "b" false))
    (SelectionTable.empty.setEnabled 1 "b" false) "b" (ollamaProvider 1) rfl (by decide) rfl
  have hdirect : ollamaProvider 1 ∈
      (singleProvider (SelectionTable.empty.setEnabled 1 "b" false)).directCandidates "b" :=
    List.mem_cons_self
  have hqueue := hagree.mpr hdirect
  have hnone : (singleProvider (SelectionTable.empty.setEnabled 1 "b" false)).filterCandidates "b"
      .ollama none = [] := by decide +kernel
  rw [hnone] at hqueue
  cases hqueue

end RoutingPorts

end Veronex
