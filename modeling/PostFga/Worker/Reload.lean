import Mathlib.Data.List.Chain
import Mathlib.Data.List.Induction
import PostFga.Lib.CString
/-
# Reloads of the settings (`worker.cpp:92`)

| here | there |
| --- | --- |
| `EndpointConfig`    | the two settings of `FgaConfig` (`config.h:9`) that are read; NULL is `none` |
| `Config`            | `config.hpp:57`; the other fields keep their defaults, so that `operator==` compares these two |
| `loadConfigFromGuc` | `load_config_from_guc` (`config.cpp:11`) |
| `Processor`         | which of the Processors constructed it is, and the configuration it was given |
| `ReloadState`       | the local variables `config` and `processor` of `Worker::process`, and a count of the Processors constructed |
| `ReloadState.start`, `ReloadState.reload` | `worker.cpp:94`–`:99`, `:114`–`:127` |

A reload compares with `config`, which keeps the configuration loaded first: nothing assigns to it
afterwards.
-/

namespace PostFga

structure EndpointConfig where
  endpoint : Option CStr
  cacheTtlMs : Int32
deriving DecidableEq, Repr

structure Config where
  endpoint : Bytes
  /-- Milliseconds. -/
  timeout : Int
deriving DecidableEq, Repr

def loadConfigFromGuc (guc : EndpointConfig) : Config where
  endpoint := (guc.endpoint.map CStr.bytes).getD []
  timeout := guc.cacheTtlMs.toInt

structure Processor where
  id : Nat
  config : Config
deriving DecidableEq, Repr

structure ReloadState where
  config : Config
  processor : Option Processor
  built : Nat
deriving DecidableEq, Repr

namespace ReloadState

def emplace (s : ReloadState) (config : Config) : ReloadState :=
  { s with processor := some ⟨s.built, config⟩, built := s.built + 1 }

def reset (s : ReloadState) : ReloadState := { s with processor := none }

def start (guc : EndpointConfig) : ReloadState :=
  let config := loadConfigFromGuc guc
  let s : ReloadState := ⟨config, none, 0⟩
  if config.endpoint ≠ [] then s.emplace config else s

def reload (s : ReloadState) (guc : EndpointConfig) : ReloadState :=
  let newConfig := loadConfigFromGuc guc
  if newConfig ≠ s.config then
    if newConfig.endpoint ≠ [] then s.emplace newConfig else s.reset
  else s

/-- After the reloads `gucs`. -/
def reloads (guc₀ : EndpointConfig) (gucs : List EndpointConfig) : ReloadState :=
  gucs.foldl reload (start guc₀)

/-- A Processor is installed if the endpoint is set, and it was built from this configuration. -/
structure Serves (s : ReloadState) (c : Config) : Prop where
  installed : s.processor.isSome = true ↔ c.endpoint ≠ []
  config : ∀ p, s.processor = some p → p.config = c

instance (s : ReloadState) (c : Config) : Decidable (s.Serves c) :=
  match h : s.processor with
  | none => decidable_of_iff (c.endpoint = [])
      ⟨fun he => ⟨by simp [h, he], by simp [h]⟩, fun hs => by simpa [h] using hs.installed⟩
  | some p => decidable_of_iff (c.endpoint ≠ [] ∧ p.config = c)
      ⟨fun he => ⟨by simp [h, he.1], fun q hq => by simp_all⟩,
        fun hs => ⟨hs.installed.1 (by simp [h]), hs.config p h⟩⟩

/-- What a reload of `guc` after the reloads `before` should do: what is installed is what was
loaded, and stays when the reload before loaded the same. -/
structure Converged (guc₀ : EndpointConfig) (before : List EndpointConfig) (guc : EndpointConfig) : Prop where
  serves : ((reloads guc₀ before).reload guc).Serves (loadConfigFromGuc guc)
  untouched : ∀ guc', before.getLast? = some guc' → loadConfigFromGuc guc = loadConfigFromGuc guc' →
    ((reloads guc₀ before).reload guc).processor = (reloads guc₀ before).processor

/-! ## One reload -/

section
variable {s : ReloadState} {guc guc₀ : EndpointConfig} {c c' : Config}

theorem reload_config : (s.reload guc).config = s.config := by
  unfold reload
  simp only
  split
  · split <;> rfl
  · rfl

theorem reloads_concat (gucs : List EndpointConfig) :
    reloads guc₀ (gucs ++ [guc]) = (reloads guc₀ gucs).reload guc := by
  rw [reloads, List.foldl_concat]
  rfl

theorem reloads_config (gucs : List EndpointConfig) : (reloads guc₀ gucs).config = loadConfigFromGuc guc₀ := by
  induction gucs using List.reverseRecOn with
  | nil =>
    simp only [reloads, List.foldl_nil, start]
    split <;> rfl
  | append_singleton gucs guc ih =>
    rw [reloads_concat]
    exact reload_config.trans ih

/-- The Processors constructed are numbered. -/
theorem reloads_built (gucs : List EndpointConfig) :
    ∀ p, (reloads guc₀ gucs).processor = some p → p.id < (reloads guc₀ gucs).built := by
  have hemplace : ∀ (s : ReloadState) c p, (s.emplace c).processor = some p → p.id < (s.emplace c).built := by
    intro s c p hp
    cases hp
    exact Nat.lt_succ_self _
  induction gucs using List.reverseRecOn with
  | nil =>
    simp only [reloads, List.foldl_nil, start]
    split
    · exact hemplace _ _
    · intro p hp
      cases hp
  | append_singleton gucs guc ih =>
    intro p
    rw [reloads_concat]
    unfold reload
    simp only
    split
    · split
      · exact hemplace _ _ p
      · intro hp
        cases hp
    · exact ih p

theorem serves_emplace (s : ReloadState) (he : c.endpoint ≠ []) : (s.emplace c).Serves c := by
  constructor
  · exact ⟨fun _ => he, fun _ => rfl⟩
  · intro p hp
    cases hp
    rfl

theorem serves_none (hs : s.processor = none) (he : c.endpoint = []) : s.Serves c := by
  constructor
  · simp [hs, he]
  · simp [hs]

theorem serves_start : (start guc₀).Serves (loadConfigFromGuc guc₀) := by
  unfold start
  simp only
  split
  · rename_i he
    exact serves_emplace _ he
  · rename_i he
    exact serves_none rfl (Decidable.not_not.1 he)

theorem Serves.none (h : s.Serves c) (he : c.endpoint = []) : s.processor = none :=
  Option.not_isSome_iff_eq_none.1 fun hs => h.installed.1 hs he

/-- A Processor serves one configuration only, no Processor serves all that have no endpoint. -/
theorem Serves.other (h : s.Serves c) : s.Serves c' ↔ c = c' ∨ (c.endpoint = [] ∧ c'.endpoint = []) := by
  constructor
  · intro h'
    cases hp : s.processor with
    | none =>
      have hnone := h.installed
      have hnone' := h'.installed
      simp only [hp, Option.isSome_none, Bool.false_eq_true, false_iff, ne_eq, Decidable.not_not] at hnone hnone'
      exact Or.inr ⟨hnone, hnone'⟩
    | some p => exact Or.inl ((h.config p hp).symm.trans (h'.config p hp))
  · rintro (rfl | ⟨he, he'⟩)
    · exact h
    · have hnone : s.processor.isSome = true ↔ c'.endpoint ≠ [] := by rw [h.installed, he, he']
      refine ⟨hnone, fun p hp => ?_⟩
      exact absurd he' (hnone.1 (by rw [hp]; rfl))

end

/-! ## Every sequence of reloads -/

/-- The configuration `c'` may follow `c` when the first one was `c₀`: it is not `c₀` again unless
`c` was, and it does not repeat `c` unless that is `c₀`; configurations without an endpoint do no harm. -/
def Follows (c₀ c c' : Config) : Prop :=
  (c' = c₀ → c = c₀ ∨ (c.endpoint = [] ∧ c₀.endpoint = [])) ∧ (c' = c → c = c₀ ∨ c.endpoint = [])

instance (c₀ c c' : Config) : Decidable (Follows c₀ c c') := inferInstanceAs (Decidable (_ ∧ _))

section
variable {guc₀ guc : EndpointConfig} {before : List EndpointConfig}

/-- The configuration loaded last. -/
def loaded (guc₀ : EndpointConfig) (before : List EndpointConfig) : Config :=
  loadConfigFromGuc (before.getLast?.getD guc₀)

theorem loaded_concat (gucs : List EndpointConfig) : loaded guc₀ (gucs ++ [guc]) = loadConfigFromGuc guc := by
  rw [loaded, List.getLast?_concat]
  rfl

theorem serves_reload_iff (guc : EndpointConfig) {s : ReloadState} {c : Config} (h : s.Serves c) :
    (s.reload guc).Serves (loadConfigFromGuc guc) ↔
      (loadConfigFromGuc guc = s.config → c = s.config ∨ (c.endpoint = [] ∧ s.config.endpoint = [])) := by
  unfold reload
  simp only
  split
  · rename_i hne
    constructor
    · intro _ heq
      exact absurd heq hne
    · intro _
      split
      · rename_i he
        exact serves_emplace s he
      · rename_i he
        exact serves_none rfl (Decidable.not_not.1 he)
  · rename_i heq
    have heq := Decidable.not_not.1 heq
    rw [heq, h.other]
    exact ⟨fun h _ => h, fun h => h rfl⟩

theorem untouched_iff (guc : EndpointConfig) {s : ReloadState} {c : Config} (h : s.Serves c)
    (hbuilt : ∀ p, s.processor = some p → p.id < s.built) (hc : loadConfigFromGuc guc = c) :
    (s.reload guc).processor = s.processor ↔ c = s.config ∨ c.endpoint = [] := by
  subst hc
  unfold reload
  simp only
  split
  · rename_i hne
    split
    · rename_i he
      constructor
      · intro hsame
        have := hbuilt _ hsame.symm
        exact absurd this (Nat.lt_irrefl _)
      · rintro (heq | he')
        · exact absurd heq hne
        · exact absurd he' he
    · rename_i he
      have he := Decidable.not_not.1 he
      exact ⟨fun _ => Or.inr he, fun _ => (h.none he).symm⟩
  · rename_i heq
    exact ⟨fun _ => Or.inl (Decidable.not_not.1 heq), fun _ => rfl⟩

/-- **One reload** after reloads that converged. -/
theorem converged_iff (h : (reloads guc₀ before).Serves (loaded guc₀ before)) :
    Converged guc₀ before guc ↔
      Follows (loadConfigFromGuc guc₀) (loaded guc₀ before) (loadConfigFromGuc guc) := by
  have hserves := serves_reload_iff guc h
  have huntouched := untouched_iff guc h (reloads_built before)
  rw [reloads_config] at hserves huntouched
  constructor
  · intro hconv
    refine ⟨hserves.1 hconv.serves, fun heq => (huntouched heq).1 ?_⟩
    cases hlast : before.getLast? with
    | none =>
      -- the first reload: the configuration loaded last is the remembered one
      have hfirst : loaded guc₀ before = loadConfigFromGuc guc₀ := by rw [loaded, hlast]; rfl
      exact (huntouched heq).2 (Or.inl hfirst)
    | some guc' => exact hconv.untouched guc' hlast (by rw [heq, loaded, hlast]; rfl)
  · intro hf
    refine ⟨hserves.2 hf.1, fun guc' hlast heq => ?_⟩
    have heq : loadConfigFromGuc guc = loaded guc₀ before := by rw [heq, loaded, hlast]; rfl
    exact (huntouched heq).2 (hf.2 heq)

theorem isChain_loaded {R : Config → Config → Prop} (gucs : List EndpointConfig) :
    ((guc₀ :: (gucs ++ [guc])).map loadConfigFromGuc).IsChain R ↔
      ((guc₀ :: gucs).map loadConfigFromGuc).IsChain R ∧ R (loaded guc₀ gucs) (loadConfigFromGuc guc) := by
  have hlast : ((guc₀ :: gucs).map loadConfigFromGuc).getLast? = some (loaded guc₀ gucs) := by
    rw [List.getLast?_map, List.getLast?_cons]
    rfl
  rw [← List.cons_append, List.map_append, List.isChain_append, hlast]
  simp only [List.map_cons, List.map_nil, List.IsChain.singleton, List.head?_cons, Option.mem_some, forall_eq',
    true_and]

/-- The last of the reloads, and those before it. -/
theorem forall_prefix_concat {P : List EndpointConfig → EndpointConfig → Prop} {gucs : List EndpointConfig} :
    (∀ before guc', before ++ [guc'] <+: gucs ++ [guc] → P before guc') ↔
      (∀ before guc', before ++ [guc'] <+: gucs → P before guc') ∧ P gucs guc := by
  constructor
  · intro h
    exact ⟨fun before guc' hp => h before guc' (hp.trans (List.prefix_append ..)), h gucs guc (List.prefix_refl _)⟩
  · rintro ⟨h, hlast⟩ before guc' hp
    rcases List.prefix_concat_iff.1 hp with heq | hp
    · obtain ⟨rfl, hone⟩ := List.append_inj' heq rfl
      obtain rfl : guc' = guc := List.singleton_inj.1 hone
      exact hlast
    · exact h before guc' hp

end

/-- **Reloads converge exactly when** the configuration loaded first does not come back after
another one and no other is loaded twice in a row; those without an endpoint do no harm. -/
theorem reload_converges_iff (guc₀ : EndpointConfig) (gucs : List EndpointConfig) :
    (∀ before guc, before ++ [guc] <+: gucs → Converged guc₀ before guc) ↔
      ((guc₀ :: gucs).map loadConfigFromGuc).IsChain (Follows (loadConfigFromGuc guc₀)) := by
  suffices hmain : ((∀ before guc, before ++ [guc] <+: gucs → Converged guc₀ before guc) ↔
      ((guc₀ :: gucs).map loadConfigFromGuc).IsChain (Follows (loadConfigFromGuc guc₀))) ∧
      ((∀ before guc, before ++ [guc] <+: gucs → Converged guc₀ before guc) →
        (reloads guc₀ gucs).Serves (loaded guc₀ gucs)) from hmain.1
  induction gucs using List.reverseRecOn with
  | nil =>
    refine ⟨⟨fun _ => by simp, fun _ before guc hp => ?_⟩, fun _ => serves_start⟩
    simp at hp
  | append_singleton gucs guc ih =>
    obtain ⟨hiff, hserves⟩ := ih
    rw [forall_prefix_concat, isChain_loaded, ← hiff, reloads_concat, loaded_concat]
    refine ⟨and_congr_right fun h => converged_iff (hserves h), fun h => ?_⟩
    exact h.2.serves

/-- There and back again: the second reload leaves the Processor of the first one installed. -/
theorem reload_there_and_back :
    let a : EndpointConfig := ⟨some (.lit "dns:///a:8081"), 60000⟩
    let b : EndpointConfig := ⟨some (.lit "dns:///b:8081"), 60000⟩
    [b] ++ [a] <+: [b, a] ∧ ¬ Converged a [b] a ∧
      (reloads a [b, a]).processor = some ⟨1, loadConfigFromGuc b⟩ ∧ loadConfigFromGuc b ≠ loadConfigFromGuc a := by
  intro a b
  refine ⟨List.prefix_refl _, fun h => ?_, by decide +kernel, by decide +kernel⟩
  exact absurd h.serves (by decide +kernel)

end ReloadState

end PostFga
