import PostFga.Channel.Order
import PostFga.Channel.Orphans
import PostFga.Worker.Completions
/-
# A Processor is replaced, and its completed queue with it

`kept_iff` says when a reload loses a completion. What is lost is what the completed queue held when it was
destroyed, and what a callback appended when there was none.

* `Loop.leaves` — the completions that a step loses.
* `lost_behind` — their slots are in use for ever, and no call gets what is not its own.
-/

namespace PostFga

open Transition

theorem handler_completed {s s' : St} {m : Nat} (hs : s.step (.handler m) = some s') :
    s'.completed = s.completed ++ s.appends (.handler m) := by
  obtain ⟨r, hr, hs⟩ := step_handler hs
  obtain ⟨o, i, todo, hpc, htodo, rfl⟩ | ⟨o, i, todo, hpc, htodo, rfl⟩ | ⟨o, hpc, rfl⟩ := stepHandler_cases hs
  all_goals
    obtain ⟨call, pc, left⟩ := r
    simp only at hpc
    subst hpc
    simp only [St.appends, hr, List.append_nil]
  · rfl
  · simp only at htodo
    subst htodo
    rfl
  · rfl

theorem waking_idle {w : WorkerPc} (h : w.executing = false) (i : Nat) : w.waking ≠ some i := by
  cases w with
  | waitLatch | resetLatch | drain =>
    intro hi
    cases hi
  | «begin» | releaseCanceled | swap | handle => cases h

namespace Loop

def leaves (s : Loop) : LoopAct → List Nat
  | .chan a => if s.reload.processor.isSome then [] else s.chan.appends a
  | .check guc => if s.requested = true ∧ loadConfigFromGuc guc ≠ s.reload.config then s.chan.completed else []
  | _ => []

def KeepGuard (s : Loop) : LoopAct → Prop
  | .chan a => IsolationGuard s.chan a
  | _ => True

/-- Without a Processor the worker does not execute one. -/
def Idle (s : Loop) : Prop := s.reload.processor = none → s.chan.worker.executing = false

section
variable {n k : Nat} {dead : List Rpc} {s s' : Loop}

/-- **What a step does to the channel**: a step of it, of which a completion may be lost; the end of the
completed queue; a pass without a Processor; or nothing but to the latch. -/
theorem step_chan {a : LoopAct} (h : s.step a = some s') :
    (∃ c, a = .chan c ∧ s.chan.step c = some s'.chan ∧ s.leaves a = []) ∨
      (∃ m t, a = .chan (.handler m) ∧ s.reload.processor = none ∧ s.chan.step (.handler m) = some t ∧
        t.completed = s.chan.completed ++ s.leaves a ∧ s'.chan = { t with completed := s.chan.completed }) ∨
      (s.chan.worker = .drain ∧ s.chan.completed = s.leaves a ∧ s'.chan = { s.chan with completed := [] }) ∨
      (s.chan.worker = .drain ∧ s.leaves a = [] ∧ s'.chan = { s.chan with worker := .waitLatch }) ∨
      (s.leaves a = [] ∧ ∃ latch, s'.chan = { s.chan with latch := latch }) := by
  cases a with
  | chan c =>
    cases c with
    | worker =>
      simp only [step, stepChan] at h
      split at h
      · cases h
      · obtain ⟨chan, hchan, rfl⟩ := Option.map_eq_some_iff.1 h
        exact Or.inl ⟨.worker, rfl, hchan, ite_self _⟩
    | handler m =>
      obtain ⟨chan, hchan, rfl⟩ := Option.map_eq_some_iff.1 h
      cases hp : s.reload.processor with
      | some p => exact Or.inl ⟨.handler m, rfl, by simpa [hp] using hchan, by simp [leaves, hp]⟩
      | none =>
        refine Or.inr (Or.inl ⟨m, chan, rfl, rfl, hchan, ?_, by simp⟩)
        simp only [leaves, hp, Option.isSome_none, Bool.false_eq_true, if_false]
        exact handler_completed hchan
    | acquire | backend | exit | complete =>
      obtain ⟨chan, hchan, rfl⟩ := Option.map_eq_some_iff.1 h
      exact Or.inl ⟨_, rfl, hchan, ite_self _⟩
  | sighup =>
    obtain rfl := Option.some.inj h
    exact Or.inr (Or.inr (Or.inr (Or.inr ⟨rfl, true, rfl⟩)))
  | check guc =>
    simp only [step, Option.ite_none_right_eq_some, Option.some.injEq] at h
    obtain ⟨⟨hw, -⟩, rfl⟩ := h
    by_cases hre : s.requested = true ∧ loadConfigFromGuc guc ≠ s.reload.config
    · refine Or.inr (Or.inr (Or.inl ⟨hw, (if_pos hre).symm, ?_⟩))
      simp only [check, hre.1, hre.2, if_true, ne_eq, not_false_eq_true]
    · rw [check_eq s guc hre]
      exact Or.inr (Or.inr (Or.inr (Or.inr ⟨if_neg hre, s.chan.latch, rfl⟩)))
  | construct =>
    simp only [step] at h
    split at h
    · obtain rfl := Option.some.inj h
      exact Or.inr (Or.inr (Or.inr (Or.inr ⟨rfl, s.chan.latch, rfl⟩)))
    · cases h
  | pass =>
    simp only [step, Option.ite_none_right_eq_some, Option.some.injEq] at h
    obtain ⟨⟨hw, -, -⟩, rfl⟩ := h
    exact Or.inr (Or.inr (Or.inr (Or.inl ⟨hw, rfl, rfl⟩)))

theorem Idle.step (h : s.Idle) {a : LoopAct} (hs : s.step a = some s') : s'.Idle := by
  cases a with
  | chan c =>
    by_cases hc : c = .worker
    · subst hc
      simp only [Loop.step, stepChan] at hs
      split at hs
      · cases hs
      · rename_i hdrain
        obtain ⟨chan, hchan, rfl⟩ := Option.map_eq_some_iff.1 hs
        intro hp
        rw [← Bool.not_eq_true]
        intro he
        rcases worker_executing (show s.chan.stepWorker = some chan from hchan) he with he | hw
        · rw [h hp] at he
          cases he
        · refine hdrain ⟨hw, fun hc => ?_⟩
          rw [show s.reload.processor = none from hp] at hc
          cases hc.2
    · have hw : s'.chan.worker = s.chan.worker ∧ s'.reload = s.reload := by
        cases c with
        | worker => exact absurd rfl hc
        | handler m =>
          obtain ⟨chan, hchan, rfl⟩ := Option.map_eq_some_iff.1 hs
          refine ⟨?_, rfl⟩
          have hworker := step_worker_stays hc hchan
          simp only
          split <;> exact hworker
        | acquire | backend | exit | complete =>
          obtain ⟨chan, hchan, rfl⟩ := Option.map_eq_some_iff.1 hs
          exact ⟨step_worker_stays hc hchan, rfl⟩
      intro hp
      rw [hw.1]
      exact h (by rw [← hw.2]; exact hp)
  | sighup =>
    obtain rfl := Option.some.inj hs
    exact h
  | check guc =>
    simp only [Loop.step, Option.ite_none_right_eq_some, Option.some.injEq] at hs
    obtain ⟨⟨hw, -⟩, rfl⟩ := hs
    intro _
    have hworker : (s.check guc).chan.worker = .drain := by
      unfold check
      simp only
      repeat' split
      all_goals exact hw
    rw [hworker]
    rfl
  | construct =>
    simp only [Loop.step] at hs
    split at hs
    · obtain rfl := Option.some.inj hs
      intro hp
      cases hp
    · cases hs
  | pass =>
    simp only [Loop.step, Option.ite_none_right_eq_some, Option.some.injEq] at hs
    obtain ⟨-, rfl⟩ := hs
    exact fun _ => rfl

/-- **One step**: the completions that are lost are lost with what was before. -/
theorem lived_stepLoop (h : Lived n k dead s.chan) (hidle : s.Idle) {a : LoopAct} (hg : s.KeepGuard a)
    (hs : s.step a = some s') :
    ∃ more : List Rpc, (more.flatMap Rpc.todo).Perm (s.leaves a) ∧ Lived n k (dead ++ more) s'.chan := by
  obtain ⟨c, rfl, hchan, hleaves⟩ | ⟨m, t, rfl, hp, ht, hcompleted, hchan⟩ | ⟨hw, hleaves, hchan⟩ |
    ⟨hw, hleaves, hchan⟩ | ⟨hleaves, latch, hchan⟩ := step_chan hs
  · refine ⟨[], by rw [hleaves]; rfl, ?_⟩
    rw [List.append_nil]
    exact h.step hg hchan
  · -- a callback without a Processor
    have hlived := h.step hg ht
    have hnot : ∀ i, t.worker.waking = some i → i ∉ s.leaves (.chan (.handler m)) := by
      intro i hi
      rw [step_worker_stays (by simp) ht] at hi
      exact absurd hi (waking_idle (hidle hp) i)
    obtain ⟨more, hmore, hl, hsound⟩ := exists_loses_completed hlived hcompleted hnot
    refine ⟨more, by rw [hmore], ?_⟩
    rw [hchan]
    exact hlived.loses hl fun r hr => (hsound r hr).1
  · have hnot : ∀ i, s.chan.worker.waking = some i → i ∉ s.leaves a := by
      intro i hi
      rw [hw] at hi
      cases hi
    have hsplit : s.chan.completed = [] ++ s.leaves a := hleaves
    obtain ⟨more, hmore, hl, hsound⟩ := exists_loses_completed h hsplit hnot
    refine ⟨more, by rw [hmore], ?_⟩
    rw [hchan]
    exact h.loses hl fun r hr => (hsound r hr).1
  · refine ⟨[], by rw [hleaves]; rfl, ?_⟩
    rw [hchan]
    exact h.loses (loses_pass hw) fun r hr => by cases hr
  · refine ⟨[], by rw [hleaves]; rfl, ?_⟩
    rw [hchan]
    exact h.loses (loses_latch s.chan latch) fun r hr => by cases hr

end

/-- **What reloads lose** its channel never gets back; and that is all that comes of it. -/
theorem lost_behind (guc : EndpointConfig) {n k : Nat} (hn : n ≤ 2 ^ 16) (hk : k ≤ 15) (mem : Nat → FgaChannelSlot)
    (values : Nat → UInt16) (acts : List LoopAct) {s : Loop}
    (hg : Meets step KeepGuard (init guc (.init n k mem values)) acts)
    (hrun : run step (init guc (.init n k mem values)) acts = some s) :
    ReturnsOwn s.chan ∧ (events step leaves (init guc (.init n k mem values)) acts).Nodup ∧
      ∃ free, s.chan.pool.free.Spells free ∧
        free.length + (events step leaves (init guc (.init n k mem values)) acts).length ≤ n ∧
        ∀ i ∈ events step leaves (init guc (.init n k mem values)) acts, LeftBehind n free s.chan i := by
  have hshed : Sheds step KeepGuard (fun dead s => Lived n k dead s.chan ∧ s.Idle) Rpc.todo leaves := by
    rintro dead s a s' ⟨h, hidle⟩ hg hs
    obtain ⟨more, hperm, hlived⟩ := lived_stepLoop h hidle hg hs
    exact ⟨more, hperm, hlived, hidle.step hs⟩
  obtain ⟨dead, hperm, hlived, -⟩ := hshed.run acts ⟨lived_init hn hk mem values, fun _ => rfl⟩ hg hrun
  exact ⟨hlived.returnsOwn, hlived.left hperm⟩

def plain (s : Loop) : LoopAct → Bool
  | .chan a => s.chan.plain a
  | _ => true

theorem lost_behind_one : ∃ s, run step (init hostA PostFga.start) reloadOverCompletion = some s ∧
    events step leaves (init hostA PostFga.start) reloadOverCompletion = [1023] ∧ ReturnsOwn s.chan ∧
    ∃ free, s.chan.pool.free.Spells free ∧ free.length + 1 ≤ 1024 ∧ LeftBehind 1024 free s.chan 1023 := by
  obtain ⟨s, hs⟩ := Option.isSome_iff_exists.1
    (show (run step (init hostA PostFga.start) reloadOverCompletion).isSome = true by decide +kernel)
  have hleaves : events step leaves (init hostA PostFga.start) reloadOverCompletion = [1023] := by decide +kernel
  have hplain : Meets step (fun s a => s.plain a = true) (init hostA PostFga.start) reloadOverCompletion := by
    decide +kernel
  have hg : Meets step KeepGuard (init hostA PostFga.start) reloadOverCompletion := by
    refine hplain.mono fun s a h => ?_
    cases a with
    | chan c => exact plain_guard _ _ h
    | sighup | check | construct | pass => trivial
  obtain ⟨hown, -, free, hspells, hlen, hleft⟩ := lost_behind hostA (by decide) (by decide) freshSlot (fun _ => 0)
    reloadOverCompletion hg hs
  rw [show init hostA (.init 1024 10 freshSlot fun _ => 0) = init hostA PostFga.start from rfl, hleaves] at hlen hleft
  exact ⟨s, hs, hleaves, hown, free, hspells, hlen, hleft 1023 (List.mem_singleton_self _)⟩

end Loop

end PostFga
