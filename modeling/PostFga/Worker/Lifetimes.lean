import PostFga.Channel.Orphans
import PostFga.Lib.Simulation
import PostFga.Worker.Latch
/-
# The worker ends, and another one starts

A worker that ends takes its RPCs and its completed queue with it (`Bgw.exit`); what is in the shared
memory stays, and the next worker goes on from there.

* `Bgw.KeepGuard` — the channel's guard, and no worker ends between the drain and its last look at a
  drained slot, where nothing of `execute` can raise an ERROR.
* `left_behind` — what the workers had taken when they ended is in use for ever.
* `lives_are_atomic` — whatever happens to the workers and the server, the processes see a run of the atomic
  service.
-/

namespace PostFga

open Transition

namespace Bgw

/-- What is seen of the channel. -/
def seen (s : Bgw) : BgwAct → List ServiceAct
  | .chan a => s.chan.seen a
  | _ => []

/-- What a worker that ends has taken, and not completed. -/
def leaves (s : Bgw) : BgwAct → List Nat
  | .exit => s.chan.taken
  | _ => []

def KeepGuard (s : Bgw) : BgwAct → Prop
  | .chan a => IsolationGuard s.chan a
  | .exit => s.chan.worker.todo = []
  | _ => True

def ServedGuard (Down : Call → Prop) (S : Server) (s : Bgw) : BgwAct → Prop
  | .chan a => PostFga.ServedGuard (Eq S) Down s.chan a
  | _ => True

/-- An RPC completes as the server answers at that moment. -/
def LifeGuard (Down : Call → Prop) (S : Server) (s : Bgw) (a : BgwAct) : Prop :=
  s.KeepGuard a ∧ s.ServedGuard Down S a

def CountGuard (s : Bgw) : BgwAct → Prop
  | .chan a => PostFga.CountGuard s.chan a
  | _ => True

theorem seen_wakeBgw {s : St} {b : Nat} {job : Job} (hb : s.backends b = .running job .wakeBgw) (fails : Bool) :
    s.seen (.backend b fails) = [] := by
  simp only [St.seen, hb, St.advance, goto_self]
  rfl

/-- **What a step does to the channel**: a step of it, but that the latch may be another process's; the
end of a worker; or nothing but to the latch. -/
theorem step_chan {s s' : Bgw} {a : BgwAct} (h : s.step a = some s') :
    (∃ c t latch, a = .chan c ∧ s.chan.step c = some t ∧ s'.chan = { t with latch := latch }) ∨
      (a = .exit ∧ s'.chan = { s.chan with worker := .waitLatch, completed := [], rpcs := [] }) ∨
      (s.seen a = [] ∧ s.leaves a = [] ∧ ∃ latch, s'.chan = { s.chan with latch := latch }) := by
  unfold step at h
  split at h
  · cases h
  cases a with
  | chan c =>
    have hmap : (s.chan.step c).map (fun chan => { s with chan := chan }) = some s' →
        ∃ c' t latch, BgwAct.chan c = .chan c' ∧ s.chan.step c' = some t ∧ s'.chan = { t with latch := latch } := by
      intro hx
      obtain ⟨t, ht, rfl⟩ := Option.map_eq_some_iff.1 hx
      exact ⟨c, t, t.latch, rfl, ht, rfl⟩
    simp only [stepLife, stepChan] at h
    split at h
    · rename_i b fails
      split at h
      · rename_i job hb
        have hstep : s.chan.step (.backend b fails) = some (s.chan.advance b job fails .wakeBgw) := by
          simp only [St.step, hb]
        obtain rfl := Option.some.inj h
        unfold wakeBgw
        split
        · exact Or.inr (Or.inr ⟨seen_wakeBgw hb fails, rfl, s.chan.latch, rfl⟩)
        · split
          · exact Or.inl ⟨_, _, true, rfl, hstep, rfl⟩
          · exact Or.inl ⟨_, _, s.chan.latch, rfl, hstep, rfl⟩
      · exact Or.inl (hmap h)
    · split at h
      · exact Or.inl (hmap h)
      · cases h
    · exact Or.inl (hmap h)
  | exit =>
    simp only [stepLife] at h
    split at h
    · obtain rfl := Option.some.inj h
      exact Or.inr (Or.inl ⟨rfl, rfl⟩)
    · obtain rfl := Option.some.inj h
      exact Or.inr (Or.inl ⟨rfl, rfl⟩)
    · cases h
  | start | sigterm | register | leave | fail | clear =>
    simp only [stepLife, Option.ite_none_right_eq_some, Option.some.injEq] at h
    obtain ⟨-, rfl⟩ := h
    exact Or.inr (Or.inr ⟨rfl, rfl, _, rfl⟩)

section
variable {n k : Nat} {Down : Call → Prop} {dead : List Rpc} {s s' : Bgw}

/-- **One step**: what a worker has in hand when it ends is lost with what was before. -/
theorem lived_stepLife (h : Lived n k dead s.chan) {a : BgwAct} (hg : s.KeepGuard a) (hs : s.step a = some s') :
    ∃ more : List Rpc, (more.flatMap Rpc.todo).Perm (s.leaves a) ∧ Lived n k (dead ++ more) s'.chan := by
  obtain ⟨c, t, latch, rfl, ht, hchan⟩ | ⟨rfl, hchan⟩ | ⟨-, hleaves, latch, hchan⟩ := step_chan hs
  · refine ⟨[], List.Perm.refl _, ?_⟩
    rw [hchan]
    exact ((h.step hg ht).loses (loses_latch t latch) fun r hr => by cases hr)
  · obtain ⟨more, hmore, hl, hsound⟩ := exists_loses_ended h hg
    refine ⟨more, hmore, ?_⟩
    rw [hchan]
    exact h.loses hl fun r hr => (hsound r hr).1
  · refine ⟨[], by rw [hleaves]; rfl, ?_⟩
    rw [hchan]
    exact h.loses (loses_latch s.chan latch) fun r hr => by cases hr

/-- Whatever happens to the worker, a step is seen as steps of the service. -/
theorem trusted_stepLife {S : Server} {t : Atomic} (h : Trusted n k Down dead s.chan S t) {a : BgwAct}
    (hg : s.LifeGuard Down S a) (hcount : s.CountGuard a) (hs : s.step a = some s') :
    ∃ (more : List Rpc) (t' : Atomic), run (atomicStep Down) t ((s.seen a).map .seen) = some t' ∧
      Trusted n k Down (dead ++ more) s'.chan S t' := by
  obtain ⟨c, u, latch, rfl, hu, hchan⟩ | ⟨rfl, hchan⟩ | ⟨hseen, -, latch, hchan⟩ := step_chan hs
  · obtain ⟨t', ht', htrusted⟩ := h.step hg hcount hu
    refine ⟨[], t', ht', ?_⟩
    rw [hchan]
    exact htrusted.loses (loses_latch u latch) fun r hr => by cases hr
  · obtain ⟨more, -, hl, hsound⟩ := exists_loses_ended h.toLived hg.1
    refine ⟨more, t, rfl, ?_⟩
    rw [hchan]
    exact h.loses hl hsound
  · refine ⟨[], t, by rw [hseen]; rfl, ?_⟩
    rw [hchan]
    exact h.loses (loses_latch s.chan latch) fun r hr => by cases hr

theorem step_requestId {a : BgwAct} (hcount : s.CountGuard a) (hs : s.step a = some s') :
    s'.chan.requestId.toNat ≤ s.chan.requestId.toNat + 1 := by
  obtain ⟨c, t, latch, rfl, ht, hchan⟩ | ⟨rfl, hchan⟩ | ⟨-, -, latch, hchan⟩ := step_chan hs
  · have hle : t.requestId.toNat ≤ s.chan.requestId.toNat + 1 := requestId_le hcount ht
    rwa [hchan]
  · rw [hchan]
    exact Nat.le_succ _
  · rw [hchan]
    exact Nat.le_succ _

theorem count_withEnv {n k : Nat} (mem : Nat → FgaChannelSlot) (values : Nat → UInt16) (S : Server)
    (acts : List (EnvAct BgwAct Server)) (hlen : acts.length < 2 ^ 64) :
    Meets (withEnv step) (envGuard fun _ => CountGuard) ⟨init (.init n k mem values), S⟩ acts := by
  refine envGuard_of_growth (fun s : Bgw => s.chan.requestId.toNat) (2 ^ 64) (fun s a hlt => ?_)
    (fun s a s' hg hs => step_requestId hg hs) acts ?_
  · cases a with
    | chan c => exact countGuard_of_lt hlt c
    | start | register | sigterm | leave | fail | clear | exit => trivial
  · rw [show (init (.init n k mem values)).chan.requestId.toNat = 0 from rfl]
    omega

end

/-- What the second worker is asked. -/
def secondCheck : Call := .check 1022 ⟨(CStr.lit "s").bytes, [], viewerKey⟩

/-- A check that is sent. -/
def firstLife : List Act := waitingCheck ++ List.replicate 5 .worker

/-- A check that is sent and answered. -/
def secondLife : List Act :=
  .acquire 1 ⟨some (.lit "s"), none⟩ checkViewer :: goOn 1 14 ++ List.replicate 5 .worker ++
    [.complete 0 (grants.outcome secondCheck), .handler 0, .handler 0, .handler 0] ++ List.replicate 6 .worker ++
    goOn 1 3

/-- A worker fails with a check in flight; the next one answers another. -/
def oneLeft : List BgwAct :=
  [.start 5 false, .register] ++ firstLife.map .chan ++ [.fail, .exit, .start 6 false, .register] ++
    secondLife.map .chan

/-- Plain steps; a completion is one of `secondCheck`. -/
def plain (s : Bgw) : BgwAct → Bool
  | .chan (.complete m _) => (s.chan.rpcs[m]?).all fun r => r.call == secondCheck
  | .chan a => s.chan.plain a
  | .exit => s.chan.worker.todo == []
  | _ => true

theorem lifeGuard_oneLeft :
    Meets step (LifeGuard (fun _ => False) grants) (init PostFga.start) oneLeft := by
  have hplain : Meets step (fun s a => s.plain a = true) (init PostFga.start) oneLeft := by decide +kernel
  have houtcome : Meets step (fun _ a => ∀ m o, a = .chan (.complete m o) → o = grants.outcome secondCheck)
      (init PostFga.start) oneLeft := by
    refine meets_of_forall _ _ fun a ha m o he => ?_
    subst he
    simp [oneLeft, firstLife, secondLife, waitingCheck, goOn] at ha
    exact ha.2
  refine (hplain.and houtcome).mono fun s a h => ?_
  cases a with
  | chan c =>
    cases c with
    | complete m o =>
      refine ⟨⟨trivial, fun ha => by cases ha⟩, fun r hr => Or.inl ?_⟩
      have hcall : r.call = secondCheck := by simpa [plain, hr] using h.1
      rw [hcall]
      exact ⟨grants, rfl, h.2 m o rfl⟩
    | acquire | backend | exit | worker | handler => exact ⟨plain_guard _ _ h.1, trivial⟩
  | exit => exact ⟨eq_of_beq h.1, trivial⟩
  | start | register | sigterm | leave | fail | clear => exact ⟨trivial, trivial⟩

/-- **What a worker leaves behind** when it ends, its channel never gets back; and that is all that comes
of it. -/
theorem left_behind {n k : Nat} (hn : n ≤ 2 ^ 16) (hk : k ≤ 15) (mem : Nat → FgaChannelSlot)
    (values : Nat → UInt16) (acts : List BgwAct) {s : Bgw}
    (hg : Meets step KeepGuard (init (.init n k mem values)) acts)
    (hrun : run step (init (.init n k mem values)) acts = some s) :
    ReturnsOwn s.chan ∧ (events step leaves (init (.init n k mem values)) acts).Nodup ∧
      ∃ free, s.chan.pool.free.Spells free ∧
        free.length + (events step leaves (init (.init n k mem values)) acts).length ≤ n ∧
        ∀ i ∈ events step leaves (init (.init n k mem values)) acts, LeftBehind n free s.chan i := by
  have hshed : Sheds step KeepGuard (fun dead s => Lived n k dead s.chan) Rpc.todo leaves :=
    fun _ _ _ _ h hg hs => lived_stepLife h hg hs
  obtain ⟨dead, hperm, hlived⟩ := hshed.run acts (lived_init hn hk mem values) hg hrun
  exact ⟨hlived.returnsOwn, hlived.left hperm⟩

theorem left_behind_one : ∃ s, run step (init PostFga.start) oneLeft = some s ∧
    events step leaves (init PostFga.start) oneLeft = [1023] ∧ ReturnsOwn s.chan ∧
    ∃ free, s.chan.pool.free.Spells free ∧ free.length + 1 ≤ 1024 ∧ LeftBehind 1024 free s.chan 1023 := by
  obtain ⟨s, hs⟩ := Option.isSome_iff_exists.1 (show (run step (init PostFga.start) oneLeft).isSome = true by
    decide +kernel)
  have hleaves : events step leaves (init PostFga.start) oneLeft = [1023] := by decide +kernel
  obtain ⟨hown, -, free, hspells, hlen, hleft⟩ := left_behind (by decide) (by decide) freshSlot (fun _ => 0)
    oneLeft (lifeGuard_oneLeft.mono fun _ _ => And.left) hs
  rw [show init (.init 1024 10 freshSlot fun _ => 0) = init PostFga.start from rfl, hleaves] at hlen hleft
  exact ⟨s, hs, hleaves, hown, free, hspells, hlen, hleft 1023 (List.mem_singleton_self _)⟩

/-- **Every step is seen as steps of the atomic service.** -/
theorem lives_track (n k : Nat) (Down : Call → Prop) :
    Simulates (withEnv step) (atomicStep Down)
      (fun s a => envGuard (LifeGuard Down) s a ∧ envGuard (fun _ => CountGuard) s a)
      (fun s t => ∃ dead, Trusted n k Down dead s.state.chan s.env t) (seenAmid seen) := by
  rintro s a s' t ⟨dead, h⟩ ⟨hg, hcount⟩ hs
  cases a with
  | act a =>
    obtain ⟨u, hu, rfl⟩ := Option.map_eq_some_iff.1 hs
    obtain ⟨more, t', ht', htrusted⟩ := trusted_stepLife h hg hcount hu
    exact ⟨t', ht', _, htrusted⟩
  | change S =>
    obtain rfl := Option.some.inj hs
    exact ⟨_, rfl, dead, h.toLived, h.tracks.change S⟩

/-- **Workers come and go, and the server changes**: what the processes see is a run of the atomic service. -/
theorem lives_are_atomic {n k : Nat} (hn : n ≤ 2 ^ 16) (hk : k ≤ 15) (mem : Nat → FgaChannelSlot)
    (values : Nat → UInt16) (S : Server) (Down : Call → Prop) (acts : List (EnvAct BgwAct Server))
    (hlen : acts.length < 2 ^ 64) {s : WithEnv Bgw Server}
    (hg : Meets (withEnv step) (envGuard (LifeGuard Down)) ⟨init (.init n k mem values), S⟩ acts)
    (hrun : run (withEnv step) ⟨init (.init n k mem values), S⟩ acts = some s) :
    ∃ t, run (atomicStep Down) (.init S)
        (events (withEnv step) (seenAmid seen) ⟨init (.init n k mem values), S⟩ acts) = some t ∧
      t.server = s.env ∧ Shows s.state.chan t.clients := by
  have hinit : Trusted n k Down [] (init (.init n k mem values)).chan S (.init S) :=
    trusted_init hn hk mem values S Down
  obtain ⟨t, ht, dead, htrusted⟩ := (lives_track n k Down).run acts ⟨[], hinit⟩
    (hg.and (count_withEnv mem values S acts hlen)) hrun
  exact ⟨t, ht, htrusted.tracks.server, htrusted.tracks.shows⟩

/-- The server has changed when the first worker starts. -/
def oneLeftGranted : List (EnvAct BgwAct Server) := .change grants :: oneLeft.map .act

theorem lives_are_atomic_one : ∃ s t,
    run (withEnv step) ⟨init PostFga.start, refuses⟩ oneLeftGranted = some s ∧
    (events (withEnv step) (seenAmid seen) ⟨init PostFga.start, refuses⟩ oneLeftGranted).length = 4 ∧
    (events (withEnv step) (seenAmid seen) ⟨init PostFga.start, refuses⟩ oneLeftGranted).filterMap
      AtomicAct.told? = [1] ∧
    run (atomicStep fun _ => False) (.init refuses)
      (events (withEnv step) (seenAmid seen) ⟨init PostFga.start, refuses⟩ oneLeftGranted) = some t ∧
    t.server = s.env ∧ Shows s.state.chan t.clients := by
  obtain ⟨s, hs⟩ := Option.isSome_iff_exists.1 (show (run step (init PostFga.start) oneLeft).isSome = true by
    decide +kernel)
  have hrun : run (withEnv step) ⟨init PostFga.start, refuses⟩ oneLeftGranted = some ⟨s, grants⟩ :=
    run_cons.2 ⟨⟨init PostFga.start, grants⟩, rfl, run_act hs⟩
  have hguard : Meets (withEnv step) (envGuard (LifeGuard fun _ => False)) ⟨init PostFga.start, refuses⟩
      oneLeftGranted := by
    refine ⟨trivial, fun s' hs => ?_⟩
    obtain rfl := Option.some.inj hs
    exact meets_act.2 lifeGuard_oneLeft
  obtain ⟨t, ht, hserver, hshows⟩ := lives_are_atomic (by decide) (by decide) freshSlot (fun _ => 0) refuses
    (fun _ => False) oneLeftGranted (by decide) hguard hrun
  exact ⟨⟨s, grants⟩, t, hrun, by decide +kernel, by decide +kernel, ht, hserver, hshows⟩

end Bgw

end PostFga
