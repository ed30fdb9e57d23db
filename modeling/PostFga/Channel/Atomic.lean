import PostFga.Channel.Service
/-
# A call takes place at one moment of its own

The server changes while the channel runs: a tuple is written or deleted, a model replaced. Whatever slot,
batch and queue a call goes through, it is told what the server answered at some moment between its start and
its end, and never what was true before it was asked.

* `Atomic` — the service, with what the server has been since each process asked.
* `Recent` — the RPCs on their way to a slot and the response in it have been answered since.
* `channel_is_atomic` — the processes see a run of the atomic service.
* `told_as_of_now` — so a call that begins after a change is told what is true after it.
-/

namespace PostFga

open Transition

def ServiceAct.pid : ServiceAct → Nat
  | .ask b _ _ | .tell b _ _ | .drop b | .done b | .leave b => b

structure Atomic where
  server : Server
  clients : Service
  /-- What the server has been since the process has asked. -/
  since : Nat → Server → Prop

inductive AtomicAct where
  | become (S : Server)
  | seen (e : ServiceAct)

/-- A process that asks starts from the server of that moment. -/
def Atomic.renew (t : Atomic) : ServiceAct → Nat → Server → Prop
  | .ask b _ _ => Function.update t.since b (Eq t.server)
  | _ => t.since

noncomputable def atomicStep (Down : Call → Prop) (t : Atomic) : AtomicAct → Option Atomic
  | .become S => some { t with server := S, since := fun b S' => t.since b S' ∨ S' = S }
  | .seen e =>
    (serviceStep (t.since e.pid) Down t.clients e).map fun clients =>
      { t with clients := clients, since := t.renew e }

/-- The environment is the server. -/
def seenAmid {σ α : Type} (seen : σ → α → List ServiceAct) (s : WithEnv σ Server) : EnvAct α Server → List AtomicAct
  | .act a => (seen s.state a).map .seen
  | .change S => [.become S]

/-- An RPC completes as the server answers at that moment. -/
def ServingNow (Down : Call → Prop) (S : Server) : St → Act → Prop := ServingGuard (Eq S) Down

/-! ## Servers -/

theorem ServedBy.mono {Up Up' : Server → Prop} {Down : Call → Prop} {c : Call} {o : RpcOutcome}
    (h : ServedBy Up Down c o) (hup : ∀ S, Up S → Up' S) : ServedBy Up' Down c o := by
  rcases h with ⟨S, hS, ho⟩ | hdown
  · exact Or.inl ⟨S, hup S hS, ho⟩
  · exact Or.inr hdown

theorem ServedGuard.mono {Up Up' : Server → Prop} {Down : Call → Prop} {s : St} {a : Act}
    (h : ServedGuard Up Down s a) (hup : ∀ S, Up S → Up' S) : ServedGuard Up' Down s a := by
  cases a with
  | complete m o => exact fun r hr => (h r hr).mono hup
  | acquire | backend | exit | worker | handler => trivial

/-! ## What is on its way to a slot -/

/-- The handler has written the response that is in the slot. -/
def St.AnsweredAt (s : St) (i : Nat) : Prop :=
  (∃ r ∈ s.rpcs, r.written = some i) ∨ i ∈ s.completed ∨ i ∈ s.worker.finishing ∨ (s.pool.slots i).state = .done

structure Recent (Up : Server → Prop) (Down : Call → Prop) (s : St) (i : Nat) : Prop where
  calls : ∀ r ∈ s.rpcs, i ∈ r.todo → ∀ o, r.pc.outcome = some o → ServedBy Up Down r.call o
  author : s.AnsweredAt i → ∀ c o, s.author i = some (c, o) → ServedBy Up Down c o

section
variable {n k : Nat} {s s' : St} {free : List Nat} {Up : Server → Prop} {Down : Call → Prop} {i : Nat}

theorem Recent.mono {Up' : Server → Prop} (h : Recent Up Down s i) (hup : ∀ S, Up S → Up' S) :
    Recent Up' Down s i :=
  ⟨fun r hr hi o ho => (h.calls r hr hi o ho).mono hup, fun ha c o hauthor => (h.author ha c o hauthor).mono hup⟩

/-- Nothing is on its way to a slot that has just been acquired. -/
theorem recent_acquired (ten : Tenancy n k s free) {b : Nat} {job : Job} (hb : s.backends b = .running job .setPid) :
    Recent Up Down s job.slot := by
  obtain ⟨-, -, ⟨hst, -, htaken⟩, -⟩ := (ten.tenure job.slot).of_owner hb rfl rfl
  have hnot : job.slot ∉ s.taken := List.count_eq_zero.1 htaken
  rw [mem_taken] at hnot
  refine ⟨fun r hr hi => absurd (Or.inr (Or.inl (List.mem_flatMap.2 ⟨r, hr, hi⟩))) hnot, fun ha => ?_⟩
  rcases ha with ⟨r, hr, hi⟩ | hi | hi | hi
  · exact absurd (Or.inr (Or.inl (List.mem_flatMap.2 ⟨r, hr, written_mem hi⟩))) hnot
  · exact absurd (Or.inr (Or.inr hi)) hnot
  · exact absurd (Or.inl (finishing_sub hi)) hnot
  · rw [hst] at hi
    cases hi

/-! ## What a step brings -/

/-- An outcome is of before, or of the call that completes. -/
def BringsOutcome (s s' : St) (a : Act) : Prop :=
  ∀ r' ∈ s'.rpcs, ∀ o, r'.pc.outcome = some o →
    (∃ r ∈ s.rpcs, r.call = r'.call ∧ r.pc.outcome = some o ∧ ∀ i ∈ r'.todo, i ∈ r.todo) ∨
    ∃ m r, a = .complete m o ∧ s.rpcs[m]? = some r ∧ r.call = r'.call

/-- A response is of before, or of a call on its way to the slot. -/
def BringsAnswer (s s' : St) (i : Nat) : Prop :=
  s'.AnsweredAt i → s.AnsweredAt i ∧ s'.author i = s.author i ∨
    ∃ r ∈ s.rpcs, ∃ o, r.pc.outcome = some o ∧ i ∈ r.todo ∧ s'.author i = some (r.call, o)

/-- The calls are those of before. -/
theorem brings_of_rpcs (h : s'.rpcs = s.rpcs) (a : Act) : BringsOutcome s s' a := by
  intro r hr o ho
  rw [h] at hr
  exact Or.inl ⟨r, hr, rfl, ho, fun i hi => hi⟩

/-- One call moves, and keeps its outcome. -/
theorem brings_set {m : Nat} {r : Rpc} (r' : Rpc) (hrpcs : s'.rpcs = s.rpcs.set m r') (hr : s.rpcs[m]? = some r)
    (hcall : r.call = r'.call) (ho : ∀ o, r'.pc.outcome = some o → r.pc.outcome = some o)
    (htodo : ∀ i ∈ r'.todo, i ∈ r.todo) (a : Act) : BringsOutcome s s' a := by
  intro x hx o hxo
  rw [hrpcs] at hx
  rcases get_set_rpc hr hx with rfl | ⟨m', -, hx'⟩
  · exact Or.inl ⟨r, List.mem_of_getElem? hr, hcall, ho o hxo, htodo⟩
  · exact Or.inl ⟨x, List.mem_of_getElem? hx', rfl, hxo, fun i hi => hi⟩

theorem brings_step {a : Act} (hs : s.step a = some s') : BringsOutcome s s' a := by
  cases a with
  | acquire b config call =>
    obtain ⟨-, rfl⟩ := step_acquire hs
    unfold St.acquire
    split <;> exact brings_of_rpcs rfl _
  | backend b fails =>
    obtain ⟨job, stage, -, rfl⟩ := step_backend hs
    exact brings_of_rpcs (advance_lists s b job fails stage).2.1 _
  | exit b =>
    obtain ⟨-, rfl⟩ := step_exit hs
    exact brings_of_rpcs rfl _
  | worker =>
    obtain ⟨-, hrpcs | ⟨begun, -, hrpcs⟩⟩ := worker_rpcs hs
    · exact brings_of_rpcs hrpcs _
    · intro r hr o ho
      rw [hrpcs] at hr
      rcases List.mem_append.1 hr with hr | hr
      · exact Or.inl ⟨r, hr, rfl, ho, fun i hi => hi⟩
      · obtain ⟨c, -, rfl⟩ := List.mem_map.1 hr
        cases ho
  | complete m o =>
    obtain ⟨r, hr, -, rfl⟩ := step_complete hs
    intro x hx o' ho'
    rcases get_set_rpc hr hx with rfl | ⟨m', -, hx'⟩
    · obtain rfl := Option.some.inj ho'
      exact Or.inr ⟨m, r, rfl, hr, rfl⟩
    · exact Or.inl ⟨x, List.mem_of_getElem? hx', rfl, ho', fun i hi => hi⟩
  | handler m =>
    obtain ⟨r, hr, hs⟩ := step_handler hs
    obtain ⟨o, i, todo, hpc, htodo, rfl⟩ | ⟨o, i, todo, hpc, htodo, rfl⟩ | ⟨o, hpc, rfl⟩ := stepHandler_cases hs
    · exact brings_set { r with pc := .append o } rfl hr rfl (fun o' ho' => by rw [hpc]; exact ho')
        (fun j hj => hj) _
    · refine brings_set ⟨r.call, .setLatch o, todo⟩ rfl hr rfl (fun o' ho' => by rw [hpc]; exact ho')
        (fun j hj => ?_) _
      rw [htodo]
      exact List.mem_cons_of_mem i hj
    · exact brings_set { r with pc := .write o } rfl hr rfl (fun o' ho' => by rw [hpc]; exact ho')
        (fun j hj => hj) _

/-- A step of the worker: what is completed is taken on to DONE. -/
theorem answeredAt_pass (h : s'.AnsweredAt i) (e : SlotEffect) (j : Nat) (hpool : s'.pool = (s.apply e j).pool)
    (hrpcs : ∀ r ∈ s'.rpcs, r.written = some i → r ∈ s.rpcs) (hcompleted : i ∈ s'.completed → i ∈ s.completed)
    (hfinishing : i ∈ s'.worker.finishing → i ∈ s.completed ∨ i ∈ s.worker.finishing)
    (he : e = .writeState .done → j ∈ s.worker.finishing) : s.AnsweredAt i := by
  rcases h with ⟨r, hr, hi⟩ | hi | hi | hi
  · exact Or.inl ⟨r, hrpcs r hr hi, hi⟩
  · exact Or.inr (Or.inl (hcompleted hi))
  · exact Or.inr ((hfinishing hi).imp_right Or.inl)
  · rw [hpool] at hi
    by_cases hd : e = .writeState .done
    · by_cases hj : i = j
      · subst hj
        exact Or.inr (Or.inr (Or.inl (he hd)))
      · rw [apply_slots_ne s e hj] at hi
        exact Or.inr (Or.inr (Or.inr hi))
    · exact Or.inr (Or.inr (Or.inr (apply_done s e hd j i hi)))

theorem worker_answeredAt (hs : s.stepWorker = some s') (h : s'.AnsweredAt i) : s.AnsweredAt i := by
  cases hw : s.worker with
  | waitLatch =>
    obtain ⟨-, rfl⟩ := stepWorker_waitLatch hw hs
    exact answeredAt_pass h .none 0 rfl (fun r hr _ => hr) id (fun hi => by cases hi) (by simp)
  | begin todo begun =>
    cases todo with
    | nil =>
      simp only [St.stepWorker, hw, Option.some.injEq] at hs
      subst hs
      refine answeredAt_pass h .none 0 rfl (fun r hr hwritten => ?_) id (fun hi => by cases hi) (by simp)
      rcases List.mem_append.1 hr with hr | hr
      · exact hr
      · obtain ⟨c, -, rfl⟩ := List.mem_map.1 hr
        cases hwritten
    | cons j todo =>
      simp only [St.stepWorker, hw, Option.some.injEq] at hs
      subst hs
      refine answeredAt_pass h _ j rfl (fun r hr _ => hr) id (fun hi => ?_) (fun he => ?_)
      · simp only at hi
        split at hi <;> cases hi
      · cases hst : (s.pool.slots j).state <;> simp [hst, beginCas] at he
  | releaseCanceled j todo begun =>
    simp only [St.stepWorker, hw, Option.some.injEq] at hs
    subst hs
    exact answeredAt_pass h .release j rfl (fun r hr _ => hr) id (fun hi => by cases hi) (by simp)
  | swap =>
    simp only [St.stepWorker, hw, Option.some.injEq] at hs
    subst hs
    refine answeredAt_pass h .none 0 rfl (fun r hr _ => hr) (fun hi => by cases hi) (fun hi => Or.inl ?_) (by simp)
    rwa [handleNext_finishing] at hi
  | handle j pc rest =>
    simp only [St.stepWorker, hw, Option.some.injEq] at hs
    subst hs
    refine answeredAt_pass h _ j rfl (fun r hr _ => hr) id (fun hi => Or.inr ?_) (fun he => ?_)
    · rw [hw]
      cases pc with
      | readState =>
        simp only [handleStep] at hi
        split at hi <;> exact hi
      | writeDone => exact List.mem_cons_of_mem j hi
      | lookup =>
        simp only [handleStep] at hi
        cases hf : s.found j with
        | true => rwa [hf, if_pos rfl, handleNext_finishing] at hi
        | false =>
          rw [hf] at hi
          exact hi
      | releaseCanceled =>
        simp only [handleStep, handleNext_finishing] at hi
        exact List.mem_cons_of_mem j hi
      | releaseUnfound =>
        simp only [handleStep, handleNext_finishing] at hi
        exact hi
    · rw [hw]
      cases pc with
      | writeDone => exact List.mem_cons_self
      | readState | releaseCanceled | lookup | releaseUnfound => simp [handleStep] at he
  | resetLatch | drain =>
    simp only [St.stepWorker, hw, Option.some.injEq] at hs
    subst hs
    exact answeredAt_pass h .none 0 rfl (fun r hr _ => hr) id (fun hi => by cases hi) (by simp)

/-- One call moves. -/
theorem answeredAt_set {m : Nat} {r : Rpc} (r' : Rpc) (h : s'.AnsweredAt i) (hrpcs : s'.rpcs = s.rpcs.set m r')
    (hr : s.rpcs[m]? = some r) (hwritten : r'.written = some i → s.AnsweredAt i)
    (hcompleted : i ∈ s'.completed → s.AnsweredAt i) (hworker : s'.worker = s.worker)
    (hstate : (s'.pool.slots i).state = (s.pool.slots i).state) : s.AnsweredAt i := by
  rcases h with ⟨x, hx, hi⟩ | hi | hi | hi
  · rw [hrpcs] at hx
    rcases get_set_rpc hr hx with rfl | ⟨m', -, hx'⟩
    · exact hwritten hi
    · exact Or.inl ⟨x, List.mem_of_getElem? hx', hi⟩
  · exact hcompleted hi
  · rw [hworker] at hi
    exact Or.inr (Or.inr (Or.inl hi))
  · rw [hstate] at hi
    exact Or.inr (Or.inr (Or.inr hi))

/-- A handler writes, and has written when it appends. -/
theorem handler_answers {m : Nat} {r : Rpc} (hr : s.rpcs[m]? = some r) (hs : s.stepHandler m r = some s') :
    BringsAnswer s s' i := by
  have hmem : r ∈ s.rpcs := List.mem_of_getElem? hr
  obtain ⟨o, j, todo, hpc, htodo, rfl⟩ | ⟨o, j, todo, hpc, htodo, rfl⟩ | ⟨o, hpc, rfl⟩ := stepHandler_cases hs
  · intro h
    by_cases hj : i = j
    · subst hj
      exact Or.inr ⟨r, hmem, o, by rw [hpc]; rfl, by rw [htodo]; exact List.mem_cons_self, Function.update_self ..⟩
    · refine Or.inl ⟨answeredAt_set { r with pc := .append o } h rfl hr (fun hi => ?_)
        (fun hi => Or.inr (Or.inl hi)) rfl (setPayload_state ..), Function.update_of_ne hj ..⟩
      simp only [Rpc.written, htodo, List.head?_cons, Option.some.injEq] at hi
      exact absurd hi.symm hj
  · refine fun h => Or.inl ⟨answeredAt_set ⟨r.call, .setLatch o, todo⟩ h rfl hr (fun hi => by cases hi)
      (fun hi => ?_) rfl rfl, rfl⟩
    rcases List.mem_append.1 hi with hi | hi
    · exact Or.inr (Or.inl hi)
    · obtain rfl := List.mem_singleton.1 hi
      exact Or.inl ⟨r, hmem, by rw [Rpc.written, hpc, htodo]; rfl⟩
  · exact fun h => Or.inl ⟨answeredAt_set { r with pc := .write o } h rfl hr (fun hi => by cases hi)
      (fun hi => Or.inr (Or.inl hi)) rfl rfl, rfl⟩

/-- A step of a process. -/
theorem answers_of_lists (hrpcs : s'.rpcs = s.rpcs) (hcompleted : s'.completed = s.completed)
    (hworker : s'.worker = s.worker) (hauthor : s'.author = s.author)
    (hdone : (s'.pool.slots i).state = .done → (s.pool.slots i).state = .done) : BringsAnswer s s' i := by
  intro h
  refine Or.inl ⟨?_, by rw [hauthor]⟩
  unfold St.AnsweredAt at h ⊢
  rw [hrpcs, hcompleted, hworker] at h
  exact h.imp_right (Or.imp_right (Or.imp_right hdone))

theorem acquire_answers (b : Nat) (config : FgaConfig) (call : SqlCall) :
    BringsAnswer s (s.acquire b config call) i := by
  unfold St.acquire acquireSlot
  cases hp : s.pool.free.popHead with
  | none => exact answers_of_lists rfl rfl rfl rfl id
  | some p =>
    obtain ⟨j, rest⟩ := p
    refine answers_of_lists rfl rfl rfl rfl fun hi => ?_
    have hdone : (({ s.pool with free := rest }.setState j .pending).slots i).state = .done := hi
    by_cases hj : i = j
    · subst hj
      rw [setState_self] at hdone
      cases hdone
    · rwa [setState_ne _ _ hj] at hdone

theorem answers_step {a : Act} (hs : s.step a = some s') : BringsAnswer s s' i := by
  cases a with
  | acquire b config call =>
    obtain ⟨-, rfl⟩ := step_acquire hs
    exact acquire_answers b config call
  | backend b fails =>
    obtain ⟨job, stage, -, rfl⟩ := step_backend hs
    obtain ⟨hworker, hrpcs, hcompleted, hauthor, -⟩ := advance_lists s b job fails stage
    exact answers_of_lists hrpcs hcompleted hworker hauthor (advance_slots s b job fails stage i).1
  | exit b =>
    obtain ⟨-, rfl⟩ := step_exit hs
    exact answers_of_lists rfl rfl rfl rfl id
  | worker => exact fun h => Or.inl ⟨worker_answeredAt hs h, by rw [(worker_rpcs hs).1]⟩
  | complete m o =>
    obtain ⟨r, hr, -, rfl⟩ := step_complete hs
    exact fun h => Or.inl ⟨answeredAt_set { r with pc := .write o } h rfl hr (fun hi => by cases hi)
      (fun hi => Or.inr (Or.inl hi)) rfl rfl, rfl⟩
  | handler m =>
    obtain ⟨r, hr, hs⟩ := step_handler hs
    exact handler_answers hr hs

theorem recent_step (h : Recent Up Down s i) {a : Act} (hg : ServedGuard Up Down s a) (hs : s.step a = some s') :
    Recent Up Down s' i where
  calls r' hr' hi o ho := by
    rcases brings_step hs r' hr' o ho with ⟨r, hr, hcall, ho, htodo⟩ | ⟨m, r, rfl, hr, hcall⟩
    · rw [← hcall]
      exact h.calls r hr (htodo i hi) o ho
    · rw [← hcall]
      exact hg r hr
  author ha c o hauthor := by
    rcases answers_step hs ha with ⟨ha, heq⟩ | ⟨r, hr, o', ho', hi, heq⟩
    · exact h.author ha c o (by rw [← heq]; exact hauthor)
    · rw [heq] at hauthor
      cases hauthor
      exact h.calls r hr hi o ho'

theorem Recent.told {Up' : Server → Prop} {b : Nat} {job : Job} (h : Recent Up Down s job.slot)
    (hserving : Serving n k Up' Down s) (hb : s.backends b = .running job .response) :
    ToldRight Up Down job.config job.call job.slot (s.mem job.slot).response := by
  obtain ⟨free, ten⟩ := hserving.tenancy
  obtain ⟨-, -, ⟨-, hat⟩, -⟩ := (ten.tenure job.slot).of_owner hb rfl rfl
  exact hserving.told_by hb (h.author (Or.inr (Or.inr (Or.inr hat.1))))

/-! ## The two machines -/

/-- A step is seen as one of the service, or not at all. -/
theorem seen_cases (s : St) (a : Act) : s.seen a = [] ∨ ∃ e, s.seen a = [e] := by
  unfold St.seen
  repeat' split
  all_goals first | exact Or.inl rfl | exact Or.inr ⟨_, rfl⟩

/-- The servers matter to who is told. -/
theorem serviceStep_up {Up' : Server → Prop} {u u' : Service} {e : ServiceAct}
    (h : serviceStep Up' Down u e = some u')
    (htold : ∀ b slot res config call, e = .tell b slot res → u b = .asking config call →
      ToldRight Up Down config call slot res) : serviceStep Up Down u e = some u' := by
  cases e with
  | tell b slot res =>
    simp only [serviceStep] at h ⊢
    split at h
    · rename_i config call hu
      rw [if_pos (htold b slot res config call rfl hu)]
      split at h
      · exact h
      · cases h
    · cases h
  | ask | drop | done | leave => exact h

structure Tracks (n k : Nat) (Down : Call → Prop) (s : St) (S : Server) (t : Atomic) : Prop where
  serving : Serving n k (fun _ => True) Down s
  shows : Shows s t.clients
  server : t.server = S
  recent : ∀ b job stage, s.backends b = .running job stage → t.since b S ∧ Recent (t.since b) Down s job.slot

/-- A call under way has been under way, or has just begun. -/
theorem running_before {a : Act} {b : Nat} {job : Job} {stage : Stage} (hs : s.step a = some s')
    (hb : s'.backends b = .running job stage) :
    (∃ job₀ stage₀, s.backends b = .running job₀ stage₀ ∧ job.slot = job₀.slot) ∨
      ∃ config call, s.seen a = [.ask b config call] ∧ stage = .setPid := by
  by_cases hpid : a.pid = some b
  · cases a with
    | acquire b' config call =>
      obtain rfl := Option.some.inj hpid
      obtain ⟨hidle, rfl⟩ := step_acquire hs
      unfold St.acquire at hb
      cases hp : acquireSlot s.pool with
      | none =>
        rw [hp] at hb
        exact Or.inl ⟨job, stage, hb, rfl⟩
      | some p =>
        rw [hp, goto_self] at hb
        cases hb
        exact Or.inr ⟨config, call, by rw [St.seen, hp]; rfl, rfl⟩
    | backend b' fails =>
      obtain rfl := Option.some.inj hpid
      obtain ⟨job₀, stage₀, hb₀, rfl⟩ := step_backend hs
      obtain ⟨⟨x, hx, hon⟩, -⟩ := advance_backend s b' job₀ fails stage₀
      rw [hx, Function.update_self] at hb
      exact Or.inl ⟨job₀, stage₀, hb₀, hon job stage hb⟩
    | exit b' =>
      obtain rfl := Option.some.inj hpid
      obtain ⟨-, rfl⟩ := step_exit hs
      rw [setBackend_self] at hb
      cases hb
    | worker | complete | handler => cases hpid
  · rw [step_backends hpid hs] at hb
    exact Or.inl ⟨job, stage, hb, rfl⟩

/-- Who asks is idle. -/
theorem seen_ask {a : Act} {b : Nat} {config : FgaConfig} {call : SqlCall} (hs : s.step a = some s')
    (hseen : s.seen a = [.ask b config call]) : s.backends b = .idle := by
  cases a with
  | acquire b' config' call' =>
    have hidle := (step_acquire hs).1
    simp only [St.seen] at hseen
    split at hseen
    · cases hseen
      exact hidle
    · cases hseen
  | backend b' fails =>
    simp only [St.seen] at hseen
    repeat' split at hseen
    all_goals cases hseen
  | exit | worker | complete | handler => cases hseen

/-- Who is told has a response. -/
theorem seen_tell {a : Act} {b slot : Nat} {res : FgaResponse} (hseen : s.seen a = [.tell b slot res]) :
    ∃ job, s.backends b = .running job .response ∧ slot = job.slot ∧ res = (s.mem job.slot).response := by
  cases a with
  | acquire b' config' call' =>
    simp only [St.seen] at hseen
    split at hseen <;> cases hseen
  | backend b' fails =>
    simp only [St.seen] at hseen
    split at hseen
    · rename_i job hb
      cases hseen
      exact ⟨job, hb, rfl, rfl⟩
    · repeat' split at hseen
      all_goals cases hseen
    · cases hseen
  | exit | worker | complete | handler => cases hseen

theorem renew_of_ne (t : Atomic) {e : ServiceAct} {b : Nat} (h : ∀ config call, e ≠ .ask b config call) :
    t.renew e b = t.since b := by
  cases e with
  | ask b' config call =>
    have hne : b ≠ b' := by
      rintro rfl
      exact h config call rfl
    exact Function.update_of_ne hne ..
  | tell | drop | done | leave => rfl

/-- A step of the channel that is seen as `e`. -/
theorem atomicStep_seen {S : Server} {t : Atomic} (h : Tracks n k Down s S t) {a : Act} {e : ServiceAct} {u : Service}
    (hseen : s.seen a = [e]) (hu : serviceStep (fun _ => True) Down t.clients e = some u) :
    atomicStep Down t (.seen e) = some { t with clients := u, since := t.renew e } := by
  have hstep : serviceStep (t.since e.pid) Down t.clients e = some u := by
    refine serviceStep_up hu fun b slot res config call he hclient => ?_
    subst he
    obtain ⟨job, hb, rfl, rfl⟩ := seen_tell hseen
    obtain ⟨-, hasking⟩ := (shows_running h.shows hb).resolve_right fun htold => by cases htold.1
    rw [hclient] at hasking
    cases hasking
    exact (h.recent b job .response hb).2.told h.serving hb
  simp only [atomicStep, hstep, Option.map_some]

theorem Tracks.step {S : Server} {t : Atomic} (h : Tracks n k Down s S t) {a : Act} (hg : ServingNow Down S s a)
    (hcount : CountGuard s a) (hs : s.step a = some s') :
    ∃ t', run (atomicStep Down) t ((s.seen a).map .seen) = some t' ∧ Tracks n k Down s' S t' := by
  have hg' : ServingGuard (fun _ => True) Down s a := ⟨hg.1, hg.2.mono fun _ _ => trivial⟩
  obtain ⟨u, hu, hserving, hshows⟩ := channel_simulates n k (fun _ => True) Down _ _ _ _ ⟨h.serving, h.shows⟩
    ⟨hg', hcount⟩ hs
  -- whoever has asked before keeps what it knows
  have hkept : ∀ b job₀ stage₀ (job : Job), s.backends b = .running job₀ stage₀ → job.slot = job₀.slot →
      t.since b S ∧ Recent (t.since b) Down s' job.slot := by
    intro b job₀ stage₀ job hb hslot
    obtain ⟨hnow, hrecent⟩ := h.recent b job₀ stage₀ hb
    have hserved : ServedGuard (t.since b) Down s a := hg.2.mono fun S' hS => by rw [← hS]; exact hnow
    rw [hslot]
    exact ⟨hnow, recent_step hrecent hserved hs⟩
  rcases seen_cases s a with hseen | ⟨e, hseen⟩
  · rw [hseen] at hu ⊢
    obtain rfl := Option.some.inj hu
    refine ⟨t, rfl, hserving, hshows, h.server, fun b job stage hb => ?_⟩
    rcases running_before hs hb with ⟨job₀, stage₀, hb₀, hslot⟩ | ⟨config, call, hask, -⟩
    · exact hkept b job₀ stage₀ job hb₀ hslot
    · rw [hseen] at hask
      cases hask
  · rw [hseen] at hu ⊢
    have hu : serviceStep (fun _ => True) Down t.clients e = some u := by
      simpa only [run, Option.bind_eq_some_iff, Option.some.injEq, exists_eq_right] using hu
    refine ⟨{ t with clients := u, since := t.renew e }, ?_, hserving, hshows, h.server, fun b job stage hb => ?_⟩
    · simp only [List.map_cons, List.map_nil, run, atomicStep_seen h hseen hu, Option.bind_some]
    · rcases running_before hs hb with ⟨job₀, stage₀, hb₀, hslot⟩ | ⟨config, call, hask, rfl⟩
      · have hne : ∀ config call, e ≠ .ask b config call := by
          rintro config call rfl
          rw [seen_ask hs hseen] at hb₀
          cases hb₀
        rw [show ({ t with clients := u, since := t.renew e } : Atomic).since b = t.since b from renew_of_ne t hne]
        exact hkept b job₀ stage₀ job hb₀ hslot
      · rw [hseen] at hask
        cases hask
        obtain ⟨free, ten⟩ := hserving.tenancy
        have hsince : t.renew (.ask b config call) b = Eq S := by
          rw [Atomic.renew, Function.update_self, h.server]
        refine ⟨?_, recent_acquired ten hb⟩
        show t.renew (.ask b config call) b S
        rw [hsince]

theorem Tracks.change {S : Server} {t : Atomic} (h : Tracks n k Down s S t) (S' : Server) :
    Tracks n k Down s S' { t with server := S', since := fun b S₀ => t.since b S₀ ∨ S₀ = S' } :=
  ⟨h.serving, h.shows, rfl, fun b job stage hb => ⟨Or.inr rfl, (h.recent b job stage hb).2.mono fun _ => Or.inl⟩⟩

/-- **Every step is seen as steps of the atomic service.** -/
theorem channel_tracks (n k : Nat) (Down : Call → Prop) :
    Simulates (withEnv St.step) (atomicStep Down)
      (fun s a => envGuard (ServingNow Down) s a ∧ envGuard (fun _ => CountGuard) s a)
      (fun s t => Tracks n k Down s.state s.env t) (seenAmid St.seen) := by
  rintro s a s' t h ⟨hg, hcount⟩ hs
  cases a with
  | act a =>
    obtain ⟨u, hu, rfl⟩ := Option.map_eq_some_iff.1 hs
    exact h.step hg hcount hu
  | change S =>
    obtain rfl := Option.some.inj hs
    exact ⟨_, rfl, h.change S⟩

theorem count_withEnv {n k : Nat} (mem : Nat → FgaChannelSlot) (values : Nat → UInt16) (S : Server)
    (acts : List (EnvAct Act Server)) (hlen : acts.length < 2 ^ 64) :
    Meets (withEnv St.step) (envGuard fun _ => CountGuard) ⟨.init n k mem values, S⟩ acts := by
  refine envGuard_of_growth (fun s : St => s.requestId.toNat) (2 ^ 64) (fun s a hlt => countGuard_of_lt hlt a)
    (fun s a s' hg hs => requestId_le hg hs) acts ?_
  rw [show (St.init n k mem values).requestId.toNat = 0 from rfl]
  omega

end

/-! ## Runs -/

def Atomic.init (S : Server) : Atomic := ⟨S, fun _ => .idle, fun _ _ => False⟩

theorem tracks_init {n k : Nat} (hn : n ≤ 2 ^ 16) (hk : k ≤ 15) (mem : Nat → FgaChannelSlot)
    (values : Nat → UInt16) (S : Server) (Down : Call → Prop) :
    Tracks n k Down (.init n k mem values) S (.init S) :=
  ⟨serving_init hn hk mem values, fun _ => trivial, rfl, fun b job stage hb => by cases hb⟩

/-- **The channel is an atomic service**: what the processes see of a run, while the server changes, is a
run in which each is told what the server has answered at some moment since it asked. -/
theorem channel_is_atomic {n k : Nat} (hn : n ≤ 2 ^ 16) (hk : k ≤ 15) (mem : Nat → FgaChannelSlot)
    (values : Nat → UInt16) (S : Server) (Down : Call → Prop) (acts : List (EnvAct Act Server))
    (hlen : acts.length < 2 ^ 64) {s : WithEnv St Server}
    (hg : Meets (withEnv St.step) (envGuard (ServingNow Down)) ⟨.init n k mem values, S⟩ acts)
    (hrun : run (withEnv St.step) ⟨.init n k mem values, S⟩ acts = some s) :
    ∃ t, run (atomicStep Down) (.init S)
        (events (withEnv St.step) (seenAmid St.seen) ⟨.init n k mem values, S⟩ acts) = some t ∧
      t.server = s.env ∧ Shows s.state t.clients := by
  obtain ⟨t, ht, htracks⟩ := (channel_tracks n k Down).run acts (tracks_init hn hk mem values S Down)
    (hg.and (count_withEnv mem values S acts hlen)) hrun
  exact ⟨t, ht, htracks.server, htracks.shows⟩

/-- The process that is told. -/
def AtomicAct.told? : AtomicAct → Option Nat
  | .seen (.tell b _ _) => some b
  | _ => none

/-- The first of the two checks reads its response, and ends. -/
def toldChecks : List Act := answeredChecks ++ goOn 0 2

/-- The server refuses, and then it grants; two are asked in one batch, and one of them is told. -/
def grantedChecks : List (EnvAct Act Server) := .change grants :: toldChecks.map .act

/-- The server that grants in no store. -/
def refuses : Server := allowOnly [] []

theorem serving_told : Meets St.step (ServingNow (fun _ => False) grants) start toldChecks := by
  have hplain : Meets St.step (fun s a => s.plain a = true) start toldChecks := by decide +kernel
  have hbackend : ∀ s, Meets St.step (fun _ a => a = .backend 0 false) s (goOn 0 2) :=
    fun _ => meets_of_forall _ _ fun _ ha => List.eq_of_mem_replicate ha
  refine meets_append.2 ⟨serving_answered, fun s hs => ?_⟩
  refine (((meets_append.1 hplain).2 s hs).and (hbackend s)).mono fun s a h => ⟨plain_guard s a h.1, ?_⟩
  rw [h.2]
  trivial

theorem guard_granted {acts : List Act} (h : Meets St.step (ServingNow (fun _ => False) grants) start acts) :
    Meets (withEnv St.step) (envGuard (ServingNow fun _ => False)) ⟨start, refuses⟩
      (.change grants :: acts.map .act) := by
  refine ⟨trivial, fun s' hs => ?_⟩
  obtain rfl := Option.some.inj hs
  exact meets_act.2 h

theorem channel_is_atomic_granted : ∃ s t, run (withEnv St.step) ⟨start, refuses⟩ grantedChecks = some s ∧
    (events (withEnv St.step) (seenAmid St.seen) ⟨start, refuses⟩ grantedChecks).length = 5 ∧
    (events (withEnv St.step) (seenAmid St.seen) ⟨start, refuses⟩ grantedChecks).filterMap AtomicAct.told? = [0] ∧
    run (atomicStep fun _ => False) (.init refuses)
      (events (withEnv St.step) (seenAmid St.seen) ⟨start, refuses⟩ grantedChecks) = some t ∧
    t.server = s.env ∧ Shows s.state t.clients := by
  obtain ⟨s, hs⟩ := Option.isSome_iff_exists.1 (show (run St.step start toldChecks).isSome = true by
    decide +kernel)
  have hrun : run (withEnv St.step) ⟨start, refuses⟩ grantedChecks = some ⟨s, grants⟩ :=
    run_cons.2 ⟨⟨start, grants⟩, rfl, run_act hs⟩
  obtain ⟨t, ht, hserver, hshows⟩ := channel_is_atomic (by decide) (by decide) freshSlot (fun _ => 0) refuses
    (fun _ => False) grantedChecks (by decide) (guard_granted serving_told) hrun
  exact ⟨⟨s, grants⟩, t, hrun, by decide +kernel, by decide +kernel, ht, hserver, hshows⟩

/-! ## While the server stays the same -/

/-- What is on its way to `b` is from `S`. -/
structure AsOf (n k : Nat) (Down : Call → Prop) (S : Server) (b : Nat) (s : St) : Prop where
  serving : Serving n k (fun _ => True) Down s
  recent : ∀ job stage, s.backends b = .running job stage → Recent (Eq S) Down s job.slot

theorem asOf_step {n k : Nat} {Down : Call → Prop} {S : Server} {b : Nat} {s s' : St} (h : AsOf n k Down S b s)
    {a : Act} (hg : ServingNow Down S s a) (hcount : CountGuard s a) (hs : s.step a = some s') :
    AsOf n k Down S b s' := by
  have hserving := serving_step h.serving ⟨hg.1, hg.2.mono fun _ _ => trivial⟩ hcount hs
  refine ⟨hserving, fun job stage hb => ?_⟩
  rcases running_before hs hb with ⟨job₀, stage₀, hb₀, hslot⟩ | ⟨config, call, -, rfl⟩
  · rw [hslot]
    exact recent_step (h.recent job₀ stage₀ hb₀) hg.2 hs
  · obtain ⟨free, ten⟩ := hserving.tenancy
    exact recent_acquired ten hb

/-- **No answer from before the question**: a call that has begun after the server last changed is told what the
server answers now. -/
theorem told_as_of_now {n k : Nat} (hn : n ≤ 2 ^ 16) (hk : k ≤ 15) (mem : Nat → FgaChannelSlot)
    (values : Nat → UInt16) (S : Server) (Down : Call → Prop) (before : List (EnvAct Act Server)) (after : List Act)
    (hlen : before.length + after.length < 2 ^ 64)
    (hg : Meets (withEnv St.step) (envGuard (ServingNow Down)) ⟨.init n k mem values, S⟩
      (before ++ after.map .act)) {u : WithEnv St Server} {s : St}
    (hbefore : run (withEnv St.step) ⟨.init n k mem values, S⟩ before = some u)
    (hafter : run St.step u.state after = some s) {b : Nat}
    (hout : ∀ job stage, u.state.backends b ≠ .running job stage) {job : Job}
    (hb : s.backends b = .running job .response) :
    ToldRight (Eq u.env) Down job.config job.call job.slot (s.mem job.slot).response ∧
      ∀ v allow, job.call = .check v → (s.mem job.slot).response.verdict = some allow →
        (u.env.check (cut (settingBytes job.config.storeId)) (cut (settingBytes job.config.modelId))
          (v.key cut)).verdict = some allow := by
  have hlen : (before ++ after.map EnvAct.act).length < 2 ^ 64 := by rwa [List.length_append, List.length_map]
  obtain ⟨hg, hg'⟩ := meets_append.1 (hg.and (count_withEnv mem values S _ hlen))
  have hguard := (hg' u hbefore).mono fun _ _ => And.left
  have hcount := (hg' u hbefore).mono fun _ _ => And.right
  obtain ⟨t, -, htracks⟩ := (channel_tracks n k Down).run before (tracks_init hn hk mem values S Down) hg hbefore
  have hinit : AsOf n k Down u.env b u.state := ⟨htracks.serving, fun job stage h => absurd h (hout job stage)⟩
  have hasOf : AsOf n k Down u.env b s := run_inv_of_meets (AsOf n k Down u.env b)
    (fun s a => ServingNow Down u.env s a ∧ CountGuard s a) (fun _ _ _ h hg hs => asOf_step h hg.1 hg.2 hs) after
    hinit ((meets_act.1 hguard).and (meets_act.1 hcount)) hafter
  have htold := (hasOf.recent job .response hb).told hasOf.serving hb
  refine ⟨htold, fun v allow hv hres => ?_⟩
  rw [hv] at htold
  obtain ⟨_, rfl, hverdict⟩ := htold.verdict hres
  exact hverdict

theorem told_as_of_now_granted : ∃ s : St, run St.step start answeredChecks = some s ∧
    s.backends 0 = .running firstJob .response ∧
    ToldRight (Eq grants) (fun _ => False) firstJob.config firstJob.call firstJob.slot
      (s.mem firstJob.slot).response := by
  have hend : (run St.step start answeredChecks).any
      (fun s => s.backends 0 == .running firstJob .response) = true := by decide +kernel
  obtain ⟨s, hs, hb⟩ := (Option.any_eq_true ..).1 hend
  have hb : s.backends 0 = .running firstJob .response := eq_of_beq hb
  have hbefore : run (withEnv St.step) ⟨St.init 1024 10 freshSlot fun _ => 0, refuses⟩ [.change grants] =
      some ⟨start, grants⟩ := rfl
  exact ⟨s, hs, hb, (told_as_of_now (by decide) (by decide) freshSlot (fun _ => 0) refuses (fun _ => False)
    [.change grants] answeredChecks (by decide) (guard_granted serving_answered) hbefore hs (fun job stage h => by cases h) hb).1⟩

end PostFga
