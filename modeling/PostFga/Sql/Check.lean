import PostFga.Cache.TwoLevel
import PostFga.Cache.KeyDetermined
import PostFga.Sql.Request
/-
# `fga_check` and what it answers when OpenFGA does not (`func_fga.c:129`)

`allowed` and `key` are locals without an initialiser. `fga_cache_key` leaves two fields of `key`
alone, and the `else` branch of the status test (`:155`) reports at level INFO, which returns, and
leaves `allowed` alone. The four other functions raise an ERROR there.

| here | there |
| --- | --- |
| `CheckCall`  | the arguments, the settings, the cache, and how the channel serves the call |
| `ExecEnd`    | how `fga_channel_execute_slot` ends: by an ERROR, or with the response the client's callback has left in the slot |
| `fgaCheck`   | the function; `key₀` and `allowed₀` are what the two locals hold before it |
| `FailsClosed` | what the answer of the function should be |
| `failsClosed_iff` | when it is |
-/

namespace PostFga

/-- Whether the request went through `handle_request` or `handle_check_batch`. -/
inductive CheckPath where
  | single | batch
deriving DecidableEq, Repr

inductive ExecEnd where
  | error (e : SqlError)
  | returned (path : CheckPath) (outcome : RpcOutcome)

structure CheckCall (T : Type) where
  args : TupleArgs
  config : FgaConfig
  cacheConfig : CacheConfig
  nowMs : TimestampTz
  l1 : FgaL1Cache
  l2 : L2 T
  /-- `pool->head` is not empty. -/
  slotFree : Bool
  requestId : UInt64
  exec : ExecEnd

/-- How a function ends; `undefined` is a write past the end of a buffer. -/
inductive SqlResult (α : Type) where
  | returned (v : α)
  | error (e : SqlError)
  | undefined
deriving DecidableEq, Repr

/-- The response in the slot when the call on `path` has completed. -/
def checkResponse (path : CheckPath) (o : RpcOutcome) (p : FgaPayload) : FgaResponse :=
  match path with
  | .single => checkDone o p.response
  | .batch => batchItemDone o p

section
variable {T : Type} (H : HashOps T FgaAclCacheKey Nat) (X : XXH3)

/-- The payload as acquired and filled, without the response. -/
def checkPayload (request : FgaRequest) : FgaPayload := ⟨request, FgaPayload.zero.response⟩

/-- The part of `fga_check` after a cache miss. -/
def fgaCheckAsk (c : CheckCall T) (args : TupleArgsView) (allowed₀ : Bool) : SqlResult Bool :=
  if !c.slotFree then .error .poolExhausted
  else
    match (SqlCall.check args).request c.config c.requestId with
    | .error e => .error e
    | .ok request =>
      match c.exec with
      | .error e => .error e
      | .returned path o =>
        let response := checkResponse path o (checkPayload request)
        -- the `else` branch only reports: `allowed` keeps its content
        let allowed := if response.status = .ok then response.allow else allowed₀
        .returned allowed

def cacheAnswer (c : CheckCall T) (key : FgaAclCacheKey) : Option Bool :=
  (fgaCacheLookup H c.cacheConfig c.nowMs key c.l1 c.l2).1

/-- What the cache answers when the key is built in a variable that holds `key₀`. -/
def hitOver (c : CheckCall T) (args : TupleArgsView) (key₀ : FgaAclCacheKey) : Option Bool :=
  (fgaCacheKey X key₀ (questionOf c.config args)).bind (cacheAnswer H c)

def fgaCheck (c : CheckCall T) (key₀ : FgaAclCacheKey) (allowed₀ : Bool) : SqlResult Bool :=
  match readTupleArgs c.args with
  | .error e => .error e
  | .ok args =>
    match fgaCacheKey X key₀ (questionOf c.config args) with
    | none => .undefined
    | some key =>
      match cacheAnswer H c key with
      | some allowed => .returned allowed
      | none => fgaCheckAsk c args allowed₀

/-- The cache lookup hits with `v`. -/
def CacheHit (c : CheckCall T) (key₀ : FgaAclCacheKey) (v : Bool) : Prop :=
  ∃ args, readTupleArgs c.args = .ok args ∧ hitOver H X c args key₀ = some v

/-- The call gets the response `res`. -/
def Responds (c : CheckCall T) (key₀ : FgaAclCacheKey) (res : FgaResponse) : Prop :=
  ∃ args request path o, readTupleArgs c.args = .ok args ∧ (questionOf c.config args).Fits ∧
    hitOver H X c args key₀ = none ∧ c.slotFree = true ∧
    (SqlCall.check args).request c.config c.requestId = .ok request ∧ c.exec = .returned path o ∧
    res = checkResponse path o (checkPayload request)

/-- What the answer should be, whatever the locals hold: the same, with a grant only from the cache
or from an OK response, and no answer but `false` from any other response. -/
structure FailsClosed (c : CheckCall T) : Prop where
  defined : ∀ key₀ allowed₀, fgaCheck H X c key₀ allowed₀ ≠ .undefined
  determined : ∀ key₀ key₀' allowed₀ allowed₀',
    fgaCheck H X c key₀ allowed₀ = fgaCheck H X c key₀' allowed₀'
  grant : ∀ key₀ allowed₀, fgaCheck H X c key₀ allowed₀ = .returned true →
    CacheHit H X c key₀ true ∨ ∃ res, Responds H X c key₀ res ∧ res.status = .ok ∧ res.allow = true
  refuse : ∀ key₀ allowed₀ res, Responds H X c key₀ res → res.status ≠ .ok →
    fgaCheck H X c key₀ allowed₀ = .returned false ∨ ∃ e, fgaCheck H X c key₀ allowed₀ = .error e

/-! ## The outcomes that are OK -/

/-- What an OK outcome of the RPC says about the request; `none` for every other outcome. -/
def RpcOutcome.answer (o : RpcOutcome) (path : CheckPath) (request : FgaRequest) : Option Bool :=
  match o.status, path with
  | .ok, .single => some o.allowed
  | .ok, .batch =>
    match o.result (correlationId request) with
    | some (.allowed b) => some b
    | _ => none
  | .error _, _ => none

/-- The response is OK exactly when the outcome is, and then says what the outcome says. -/
theorem checkResponse_verdict (path : CheckPath) (o : RpcOutcome) (p : FgaPayload) :
    (checkResponse path o p).status = .ok ∧ o.answer path p.request = some (checkResponse path o p).allow ∨
    (checkResponse path o p).status ≠ .ok ∧ o.answer path p.request = none := by
  cases hs : o.status with
  | error m => right; cases path <;> simp [checkResponse, checkDone, batchItemDone, RpcOutcome.answer, hs]
  | ok =>
    cases path with
    | single => left; simp [checkResponse, checkDone, RpcOutcome.answer, hs]
    | batch =>
      simp only [checkResponse, batchItemDone, RpcOutcome.answer, hs]
      rcases o.result (correlationId p.request) with _ | (b | m | _) <;> simp

/-- How the part after a miss ends, if it does not depend on `allowed`: by an ERROR before there is
a response, or with the answer of an OK outcome. -/
def AskEnd (c : CheckCall T) (args : TupleArgsView) : Option (SqlResult Bool) :=
  if !c.slotFree then some (.error .poolExhausted)
  else
    match (SqlCall.check args).request c.config c.requestId, c.exec with
    | .error e, _ => some (.error e)
    | .ok _, .error e => some (.error e)
    | .ok request, .returned path o => (o.answer path request).map .returned

theorem fgaCheckAsk_eq (c : CheckCall T) (args : TupleArgsView) (allowed₀ : Bool) :
    fgaCheckAsk c args allowed₀ = (AskEnd c args).getD (.returned allowed₀) := by
  unfold fgaCheckAsk AskEnd
  split
  · rfl
  · rcases (SqlCall.check args).request c.config c.requestId with e | request
    · rfl
    · rcases c.exec with e | ⟨path, o⟩
      · rfl
      · rcases checkResponse_verdict path o (checkPayload request) with ⟨hs, ha⟩ | ⟨hs, ha⟩
        · simp only [checkPayload] at ha hs ⊢
          simp [hs, ha]
        · simp only [checkPayload] at ha hs ⊢
          simp [hs, ha]

variable {H X}

theorem fgaCheck_of_error {c : CheckCall T} {e : SqlError} (h : readTupleArgs c.args = .error e)
    (key₀ : FgaAclCacheKey) (allowed₀ : Bool) : fgaCheck H X c key₀ allowed₀ = .error e := by
  simp [fgaCheck, h]

/-- The cache's answer if there is one, else what comes after a miss, else what `allowed` holds. -/
def pick (hit : Option Bool) (ask : Option (SqlResult Bool)) (allowed₀ : Bool) : SqlResult Bool :=
  match hit with
  | some v => .returned v
  | none => ask.getD (.returned allowed₀)

theorem fgaCheck_eq_pick {c : CheckCall T} {args : TupleArgsView} (h : readTupleArgs c.args = .ok args)
    (hfit : (questionOf c.config args).Fits) (key₀ : FgaAclCacheKey) (allowed₀ : Bool) :
    fgaCheck H X c key₀ allowed₀ = pick (hitOver H X c args key₀) (AskEnd c args) allowed₀ := by
  simp only [fgaCheck, h, hitOver, fgaCacheKey_eq_some.2 ⟨hfit, rfl⟩, Option.bind_some]
  split
  · rename_i v hv; rw [hv, pick]
  · rename_i hv; rw [hv, pick, fgaCheckAsk_eq]

/-- The pick does not depend on the leftovers exactly when every content of the key hits with one
value, or the part after a miss has an end of its own and the hits agree with it. -/
theorem pick_determined_iff {K : Type} [Nonempty K] (hit : K → Option Bool) (ask : Option (SqlResult Bool)) :
    (∀ k k' a a', pick (hit k) ask a = pick (hit k') ask a') ↔
      (∃ v, ∀ k, hit k = some v) ∨ ∃ r, ask = some r ∧ ∀ k v, hit k = some v → r = .returned v := by
  constructor
  · intro h
    by_cases hmiss : ∃ k, hit k = none
    · obtain ⟨k, hk⟩ := hmiss
      right
      cases ask with
      | none =>
        have := h k k true false
        simp [pick, hk] at this
      | some r =>
        refine ⟨r, rfl, fun k' v hv => ?_⟩
        simpa [pick, hk, hv] using h k k' true true
    · left
      have hsome : ∀ k, ∃ v, hit k = some v := fun k =>
        Option.ne_none_iff_exists'.1 fun hk => hmiss ⟨k, hk⟩
      obtain ⟨k₀⟩ := ‹Nonempty K›
      obtain ⟨v, hv⟩ := hsome k₀
      refine ⟨v, fun k => ?_⟩
      obtain ⟨v', hv'⟩ := hsome k
      have he := h k₀ k true true
      simp only [pick, hv, hv', SqlResult.returned.injEq] at he
      rw [hv', he]
  · rintro (⟨v, hv⟩ | ⟨r, rfl, hr⟩)
    · intro k k' a a'
      rw [hv k, hv k']; rfl
    · have hone : ∀ k a, pick (hit k) (some r) a = r := by
        intro k a
        cases hk : hit k with
        | none => rfl
        | some v => exact (hr k v hk).symm
      intro k k' a a'
      rw [hone, hone]

/-- An ERROR ends the call before it has a response. -/
def NoResponse (c : CheckCall T) (args : TupleArgsView) : Prop :=
  c.slotFree = false ∨ (∃ e, (SqlCall.check args).request c.config c.requestId = .error e) ∨
    ∃ e, c.exec = .error e

/-- The outcome of the RPC is OK and says `b`. -/
def Answers (c : CheckCall T) (args : TupleArgsView) (b : Bool) : Prop :=
  c.slotFree = true ∧ ∃ request path o, (SqlCall.check args).request c.config c.requestId = .ok request ∧
    c.exec = .returned path o ∧ o.answer path request = some b

theorem askEnd_error_iff {c : CheckCall T} {args : TupleArgsView} :
    (∃ e, AskEnd c args = some (.error e)) ↔ NoResponse c args := by
  unfold AskEnd NoResponse
  cases c.slotFree with
  | false => simp
  | true =>
    rcases (SqlCall.check args).request c.config c.requestId with e | request
    · simp
    · rcases c.exec with e | ⟨path, o⟩ <;> simp

theorem askEnd_returned_iff {c : CheckCall T} {args : TupleArgsView} {b : Bool} :
    AskEnd c args = some (.returned b) ↔ Answers c args b := by
  unfold AskEnd Answers
  cases c.slotFree with
  | false => simp
  | true =>
    rcases (SqlCall.check args).request c.config c.requestId with e | request
    · simp
    · rcases c.exec with e | ⟨path, o⟩
      · simp
      · simp only [Bool.not_true, Bool.false_eq_true, if_false, Option.map_eq_some_iff,
          SqlResult.returned.injEq, exists_eq_right, true_and, Except.ok.injEq, ExecEnd.returned.injEq]
        constructor
        · intro h; exact ⟨request, path, o, rfl, ⟨rfl, rfl⟩, h⟩
        · rintro ⟨_, _, _, rfl, ⟨rfl, rfl⟩, h⟩; exact h

theorem askEnd_ne_undefined (c : CheckCall T) (args : TupleArgsView) :
    AskEnd c args ≠ some .undefined := by
  unfold AskEnd
  split
  · simp
  · split <;> simp

/-- A response that is not OK is there exactly when the part after a miss depends on `allowed`. -/
theorem askEnd_of_responds {c : CheckCall T} {args : TupleArgsView} {key₀ : FgaAclCacheKey}
    {res : FgaResponse} (h : readTupleArgs c.args = .ok args) (hr : Responds H X c key₀ res) :
    (AskEnd c args).isSome = true ↔ res.status = .ok := by
  obtain ⟨args', request, path, o, h', -, -, hfree, hreq, hexec, rfl⟩ := hr
  rw [h] at h'; cases h'
  simp only [AskEnd, hfree, hreq, hexec, Bool.not_true, Bool.false_eq_true, if_false]
  rcases checkResponse_verdict path o (checkPayload request) with ⟨hs, ha⟩ | ⟨hs, ha⟩
  · simp only [checkPayload] at ha hs ⊢
    simp [hs, ha]
  · simp only [checkPayload] at ha hs ⊢
    simp [hs, ha]

/-- An answer after a miss that does not depend on `allowed` is an OK response's. -/
theorem responds_of_askEnd {c : CheckCall T} {args : TupleArgsView} {key₀ : FgaAclCacheKey} {v : Bool}
    (h : readTupleArgs c.args = .ok args) (hfit : (questionOf c.config args).Fits)
    (hmiss : hitOver H X c args key₀ = none) (ha : AskEnd c args = some (.returned v)) :
    ∃ res, Responds H X c key₀ res ∧ res.status = .ok ∧ res.allow = v := by
  unfold AskEnd at ha
  split at ha
  · cases ha
  · rename_i hfree
    rcases hreq : (SqlCall.check args).request c.config c.requestId with e | request
    · rw [hreq] at ha; cases ha
    · rcases hexec : c.exec with e | ⟨path, o⟩
      · rw [hreq, hexec] at ha; cases ha
      · rw [hreq, hexec] at ha
        obtain ⟨v', hv', he⟩ := Option.map_eq_some_iff.1 ha
        cases he
        refine ⟨_, ⟨args, request, path, o, h, hfit, hmiss, by simpa using hfree, hreq, hexec, rfl⟩, ?_⟩
        rcases checkResponse_verdict path o (checkPayload request) with ⟨hs, hans⟩ | ⟨-, hans⟩
        · simp only [checkPayload] at hans hs ⊢
          rw [hv'] at hans
          exact ⟨hs, (Option.some.inj hans).symm⟩
        · simp only [checkPayload] at hans
          rw [hv'] at hans; cases hans

/-- Refused arguments end the call before any of it. -/
theorem failsClosed_of_error {c : CheckCall T} {e : SqlError} (hargs : readTupleArgs c.args = .error e) :
    FailsClosed H X c := by
  have hrun := fgaCheck_of_error (H := H) (X := X) hargs
  refine ⟨fun k a => ?_, fun k k' a a' => ?_, fun k a h => ?_, fun k a res hr => ?_⟩
  · rw [hrun]; simp
  · rw [hrun, hrun]
  · rw [hrun] at h; cases h
  · obtain ⟨args, request, path, o, h, -⟩ := hr
    rw [hargs] at h; cases h

/-- When the answer does not depend on the leftovers it is as it should be. -/
theorem failsClosed_of_determined {c : CheckCall T} {args : TupleArgsView}
    (hargs : readTupleArgs c.args = .ok args) (hfit : (questionOf c.config args).Fits)
    (h : ∀ k k' a a', pick (hitOver H X c args k) (AskEnd c args) a =
      pick (hitOver H X c args k') (AskEnd c args) a') : FailsClosed H X c := by
  have hrun := fgaCheck_eq_pick (H := H) (X := X) hargs hfit
  have hor := (pick_determined_iff (hitOver H X c args) (AskEnd c args)).1 h
  refine ⟨fun k a hu => ?_, fun k k' a a' => ?_, fun k a ht => ?_, fun k a res hres hne => ?_⟩
  · rw [hrun] at hu
    unfold pick at hu
    split at hu
    · cases hu
    · rcases hask : AskEnd c args with _ | r
      · rw [hask] at hu; cases hu
      · rw [hask] at hu
        exact askEnd_ne_undefined c args (hask.trans (congrArg some hu))
  · rw [hrun, hrun]; exact h k k' a a'
  · rw [hrun] at ht
    cases hc : hitOver H X c args k with
    | some v =>
      rw [hc] at ht
      cases ht
      exact Or.inl ⟨args, hargs, hc⟩
    | none =>
      rcases hor with ⟨v, hv⟩ | ⟨r, hask, -⟩
      · rw [hv k] at hc; cases hc
      · rw [hc, hask] at ht
        exact Or.inr (responds_of_askEnd hargs hfit hc (hask.trans (congrArg some ht)))
  · obtain ⟨args', -, -, -, h', -, hmiss, -⟩ := id hres
    rw [hargs] at h'; cases h'
    rcases hor with ⟨v, hv⟩ | ⟨r, hask, -⟩
    · rw [hv k] at hmiss; cases hmiss
    · exact absurd ((askEnd_of_responds hargs hres).1 (by rw [hask]; rfl)) hne

/-- **`fga_check` fails closed exactly when** its arguments are refused, or the question fits in the
key buffer and, whatever the leftover bytes of the key are, the cache hits with one and the same
value, or misses and an ERROR ends the call before there is a response, or the outcome of the RPC is
OK and the cache, wherever it hits, says the same. -/
theorem failsClosed_iff (c : CheckCall T) : FailsClosed H X c ↔
    ∀ args, readTupleArgs c.args = .ok args → (questionOf c.config args).Fits ∧
      ((∃ v, ∀ key₀, hitOver H X c args key₀ = some v) ∨
        (NoResponse c args ∧ ∀ key₀, hitOver H X c args key₀ = none) ∨
        ∃ b, Answers c args b ∧ ∀ key₀ v, hitOver H X c args key₀ = some v → v = b) := by
  have split : ∀ args, (∃ r, AskEnd c args = some r ∧
      ∀ key₀ v, hitOver H X c args key₀ = some v → r = .returned v) ↔
      (NoResponse c args ∧ ∀ key₀, hitOver H X c args key₀ = none) ∨
        ∃ b, Answers c args b ∧ ∀ key₀ v, hitOver H X c args key₀ = some v → v = b := by
    intro args
    rw [← askEnd_error_iff]
    simp only [← askEnd_returned_iff]
    constructor
    · rintro ⟨r, hask, hr⟩
      cases r with
      | returned b => exact Or.inr ⟨b, hask, fun k v hv => (SqlResult.returned.inj (hr k v hv)).symm⟩
      | error e =>
        refine Or.inl ⟨⟨e, hask⟩, fun k => Option.eq_none_iff_forall_ne_some.2 fun v hv => ?_⟩
        cases hr k v hv
      | undefined => exact absurd hask (askEnd_ne_undefined c args)
    · rintro (⟨⟨e, hask⟩, hr⟩ | ⟨b, hask, hr⟩)
      · exact ⟨_, hask, fun k v hv => by rw [hr k] at hv; cases hv⟩
      · exact ⟨_, hask, fun k v hv => by rw [hr k v hv]⟩
  cases hargs : readTupleArgs c.args with
  | error e => exact iff_of_true (failsClosed_of_error hargs) fun args h => by cases h
  | ok args =>
    have hone := pick_determined_iff (hitOver H X c args) (AskEnd c args)
    rw [split args] at hone
    constructor
    · intro h args' he
      cases he
      have hfit : (questionOf c.config args).Fits := by
        by_contra hnf
        refine h.defined ⟨0, 0, 0, 0, 0⟩ false ?_
        simp [fgaCheck, hargs, fgaCacheKey, hnf]
      refine ⟨hfit, hone.1 fun k k' a a' => ?_⟩
      rw [← fgaCheck_eq_pick hargs hfit, ← fgaCheck_eq_pick hargs hfit]
      exact h.determined k k' a a'
    · intro h
      obtain ⟨hfit, hor⟩ := h args rfl
      exact failsClosed_of_determined hargs hfit (hone.2 hor)

/-- `fga_check('document', 'readme', 'user', 'alice', 'viewer')` over an empty cache, with the server
out of reach. -/
def unreachable : CheckCall (HashTable.Ref FgaAclCacheKey Nat) where
  args := ⟨some (.lit "document"), some (.lit "readme"), some (.lit "user"), some (.lit "alice"),
    some (.lit "viewer")⟩
  config := ⟨some (.lit "s"), some (.lit "m")⟩
  cacheConfig := ⟨true, 60000⟩
  nowMs := 0
  l1 := l1Startup
  l2 := l2Startup refIndex (fgaCacheShmemInit 2 zeroedMem)
  slotFree := true
  requestId := 1
  exec := .returned .single ⟨.error (.lit "failed to connect to all addresses"), false, fun _ => none,
    .empty, .empty⟩

/-- **The server is out of reach and the answer is whatever the stack held**: granted over a 1,
refused over a 0. -/
theorem fgaCheck_unreachable :
    fgaCheck refIndex aliceXXH3 unreachable ⟨0, 0, 0, 0, 0⟩ true = .returned true ∧
      fgaCheck refIndex aliceXXH3 unreachable ⟨0, 0, 0, 0, 0⟩ false = .returned false ∧
      ¬ FailsClosed refIndex aliceXXH3 unreachable := by
  have h1 : fgaCheck refIndex aliceXXH3 unreachable ⟨0, 0, 0, 0, 0⟩ true = .returned true := by
    decide +kernel
  have h0 : fgaCheck refIndex aliceXXH3 unreachable ⟨0, 0, 0, 0, 0⟩ false = .returned false := by
    decide +kernel
  refine ⟨h1, h0, fun h => ?_⟩
  have := h.determined ⟨0, 0, 0, 0, 0⟩ ⟨0, 0, 0, 0, 0⟩ true false
  rw [h1, h0] at this
  cases this

end

end PostFga
