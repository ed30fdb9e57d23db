import PostFga.Lib.CString
/-
# The options of servers and foreign tables (`fdw/validator.c`, `fdw/options.c`)

`CREATE` and `ALTER` hand the options of an object to the validator; a scan reads those of the table and
of its server. The two were written apart: the reader takes a `kind` in any case and an `endpoint` of the
table, the validator accepts neither.

| here | there |
| --- | --- |
| `DefElem`         | an option as `untransformRelOptions` makes it; the value is missing if the text has no `=` |
| `defGetString`    | PostgreSQL's, of a value that is a string |
| `validateOptions` | what the three validators (`validator.c:23`, `:64`, `:87`) have in common |
| `FgaFdwTableOptions` | `fdw.h:29` |
| `pgStrcasecmp`    | PostgreSQL's being 0, for bytes below 128 |
| `fgaGetTableOptions` | `fga_get_table_options` (`options.c:29`) |

* `fgaFdwValidator_refused` — what the ERROR of a refusal says.
* `reads_of_validated` — what a scan reads of options that the validator has accepted.
-/

namespace PostFga

structure DefElem where
  defname : CStr
  arg : Option CStr
deriving DecidableEq, Repr

inductive FdwError where
  /-- `defGetString`'s. -/
  | requiresParameter (name : CStr)
  | invalidOption (name : CStr) (object hint : String)
  | requiredFor (name : CStr) (object hint : String)
  | invalidKind (val : CStr)
  | unexpectedCatalog (oid : UInt32)
  | required (name : CStr)
  /-- `plan.c:21`. -/
  | fullScan
  | tooFewColumns (table : String) (columns : Nat)
  | unknownKind
deriving DecidableEq, Repr

def FdwError.message : FdwError → Bytes
  | .requiresParameter name => name.bytes ++ (CStr.lit " requires a parameter").bytes
  | .invalidOption name object _ => text "invalid option \"" name ("\" for " ++ object)
  | .requiredFor name object _ => text "option \"" name ("\" is required for " ++ object)
  | .invalidKind val => text "invalid value for option \"kind\": \"" val "\""
  | .unexpectedCatalog oid => text "fga_fdw_validator: unexpected catalog OID " (.lit oid.toNat.repr) ""
  | .required name => text "option \"" name "\" is required"
  | .fullScan => text "full scan not allowed for fga_tuple" .empty ""
  | .tooFewColumns table columns => text table .empty (" must have at least " ++ columns.repr ++ " columns")
  | .unknownKind => text "postfga_fdw: unknown table kind" .empty ""
where
  text (before : String) (name : CStr) (after : String) : Bytes :=
    (CStr.lit before).bytes ++ name.bytes ++ (CStr.lit after).bytes

def FdwError.hint : FdwError → Option String
  | .invalidOption _ _ hint | .requiredFor _ _ hint => some hint
  | .invalidKind _ => some "Available values: acl, tuple, store"
  | .requiresParameter _ | .unexpectedCatalog _ | .required _ | .fullScan | .tooFewColumns .. | .unknownKind => none

def defGetString (o : DefElem) : Except FdwError CStr :=
  match o.arg with
  | some s => .ok s
  | none => .error (.requiresParameter o.defname)

abbrev endpointName : CStr := .lit "endpoint"
abbrev storeIdName : CStr := .lit "store_id"
abbrev authModelIdName : CStr := .lit "auth_model_id"
abbrev bearerTokenName : CStr := .lit "bearer_token"
abbrev FGA_FDW_TABLE_KIND_NAME : CStr := .lit "kind"
abbrev FGA_FDW_TABLE_KIND_ACL_NAME : CStr := .lit "acl"
abbrev FGA_FDW_TABLE_KIND_TUPLE_NAME : CStr := .lit "tuple"
abbrev FGA_FDW_TABLE_KIND_STORE_NAME : CStr := .lit "store"

/-! ## The validator -/

/-- An option with this name is valid, if its value is. -/
structure OptionRule where
  name : CStr
  check : CStr → Except FdwError Unit

/-- Any string. -/
def anyString (name : CStr) : OptionRule := ⟨name, fun _ => .ok ()⟩

def kindRule : OptionRule where
  name := FGA_FDW_TABLE_KIND_NAME
  check val :=
    if val ≠ FGA_FDW_TABLE_KIND_ACL_NAME ∧ val ≠ FGA_FDW_TABLE_KIND_STORE_NAME ∧ val ≠ FGA_FDW_TABLE_KIND_TUPLE_NAME
    then .error (.invalidKind val) else .ok ()

/-- What may be given to a kind of object. -/
structure OptionSet where
  object : String
  rules : List OptionRule
  hint : String
  /-- The option that must be there, with the hint for when it is not. -/
  required : Option (CStr × String)

def validateOption (set : OptionSet) (o : DefElem) : Except FdwError Unit :=
  match set.rules.find? fun r => r.name == o.defname with
  | none => .error (.invalidOption o.defname set.object set.hint)
  | some r =>
    match defGetString o with
    | .error e => .error e
    | .ok val => r.check val

/-- One option after the other; then the one that must be there. -/
def validateOptions (set : OptionSet) (seen : Bool) : List DefElem → Except FdwError Unit
  | [] =>
    match set.required with
    | some (name, hint) => if seen then .ok () else .error (.requiredFor name set.object hint)
    | none => .ok ()
  | o :: options =>
    match validateOption set o with
    | .error e => .error e
    | .ok () => validateOptions set (seen || set.required.any fun p => p.1 == o.defname) options

def serverOptions : OptionSet where
  object := "SERVER"
  rules := [anyString endpointName, anyString storeIdName, anyString authModelIdName]
  hint := "Valid options: endpoint, store_id, auth_model_id"
  required := some (endpointName, "Specify endpoint option.")

def userMappingOptions : OptionSet where
  object := "USER MAPPING"
  rules := [anyString bearerTokenName]
  hint := "Valid options: bearer_token"
  required := none

def tableOptions : OptionSet where
  object := "FOREIGN TABLE"
  rules := [kindRule, anyString storeIdName, anyString authModelIdName]
  hint := "Valid options: resource, store_id, auth_model_id"
  required := some (FGA_FDW_TABLE_KIND_NAME, "Specify kind option (acl, store, tuple).")

def fgaValidateServerOptions : List DefElem → Except FdwError Unit := validateOptions serverOptions false

def fgaValidateUserMappingOptions : List DefElem → Except FdwError Unit := validateOptions userMappingOptions false

def fgaValidateTableOptions : List DefElem → Except FdwError Unit := validateOptions tableOptions false

/-- The catalog an object is in. -/
inductive Catalog where
  | foreignServer | userMapping | foreignTable | foreignDataWrapper
  | other (oid : UInt32)
deriving DecidableEq, Repr

def fgaFdwValidator (options : List DefElem) : Catalog → Except FdwError Unit
  | .foreignServer => fgaValidateServerOptions options
  | .userMapping => fgaValidateUserMappingOptions options
  | .foreignTable => fgaValidateTableOptions options
  | .foreignDataWrapper => .ok ()
  | .other oid => .error (.unexpectedCatalog oid)

/-! ## What is refused -/

/-- Where a value is refused, the text names the option, and a hint says what is valid. -/
def OptionSet.Explains (set : OptionSet) : Prop :=
  ∀ r ∈ set.rules, ∀ val e, r.check val = .error e → r.name.bytes <:+: e.message ∧ e.hint.isSome = true

/-- Why the options are refused, and what the ERROR says of it. -/
inductive Refusal (set : OptionSet) (options : List DefElem) (e : FdwError) : Prop where
  | invalid (o : DefElem) (mem : o ∈ options) (refused : validateOption set o = .error e)
      (names : o.defname.bytes <:+: e.message) (hints : o.arg.isSome = true → e.hint.isSome = true)
  | missing (name : CStr) (hint : String) (required : set.required = some (name, hint))
      (absent : ∀ o ∈ options, o.defname ≠ name) (names : name.bytes <:+: e.message) (hints : e.hint = some hint)

theorem text_names (before : String) (name : CStr) (after : String) :
    name.bytes <:+: FdwError.message.text before name after := ⟨_, _, rfl⟩

theorem anyString_explains (name : CStr) {val : CStr} {e : FdwError} (h : (anyString name).check val = .error e) :
    (anyString name).name.bytes <:+: e.message ∧ e.hint.isSome = true := by cases h

theorem kindRule_explains {val : CStr} {e : FdwError} (h : kindRule.check val = .error e) :
    kindRule.name.bytes <:+: e.message ∧ e.hint.isSome = true := by
  simp only [kindRule] at h
  split at h
  · obtain rfl := Except.error.inj h
    -- the name is a part of the text before the value
    have hname : kindRule.name.bytes <:+: (CStr.lit "invalid value for option \"kind\": \"").bytes := by decide
    exact ⟨hname.trans ⟨[], val.bytes ++ (CStr.lit "\"").bytes, (List.append_assoc ..).symm⟩, rfl⟩
  · cases h

theorem explains : serverOptions.Explains ∧ userMappingOptions.Explains ∧ tableOptions.Explains := by
  refine ⟨?_, ?_, ?_⟩ <;> intro r hr val e h <;>
    simp only [serverOptions, userMappingOptions, tableOptions, List.mem_cons, List.not_mem_nil, or_false] at hr
  · rcases hr with rfl | rfl | rfl <;> exact anyString_explains _ h
  · subst hr
    exact anyString_explains _ h
  · rcases hr with rfl | rfl | rfl
    · exact kindRule_explains h
    · exact anyString_explains _ h
    · exact anyString_explains _ h

theorem validateOption_refused {set : OptionSet} (hset : set.Explains) {o : DefElem} {e : FdwError}
    (h : validateOption set o = .error e) :
    o.defname.bytes <:+: e.message ∧ (o.arg.isSome = true → e.hint.isSome = true) := by
  unfold validateOption at h
  split at h
  · obtain rfl := Except.error.inj h
    exact ⟨text_names .., fun _ => rfl⟩
  · rename_i r hr
    cases harg : o.arg with
    | none =>
      simp only [defGetString, harg] at h
      obtain rfl := Except.error.inj h
      exact ⟨⟨[], _, rfl⟩, fun hsome => by cases hsome⟩
    | some val =>
      simp only [defGetString, harg] at h
      obtain ⟨hnames, hhint⟩ := hset r (List.mem_of_find?_eq_some hr) val e h
      have hname : r.name = o.defname := by simpa using List.find?_some hr
      exact ⟨hname ▸ hnames, fun _ => hhint⟩

/-- Which ERROR ends the validation; `seen`: an option of the required name came before. -/
theorem validateOptions_error {set : OptionSet} {options : List DefElem} {seen : Bool} {e : FdwError}
    (h : validateOptions set seen options = .error e) : (∃ o ∈ options, validateOption set o = .error e) ∨
      ∃ name hint, set.required = some (name, hint) ∧ seen = false ∧ (∀ o ∈ options, o.defname ≠ name) ∧
        e = .requiredFor name set.object hint := by
  induction options generalizing seen with
  | nil =>
    rw [validateOptions] at h
    split at h
    · rename_i name hint hreq
      split at h
      · cases h
      · rename_i hseen
        exact .inr ⟨name, hint, hreq, Bool.eq_false_iff.2 hseen, fun o ho => (by cases ho), (Except.error.inj h).symm⟩
    · cases h
  | cons o options ih =>
    rw [validateOptions] at h
    cases hone : validateOption set o with
    | error e' =>
      simp only [hone] at h
      exact .inl ⟨o, List.mem_cons_self, hone.trans (congrArg _ (Except.error.inj h))⟩
    | ok u =>
      simp only [hone] at h
      rcases ih h with ⟨x, hx, hrefused⟩ | ⟨name, hint, hreq, hseen, habsent, he⟩
      · exact .inl ⟨x, List.mem_cons_of_mem o hx, hrefused⟩
      · -- nor is the first option the one that is missing
        simp only [hreq, Option.any_some, Bool.or_eq_false_iff, beq_eq_false_iff_ne, ne_eq] at hseen
        refine .inr ⟨name, hint, hreq, hseen.1, fun x hx => ?_, he⟩
        rcases List.mem_cons.1 hx with rfl | hx
        · exact Ne.symm hseen.2
        · exact habsent x hx

theorem validateOptions_refused {set : OptionSet} (hset : set.Explains) {options : List DefElem} {e : FdwError}
    (h : validateOptions set false options = .error e) : Refusal set options e := by
  rcases validateOptions_error h with ⟨o, ho, hrefused⟩ | ⟨name, hint, hreq, -, habsent, rfl⟩
  · obtain ⟨hnames, hhint⟩ := validateOption_refused hset hrefused
    exact .invalid o ho hrefused hnames hhint
  · exact .missing name hint hreq habsent (text_names ..) rfl

/-- **A refusal is explained**: the ERROR names an option that is given and not valid, or one that is missing. -/
theorem fgaFdwValidator_refused {options : List DefElem} {catalog : Catalog} {e : FdwError}
    (h : fgaFdwValidator options catalog = .error e) : (∃ oid, catalog = .other oid) ∨
      ∃ set ∈ [serverOptions, userMappingOptions, tableOptions], Refusal set options e := by
  obtain ⟨hserver, hmapping, htable⟩ := explains
  cases catalog with
  | foreignServer => exact .inr ⟨serverOptions, by simp, validateOptions_refused hserver h⟩
  | userMapping => exact .inr ⟨userMappingOptions, by simp, validateOptions_refused hmapping h⟩
  | foreignTable => exact .inr ⟨tableOptions, by simp, validateOptions_refused htable h⟩
  | foreignDataWrapper => cases h
  | other oid => exact .inl ⟨oid, rfl⟩

/-! ## The reader -/

inductive FgaFdwTableKind where
  | unknown | acl | tuple | store
deriving DecidableEq, Repr

structure FgaFdwTableOptions where
  kind : FgaFdwTableKind
  endpoint : Option CStr
  storeId : Option CStr
  authModelId : Option CStr
deriving DecidableEq, Repr

def isBlank (s : Option CStr) : Bool := s.all fun s => s.bytes == []

def toLower (c : UInt8) : UInt8 := if 65 ≤ c ∧ c ≤ 90 then c + 32 else c

def pgStrcasecmp (s t : CStr) : Bool := s.bytes.map toLower == t.bytes.map toLower

def parseTableKind (val : CStr) : FgaFdwTableKind :=
  if pgStrcasecmp val FGA_FDW_TABLE_KIND_ACL_NAME then .acl
  else if pgStrcasecmp val FGA_FDW_TABLE_KIND_TUPLE_NAME then .tuple
  else if pgStrcasecmp val FGA_FDW_TABLE_KIND_STORE_NAME then .store
  else .unknown

/-- One option; `ofTable`: in the second loop, which knows a `kind`. -/
def readOption (ofTable : Bool) (opts : FgaFdwTableOptions) (o : DefElem) : Except FdwError FgaFdwTableOptions :=
  if ofTable ∧ o.defname = FGA_FDW_TABLE_KIND_NAME then
    (defGetString o).map fun val => { opts with kind := parseTableKind val }
  else if o.defname = endpointName then (defGetString o).map fun val => { opts with endpoint := some val }
  else if o.defname = storeIdName then (defGetString o).map fun val => { opts with storeId := some val }
  else if o.defname = authModelIdName then (defGetString o).map fun val => { opts with authModelId := some val }
  else .ok opts

def readOptions (ofTable : Bool) (opts : FgaFdwTableOptions) : List DefElem → Except FdwError FgaFdwTableOptions
  | [] => .ok opts
  | o :: options =>
    match readOption ofTable opts o with
    | .error e => .error e
    | .ok opts => readOptions ofTable opts options

def checkOptions (opts : FgaFdwTableOptions) : Except FdwError FgaFdwTableOptions :=
  if opts.kind = .unknown then .error (.required FGA_FDW_TABLE_KIND_NAME)
  else if isBlank opts.endpoint then .error (.required endpointName)
  else if (opts.kind = .acl ∨ opts.kind = .tuple) ∧ isBlank opts.storeId then .error (.required storeIdName)
  else .ok opts

def fgaGetTableOptions (server table : List DefElem) : Except FdwError FgaFdwTableOptions :=
  match readOptions false ⟨.unknown, none, none, none⟩ server with
  | .error e => .error e
  | .ok opts =>
    match readOptions true opts table with
    | .error e => .error e
    | .ok opts => checkOptions opts

/-! ## What an option comes to -/

/-- The last value that is given. -/
def valueOf (name : CStr) : List DefElem → Option CStr
  | [] => none
  | o :: options => (valueOf name options).or (if o.defname = name then o.arg else none)

/-- The table's value, or its server's. -/
def valueIn (server table : List DefElem) (name : CStr) : Option CStr := (valueOf name table).or (valueOf name server)

theorem valueOf_mem {name s : CStr} {options : List DefElem} (h : valueOf name options = some s) :
    ⟨name, some s⟩ ∈ options := by
  induction options with
  | nil => cases h
  | cons o options ih =>
    unfold valueOf at h
    rcases Option.or_eq_some_iff.1 h with hlast | ⟨-, hfirst⟩
    · exact List.mem_cons_of_mem o (ih hlast)
    · obtain ⟨n, arg⟩ := o
      simp only at hfirst
      split at hfirst
      · rename_i hname
        rw [hname, hfirst]
        exact List.mem_cons_self
      · cases hfirst

theorem valueOf_none {name : CStr} {options : List DefElem} (h : ∀ o ∈ options, o.defname ≠ name) :
    valueOf name options = none := by
  cases hv : valueOf name options with
  | none => rfl
  | some s => exact absurd rfl (h _ (valueOf_mem hv))

/-- What one object adds to the options. -/
def FgaFdwTableOptions.over (opts : FgaFdwTableOptions) (ofTable : Bool) (options : List DefElem) :
    FgaFdwTableOptions where
  kind := if ofTable then ((valueOf FGA_FDW_TABLE_KIND_NAME options).map parseTableKind).getD opts.kind else opts.kind
  endpoint := (valueOf endpointName options).or opts.endpoint
  storeId := (valueOf storeIdName options).or opts.storeId
  authModelId := (valueOf authModelIdName options).or opts.authModelId

/-- One option with a value. -/
def FgaFdwTableOptions.put (opts : FgaFdwTableOptions) (ofTable : Bool) (name val : CStr) : FgaFdwTableOptions where
  kind := if ofTable ∧ name = FGA_FDW_TABLE_KIND_NAME then parseTableKind val else opts.kind
  endpoint := if name = endpointName then some val else opts.endpoint
  storeId := if name = storeIdName then some val else opts.storeId
  authModelId := if name = authModelIdName then some val else opts.authModelId

/-- The names of the options are different. -/
theorem names_nodup : [FGA_FDW_TABLE_KIND_NAME, endpointName, storeIdName, authModelIdName].Nodup := by decide

theorem readOption_eq (ofTable : Bool) (opts : FgaFdwTableOptions) {o : DefElem} {val : CStr} (hval : o.arg = some val) :
    readOption ofTable opts o = .ok (opts.put ofTable o.defname val) := by
  have hget : defGetString o = .ok val := by simp only [defGetString, hval]
  have hne := names_nodup
  simp only [List.nodup_cons, List.mem_cons, List.not_mem_nil, or_false, not_or] at hne
  obtain ⟨⟨hke, hks, hkm⟩, ⟨hes, hem⟩, hsm, -⟩ := hne
  unfold readOption FgaFdwTableOptions.put
  simp only [hget, Except.map]
  generalize o.defname = name
  by_cases hkind : name = FGA_FDW_TABLE_KIND_NAME
  · subst hkind
    rw [if_neg hke, if_neg hke, if_neg hks, if_neg hks, if_neg hkm, if_neg hkm]
    split <;> rfl
  · have hnk : ¬ (ofTable = true ∧ name = FGA_FDW_TABLE_KIND_NAME) := fun h => hkind h.2
    rw [if_neg hnk, if_neg hnk]
    by_cases hendpoint : name = endpointName
    · subst hendpoint
      rw [if_pos rfl, if_pos rfl, if_neg hes, if_neg hem]
    · rw [if_neg hendpoint, if_neg hendpoint]
      by_cases hstore : name = storeIdName
      · subst hstore
        rw [if_pos rfl, if_pos rfl, if_neg hsm]
      · rw [if_neg hstore, if_neg hstore]
        split <;> rfl

theorem or_put (a b : Option CStr) (c : Prop) [Decidable c] (val : CStr) :
    a.or (if c then some val else b) = (a.or (if c then some val else none)).or b := by
  split <;> cases a <;> rfl

/-- One option more, in front. -/
theorem over_put (opts : FgaFdwTableOptions) (ofTable : Bool) {o : DefElem} {val : CStr} (hval : o.arg = some val)
    (options : List DefElem) :
    (opts.put ofTable o.defname val).over ofTable options = opts.over ofTable (o :: options) := by
  have hvalue : ∀ name, valueOf name (o :: options) =
      (valueOf name options).or (if o.defname = name then some val else none) := by
    intro name
    rw [valueOf, hval]
  simp only [FgaFdwTableOptions.over, FgaFdwTableOptions.put, hvalue, FgaFdwTableOptions.mk.injEq]
  refine ⟨?_, or_put .., or_put .., or_put ..⟩
  cases ofTable with
  | false => simp
  | true =>
    by_cases hkind : o.defname = FGA_FDW_TABLE_KIND_NAME
    · cases valueOf FGA_FDW_TABLE_KIND_NAME options <;> simp [hkind]
    · simp [hkind]

/-- Where every option has a value, the reader takes the last ones. -/
theorem readOptions_eq (ofTable : Bool) (options : List DefElem) (opts : FgaFdwTableOptions)
    (h : ∀ o ∈ options, o.arg.isSome = true) :
    readOptions ofTable opts options = .ok (opts.over ofTable options) := by
  induction options generalizing opts with
  | nil => simp [readOptions, FgaFdwTableOptions.over, valueOf]
  | cons o options ih =>
    obtain ⟨val, hval⟩ := Option.isSome_iff_exists.1 (h o List.mem_cons_self)
    rw [readOptions, readOption_eq ofTable opts hval]
    simp only
    rw [ih _ fun x hx => h x (List.mem_cons_of_mem o hx), over_put opts ofTable hval]

/-! ## What the validator lets through -/

theorem validateOption_ok {set : OptionSet} {o : DefElem} :
    validateOption set o = .ok () ↔ ∃ r val, set.rules.find? (fun r => r.name == o.defname) = some r ∧
      o.arg = some val ∧ r.check val = .ok () := by
  unfold validateOption defGetString
  cases set.rules.find? fun r => r.name == o.defname with
  | none => simp
  | some r =>
    cases o.arg with
    | none => simp
    | some val => simp

theorem validateOptions_ok {set : OptionSet} {seen : Bool} {options : List DefElem} :
    validateOptions set seen options = .ok () ↔ (∀ o ∈ options, validateOption set o = .ok ()) ∧
      ∀ p, set.required = some p → seen = true ∨ ∃ o ∈ options, o.defname = p.1 := by
  induction options generalizing seen with
  | nil =>
    rw [validateOptions]
    cases set.required with
    | none => simp
    | some p => simp
  | cons o options ih =>
    rw [validateOptions]
    cases hone : validateOption set o with
    | error e => simp [hone]
    | ok u =>
      simp only [ih, List.mem_cons, forall_eq_or_imp, exists_eq_or_imp, hone, true_and, Bool.or_eq_true]
      refine and_congr_right fun _ => forall_congr' fun p => imp_congr_right fun hreq => ?_
      rw [hreq, Option.any_some, beq_iff_eq, or_assoc, eq_comm (a := p.1)]

/-- What is accepted has a value, and a name that a rule has. -/
theorem option_of_validated {set : OptionSet} {o : DefElem} (h : validateOption set o = .ok ()) :
    ∃ r ∈ set.rules, ∃ val, r.name = o.defname ∧ o.arg = some val ∧ r.check val = .ok () := by
  obtain ⟨r, val, hfind, hval, hcheck⟩ := validateOption_ok.1 h
  exact ⟨r, List.mem_of_find?_eq_some hfind, val, by simpa using List.find?_some hfind, hval, hcheck⟩

theorem valueOf_isSome {name : CStr} {options : List DefElem} (hval : ∀ o ∈ options, o.arg.isSome = true)
    (h : ∃ o ∈ options, o.defname = name) : (valueOf name options).isSome = true := by
  induction options with
  | nil =>
    obtain ⟨o, ho, -⟩ := h
    cases ho
  | cons o options ih =>
    rw [valueOf, Option.isSome_or, Bool.or_eq_true]
    obtain ⟨x, hx, hname⟩ := h
    rcases List.mem_cons.1 hx with rfl | hx
    · right
      rw [if_pos hname]
      exact hval x List.mem_cons_self
    · left
      exact ih (fun y hy => hval y (List.mem_cons_of_mem o hy)) ⟨x, hx, hname⟩

def FgaFdwTableKind.name : FgaFdwTableKind → Option CStr
  | .unknown => none
  | .acl => some FGA_FDW_TABLE_KIND_ACL_NAME
  | .tuple => some FGA_FDW_TABLE_KIND_TUPLE_NAME
  | .store => some FGA_FDW_TABLE_KIND_STORE_NAME

theorem kind_of_checked {val : CStr} (h : kindRule.check val = .ok ()) :
    parseTableKind val ≠ .unknown ∧ (parseTableKind val).name = some val := by
  have hcases : val = FGA_FDW_TABLE_KIND_ACL_NAME ∨ val = FGA_FDW_TABLE_KIND_STORE_NAME ∨
      val = FGA_FDW_TABLE_KIND_TUPLE_NAME := by
    simp only [kindRule] at h
    split at h
    · cases h
    · rename_i hne
      by_contra hno
      simp only [not_or] at hno
      exact hne hno
  rcases hcases with rfl | rfl | rfl <;> decide

/-- What a scan reads of validated options. -/
structure Reads (server table : List DefElem) (endpoint : CStr) (kind : FgaFdwTableKind) : Prop where
  given : valueOf endpointName server = some endpoint
  known : kind ≠ .unknown
  named : valueOf FGA_FDW_TABLE_KIND_NAME table = kind.name
  /-- An ERROR for an empty endpoint, and for a store id that is missing or empty; no other. -/
  result : fgaGetTableOptions server table =
    if endpoint.bytes = [] then .error (.required endpointName)
    else if kind ≠ .store ∧ isBlank (valueIn server table storeIdName) = true then .error (.required storeIdName)
    else .ok ⟨kind, some endpoint, valueIn server table storeIdName, valueIn server table authModelIdName⟩

theorem fgaGetTableOptions_eq {server table : List DefElem} (hs : ∀ o ∈ server, o.arg.isSome = true)
    (ht : ∀ o ∈ table, o.arg.isSome = true) : fgaGetTableOptions server table = checkOptions
      ⟨((valueOf FGA_FDW_TABLE_KIND_NAME table).map parseTableKind).getD .unknown, valueIn server table endpointName,
        valueIn server table storeIdName, valueIn server table authModelIdName⟩ := by
  unfold fgaGetTableOptions
  rw [readOptions_eq false server _ hs]
  simp only
  rw [readOptions_eq true table _ ht]
  simp [FgaFdwTableOptions.over, valueIn]

/-- **Accepted options are read as they are meant.** -/
theorem reads_of_validated {server table : List DefElem}
    (hs : fgaFdwValidator server .foreignServer = .ok ()) (ht : fgaFdwValidator table .foreignTable = .ok ()) :
    ∃ endpoint kind, Reads server table endpoint kind := by
  obtain ⟨hserver, hendpoint⟩ := validateOptions_ok.1 hs
  obtain ⟨htable, hkind⟩ := validateOptions_ok.1 ht
  have hsval : ∀ o ∈ server, o.arg.isSome = true := by
    intro o ho
    obtain ⟨-, -, val, -, hval, -⟩ := option_of_validated (hserver o ho)
    rw [hval]
    rfl
  have htval : ∀ o ∈ table, o.arg.isSome = true := by
    intro o ho
    obtain ⟨-, -, val, -, hval, -⟩ := option_of_validated (htable o ho)
    rw [hval]
    rfl
  obtain ⟨endpoint, he⟩ := Option.isSome_iff_exists.1
    (valueOf_isSome hsval ((hendpoint _ rfl).resolve_left (by simp)))
  obtain ⟨val, hval⟩ := Option.isSome_iff_exists.1
    (valueOf_isSome htval ((hkind _ rfl).resolve_left (by simp)))
  -- the table has no endpoint of its own
  have hnone : valueOf endpointName table = none := by
    refine valueOf_none fun o ho hname => ?_
    obtain ⟨r, hr, -, hrule, -⟩ := option_of_validated (htable o ho)
    rw [hname] at hrule
    simp only [tableOptions, List.mem_cons, List.not_mem_nil, or_false] at hr
    rcases hr with rfl | rfl | rfl <;> exact absurd hrule (by decide)
  obtain ⟨hparse, hname⟩ : parseTableKind val ≠ .unknown ∧ (parseTableKind val).name = some val := by
    obtain ⟨r, hr, val', hrule, hval', hcheck⟩ := option_of_validated (htable _ (valueOf_mem hval))
    obtain rfl : val = val' := Option.some.inj hval'
    replace hrule : r.name = FGA_FDW_TABLE_KIND_NAME := hrule
    simp only [tableOptions, List.mem_cons, List.not_mem_nil, or_false] at hr
    rcases hr with rfl | rfl | rfl
    · exact kind_of_checked hcheck
    · exact absurd hrule (by decide)
    · exact absurd hrule (by decide)
  refine ⟨endpoint, parseTableKind val, he, hparse, hval.trans hname.symm, ?_⟩
  rw [fgaGetTableOptions_eq hsval htval, hval]
  have hin : valueIn server table endpointName = some endpoint := by rw [valueIn, hnone, he]; rfl
  rw [hin]
  unfold checkOptions
  simp only [Option.map_some, Option.getD_some, isBlank, Option.all_some, beq_iff_eq]
  rw [if_neg hparse]
  refine if_congr Iff.rfl rfl (if_congr (and_congr_left fun _ => ?_) rfl rfl)
  cases hk : parseTableKind val with
  | unknown => exact absurd hk hparse
  | acl | tuple | store => simp

/-- A server with a store, and a table that names another. -/
example : fgaGetTableOptions
    [⟨endpointName, some (.lit "dns:///openfga:8081")⟩, ⟨storeIdName, some (.lit "s")⟩]
    [⟨FGA_FDW_TABLE_KIND_NAME, some (.lit "acl")⟩, ⟨storeIdName, some (.lit "t")⟩] =
      .ok ⟨.acl, some (.lit "dns:///openfga:8081"), some (.lit "t"), none⟩ := by decide +kernel

end PostFga
