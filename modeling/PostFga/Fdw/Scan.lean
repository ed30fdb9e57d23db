import Mathlib.Data.List.Forall2
import PostFga.Cache.L2
import PostFga.Fdw.Options
/-
# Scans of the foreign tables (`fdw/plan.c`, `fdw/exec.c`, `fdw/handler.c`)

| here | there |
| --- | --- |
| `Cell`              | what a column of the slot holds: `(Datum)0`, and not NULL, or a value |
| `demoCells`         | the assignments to `values` (`exec.c:47`–`:119`), the first to column 0 |
| `assign`            | these assignments to a slot of `natts` columns; `none` is a write past its end |
| `fgaGetForeignRelSize` | `plan.c:12`, with the estimate of the rows; `restricted`: `baserestrictinfo` is not empty |
| `fgaIterateForeignScan` | `exec.c:24` |
| `ScanCall`, `fetches` | the calls of the executor between `BeginForeignScan` and `EndForeignScan`, and what they return |
| `importedTables`    | the three tables of `fgaImportForeignSchema` (`handler.c:48`; the copy at `schema.c:7` is not registered) |

A scan reads two rows that are part of the program.

* `scan_iff` — when a scan of a validated table returns them, and nothing but them.
* `import_scan_iff` — what the tables that `IMPORT FOREIGN SCHEMA` makes are, and when they can be scanned.
-/

namespace PostFga

inductive Cell where
  | zero
  | text (s : String)
  | bool (b : Bool)
  | timestamp (t : TimestampTz)
deriving DecidableEq, Repr

/-- The row that is number 0, or the other one. -/
def demoCells (first : Bool) (now : TimestampTz) : FgaFdwTableKind → List Cell
  | .unknown => []
  | .tuple => tupleCells first
  | .acl => tupleCells first ++ [.bool first, .timestamp now]
  | .store =>
    if first then [.text "store:1", .text "First Store", .timestamp now, .timestamp now]
    else [.text "store:2", .text "Second Store", .timestamp now, .timestamp now]
where
  tupleCells (first : Bool) : List Cell :=
    if first then [.text "doc", .text "doc:1", .text "user", .text "user:1", .text "viewer"]
    else [.text "doc", .text "doc:2", .text "user", .text "user:2", .text "viewer"]

def assign (natts : Nat) (cells : List Cell) : Option (List Cell) :=
  if cells.length ≤ natts then some (cells ++ List.replicate (natts - cells.length) .zero) else none

/-- The table in the message, and the number of columns that is asked for. -/
def FgaFdwTableKind.atLeast : FgaFdwTableKind → Option (String × Nat)
  | .unknown => none
  | .tuple => some ("postfga_tuple", 5)
  | .acl => some ("postfga_acl", 7)
  | .store => some ("postfga_store", 2)

structure FgaFdwExecState where
  opts : FgaFdwTableOptions
  row : Nat
deriving DecidableEq, Repr

/-- How a call ends; `undefined` is a write past the end of the slot. -/
inductive Fetch where
  | eof
  | row (values : List Cell)
  | error (e : FdwError)
  | undefined
deriving DecidableEq, Repr

def fgaGetForeignRelSize (opts : FgaFdwTableOptions) (restricted : Bool) : Except FdwError Nat :=
  match opts.kind with
  | .acl => if !restricted then .error .fullScan else .ok 10000
  | .tuple | .store => .ok 10000
  | .unknown => .ok 100

def fgaBeginForeignScan (opts : FgaFdwTableOptions) : FgaFdwExecState := ⟨opts, 0⟩

def fgaIterateForeignScan (natts : Nat) (now : TimestampTz) (e : FgaFdwExecState) : Fetch × FgaFdwExecState :=
  if e.row ≥ 2 then (.eof, e)
  else
    match e.opts.kind.atLeast with
    | none => (.error .unknownKind, e)
    | some (table, columns) =>
      if natts < columns then (.error (.tooFewColumns table columns), e)
      else
        match assign natts (demoCells (e.row == 0) now e.opts.kind) with
        | none => (.undefined, e)
        | some values => (.row values, { e with row := e.row + 1 })

def fgaReScanForeignScan (e : FgaFdwExecState) : FgaFdwExecState := { e with row := 0 }

inductive ScanCall where
  | iterate (now : TimestampTz)
  | rescan
deriving DecidableEq, Repr

/-- An ERROR and a write past the end are the last thing that is seen of a scan. -/
def fetches (natts : Nat) : FgaFdwExecState → List ScanCall → List Fetch
  | _, [] => []
  | e, .rescan :: calls => fetches natts (fgaReScanForeignScan e) calls
  | e, .iterate now :: calls =>
    match fgaIterateForeignScan natts now e with
    | (.error x, _) => [.error x]
    | (.undefined, _) => [.undefined]
    | (f, e) => f :: fetches natts e calls

/-! ## A cursor on two rows -/

/-- What the calls return on a table of the two rows, the next of which is number `row`. -/
def twoRows (kind : FgaFdwTableKind) : Nat → List ScanCall → List Fetch
  | _, [] => []
  | _, .rescan :: calls => twoRows kind 0 calls
  | row, .iterate now :: calls =>
    if row ≥ 2 then .eof :: twoRows kind row calls
    else .row (demoCells (row == 0) now kind) :: twoRows kind (row + 1) calls

def FgaFdwTableKind.columns (kind : FgaFdwTableKind) : Nat := (demoCells true 0 kind).length

theorem demoCells_length (first : Bool) (now : TimestampTz) (kind : FgaFdwTableKind) :
    (demoCells first now kind).length = kind.columns := by
  cases kind <;> cases first <;> rfl

theorem atLeast_le {kind : FgaFdwTableKind} {table : String} {columns : Nat} (h : kind.atLeast = some (table, columns)) :
    columns ≤ kind.columns := by
  cases kind <;> cases h <;> decide

/-- A slot that has the columns of its kind. -/
theorem iterate_columns {e : FgaFdwExecState} (hknown : e.opts.kind ≠ .unknown) (hrow : ¬ e.row ≥ 2) (now : TimestampTz) :
    fgaIterateForeignScan e.opts.kind.columns now e =
      (.row (demoCells (e.row == 0) now e.opts.kind), { e with row := e.row + 1 }) := by
  unfold fgaIterateForeignScan
  rw [if_neg hrow]
  have hassign : assign e.opts.kind.columns (demoCells (e.row == 0) now e.opts.kind) =
      some (demoCells (e.row == 0) now e.opts.kind) := by
    unfold assign
    rw [demoCells_length, if_pos (Nat.le_refl _), Nat.sub_self, List.replicate_zero, List.append_nil]
  cases hk : e.opts.kind.atLeast with
  | none => cases hkind : e.opts.kind <;> rw [hkind] at hk hknown <;> first | exact absurd rfl hknown | cases hk
  | some p =>
    obtain ⟨table, columns⟩ := p
    simp only [hassign]
    rw [if_neg (Nat.not_lt.2 (atLeast_le hk))]

theorem fetches_columns (calls : List ScanCall) (e : FgaFdwExecState) (hknown : e.opts.kind ≠ .unknown) :
    fetches e.opts.kind.columns e calls = twoRows e.opts.kind e.row calls := by
  induction calls generalizing e with
  | nil => rfl
  | cons call calls ih =>
    cases call with
    | rescan => exact ih (fgaReScanForeignScan e) hknown
    | iterate now =>
      rw [fetches, twoRows]
      by_cases hrow : e.row ≥ 2
      · have heof : fgaIterateForeignScan e.opts.kind.columns now e = (.eof, e) := if_pos hrow
        rw [heof, if_pos hrow]
        simp only
        rw [ih e hknown]
      · rw [iterate_columns hknown hrow, if_neg hrow]
        simp only
        rw [ih { e with row := e.row + 1 } hknown]

/-- The first call of a scan in which something else comes out. -/
theorem fetches_first {opts : FgaFdwTableOptions} {natts : Nat} (now : TimestampTz)
    (h : fetches natts (fgaBeginForeignScan opts) [.iterate now] = twoRows opts.kind 0 [.iterate now]) :
    natts = opts.kind.columns := by
  have hfirst : fetches natts (fgaBeginForeignScan opts) [.iterate now] = [.row (demoCells true now opts.kind)] := h
  have hiter : (fgaIterateForeignScan natts now (fgaBeginForeignScan opts)).1 = .row (demoCells true now opts.kind) := by
    rw [fetches] at hfirst
    split at hfirst
    · cases hfirst
    · cases hfirst
    · rename_i hres
      rw [hres]
      exact List.cons.inj hfirst |>.1
  unfold fgaIterateForeignScan at hiter
  rw [if_neg (by simp [fgaBeginForeignScan])] at hiter
  split at hiter
  · cases hiter
  · split at hiter
    · cases hiter
    · split at hiter
      · cases hiter
      · rename_i values hassign
        simp only [Fetch.row.injEq] at hiter
        have hcells : assign natts (demoCells true now opts.kind) = some values := hassign
        unfold assign at hcells
        split at hcells
        · rename_i hle
          have hlength := congrArg List.length ((Option.some.inj hcells).trans hiter)
          rw [List.length_append, List.length_replicate, demoCells_length] at hlength
          rw [demoCells_length] at hle
          omega
        · cases hcells

/-! ## What can be scanned -/

/-- The plan is made, and any calls of the executor see the two rows. -/
def Scannable (server table : List DefElem) (natts : Nat) (restricted : Bool) : Prop :=
  ∃ opts, fgaGetTableOptions server table = .ok opts ∧ (∃ rows, fgaGetForeignRelSize opts restricted = .ok rows) ∧
    ∀ calls, fetches natts (fgaBeginForeignScan opts) calls = twoRows opts.kind 0 calls

/-- What the validator leaves to the scan. -/
structure ScanGuard (server table : List DefElem) (kind : FgaFdwTableKind) (natts : Nat) (restricted : Bool) :
    Prop where
  endpoint : isBlank (valueOf endpointName server) = false
  store : kind = .store ∨ isBlank (valueIn server table storeIdName) = false
  condition : kind = .acl → restricted = true
  columns : natts = kind.columns

theorem fgaGetForeignRelSize_ok {opts : FgaFdwTableOptions} {restricted : Bool} :
    (∃ rows, fgaGetForeignRelSize opts restricted = .ok rows) ↔ (opts.kind = .acl → restricted = true) := by
  unfold fgaGetForeignRelSize
  cases opts.kind <;> cases restricted <;> simp

theorem scannable_iff {server table : List DefElem} {endpoint : CStr} {kind : FgaFdwTableKind}
    (h : Reads server table endpoint kind) (natts : Nat) (restricted : Bool) :
    Scannable server table natts restricted ↔ ScanGuard server table kind natts restricted := by
  have hblank : isBlank (valueOf endpointName server) = false ↔ endpoint.bytes ≠ [] := by simp [h.given, isBlank]
  constructor
  · rintro ⟨opts, hopts, hplan, hscan⟩
    rw [h.result] at hopts
    split at hopts
    · cases hopts
    · rename_i hendpoint
      split at hopts
      · cases hopts
      · rename_i hstore
        cases hopts
        refine ⟨hblank.2 hendpoint, ?_, fgaGetForeignRelSize_ok.1 hplan, fetches_first 0 (hscan [.iterate 0])⟩
        by_cases hkind : kind = .store
        · exact .inl hkind
        · exact .inr (Bool.eq_false_iff.2 fun hno => hstore ⟨hkind, hno⟩)
  · rintro ⟨hendpoint, hstore, hcondition, rfl⟩
    let opts : FgaFdwTableOptions :=
      ⟨kind, some endpoint, valueIn server table storeIdName, valueIn server table authModelIdName⟩
    have hopts : fgaGetTableOptions server table = .ok opts := by
      rw [h.result, if_neg (hblank.1 hendpoint), if_neg ?_]
      rintro ⟨hkind, hno⟩
      rcases hstore with hstore | hstore
      · exact hkind hstore
      · rw [hno] at hstore
        cases hstore
    exact ⟨opts, hopts, fgaGetForeignRelSize_ok.2 hcondition,
      fun calls => fetches_columns calls (fgaBeginForeignScan opts) h.known⟩

/-- **What the options, the columns and the query must be** for a scan to see the rows of the kind. -/
theorem scan_iff {server table : List DefElem} (hs : fgaFdwValidator server .foreignServer = .ok ())
    (ht : fgaFdwValidator table .foreignTable = .ok ()) (natts : Nat) (restricted : Bool) :
    ∃ kind, kind ≠ .unknown ∧ valueOf FGA_FDW_TABLE_KIND_NAME table = kind.name ∧
      (Scannable server table natts restricted ↔ ScanGuard server table kind natts restricted) := by
  obtain ⟨endpoint, kind, hreads⟩ := reads_of_validated hs ht
  exact ⟨kind, hreads.known, hreads.named, scannable_iff hreads natts restricted⟩

def endpointOnly : List DefElem := [⟨endpointName, some (.lit "dns:///openfga:8081")⟩]

/-- Two columns pass the check for stores, and four are written. -/
theorem scan_iff_two_columns :
    (∃ kind, kind ≠ .unknown ∧
      valueOf FGA_FDW_TABLE_KIND_NAME [⟨FGA_FDW_TABLE_KIND_NAME, some (.lit "store")⟩] = kind.name ∧
      (Scannable endpointOnly [⟨FGA_FDW_TABLE_KIND_NAME, some (.lit "store")⟩] 2 false ↔
        ScanGuard endpointOnly [⟨FGA_FDW_TABLE_KIND_NAME, some (.lit "store")⟩] kind 2 false)) ∧
    fetches 2 (fgaBeginForeignScan ⟨.store, none, none, none⟩) [.iterate 0, .iterate 0] = [.undefined] := by
  constructor
  · exact scan_iff (by decide +kernel) (by decide +kernel) 2 false
  · decide +kernel

/-! ## `IMPORT FOREIGN SCHEMA` -/

structure ImportedTable where
  name : String
  /-- Name and type; all are `NOT NULL`. -/
  columns : List (String × String)
  kind : String
deriving DecidableEq, Repr

def ImportedTable.command (quoteIdentifier : String → String) (localSchema serverName : String) (t : ImportedTable) :
    String :=
  "CREATE FOREIGN TABLE IF NOT EXISTS " ++ quoteIdentifier localSchema ++ "." ++ quoteIdentifier t.name ++ " (" ++
    ", ".intercalate (t.columns.map fun c => c.1 ++ " " ++ c.2 ++ " NOT NULL") ++
    " ) SERVER " ++ quoteIdentifier serverName ++ " OPTIONS (kind '" ++ t.kind ++ "');"

def tupleColumns : List (String × String) :=
  [("object_type", "text"), ("object_id", "text"), ("subject_type", "text"), ("subject_id", "text"),
    ("relation", "text")]

def importedTables : List ImportedTable :=
  [⟨"fga_acl", tupleColumns ++ [("allow", "bool"), ("evaluated_at", "timestamptz")], "acl"⟩,
    ⟨"fga_store", [("id", "text"), ("name", "text"), ("created_at", "timestamptz"), ("updated_at", "timestamptz")],
      "store"⟩,
    ⟨"fga_tuple", tupleColumns, "tuple"⟩]

def fgaImportForeignSchema (quoteIdentifier : String → String) (localSchema serverName : String) : List String :=
  importedTables.map (ImportedTable.command quoteIdentifier localSchema serverName)

/-- The options that the command of the table gives it. -/
def ImportedTable.options (t : ImportedTable) : List DefElem := [⟨FGA_FDW_TABLE_KIND_NAME, some (.lit t.kind)⟩]

/-- The kinds of the tables that are made, with the names of their options and their columns. -/
theorem importedTables_kind : ∀ t ∈ importedTables, fgaFdwValidator t.options .foreignTable = .ok () ∧
    ∃ kind : FgaFdwTableKind, kind ≠ .unknown ∧ kind.name = some (.lit t.kind) ∧ t.columns.length = kind.columns := by
  simp only [importedTables, List.mem_cons, List.not_mem_nil, or_false, forall_eq_or_imp, forall_eq]
  refine ⟨⟨?_, .acl, ?_⟩, ⟨?_, .store, ?_⟩, ⟨?_, .tuple, ?_⟩⟩ <;> decide +kernel

theorem name_inj {kind kind' : FgaFdwTableKind} (h : kind.name = kind'.name) : kind = kind' := by
  cases kind <;> cases kind' <;> first | rfl | exact absurd h (by decide +kernel)

/-- What a table that is imported from `server` is, and when it can be scanned. -/
structure Importable (server : List DefElem) (t : ImportedTable) (kind : FgaFdwTableKind) : Prop where
  accepted : fgaFdwValidator t.options .foreignTable = .ok ()
  known : kind ≠ .unknown
  named : valueOf FGA_FDW_TABLE_KIND_NAME t.options = kind.name
  columns : t.columns.length = kind.columns
  scannable_iff : ∀ restricted, Scannable server t.options t.columns.length restricted ↔
    isBlank (valueOf endpointName server) = false ∧
      (t.name = "fga_store" ∨ isBlank (valueOf storeIdName server) = false) ∧
        (t.name = "fga_acl" → restricted = true)

theorem importable {server : List DefElem} (hs : fgaFdwValidator server .foreignServer = .ok ()) {t : ImportedTable}
    (ht : t ∈ importedTables) : ∃ kind, Importable server t kind := by
  obtain ⟨hvalid, kind, hknown, hname, hcolumns⟩ := importedTables_kind t ht
  obtain ⟨endpoint, kind', hreads⟩ := reads_of_validated hs hvalid
  have hgiven : valueOf FGA_FDW_TABLE_KIND_NAME t.options = some (.lit t.kind) := by
    simp [ImportedTable.options, valueOf]
  obtain rfl : kind = kind' := name_inj (hname.trans (hgiven.symm.trans hreads.named))
  have hstore : valueIn server t.options storeIdName = valueOf storeIdName server := by
    have hne : FGA_FDW_TABLE_KIND_NAME ≠ storeIdName := by decide
    simp [valueIn, ImportedTable.options, valueOf, hne]
  have hkinds : (kind = .store ↔ t.name = "fga_store") ∧ (kind = .acl ↔ t.name = "fga_acl") := by
    simp only [importedTables, List.mem_cons, List.not_mem_nil, or_false] at ht
    rcases ht with rfl | rfl | rfl <;> cases kind <;> revert hname <;> decide +kernel
  refine ⟨kind, hvalid, hknown, hreads.named, hcolumns, fun restricted => ?_⟩
  rw [scannable_iff hreads]
  constructor
  · rintro ⟨h1, h2, h3, -⟩
    rw [hstore, hkinds.1] at h2
    rw [hkinds.2] at h3
    exact ⟨h1, h2, h3⟩
  · rintro ⟨h1, h2, h3⟩
    refine ⟨h1, ?_, ?_, hcolumns⟩
    · rw [hstore, hkinds.1]
      exact h2
    · rw [hkinds.2]
      exact h3

/-- **The tables that are imported**: each command makes a table that the validator accepts, with the columns
of its kind. A condition in the query of the ACLs, and the server's own store, are all that they need. -/
theorem import_scan_iff {server : List DefElem} (hs : fgaFdwValidator server .foreignServer = .ok ())
    (quoteIdentifier : String → String) (localSchema serverName : String) :
    List.Forall₂ (fun cmd t => cmd = t.command quoteIdentifier localSchema serverName ∧ ∃ kind, Importable server t kind)
      (fgaImportForeignSchema quoteIdentifier localSchema serverName) importedTables := by
  refine List.forall₂_map_left_iff.2 (List.forall₂_same.2 fun t ht => ?_)
  exact ⟨rfl, importable hs ht⟩

/-- A server without a store: its stores can be read, its tuples cannot. -/
theorem import_scan_iff_no_store :
    Scannable endpointOnly [⟨FGA_FDW_TABLE_KIND_NAME, some (.lit "store")⟩] 4 false ∧
      ¬ Scannable endpointOnly [⟨FGA_FDW_TABLE_KIND_NAME, some (.lit "tuple")⟩] 5 true := by
  have hvalid : fgaFdwValidator endpointOnly .foreignServer = .ok () := by decide +kernel
  obtain ⟨-, hrest⟩ := List.forall₂_cons.1 (import_scan_iff hvalid id "public" "openfga")
  obtain ⟨⟨-, _, hstore⟩, hrest⟩ := List.forall₂_cons.1 hrest
  obtain ⟨⟨-, _, htuple⟩, -⟩ := List.forall₂_cons.1 hrest
  constructor
  · refine (hstore.scannable_iff false).2 ⟨?_, ?_, ?_⟩ <;> decide +kernel
  · intro h
    have hno := ((htuple.scannable_iff true).1 h).2.1
    revert hno
    decide +kernel

end PostFga
