import AsyncCpp.Lib.Paging

/-!
# `Lambda.ListTables` — the lambda that lists the tables

The handler that `test_aws_lambda.cpp` and `test.cpp` pass to `run_handler`, against a DynamoDB that gives its
tables out in pages and whose calls may fail. The handler asks for one page of at most 50 names and reports it as
`all_tables`; it never looks at the last evaluated name. So what it reports is complete exactly when there are no
more than 50 tables, or when this one call fails (`complete_iff`).

## Contents
- `DynamoDB`, `ListTables`: the service. `Json`, `Response`, `handler`.
- `Listed`, `NeededFailure`, `Complete`; `complete_iff`.
-/

namespace AsyncCpp.Lambda

open Paging

/-! ## The service -/

/-- The error of an outcome that is no success. -/
structure AwsError where
  message : String
deriving DecidableEq

structure ListTablesRequest where
  limit                   : Nat := 100
  exclusiveStartTableName : Option String := none

def ListTablesRequest.SetLimit (request : ListTablesRequest) (limit : Nat) : ListTablesRequest :=
  { request with limit }

/-- `GetTableNames()` and `GetLastEvaluatedTableName()`. -/
abbrev ListTablesResult := Page String

structure DynamoDB where
  /-- The tables, in the order in which they are listed. -/
  tables : List String
  nodup  : tables.Nodup
  /-- What is wrong with the `n`-th call, if it fails. -/
  fails  : Nat → Option AwsError

def DynamoDB.ListTables (db : DynamoDB) (n : Nat) (request : ListTablesRequest) : Except AwsError ListTablesResult :=
  match db.fails n with
  | some error => .error error
  | none       => .ok (page db.tables request.limit request.exclusiveStartTableName)

/-! ## The handler -/

/-- `nlohmann::json`, as far as the handler builds it. -/
inductive Json
  | null
  | number (n : Nat)
  | string (s : String)
  | array (xs : List Json)
  | object (fields : List (String × Json))

namespace Json

/-- The value of a field, `null` if it is missing. -/
def get (j : Json) (key : String) : Json :=
  match j with
  | .object fields => ((fields.find? fun f => f.1 == key).map Prod.snd).getD .null
  | _ => .null

/-- `j[key] = value`, on an object or on `null`. -/
def set (j : Json) (key : String) (value : Json) : Json :=
  match j with
  | .object fields => .object (fields.filter (fun f => f.1 != key) ++ [(key, value)])
  | _ => .object [(key, value)]

/-- `j[outer][key] = value` -/
def setIn (j : Json) (outer key : String) (value : Json) : Json := j.set outer ((j.get outer).set key value)

end Json

/-- `aws::lambda_runtime::invocation_response`; its payload is the dump of a document. -/
inductive Response
  | success (payload : Json) (content_type : String)
  | failure (payload : Json) (error_type : String)

/-- The lambda that `run_handler` gets. -/
def handler (db : DynamoDB) : Response :=
  let list_tables_request := ListTablesRequest.SetLimit {} 50
  let j := Json.null
  match db.ListTables 0 list_tables_request with
  | .error error => .failure (j.set "statusCode" (.number 500)) error.message
  | .ok result =>
      let all_tables := result.items
      let j := j.set "statusCode" (.number 200)
      let j := j.setIn "body" "list_tables" (.array (all_tables.map .string))
      let j := j.setIn "body" "text" (.string "cpp's list api")
      .success j "application/json"

/-! ## What it should do -/

/-- These are the names under `body.list_tables`. -/
def Listed (payload : Json) (names : List String) : Prop :=
  (payload.get "body").get "list_tables" = .array (names.map .string)

/-- A client that follows the last evaluated names until there are no more. -/
def listAll (db : DynamoDB) (limit : Nat) : Except AwsError (List String) :=
  collect (fun n start => db.ListTables n { limit, exclusiveStartTableName := start }) (db.tables.length + 1) 0 none

/-- Some call fails that is needed for the whole list. -/
def NeededFailure (db : DynamoDB) (limit : Nat) : Prop := ∃ error, listAll db limit = .error error

/-- **A complete answer**: a success lists every table exactly once and nothing else, and when a needed call fails
    there is a failure and no list. -/
structure Complete (db : DynamoDB) (r : Response) : Prop where
  success : ∀ payload content_type, r = .success payload content_type →
              ∃ names, Listed payload names ∧ ∀ x, names.count x = if x ∈ db.tables then 1 else 0
  failure : NeededFailure db 50 →
              ∃ payload error_type, r = .failure payload error_type ∧ ∀ names, ¬ Listed payload names

/-- The client that follows gets all tables, when no call fails that it needs. -/
theorem listAll_ok (db : DynamoDB) {limit : Nat} (hlimit : 0 < limit)
    (h : ∀ n, n = 0 ∨ limit * n < db.tables.length → db.fails n = none) : listAll db limit = .ok db.tables := by
  refine collect_ok db.nodup hlimit ?_ (Nat.lt_succ_self _)
  intro n start hn
  simp only [DynamoDB.ListTables, h n hn]

/-! ## What it does -/

theorem handler_error {db : DynamoDB} {error : AwsError} (h : db.fails 0 = some error) :
    handler db = .failure (.object [("statusCode", .number 500)]) error.message := by
  simp only [handler, DynamoDB.ListTables, h]
  rfl

/-- The document of a success, whatever the names are. -/
theorem handler_ok {db : DynamoDB} (h : db.fails 0 = none) :
    ∃ payload, handler db = .success payload "application/json" ∧ Listed payload (db.tables.take 50) := by
  simp only [handler, DynamoDB.ListTables, h]
  exact ⟨_, rfl, rfl⟩

/-- With more than 50 tables the page that is reported leaves one out. -/
theorem not_complete_of_more {db : DynamoDB} (hok : db.fails 0 = none) (hmore : 50 < db.tables.length) :
    ¬ Complete db (handler db) := by
  intro h
  obtain ⟨payload, hpayload, hlisted⟩ := handler_ok hok
  obtain ⟨names, hnames, hcount⟩ := h.success _ _ hpayload
  have hpage : names = db.tables.take 50 := by
    have heq : names.map Json.string = (db.tables.take 50).map Json.string := Json.array.inj (hnames.symm.trans hlisted)
    exact List.map_injective_iff.mpr (fun _ _ => Json.string.inj) heq
  have hlast := hcount db.tables[50]
  rw [hpage, if_pos (List.getElem_mem hmore)] at hlast
  -- the 51st name is not one of the first 50
  obtain ⟨i, hi, heq⟩ := List.getElem_of_mem (List.count_pos_iff.mp (hlast ▸ Nat.one_pos))
  rw [List.length_take] at hi
  rw [List.getElem_take] at heq
  have := (List.Nodup.getElem_inj_iff db.nodup).mp heq
  omega

theorem complete_of_error {db : DynamoDB} {error : AwsError} (h : db.fails 0 = some error) :
    Complete db (handler db) := by
  rw [handler_error h]
  refine ⟨?_, fun _ => ⟨_, _, rfl, ?_⟩⟩
  · intro _ _ hr
    cases hr
  · intro names hlisted
    cases hlisted

theorem complete_of_le {db : DynamoDB} (hok : db.fails 0 = none) (hle : db.tables.length ≤ 50) :
    Complete db (handler db) := by
  obtain ⟨payload, hpayload, hlisted⟩ := handler_ok hok
  rw [List.take_of_length_le hle] at hlisted
  rw [hpayload]
  refine ⟨?_, ?_⟩
  · intro _ _ hr
    cases hr
    exact ⟨db.tables, hlisted, fun x => db.nodup.count⟩
  · rintro ⟨error, hfail⟩
    have hall : listAll db 50 = .ok db.tables := listAll_ok db (by decide) fun n hn => by
      obtain rfl : n = 0 := by omega
      exact hok
    rw [hall] at hfail
    cases hfail

/-- **The handler lists all tables exactly if there are no more than 50**, or if its only call fails. For every list
    of tables and all failures. -/
theorem complete_iff (db : DynamoDB) :
    Complete db (handler db) ↔ db.tables.length ≤ 50 ∨ db.fails 0 ≠ none := by
  cases hfail : db.fails 0 with
  | none =>
      constructor
      · intro h
        by_contra hne
        exact not_complete_of_more hfail (by omega) h
      · rintro (hle | hne)
        · exact complete_of_le hfail hle
        · exact absurd rfl hne
  | some error => exact iff_of_true (complete_of_error hfail) (.inr (Option.some_ne_none error))

/-- 51 tables, `"ttt"`, `"tttt"` and so on, and a service that never fails. -/
def fiftyOne : DynamoDB where
  tables := (List.range 51).map fun n => String.ofList (List.replicate (n + 3) 't')
  nodup := by
    apply List.nodup_range.map
    intro m n heq
    have hlen := congrArg List.length (String.ofList_injective heq)
    simpa using hlen
  fails := fun _ => none

/-- **A truncated list is reported as a success.** -/
theorem not_complete_fiftyOne : ¬ Complete fiftyOne (handler fiftyOne) :=
  not_complete_of_more rfl (by decide)

end AsyncCpp.Lambda
