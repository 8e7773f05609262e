import AsyncCpp.Lib.Resumable
import AsyncCpp.Mysql.Run

/-!
# `Mysql.Coroutine` — the coroutine of `test_boost_mysql.cpp` between its awaits

`Mysql.Run` reads the lambda in `main` as if every `co_await` had its result at once. Here it is the coroutine that it
is: at each `co_await` it is suspended, and it goes on with what `await_resume` gives. Where that is what the step
delivers, both come to the same (`task_run`).
-/

namespace AsyncCpp.MysqlProgram

open Mysql
open Resumable (Record run_bind le_run)

/-! ## The steps -/

/-- What the operation of a step delivers beside the error code, -/
abbrev Result : Step → Type
  | .resolve => Handle
  | .connect => Unit
  | .dropTable | .createTable => Handle
  | .prepareInsert | .prepareSelect => Handle
  | .executeInsert | .executeSelect => Handle
  | .readAll => List String

/-- and what `await_resume` gives. -/
abbrev Answer : Step → Type
  | .resolve => ErrorCode × Handle
  | .connect => ErrorCode
  | .dropTable | .createTable => ErrorCode × ErrorInfo × Handle
  | .prepareInsert | .prepareSelect => ErrorCode × ErrorInfo × Handle
  | .executeInsert | .executeSelect => ErrorCode × Handle
  | .readAll => ErrorCode × ErrorInfo × List String

instance (step : Step) : Inhabited (Result step) :=
  match step with
  | .resolve => inferInstanceAs (Inhabited Handle)
  | .connect => inferInstanceAs (Inhabited Unit)
  | .dropTable | .createTable => inferInstanceAs (Inhabited Handle)
  | .prepareInsert | .prepareSelect => inferInstanceAs (Inhabited Handle)
  | .executeInsert | .executeSelect => inferInstanceAs (Inhabited Handle)
  | .readAll => inferInstanceAs (Inhabited (List String))

/-- The awaiter in the coroutine of a step (`async_resolve`, `async_connect`, ..). -/
def awaiter : (step : Step) → Awaiter (Result step) (Answer step)
  | .resolve => ResolveAwaiter
  | .connect => ConnectAwaiter
  | .dropTable | .createTable => QueryAwaiter
  | .prepareInsert | .prepareSelect => PrepareStatementAwaiter
  | .executeInsert | .executeSelect => AsyncExecuteAwaiter
  | .readAll => ReadAllAwaiter

def delivered (o : Outcomes) : (step : Step) → Delivered (Result step)
  | .resolve       => o.resolve
  | .connect       => o.connect
  | .dropTable     => o.dropTable
  | .createTable   => o.createTable
  | .prepareInsert => o.prepareInsert
  | .executeInsert => o.executeInsert
  | .prepareSelect => o.prepareSelect
  | .executeSelect => o.executeSelect
  | .readAll       => o.readAll

def answer (o : Outcomes) (step : Step) : Answer step := (awaiter step).coAwait (delivered o step)

/-! ## The coroutine -/

/-- What it logs. -/
inductive Note
  | error (r : Report)
  | info (s : String)

/-- `folly::coro::Task` -/
abbrev Task := Resumable Answer Note Exit

def await (step : Step) : Task (Answer step) := .ask step .done

def error (r : Report) : Task Unit := .note (.error r) (.done ())

def info (s : String) : Task Unit := .note (.info s) (.done ())

/-- The first block. -/
def connect : Task Unit := do
  let (ec, _ep) ← await .resolve
  if ec.failed then
    error { format := "async_resolve: {}", ec := ec }
    .leave .co_return
  let ec_ ← await .connect
  if ec_.failed then
    error { format := "async_connect: {}", ec := ec_ }
    .leave .co_return

def createTable : Task Unit := do
  let _ ← await .dropTable
  let (ec, ei, _) ← await .createTable
  if ec.failed then
    error { format := "{}-{}", ec := ec, ei := ei }

def insert : Task Unit := do
  let (pre_insert_ec, pre_insert_ei, _stm) ← await .prepareInsert
  if pre_insert_ec.failed then
    error { format := "async_prepare_statement : {}-{}", ec := pre_insert_ec, ei := pre_insert_ei }
    .leave .co_return
  let (insert_ec, _) ← await .executeInsert
  if insert_ec.failed then
    error { format := "async_execute : {}", ec := insert_ec }
    .leave .co_return

/-- `complete` is what `result.complete()` says after `read_all`. -/
def select (complete : Bool) : Task Unit := do
  let (ec, ei, _stm) ← await .prepareSelect
  if ec.failed then
    error { format := "async_prepare_statement : {}-{}", ec := ec, ei := ei }
    .leave .co_return
  let (select_ec, _result) ← await .executeSelect
  if select_ec.failed then
    error { format := "async_execute : {}", ec := ec }
    .leave .co_return
  let (ec_, _ei_, rows) ← await .readAll
  if ec_.failed then
    error { format := "read_all : {}-{}", ec := ec_, ei := ei }
    .leave .co_return
  if !complete then
    error { format := "read result incomplete" }
    .leave (.exit 1)
  match rows with
  | [] => pure ()
  | row :: _ => info row

/-- The lambda in `main`. -/
def task (complete : Bool) : Task Unit := do
  connect
  createTable
  insert
  select complete

/-! ## The sequential reading -/

/-- The steps that were issued and what was logged. -/
def record : Record Step Note Trace where
  asked step t := t.issue step
  noted
    | .error r, t => t.error r
    | .info s, t  => t.log s

section blocks

variable (o : Outcomes) (t : Trace) {α : Type}

@[simp] theorem asked_eq (step : Step) : record.asked step t = t.issue step := rfl
@[simp] theorem noted_error (r : Report) : record.noted (.error r) t = t.error r := rfl
@[simp] theorem noted_info (s : String) : record.noted (.info s) t = t.log s := rfl

@[simp] theorem answer_eq :
    answer o .resolve = (o.resolve.ec, o.resolve.result) ∧ answer o .connect = o.connect.ec ∧
    answer o .dropTable = (o.dropTable.ec, o.dropTable.info, o.dropTable.result) ∧
    answer o .createTable = (o.createTable.ec, o.createTable.info, o.createTable.result) ∧
    answer o .prepareInsert = (o.prepareInsert.ec, o.prepareInsert.info, o.prepareInsert.result) ∧
    answer o .executeInsert = (o.executeInsert.ec, o.executeInsert.result) ∧
    answer o .prepareSelect = (o.prepareSelect.ec, o.prepareSelect.info, o.prepareSelect.result) ∧
    answer o .executeSelect = (o.executeSelect.ec, o.executeSelect.result) ∧
    answer o .readAll = (o.readAll.ec, o.readAll.info, o.readAll.result) :=
  ⟨rfl, rfl, rfl, rfl, rfl, rfl, rfl, rfl, rfl⟩

theorem connect_run : connect.run record (answer o) t = (Mysql.connect o).from t := by
  rw [connect_from]
  by_cases hr : o.resolve.ec.failed
  · simp [connect, await, error, hr]
  by_cases hc : o.connect.ec.failed <;> simp [connect, await, error, hr, hc]

theorem createTable_run : createTable.run record (answer o) t = (Mysql.createTable o).from t := by
  rw [createTable_from]
  by_cases hc : o.createTable.ec.failed <;> simp [createTable, await, error, tables, hc]

theorem insert_run : insert.run record (answer o) t = (Mysql.insert o).from t := by
  rw [insert_from]
  by_cases hp : o.prepareInsert.ec.failed
  · simp [insert, await, error, hp]
  by_cases he : o.executeInsert.ec.failed <;> simp [insert, await, error, hp, he]

theorem select_run : (select o.complete).run record (answer o) t = (Mysql.select o).from t := by
  rw [select_from]
  by_cases hp : o.prepareSelect.ec.failed
  · simp [select, await, error, hp]
  by_cases he : o.executeSelect.ec.failed
  · simp [select, await, error, hp, he]
  by_cases hr : o.readAll.ec.failed
  · simp [select, await, error, hp, he, hr]
  by_cases hc : o.complete
  · cases hrows : o.readAll.result <;> simp [select, await, error, info, hp, he, hr, hc, hrows]
  · simp [select, await, error, hp, he, hr, hc]

variable {o}

/-- What agrees piece by piece agrees in sequence. -/
theorem bind_run {β : Type} {c : Task β} {x : Coro β} {f : β → Task α} {g : β → Coro α}
    (hc : ∀ t, c.run record (answer o) t = x.from t) (hf : ∀ a t, (f a).run record (answer o) t = (g a).from t) :
    (c >>= f).run record (answer o) t = (x >>= g).from t := by
  rw [run_bind, from_bind, hc]
  cases x.from t with
  | mk end_ t' =>
    cases end_ with
    | ok a => exact hf a t'
    | error e => rfl

/-- **The coroutine, answered at each await with what the step delivers, is the sequential one.** -/
theorem task_run : (task o.complete).run record (answer o) t = (Mysql.task o).from t := by
  refine bind_run t (connect_run o) fun _ t => ?_
  refine bind_run t (createTable_run o) fun _ t => ?_
  exact bind_run t (insert_run o) fun _ t => select_run o t

end blocks

/-! ## The order of traces -/

/-- What was done and logged before. -/
instance : Preorder Trace where
  le t t' := t.issued <+: t'.issued ∧ t.errors <+: t'.errors ∧ t.info <+: t'.info
  le_refl _ := ⟨List.prefix_rfl, List.prefix_rfl, List.prefix_rfl⟩
  le_trans _ _ _ h h' := ⟨h.1.trans h'.1, h.2.1.trans h'.2.1, h.2.2.trans h'.2.2⟩

theorem record_grows (o : Outcomes) {α : Type} (c : Task α) (t : Trace) : t ≤ (c.run record (answer o) t).2 := by
  apply le_run
  · intro step t
    exact ⟨List.prefix_append _ _, List.prefix_rfl, List.prefix_rfl⟩
  · intro n t
    cases n with
    | error r => exact ⟨List.prefix_rfl, List.prefix_append _ _, List.prefix_rfl⟩
    | info s => exact ⟨List.prefix_rfl, List.prefix_rfl, List.prefix_append _ _⟩

end AsyncCpp.MysqlProgram
