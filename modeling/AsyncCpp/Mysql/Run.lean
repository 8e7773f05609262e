import Mathlib.Data.List.Basic
import Mathlib.Tactic.SplitIfs

/-!
# `Mysql.Run` — the coroutine of `test_boost_mysql.cpp` and the errors of its steps

The awaiters over `boost::mysql`, the coroutine in `main` block by block, and `main` around it. What each of the
nine awaited steps delivers is in the `Outcomes`. A step that fails should end the coroutine and be logged with its
own error; `faithful_iff` says for which outcomes this is so.

## Assumption about boost
An operation writes its `error_info` into the object that it was given, and then calls its handler.

## Contents
- `Awaiter`, `coAwait`: what reaches `await_resume`. `Outcomes`.
- `Coro`, the blocks of the coroutine, `main`.
- What each block does (`connect_from` and so on).
- `firstFailure`, `Faithful`, `Harmless`, `faithful_iff`.
-/

namespace AsyncCpp.Mysql

/-- `boost::system::error_code`. A default-constructed one reports success. -/
structure ErrorCode where
  value : Nat := 0
deriving DecidableEq

/-- `explicit operator bool` -/
def ErrorCode.failed (ec : ErrorCode) : Bool := ec.value != 0

/-- `boost::mysql::error_info` -/
structure ErrorInfo where
  message : String := ""
deriving DecidableEq

/-- An object of `boost::mysql` or of the resolver, by number. -/
structure Handle where
  id : Nat := 0
deriving DecidableEq, Inhabited

/-! ## The awaiters -/

/-- What an operation delivers. -/
structure Delivered (α : Type) where
  ec     : ErrorCode
  info   : ErrorInfo
  result : α

variable {α ρ : Type}

/-- The members of an awaiter that its operation fills. -/
structure Members (α : Type) where
  m_ec              : ErrorCode := {}
  m_additional_info : ErrorInfo := {}
  m_result          : α

/-- An awaiter class: its completion handler up to `handle.resume()`, and `await_resume`. -/
structure Awaiter (α ρ : Type) where
  handler      : ErrorCode → α → Members α → Members α
  await_resume : Members α → ρ

/-- `m_ec = std::move(ec); m_result = std::move(result);` -/
def store (ec : ErrorCode) (result : α) (a : Members α) : Members α := { a with m_ec := ec, m_result := result }

def ConnectAwaiter : Awaiter Unit ErrorCode where
  handler ec _ a := { a with m_ec := ec }
  await_resume a := a.m_ec

def ResolveAwaiter : Awaiter Handle (ErrorCode × Handle) where
  handler := store
  await_resume a := (a.m_ec, a.m_result)

def QueryAwaiter : Awaiter Handle (ErrorCode × ErrorInfo × Handle) where
  handler := store
  await_resume a := (a.m_ec, a.m_additional_info, a.m_result)

/-- The rows are stored first. -/
def ReadAllAwaiter : Awaiter (List String) (ErrorCode × ErrorInfo × List String) where
  handler ec rows a := { { a with m_result := rows } with m_ec := ec }
  await_resume a := (a.m_ec, a.m_additional_info, a.m_result)

def PrepareStatementAwaiter : Awaiter Handle (ErrorCode × ErrorInfo × Handle) where
  handler := store
  await_resume a := (a.m_ec, a.m_additional_info, a.m_result)

/-- It has an `error_info`, but keeps it to itself. -/
def AsyncExecuteAwaiter : Awaiter Handle (ErrorCode × Handle) where
  handler := store
  await_resume a := (a.m_ec, a.m_result)

/-- `co_await` on a fresh awaiter whose operation delivers `d`. -/
def Awaiter.coAwait [Inhabited α] (A : Awaiter α ρ) (d : Delivered α) : ρ :=
  A.await_resume (A.handler d.ec d.result { m_additional_info := d.info, m_result := default })

/-- **Each awaiter gives what was delivered to it.** -/
@[simp] theorem coAwait_own :
    (∀ d, ConnectAwaiter.coAwait d = d.ec) ∧
    (∀ d, ResolveAwaiter.coAwait d = (d.ec, d.result)) ∧
    (∀ d, QueryAwaiter.coAwait d = (d.ec, d.info, d.result)) ∧
    (∀ d, ReadAllAwaiter.coAwait d = (d.ec, d.info, d.result)) ∧
    (∀ d, PrepareStatementAwaiter.coAwait d = (d.ec, d.info, d.result)) ∧
    (∀ d, AsyncExecuteAwaiter.coAwait d = (d.ec, d.result)) :=
  ⟨fun _ => rfl, fun _ => rfl, fun _ => rfl, fun _ => rfl, fun _ => rfl, fun _ => rfl⟩

/-! ## The coroutine -/

/-- The awaited steps. -/
inductive Step
  | resolve
  | connect
  | dropTable
  | createTable
  | prepareInsert
  | executeInsert
  | prepareSelect
  | executeSelect
  | readAll
deriving DecidableEq

/-- What the steps deliver, if they are reached. -/
structure Outcomes where
  resolve       : Delivered Handle
  connect       : Delivered Unit
  dropTable     : Delivered Handle
  createTable   : Delivered Handle
  prepareInsert : Delivered Handle
  executeInsert : Delivered Handle
  prepareSelect : Delivered Handle
  executeSelect : Delivered Handle
  readAll       : Delivered (List String)
  /-- `result.complete()` after `read_all`. -/
  complete      : Bool

/-- What is logged with `spdlog::error`. -/
structure Report where
  format : String
  ec     : Option ErrorCode := none
  ei     : Option ErrorInfo := none
deriving DecidableEq

/-- What the coroutine has done so far. -/
structure Trace where
  /-- The steps that were issued; ghost. -/
  issued : List Step := []
  errors : List Report := []
  /-- What is logged with `spdlog::info`. -/
  info   : List String := []
deriving DecidableEq

/-- How the coroutine is left before its end. -/
inductive Exit
  | co_return
  /-- `exit(status)`: the process is over. -/
  | exit (status : Nat)
deriving DecidableEq

abbrev Coro := ExceptT Exit (StateM Trace)

/-- A piece of the coroutine that is started with trace `t`. -/
def Coro.from (x : Coro α) (t : Trace) : Except Exit α × Trace := x.run.run t

def Trace.issue (t : Trace) (step : Step) : Trace := { t with issued := t.issued ++ [step] }

def Trace.error (t : Trace) (r : Report) : Trace := { t with errors := t.errors ++ [r] }

def Trace.log (t : Trace) (s : String) : Trace := { t with info := t.info ++ [s] }

/-- `co_await` on a step. -/
def await [Inhabited α] (step : Step) (A : Awaiter α ρ) (d : Delivered α) : Coro ρ := do
  modify (·.issue step)
  return A.coAwait d

def error (r : Report) : Coro Unit := modify (·.error r)

def info (s : String) : Coro Unit := modify (·.log s)

/-- The first block. -/
def connect (o : Outcomes) : Coro Unit := do
  let (ec, _ep) ← await .resolve ResolveAwaiter o.resolve
  if ec.failed then
    error { format := "async_resolve: {}", ec := ec }
    throw .co_return
  let ec_ ← await .connect ConnectAwaiter o.connect
  if ec_.failed then
    error { format := "async_connect: {}", ec := ec_ }
    throw .co_return

/-- The second block. The result of the first query is dropped, and the error of the second is logged only. -/
def createTable (o : Outcomes) : Coro Unit := do
  let _ ← await .dropTable QueryAwaiter o.dropTable
  let (ec, ei, _) ← await .createTable QueryAwaiter o.createTable
  if ec.failed then
    error { format := "{}-{}", ec := ec, ei := ei }

def insert (o : Outcomes) : Coro Unit := do
  let (pre_insert_ec, pre_insert_ei, _stm) ← await .prepareInsert PrepareStatementAwaiter o.prepareInsert
  if pre_insert_ec.failed then
    error { format := "async_prepare_statement : {}-{}", ec := pre_insert_ec, ei := pre_insert_ei }
    throw .co_return
  let (insert_ec, _) ← await .executeInsert AsyncExecuteAwaiter o.executeInsert
  if insert_ec.failed then
    error { format := "async_execute : {}", ec := insert_ec }
    throw .co_return

def select (o : Outcomes) : Coro Unit := do
  let (ec, ei, _stm) ← await .prepareSelect PrepareStatementAwaiter o.prepareSelect
  if ec.failed then
    error { format := "async_prepare_statement : {}-{}", ec := ec, ei := ei }
    throw .co_return
  let (select_ec, _result) ← await .executeSelect AsyncExecuteAwaiter o.executeSelect
  if select_ec.failed then
    -- `ec`, not `select_ec`
    error { format := "async_execute : {}", ec := ec }
    throw .co_return
  let (ec_, _ei_, rows) ← await .readAll ReadAllAwaiter o.readAll
  if ec_.failed then
    -- `ei`, not `ei_`
    error { format := "read_all : {}-{}", ec := ec_, ei := ei }
    throw .co_return
  if !o.complete then
    error { format := "read result incomplete" }
    throw (.exit 1)
  match rows with
  | [] => pure ()
  | row :: _ => info row

/-- The lambda in `main`. -/
def task (o : Outcomes) : Coro Unit := do
  connect o
  createTable o
  insert o
  select o

/-- How a run of the program ends. -/
structure Run where
  trace   : Trace
  /-- `ctx_pool.stop()` was called. -/
  stopped : Bool
  status  : Nat
deriving DecidableEq

/-- `ctx_pool.start(); blockingWait(..); ctx_pool.stop(); return 0;` -/
def main (o : Outcomes) : Run :=
  match (task o).from {} with
  | (.error (.exit status), trace) => { trace, stopped := false, status }
  | (_, trace) => { trace, stopped := true, status := 0 }

/-! ## What each block does -/

section blocks

variable {β : Type} (t : Trace)

@[simp] theorem issue_issued (s : Step) : (t.issue s).issued = t.issued ++ [s] := rfl
@[simp] theorem issue_errors (s : Step) : (t.issue s).errors = t.errors := rfl
@[simp] theorem error_issued (r : Report) : (t.error r).issued = t.issued := rfl
@[simp] theorem error_errors (r : Report) : (t.error r).errors = t.errors ++ [r] := rfl
@[simp] theorem log_issued (m : String) : (t.log m).issued = t.issued := rfl
@[simp] theorem log_errors (m : String) : (t.log m).errors = t.errors := rfl

@[simp] theorem from_await_bind [Inhabited α] (s : Step) (A : Awaiter α ρ) (d : Delivered α) (f : ρ → Coro β) :
    Coro.from (await s A d >>= f) t = (f (A.coAwait d)).from (t.issue s) := rfl

@[simp] theorem from_error_bind (r : Report) (f : Unit → Coro β) :
    Coro.from (error r >>= f) t = (f ()).from (t.error r) := rfl

@[simp] theorem from_error (r : Report) : Coro.from (error r) t = (.ok (), t.error r) := rfl

@[simp] theorem from_info (s : String) : Coro.from (info s) t = (.ok (), t.log s) := rfl

@[simp] theorem from_throw (e : Exit) : Coro.from (throw e : Coro α) t = (.error e, t) := rfl

@[simp] theorem from_throw_bind (e : Exit) (f : α → Coro β) :
    Coro.from ((throw e : Coro α) >>= f) t = (.error e, t) := rfl

@[simp] theorem from_pure (a : α) : Coro.from (pure a) t = (.ok a, t) := rfl

theorem from_bind (x : Coro α) (f : α → Coro β) :
    Coro.from (x >>= f) t = match x.from t with
      | (.ok a, t')    => (f a).from t'
      | (.error e, t') => (.error e, t') := by
  unfold Coro.from ExceptT.run StateT.run
  simp only [bind, ExceptT.bind, ExceptT.mk, ExceptT.bindCont, StateT.bind]
  cases x t with
  | mk end_ t' => cases end_ <;> rfl

variable (o : Outcomes)

theorem connect_from :
    (connect o).from t =
      if o.resolve.ec.failed then
        (.error .co_return, (t.issue .resolve).error { format := "async_resolve: {}", ec := o.resolve.ec })
      else if o.connect.ec.failed then
        (.error .co_return,
          ((t.issue .resolve).issue .connect).error { format := "async_connect: {}", ec := o.connect.ec })
      else (.ok (), (t.issue .resolve).issue .connect) := by
  by_cases hr : o.resolve.ec.failed
  · simp [connect, hr]
  by_cases hc : o.connect.ec.failed <;> simp [connect, hr, hc]

/-- The trace after the second block, -/
def tables : Trace :=
  if o.createTable.ec.failed then
    ((t.issue .dropTable).issue .createTable).error
      { format := "{}-{}", ec := o.createTable.ec, ei := o.createTable.info }
  else (t.issue .dropTable).issue .createTable

/-- which never ends the coroutine. -/
theorem createTable_from : (createTable o).from t = (.ok (), tables t o) := by
  by_cases hc : o.createTable.ec.failed <;> simp [createTable, tables, hc]

theorem insert_from :
    (insert o).from t =
      if o.prepareInsert.ec.failed then
        (.error .co_return, (t.issue .prepareInsert).error
          { format := "async_prepare_statement : {}-{}", ec := o.prepareInsert.ec, ei := o.prepareInsert.info })
      else if o.executeInsert.ec.failed then
        (.error .co_return, ((t.issue .prepareInsert).issue .executeInsert).error
          { format := "async_execute : {}", ec := o.executeInsert.ec })
      else (.ok (), (t.issue .prepareInsert).issue .executeInsert) := by
  by_cases hp : o.prepareInsert.ec.failed
  · simp [insert, hp]
  by_cases he : o.executeInsert.ec.failed <;> simp [insert, hp, he]

/-- The insert statement is prepared in any case. -/
theorem insert_issues : .prepareInsert ∈ ((insert o).from t).2.issued := by
  rw [insert_from]
  split_ifs <;> simp

theorem select_from :
    (select o).from t =
      if o.prepareSelect.ec.failed then
        (.error .co_return, (t.issue .prepareSelect).error
          { format := "async_prepare_statement : {}-{}", ec := o.prepareSelect.ec, ei := o.prepareSelect.info })
      else if o.executeSelect.ec.failed then
        (.error .co_return, ((t.issue .prepareSelect).issue .executeSelect).error
          { format := "async_execute : {}", ec := o.prepareSelect.ec })
      else if o.readAll.ec.failed then
        (.error .co_return, (((t.issue .prepareSelect).issue .executeSelect).issue .readAll).error
          { format := "read_all : {}-{}", ec := o.readAll.ec, ei := o.prepareSelect.info })
      else if o.complete then
        (.ok (), o.readAll.result.head?.elim (((t.issue .prepareSelect).issue .executeSelect).issue .readAll)
          (((t.issue .prepareSelect).issue .executeSelect).issue .readAll).log)
      else
        (.error (.exit 1), (((t.issue .prepareSelect).issue .executeSelect).issue .readAll).error
          { format := "read result incomplete" }) := by
  by_cases hp : o.prepareSelect.ec.failed
  · simp [select, hp]
  by_cases he : o.executeSelect.ec.failed
  · simp [select, hp, he]
  by_cases hr : o.readAll.ec.failed
  · simp [select, hp, he, hr]
  by_cases hc : o.complete
  · cases hrows : o.readAll.result <;> simp [select, hp, he, hr, hc, hrows]
  · simp [select, hp, he, hr, hc]

theorem select_keeps {s : Step} (h : s ∈ t.issued) : s ∈ ((select o).from t).2.issued := by
  rw [select_from]
  split_ifs <;> simp [h]
  cases o.readAll.result <;> simp [h]

/-- With a connection the coroutine reaches the third block. -/
theorem task_from_of_connected (hr : o.resolve.ec.failed = false) (hc : o.connect.ec.failed = false) :
    (task o).from t = (insert o >>= fun _ => select o).from (tables ((t.issue .resolve).issue .connect) o) := by
  have hconnect : (connect o).from t = (.ok (), (t.issue .resolve).issue .connect) := by
    rw [connect_from, if_neg (by simp [hr]), if_neg (by simp [hc])]
  simp only [task, from_bind, hconnect, createTable_from]

end blocks

/-! ## The first failure -/

/-- The steps in the order of the coroutine. -/
def Step.all : List Step :=
  [.resolve, .connect, .dropTable, .createTable, .prepareInsert, .executeInsert, .prepareSelect, .executeSelect,
    .readAll]

/-- What is delivered to the awaiter of a step: its error code and its `error_info`. -/
def Outcomes.delivered (o : Outcomes) : Step → ErrorCode × ErrorInfo
  | .resolve       => (o.resolve.ec, o.resolve.info)
  | .connect       => (o.connect.ec, o.connect.info)
  | .dropTable     => (o.dropTable.ec, o.dropTable.info)
  | .createTable   => (o.createTable.ec, o.createTable.info)
  | .prepareInsert => (o.prepareInsert.ec, o.prepareInsert.info)
  | .executeInsert => (o.executeInsert.ec, o.executeInsert.info)
  | .prepareSelect => (o.prepareSelect.ec, o.prepareSelect.info)
  | .executeSelect => (o.executeSelect.ec, o.executeSelect.info)
  | .readAll       => (o.readAll.ec, o.readAll.info)

/-- The awaiter of the step returns an `error_info`. -/
def Step.returnsInfo : Step → Bool
  | .dropTable | .createTable | .prepareInsert | .prepareSelect | .readAll => true
  | .resolve | .connect | .executeInsert | .executeSelect => false

def firstFailure (o : Outcomes) : Option Step := Step.all.find? fun s => (o.delivered s).1.failed

theorem firstFailure_some {o : Outcomes} {s : Step} (h : firstFailure o = some s) :
    (o.delivered s).1.failed = true ∧ ∀ a ∈ Step.all.takeWhile (· ≠ s), (o.delivered a).1.failed = false := by
  obtain ⟨hs, before, after, hall, hbefore⟩ := List.find?_eq_some_iff_append.1 h
  have hne : ∀ a ∈ before, decide (a ≠ s) = true := by
    intro a ha
    rw [decide_eq_true_eq]
    rintro rfl
    simpa [hs] using hbefore a ha
  refine ⟨hs, fun a ha => ?_⟩
  rw [hall, List.takeWhile_append_of_pos hne] at ha
  simp only [ne_eq, not_true_eq_false, decide_false, Bool.false_eq_true, not_false_eq_true, List.takeWhile_cons_of_neg,
    List.append_nil] at ha
  simpa using hbefore a ha

theorem firstFailure_none {o : Outcomes} (h : firstFailure o = none) (s : Step) :
    (o.delivered s).1.failed = false := by
  have hs := List.find?_eq_none.1 h s (by cases s <;> decide)
  simpa using hs

/-- **The run stops at its first failed step and reports that step's error.** -/
structure Faithful (o : Outcomes) : Prop where
  /-- No step after the first failing one is issued. -/
  stops   : ∀ s, firstFailure o = some s →
    ∀ s' ∈ (main o).trace.issued, Step.all.idxOf s' ≤ Step.all.idxOf s
  /-- What is logged is the error code of that step and, where its awaiter returns one, its `error_info`. -/
  reports : ∀ s, firstFailure o = some s →
    (main o).trace.errors.map (fun r => (r.ec, r.ei)) =
      [(some (o.delivered s).1, if s.returnsInfo then some (o.delivered s).2 else none)]
  /-- Control reaches `ctx_pool.stop()`. -/
  reaches : (main o).stopped = true

/-- The first failure is not one that the coroutine ignores or logs with the error of another step. -/
def Harmless (o : Outcomes) : Prop :=
  match firstFailure o with
  | some .dropTable | some .createTable | some .executeSelect => False
  | some .readAll => o.prepareSelect.info = o.readAll.info
  | some _ => True
  | none => o.complete = true

/-- What is logged when the coroutine returns because of a failed step. -/
def report (o : Outcomes) : Step → ErrorCode × Option ErrorInfo
  | .readAll       => (o.readAll.ec, some o.prepareSelect.info)
  | .executeSelect => (o.prepareSelect.ec, none)
  | s              => ((o.delivered s).1, if s.returnsInfo then some (o.delivered s).2 else none)

/-- A failed step at which the coroutine returns is the last one that is issued. -/
theorem main_of_firstFailure {o : Outcomes} {s : Step} (h : firstFailure o = some s) (hd : s ≠ .dropTable)
    (hc : s ≠ .createTable) :
    (main o).trace.issued = Step.all.take (Step.all.idxOf s + 1) ∧
    (main o).trace.errors.map (fun r => (r.ec, r.ei)) = [(some (report o s).1, (report o s).2)] ∧
    (main o).stopped = true := by
  obtain ⟨hs, hb⟩ := firstFailure_some h
  cases s with
  | dropTable => contradiction
  | createTable => contradiction
  | resolve =>
    simp only [Outcomes.delivered] at hs
    simp [main, task, from_bind, connect_from, hs]
    exact ⟨rfl, rfl, rfl⟩
  | connect =>
    simp [Step.all, List.takeWhile, Outcomes.delivered] at hs hb
    simp [main, task, from_bind, connect_from, hs, hb]
    exact ⟨rfl, rfl, rfl⟩
  | prepareInsert =>
    simp [Step.all, List.takeWhile, Outcomes.delivered] at hs hb
    simp [main, task_from_of_connected, from_bind, tables, insert_from, hs, hb]
    exact ⟨rfl, rfl, rfl⟩
  | executeInsert =>
    simp [Step.all, List.takeWhile, Outcomes.delivered] at hs hb
    simp [main, task_from_of_connected, from_bind, tables, insert_from, hs, hb]
    exact ⟨rfl, rfl, rfl⟩
  | prepareSelect =>
    simp [Step.all, List.takeWhile, Outcomes.delivered] at hs hb
    simp [main, task_from_of_connected, from_bind, tables, insert_from, select_from, hs, hb]
    exact ⟨rfl, rfl, rfl⟩
  | executeSelect =>
    simp [Step.all, List.takeWhile, Outcomes.delivered] at hs hb
    simp [main, task_from_of_connected, from_bind, tables, insert_from, select_from, hs, hb]
    exact ⟨rfl, rfl, rfl⟩
  | readAll =>
    simp [Step.all, List.takeWhile, Outcomes.delivered] at hs hb
    simp [main, task_from_of_connected, from_bind, tables, insert_from, select_from, hs, hb]
    exact ⟨rfl, rfl, rfl⟩

theorem main_of_firstFailure_none {o : Outcomes} (h : firstFailure o = none) : (main o).stopped = o.complete := by
  have hall := firstFailure_none h
  have hpi : o.prepareInsert.ec.failed = false := hall .prepareInsert
  have hei : o.executeInsert.ec.failed = false := hall .executeInsert
  have hps : o.prepareSelect.ec.failed = false := hall .prepareSelect
  have hes : o.executeSelect.ec.failed = false := hall .executeSelect
  have hra : o.readAll.ec.failed = false := hall .readAll
  rw [main, task_from_of_connected _ o (hall .resolve) (hall .connect), from_bind]
  cases hcm : o.complete <;> simp [insert_from, select_from, hpi, hei, hps, hes, hra, hcm]

theorem main_trace (o : Outcomes) : (main o).trace = ((task o).from {}).2 := by
  unfold main
  split <;> simp [*]

/-- After a failure of one of the two queries the insert statement is prepared all the same. -/
theorem prepareInsert_issued {o : Outcomes} (hr : o.resolve.ec.failed = false) (hc : o.connect.ec.failed = false) :
    .prepareInsert ∈ (main o).trace.issued := by
  rw [main_trace, task_from_of_connected _ o hr hc, from_bind]
  have h := insert_issues (tables ((({} : Trace).issue .resolve).issue .connect) o) o
  cases hi : (insert o).from (tables ((({} : Trace).issue .resolve).issue .connect) o) with
  | mk end_ t =>
    rw [hi] at h
    cases end_ with
    | error e => exact h
    | ok u => exact select_keeps t o h

/-- After a failure of one of the two queries the run is not over. -/
theorem Faithful.not_query {o : Outcomes} (hf : Faithful o) {s : Step} (hs : s = .dropTable ∨ s = .createTable) :
    firstFailure o ≠ some s := by
  intro h
  obtain ⟨-, hb⟩ := firstFailure_some h
  have hr := hb .resolve (by rcases hs with rfl | rfl <;> decide)
  have hc := hb .connect (by rcases hs with rfl | rfl <;> decide)
  have hlt := hf.stops s h .prepareInsert (prepareInsert_issued hr hc)
  rcases hs with rfl | rfl <;> exact absurd hlt (by decide)

/-- **Which runs are faithful.** Those that end well with a complete resultset, and those whose first failure is neither
one of the two queries nor the execution of the select statement, nor the reading of the rows with an `error_info`
that is not the one of the prepared statement. -/
theorem faithful_iff (o : Outcomes) : Faithful o ↔ Harmless o := by
  unfold Harmless
  constructor
  · intro hf
    cases h : firstFailure o with
    | none =>
      have hreach := hf.reaches
      rwa [main_of_firstFailure_none h] at hreach
    | some s =>
      have hown := hf.reports s h
      cases s with
      | dropTable => exact hf.not_query (.inl rfl) h
      | createTable => exact hf.not_query (.inr rfl) h
      | executeSelect =>
        -- the report has the success code of the prepared statement
        rw [(main_of_firstFailure h (by decide) (by decide)).2.1] at hown
        obtain ⟨hfail, hb⟩ := firstFailure_some h
        have hok := hb .prepareSelect (by decide)
        simp [report, Outcomes.delivered, Step.returnsInfo] at hown hfail hok
        simp [hown, hfail] at hok
      | readAll =>
        rw [(main_of_firstFailure h (by decide) (by decide)).2.1] at hown
        simpa [report, Outcomes.delivered, Step.returnsInfo] using hown
      | _ => trivial
  · intro hh
    cases h : firstFailure o with
    | none =>
      rw [h] at hh
      exact ⟨by simp [h], by simp [h], (main_of_firstFailure_none h).trans hh⟩
    | some s =>
      rw [h] at hh
      have hd : s ≠ .dropTable := by rintro rfl; exact hh
      have hc : s ≠ .createTable := by rintro rfl; exact hh
      obtain ⟨hissued, herrors, hstopped⟩ := main_of_firstFailure h hd hc
      refine ⟨?_, ?_, hstopped⟩
      · intro s' hs' a ha
        cases h.symm.trans hs'
        have hmem : a ∈ Step.all := List.mem_of_mem_take (hissued ▸ ha)
        rw [hissued, List.mem_take_iff_idxOf_lt hmem] at ha
        exact Nat.le_of_lt_succ ha
      · intro s' hs'
        cases h.symm.trans hs'
        rw [herrors]
        cases s with
        | executeSelect => exact hh.elim
        | readAll =>
          have hinfo : o.prepareSelect.info = o.readAll.info := hh
          simp [report, Outcomes.delivered, Step.returnsInfo, hinfo]
        | _ => rfl

/-- The account may not create tables: its only failure is the one of the second query. -/
def denied : Outcomes where
  resolve       := ⟨{}, {}, ⟨0⟩⟩
  connect       := ⟨{}, {}, ()⟩
  dropTable     := ⟨{}, {}, ⟨1⟩⟩
  createTable   := ⟨⟨1142⟩, ⟨"CREATE command denied"⟩, ⟨2⟩⟩
  prepareInsert := ⟨{}, {}, ⟨3⟩⟩
  executeInsert := ⟨{}, {}, ⟨4⟩⟩
  prepareSelect := ⟨{}, {}, ⟨5⟩⟩
  executeSelect := ⟨{}, {}, ⟨6⟩⟩
  readAll       := ⟨{}, {}, []⟩
  complete      := true

/-- The insert statement is prepared although the table could not be created. -/
theorem not_faithful_denied : ¬ Faithful denied := by
  intro hf
  have hlt := hf.stops .createTable rfl .prepareInsert (by decide)
  exact absurd hlt (by decide)

end AsyncCpp.Mysql
