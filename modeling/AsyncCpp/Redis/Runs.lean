import AsyncCpp.Redis.Program
import Mathlib.Algebra.BigOperators.Group.List.Basic
import Mathlib.Algebra.GroupWithZero.Nat

/-!
# `Redis.Runs` — what every run of `test_redis++.cpp` comes to

`FutureAwaiter` loses the failure of a future: `hmset` goes on as if it had succeeded, and after a failed `set`, `get`
or `hgetall` nobody resumes the coroutine. `reading` is what the coroutine does line by line, with these answers. Every
run is on the way of it (`Inv`), every step brings it nearer to the end (`Inv.rank_lt`), and where no step is left `main`
has returned, or waits for ever because one of the three has failed (`Inv.stuck`).

## Contents
- `answers`, `reading`.
- `Owned`, `OnWay`, `Inv`, `Inv.step`.
- `Program.rank`, `Inv.rank_lt`; `Inv.stuck`.
- `Settled`, `run_settles`.
-/

namespace AsyncCpp.RedisProgram

open Redis
open Machine (Anything StepsN reachable_get)

variable {ε : Type} {r : Replies ε} {s s' : Program ε}

/-! ## Read line by line -/

/-- What a `co_await` gives; `none`: it does not resume the coroutine. -/
def answers (r : Replies ε) : (c : Call) → Option (Answer c)
  -- `fut.wait()` does not throw
  | .hmset   => some ()
  | .set     => r.set.toOption
  | .get     => r.get.toOption
  | .hgetall => r.hgetall.toOption

/-- **How the coroutine ends, read line by line, and what it has done by then.** -/
def reading (r : Replies ε) : Option (Except (Thrown ε) Unit) × Trace := lambda.await record (answers r) {}

/-- The continuation has resumed the coroutine with the answer, or not at all. -/
def Answers {c : Call} (a : Awaiter ε c) : Option (Answer c) → Prop
  | some v => a.resumed = 1 ∧ a.await_resume = .ok v
  | none   => a.resumed = 0

/-- **What the continuation of a call does.** -/
theorem continued_answers (r : Replies ε) (c : Call) : Answers (Awaiter.construct r c).continued (answers r c) := by
  cases c with
  | hmset => cases hr : r.hmset <;> simp only [Awaiter.construct, hr] <;> exact ⟨rfl, rfl⟩
  | set => cases hr : r.set <;> simp only [Awaiter.construct, answers, hr]; exacts [rfl, ⟨rfl, rfl⟩]
  | get => cases hr : r.get <;> simp only [Awaiter.construct, answers, hr]; exacts [rfl, ⟨rfl, rfl⟩]
  | hgetall => cases hr : r.hgetall <;> simp only [Awaiter.construct, answers, hr]; exacts [rfl, ⟨rfl, rfl⟩]

@[simp] theorem record_asked (c : Call) (t : Trace) : record.asked c t = { t with called := t.called ++ [c] } := rfl
@[simp] theorem record_noted (line : String) (t : Trace) : record.noted line t = { t with cout := t.cout ++ [line] } := rfl

theorem cout_each_await (ds : List String) (t : Trace) :
    (cout_each ds : Task ε Unit).await record (answers r) t = (some (.ok ()), { t with cout := t.cout ++ ds }) := by
  induction ds generalizing t with
  | nil => simp [cout_each, pure, Resumable.await]
  | cons d ds ih =>
      show (cout_each ds).await record (answers r) { t with cout := t.cout ++ [d] } = _
      simp [ih]

/-- What the coroutine writes after `set`, -/
def setLines (flag : Bool) : List String := if flag then ["set key success!!!"] else []

/-- and after `get`. -/
def getLines (data : Option String) : List String := (data.map fun value => "name:" ++ value).toList

/-- The trace, by how far the replies let the coroutine come. -/
theorem reading_eq (r : Replies ε) : reading r =
    match r.set with
    | .error _ => (none, { called := [.hmset, .set] })
    | .ok flag =>
        match r.get with
        | .error _ => (none, { called := [.hmset, .set, .get], cout := setLines flag })
        | .ok data =>
            match r.hgetall with
            | .error _ => (none, { called := [.hmset, .set, .get, .hgetall], cout := setLines flag ++ getLines data })
            | .ok ds   =>
                (some (.ok ()),
                  { called := [.hmset, .set, .get, .hgetall], cout := setLines flag ++ getLines data ++ ds }) := by
  unfold reading lambda await
  cases hset : r.set with
  | error e => simp [Resumable.await, answers, hset, Except.toOption]
  | ok flag =>
    cases hget : r.get with
    | error e => cases flag <;> simp [Resumable.await, answers, cout, setLines, hset, hget, Except.toOption]
    | ok data =>
      cases hgetall : r.hgetall with
      | error e =>
        cases flag <;> cases data <;>
          simp [Resumable.await, answers, cout, setLines, getLines, hset, hget, hgetall, Except.toOption]
      | ok ds =>
        cases flag <;> cases data <;>
          simp [Resumable.await, answers, cout, setLines, getLines, hset, hget, hgetall, Except.toOption,
            cout_each_await]

/-- The three futures that the coroutine depends on are fulfilled. -/
def Replies.Succeeded (r : Replies ε) : Prop := r.set.isOk ∧ r.get.isOk ∧ r.hgetall.isOk

/-- **The coroutine ends when the three succeed**, and else it waits for ever. -/
theorem reading_ends (r : Replies ε) :
    (r.Succeeded ∧ (reading r).1 = some (.ok ())) ∨ (¬ r.Succeeded ∧ (reading r).1 = none) := by
  rw [reading_eq, Replies.Succeeded]
  cases r.set with
  | error e => exact .inr ⟨by simp [Except.isOk, Except.toBool], rfl⟩
  | ok flag =>
    cases r.get with
    | error e => exact .inr ⟨by simp [Except.isOk, Except.toBool], rfl⟩
    | ok data =>
      cases r.hgetall with
      | error e => exact .inr ⟨by simp [Except.isOk, Except.toBool], rfl⟩
      | ok ds => exact .inl ⟨⟨rfl, rfl, rfl⟩, rfl⟩

/-! ## The invariant -/

/-- The continuation has not run. -/
def Job.live (job : Job) : Prop := job.pc = .posted ∨ job.pc = .called

/-- The continuation that the coroutine is suspended for. -/
def CoroPc.held : CoroPc ε → Option Nat
  | .attached n _ => some n
  | .running _ | .suspending _ _ | .pending _ | .abandoned _ | .resumed _ | .finished _ => none

/-- The call that was made and has no continuation. -/
def CoroPc.outstanding : CoroPc ε → Nat
  | .suspending _ _ | .pending _ => 1
  | .running _ | .attached _ _ | .abandoned _ | .resumed _ | .finished _ => 0

/-- A continuation that has not run is the one that the coroutine is suspended for. -/
structure Owned (jobs : List Job) (held : Option Nat) : Prop where
  live : ∀ n job, jobs[n]? = some job → job.live → held = some n
  held : ∀ n, held = some n → ∃ job, jobs[n]? = some job ∧ job.live

/-- With the answer the coroutine comes to the end of the reading, and without one it is there. -/
def Reads (r : Replies ε) (t : Trace) {c : Call} (next : Answer c → Task ε Unit) : Option (Answer c) → Prop
  | some a => (next a).await record (answers r) t = reading r
  | none   => (none, t) = reading r

def Frame.OnWay (r : Replies ε) (t : Trace) (f : Frame ε) : Prop := Reads r t f.next (answers r f.call)

/-- **The coroutine is on its way.** -/
def OnWay (r : Replies ε) (t : Trace) : CoroPc ε → Prop
  | .running rest => rest.await record (answers r) t = reading r
  | .suspending f _ | .pending f | .attached _ f => f.awaiter = Awaiter.construct r f.call ∧ f.OnWay r t
  | .abandoned _ => (none, t) = reading r
  | .resumed f => ∃ a, answers r f.call = some a ∧ f.awaiter.await_resume = .ok a ∧ f.OnWay r t
  | .finished end_ => (some end_, t) = reading r

/-- Where `main` is, and the coroutine. -/
def Block (coro : CoroPc ε) : MainPc → Prop
  | .blockingWait => True
  | .destructors | .returned => coro = .finished (.ok ())
  | .terminated => False

/-- A call leaves the coroutine on its way. -/
theorem ask_onWay {c : Call} {next : Answer c → Task ε Unit} {t : Trace} (h : OnWay r t (.running (.ask c next))) :
    Frame.OnWay r (record.asked c t) ⟨c, Awaiter.construct r c, next⟩ := by
  have hask : (Resumable.ask c next).await record (answers r) t = reading r := h
  show Reads r (record.asked c t) next (answers r c)
  cases hanswer : answers r c with
  | none =>
      rw [Resumable.await_ask_none record (answers r) next hanswer] at hask
      exact hask
  | some a =>
      rw [Resumable.await_ask_some record (answers r) next hanswer] at hask
      exact hask

structure Inv (r : Replies ε) (s : Program ε) : Prop where
  block : Block s.coro s.main
  owned : Owned s.jobs s.coro.held
  /-- Every call has one continuation, or will have it. -/
  count : s.jobs.length + s.coro.outstanding = s.trace.called.length
  way   : OnWay r s.trace s.coro
  fault : s.fault = false

/-! ## The continuations -/

namespace Owned

variable {jobs : List Job} {held : Option Nat} {n : Nat} {job job' : Job}

theorem nil : Owned [] none where
  live := by
    intro n job hjob
    cases hjob
  held := by
    intro n hn
    cases hn

/-- A continuation is posted. -/
theorem post (h : Owned jobs none) (hposted : job.pc = .posted) : Owned (jobs ++ [job]) (some jobs.length) where
  live := by
    intro m job' hget hlive
    rw [List.getElem?_append] at hget
    split at hget
    · cases h.live m job' hget hlive
    · have hlt := (List.getElem?_eq_some_iff.mp hget).1
      simp only [List.length_singleton] at hlt
      exact congrArg some (by omega)
  held := by
    rintro m ⟨⟩
    exact ⟨job, List.getElem?_concat_length, .inl hposted⟩

/-- The thread of a continuation goes on, and it has run or not as before. -/
theorem goes (h : Owned jobs held) (hjob : jobs[n]? = some job) (hlive : job'.live ↔ job.live) :
    Owned (jobs.set n job') held where
  live := by
    intro m job₁ hget hlive₁
    by_cases hm : n = m
    · subst hm
      rw [List.getElem?_set_self (List.getElem?_eq_some_iff.mp hjob).1] at hget
      cases hget
      exact h.live n job hjob (hlive.mp hlive₁)
    · rw [List.getElem?_set_ne hm] at hget
      exact h.live m job₁ hget hlive₁
  held := by
    intro m hm
    obtain ⟨job₁, hget, hlive₁⟩ := h.held m hm
    by_cases hnm : n = m
    · subst hnm
      rw [hjob] at hget
      cases hget
      exact ⟨job', List.getElem?_set_self (List.getElem?_eq_some_iff.mp hjob).1, hlive.mpr hlive₁⟩
    · exact ⟨job₁, (List.getElem?_set_ne hnm).trans hget, hlive₁⟩

/-- The continuation has run. -/
theorem run (h : Owned jobs (some n)) (hran : ¬ job'.live) : Owned (jobs.set n job') none where
  live := by
    intro m job hget hlive
    rw [List.getElem?_set] at hget
    split at hget
    · split at hget
      · cases hget
        exact absurd hlive hran
      · cases hget
    · next hm => exact absurd (Option.some.inj (h.live m job hget hlive)) hm
  held := by
    intro m hm
    cases hm

end Owned

/-! ## The step lemma -/

/-- The coroutine goes on in `main`. -/
theorem Inv.goOn (h : Inv r s) (hpc : s.main = .blockingWait) {coro : CoroPc ε} {t : Trace} (hheld : coro.held = s.coro.held)
    (hcount : coro.outstanding + s.trace.called.length = s.coro.outstanding + t.called.length) (hway : OnWay r t coro) :
    Inv r { s with coro := coro, trace := t } where
  block := by
    show Block coro s.main
    rw [hpc]
    trivial
  owned := by
    show Owned s.jobs coro.held
    rw [hheld]
    exact h.owned
  count := by
    have hbefore := h.count
    show s.jobs.length + coro.outstanding = t.called.length
    omega
  way := hway
  fault := h.fault

/-- **The continuation is posted.** -/
theorem Inv.post (h : Inv r s) {f : Frame ε} (hheld : s.coro.held = none) (hcount : s.coro.outstanding = 1)
    (hblock : Block (.attached s.jobs.length f) s.main) (hway : OnWay r s.trace (.pending f)) : Inv r (s.post f) where
  block := hblock
  owned := by
    have howned := h.owned
    rw [hheld] at howned
    exact howned.post rfl
  count := by
    have hbefore := h.count
    show (s.jobs ++ [_]).length + 0 = s.trace.called.length
    rw [List.length_append, List.length_singleton]
    omega
  way := hway
  fault := h.fault

/-- A coroutine that is not at its end has `main` in `blockingWait`. -/
theorem Inv.waits (h : Inv r s) (hend : s.coro ≠ .finished (.ok ())) : s.main = .blockingWait := by
  have hblock := h.block
  cases hpc : s.main with
  | blockingWait => rfl
  | destructors | returned =>
      rw [hpc] at hblock
      exact absurd hblock hend
  | terminated =>
      rw [hpc] at hblock
      exact hblock.elim

/-- No exception reaches the end of the coroutine. -/
theorem not_thrown {e : Thrown ε} {t : Trace} : (some (.error e), t) ≠ reading r := by
  intro heq
  rcases reading_ends r with ⟨-, hend⟩ | ⟨-, hend⟩
  · rw [← heq] at hend
    cases hend
  · rw [← heq] at hend
    cases hend

/-- **A statement of the coroutine.** -/
theorem Inv.coro (h : Inv r s) (hpc : s.main = .blockingWait) (hm : CoroMoved r s s') : Inv r s' := by
  have hway := h.way
  have hcount := h.count
  cases hm with
  | done hat | leave hat | note hat =>
      rw [hat] at hway
      exact h.goOn hpc (by rw [hat]; rfl) (by rw [hat]; rfl) hway
  | ask hat =>
      rw [hat] at hway
      exact h.goOn hpc (by rw [hat]; rfl) (by rw [hat]; simp [CoroPc.outstanding]; omega) ⟨rfl, ask_onWay hway⟩
  | suspend hat =>
      rw [hat] at hway
      exact h.goOn hpc (by rw [hat]; rfl) (by rw [hat]; rfl) hway
  | post hat =>
      rw [hat] at hway
      exact h.post (by rw [hat]; rfl) (by rw [hat]; rfl) (by rw [hpc]; trivial) hway
  | resume hat ha =>
      rw [hat] at hway
      obtain ⟨a, hanswer, hresume, hreads⟩ := hway
      rw [hresume] at ha
      cases ha
      rw [Frame.OnWay, hanswer] at hreads
      exact h.goOn hpc (by rw [hat]; rfl) (by rw [hat]; rfl) hreads
  | rethrow hat he =>
      -- `_exception` is never set
      rw [hat] at hway
      obtain ⟨a, -, hresume, -⟩ := hway
      rw [hresume] at he
      cases he
  | returns hat =>
      exact ⟨hat, h.owned, h.count, h.way, h.fault⟩
  | terminates hat =>
      rw [hat] at hway
      exact absurd hway not_thrown

/-- What a continuation does that finds the coroutine at its own `co_await`. -/
theorem run_attached {n : Nat} {job : Job} {f : Frame ε} (hat : s.coro = .attached n f) :
    run s n job = { s with
      coro := if f.continued.awaiter.resumed = 0 then .abandoned f.continued else .resumed f.continued,
      jobs := s.jobs.set n { job with pc := .returns } } := by
  simp only [run, goes, hat, ne_eq, not_true_eq_false, if_false]
  split <;> rfl

/-- A continuation that is called is the one that the coroutine is suspended for. -/
theorem Inv.attached (h : Inv r s) {n : Nat} {job : Job} (hjob : s.jobs[n]? = some job) (hlive : job.live) :
    ∃ f, s.coro = .attached n f := by
  have hheld := h.owned.live n job hjob hlive
  cases hat : s.coro with
  | attached m f =>
      rw [hat] at hheld
      cases hheld
      exact ⟨f, rfl⟩
  | running | suspending | pending | abandoned | resumed | finished =>
      rw [hat] at hheld
      cases hheld

/-- It resumes the coroutine with the answer, or leaves it where it is. -/
theorem continued_onWay {t : Trace} {n : Nat} {f : Frame ε} (hway : OnWay r t (.attached n f)) :
    OnWay r t (if f.continued.awaiter.resumed = 0 then .abandoned f.continued else .resumed f.continued) := by
  obtain ⟨hawaiter, hreads⟩ := hway
  have hcontinued := continued_answers r f.call
  rw [← hawaiter] at hcontinued
  cases hanswer : answers r f.call with
  | none =>
      rw [hanswer] at hcontinued
      rw [Frame.OnWay, hanswer] at hreads
      rw [if_pos (show f.continued.awaiter.resumed = 0 from hcontinued)]
      exact hreads
  | some a =>
      rw [hanswer] at hcontinued
      obtain ⟨hresumed, hresume⟩ := hcontinued
      have hne : f.continued.awaiter.resumed ≠ 0 := by
        rw [show f.continued.awaiter.resumed = 1 from hresumed]
        decide
      rw [if_neg hne]
      exact ⟨a, hanswer, hresume, hreads⟩

/-- **A continuation runs.** -/
theorem Inv.run (h : Inv r s) {n : Nat} {job : Job} (hjob : s.jobs[n]? = some job) (hcalled : job.pc = .called) :
    Inv r (run s n job) := by
  obtain ⟨f, hat⟩ := h.attached hjob (.inr hcalled)
  have hpc := h.waits (by simp [hat])
  have hway := h.way
  have howned := h.owned
  have hcount := h.count
  rw [hat] at hway howned hcount
  rw [run_attached hat]
  refine ⟨?_, ?_, ?_, continued_onWay hway, h.fault⟩
  · rw [hpc]
    trivial
  · have hended : Owned (s.jobs.set n { job with pc := .returns }) none := howned.run (by simp [Job.live])
    dsimp only
    split <;> exact hended
  · show (s.jobs.set n _).length + _ = s.trace.called.length
    rw [List.length_set, ← hcount]
    dsimp only
    split <;> rfl

/-- **The step lemma.** -/
theorem Inv.step (h : Inv r s) {a : Action} (hs : RedisProgram.step r s a = some s') : Inv r s' := by
  have hway := h.way
  cases step_moved hs with
  | coro hpc hm => exact h.coro hpc hm
  | joined hpc hj =>
      have hblock := h.block
      rw [hpc] at hblock
      exact ⟨hblock, h.owned, h.count, h.way, h.fault⟩
  | replied hat =>
      rw [hat] at hway
      exact h.goOn (h.waits (by simp [hat])) (by rw [hat]; rfl) (by rw [hat]; rfl) hway
  | post hat =>
      rw [hat] at hway
      have hpc := h.waits (by simp [hat])
      exact h.post (by rw [hat]; rfl) (by rw [hat]; rfl) (by rw [hpc]; trivial) hway
  | take hi hbusy hjob hpooled hposted =>
      exact ⟨h.block, h.owned.goes hjob (by simp [Job.live, hposted]), by simpa [goes] using h.count, h.way, h.fault⟩
  | launch hjob hpooled hposted =>
      exact ⟨h.block, h.owned.goes hjob (by simp [Job.live, hposted]), by simpa [goes] using h.count, h.way, h.fault⟩
  | run hjob hcalled => exact h.run hjob hcalled
  | finish hjob hreturns =>
      exact ⟨h.block, h.owned.goes hjob (by simp [Job.live, hreturns]), by simpa [goes] using h.count, h.way, h.fault⟩

theorem reachable_inv (h : (program r).Reachable Anything s) : Inv r s :=
  h.invariant ⟨trivial, .nil, rfl, rfl, rfl⟩ fun _ hi _ hs => hi.step hs

/-! ## The rank of a state -/

def MainPc.rank : MainPc → Nat
  | .blockingWait => 2
  | .destructors => 1
  | .returned | .terminated => 0

def JobPc.rank : JobPc → Nat
  | .posted => 3
  | .called => 2
  | .returns => 1
  | .ended => 0

/-- The task after the await. -/
def leftAfter (r : Replies ε) {c : Call} (next : Answer c → Task ε Unit) : Option (Answer c) → Nat
  | some a => (next a).left (answers r)
  | none   => 0

def Frame.left (r : Replies ε) (f : Frame ε) : Nat := leftAfter r f.next (answers r f.call)

/-- What the coroutine and the call that is outstanding have before them. -/
def CoroPc.rank (r : Replies ε) : CoroPc ε → Nat
  | .running rest       => 10 * rest.left (answers r) + 1
  | .suspending f false => 10 * f.left r + 10
  | .suspending f true  => 10 * f.left r + 9
  | .pending f          => 10 * f.left r + 9
  | .attached _ f       => 10 * f.left r + 5
  | .resumed f          => 10 * f.left r + 2
  | .abandoned _        => 0
  | .finished _         => 0

def Program.rank (r : Replies ε) (s : Program ε) : Nat :=
  s.main.rank + s.coro.rank r + (s.jobs.map fun job => job.pc.rank).sum

theorem left_ask {c : Call} {next : Answer c → Task ε Unit} (a : Awaiter ε c) :
    (Resumable.ask c next).left (answers r) = Frame.left r ⟨c, a, next⟩ + 1 := by
  show _ = leftAfter r next (answers r c) + 1
  cases hanswer : answers r c with
  | none => exact Resumable.left_ask_none (answers r) next hanswer
  | some a => exact Resumable.left_ask_some (answers r) next hanswer

/-- A thread goes on, and only its continuation counts less. -/
theorem goes_rank {n : Nat} {job : Job} (hjob : s.jobs[n]? = some job) (job' : Job) :
    (goes s n job').rank r + job.pc.rank = s.rank r + job'.pc.rank := by
  have hlt := (List.getElem?_eq_some_iff.mp hjob).1
  have hget : s.jobs[n] = job := (List.getElem?_eq_some_iff.mp hjob).2
  have hsplit := List.sum_set (s.jobs.map fun job => job.pc.rank) n job.pc.rank
  have hself : (s.jobs.map fun job => job.pc.rank).set n job.pc.rank = s.jobs.map fun job => job.pc.rank := by
    rw [← hget, ← List.map_set (f := fun job : Job => job.pc.rank), List.set_getElem_self]
  rw [hself] at hsplit
  simp only [Program.rank, goes, List.map_set, List.sum_set, hsplit, List.length_map, hlt, if_true]
  omega

/-- The coroutine goes on, and nothing else counts less. -/
theorem coro_rank (s : Program ε) (coro : CoroPc ε) :
    Program.rank r { s with coro := coro } + s.coro.rank r = s.rank r + coro.rank r := by
  simp only [Program.rank]
  omega

theorem post_rank (f : Frame ε) :
    (s.post f).rank r = s.main.rank + (10 * f.left r + 5) + (s.jobs.map fun job => job.pc.rank).sum + 3 := by
  simp [Program.rank, Program.post, CoroPc.rank, JobPc.rank]
  omega

/-- **A statement of the coroutine** lowers the rank. -/
theorem Inv.rank_coro (h : Inv r s) (hpc : s.main = .blockingWait) (hm : CoroMoved r s s') : s'.rank r < s.rank r := by
  have hway := h.way
  cases hm with
  | done hat | leave hat | note hat | suspend hat =>
      simp only [Program.rank, hat, CoroPc.rank, Resumable.left]
      omega
  | @ask c next hat =>
      simp only [Program.rank, hat, CoroPc.rank, left_ask (Awaiter.construct r c)]
      omega
  | post hat =>
      rw [post_rank]
      simp only [Program.rank, hat, CoroPc.rank]
      omega
  | resume hat ha =>
      rw [hat] at hway
      obtain ⟨a, hanswer, hresume, -⟩ := hway
      rw [hresume] at ha
      cases ha
      simp only [Program.rank, hat, CoroPc.rank, Frame.left, hanswer, leftAfter]
      omega
  | rethrow hat he =>
      simp only [Program.rank, hat, CoroPc.rank, Resumable.left]
      omega
  | returns hat | terminates hat =>
      simp only [Program.rank, hpc, MainPc.rank]
      omega

/-- **A continuation that runs** lowers it, too. -/
theorem Inv.rank_run (h : Inv r s) {n : Nat} {job : Job} (hjob : s.jobs[n]? = some job) (hcalled : job.pc = .called) :
    (RedisProgram.run s n job).rank r < s.rank r := by
  obtain ⟨f, hat⟩ := h.attached hjob (.inr hcalled)
  have hgoes := goes_rank (r := r) hjob { job with pc := .returns }
  rw [hcalled] at hgoes
  change _ + 2 = _ + 1 at hgoes
  have hcoro : CoroPc.rank r (if f.continued.awaiter.resumed = 0 then .abandoned f.continued else .resumed f.continued) <
      s.coro.rank r := by
    rw [hat]
    split
    · exact Nat.zero_lt_succ _
    · exact Nat.add_lt_add_left (by decide) _
  rw [run_attached hat]
  have hmoved := coro_rank (r := r) (goes s n { job with pc := .returns })
    (if f.continued.awaiter.resumed = 0 then .abandoned f.continued else .resumed f.continued)
  simp only [goes] at hgoes hmoved
  omega

/-- **Every step lowers the rank.** -/
theorem Inv.rank_lt (h : Inv r s) {a : Action} (hs : RedisProgram.step r s a = some s') : s'.rank r < s.rank r := by
  cases step_moved hs with
  | coro hpc hm => exact h.rank_coro hpc hm
  | joined hpc hj =>
      simp only [Program.rank, hpc, MainPc.rank]
      omega
  | replied hat =>
      simp only [Program.rank, hat, CoroPc.rank]
      omega
  | post hat =>
      rw [post_rank]
      simp only [Program.rank, hat, CoroPc.rank]
      omega
  | @take i n job hi hbusy hjob hpooled hposted =>
      have hgoes := goes_rank (r := r) hjob { job with thread := some i, pc := .called }
      simp only [hposted, JobPc.rank] at hgoes
      omega
  | @launch n job hjob hpooled hposted =>
      have hgoes := goes_rank (r := r) hjob { job with pc := .called }
      simp only [hposted, JobPc.rank] at hgoes
      omega
  | run hjob hcalled => exact h.rank_run hjob hcalled
  | @finish n job hjob hreturns =>
      have hgoes := goes_rank (r := r) hjob { job with pc := .ended }
      simp only [hreturns, JobPc.rank] at hgoes
      omega

/-! ## Where no step is left -/

/-- The process is not over. -/
def MainPc.going (pc : MainPc) : Prop := ¬ (pc = .returned ∨ pc = .terminated)

/-- **No continuation is left**: the threads of the pool are free for one that waits. -/
theorem stuck_jobs (hgoing : s.main.going) (hstuck : (program r).Stuck Anything s) {n : Nat} {job : Job}
    (hjob : s.jobs[n]? = some job) : job.pc = .ended := by
  have hstep : ∀ a, RedisProgram.step r s a = none := fun a => hstuck a trivial
  have hrun : ∀ (m : Nat) (job : Job), s.jobs[m]? = some job → job.pc ≠ .called ∧ job.pc ≠ .returns := by
    intro m job hjob
    constructor
    · intro hpc
      have := hstep (.run m)
      simp [RedisProgram.step, if_neg hgoing, hjob, hpc] at this
    · intro hpc
      have := hstep (.finish m)
      simp [RedisProgram.step, if_neg hgoing, hjob, hpc] at this
  have hfree : s.busy 0 = false := by
    simp only [Program.busy, List.any_eq_false]
    intro job hmem
    obtain ⟨m, hm⟩ := List.mem_iff_getElem?.mp hmem
    have hne := hrun m job hm
    simp [hne.1, hne.2]
  cases hpc : job.pc with
  | ended => rfl
  | called => exact absurd hpc (hrun n job hjob).1
  | returns => exact absurd hpc (hrun n job hjob).2
  | posted =>
      cases hpooled : job.pooled with
      | false =>
          have := hstep (.launch n)
          simp [RedisProgram.step, if_neg hgoing, hjob, hpc, hpooled] at this
      | true =>
          have hnext : s.next.isSome := by
            rw [Program.next, List.findIdx?_isSome, List.any_eq_true]
            exact ⟨job, List.mem_of_getElem? hjob, by simp [hpooled, hpc]⟩
          obtain ⟨m, hm⟩ := Option.isSome_iff_exists.mp hnext
          obtain ⟨job', hjob', -⟩ := next_posted hm
          have := hstep (.take 0)
          simp [RedisProgram.step, if_neg hgoing, pool_size, hfree, hm, hjob'] at this

/-- **Only a coroutine that nobody resumes keeps `main` from its end.** -/
theorem Inv.stuck (h : Inv r s) (hstuck : (program r).Stuck Anything s) :
    s.main = .returned ∨ (s.main = .blockingWait ∧ ∃ f, s.coro = .abandoned f) := by
  have hblock := h.block
  have hmain : s.main.going → mainStep r s = none := by
    intro hgoing
    have := hstuck .main trivial
    simpa [program, RedisProgram.step, if_neg hgoing] using this
  cases hpc : s.main with
  | returned => exact .inl rfl
  | terminated =>
      rw [hpc] at hblock
      exact hblock.elim
  | destructors =>
      have hgoing : s.main.going := by simp [MainPc.going, hpc]
      have hjoined : s.joined = true := by
        rw [Program.joined, List.all_eq_true]
        intro job hmem
        obtain ⟨n, hjob⟩ := List.mem_iff_getElem?.mp hmem
        simp [stuck_jobs hgoing hstuck hjob]
      have := hmain hgoing
      simp [mainStep, hpc, hjoined] at this
  | blockingWait =>
      have hgoing : s.main.going := by simp [MainPc.going, hpc]
      have hcoro := hmain hgoing
      simp only [mainStep, hpc, coroStep] at hcoro
      cases hat : s.coro with
      | abandoned f => exact .inr ⟨rfl, f, rfl⟩
      | attached n f =>
          obtain ⟨job, hjob, hlive⟩ := h.owned.held n (by rw [hat]; rfl)
          have hended := stuck_jobs hgoing hstuck hjob
          rw [Job.live, hended] at hlive
          simp at hlive
      | pending f =>
          have := hstuck .replies trivial
          simp [program, RedisProgram.step, if_neg hgoing, hat] at this
      | running rest => cases rest <;> simp [hat] at hcoro
      | suspending f replied => cases replied <;> simp [hat] at hcoro
      | resumed f =>
          rw [hat] at hcoro
          dsimp only at hcoro
          split at hcoro <;> cases hcoro
      | finished end_ => cases end_ <;> simp [hat] at hcoro

/-! ## The guarantee -/

/-- What was called and written before. -/
instance : Preorder Trace where
  le t t' := t.called <+: t'.called ∧ t.cout <+: t'.cout
  le_refl _ := ⟨List.prefix_rfl, List.prefix_rfl⟩
  le_trans _ _ _ h h' := ⟨h.1.trans h'.1, h.2.trans h'.2⟩

theorem record_grows (rest : Task ε Unit) (t : Trace) : t ≤ (rest.await record (answers r) t).2 := by
  apply Resumable.le_await
  · intro c t
    exact ⟨List.prefix_append _ _, List.prefix_rfl⟩
  · intro line t
    exact ⟨List.prefix_rfl, List.prefix_append _ _⟩

theorem Frame.OnWay.trace_le {t : Trace} {f : Frame ε} (h : f.OnWay r t) : t ≤ (reading r).2 := by
  unfold Frame.OnWay at h
  cases hanswer : answers r f.call with
  | none =>
      rw [hanswer] at h
      exact le_of_eq (congrArg Prod.snd h)
  | some a =>
      rw [hanswer] at h
      exact (record_grows (f.next a) t).trans (le_of_eq (congrArg Prod.snd h))

/-- On the way no more is done than at the end. -/
theorem OnWay.trace_le {t : Trace} {coro : CoroPc ε} (h : OnWay r t coro) : t ≤ (reading r).2 := by
  cases coro with
  | running rest => exact (record_grows rest t).trans (le_of_eq (congrArg Prod.snd h))
  | suspending f replied | pending f | attached n f => exact h.2.trace_le
  | resumed f =>
      obtain ⟨_, _, _, hreads⟩ := h
      exact hreads.trace_le
  | abandoned f | finished end_ => exact le_of_eq (congrArg Prod.snd h)

/-- **What a run of the program comes to**, from a state of it: -/
structure Settled (r : Replies ε) (s : Program ε) : Prop where
  /-- what was called and written is a beginning of what the coroutine does line by line; -/
  trace   : s.trace ≤ (reading r).2
  /-- a continuation that has not run finds the coroutine suspended for it, -/
  alone   : ∀ n job, s.jobs[n]? = some job → job.live → ∃ f, s.coro = .attached n f
  /-- none has found it elsewhere, and nothing leaves `main`; -/
  sound   : s.fault = false ∧ s.main ≠ .terminated
  /-- there are only so many steps to take, -/
  bounded : ∃ bound, ∀ n t, (program r).StepsN Anything n s t → n ≤ bound
  /-- and where none is left every call has had one continuation, and the trace is whole, -/
  whole   : ∀ t, (program r).Steps Anything s t → (program r).Stuck Anything t →
    t.jobs.length = t.trace.called.length ∧ t.trace = (reading r).2
  /-- and `main` has returned, or waits for ever for the failure of one of the three futures. -/
  ends    : ∀ t, (program r).Steps Anything s t → (program r).Stuck Anything t →
    (r.Succeeded ∧ t.main = .returned) ∨ (¬ r.Succeeded ∧ t.main = .blockingWait)

/-- What is left to see where no step is left. -/
theorem Inv.settled_stuck (h : Inv r s) (hstuck : (program r).Stuck Anything s) :
    (s.jobs.length = s.trace.called.length ∧ s.trace = (reading r).2) ∧
    ((r.Succeeded ∧ s.main = .returned) ∨ (¬ r.Succeeded ∧ s.main = .blockingWait)) := by
  have hway := h.way
  have hcount := h.count
  rcases h.stuck hstuck with hpc | ⟨hpc, f, hat⟩
  · have hblock := h.block
    rw [hpc] at hblock
    rw [show s.coro = .finished (.ok ()) from hblock] at hway hcount
    refine ⟨⟨hcount, congrArg Prod.snd hway⟩, .inl ⟨?_, hpc⟩⟩
    rcases reading_ends r with ⟨hsucceeded, -⟩ | ⟨-, hend⟩
    · exact hsucceeded
    · rw [← show _ = reading r from hway] at hend
      cases hend
  · rw [hat] at hway hcount
    refine ⟨⟨hcount, congrArg Prod.snd hway⟩, .inr ⟨?_, hpc⟩⟩
    rcases reading_ends r with ⟨-, hend⟩ | ⟨hfailed, -⟩
    · rw [← show _ = reading r from hway] at hend
      cases hend
    · exact hfailed

/-- **Every run of the program settles**, whatever the replies are, and in whatever order the threads go. -/
theorem run_settles (r : Replies ε) : ∀ s, (program r).Reachable Anything s → Settled r s := by
  intro s hs
  have h := reachable_inv hs
  have hkeep : ∀ {t a u}, Inv r t → Anything t a → (program r).step t a = some u → Inv r u :=
    fun ht _ hstep => ht.step hstep
  have hends : ∀ t, (program r).Steps Anything s t → Inv r t := fun t hsteps => hsteps.invariant h hkeep
  refine ⟨h.way.trace_le, fun n job hjob hlive => h.attached hjob hlive, ⟨h.fault, ?_⟩, ⟨s.rank r, ?_⟩, ?_, ?_⟩
  · intro hpc
    have hblock := h.block
    rw [hpc] at hblock
    exact hblock
  · intro n t hn
    have := hn.measure hkeep (fun ht _ hstep => ht.rank_lt hstep) h
    omega
  · exact fun t hsteps hstuck => ((hends t hsteps).settled_stuck hstuck).1
  · exact fun t hsteps hstuck => ((hends t hsteps).settled_stuck hstuck).2

/-- `hmset` fails, and so does `get`. -/
def failing : Replies String :=
  { hmset := .error "WRONGTYPE", set := .ok true, get := .error "timeout", hgetall := .ok [] }

/-- The replies come at once; the continuations return late. -/
def early : List Action := List.flatten
  [[.main, .replies, .main, .take 2, .run 0, .main], [.main, .replies, .main, .take 0, .run 1, .main],
    [.main, .main, .main, .replies, .take 1, .run 2], [.finish 2, .finish 1, .finish 0]]

theorem run_settles_failing :
    ∃ h : ((program failing).exec Anything (program failing).start early).isSome,
      (Option.get _ h).trace.cout = ["set key success!!!"] ∧ Settled failing (Option.get _ h) := by
  have hplays : ((program failing).exec Anything (program failing).start early).isSome := rfl
  exact ⟨hplays, rfl, run_settles failing _ (reachable_get hplays)⟩

end AsyncCpp.RedisProgram
