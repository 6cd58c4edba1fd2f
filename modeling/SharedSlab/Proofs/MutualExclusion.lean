import Mathlib.Logic.Function.Basic
import SharedSlab.Proofs.LockPrograms

set_option autoImplicit false

/-!
# Processes that share a lock

Any number of processes make calls on one lock word, in any order; the steps of their calls are
interleaved in any way, and a process may die between any two of them. What has been answered is
kept in a log, and the log says who is between taking the lock and its release. That is at most one
process, the one that the word names; a live one loses the lock to nobody, and a dead one loses it
once.
-/

namespace SharedSlab

/-- A process that has died is seen by probes until its parent has collected it. -/
inductive Life
  | running
  | defunct
  | gone
deriving DecidableEq

structure LockTask where
  call : LockCall
  rest : LockProgram

structure LockEvent where
  pid : Nat
  call : LockCall
  answer : LockAnswer
deriving DecidableEq

namespace LockEvent

def taker (e : LockEvent) : Option Nat :=
  match e.call, e.answer with
  | .lock, .flag true | .tryLock, .flag true => some e.pid
  | _, _ => none

def released (e : LockEvent) : Option Nat :=
  match e.call, e.answer with
  | .unlock, .flag true => some e.pid
  | .forceUnlock pid, .flag true => some pid.val
  | .recover, .evicted (some pid) => some pid
  | _, _ => none

end LockEvent

/-- The process has taken the lock, and it has not been released since. The log has its newest event
first. -/
def Holds (pid : Nat) : List LockEvent → Prop
  | [] => False
  | e :: log => e.taker = some pid ∨ e.released ≠ some pid ∧ Holds pid log

def lastTaker (log : List LockEvent) : Option Nat := log.findSome? LockEvent.taker

def evictions (pid : Nat) (log : List LockEvent) : Nat :=
  log.countP fun e => e.call = .recover ∧ e.answer = .evicted (some pid)

inductive LockMove
  | call (p : Pid) (call : LockCall)
  | step (p : Pid)
  | die (p : Pid)
  | collect (p : Pid)

/-- The lock word, and where every process is. A process id that is never used is that of a process
that makes no call. -/
structure LockRun where
  word : UInt64
  life : Nat → Life
  task : Nat → Option LockTask
  log : List LockEvent

namespace LockRun

def start : LockRun := ⟨0, fun _ => .running, fun _ => none, []⟩

def caller (r : LockRun) (p : Pid) : Caller := ⟨p.val, p.pos, p.lt, fun pid => r.life pid ≠ .gone⟩

/-- The lock of a process is released by force only once it is dead. -/
def Admits (life : Nat → Life) : LockCall → Prop
  | .forceUnlock q => life q.val ≠ .running
  | _ => True

instance (life : Nat → Life) : (call : LockCall) → Decidable (Admits life call)
  | .forceUnlock q => inferInstanceAs (Decidable (life q.val ≠ .running))
  | .lock | .tryLock | .unlock | .recover => inferInstanceAs (Decidable True)

def setTask (r : LockRun) (p : Pid) (t : Option LockTask) : LockRun :=
  { r with task := Function.update r.task p.val t }

def settle (r : LockRun) (p : Pid) (call : LockCall) : LockProgram → LockRun
  | .done answer =>
    if call = .lock ∧ answer = .flag false then r.setTask p (some ⟨call, call.program p.word⟩)
    else { r.setTask p none with log := ⟨p.val, call, answer⟩ :: r.log }
  | rest => r.setTask p (some ⟨call, rest⟩)

def advance (r : LockRun) (p : Pid) : LockRun :=
  match r.task p.val with
  | none => r
  | some t =>
    let (rest, word) := t.rest.step (r.caller p) r.word
    { r with word := word }.settle p t.call rest

/-- What cannot happen changes nothing: a dead process does nothing more, and one process makes one
call at a time. -/
def move (r : LockRun) : LockMove → LockRun
  | .call p call =>
    if r.life p.val = .running ∧ (r.task p.val).isNone ∧ Admits r.life call then
      r.setTask p (some ⟨call, call.program p.word⟩)
    else r
  | .step p => if r.life p.val = .running then r.advance p else r
  | .die p =>
    if r.life p.val = .running then { r with life := Function.update r.life p.val .defunct } else r
  | .collect p =>
    if r.life p.val = .defunct then { r with life := Function.update r.life p.val .gone } else r

def play (moves : List LockMove) : LockRun := moves.foldl move start

def Makes (r : LockRun) (p : Pid) (call : LockCall) : Prop :=
  r.life p.val = .running ∧ ∃ rest, r.task p.val = some ⟨call, rest⟩

end LockRun

/-- What can be left of a call that a process is making. What was found before may be stale; but who
was found dead is dead. -/
inductive Pending (life : Nat → Life) (p : Pid) : LockCall → LockProgram → Prop
  | whole {call : LockCall} (admitted : LockRun.Admits life call) :
    Pending life p call (call.program p.word)
  | take {call : LockCall} (locks : call = .lock ∨ call = .tryLock) :
    Pending life p call (.take p.word)
  | inspect (q : Pid) : Pending life p .recover (.inspect q.val)
  | evict (q : Pid) (dead : life q.val ≠ .running) : Pending life p .recover (.evict q.val)

theorem Pending.mono {life life' : Nat → Life} {p : Pid} {call : LockCall} {rest : LockProgram}
    (h : Pending life p call rest) (dead : ∀ pid, life pid ≠ .running → life' pid ≠ .running) :
    Pending life' p call rest := by
  cases h with
  | whole admitted =>
    apply Pending.whole
    cases call with
    | forceUnlock q => exact dead q.val admitted
    | _ => trivial
  | take locks => exact .take locks
  | inspect q => exact .inspect q
  | evict q hq => exact .evict q (dead q.val hq)

def AllPending (life : Nat → Life) (task : Nat → Option LockTask) : Prop :=
  ∀ p : Pid, life p.val = .running → ∀ call rest, task p.val = some ⟨call, rest⟩ →
    Pending life p call rest

theorem AllPending.none {life : Nat → Life} {task : Nat → Option LockTask}
    (h : AllPending life task) (p : Pid) : AllPending life (Function.update task p.val none) := by
  intro q running call rest left
  by_cases hq : q.val = p.val
  · rw [hq, Function.update_self] at left
    cases left
  · rw [Function.update_of_ne hq] at left
    exact h q running call rest left

theorem AllPending.some {life : Nat → Life} {task : Nat → Option LockTask} {p : Pid}
    {call : LockCall} {rest : LockProgram} (h : AllPending life task)
    (pending : Pending life p call rest) :
    AllPending life (Function.update task p.val (some ⟨call, rest⟩)) := by
  intro q running call' rest' left
  by_cases hq : q.val = p.val
  · rw [hq, Function.update_self] at left
    cases left
    cases Pid.ext hq
    exact pending
  · rw [Function.update_of_ne hq] at left
    exact h q running call' rest' left

namespace LockRun

variable {r : LockRun} {p : Pid}

inductive Advance (r : LockRun) (p : Pid) (call : LockCall) : LockRun → Prop
  | quiet {rest : LockProgram} (pending : Pending r.life p call rest) :
    Advance r p call (r.setTask p (some ⟨call, rest⟩))
  | answered {answer : LockAnswer} (taker : LockEvent.taker ⟨p.val, call, answer⟩ = none)
    (released : LockEvent.released ⟨p.val, call, answer⟩ = none) :
    Advance r p call { r.setTask p none with log := ⟨p.val, call, answer⟩ :: r.log }
  | taken {answer : LockAnswer} (free : r.word = 0)
    (taker : LockEvent.taker ⟨p.val, call, answer⟩ = some p.val)
    (released : LockEvent.released ⟨p.val, call, answer⟩ = none) :
    Advance r p call
      { r.setTask p none with word := p.word, log := ⟨p.val, call, answer⟩ :: r.log }
  | freed {answer : LockAnswer} (q : Pid) (held : r.word = q.word)
    (taker : LockEvent.taker ⟨p.val, call, answer⟩ = none)
    (released : LockEvent.released ⟨p.val, call, answer⟩ = some q.val)
    (cause : call = .unlock ∧ q = p ∨ r.life q.val ≠ .running) :
    Advance r p call { r.setTask p none with word := 0, log := ⟨p.val, call, answer⟩ :: r.log }

theorem settle_done {call : LockCall} {answer : LockAnswer}
    (h : ¬(call = .lock ∧ answer = .flag false)) :
    r.settle p call (.done answer) =
      { r.setTask p none with log := ⟨p.val, call, answer⟩ :: r.log } :=
  if_neg h

theorem advance_of_task {call : LockCall} {rest : LockProgram}
    (task : r.task p.val = some ⟨call, rest⟩) :
    r.advance p = { r with word := (rest.step (r.caller p) r.word).2 }.settle p call
      (rest.step (r.caller p) r.word).1 := by
  rw [advance, task]

theorem advance_refused {call : LockCall} (locks : call = .lock ∨ call = .tryLock) :
    Advance r p call (r.settle p call (.done (.flag false))) := by
  rcases locks with rfl | rfl
  · exact .quiet (.whole trivial)
  · exact .answered rfl rfl

theorem advance_exchange {call : LockCall} {q : Pid} (answer : Bool → LockAnswer)
    (released : LockEvent.released ⟨p.val, call, answer true⟩ = some q.val)
    (kept : LockEvent.released ⟨p.val, call, answer false⟩ = none)
    (taker : ∀ freed, LockEvent.taker ⟨p.val, call, answer freed⟩ = none)
    (cause : call = .unlock ∧ q = p ∨ r.life q.val ≠ .running) (lock : call ≠ .lock) :
    Advance r p call ({ r with word := (LockWord.compareExchange q.word 0 r.word).2 }.settle p call
      (.done (answer (LockWord.compareExchange q.word 0 r.word).1))) := by
  rw [settle_done fun h => lock h.1]
  by_cases held : r.word = q.word
  · rw [LockWord.compareExchange, if_pos held]
    exact .freed q held (taker true) released cause
  · rw [LockWord.compareExchange, if_neg held]
    exact .answered (taker false) kept

theorem advance_spec {call : LockCall} {rest : LockProgram}
    (task : r.task p.val = some ⟨call, rest⟩) (pending : Pending r.life p call rest)
    (word : r.word = 0 ∨ ∃ q : Pid, r.word = q.word) : Advance r p call (r.advance p) := by
  rw [advance_of_task task]
  cases pending with
  | whole admitted =>
    cases call with
    | lock | tryLock =>
      simp only [LockCall.program, LockProgram.step]
      by_cases free : r.word = 0
      · rw [if_pos free]
        exact .quiet (.take (by simp))
      · rw [if_neg free]
        exact advance_refused (by simp)
    | unlock =>
      exact advance_exchange .flag rfl rfl (fun freed => by cases freed <;> rfl)
        (.inl ⟨rfl, rfl⟩) (by rintro ⟨⟩)
    | forceUnlock q =>
      exact advance_exchange .flag rfl rfl (fun freed => by cases freed <;> rfl)
        (.inr admitted) (by rintro ⟨⟩)
    | recover =>
      simp only [LockCall.program, LockProgram.step]
      rcases word with free | ⟨q, held⟩
      · have nobody : LockWord.owner? r.word = none := by
          rw [free]
          rfl
        rw [nobody]
        exact .answered rfl rfl
      · have owner : LockWord.owner? r.word = some q.val := by rw [held, q.owner?_word]
        rw [owner]
        exact .quiet (.inspect q)
  | take locks =>
    by_cases free : r.word = 0
    · simp only [LockProgram.take, LockProgram.step, LockWord.compareExchange, if_pos free]
      rw [settle_done (by simp)]
      apply Advance.taken free
      · rcases locks with rfl | rfl <;> rfl
      · rcases locks with rfl | rfl <;> rfl
    · simp only [LockProgram.take, LockProgram.step, LockWord.compareExchange, if_neg free]
      exact advance_refused locks
  | inspect q =>
    simp only [LockProgram.inspect, LockProgram.step]
    by_cases lives : (r.caller p).isAlive q.val = true
    · rw [if_pos lives]
      exact .answered rfl rfl
    · rw [if_neg lives]
      apply Advance.quiet
      -- a probe tells only the collected from the others: who is not seen does not run
      apply Pending.evict
      intro running
      apply lives
      have hpos := q.pos
      simp [Caller.isAlive, caller, running, hpos]
  | evict q dead =>
    exact advance_exchange (fun freed => .evicted (if freed then some q.val else none)) rfl rfl
      (fun freed => by cases freed <;> rfl) (.inr dead) (by rintro ⟨⟩)

/-- The word and the log agree, no call is left with more than a step can leave of it, and nobody is
evicted twice. -/
structure Sound (r : LockRun) : Prop where
  holder : (r.word = 0 ∧ ∀ pid, ¬Holds pid r.log) ∨ ∃ p : Pid, r.word = p.word ∧
    lastTaker r.log = some p.val ∧ ∀ pid, Holds pid r.log ↔ pid = p.val
  pending : AllPending r.life r.task
  once : ∀ q : Pid, evictions q.val r.log ≤ 1
  gone : ∀ q : Pid, 0 < evictions q.val r.log → r.life q.val ≠ .running ∧ r.word ≠ q.word

theorem sound_start : Sound start where
  holder := .inl ⟨rfl, fun _ => id⟩
  pending _ _ _ _ h := nomatch h
  once _ := Nat.zero_le 1
  gone _ h := absurd h (Nat.lt_irrefl 0)

theorem Sound.word (so : r.Sound) : r.word = 0 ∨ ∃ q : Pid, r.word = q.word := by
  rcases so.holder with ⟨free, _⟩ | ⟨p, held, _⟩
  · exact .inl free
  · exact .inr ⟨p, held⟩

theorem Sound.not_holds (so : r.Sound) (free : r.word = 0) (pid : Nat) : ¬Holds pid r.log := by
  rcases so.holder with ⟨_, nobody⟩ | ⟨p, held, _⟩
  · exact nobody pid
  · exact absurd (held.symm.trans free) p.word_ne_zero

theorem Sound.holds_iff (so : r.Sound) {q : Pid} (held : r.word = q.word) (pid : Nat) :
    Holds pid r.log ↔ pid = q.val := by
  rcases so.holder with ⟨free, _⟩ | ⟨p, held', _, holds⟩
  · exact absurd (held.symm.trans free) q.word_ne_zero
  · cases Pid.word_inj (held.symm.trans held')
    exact holds pid

end LockRun

theorem evictions_cons (q : Nat) (e : LockEvent) (log : List LockEvent) :
    evictions q (e :: log) = evictions q log +
      if e.call = .recover ∧ e.answer = .evicted (some q) then 1 else 0 := by
  rw [evictions, List.countP_cons]
  simp only [decide_eq_true_eq]
  rfl

theorem evictions_cons_of_ne {q : Nat} {e : LockEvent} (log : List LockEvent)
    (h : e.released ≠ some q) : evictions q (e :: log) = evictions q log := by
  rw [evictions_cons, if_neg, Nat.add_zero]
  rintro ⟨hcall, hanswer⟩
  apply h
  rw [LockEvent.released, hcall, hanswer]

theorem evictions_cons_le (q : Nat) (e : LockEvent) (log : List LockEvent) :
    evictions q (e :: log) ≤ evictions q log + 1 := by
  rw [evictions_cons]
  split <;> omega

namespace LockRun

variable {r : LockRun} {p : Pid}

theorem Sound.advance {call : LockCall} {r' : LockRun} (so : r.Sound)
    (running : r.life p.val = .running) (h : r.Advance p call r') : r'.Sound := by
  cases h with
  | quiet left =>
    exact ⟨so.holder, so.pending.some left, so.once, so.gone⟩
  | @answered answer taker released =>
    set e : LockEvent := ⟨p.val, call, answer⟩ with he
    have holds : ∀ pid, Holds pid (e :: r.log) ↔ Holds pid r.log := by
      intro pid
      simp [Holds, taker, released]
    have count : ∀ q, evictions q (e :: r.log) = evictions q r.log := fun q =>
      evictions_cons_of_ne r.log (by rw [released]; exact nofun)
    refine ⟨?_, so.pending.none p, fun q => ?_, fun q hq => ?_⟩
    · simp only [holds, lastTaker, List.findSome?_cons, taker]
      exact so.holder
    · rw [count]
      exact so.once q
    · rw [count] at hq
      exact so.gone q hq
  | @taken answer free taker released =>
    set e : LockEvent := ⟨p.val, call, answer⟩ with he
    have count : ∀ q, evictions q (e :: r.log) = evictions q r.log := fun q =>
      evictions_cons_of_ne r.log (by rw [released]; exact nofun)
    refine ⟨.inr ⟨p, rfl, ?_, fun pid => ?_⟩, so.pending.none p, fun q => ?_,
      fun q hq => ?_⟩
    · rw [lastTaker, List.findSome?_cons, taker]
    · have before := so.not_holds free pid
      simp [Holds, taker, before, eq_comm]
    · rw [count]
      exact so.once q
    · rw [count] at hq
      -- who takes the lock runs, and the evicted do not
      have dead := (so.gone q hq).1
      refine ⟨dead, fun same => ?_⟩
      cases Pid.word_inj same
      exact dead running
  | @freed answer q held taker released cause =>
    set e : LockEvent := ⟨p.val, call, answer⟩ with he
    -- the word names `q`, and the evicted are never named again
    have fresh : evictions q.val r.log = 0 := by
      by_contra hne
      exact (so.gone q (Nat.pos_of_ne_zero hne)).2 held
    have count : ∀ q' : Pid, q' ≠ q → evictions q'.val (e :: r.log) = evictions q'.val r.log := by
      intro q' hne
      apply evictions_cons_of_ne
      rw [released]
      intro heq
      exact hne (Pid.ext (Option.some.inj heq).symm)
    refine ⟨.inl ⟨rfl, fun pid => ?_⟩, so.pending.none p, fun q' => ?_,
      fun q' hq' => ?_⟩
    · have before := so.holds_iff held pid
      simp [Holds, taker, before, released, eq_comm]
    · by_cases hq : q' = q
      · rw [hq]
        exact (evictions_cons_le _ _ _).trans (by rw [fresh])
      · rw [count q' hq]
        exact so.once q'
    · refine ⟨?_, q'.word_ne_zero.symm⟩
      by_cases hq : q' = q
      · cases hq
        rcases cause with ⟨unlocks, _⟩ | dead
        · -- who unlocks evicts nobody
          have same : evictions q.val (e :: r.log) = evictions q.val r.log := by
            rw [evictions_cons, if_neg (by simp [he, unlocks]), Nat.add_zero]
          rw [same, fresh] at hq'
          exact absurd hq' (Nat.lt_irrefl 0)
        · exact dead
      · rw [count q' hq] at hq'
        exact (so.gone q' hq').1

theorem Sound.buried {life : Nat → Life} (so : r.Sound)
    (dead : ∀ pid, r.life pid ≠ .running → life pid ≠ .running) :
    { r with life := life }.Sound where
  holder := so.holder
  pending q running call rest left := by
    apply Pending.mono (so.pending q _ call rest left) dead
    by_contra h
    exact dead q.val h running
  once := so.once
  gone q hq := ⟨dead q.val (so.gone q hq).1, (so.gone q hq).2⟩

theorem Sound.move (so : r.Sound) (m : LockMove) : (r.move m).Sound := by
  cases m with
  | call p call =>
    rw [LockRun.move]
    split
    · rename_i h
      exact ⟨so.holder, so.pending.some (.whole h.2.2), so.once, so.gone⟩
    · exact so
  | step p =>
    rw [LockRun.move]
    split
    · rename_i running
      cases task : r.task p.val with
      | none =>
        rw [LockRun.advance, task]
        exact so
      | some t =>
        have pending := so.pending p running t.call t.rest task
        exact so.advance running (advance_spec task pending so.word)
    · exact so
  | die p | collect p =>
    rw [LockRun.move]
    split
    · apply so.buried
      intro pid dead
      by_cases hp : pid = p.val
      · rw [hp, Function.update_self]
        exact nofun
      · rw [Function.update_of_ne hp]
        exact dead
    · exact so

theorem Sound.play (moves : List LockMove) : (LockRun.play moves).Sound := by
  induction moves using List.reverseRecOn with
  | nil => exact sound_start
  | append_singleton moves m ih =>
    rw [LockRun.play, List.foldl_append]
    exact ih.move m

theorem Sound.step {call : LockCall} (so : r.Sound) (makes : r.Makes p call) :
    Advance r p call (r.move (.step p)) := by
  obtain ⟨running, rest, task⟩ := makes
  rw [LockRun.move, if_pos running]
  exact advance_spec task (so.pending p running call rest task) so.word

theorem Sound.release {call : LockCall} {q : Pid} (so : r.Sound) (makes : r.Makes p call)
    (program : call.program p.word = .release q.word)
    (lock : call ≠ .lock ∧ call ≠ .tryLock ∧ call ≠ .recover) :
    (r.move (.step p)).log = ⟨p.val, call, .flag (r.word = q.word)⟩ :: r.log ∧
      (r.move (.step p)).word = if r.word = q.word then 0 else r.word := by
  obtain ⟨running, rest, task⟩ := makes
  have left : rest = .release q.word := by
    cases so.pending p running call rest task with
    | whole _ => exact program
    | take locks => exact absurd locks (not_or.2 ⟨lock.1, lock.2.1⟩)
    | inspect _ => exact absurd rfl lock.2.2
    | evict _ _ => exact absurd rfl lock.2.2
  rw [LockRun.move, if_pos running, advance_of_task task, left]
  simp only [LockProgram.release, LockProgram.step, LockWord.compareExchange]
  rw [settle_done fun h => lock.1 h.1]
  by_cases held : r.word = q.word
  · simp [held, setTask]
  · simp [held, setTask]

theorem released_recover {pid q : Nat} {answer : LockAnswer}
    (h : LockEvent.released ⟨pid, .recover, answer⟩ = some q) : answer = .evicted (some q) := by
  cases answer with
  | flag _ => exact nomatch h
  | evicted found =>
    cases found with
    | none => exact nomatch h
    | some _ => rw [Option.some.inj h]

theorem Sound.recover (so : r.Sound) (makes : r.Makes p .recover) :
    (r.move (.step p)).word = r.word ∧
        (∀ q, evictions q (r.move (.step p)).log = evictions q r.log) ∨
      ∃ q : Pid, r.word = q.word ∧ r.life q.val ≠ .running ∧ (r.move (.step p)).word = 0 ∧
        (r.move (.step p)).log = ⟨p.val, .recover, .evicted (some q.val)⟩ :: r.log := by
  have spec := so.step makes
  generalize r.move (.step p) = r' at spec
  cases spec with
  | quiet _ => exact .inl ⟨rfl, fun _ => rfl⟩
  | answered _ released =>
    apply Or.inl
    refine ⟨rfl, fun q => ?_⟩
    apply evictions_cons_of_ne
    rw [released]
    exact nofun
  | taken _ taker _ => cases taker
  | freed q held _ released cause =>
    apply Or.inr
    cases released_recover released
    refine ⟨q, held, ?_, rfl, rfl⟩
    rcases cause with ⟨unlocks, _⟩ | dead
    · cases unlocks
    · exact dead

/-- Of a live holder only its own `unlock` changes the word. -/
theorem Sound.kept {m : LockMove} (so : r.Sound) (held : r.word = p.word)
    (running : r.life p.val = .running) (changed : (r.move m).word ≠ r.word) :
    m = .step p ∧ r.Makes p .unlock := by
  cases m with
  | call q call =>
    apply absurd _ changed
    rw [LockRun.move]
    split <;> rfl
  | die q | collect q =>
    apply absurd _ changed
    rw [LockRun.move]
    split <;> rfl
  | step q =>
    by_cases lives : r.life q.val = .running
    · cases task : r.task q.val with
      | none =>
        rw [LockRun.move, if_pos lives, LockRun.advance, task] at changed
        exact absurd rfl changed
      | some t =>
        have makes : r.Makes q t.call := ⟨lives, t.rest, task⟩
        have spec := so.step makes
        generalize r.move (.step q) = r' at spec changed
        cases spec with
        | quiet _ => exact absurd rfl changed
        | answered _ _ => exact absurd rfl changed
        | taken free _ _ => exact absurd (held.symm.trans free) p.word_ne_zero
        | freed p' held' _ _ cause =>
          cases Pid.word_inj (held.symm.trans held')
          rcases cause with ⟨unlocks, rfl⟩ | dead
          · rw [unlocks] at makes
            exact ⟨rfl, makes⟩
          · exact absurd running dead
    · rw [LockRun.move, if_neg lives] at changed
      exact absurd rfl changed

structure Excludes (r : LockRun) : Prop where
  holder : (r.word = 0 ∧ ∀ pid, ¬Holds pid r.log) ∨ ∃ p : Pid, r.word = p.word ∧
    lastTaker r.log = some p.val ∧ ∀ pid, Holds pid r.log ↔ pid = p.val
  exclusive : ∀ pid pid', Holds pid r.log → Holds pid' r.log → pid = pid'
  unlock : ∀ p, r.Makes p .unlock →
    (r.move (.step p)).log = ⟨p.val, .unlock, .flag (r.word = p.word)⟩ :: r.log ∧
      (r.move (.step p)).word = if r.word = p.word then 0 else r.word
  forceUnlock : ∀ p q, r.Makes p (.forceUnlock q) →
    (r.move (.step p)).log = ⟨p.val, .forceUnlock q, .flag (r.word = q.word)⟩ :: r.log ∧
      (r.move (.step p)).word = if r.word = q.word then 0 else r.word
  recover : ∀ p, r.Makes p .recover →
    (r.move (.step p)).word = r.word ∧
        (∀ q, evictions q (r.move (.step p)).log = evictions q r.log) ∨
      ∃ q : Pid, r.word = q.word ∧ r.life q.val ≠ .running ∧ (r.move (.step p)).word = 0 ∧
        (r.move (.step p)).log = ⟨p.val, .recover, .evicted (some q.val)⟩ :: r.log
  kept : ∀ (p : Pid) (m : LockMove), r.word = p.word → r.life p.val = .running →
    (r.move m).word ≠ r.word → m = .step p ∧ r.Makes p .unlock
  once : ∀ q : Pid, evictions q.val r.log ≤ 1

theorem Sound.exclusive (so : r.Sound) {pid pid' : Nat} (h : Holds pid r.log)
    (h' : Holds pid' r.log) : pid = pid' := by
  rcases so.holder with ⟨_, nobody⟩ | ⟨p, _, _, holds⟩
  · exact absurd h (nobody pid)
  · rw [(holds pid).1 h, (holds pid').1 h']

theorem Sound.excludes (so : r.Sound) : r.Excludes where
  holder := so.holder
  exclusive _ _ := so.exclusive
  unlock _ makes := so.release makes rfl (by simp)
  forceUnlock _ _ makes := so.release makes rfl (by simp)
  recover _ := so.recover
  kept _ _ := so.kept
  once := so.once

end LockRun

/-- However the steps of the calls are interleaved with one another and with deaths, the lock has at
most one holder, whom nothing but its own `unlock` robs of it while it lives. -/
theorem lock_excludes :
    (∀ (self : Caller) (w : UInt64) (call : LockCall),
        .ok ((call.program self.word).alone self w) = call.atOnce self w) ∧
      ∀ moves : List LockMove, (LockRun.play moves).Excludes :=
  ⟨alone_program, fun moves => (LockRun.Sound.play moves).excludes⟩

def contender (i : Fin 3) : Pid := ⟨i + 1, i.val.succ_pos, by omega⟩

/-- The holder dies, two processes find it dead, and the one that evicts it takes the lock. -/
def takeover : List LockMove :=
  [.call (contender 0) .lock, .step (contender 0), .step (contender 0), .die (contender 0),
    .collect (contender 0), .call (contender 1) .recover, .call (contender 2) .recover,
    .step (contender 1), .step (contender 2), .step (contender 1), .step (contender 2),
    .step (contender 1), .step (contender 2), .call (contender 1) .lock, .step (contender 1),
    .step (contender 1)]

theorem lock_excludes_takeover :
    (LockRun.play takeover).log =
        [⟨2, .lock, .flag true⟩, ⟨3, .recover, .evicted none⟩, ⟨2, .recover, .evicted (some 1)⟩,
          ⟨1, .lock, .flag true⟩] ∧
      (LockRun.play takeover).word = (contender 1).word ∧ Holds 2 (LockRun.play takeover).log ∧
      (LockRun.play takeover).Excludes := by
  have logged : (LockRun.play takeover).log =
      [⟨2, .lock, .flag true⟩, ⟨3, .recover, .evicted none⟩, ⟨2, .recover, .evicted (some 1)⟩,
        ⟨1, .lock, .flag true⟩] := by decide
  have holds : Holds 2 (LockRun.play takeover).log := by
    rw [logged]
    exact .inl rfl
  exact ⟨logged, by decide, holds, lock_excludes.2 takeover⟩

end SharedSlab
