import ExactCover.Proofs.Events
import ExactCover.Proofs.Explore

/-!
# Scripts

What a search says next depends on the answers that it was given and on nothing else. A `Script`
keeps just that: the next call into foreign code, and for each answer what comes after it. A
`Listener` is foreign code that answers every call. Playing a script to a listener gives a log of
`Exchange`s, which tell how each call ended.

Three things about scripts carry what is said about searches later on. A call that fails is the last
one (`play_of_stop`), and a play ends early for no other reason (`exists_play_eq_concat`). If other
code stands in for one call, nothing changes before that call, and it is the same call
(`exists_play_mended`). And two plays agree up to the first poll that is answered differently
(`Plays.split`).
-/

set_option autoImplicit false

namespace ExactCover

variable {σ ο ε τ α ρ : Type}

/-- A call into foreign code during a search, without its answer. -/
inductive Signal (ο : Type) where
  /-- The observer is told that a search starts. -/
  | started
  /-- The observer is told that the search branches on a column with this many rows. -/
  | entered (rows : Nat)
  /-- The observer is told that a row is tried. -/
  | rowSelected
  /-- The observer is told that all rows of a column were tried. -/
  | ended
  /-- The caller is asked whether to cancel. -/
  | poll
  /-- The caller is told about a solution. -/
  | solution (chosen : List ο)
  deriving DecidableEq, Repr

/-- What the search learns from a call that does not fail. -/
@[reducible]
def Signal.Answer : Signal ο → Type
  | .poll => Bool
  | _ => Unit

/-- The event of a call, with the answer unless the call failed. -/
def Signal.event : (signal : Signal ο) → Option signal.Answer → Event ο
  | .started, _ => .started
  | .entered rows, _ => .entered rows
  | .rowSelected, _ => .rowSelected
  | .ended, _ => .ended
  | .poll, answer => .polled answer
  | .solution chosen, _ => .solution chosen

/-- The call that an event tells of. -/
def Event.signal : Event ο → Signal ο
  | .started => .started
  | .entered rows => .entered rows
  | .rowSelected => .rowSelected
  | .ended => .ended
  | .polled _ => .poll
  | .solution chosen => .solution chosen

@[simp]
theorem Signal.signal_event (signal : Signal ο) (answer : Option signal.Answer) :
    (signal.event answer).signal = signal := by
  cases signal <;> rfl

/-- A call into foreign code together with what came of it. -/
structure Exchange (ο ε τ : Type) where
  /-- The call, with its answer. -/
  event : Event ο
  /-- The way in which the call failed, if it did. -/
  stop? : Option (Stop ε τ)
  deriving DecidableEq, Repr

/-- Foreign code that answers every call or fails. -/
abbrev Listener (σ ο ε τ : Type) : Type := (signal : Signal ο) → PlainM σ ε τ signal.Answer

/-- The way in which code failed, if it did. -/
def failure? : Except (Stop ε τ) α → Option (Stop ε τ)
  | .ok _ => none
  | .error stop => some stop

namespace Listener

/-- The listener answers every call. -/
def Returns (listener : Listener σ ο ε τ) : Prop :=
  ∀ signal world, ∃ answer world', (listener signal).run.run world = (.ok answer, world')

/-- A listener in a world with a further part. That part decides who listens, and it takes note of
every exchange. -/
def alongside (listener : ρ → Listener σ ο ε τ) (note : Exchange ο ε τ → ρ → ρ) :
    Listener (σ × ρ) ο ε τ :=
  fun signal => ExceptT.mk fun (world, rest) =>
    let (result, world) := (listener rest signal).run.run world
    pure (result, world, note ⟨signal.event result.toOption, failure? result⟩ rest)

/-- The same listener next to a list of what is to be kept of each exchange. -/
def noted (listener : Listener σ ο ε τ) (keep : Exchange ο ε τ → ρ) :
    Listener (σ × List ρ) ο ε τ :=
  alongside (fun _ => listener) fun exchange log => log ++ [keep exchange]

/-- The same listener, except that the call with the given number goes to another one. -/
def mended (listener other : Listener σ ο ε τ) (k : Nat) : Listener (σ × Nat) ο ε τ :=
  alongside (fun count => if count = k then other else listener) fun _ count => count + 1

variable {listener other : Listener σ ο ε τ} {signal : Signal ο} {world : σ} {k count : Nat}

theorem run_noted (keep : Exchange ο ε τ → ρ) (log : List ρ) :
    (listener.noted keep signal).run.run (world, log) =
      let (result, world) := (listener signal).run.run world
      (result, world, log ++ [keep ⟨signal.event result.toOption, failure? result⟩]) :=
  rfl

theorem run_mended_self :
    (listener.mended other k signal).run.run (world, k) =
      let (result, world) := (other signal).run.run world
      (result, world, k + 1) := by
  show (let (result, world) := ((if k = k then other else listener) signal).run.run world
    (result, world, k + 1)) = _
  rw [if_pos rfl]
  rfl

theorem run_mended_of_ne (h : count ≠ k) :
    (listener.mended other k signal).run.run (world, count) =
      let (result, world) := (listener signal).run.run world
      (result, world, count + 1) := by
  show (let (result, world) := ((if count = k then other else listener) signal).run.run world
    (result, world, count + 1)) = _
  rw [if_neg h]
  rfl

end Listener

/-- What is to be said, in its order. What comes later may depend on the answers. -/
inductive Script (ο : Type) where
  /-- There is nothing more to say. -/
  | done
  /-- The next call, and what comes after each answer. -/
  | say (signal : Signal ο) (next : signal.Answer → Script ο)

namespace Script

/-- Makes the calls of a script, up to the first that fails. -/
def run (listener : Listener σ ο ε τ) : Script ο → PlainM σ ε τ Unit
  | .done => pure ()
  | .say signal next => do
    let answer ← listener signal
    (next answer).run listener

/-- The exchanges between a script and a listener, how they ended, and the world after them. -/
def play (listener : Listener σ ο ε τ) :
    Script ο → σ → List (Exchange ο ε τ) × Except (Stop ε τ) Unit × σ
  | .done, world => ([], .ok (), world)
  | .say signal next, world =>
    match (listener signal).run.run world with
    | (.error stop, world) => ([⟨signal.event none, some stop⟩], .error stop, world)
    | (.ok answer, world) =>
      let (log, rest) := (next answer).play listener world
      (⟨signal.event (some answer), none⟩ :: log, rest)

variable {listener : Listener σ ο ε τ} {signal : Signal ο} {next : signal.Answer → Script ο}
  {world world' : σ}

theorem play_say_of_error {stop : Stop ε τ}
    (h : (listener signal).run.run world = (.error stop, world')) :
    (say signal next).play listener world =
      ([⟨signal.event none, some stop⟩], .error stop, world') := by
  rw [play, h]

theorem play_say_of_ok {answer : signal.Answer}
    (h : (listener signal).run.run world = (.ok answer, world')) :
    (say signal next).play listener world =
      (⟨signal.event (some answer), none⟩ :: ((next answer).play listener world').1,
        ((next answer).play listener world').2) := by
  rw [play, h]

/-- The first call of a play is the one that the script begins with. -/
theorem exists_play_say_eq_cons (listener : Listener σ ο ε τ) (signal : Signal ο)
    (next : signal.Answer → Script ο) (world : σ) :
    ∃ exchange rest, exchange.event.signal = signal ∧
      ((say signal next).play listener world).1 = exchange :: rest := by
  cases hcall : (listener signal).run.run world with
  | mk result world' =>
    cases result with
    | error stop =>
      rw [play_say_of_error hcall]
      exact ⟨⟨signal.event none, some stop⟩, [], signal.signal_event none, rfl⟩
    | ok answer =>
      rw [play_say_of_ok hcall]
      exact ⟨⟨signal.event (some answer), none⟩, _, signal.signal_event (some answer), rfl⟩

/-- Playing a script does what running it does. -/
theorem run_eq_play (script : Script ο) (listener : Listener σ ο ε τ) (world : σ) :
    (script.run listener).run.run world = (script.play listener world).2 := by
  induction script generalizing world with
  | done => rfl
  | say signal next ih =>
    rw [run, ExceptT.run_bind, StateT.run_bind]
    cases hcall : (listener signal).run.run world with
    | mk result world' =>
      cases result with
      | error stop =>
        rw [play_say_of_error hcall]
        rfl
      | ok answer =>
        rw [play_say_of_ok hcall]
        exact ih answer world'

/-- A call that fails is the last one, and the play ends as the call did. -/
theorem play_of_stop {script : Script ο} {before after : List (Exchange ο ε τ)} {event : Event ο}
    {stop : Stop ε τ} (h : (script.play listener world).1 = before ++ ⟨event, some stop⟩ :: after) :
    after = [] ∧ (script.play listener world).2.1 = .error stop := by
  induction script generalizing world before with
  | done =>
    rw [play] at h
    simp at h
  | say signal next ih =>
    cases hcall : (listener signal).run.run world with
    | mk result world' =>
      cases result with
      | error failure =>
        rw [play_say_of_error hcall] at h ⊢
        cases before with
        | nil =>
          obtain ⟨hfirst, hafter⟩ := List.cons.inj h
          cases hfirst
          exact ⟨hafter.symm, rfl⟩
        | cons first before => simp at h
      | ok answer =>
        rw [play_say_of_ok hcall] at h ⊢
        cases before with
        | nil => simp at h
        | cons first before => exact ih answer (List.cons.inj h).2

/-- Only a call that fails ends a play early. -/
theorem exists_play_eq_concat {script : Script ο} {stop : Stop ε τ}
    (h : (script.play listener world).2.1 = .error stop) :
    ∃ before event, (script.play listener world).1 = before ++ [⟨event, some stop⟩] := by
  induction script generalizing world with
  | done => contradiction
  | say signal next ih =>
    cases hcall : (listener signal).run.run world with
    | mk result world' =>
      cases result with
      | error failure =>
        rw [play_say_of_error hcall] at h ⊢
        rw [Except.error.inj h]
        exact ⟨[], signal.event none, rfl⟩
      | ok answer =>
        rw [play_say_of_ok hcall] at h ⊢
        obtain ⟨before, event, hlog⟩ := ih answer h
        exact ⟨⟨signal.event (some answer), none⟩ :: before, event, by rw [hlog]; rfl⟩

/-- A play ends as one of its calls failed, or not early. -/
theorem exists_mem_play_iff {script : Script ο} {stop : Stop ε τ} :
    (∃ exchange ∈ (script.play listener world).1, exchange.stop? = some stop) ↔
      (script.play listener world).2.1 = .error stop := by
  constructor
  · rintro ⟨⟨event, failure⟩, hmem, rfl⟩
    obtain ⟨before, after, hlog⟩ := List.append_of_mem hmem
    exact (play_of_stop hlog).2
  · intro h
    obtain ⟨before, event, hlog⟩ := exists_play_eq_concat h
    exact ⟨⟨event, some stop⟩, by simp [hlog], rfl⟩

/-- A play to a listener that answers every call comes to its end. -/
theorem play_of_returns (h : listener.Returns) (script : Script ο) (world : σ) :
    (script.play listener world).2.1 = .ok () := by
  induction script generalizing world with
  | done => rfl
  | say signal next ih =>
    obtain ⟨answer, world', hcall⟩ := h signal world
    rw [play_say_of_ok hcall]
    exact ih answer world'

/-- Taking notes does not change what a script does. -/
theorem run_noted (script : Script ο) (listener : Listener σ ο ε τ) (keep : Exchange ο ε τ → ρ)
    (world : σ) (log : List ρ) :
    (script.run (listener.noted keep)).run.run (world, log) =
      ((script.play listener world).2.1, (script.play listener world).2.2,
        log ++ (script.play listener world).1.map keep) := by
  induction script generalizing world log with
  | done =>
    rw [play, List.map_nil, List.append_nil]
    rfl
  | say signal next ih =>
    rw [run, ExceptT.run_bind, StateT.run_bind, Listener.run_noted]
    cases hcall : (listener signal).run.run world with
    | mk result world' =>
      cases result with
      | error stop =>
        rw [play_say_of_error hcall]
        rfl
      | ok answer =>
        rw [play_say_of_ok hcall]
        refine (ih answer world' _).trans ?_
        rw [List.append_assoc]
        rfl

/-- If another listener stands in for one call, the play goes as before up to that call, which is
made all the same and answered by the other listener. -/
theorem exists_play_mended {script : Script ο} {before after : List (Exchange ο ε τ)}
    {exchange : Exchange ο ε τ} (other : Listener σ ο ε τ) (count : Nat)
    (h : (script.play listener world).1 = before ++ exchange :: after) :
    ∃ exchange' rest, exchange'.event.signal = exchange.event.signal ∧
      (other.Returns → exchange'.stop? = none) ∧
      (script.play (listener.mended other (count + before.length)) (world, count)).1 =
        before ++ exchange' :: rest := by
  induction script generalizing world before count with
  | done =>
    rw [play] at h
    simp at h
  | say signal next ih =>
    cases before with
    | nil =>
      obtain ⟨first, rest, hfirst, hlog⟩ := exists_play_say_eq_cons listener signal next world
      obtain rfl : first = exchange := (List.cons.inj (hlog.symm.trans h)).1
      rw [hfirst]
      cases hcall : (other signal).run.run world with
      | mk result world' =>
        have hmended : (listener.mended other count signal).run.run (world, count) =
            (result, world', count + 1) := by
          rw [Listener.run_mended_self, hcall]
        cases result with
        | error failure =>
          refine ⟨_, _, signal.signal_event none, fun hreturns => ?_,
            congrArg Prod.fst (play_say_of_error hmended)⟩
          obtain ⟨answer, world'', hanswer⟩ := hreturns signal world
          rw [hcall] at hanswer
          cases hanswer
        | ok answer =>
          exact ⟨_, _, signal.signal_event (some answer), fun _ => rfl,
            congrArg Prod.fst (play_say_of_ok hmended)⟩
    | cons first before =>
      -- The count is that of the calls so far, so it is not yet the turn of the other listener.
      have hne : count ≠ count + (before.length + 1) := by omega
      cases hcall : (listener signal).run.run world with
      | mk result world' =>
        have hmended : (listener.mended other (count + (before.length + 1)) signal).run.run
            (world, count) = (result, world', count + 1) := by
          rw [Listener.run_mended_of_ne hne, hcall]
        cases result with
        | error failure =>
          rw [play_say_of_error hcall] at h
          simp at h
        | ok answer =>
          rw [play_say_of_ok hcall] at h
          obtain ⟨rfl, hrest⟩ := List.cons.inj h
          obtain ⟨exchange', rest, hsignal, hreturns, hplay⟩ := ih answer (count + 1) hrest
          refine ⟨exchange', rest, hsignal, hreturns, ?_⟩
          rw [List.length_cons, play_say_of_ok hmended]
          rw [Nat.add_assoc, Nat.add_comm 1] at hplay
          rw [hplay]
          rfl

/-! ## Finished plays -/

/-- The script can be played to its end with these events. -/
def Plays : Script ο → List (Event ο) → Prop
  | .done, events => events = []
  | .say signal next, events =>
    ∃ answer rest, events = signal.event (some answer) :: rest ∧ (next answer).Plays rest

theorem plays_of_play {script : Script ο} (h : (script.play listener world).2.1 = .ok ()) :
    script.Plays ((script.play listener world).1.map (·.event)) := by
  induction script generalizing world with
  | done => rfl
  | say signal next ih =>
    cases hcall : (listener signal).run.run world with
    | mk result world' =>
      cases result with
      | error failure =>
        rw [play_say_of_error hcall] at h
        contradiction
      | ok answer =>
        rw [play_say_of_ok hcall] at h ⊢
        exact ⟨answer, _, rfl, ih answer h⟩

/-- Where every poll is answered with no, none is answered with yes. -/
theorem polled_not_mem_play (h : ∀ world, ((listener .poll).run.run world).1 = .ok false)
    (script : Script ο) (world : σ) :
    .polled (some true) ∉ (script.play listener world).1.map (·.event) := by
  induction script generalizing world with
  | done => exact List.not_mem_nil
  | say signal next ih =>
    cases hcall : (listener signal).run.run world with
    | mk result world' =>
      cases result with
      | error stop =>
        rw [play_say_of_error hcall]
        cases signal <;> simp [Signal.event]
      | ok answer =>
        rw [play_say_of_ok hcall, List.map_cons, List.mem_cons, not_or]
        refine ⟨?_, ih answer world'⟩
        cases signal with
        | poll =>
          have hanswer := h world
          rw [hcall] at hanswer
          rw [Except.ok.inj hanswer]
          exact nofun
        | _ => exact nofun

/-- A play goes as one without cancelling goes up to the first poll that is answered with yes. -/
theorem Plays.split {script : Script ο} {before after full : List (Event ο)}
    (h : script.Plays (before ++ .polled (some true) :: after))
    (hfirst : .polled (some true) ∉ before) (hfull : script.Plays full)
    (hnone : .polled (some true) ∉ full) :
    ∃ rest, full = before ++ .polled (some false) :: rest := by
  induction script generalizing before full with
  | done =>
    rw [Plays] at h
    simp at h
  | say signal next ih =>
    obtain ⟨answer, rest, hevents, hrest⟩ := h
    obtain ⟨answer', rest', rfl, hrest'⟩ := hfull
    rw [List.mem_cons, not_or] at hnone
    cases before with
    | nil =>
      obtain ⟨hpoll, -⟩ := List.cons.inj hevents
      cases signal with
      | poll =>
        cases answer' with
        | true => exact absurd rfl hnone.1
        | false => exact ⟨rest', rfl⟩
      | _ => contradiction
    | cons first before =>
      obtain ⟨rfl, rfl⟩ := List.cons.inj hevents
      rw [List.mem_cons, not_or] at hfirst
      -- Neither play has a yes up to here, so what is said next is the same in both.
      have hanswer : answer' = answer := by
        cases signal with
        | poll =>
          cases answer' with
          | true => exact absurd rfl hnone.1
          | false =>
            cases answer with
            | true => exact absurd rfl hfirst.1
            | false => rfl
        | _ => rfl
      subst hanswer
      obtain ⟨rest, rfl⟩ := ih answer' hrest hfirst.2 hrest' hnone.2
      exact ⟨rest, rfl⟩

end Script

end ExactCover
