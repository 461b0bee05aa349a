import CidrCover.Event
import CidrCover.Fault

/-!
# Runs

A `Run` is what an activity does that can be seen from outside, in its order, together with its
result or the failure that ended it. An `Effect` is an event that goes to the log or a text that
goes to the output; what a run has put out before it failed stays put out. Runs are chained by
`bind`: the second activity takes place only if the first one has a result, and its effects come
after those of the first.
-/

namespace CidrCover

/-- Something that a run does and that can be seen from outside. -/
inductive Effect where
  /-- An event goes to the log. -/
  | noted (e : Event)
  /-- A text goes to the output. -/
  | printed (text : String)

namespace Effect

/-- The event that goes to the log, if one does. -/
def event? : Effect → Option Event
  | noted e => some e
  | printed _ => none

/-- The text that goes to the output, if one does. -/
def text? : Effect → Option String
  | noted _ => none
  | printed text => some text

end Effect

/-- The effects of an activity, and how it ended. -/
structure Run (α : Type) where
  effects : List Effect
  outcome : Except Failure α

namespace Run

/-- The events of a run. -/
def events {α : Type} (x : Run α) : List Event :=
  x.effects.filterMap Effect.event?

/-- The texts that a run has put out, one by one. -/
def texts {α : Type} (x : Run α) : List String :=
  x.effects.filterMap Effect.text?

/-- All that a run has put out. -/
def output {α : Type} (x : Run α) : String :=
  String.join x.texts

/-- The activity that has a result at once. -/
def ok {α : Type} (a : α) : Run α := ⟨[], .ok a⟩

/-- The activity that fails at once. -/
def fail {α : Type} (f : Failure) : Run α := ⟨[], .error f⟩

/-- Goes on with the result of an activity. -/
def bind {α β : Type} (x : Run α) (f : α → Run β) : Run β :=
  match x.outcome with
  | .error e => ⟨x.effects, .error e⟩
  | .ok a => ⟨x.effects ++ (f a).effects, (f a).outcome⟩

instance : Monad Run where
  pure := ok
  bind := bind

/-- Notes events in their order. -/
def noteAll (es : List Event) : Run Unit := ⟨es.map .noted, .ok ()⟩

/-- Notes an event. -/
def note (e : Event) : Run Unit := noteAll [e]

/-- Notes an event if the condition holds. -/
def noteIf (c : Bool) (e : Event) : Run Unit :=
  noteAll (if c then [e] else [])

/-- Puts out a text. -/
def print (text : String) : Run Unit := ⟨[.printed text], .ok ()⟩

/-- A check without effects. -/
def ofFault {α : Type} : Except Fault α → Run α
  | .ok a => ok a
  | .error f => fail f

/-- An activity whose effects are not looked at. -/
def ofFailure {α : Type} (x : Except Failure α) : Run α := ⟨[], x⟩

/-- An activity as part of another one, which a failure names. -/
def within {α : Type} (c : Context) (x : Run α) : Run α :=
  ⟨x.effects, x.outcome.mapError (·.within c)⟩

end Run

end CidrCover
