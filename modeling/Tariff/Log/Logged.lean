import Tariff.Log.Event

/-!
# Results with a log

`Logged ε α` is the outcome of a computation that reports events: a result or an
error, and the events up to there. An error ends the computation but keeps the events.

Forgetting the events is a map of monads, which is what `result_bind` and its
companions say: the result of a logged computation is that of the same steps without
a log, so that reasoning about results never meets the events.
-/

namespace Tariff

/-- A result or an error, with the events that led to it, the earliest first. -/
structure Logged (ε α : Type) where
  events : List Event
  result : Except ε α

namespace Logged

variable {ε α β : Type}

/-- A result without events. -/
def ofExcept (result : Except ε α) : Logged ε α := ⟨[], result⟩

/-- One event. -/
def emit (event : Event) : Logged ε Unit := ⟨[event], .ok ()⟩

/-- Goes on from a result, if there is one. -/
def bind (x : Logged ε α) (next : α → Logged ε β) : Logged ε β :=
  match x.result with
  | .ok a => ⟨x.events ++ (next a).events, (next a).result⟩
  | .error e => ⟨x.events, .error e⟩

instance : Monad (Logged ε) where
  pure a := ⟨[], .ok a⟩
  bind := bind

/-- Renames the error. -/
def mapError {δ : Type} (f : ε → δ) (x : Logged ε α) : Logged δ α :=
  ⟨x.events, x.result.mapError f⟩

/-- Adds the events that go with an error. -/
def onError (trace : ε → List Event) (x : Logged ε α) : Logged ε α :=
  match x.result with
  | .ok _ => x
  | .error e => ⟨x.events ++ trace e, .error e⟩

@[simp] theorem result_pure (a : α) : (pure a : Logged ε α).result = .ok a := rfl

@[simp] theorem events_pure (a : α) : (pure a : Logged ε α).events = [] := rfl

@[simp] theorem result_ofExcept (r : Except ε α) : (ofExcept r).result = r := rfl

@[simp] theorem events_ofExcept (r : Except ε α) : (ofExcept r).events = [] := rfl

@[simp] theorem result_emit (e : Event) : (emit e : Logged ε Unit).result = .ok () := rfl

@[simp] theorem events_emit (e : Event) : (emit e : Logged ε Unit).events = [e] := rfl

/-- The result of going on is going on from the result. -/
@[simp] theorem result_bind (x : Logged ε α) (next : α → Logged ε β) :
    (x >>= next).result = x.result >>= fun a => (next a).result := by
  change (bind x next).result = Except.bind x.result fun a => (next a).result
  unfold bind Except.bind
  split <;> simp_all

/-- Going on from a result keeps the events before it. -/
theorem events_bind_ok {x : Logged ε α} {a : α} (h : x.result = .ok a)
    (next : α → Logged ε β) : (x >>= next).events = x.events ++ (next a).events := by
  change (bind x next).events = _
  simp [bind, h]

/-- After an error there are no more events. -/
theorem events_bind_error {x : Logged ε α} {e : ε} (h : x.result = .error e)
    (next : α → Logged ε β) : (x >>= next).events = x.events := by
  change (bind x next).events = _
  simp [bind, h]

@[simp] theorem result_onError (trace : ε → List Event) (x : Logged ε α) :
    (x.onError trace).result = x.result := by
  unfold onError
  split <;> simp_all

@[simp] theorem result_mapError {δ : Type} (f : ε → δ) (x : Logged ε α) :
    (x.mapError f).result = x.result.mapError f := rfl

end Logged

end Tariff
