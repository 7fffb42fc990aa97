/-!
# Results with events

A result together with the events that happened on the way to it, oldest first.
-/

namespace Pipeline

/-- A result of type `α` and the events of type `ε` that led to it. -/
@[ext] structure Traced (ε α : Type) where
  events : List ε
  value : α
  deriving Repr

namespace Traced

variable {ε α β : Type}

/-- Events and no result. -/
def emitAll (events : List ε) : Traced ε Unit := ⟨events, ()⟩

/-- One event. -/
def emit (e : ε) : Traced ε Unit := emitAll [e]

instance : Monad (Traced ε) where
  pure a := ⟨[], a⟩
  bind x f :=
    let y := f x.value
    ⟨x.events ++ y.events, y.value⟩

@[simp] theorem events_pure (a : α) : (pure a : Traced ε α).events = [] := rfl

@[simp] theorem value_pure (a : α) : (pure a : Traced ε α).value = a := rfl

@[simp] theorem events_bind (x : Traced ε α) (f : α → Traced ε β) :
    (x >>= f).events = x.events ++ (f x.value).events := rfl

@[simp] theorem value_bind (x : Traced ε α) (f : α → Traced ε β) :
    (x >>= f).value = (f x.value).value := rfl

@[simp] theorem value_map (f : α → β) (x : Traced ε α) : (f <$> x).value = f x.value := rfl

instance : LawfulMonad (Traced ε) :=
  LawfulMonad.mk' (Traced ε)
    (fun x => Traced.ext (List.append_nil x.events) rfl)
    (fun _ _ => rfl)
    (fun x f g => Traced.ext (List.append_assoc x.events _ _) rfl)

end Traced

end Pipeline
