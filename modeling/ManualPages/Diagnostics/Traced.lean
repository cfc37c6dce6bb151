import ManualPages.Diagnostics.Event

/-! # Traced computations

A value together with the events on the way to it.  The value never depends on the
events: `value` of a sequence of steps is the sequence of the steps' values, which the
`value_` lemmas say, so that a law about answers need not speak of events.
-/

namespace ManualPages

/-- A value and the events on the way to it, in order. -/
structure Traced (α : Type) where
  value : α
  events : List Event := []

namespace Traced

instance : Monad Traced where
  pure a := ⟨a, []⟩
  bind x f := ⟨(f x.value).value, x.events ++ (f x.value).events⟩

def report (event : Event) : Traced Unit := ⟨(), [event]⟩

def reportAll (events : List Event) : Traced Unit := ⟨(), events⟩

@[simp] theorem value_pure {α : Type} (a : α) : (pure a : Traced α).value = a := rfl

@[simp] theorem events_pure {α : Type} (a : α) : (pure a : Traced α).events = [] := rfl

@[simp] theorem value_bind {α β : Type} (x : Traced α) (f : α → Traced β) :
    (x >>= f).value = (f x.value).value := rfl

@[simp] theorem events_bind {α β : Type} (x : Traced α) (f : α → Traced β) :
    (x >>= f).events = x.events ++ (f x.value).events := rfl

@[simp] theorem value_map {α β : Type} (f : α → β) (x : Traced α) :
    (f <$> x).value = f x.value := rfl

/-- A fold whose steps are traced has the value of the fold of the steps' values. -/
theorem value_foldlM {α β : Type} (f : β → α → Traced β) (b : β) (xs : List α) :
    (xs.foldlM f b).value = xs.foldl (fun b a => (f b a).value) b := by
  induction xs generalizing b with
  | nil => rfl
  | cons a xs ih => simp [ih]

end Traced

end ManualPages
