import Reckon.Log

/-!
# Computations that log

A computation leaves entries in the log as it goes, and ends with a value or with a
failure. What comes after a failure is not carried out and leaves no entries; what was
left before it stays. The texts of the entries are not worked out before they are asked for.
-/

namespace Reckon

/-- The entries that a computation leaves, and how it ends. -/
structure Logged (ε α : Type) where
  log : Thunk (List Log.Entry)
  result : Except ε α

namespace Logged

variable {ε ε' α β : Type}

def entries (x : Logged ε α) : List Log.Entry := x.log.get

instance : Monad (Logged ε) where
  pure a := ⟨.pure [], .ok a⟩
  bind x f :=
    match x.result with
    | .ok a =>
      let y := f a
      ⟨⟨fun _ => x.entries ++ y.entries⟩, y.result⟩
    | .error e => ⟨x.log, .error e⟩

def write (es : Unit → List Log.Entry) : Logged ε Unit := ⟨⟨es⟩, .ok ()⟩

/-- A value or a failure that leaves no entries. -/
def quiet (x : Except ε α) : Logged ε α := ⟨.pure [], x⟩

def mapError (f : ε → ε') (x : Logged ε α) : Logged ε' α := ⟨x.log, x.result.mapError f⟩

/-- Carry on after a failure, which is handed on as a value. -/
def attempt (x : Logged ε α) : Logged ε' (Except ε α) := ⟨x.log, .ok x.result⟩

@[simp] theorem entries_pure (a : α) : (pure a : Logged ε α).entries = [] := rfl

@[simp] theorem result_pure (a : α) : (pure a : Logged ε α).result = .ok a := rfl

@[simp] theorem entries_write (es : Unit → List Log.Entry) :
    (write es : Logged ε Unit).entries = es () := rfl

@[simp] theorem result_write (es : Unit → List Log.Entry) :
    (write es : Logged ε Unit).result = .ok () := rfl

@[simp] theorem entries_quiet (x : Except ε α) : (quiet x).entries = [] := rfl

@[simp] theorem result_quiet (x : Except ε α) : (quiet x).result = x := rfl

@[simp] theorem entries_mapError (f : ε → ε') (x : Logged ε α) :
    (x.mapError f).entries = x.entries := rfl

@[simp] theorem result_mapError (f : ε → ε') (x : Logged ε α) :
    (x.mapError f).result = x.result.mapError f := rfl

@[simp] theorem entries_attempt (x : Logged ε α) :
    (x.attempt : Logged ε' (Except ε α)).entries = x.entries := rfl

@[simp] theorem result_attempt (x : Logged ε α) :
    (x.attempt : Logged ε' (Except ε α)).result = .ok x.result := rfl

theorem result_bind (x : Logged ε α) (f : α → Logged ε β) : (x >>= f).result =
    match x.result with
    | .ok a => (f a).result
    | .error e => .error e := by
  simp only [bind]
  cases x.result <;> rfl

theorem entries_bind (x : Logged ε α) (f : α → Logged ε β) : (x >>= f).entries =
    x.entries ++ match x.result with
    | .ok a => (f a).entries
    | .error _ => [] := by
  simp only [bind]
  cases x.result with
  | ok a => rfl
  | error e => exact (List.append_nil _).symm

end Logged

end Reckon
