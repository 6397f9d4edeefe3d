import Reckon.Outcome

/-!
# Outcomes through the pipe

A worker has its outcome written as a record without nulls, and the batch has the record
checked again field by field. All that is asked of the library that does both is that it
reads an integer and a text as what they are, and leaves out nothing but nulls.
`Outcome.build_write` says that nothing is then lost or refused on the way, for any
outcome: a line number counted from 1 is read back as itself, an absent field is read back
as absent, and a result of zero or an empty error text counts as given.
-/

namespace Reckon

/-! ## Reading one field -/

theorem Record.required_eq_ok {α : Type} {r : Record} {name : Text} {reader : Reader α}
    {v : Value} {a : α} (hv : r.get? name = some v) (ha : reader v = .ok a) :
    r.required name reader = .ok a := by
  simp only [Record.required, hv, ha, Checked.under]

/-- An optional field is read back as it was written, absent or present. -/
theorem Record.optional_eq_ok {α : Type} {r : Record} {name : Text} {reader : Reader α}
    {a? : Option α} (write : α → Value) (hget : r.get? name = a?.map write)
    (hread : ∀ a, reader (write a) = .ok a) (hnull : ∀ a, write a ≠ .null) :
    r.optional name reader = .ok a? := by
  rw [Record.optional, hget]
  cases a? with
  | none => rfl
  | some a =>
      rw [Option.map_some]
      split
      case h_1 heq => exact absurd (Option.some.inj heq) (hnull a)
      case h_2 heq => cases heq
      case h_3 heq =>
        obtain rfl := Option.some.inj heq
        rw [hread]
        rfl

/-- A library reads integers and texts as what they are, and leaves nulls out when it
writes. -/
structure Record.Library.Faithful (library : Record.Library) : Prop where
  integer : ∀ n, library.integer (.integer n) = .ok n
  text : ∀ t, library.text (.text t) = .ok t
  write : ∀ r, library.write r = r.withoutNulls

theorem Record.Library.faithful_standard : Record.Library.standard.Faithful :=
  ⟨fun _ => rfl, fun _ => rfl, fun _ => rfl⟩

theorem Record.positiveBy_integer {integer : Record.Reader Int}
    (h : ∀ n, integer (.integer n) = .ok n) (p : Positive) :
    Record.Reader.positiveBy integer (.integer p.val) = .ok p := by
  simp [Record.Reader.positiveBy, h, p.property]

/-! ## Reading an outcome -/

namespace Outcome

/-- The fields that an outcome has. -/
def given (o : Outcome) : Record := o.fields.withoutNulls

theorem get?_line (o : Outcome) : o.given.get? "line".toList = some (.integer o.line.val) := by
  obtain ⟨line, expression, answer, kind⟩ := o
  cases answer <;> cases kind <;> rfl

theorem get?_expression (o : Outcome) :
    o.given.get? "expression".toList = some (.text o.expression) := by
  obtain ⟨line, expression, answer, kind⟩ := o
  cases answer <;> cases kind <;> rfl

theorem get?_result (o : Outcome) : o.given.get? "result".toList = o.result?.map .integer := by
  obtain ⟨line, expression, answer, kind⟩ := o
  cases answer <;> cases kind <;> rfl

theorem get?_error (o : Outcome) : o.given.get? "error".toList = o.error?.map .text := by
  obtain ⟨line, expression, answer, kind⟩ := o
  cases answer <;> cases kind <;> rfl

theorem get?_kind (o : Outcome) : o.given.get? "error_kind".toList = o.kind.map .text := by
  obtain ⟨line, expression, answer, kind⟩ := o
  cases answer <;> cases kind <;> rfl

theorem answerOf_eq (o : Outcome) : answerOf o.result? o.error? = .ok o.answer := by
  obtain ⟨line, expression, answer, kind⟩ := o
  cases answer <;> rfl

variable {library : Record.Library}

theorem build_given (h : library.Faithful) (o : Outcome) : build library o.given = .ok o := by
  have hline : o.given.required "line".toList (Record.Reader.positiveBy library.integer)
      = .ok o.line :=
    Record.required_eq_ok o.get?_line (Record.positiveBy_integer h.integer o.line)
  have hexpr : o.given.required "expression".toList library.text = .ok o.expression :=
    Record.required_eq_ok o.get?_expression (h.text o.expression)
  have hresult : o.given.optional "result".toList library.integer = .ok o.result? :=
    Record.optional_eq_ok .integer o.get?_result h.integer (fun _ h => by cases h)
  have herror : o.given.optional "error".toList library.text = .ok o.error? :=
    Record.optional_eq_ok .text o.get?_error h.text (fun _ h => by cases h)
  have hkind : o.given.optional "error_kind".toList library.text = .ok o.kind :=
    Record.optional_eq_ok .text o.get?_kind h.text (fun _ h => by cases h)
  simp only [build, hline, hexpr, hresult, herror, hkind, Checked.both, answerOf_eq]
  rfl

/-- Checking the record that is written of an outcome gives the outcome back. -/
theorem build_write (h : library.Faithful) (o : Outcome) :
    build library (o.write library) = .ok o := by
  rw [write, h.write]
  exact build_given h o

theorem ofRecord_toRecord (o : Outcome) : ofRecord o.toRecord = .ok o :=
  build_write Record.Library.faithful_standard o

end Outcome

end Reckon
