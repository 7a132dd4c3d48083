import Aiqb.ParserEmits

namespace Aiqb
set_option autoImplicit true

variable {W : Type} {env : Env W} {s s' t : Parser W}

/-- A structure is handed over when the 16-bit index has reached its total. -/
def ParserEvent.AtTotal : ParserEvent → Prop
  | .registerProblem d => ∃ i : UInt16, i.toUInt64 = d.total
  | .registerAnswer d => ∃ i : UInt16, i.toUInt64 = d.total
  | _ => True

def LogGrows (s s' : Parser W) : Prop :=
  ∃ es, s'.log = s.log ++ es ∧ ∀ e ∈ es, e.AtTotal

namespace LogGrows

theorem same (h : s'.log = s.log) : LogGrows s s' := Emits.same h

theorem trans (h : LogGrows s t) (h' : LogGrows t s') : LogGrows s s' := Emits.trans h h'

theorem emit {e : ParserEvent} (he : e.AtTotal) (hl : s'.log = s.log ++ [e]) : LogGrows s s' :=
  Emits.emit he hl

theorem plain (h : Emits ParserEvent.Plain s s') : LogGrows s s' := by
  apply h.imp
  intro e he
  cases e with
  | registerProblem d => cases he
  | registerAnswer d => cases he
  | _ => trivial

theorem floatProblem (v : UInt64) (s : Parser W) : LogGrows s (Aiqb.floatProblem env v s) :=
  Emits.floatProblem (Q := ParserEvent.AtTotal) (fun i _ hi => ⟨i, hi⟩) (fun _ => trivial) v s

theorem floatAnswer (v : UInt64) (s : Parser W) : LogGrows s (Aiqb.floatAnswer env v s) :=
  Emits.floatAnswer (Q := ParserEvent.AtTotal) (fun i _ hi => ⟨i, hi⟩) (fun _ => trivial) v s

theorem parserChar (c : UInt8) (hr : s.status = .reading) :
    LogGrows s (Aiqb.parserChar env s c) := by
  apply parserChar_rule (P := LogGrows s) (.same rfl) hr
  · exact fun u u' hsame hu => hu.trans (.same hsame.log)
  · exact .same rfl
  · exact fun u label _ hu => hu.trans (.emit (e := .printed label s.token) trivial rfl)
  · exact fun _ _ _ u _ hru hu => hu.trans (plain (.integerToken s.token hru))
  · exact fun _ _ _ u _ hru hu => hu.trans
      (floatToken_rule (.same rfl) hru (fun _ _ => floatProblem _ u) fun _ _ => floatAnswer _ u)
  · exact fun _ _ _ u _ hu => (hu.trans (.emit (e := .printed .command s.token) trivial rfl)).trans
      (plain (.commandToken s.token _))

theorem parse (env : Env W) (bytes : List UInt8) (s : Parser W) :
    LogGrows s (Aiqb.parse env s bytes) := by
  induction bytes generalizing s with
  | nil => exact .same rfl
  | cons c bytes ih =>
    rw [parse_cons]
    have h : LogGrows s (s.andThen fun s => Aiqb.parserChar env s c) :=
      Parser.andThen_keeps (.same rfl) (parserChar c)
    exact h.trans (ih _)

end LogGrows

/-- Nothing is handed over at a total of 65536 or more. -/
theorem registered_atTotal (env : Env W) (w : W) (c₀ : UInt8) (bytes : List UInt8) :
    ∀ e ∈ (parse env (.start w c₀) bytes).log, e.AtTotal := by
  obtain ⟨es, hlog, hes⟩ := LogGrows.parse env bytes (.start w c₀)
  rw [hlog]
  exact hes

end Aiqb
