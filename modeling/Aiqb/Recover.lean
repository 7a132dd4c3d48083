import Aiqb.Loops
import Aiqb.Problem

namespace Aiqb
set_option autoImplicit true

open Loops

/-- `enum problem_ct` -/
def problemAddBias : UInt32 := 1
def problemColMajor : UInt32 := 2
def problemRowMajor : UInt32 := 4

/-- `(storage & flag) == flag` -/
def hasFlag (storage flag : UInt32) : Bool := storage &&& flag == flag

def alpha : UInt64 := 4607182418800017408

/-- The element behind a pointer, if it may be read. -/
def loadElement (a : Option Block) (i : UInt64) : Option UInt64 :=
  a.bind fun b => if i.toNat < b.length then some (b.cells i.toNat) else none

/-- `memcpy` of whole elements; a copy of no bytes accesses nothing. -/
def Block.copy (b : Block) (i : UInt64) (source : Option Block) (j bytes : UInt64) :
    Option Block :=
  let n := bytes.toNat / 8
  if n = 0 then some b
  else
    source.bind fun a =>
      if i.toNat + n ≤ b.length ∧ j.toNat + n ≤ a.length then
        some { b with
          cells := fun k =>
            if i.toNat ≤ k ∧ k < i.toNat + n then a.cells (j.toNat + (k - i.toNat))
            else b.cells k }
      else none

/-- The counters of the loops, and the block they fill. -/
structure Extraction where
  e : UInt64
  f : UInt64
  block : Block

/-- `for (e = 0; e < examples; e++) body` -/
def forE (examples : UInt64) (body : Nat → Extraction → Outcome Extraction) (n : Nat)
    (s : Extraction) : Outcome Extraction :=
  forLoop (fun s => s.e < examples) (fun s => { s with e := s.e + 1 }) body n { s with e := 0 }

/-- `for (f = 0; f < features; f++) body` -/
def forF (features : UInt64) (body : Nat → Extraction → Outcome Extraction) (n : Nat)
    (s : Extraction) : Outcome Extraction :=
  forLoop (fun s => s.f < features) (fun s => { s with f := s.f + 1 }) body n { s with f := 0 }

def onBlock (f : Extraction → Option Block) (_ : Nat) (s : Extraction) : Outcome Extraction :=
  .ofOption ((f s).map fun b => { s with block := b })

/-- The loop over the examples that copies rows, by what it copies for one. -/
def copyRows (examples : UInt64) (row : UInt64 → Block → Option Block) :
    Nat → Extraction → Outcome Extraction :=
  forE examples (onBlock fun s => row s.e s.block)

/-- The nested loops that store element by element, by the value for an example and a feature. -/
def storeColumns (examples features : UInt64) (value : UInt64 → UInt64 → Option UInt64) :
    Nat → Extraction → Outcome Extraction :=
  forE examples (forF features (onBlock fun s =>
    (value s.e s.f).bind (s.block.store (s.f * examples + s.e))))

namespace ProblemT

variable (p : ProblemT)

def rowOfX (e : UInt64) (X : Block) : Option Block :=
  X.copy (p.rows * e) p.data ((p.sizeX + p.sizeY) * e) (p.sizeX * 8)

def rowOfBiasedX (e : UInt64) (X : Block) : Option Block := do
  let X ← X.store (p.rows * e) alpha
  X.copy (p.rows * e + 1) p.data ((p.sizeX + p.sizeY) * e) (p.sizeX * 8)

def rowOfY (e : UInt64) (y : Block) : Option Block :=
  y.copy (p.rows * e) p.data ((p.sizeX + p.sizeY) * e + p.sizeX) (p.sizeY * 8)

def valueOfX (e f : UInt64) : Option UInt64 := loadElement p.data (e * (p.sizeX + p.sizeY) + f)

def valueOfBiasedX (e f : UInt64) : Option UInt64 :=
  if f = 0 then some alpha else loadElement p.data (e * (p.sizeX + p.sizeY) + (f - 1))

def valueOfY (e f : UInt64) : Option UInt64 :=
  loadElement p.data (e * (p.sizeX + p.sizeY) + p.sizeX + f)

def featuresOfX (storage : UInt32) : UInt64 :=
  if hasFlag storage problemAddBias then p.sizeX + 1 else p.sizeX

end ProblemT

/-- `_problem_recover_X`; the counters start with anything, and NULL is returned when the allocation
is refused. -/
def problemRecoverX (malloc : UInt64 → Option Block) (p : ProblemT) (storage : UInt32)
    (e f : UInt64) (n : Nat) : Outcome (Option Block) :=
  match malloc (p.rows * p.featuresOfX storage * 8) with
  | none => .finished none
  | some X =>
    (if hasFlag storage problemRowMajor then
      copyRows p.rows (if hasFlag storage problemAddBias then p.rowOfBiasedX else p.rowOfX) n
        ⟨e, f, X⟩
    else .finished ⟨e, f, X⟩).bind fun s =>
    (if hasFlag storage problemColMajor then
      storeColumns p.rows (p.featuresOfX storage)
        (if hasFlag storage problemAddBias then p.valueOfBiasedX else p.valueOfX) n s
    else .finished s).bind fun s => .finished (some s.block)

/-- One turn of the two outer loops, whose counters the loops in it use as well. -/
def recoverTurnY (p : ProblemT) (storage : UInt32) (n : Nat) (s : Extraction) :
    Outcome Extraction :=
  (if hasFlag storage problemRowMajor then copyRows p.rows p.rowOfY n s
    else .finished s).bind fun s =>
  if hasFlag storage problemColMajor then storeColumns p.rows p.sizeY p.valueOfY n s
    else .finished s

def problemRecoverY (malloc : UInt64 → Option Block) (p : ProblemT) (storage : UInt32)
    (e f : UInt64) (n : Nat) : Outcome (Option Block) :=
  match malloc (p.rows * p.sizeY * 8) with
  | none => .finished none
  | some y =>
    (forE p.rows (forF p.sizeY (recoverTurnY p storage)) n ⟨e, f, y⟩).bind fun s =>
      .finished (some s.block)

def Grants (malloc : UInt64 → Option Block) : Prop :=
  ∀ n, ∃ b, malloc n = some b ∧ b.bytes = n

/-- The element for an example and a column, of rows of the given width. -/
def elementAt (xs : List UInt64) (width e k : Nat) : UInt64 := xs.getD (e * width + k) 0

namespace ProblemT

def width (p : ProblemT) : Nat := p.sizeX.toNat + p.sizeY.toNat

def xValues (p : ProblemT) (xs : List UInt64) (e f : Nat) : UInt64 := elementAt xs p.width e f

def biasedValues (p : ProblemT) (xs : List UInt64) (e f : Nat) : UInt64 :=
  if f = 0 then alpha else elementAt xs p.width e (f - 1)

def yValues (p : ProblemT) (xs : List UInt64) (e f : Nat) : UInt64 :=
  elementAt xs p.width e (p.sizeX.toNat + f)

end ProblemT

section Loops

variable {last : UInt64} {body : Nat → Extraction → Outcome Extraction} {s : Extraction}
  {I : Nat → Extraction → Prop}

theorem forE_finished
    (hbody : ∀ k s, k < last.toNat → s.e.toNat = k → I k s →
      ∃ t, Settles (fun n => body n s) (.finished t) ∧ t.e = s.e ∧
        I (k + 1) { t with e := t.e + 1 })
    (h : I 0 { s with e := 0 }) :
    ∃ t, Settles (fun n => forE last body n s) (.finished t) ∧ t.e = last ∧ I last.toNat t :=
  counter_finished (fun _ => decide_eq_true_iff) (fun _ => rfl) hbody rfl h

theorem forF_finished
    (hbody : ∀ k s, k < last.toNat → s.f.toNat = k → I k s →
      ∃ t, Settles (fun n => body n s) (.finished t) ∧ t.f = s.f ∧
        I (k + 1) { t with f := t.f + 1 })
    (h : I 0 { s with f := 0 }) :
    ∃ t, Settles (fun n => forF last body n s) (.finished t) ∧ t.f = last ∧ I last.toNat t :=
  counter_finished (fun _ => decide_eq_true_iff) (fun _ => rfl) hbody rfl h

theorem forE_undefined (bad : Nat)
    (hbody : ∀ k s, k < bad → s.e.toNat = k → I k s →
      ∃ t, Settles (fun n => body n s) (.finished t) ∧ t.e = s.e ∧
        I (k + 1) { t with e := t.e + 1 })
    (hbad : ∀ s, s.e.toNat = bad → I bad s → Settles (fun n => body n s) .undefined)
    (hlt : bad < last.toNat) (h : I 0 { s with e := 0 }) :
    Settles (fun n => forE last body n s) .undefined :=
  counter_undefined bad (fun _ => decide_eq_true_iff) (fun _ => rfl) hbody hbad hlt rfl h

theorem forF_undefined (bad : Nat)
    (hbody : ∀ k s, k < bad → s.f.toNat = k → I k s →
      ∃ t, Settles (fun n => body n s) (.finished t) ∧ t.f = s.f ∧
        I (k + 1) { t with f := t.f + 1 })
    (hbad : ∀ s, s.f.toNat = bad → I bad s → Settles (fun n => body n s) .undefined)
    (hlt : bad < last.toNat) (h : I 0 { s with f := 0 }) :
    Settles (fun n => forF last body n s) .undefined :=
  counter_undefined bad (fun _ => decide_eq_true_iff) (fun _ => rfl) hbody hbad hlt rfl h

theorem forE_skip (h : last.toNat = 0) :
    Settles (fun n => forE last body n s) (.finished { s with e := 0 }) := by
  apply settles_stop
  rw [decide_eq_false_iff_not, UInt64.lt_iff_toNat_lt, h]
  exact Nat.not_lt_zero _

theorem forF_skip (h : last.toNat = 0) :
    Settles (fun n => forF last body n s) (.finished { s with f := 0 }) := by
  apply settles_stop
  rw [decide_eq_false_iff_not, UInt64.lt_iff_toNat_lt, h]
  exact Nat.not_lt_zero _

theorem not_succ_lt {i : UInt64} (h : i.toNat + 1 < 2 ^ 64) : ¬ i + 1 < i := by
  rw [UInt64.lt_iff_toNat_lt, UInt64.toNat_add, UInt64.toNat_one]
  omega

theorem forE_once {t : Extraction} (hpos : 0 < last.toNat) (hmax : last.toNat + 1 < 2 ^ 64)
    (hb : Settles (fun n => body n { s with e := 0 }) (.finished t)) (ht : t.e = last) :
    Settles (fun n => forE last body n s) (.finished { t with e := t.e + 1 }) := by
  have hc : decide (0 < last) = true := decide_eq_true (UInt64.lt_iff_toNat_lt.mpr hpos)
  have hstop : decide (t.e + 1 < last) = false := by
    rw [ht]
    exact decide_eq_false (not_succ_lt hmax)
  unfold forE
  exact for_once hc hb hstop

theorem forF_once {t : Extraction} (hpos : 0 < last.toNat) (hmax : last.toNat + 1 < 2 ^ 64)
    (hb : Settles (fun n => body n { s with f := 0 }) (.finished t)) (ht : t.f = last) :
    Settles (fun n => forF last body n s) (.finished { t with f := t.f + 1 }) := by
  have hc : decide (0 < last) = true := decide_eq_true (UInt64.lt_iff_toNat_lt.mpr hpos)
  have hstop : decide (t.f + 1 < last) = false := by
    rw [ht]
    exact decide_eq_false (not_succ_lt hmax)
  unfold forF
  exact for_once hc hb hstop

theorem settles_onBlock {f : Extraction → Option Block} (hf : f s = some b) :
    Settles (fun n => onBlock f n s) (.finished { s with block := b }) := by
  simp only [onBlock, hf]
  exact .const _

theorem settles_onBlock_undefined {f : Extraction → Option Block} (hf : f s = none) :
    Settles (fun n => onBlock f n s) .undefined := by
  simp only [onBlock, hf]
  exact .const _

end Loops

end Aiqb
