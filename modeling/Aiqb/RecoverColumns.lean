import Aiqb.Recover
import Mathlib.Tactic.Ring

namespace Aiqb
set_option autoImplicit true

open Loops

section Layouts

variable {stride i i' j j' n k : Nat}

theorem index_lt (hi : i < stride) (hj : j < n) : j * stride + i < n * stride := by
  have hle := Nat.mul_le_mul_right stride (Nat.succ_le_of_lt hj)
  rw [Nat.succ_mul] at hle
  omega

theorem index_inj (hi : i < stride) (hi' : i' < stride)
    (h : j * stride + i = j' * stride + i') : j = j' ∧ i = i' := by
  have hpos : 0 < stride := Nat.lt_of_le_of_lt (Nat.zero_le i) hi
  have hdiv := congrArg (· / stride) h
  have hmod := congrArg (· % stride) h
  simp only [Nat.mul_add_mod_self_right, Nat.mod_eq_of_lt hi, Nat.mod_eq_of_lt hi'] at hmod
  simp only [Nat.mul_comm _ stride, Nat.mul_add_div hpos, Nat.div_eq_of_lt hi,
    Nat.div_eq_of_lt hi', Nat.add_zero] at hdiv
  exact ⟨hdiv, hmod⟩

theorem exists_index (h : k < n * stride) : ∃ j < n, ∃ i < stride, k = j * stride + i := by
  have hpos : 0 < stride := by
    by_contra h0
    rw [Nat.eq_zero_of_not_pos h0, Nat.mul_zero] at h
    exact Nat.not_lt_zero k h
  refine ⟨k / stride, (Nat.div_lt_iff_lt_mul hpos).mpr h, k % stride, Nat.mod_lt k hpos, ?_⟩
  rw [Nat.mul_comm]
  exact (Nat.div_add_mod k stride).symm

end Layouts

section Columns

variable {examples features : UInt64} {value : UInt64 → UInt64 → Option UInt64}
  {v : Nat → Nat → UInt64} {s : Extraction}

/-- The columns hold the values of the first `k` examples, and the first `j` of the one behind. -/
def ColumnsHold (examples features : UInt64) (v : Nat → Nat → UInt64) (k j : Nat) (b : Block) :
    Prop :=
  ∀ e < examples.toNat, ∀ f < features.toNat, e < k ∨ e = k ∧ f < j →
    b.cells (f * examples.toNat + e) = v e f

def Values (examples features : UInt64) (value : UInt64 → UInt64 → Option UInt64)
    (v : Nat → Nat → UInt64) : Prop :=
  ∀ e f : UInt64, e.toNat < examples.toNat → f.toNat < features.toNat →
    value e f = some (v e.toNat f.toNat)

theorem column_step {e f : UInt64} {b : Block} (he : e.toNat < examples.toNat)
    (hf : f.toNat < features.toNat) (hroom : features.toNat * examples.toNat ≤ b.length)
    (hb : ColumnsHold examples features v e.toNat f.toNat b) :
    ∃ b', b.store (f * examples + e) (v e.toNat f.toNat) = some b' ∧
      ColumnsHold examples features v e.toNat (f.toNat + 1) b' := by
  have hlt := index_lt he hf
  have hlen := b.length_lt
  have hindex : (f * examples + e).toNat = f.toNat * examples.toNat + e.toNat := by
    rw [UInt64.toNat_add, UInt64.toNat_mul]
    omega
  obtain ⟨b', hs⟩ := b.store_inside (i := f * examples + e) (by omega) (v e.toNat f.toNat)
  refine ⟨b', hs, ?_⟩
  intro e' he' f' hf' hdone
  rw [Block.store_cells hs, hindex]
  by_cases hsame : f' * examples.toNat + e' = f.toNat * examples.toNat + e.toNat
  · obtain ⟨rfl, rfl⟩ := index_inj he' he hsame
    rw [Function.update_self]
  · rw [Function.update_of_ne hsame]
    apply hb e' he' f' hf'
    rcases hdone with hlt | ⟨rfl, hlt⟩
    · exact .inl hlt
    · refine .inr ⟨rfl, ?_⟩
      have hne : f' ≠ f.toNat := by
        rintro rfl
        exact hsame rfl
      omega

theorem column_run (hv : Values examples features value v) (he : s.e.toNat < examples.toNat)
    (hroom : features.toNat * examples.toNat ≤ s.block.length)
    (hb : ColumnsHold examples features v s.e.toNat 0 s.block) :
    ∃ t, Settles (fun n => forF features (onBlock fun s =>
        (value s.e s.f).bind (s.block.store (s.f * examples + s.e))) n s) (.finished t) ∧
      t.f = features ∧ t.e = s.e ∧ t.block.bytes = s.block.bytes ∧
      ColumnsHold examples features v s.e.toNat features.toNat t.block := by
  apply forF_finished (I := fun j t => t.e = s.e ∧ t.block.bytes = s.block.bytes ∧
    ColumnsHold examples features v s.e.toNat j t.block)
  · rintro j t hj hf ⟨hte, hbytes, hcols⟩
    have hte' : t.e.toNat < examples.toNat := hte ▸ he
    have hlen : t.block.length = s.block.length := by
      rw [Block.length, hbytes, Block.length]
    rw [← hte, ← hf] at hcols
    obtain ⟨b', hs, hcols'⟩ := column_step hte' (hf ▸ hj) (hlen ▸ hroom) hcols
    have hvalue := hv t.e t.f hte' (hf ▸ hj)
    refine ⟨{ t with block := b' }, ?_, rfl, hte, ?_, ?_⟩
    · apply settles_onBlock
      rw [hvalue, Option.bind_some, hs]
    · exact (Block.store_bytes hs).trans hbytes
    · rw [hte, hf] at hcols'
      exact hcols'
  · exact ⟨rfl, rfl, hb⟩

theorem storeColumns_spec (hv : Values examples features value v)
    (hroom : features.toNat * examples.toNat ≤ s.block.length) :
    ∃ t, Settles (fun n => storeColumns examples features value n s) (.finished t) ∧
      t.e = examples ∧ (0 < examples.toNat → t.f = features) ∧ t.block.bytes = s.block.bytes ∧
      ∀ e < examples.toNat, ∀ f < features.toNat,
        t.block.cells (f * examples.toNat + e) = v e f := by
  have hrun : ∃ t, Settles (fun n => storeColumns examples features value n s) (.finished t) ∧
      t.e = examples ∧ (0 < examples.toNat → t.f = features) ∧ t.block.bytes = s.block.bytes ∧
      ColumnsHold examples features v examples.toNat 0 t.block := by
    apply forE_finished (I := fun k t => (0 < k → t.f = features) ∧
      t.block.bytes = s.block.bytes ∧ ColumnsHold examples features v k 0 t.block)
    · rintro k t hk hek ⟨_, hbytes, hcols⟩
      have hlen : t.block.length = s.block.length := by
        rw [Block.length, hbytes, Block.length]
      rw [← hek] at hcols
      obtain ⟨t', ht', hf, he, hbytes', hcols'⟩ := column_run hv (hek ▸ hk) (hlen ▸ hroom) hcols
      refine ⟨t', ht', he, fun _ => hf, hbytes'.trans hbytes, ?_⟩
      intro e he' f hf' hdone
      apply hcols' e he' f hf'
      omega
    · refine ⟨fun h => absurd h (Nat.lt_irrefl 0), rfl, ?_⟩
      intro e _ f _ hdone
      omega
  obtain ⟨t, ht, he, hf, hbytes, hcols⟩ := hrun
  refine ⟨t, ht, he, hf, hbytes, ?_⟩
  intro e he' f hf'
  exact hcols e he' f hf' (.inl he')

end Columns

section Elements

variable {p : ProblemT} {xs : List UInt64}

theorem loadElement_read (hr : readArray a n = some xs) (hi : i.toNat < n) :
    loadElement a i = some (xs.getD i.toNat 0) := by
  have hne : ¬ n = 0 := by omega
  rw [readArray, if_neg hne] at hr
  obtain ⟨b, rfl, hb⟩ := Option.bind_eq_some_iff.mp hr
  simp only [Option.ite_none_right_eq_some, Option.some.injEq] at hb
  obtain ⟨hle, rfl⟩ := hb
  rw [loadElement, Option.bind_some, if_pos (by omega), List.getD_eq_getElem?_getD,
    List.getElem?_map, List.getElem?_range hi]
  rfl

theorem row_toNat (hdata : readArray p.data p.elements = some xs) {e : UInt64}
    (he : e.toNat < p.rows.toNat) :
    (p.sizeX + p.sizeY).toNat = p.width ∧
      (e * (p.sizeX + p.sizeY)).toNat = e.toNat * p.width ∧
      e.toNat * p.width + p.width ≤ p.elements ∧ p.elements < 2 ^ 61 := by
  have hbound := readArray_bound hdata
  have hrow : e.toNat * p.width + p.width ≤ p.elements := by
    rw [← Nat.succ_mul]
    exact Nat.mul_le_mul_right _ he
  have hwidth : (p.sizeX + p.sizeY).toNat = p.width := by
    rw [UInt64.toNat_add, Nat.mod_eq_of_lt]
    · rfl
    · have hw : p.sizeX.toNat + p.sizeY.toNat = p.width := rfl
      omega
  refine ⟨hwidth, ?_, hrow, hbound⟩
  rw [UInt64.toNat_mul, hwidth]
  exact Nat.mod_eq_of_lt (by omega)

theorem load_value (hdata : readArray p.data p.elements = some xs) {e i : UInt64}
    (he : e.toNat < p.rows.toNat) (hk : k < p.width) (hi : i.toNat = e.toNat * p.width + k) :
    loadElement p.data i = some (elementAt xs p.width e.toNat k) := by
  obtain ⟨_, _, hrow, _⟩ := row_toNat hdata he
  rw [loadElement_read hdata (by omega), hi, elementAt]

theorem valueOfX_values (hdata : readArray p.data p.elements = some xs) :
    Values p.rows p.sizeX p.valueOfX (p.xValues xs) := by
  intro e f he hf
  obtain ⟨_, hstart, hrow, hbound⟩ := row_toNat hdata he
  have hw : p.width = p.sizeX.toNat + p.sizeY.toNat := rfl
  apply load_value hdata he (by omega)
  rw [UInt64.toNat_add, hstart]
  omega

theorem valueOfBiasedX_values (hdata : readArray p.data p.elements = some xs)
    (hf : (p.sizeX + 1).toNat = p.sizeX.toNat + 1) :
    Values p.rows (p.sizeX + 1) p.valueOfBiasedX (p.biasedValues xs) := by
  intro e f he hlt
  rw [ProblemT.valueOfBiasedX, ProblemT.biasedValues]
  by_cases h0 : f = 0
  · subst h0
    rfl
  · have hpos : 0 < f.toNat := Nat.pos_of_ne_zero fun h => h0 (UInt64.toNat_inj.mp h)
    have hpred : (f - 1).toNat = f.toNat - 1 := by
      rw [UInt64.toNat_sub, UInt64.toNat_one]
      have := f.toNat_lt
      omega
    obtain ⟨_, hstart, hrow, hbound⟩ := row_toNat hdata he
    have hw : p.width = p.sizeX.toNat + p.sizeY.toNat := rfl
    rw [if_neg h0, if_neg (Nat.ne_of_gt hpos)]
    apply load_value hdata he (by omega)
    rw [UInt64.toNat_add, hstart, hpred]
    omega

theorem valueOfY_values (hdata : readArray p.data p.elements = some xs) :
    Values p.rows p.sizeY p.valueOfY (p.yValues xs) := by
  intro e f he hf
  obtain ⟨_, hstart, hrow, hbound⟩ := row_toNat hdata he
  have hw : p.width = p.sizeX.toNat + p.sizeY.toNat := rfl
  apply load_value hdata he (by omega)
  rw [UInt64.toNat_add, UInt64.toNat_add, hstart]
  omega

theorem elementAt_read (hdata : readArray p.data p.elements = some xs) (he : e < p.rows.toNat)
    (hk : k < p.width) : xs[e * p.width + k]? = some (elementAt xs p.width e k) := by
  have hlt : e * p.width + k < xs.length := by
    rw [readArray_length hdata]
    exact index_lt hk he
  rw [elementAt, List.getD_eq_getElem?_getD, List.getElem?_eq_getElem hlt]
  rfl

end Elements

section Matrices

variable {malloc : UInt64 → Option Block} {p : ProblemT} {xs : List UInt64} {storage : UInt32}
  {v : Nat → Nat → UInt64} {features : UInt64}

/-- The block has one element for each example and feature, column by column. -/
structure ColumnMatrix (b : Block) (examples features : UInt64) (v : Nat → Nat → UInt64) :
    Prop where
  length : b.length = features.toNat * examples.toNat
  element : ∀ e < examples.toNat, ∀ f < features.toNat,
    b.cells (f * examples.toNat + e) = v e f

theorem granted_length {b : Block} (hb : b.bytes = p.rows * features * 8)
    (hfit : features.toNat * p.rows.toNat * 8 < 2 ^ 64) :
    b.length = features.toNat * p.rows.toNat := by
  rw [Nat.mul_comm features.toNat] at hfit ⊢
  rw [Block.length, hb, UInt64.toNat_mul, UInt64.toNat_mul, show (8 : UInt64).toNat = 8 from rfl]
  omega

/-- `_problem_recover_X`, column by column -/
theorem recoverX_columns (hg : Grants malloc) (hcol : hasFlag storage problemColMajor = true)
    (hrow : hasFlag storage problemRowMajor = false)
    (hv : Values p.rows (p.featuresOfX storage)
      (if hasFlag storage problemAddBias then p.valueOfBiasedX else p.valueOfX) v)
    (hfit : (p.featuresOfX storage).toNat * p.rows.toNat * 8 < 2 ^ 64) (e f : UInt64) :
    ∃ X, Settles (problemRecoverX malloc p storage e f) (.finished (some X)) ∧
      ColumnMatrix X p.rows (p.featuresOfX storage) v := by
  obtain ⟨X, hX, hbytes⟩ := hg (p.rows * p.featuresOfX storage * 8)
  have hlen := granted_length hbytes hfit
  obtain ⟨t, ht, _, _, htbytes, hcells⟩ := storeColumns_spec (s := ⟨e, f, X⟩) hv hlen.ge
  refine ⟨t.block, (ht.map fun s => some s.block).congr ?_, ?_, hcells⟩
  · intro n
    simp only [problemRecoverX, hX, hrow, hcol, Bool.false_eq_true, if_false, if_true,
      Outcome.bind]
  · rw [Block.length, htbytes]
    exact hlen

theorem outerY_skip (h : p.rows.toNat = 0 ∨ p.sizeY.toNat = 0) (s : Extraction) :
    ∃ t, Settles (fun n => forE p.rows (forF p.sizeY (recoverTurnY p storage)) n s)
      (.finished t) ∧ t.block = s.block := by
  by_cases hr : p.rows.toNat = 0
  · exact ⟨_, forE_skip hr, rfl⟩
  · have hy : p.sizeY.toNat = 0 := by omega
    have hskip : ∃ t, Settles (fun n => forE p.rows (forF p.sizeY (recoverTurnY p storage)) n s)
        (.finished t) ∧ t.e = p.rows ∧ t.block = s.block := by
      apply forE_finished (I := fun _ t => t.block = s.block)
      · rintro k t _ _ hb
        exact ⟨_, forF_skip hy, rfl, hb⟩
      · rfl
    obtain ⟨t, ht, _, hb⟩ := hskip
    exact ⟨t, ht, hb⟩

theorem outerY_columns (hcol : hasFlag storage problemColMajor = true)
    (hrow : hasFlag storage problemRowMajor = false)
    (hv : Values p.rows p.sizeY p.valueOfY v) {s : Extraction}
    (hroom : p.sizeY.toNat * p.rows.toNat ≤ s.block.length) :
    ∃ t, Settles (fun n => forE p.rows (forF p.sizeY (recoverTurnY p storage)) n s)
        (.finished t) ∧ t.block.bytes = s.block.bytes ∧
      ∀ e < p.rows.toNat, ∀ f < p.sizeY.toNat,
        t.block.cells (f * p.rows.toNat + e) = v e f := by
  by_cases hempty : p.rows.toNat = 0 ∨ p.sizeY.toNat = 0
  · obtain ⟨t, ht, hb⟩ := outerY_skip hempty s
    refine ⟨t, ht, congrArg Block.bytes hb, ?_⟩
    intro e he f hf
    omega
  have hpos : 0 < p.rows.toNat := by omega
  have hposY : 0 < p.sizeY.toNat := by omega
  have hlen := s.block.length_lt
  have hle := Nat.le_mul_of_pos_left p.rows.toNat hposY
  have hleY := Nat.le_mul_of_pos_right p.sizeY.toNat hpos
  obtain ⟨t, ht, hte, htf, hbytes, hcells⟩ :=
    storeColumns_spec (s := { s with e := 0, f := 0 }) hv hroom
  have hturn : Settles (fun n => recoverTurnY p storage n { s with e := 0, f := 0 })
      (.finished t) := by
    apply ht.congr
    intro n
    simp only [recoverTurnY, hrow, hcol, Bool.false_eq_true, if_false, if_true, Outcome.bind]
  have hinner := forF_once (s := { s with e := 0 }) hposY (by omega) hturn (htf hpos)
  exact ⟨_, forE_once hpos (by omega) hinner hte, hbytes, hcells⟩

/-- `_problem_recover_y`, column by column -/
theorem recoverY_columns (hg : Grants malloc) (hcol : hasFlag storage problemColMajor = true)
    (hrow : hasFlag storage problemRowMajor = false)
    (hv : Values p.rows p.sizeY p.valueOfY v)
    (hfit : p.sizeY.toNat * p.rows.toNat * 8 < 2 ^ 64) (e f : UInt64) :
    ∃ y, Settles (problemRecoverY malloc p storage e f) (.finished (some y)) ∧
      ColumnMatrix y p.rows p.sizeY v := by
  obtain ⟨y, hy, hbytes⟩ := hg (p.rows * p.sizeY * 8)
  have hlen := granted_length hbytes hfit
  obtain ⟨t, ht, htbytes, hcells⟩ := outerY_columns (s := ⟨e, f, y⟩) hcol hrow hv hlen.ge
  refine ⟨t.block, (ht.map fun s => some s.block).congr ?_, ?_, hcells⟩
  · intro n
    simp only [problemRecoverY, hy]
  · rw [Block.length, htbytes]
    exact hlen

theorem ColumnMatrix.covered {b : Block} (h : ColumnMatrix b p.rows features v) :
    ∀ i < b.length, ∃ e < p.rows.toNat, ∃ f < features.toNat, i = f * p.rows.toNat + e := by
  intro i hi
  rw [h.length] at hi
  obtain ⟨f, hf, e, he, rfl⟩ := exists_index hi
  exact ⟨e, he, f, hf, rfl⟩

theorem columns_fit (hdata : readArray p.data p.elements = some xs) (hk : k ≤ p.width) :
    k * p.rows.toNat * 8 < 2 ^ 64 := by
  have hbound := readArray_bound hdata
  have hle := Nat.mul_le_mul_right p.rows.toNat hk
  rw [Nat.mul_comm p.width] at hle
  have helements : p.rows.toNat * p.width = p.elements := rfl
  omega

theorem biased_toNat (hdata : readArray p.data p.elements = some xs) (hpos : 0 < p.rows.toNat) :
    (p.sizeX + 1).toNat = p.sizeX.toNat + 1 := by
  have hbound := readArray_bound hdata
  have hle : p.width ≤ p.elements := Nat.le_mul_of_pos_left p.width hpos
  have hw : p.width = p.sizeX.toNat + p.sizeY.toNat := rfl
  rw [UInt64.toNat_add, UInt64.toNat_one]
  omega

def ProblemT.matrixX (p : ProblemT) (xs : List UInt64) (storage : UInt32) (e f : Nat) : UInt64 :=
  if hasFlag storage problemAddBias then p.biasedValues xs e f else p.xValues xs e f

theorem matrixX_values (hdata : readArray p.data p.elements = some xs) (storage : UInt32) :
    Values p.rows (p.featuresOfX storage)
      (if hasFlag storage problemAddBias then p.valueOfBiasedX else p.valueOfX)
      (p.matrixX xs storage) := by
  intro e f he
  unfold ProblemT.featuresOfX ProblemT.matrixX
  cases hasFlag storage problemAddBias with
  | false => exact valueOfX_values hdata e f he
  | true =>
    exact valueOfBiasedX_values hdata (biased_toNat hdata (Nat.zero_lt_of_lt he)) e f he

/-- Column by column, the matrices are returned that the data contains, with ones in front for a
bias; all loops end, and all stores are in the blocks and fill them. -/
theorem columns_recovered (hg : Grants malloc)
    (hdata : readArray p.data p.elements = some xs)
    (hcol : hasFlag storage problemColMajor = true)
    (hrow : hasFlag storage problemRowMajor = false) (e₀ f₀ : UInt64) :
    (hasFlag storage problemAddBias = false →
      ∃ X, Settles (problemRecoverX malloc p storage e₀ f₀) (.finished (some X)) ∧
        X.length = p.rows.toNat * p.sizeX.toNat ∧
        (∀ e < p.rows.toNat, ∀ f < p.sizeX.toNat,
          xs[e * p.width + f]? = some (X.cells (f * p.rows.toNat + e))) ∧
        ∀ i < X.length, ∃ e < p.rows.toNat, ∃ f < p.sizeX.toNat, i = f * p.rows.toNat + e) ∧
    (hasFlag storage problemAddBias = true →
      (p.sizeX.toNat + 1) * p.rows.toNat * 8 < 2 ^ 64 →
      ∃ X, Settles (problemRecoverX malloc p storage e₀ f₀) (.finished (some X)) ∧
        X.length = p.rows.toNat * (p.sizeX.toNat + 1) ∧
        (∀ e < p.rows.toNat, X.cells e = alpha) ∧
        (∀ e < p.rows.toNat, ∀ f < p.sizeX.toNat,
          xs[e * p.width + f]? = some (X.cells ((f + 1) * p.rows.toNat + e))) ∧
        ∀ i < X.length, i < p.rows.toNat ∨
          ∃ e < p.rows.toNat, ∃ f < p.sizeX.toNat, i = (f + 1) * p.rows.toNat + e) ∧
    ∃ y, Settles (problemRecoverY malloc p storage e₀ f₀) (.finished (some y)) ∧
      y.length = p.rows.toNat * p.sizeY.toNat ∧
      (∀ e < p.rows.toNat, ∀ f < p.sizeY.toNat,
        xs[e * p.width + p.sizeX.toNat + f]? = some (y.cells (f * p.rows.toNat + e))) ∧
      ∀ i < y.length, ∃ e < p.rows.toNat, ∃ f < p.sizeY.toNat, i = f * p.rows.toNat + e := by
  have hw : p.width = p.sizeX.toNat + p.sizeY.toNat := rfl
  refine ⟨?_, ?_, ?_⟩
  · intro hplain
    have hfeatures : p.featuresOfX storage = p.sizeX := by
      rw [ProblemT.featuresOfX, hplain]
      rfl
    obtain ⟨X, hX, hm⟩ := recoverX_columns hg hcol hrow (matrixX_values hdata storage)
      (hfeatures ▸ columns_fit hdata (by omega)) e₀ f₀
    rw [hfeatures] at hm
    refine ⟨X, hX, hm.length.trans (Nat.mul_comm _ _), ?_, hm.covered⟩
    intro e he f hf
    rw [hm.element e he f hf, ProblemT.matrixX, hplain]
    exact elementAt_read hdata he (by omega)
  · intro hbias hfit
    have hcount : 0 < p.rows.toNat → (p.featuresOfX storage).toNat = p.sizeX.toNat + 1 := by
      rw [ProblemT.featuresOfX, hbias]
      exact biased_toNat hdata
    have hfeatures : (p.featuresOfX storage).toNat * p.rows.toNat =
        (p.sizeX.toNat + 1) * p.rows.toNat := by
      cases Nat.eq_zero_or_pos p.rows.toNat with
      | inl h0 => rw [h0, Nat.mul_zero, Nat.mul_zero]
      | inr hpos => rw [hcount hpos]
    obtain ⟨X, hX, hm⟩ := recoverX_columns hg hcol hrow (matrixX_values hdata storage)
      (hfeatures ▸ hfit) e₀ f₀
    have hlen : X.length = (p.sizeX.toNat + 1) * p.rows.toNat := hm.length.trans hfeatures
    have hcells : ∀ e < p.rows.toNat, ∀ f < p.sizeX.toNat + 1,
        X.cells (f * p.rows.toNat + e) = p.biasedValues xs e f := by
      intro e he f hf
      rw [hm.element e he f (by rw [hcount (Nat.zero_lt_of_lt he)]; exact hf), ProblemT.matrixX,
        hbias]
      rfl
    refine ⟨X, hX, hlen.trans (Nat.mul_comm _ _), ?_, ?_, ?_⟩
    · intro e he
      have hcell := hcells e he 0 (Nat.succ_pos _)
      rwa [Nat.zero_mul, Nat.zero_add] at hcell
    · intro e he f hf
      rw [hcells e he (f + 1) (Nat.succ_lt_succ hf)]
      exact elementAt_read hdata he (by omega)
    · intro i hi
      rw [hlen] at hi
      obtain ⟨f, hf, e, he, rfl⟩ := exists_index hi
      cases f with
      | zero =>
        left
        rwa [Nat.zero_mul, Nat.zero_add]
      | succ f => exact .inr ⟨e, he, f, Nat.lt_of_succ_lt_succ hf, rfl⟩
  · obtain ⟨y, hy, hm⟩ := recoverY_columns hg hcol hrow (valueOfY_values hdata)
      (columns_fit hdata (by omega)) e₀ f₀
    refine ⟨y, hy, hm.length.trans (Nat.mul_comm _ _), ?_, hm.covered⟩
    intro e he f hf
    rw [hm.element e he f hf, Nat.add_assoc]
    exact elementAt_read hdata he (by omega)

end Matrices

def ProblemT.twoRows : ProblemT :=
  ⟨1, 1, 2, 1, 1, 0, 0, 0, none, none, some ⟨8, 32, fun i => UInt64.ofNat (i + 1)⟩, none⟩

theorem ProblemT.twoRows_read : readArray twoRows.data twoRows.elements = some [1, 2, 3, 4] := rfl

def sampleMalloc (n : UInt64) : Option Block := some ⟨0, n, fun _ => 0⟩

theorem sampleMalloc_grants : Grants sampleMalloc := fun n => ⟨⟨0, n, fun _ => 0⟩, rfl, rfl⟩

theorem columns_recovered_twoRows :
    (∃ X, Settles (problemRecoverX sampleMalloc .twoRows problemColMajor 0 0)
      (.finished (some X)) ∧ X.length = 2 ∧ X.cells 0 = 1 ∧ X.cells 1 = 3) ∧
    (∃ X, Settles (problemRecoverX sampleMalloc .twoRows (problemColMajor ||| problemAddBias) 0 0)
      (.finished (some X)) ∧ X.length = 4 ∧ X.cells 1 = alpha ∧ X.cells 3 = 3) ∧
    ∃ y, Settles (problemRecoverY sampleMalloc .twoRows problemColMajor 0 0)
      (.finished (some y)) ∧ y.length = 2 ∧ y.cells 0 = 2 ∧ y.cells 1 = 4 := by
  have hcol : hasFlag problemColMajor problemColMajor = true := rfl
  have hcol' : hasFlag (problemColMajor ||| problemAddBias) problemColMajor = true := rfl
  obtain ⟨hplain, _, y, hy, hylen, hyc, _⟩ :=
    columns_recovered sampleMalloc_grants ProblemT.twoRows_read hcol rfl 0 0
  obtain ⟨_, hbiased, _⟩ :=
    columns_recovered sampleMalloc_grants ProblemT.twoRows_read hcol' rfl 0 0
  obtain ⟨X, hX, hlen, hc, _⟩ := hplain rfl
  obtain ⟨Z, hZ, hZlen, hone, hZc, _⟩ := hbiased rfl (by decide)
  refine ⟨⟨X, hX, hlen, ?_, ?_⟩, ⟨Z, hZ, hZlen, hone 1 (by decide), ?_⟩, y, hy, hylen, ?_, ?_⟩
  · exact (Option.some.inj (hc 0 (by decide) 0 (by decide))).symm
  · exact (Option.some.inj (hc 1 (by decide) 0 (by decide))).symm
  · exact (Option.some.inj (hZc 1 (by decide) 0 (by decide))).symm
  · exact (Option.some.inj (hyc 0 (by decide) 0 (by decide))).symm
  · exact (Option.some.inj (hyc 1 (by decide) 0 (by decide))).symm

end Aiqb
