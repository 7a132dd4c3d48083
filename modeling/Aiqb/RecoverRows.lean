import Aiqb.RecoverColumns

namespace Aiqb
set_option autoImplicit true

open Loops

theorem readArray_getD (hr : readArray a n = some xs) (hn : 0 < n) :
    ∃ b, a = some b ∧ n ≤ b.length ∧ ∀ i < n, b.cells i = xs.getD i 0 := by
  rw [readArray, if_neg (Nat.ne_of_gt hn)] at hr
  obtain ⟨b, rfl, hb⟩ := Option.bind_eq_some_iff.mp hr
  simp only [Option.ite_none_right_eq_some, Option.some.injEq] at hb
  obtain ⟨hle, rfl⟩ := hb
  refine ⟨b, rfl, hle, ?_⟩
  intro i hi
  rw [List.getD_eq_getElem?_getD, List.getElem?_map, List.getElem?_range hi]
  rfl

theorem copy_inside {b : Block} {i j bytes : UInt64} (hr : readArray a n = some xs)
    (hm : bytes.toNat = m * 8) (hi : i.toNat + m ≤ b.length) (hj : j.toNat + m ≤ n) :
    ∃ b', b.copy i a j bytes = some b' ∧ b'.bytes = b.bytes ∧
      ∀ k, b'.cells k = if i.toNat ≤ k ∧ k < i.toNat + m then xs.getD (j.toNat + (k - i.toNat)) 0
        else b.cells k := by
  have hdiv : bytes.toNat / 8 = m := by rw [hm, Nat.mul_div_cancel m (Nat.succ_pos 7)]
  simp only [Block.copy, hdiv]
  by_cases h0 : m = 0
  · refine ⟨b, if_pos h0, rfl, ?_⟩
    intro k
    rw [if_neg (by omega)]
  · obtain ⟨c, rfl, hle, hc⟩ := readArray_getD hr (by omega)
    rw [if_neg h0, Option.bind_some, if_pos ⟨hi, by omega⟩]
    refine ⟨_, rfl, rfl, ?_⟩
    intro k
    dsimp only
    by_cases hk : i.toNat ≤ k ∧ k < i.toNat + m
    · rw [if_pos hk, if_pos hk, hc _ (by omega)]
    · rw [if_neg hk, if_neg hk]

theorem copy_empty {b : Block} {i j bytes : UInt64} (hm : bytes.toNat = m * 8) (h0 : m = 0) :
    b.copy i a j bytes = some b := by
  rw [h0, Nat.zero_mul] at hm
  simp only [Block.copy, hm, Nat.zero_div, if_true]

theorem copy_outside {b : Block} {i j bytes : UInt64} (hm : bytes.toNat = m * 8) (hpos : 0 < m)
    (hi : b.length < i.toNat + m) : b.copy i a j bytes = none := by
  have hdiv : bytes.toNat / 8 = m := by rw [hm, Nat.mul_div_cancel m (Nat.succ_pos 7)]
  simp only [Block.copy, hdiv, if_neg (Nat.ne_of_gt hpos)]
  cases a with
  | none => rfl
  | some c => exact if_neg fun h => absurd h.1 (Nat.not_le.mpr hi)

section Rows

variable {examples : UInt64} {features : Nat} {row : UInt64 → Block → Option Block}
  {v : Nat → Nat → UInt64} {s : Extraction}

/-- What is copied for an example: its values, from `examples * e` on. -/
structure RowSpec (examples : UInt64) (features : Nat) (row : UInt64 → Block → Option Block)
    (v : Nat → Nat → UInt64) : Prop where
  inside : ∀ (e : UInt64) (b : Block), e.toNat < examples.toNat →
    examples.toNat * e.toNat + features ≤ b.length →
    ∃ b', row e b = some b' ∧ b'.bytes = b.bytes ∧
      ∀ k, b'.cells k =
        if examples.toNat * e.toNat ≤ k ∧ k < examples.toNat * e.toNat + features then
          v e.toNat (k - examples.toNat * e.toNat)
        else b.cells k
  empty : ∀ (e : UInt64) (b : Block), e.toNat < examples.toNat → features = 0 → row e b = some b
  outside : ∀ (e : UInt64) (b : Block), e.toNat < examples.toNat → 0 < features →
    b.length ≤ examples.toNat * e.toNat → examples.toNat * e.toNat < 2 ^ 64 → row e b = none

theorem copyRows_empty (hrow : RowSpec examples features row v) (hempty : features = 0) :
    ∃ t, Settles (fun n => copyRows examples row n s) (.finished t) ∧ t.e = examples ∧
      t.block = s.block := by
  apply forE_finished (I := fun _ t => t.block = s.block)
  · intro k t hk hek hb
    exact ⟨_, settles_onBlock (hrow.empty t.e t.block (hek ▸ hk) hempty), rfl, hb⟩
  · rfl

/-- Where the rows are as long as there are examples, or there is at most one, each is copied to its
place. -/
theorem copyRows_fit (hrow : RowSpec examples features row v)
    (hfit : examples.toNat ≤ 1 ∨ examples.toNat = features)
    (hlen : s.block.length = features * examples.toNat) :
    ∃ t, Settles (fun n => copyRows examples row n s) (.finished t) ∧ t.e = examples ∧
      t.f = s.f ∧ t.block.bytes = s.block.bytes ∧
      ∀ e < examples.toNat, ∀ f < features, t.block.cells (e * features + f) = v e f := by
  have hstride : ∀ e < examples.toNat, examples.toNat * e = e * features := by
    intro e he
    rcases hfit with hone | heq
    · have h0 : e = 0 := by omega
      rw [h0, Nat.zero_mul, Nat.mul_zero]
    · rw [heq, Nat.mul_comm]
  apply forE_finished (I := fun k t => t.f = s.f ∧ t.block.bytes = s.block.bytes ∧
    ∀ e < k, ∀ f < features, t.block.cells (e * features + f) = v e f)
  · rintro k t hk hek ⟨hf, hbytes, hcells⟩
    have htlen : t.block.length = features * examples.toNat := by
      rw [Block.length, hbytes]
      exact hlen
    have hkstride := hstride k hk
    have hroom : k * features + features ≤ features * examples.toNat := by
      rw [← Nat.succ_mul, Nat.mul_comm features]
      exact Nat.mul_le_mul_right features hk
    rw [← hek] at hk hkstride hroom hcells
    obtain ⟨b, hb, hbb, hbc⟩ := hrow.inside t.e t.block hk (by omega)
    refine ⟨{ t with block := b }, settles_onBlock hb, rfl, hf, hbb.trans hbytes, ?_⟩
    intro e he f hf'
    rw [hbc, hkstride]
    by_cases hlast : e = t.e.toNat
    · rw [hlast, if_pos (by omega), Nat.add_sub_cancel_left]
    · have hlt : e < t.e.toNat := by omega
      have hle := Nat.mul_le_mul_right features (Nat.succ_le_of_lt hlt)
      rw [Nat.succ_mul] at hle
      rw [if_neg (by omega)]
      exact hcells e hlt f hf'
  · refine ⟨rfl, rfl, ?_⟩
    intro e he
    exact absurd he (Nat.not_lt_zero e)

theorem long_row_inside {R F k : Nat} (htwo : 2 ≤ R) (hlong : R < F) (hk : k < R) :
    R * k + F < F * R := by
  have hle : R * k ≤ R * (R - 1) := Nat.mul_le_mul_left R (Nat.le_sub_one_of_lt hk)
  have hlt : R * (R - 1) < F * (R - 1) := Nat.mul_lt_mul_of_pos_right hlong (by omega)
  have hlast : F * (R - 1) + F = F * R := by
    rw [← Nat.mul_succ, Nat.succ_eq_add_one, Nat.sub_add_cancel (by omega)]
  omega

/-- Where the rows are longer than there are examples, the last element is not written. -/
theorem copyRows_short (hrow : RowSpec examples features row v) (htwo : 2 ≤ examples.toNat)
    (hlong : examples.toNat < features)
    (hlen : s.block.length = features * examples.toNat) :
    ∃ t, Settles (fun n => copyRows examples row n s) (.finished t) ∧ t.e = examples ∧
      t.f = s.f ∧ t.block.bytes = s.block.bytes ∧
      t.block.cells (features * examples.toNat - 1) =
        s.block.cells (features * examples.toNat - 1) := by
  apply forE_finished (I := fun _ t => t.f = s.f ∧ t.block.bytes = s.block.bytes ∧
    t.block.cells (features * examples.toNat - 1) =
      s.block.cells (features * examples.toNat - 1))
  · rintro k t hk hek ⟨hf, hbytes, hcell⟩
    have htlen : t.block.length = features * examples.toNat := by
      rw [Block.length, hbytes]
      exact hlen
    have hroom := long_row_inside htwo hlong hk
    obtain ⟨b, hb, hbb, hbc⟩ := hrow.inside t.e t.block (hek ▸ hk) (by rw [hek]; omega)
    refine ⟨{ t with block := b }, settles_onBlock hb, rfl, hf, hbb.trans hbytes, ?_⟩
    rw [hbc, if_neg (by rw [hek]; omega)]
    exact hcell
  · exact ⟨rfl, rfl, rfl⟩

/-- Where they are shorter, the first row behind the block is stored outside. -/
theorem copyRows_outside (hrow : RowSpec examples features row v) (hpos : 0 < features)
    (hshort : features < examples.toNat)
    (hlen : s.block.length = features * examples.toNat) :
    Settles (fun n => copyRows examples row n s) .undefined := by
  apply forE_undefined features (I := fun _ t => t.block.bytes = s.block.bytes)
  · rintro k t hk hek hbytes
    have htlen : t.block.length = features * examples.toNat := by
      rw [Block.length, hbytes]
      exact hlen
    have hle := Nat.mul_le_mul_left examples.toNat (Nat.succ_le_of_lt hk)
    rw [Nat.mul_succ, Nat.mul_comm examples.toNat features] at hle
    obtain ⟨b, hb, hbb, _⟩ := hrow.inside t.e t.block (by omega) (by rw [hek]; omega)
    exact ⟨{ t with block := b }, settles_onBlock hb, rfl, hbb.trans hbytes⟩
  · rintro t hek hbytes
    have htlen : t.block.length = examples.toNat * t.e.toNat := by
      rw [hek, Nat.mul_comm, Block.length, hbytes]
      exact hlen
    have hlt := t.block.length_lt
    exact settles_onBlock_undefined (hrow.outside t.e t.block (by omega) hpos (by omega) (by omega))
  · exact hshort
  · rfl

end Rows

section Problems

variable {p : ProblemT} {xs : List UInt64}

theorem bytes_toNat (hdata : readArray p.data p.elements = some xs) {e n : UInt64}
    (he : e.toNat < p.rows.toNat) (hn : n.toNat ≤ p.width) : (n * 8).toNat = n.toNat * 8 := by
  obtain ⟨_, _, hrow, hbound⟩ := row_toNat hdata he
  rw [UInt64.toNat_mul, show (8 : UInt64).toNat = 8 from rfl]
  omega

theorem start_toNat {e : UInt64} (h : p.rows.toNat * e.toNat < 2 ^ 64) :
    (p.rows * e).toNat = p.rows.toNat * e.toNat := by
  rw [UInt64.toNat_mul]
  exact Nat.mod_eq_of_lt h

theorem row_copy (hdata : readArray p.data p.elements = some xs) {b : Block} {e i j n : UInt64}
    (he : e.toNat < p.rows.toNat) (hn : offset + n.toNat ≤ p.width)
    (hi : i.toNat + n.toNat ≤ b.length) (hj : j.toNat = e.toNat * p.width + offset) :
    ∃ b', b.copy i p.data j (n * 8) = some b' ∧ b'.bytes = b.bytes ∧
      ∀ k, b'.cells k =
        if i.toNat ≤ k ∧ k < i.toNat + n.toNat then
          elementAt xs p.width e.toNat (offset + (k - i.toNat))
        else b.cells k := by
  obtain ⟨_, _, hend, _⟩ := row_toNat hdata he
  obtain ⟨b', hb, hbb, hbc⟩ :=
    copy_inside (b := b) (j := j) hdata (bytes_toNat hdata he (by omega)) hi (by omega)
  refine ⟨b', hb, hbb, ?_⟩
  intro k
  rw [hbc, hj, elementAt, Nat.add_assoc]

theorem source_toNat (hdata : readArray p.data p.elements = some xs) {e : UInt64}
    (he : e.toNat < p.rows.toNat) :
    ((p.sizeX + p.sizeY) * e).toNat = e.toNat * p.width := by
  rw [UInt64.mul_comm]
  exact (row_toNat hdata he).2.1

theorem row_spec (hdata : readArray p.data p.elements = some xs) {source : UInt64 → UInt64}
    {n : UInt64} (hn : offset + n.toNat ≤ p.width)
    (hsource : ∀ e : UInt64, e.toNat < p.rows.toNat →
      (source e).toNat = e.toNat * p.width + offset) :
    RowSpec p.rows n.toNat (fun e b => b.copy (p.rows * e) p.data (source e) (n * 8))
      fun e f => elementAt xs p.width e (offset + f) := by
  constructor
  · intro e b he hroom
    have hlt := b.length_lt
    have hstart : (p.rows * e).toNat = p.rows.toNat * e.toNat := start_toNat (by omega)
    obtain ⟨b', hb, hbb, hbc⟩ := row_copy (b := b) (i := p.rows * e) (n := n)
      hdata he hn (by omega) (hsource e he)
    refine ⟨b', hb, hbb, ?_⟩
    intro k
    rw [hbc, hstart]
  · intro e b he hempty
    exact copy_empty (bytes_toNat hdata he (by omega)) hempty
  · intro e b he hpos hout hlt
    have hstart : (p.rows * e).toNat = p.rows.toNat * e.toNat := start_toNat hlt
    exact copy_outside (bytes_toNat hdata he (by omega)) hpos (by omega)

theorem rowOfX_spec (hdata : readArray p.data p.elements = some xs) :
    RowSpec p.rows p.sizeX.toNat p.rowOfX (p.xValues xs) := by
  have hw : p.width = p.sizeX.toNat + p.sizeY.toNat := rfl
  have hspec := row_spec hdata (show 0 + p.sizeX.toNat ≤ p.width by omega)
    fun e he => source_toNat hdata he
  simp only [Nat.zero_add] at hspec
  exact hspec

theorem rowOfBiasedX_spec (hdata : readArray p.data p.elements = some xs) :
    RowSpec p.rows (p.sizeX.toNat + 1) p.rowOfBiasedX (p.biasedValues xs) := by
  have hw : p.width = p.sizeX.toNat + p.sizeY.toNat := rfl
  constructor
  · intro e b he hroom
    have hlt := b.length_lt
    have hstart : (p.rows * e).toNat = p.rows.toNat * e.toNat := start_toNat (by omega)
    have hsecond : (p.rows * e + 1).toNat = p.rows.toNat * e.toNat + 1 := by
      rw [UInt64.toNat_add, UInt64.toNat_one, hstart]
      omega
    obtain ⟨b₁, hs⟩ := b.store_inside (i := p.rows * e) (by omega) alpha
    have hlen := Block.store_length hs
    have hsource : ((p.sizeX + p.sizeY) * e).toNat = e.toNat * p.width + 0 :=
      source_toNat hdata he
    obtain ⟨b', hb, hbb, hbc⟩ := row_copy (b := b₁) (i := p.rows * e + 1) (n := p.sizeX)
      hdata he (by omega) (by omega) hsource
    refine ⟨b', ?_, hbb.trans (Block.store_bytes hs), ?_⟩
    · simp only [ProblemT.rowOfBiasedX, hs, Option.bind_eq_bind, Option.bind_some, hb]
    · intro k
      rw [hbc, hsecond, Block.store_cells hs, hstart, ProblemT.biasedValues]
      by_cases h0 : k = p.rows.toNat * e.toNat
      · rw [h0, Function.update_self, if_neg (by omega), if_pos (by omega), if_pos (by omega)]
      · rw [Function.update_of_ne h0]
        by_cases hin : p.rows.toNat * e.toNat ≤ k ∧ k < p.rows.toNat * e.toNat + (p.sizeX.toNat + 1)
        · rw [if_pos hin, if_pos (by omega), if_neg (by omega), Nat.zero_add, Nat.sub_sub]
        · rw [if_neg hin, if_neg (by omega)]
  · intro e b _ hempty
    exact absurd hempty (Nat.succ_ne_zero _)
  · intro e b he _ hout hlt
    have hstart : (p.rows * e).toNat = p.rows.toNat * e.toNat := start_toNat hlt
    have hs : b.store (p.rows * e) alpha = none := if_neg (by omega)
    simp only [ProblemT.rowOfBiasedX, hs, Option.bind_eq_bind, Option.bind_none]

theorem rowOfY_spec (hdata : readArray p.data p.elements = some xs) :
    RowSpec p.rows p.sizeY.toNat p.rowOfY (p.yValues xs) := by
  apply row_spec hdata (Nat.le_refl _)
  intro e he
  have hw : p.width = p.sizeX.toNat + p.sizeY.toNat := rfl
  obtain ⟨_, _, hend, hbound⟩ := row_toNat hdata he
  rw [UInt64.toNat_add, source_toNat hdata he]
  omega

theorem rowOfMatrixX_spec (hdata : readArray p.data p.elements = some xs) (storage : UInt32) :
    RowSpec p.rows (p.featuresOfX storage).toNat
      (if hasFlag storage problemAddBias then p.rowOfBiasedX else p.rowOfX)
      (p.matrixX xs storage) := by
  unfold ProblemT.featuresOfX
  rw [show p.matrixX xs storage =
    if hasFlag storage problemAddBias then p.biasedValues xs else p.xValues xs by
      unfold ProblemT.matrixX
      split <;> rfl]
  cases hasFlag storage problemAddBias with
  | false => exact rowOfX_spec hdata
  | true =>
    by_cases hpos : 0 < p.rows.toNat
    · have hspec := rowOfBiasedX_spec hdata
      rw [← biased_toNat hdata hpos] at hspec
      exact hspec
    · constructor <;> intro e b he <;> omega

end Problems

section Agreement

variable {malloc : UInt64 → Option Block} {p : ProblemT} {xs : List UInt64} {storage : UInt32}
  {rows cols : (UInt64 → Option Block) → Nat → Outcome (Option Block)} {v : Nat → Nat → UInt64}

/-- For blocks with any contents, both extractions return one, having stored inside it only, and
the elements are the same. -/
def LayoutsAgree (rows cols : (UInt64 → Option Block) → Nat → Outcome (Option Block))
    (examples features : Nat) : Prop :=
  ∀ malloc malloc', Grants malloc → Grants malloc' → ∃ X Y,
    Settles (rows malloc) (.finished (some X)) ∧ Settles (cols malloc') (.finished (some Y)) ∧
    ∀ e < examples, ∀ f < features, X.cells (e * features + f) = Y.cells (f * examples + e)

structure RowsCopied (rows : (UInt64 → Option Block) → Nat → Outcome (Option Block))
    (size : UInt64) (examples features : Nat) (v : Nat → Nat → UInt64) : Prop where
  fit : ∀ malloc, Grants malloc → examples ≤ 1 ∨ features = 0 ∨ examples = features →
    ∃ X, Settles (rows malloc) (.finished (some X)) ∧
      ∀ e < examples, ∀ f < features, X.cells (e * features + f) = v e f
  short : ∀ malloc b, malloc size = some b → b.bytes = size → 2 ≤ examples → examples < features →
    ∃ X, Settles (rows malloc) (.finished (some X)) ∧
      X.cells (features * examples - 1) = b.cells (features * examples - 1)
  outside : ∀ malloc, Grants malloc → 0 < features → features < examples →
    Settles (rows malloc) .undefined

def filledMalloc (value n : UInt64) : Option Block := some ⟨0, n, fun _ => value⟩

theorem filledMalloc_grants (value : UInt64) : Grants (filledMalloc value) :=
  fun n => ⟨⟨0, n, fun _ => value⟩, rfl, rfl⟩

theorem RowsCopied.agree_iff (h : RowsCopied rows size examples features v)
    (hcols : ∀ malloc, Grants malloc → ∃ Y, Settles (cols malloc) (.finished (some Y)) ∧
      ∀ e < examples, ∀ f < features, Y.cells (f * examples + e) = v e f) :
    LayoutsAgree rows cols examples features ↔
      examples ≤ 1 ∨ features = 0 ∨ examples = features := by
  constructor
  · intro hagree
    by_contra hshape
    rcases Nat.lt_or_ge examples features with hlong | hshort
    · let value := v (examples - 1) (features - 1) + 1
      obtain ⟨X, Y, hX, hY, hsame⟩ :=
        hagree _ _ (filledMalloc_grants value) (filledMalloc_grants value)
      obtain ⟨X', hX', hlast⟩ := h.short (filledMalloc value) _ rfl rfl (by omega) hlong
      obtain ⟨Y', hY', hcells⟩ := hcols _ (filledMalloc_grants value)
      obtain rfl := Option.some.inj (Outcome.finished.inj (hX.unique hX'))
      obtain rfl := Option.some.inj (Outcome.finished.inj (hY.unique hY'))
      have hsame := hsame (examples - 1) (by omega) (features - 1) (by omega)
      rw [hcells (examples - 1) (by omega) (features - 1) (by omega)] at hsame
      have hindex : (examples - 1) * features + (features - 1) = features * examples - 1 := by
        obtain ⟨n, rfl⟩ := Nat.exists_eq_succ_of_ne_zero (show examples ≠ 0 by omega)
        rw [Nat.succ_sub_one, Nat.mul_succ, Nat.mul_comm]
        omega
      rw [hindex, hlast] at hsame
      exact absurd hsame (by simp [value])
    · obtain ⟨X, Y, hX, _⟩ :=
        hagree _ _ sampleMalloc_grants sampleMalloc_grants
      have hundefined := h.outside _ sampleMalloc_grants (by omega) (by omega)
      exact nomatch hX.unique hundefined
  · intro hshape malloc malloc' hg hg'
    obtain ⟨X, hX, hrows⟩ := h.fit malloc hg hshape
    obtain ⟨Y, hY, hcells⟩ := hcols malloc' hg'
    refine ⟨X, Y, hX, hY, ?_⟩
    intro e he f hf
    rw [hrows e he f hf, hcells e he f hf]

/-- By rows, `_problem_recover_X` returns the block its loop leaves. -/
theorem recoverX_rows (hrow : hasFlag storage problemRowMajor = true)
    (hcol : hasFlag storage problemColMajor = false)
    (hX : malloc (p.rows * p.featuresOfX storage * 8) = some X) (e f : UInt64) (n : Nat) :
    (copyRows p.rows (if hasFlag storage problemAddBias then p.rowOfBiasedX else p.rowOfX) n
        ⟨e, f, X⟩).bind (fun s => .finished (some s.block)) =
      problemRecoverX malloc p storage e f n := by
  simp only [problemRecoverX, hX, hrow, hcol, Bool.false_eq_true, if_false, if_true,
    Outcome.bind]

theorem recoverX_copied (hrow : hasFlag storage problemRowMajor = true)
    (hcol : hasFlag storage problemColMajor = false)
    (hdata : readArray p.data p.elements = some xs)
    (hfit : (p.featuresOfX storage).toNat * p.rows.toNat * 8 < 2 ^ 64) (e f : UInt64) :
    RowsCopied (fun malloc => problemRecoverX malloc p storage e f)
      (p.rows * p.featuresOfX storage * 8) p.rows.toNat (p.featuresOfX storage).toNat
      (p.matrixX xs storage) := by
  have hspec := rowOfMatrixX_spec hdata storage
  constructor
  · intro malloc hg hshape
    obtain ⟨X, hX, hbytes⟩ := hg (p.rows * p.featuresOfX storage * 8)
    have hlen := granted_length hbytes hfit
    by_cases hempty : (p.featuresOfX storage).toNat = 0
    · obtain ⟨t, ht, _⟩ := copyRows_empty (s := ⟨e, f, X⟩) hspec hempty
      refine ⟨t.block, (ht.map fun s => some s.block).congr (recoverX_rows hrow hcol hX e f), ?_⟩
      intro e _ f hf
      omega
    · obtain ⟨t, ht, _, _, _, hcells⟩ :=
        copyRows_fit (s := ⟨e, f, X⟩) hspec (by omega) hlen
      exact ⟨t.block, (ht.map fun s => some s.block).congr (recoverX_rows hrow hcol hX e f), hcells⟩
  · intro malloc X hX hbytes htwo hlong
    have hlen := granted_length hbytes hfit
    obtain ⟨t, ht, _, _, _, hcell⟩ :=
      copyRows_short (s := ⟨e, f, X⟩) hspec htwo hlong hlen
    exact ⟨t.block, (ht.map fun s => some s.block).congr (recoverX_rows hrow hcol hX e f), hcell⟩
  · intro malloc hg hpos hshort
    obtain ⟨X, hX, hbytes⟩ := hg (p.rows * p.featuresOfX storage * 8)
    have hlen := granted_length hbytes hfit
    have hout := copyRows_outside (s := ⟨e, f, X⟩) hspec hpos hshort hlen
    exact (hout.bind_undefined _).congr (recoverX_rows hrow hcol hX e f)

theorem recoverTurnY_rows (hrow : hasFlag storage problemRowMajor = true)
    (hcol : hasFlag storage problemColMajor = false) (s : Extraction) (n : Nat) :
    copyRows p.rows p.rowOfY n s = recoverTurnY p storage n s := by
  simp only [recoverTurnY, hrow, hcol, Bool.false_eq_true, if_false, if_true,
    Outcome.bind_finished]

theorem outerY_rows {I : Nat → Block → Prop} (hrow : hasFlag storage problemRowMajor = true)
    (hcol : hasFlag storage problemColMajor = false) {s : Extraction}
    (hpos : 0 < p.rows.toNat) (hposY : 0 < p.sizeY.toNat) (hmax : p.rows.toNat + 1 < 2 ^ 64)
    (hturn : ∀ k t, I k t.block → ∃ t', Settles (fun n => copyRows p.rows p.rowOfY n t)
      (.finished t') ∧ t'.e = p.rows ∧ t'.f = t.f ∧ I (k + 1) t'.block)
    (h : I 0 s.block) :
    ∃ t, Settles (fun n => forE p.rows (forF p.sizeY (recoverTurnY p storage)) n s)
      (.finished t) ∧ I p.sizeY.toNat t.block := by
  have hinner : ∃ t, Settles (fun n => forF p.sizeY (recoverTurnY p storage) n
      { s with e := 0 }) (.finished t) ∧ t.f = p.sizeY ∧
      (0 < p.sizeY.toNat → t.e = p.rows) ∧ I p.sizeY.toNat t.block := by
    apply forF_finished (I := fun k t => (0 < k → t.e = p.rows) ∧ I k t.block)
    · rintro k t _ _ ⟨_, ht⟩
      obtain ⟨t', ht', he, hf, hnext⟩ := hturn k t ht
      exact ⟨t', ht'.congr (recoverTurnY_rows hrow hcol t), hf, fun _ => he, hnext⟩
    · exact ⟨fun h0 => absurd h0 (Nat.lt_irrefl 0), h⟩
  obtain ⟨t, ht, _, he, hlast⟩ := hinner
  exact ⟨_, forE_once hpos hmax ht (he hposY), hlast⟩

theorem outerY_undefined (hrow : hasFlag storage problemRowMajor = true)
    (hcol : hasFlag storage problemColMajor = false) {s : Extraction}
    (hpos : 0 < p.rows.toNat) (hposY : 0 < p.sizeY.toNat)
    (hturn : ∀ t : Extraction, t.block = s.block →
      Settles (fun n => copyRows p.rows p.rowOfY n t) .undefined) :
    Settles (fun n => forE p.rows (forF p.sizeY (recoverTurnY p storage)) n s) .undefined := by
  apply forE_undefined 0 (I := fun _ t => t.block = s.block) nofun _ hpos rfl
  intro t _ ht
  apply forF_undefined 0 (I := fun _ t => t.block = s.block) nofun _ hposY ht
  intro t' _ ht'
  exact (hturn t' ht').congr (recoverTurnY_rows hrow hcol t')

theorem recoverY_copied (hrow : hasFlag storage problemRowMajor = true)
    (hcol : hasFlag storage problemColMajor = false)
    (hdata : readArray p.data p.elements = some xs) (e f : UInt64) :
    RowsCopied (fun malloc => problemRecoverY malloc p storage e f)
      (p.rows * p.sizeY * 8) p.rows.toNat p.sizeY.toNat (p.yValues xs) := by
  have hw : p.width = p.sizeX.toNat + p.sizeY.toNat := rfl
  have hfit : p.sizeY.toNat * p.rows.toNat * 8 < 2 ^ 64 := columns_fit hdata (by omega)
  have hspec := rowOfY_spec hdata
  have houter : ∀ malloc y, malloc (p.rows * p.sizeY * 8) = some y → ∀ n,
      (forE p.rows (forF p.sizeY (recoverTurnY p storage)) n ⟨e, f, y⟩).bind
        (fun s => .finished (some s.block)) = problemRecoverY malloc p storage e f n := by
    intro malloc y hy n
    rw [problemRecoverY, hy]
  constructor
  · intro malloc hg hshape
    obtain ⟨y, hy, hbytes⟩ := hg (p.rows * p.sizeY * 8)
    have hlen := granted_length hbytes hfit
    by_cases hempty : p.rows.toNat = 0 ∨ p.sizeY.toNat = 0
    · obtain ⟨t, ht, _⟩ := outerY_skip hempty ⟨e, f, y⟩
      refine ⟨t.block, (ht.map fun s => some s.block).congr (houter malloc y hy), ?_⟩
      intro e he f hf
      omega
    · have hpos : 0 < p.rows.toNat := by omega
      have hposY : 0 < p.sizeY.toNat := by omega
      have hle := Nat.le_mul_of_pos_left p.rows.toNat hposY
      let I (k : Nat) (b : Block) : Prop := b.bytes = y.bytes ∧
        (0 < k → ∀ e < p.rows.toNat, ∀ f < p.sizeY.toNat,
          b.cells (e * p.sizeY.toNat + f) = p.yValues xs e f)
      have hturn : ∀ k t, I k t.block → ∃ t', Settles (fun n => copyRows p.rows p.rowOfY n t)
          (.finished t') ∧ t'.e = p.rows ∧ t'.f = t.f ∧ I (k + 1) t'.block := by
        rintro k t ⟨htbytes, _⟩
        obtain ⟨t', ht', he, hf, hsame, hcells⟩ := copyRows_fit (s := t) hspec (by omega)
          (granted_length (htbytes.trans hbytes) hfit)
        exact ⟨t', ht', he, hf, hsame.trans htbytes, fun _ => hcells⟩
      obtain ⟨t, ht, _, hcells⟩ := outerY_rows (s := ⟨e, f, y⟩) hrow hcol hpos hposY (by omega)
        hturn ⟨rfl, fun h0 => absurd h0 (Nat.lt_irrefl 0)⟩
      exact ⟨t.block, (ht.map fun s => some s.block).congr (houter malloc y hy), hcells hposY⟩
  · intro malloc y hy hbytes htwo hlong
    have hpos : 0 < p.rows.toNat := by omega
    have hposY : 0 < p.sizeY.toNat := by omega
    have hle := Nat.le_mul_of_pos_left p.rows.toNat hposY
    let I (_ : Nat) (b : Block) : Prop := b.bytes = y.bytes ∧
      b.cells (p.sizeY.toNat * p.rows.toNat - 1) = y.cells (p.sizeY.toNat * p.rows.toNat - 1)
    have hturn : ∀ k t, I k t.block → ∃ t', Settles (fun n => copyRows p.rows p.rowOfY n t)
        (.finished t') ∧ t'.e = p.rows ∧ t'.f = t.f ∧ I (k + 1) t'.block := by
      rintro k t ⟨htbytes, htcell⟩
      obtain ⟨t', ht', he, hf, hsame, hcell⟩ := copyRows_short (s := t) hspec htwo hlong
        (granted_length (htbytes.trans hbytes) hfit)
      exact ⟨t', ht', he, hf, hsame.trans htbytes, hcell.trans htcell⟩
    obtain ⟨t, ht, _, hcell⟩ := outerY_rows (s := ⟨e, f, y⟩) hrow hcol hpos hposY (by omega)
      hturn ⟨rfl, rfl⟩
    exact ⟨t.block, (ht.map fun s => some s.block).congr (houter malloc y hy), hcell⟩
  · intro malloc hg hpos hshort
    obtain ⟨y, hy, hbytes⟩ := hg (p.rows * p.sizeY * 8)
    have hout : Settles (fun n => forE p.rows (forF p.sizeY (recoverTurnY p storage)) n ⟨e, f, y⟩)
        .undefined := by
      apply outerY_undefined hrow hcol (by omega) hpos
      intro t ht
      apply copyRows_outside hspec hpos hshort
      rw [ht]
      exact granted_length hbytes hfit
    exact (hout.bind_undefined _).congr (houter malloc y hy)

/-- The extractions by rows and by columns agree exactly where there is at most one row, or no
column, or as many columns as rows: the start of a row is computed with the number of rows. -/
theorem layouts_agree_iff (hdata : readArray p.data p.elements = some xs)
    {storage storage' : UInt32} (hrow : hasFlag storage problemRowMajor = true)
    (hcol : hasFlag storage problemColMajor = false)
    (hcol' : hasFlag storage' problemColMajor = true)
    (hrow' : hasFlag storage' problemRowMajor = false)
    (hbias : hasFlag storage problemAddBias = hasFlag storage' problemAddBias)
    (hfit : (p.featuresOfX storage).toNat * p.rows.toNat * 8 < 2 ^ 64) (e f e' f' : UInt64) :
    (LayoutsAgree (fun malloc => problemRecoverX malloc p storage e f)
        (fun malloc => problemRecoverX malloc p storage' e' f')
        p.rows.toNat (p.featuresOfX storage).toNat ↔
      p.rows.toNat ≤ 1 ∨ (p.featuresOfX storage).toNat = 0 ∨
        p.rows.toNat = (p.featuresOfX storage).toNat) ∧
    (LayoutsAgree (fun malloc => problemRecoverY malloc p storage e f)
        (fun malloc => problemRecoverY malloc p storage' e' f')
        p.rows.toNat p.sizeY.toNat ↔
      p.rows.toNat ≤ 1 ∨ p.sizeY.toNat = 0 ∨ p.rows.toNat = p.sizeY.toNat) := by
  have hw : p.width = p.sizeX.toNat + p.sizeY.toNat := rfl
  have hfeatures : p.featuresOfX storage' = p.featuresOfX storage := by
    unfold ProblemT.featuresOfX
    rw [hbias]
  have hmatrix : p.matrixX xs storage' = p.matrixX xs storage := by
    unfold ProblemT.matrixX
    rw [hbias]
  constructor
  · apply (recoverX_copied hrow hcol hdata hfit e f).agree_iff
    intro malloc hg
    have hv := matrixX_values hdata storage'
    rw [hmatrix] at hv
    obtain ⟨Y, hY, hm⟩ := recoverX_columns hg hcol' hrow' hv (hfeatures ▸ hfit) e' f'
    rw [hfeatures] at hm
    exact ⟨Y, hY, hm.element⟩
  · apply (recoverY_copied hrow hcol hdata e f).agree_iff
    intro malloc hg
    obtain ⟨Y, hY, hm⟩ := recoverY_columns hg hcol' hrow' (valueOfY_values hdata)
      (columns_fit hdata (by omega)) e' f'
    exact ⟨Y, hY, hm.element⟩

end Agreement

theorem layouts_agree_iff_twoRows :
    (LayoutsAgree (fun malloc => problemRecoverX malloc .twoRows problemRowMajor 0 0)
        (fun malloc => problemRecoverX malloc .twoRows problemColMajor 0 0) 2 1 ↔
      2 ≤ 1 ∨ 1 = 0 ∨ 2 = 1) ∧
    (LayoutsAgree (fun malloc => problemRecoverY malloc .twoRows problemRowMajor 0 0)
        (fun malloc => problemRecoverY malloc .twoRows problemColMajor 0 0) 2 1 ↔
      2 ≤ 1 ∨ 1 = 0 ∨ 2 = 1) := by
  have hrow : hasFlag problemRowMajor problemRowMajor = true := rfl
  have hcol : hasFlag problemColMajor problemColMajor = true := rfl
  exact layouts_agree_iff ProblemT.twoRows_read hrow rfl hcol rfl rfl (by decide) 0 0 0 0

/-- The second of two rows of one input is stored behind the block. -/
theorem layouts_disagree :
    Settles (problemRecoverX sampleMalloc .twoRows problemRowMajor 0 0) .undefined ∧
      ¬ LayoutsAgree (fun malloc => problemRecoverX malloc .twoRows problemRowMajor 0 0)
        (fun malloc => problemRecoverX malloc .twoRows problemColMajor 0 0) 2 1 := by
  have hrow : hasFlag problemRowMajor problemRowMajor = true := rfl
  have hcopied := recoverX_copied hrow rfl ProblemT.twoRows_read (by decide) 0 0
  have hundefined := hcopied.outside sampleMalloc sampleMalloc_grants (by decide) (by decide)
  refine ⟨hundefined, ?_⟩
  intro hagree
  obtain ⟨X, _, hX, _⟩ := hagree _ _ sampleMalloc_grants sampleMalloc_grants
  exact nomatch hX.unique hundefined

end Aiqb
