import Aiqb.DraftSteps

namespace Aiqb
set_option autoImplicit true

/-- The header is complete, and so are the first `n` elements of the arrays. -/
structure ProblemDraft.Received (d : ProblemDraft) (c : Problem) (n : Nat) : Prop where
  fits : d.val.Fits c
  cvData : ArrayHolds d.val.cvData c.cvData n
  testData : ArrayHolds d.val.testData c.testData (n - c.cvData.length)
  data : ArrayHolds d.val.data c.data (n - c.cvData.length - c.testData.length)
  state : ArrayHolds d.val.state c.state
    (n - c.cvData.length - c.testData.length - c.data.length)

theorem ProblemT.Fits.same {p p' : ProblemT} (h : p.Fits c) (hs : p.SameHeader p') :
    p'.Fits c where
  type := hs.type.trans h.type
  optm := hs.optm.trans h.optm
  rows := hs.rows.trans h.rows
  sizeX := hs.sizeX.trans h.sizeX
  sizeY := hs.sizeY.trans h.sizeY
  cvSize := by rw [hs.cvSize, h.cvSize]
  testSize := by rw [hs.testSize, h.testSize]
  points := by rw [hs.points, h.points]
  stateSize := by rw [hs.stateSize, h.stateSize]

def Problem.count (c : Problem) : Nat :=
  8 + c.cvData.length + c.testData.length + c.data.length + c.state.length

/-- The message is short enough for a 16-bit index. -/
def Problem.Short (c : Problem) : Prop := c.count ≤ 65535

namespace ProblemDraft

variable {d : ProblemDraft} {c : Problem} {n : Nat} {i : UInt16}

theorem Received.bounded (h : d.Received c n) (hs : c.Short) : d.val.Bounded := by
  obtain ⟨_, _, _, _, _, hc, ht, hp, hst⟩ := h.fits
  unfold Problem.Short Problem.count at hs
  exact ⟨by omega, by omega, by omega, by omega⟩

theorem Received.total (h : d.Received c n) (hs : c.Short) :
    d.total.toNat = 8 + c.cvData.length + c.testData.length + c.data.length + c.state.length := by
  rw [(h.bounded hs).total_toNat, h.fits.cvSize, h.fits.testSize, h.fits.points, h.fits.stateSize]

theorem Received.carries (h : d.Received c n)
    (hn : c.cvData.length + c.testData.length + c.data.length + c.state.length ≤ n) :
    d.val.Carries c where
  fits := h.fits
  cvData := by rw [h.fits.cvSize]; exact h.cvData.read (by omega)
  testData := by rw [h.fits.testSize]; exact h.testData.read (by omega)
  data := by rw [h.fits.points]; exact h.data.read (by omega)
  state := by rw [h.fits.stateSize]; exact h.state.read (by omega)

theorem Received.store_cvData (h : d.Received c n) (hs : c.Short)
    (hv : c.cvData[n]? = some v) (hi : i.toNat = 8 + n) :
    ∃ d', storeIndex i.toUInt64 v d = some d' ∧ d'.Received c (n + 1) := by
  have hn := (List.getElem?_eq_some_iff.mp hv).1
  have hfit := h.fits
  have hsub := toNat_sub_header (i := i) (by omega)
  obtain ⟨b, b', hb, hst, hnext⟩ := h.cvData.store hv (i := i.toUInt64 - 8) (by omega)
  refine ⟨d.assign (.cvData (i.toUInt64 - 8)) { d.val with cvData := some b' }, ?_, ?_⟩
  · rw [storeIndex_cvData (h.bounded hs) (by omega) (by rw [hfit.cvSize]; omega)]
    simp only [storeCvData, storeElement, hb, Option.bind_eq_bind, Option.bind_some, hst]
  · have h0 : n + 1 - c.cvData.length = n - c.cvData.length := by omega
    refine ⟨hfit.same ⟨rfl, rfl, rfl, rfl, rfl, rfl, rfl, rfl⟩, hnext, ?_, ?_, ?_⟩
    · rw [h0]; exact h.testData
    · rw [h0]; exact h.data
    · rw [h0]; exact h.state

theorem Received.store_testData (h : d.Received c n) (hs : c.Short) (hc : c.cvData.length ≤ n)
    (hv : c.testData[n - c.cvData.length]? = some v) (hi : i.toNat = 8 + n) :
    ∃ d', storeIndex i.toUInt64 v d = some d' ∧ d'.Received c (n + 1) := by
  have hn := (List.getElem?_eq_some_iff.mp hv).1
  have hfit := h.fits
  have hcv := hfit.cvSize
  have hts := hfit.testSize
  have hsub := toNat_sub_cvData (d := d) (i := i) (by omega)
  obtain ⟨b, b', hb, hst, hnext⟩ := h.testData.store hv
    (i := i.toUInt64 - 8 - d.val.cvSize) (by omega)
  refine ⟨d.assign (.testData (i.toUInt64 - 8 - d.val.cvSize))
    { d.val with testData := some b' }, ?_, ?_⟩
  · rw [storeIndex_testData (h.bounded hs) (by omega) (by omega)]
    simp only [storeTestData, storeElement, hb, Option.bind_eq_bind, Option.bind_some, hst]
  · have h0 : n + 1 - c.cvData.length = n - c.cvData.length + 1 := by omega
    have h1 : n + 1 - c.cvData.length - c.testData.length =
        n - c.cvData.length - c.testData.length := by omega
    refine ⟨hfit.same ⟨rfl, rfl, rfl, rfl, rfl, rfl, rfl, rfl⟩,
      h.cvData.full hc _, ?_, ?_, ?_⟩
    · rw [h0]; exact hnext
    · rw [h1]; exact h.data
    · rw [h1]; exact h.state

theorem Received.store_data (h : d.Received c n) (hs : c.Short)
    (hc : c.cvData.length + c.testData.length ≤ n)
    (hv : c.data[n - c.cvData.length - c.testData.length]? = some v) (hi : i.toNat = 8 + n) :
    ∃ d', storePoint i.toUInt64 v d = some d' ∧ d'.Received c (n + 1) := by
  have hn := (List.getElem?_eq_some_iff.mp hv).1
  have hfit := h.fits
  have hcv := hfit.cvSize
  have hts := hfit.testSize
  have hpt := hfit.points
  have hsub := toNat_sub_testData (d := d) (i := i) (by omega)
  obtain ⟨b, b', hb, hst, hnext⟩ := h.data.store hv
    (i := i.toUInt64 - 8 - d.val.cvSize - d.val.testSize) (by omega)
  refine ⟨d.assign (.data (i.toUInt64 - 8 - d.val.cvSize - d.val.testSize))
    { d.val with data := some b' }, ?_, ?_⟩
  · rw [storePoint_data (h.bounded hs) (by omega) (by omega)]
    simp only [storeData, storeElement, hb, Option.bind_eq_bind, Option.bind_some, hst]
  · have h1 : n + 1 - c.cvData.length - c.testData.length =
        n - c.cvData.length - c.testData.length + 1 := by omega
    have h2 : n + 1 - c.cvData.length - c.testData.length - c.data.length =
        n - c.cvData.length - c.testData.length - c.data.length := by omega
    refine ⟨hfit.same ⟨rfl, rfl, rfl, rfl, rfl, rfl, rfl, rfl⟩,
      h.cvData.full (by omega) _, h.testData.full (by omega) _, ?_, ?_⟩
    · rw [h1]; exact hnext
    · rw [h2]; exact h.state

theorem Received.store_state (h : d.Received c n) (hs : c.Short)
    (hc : c.cvData.length + c.testData.length + c.data.length ≤ n)
    (hv : c.state[n - c.cvData.length - c.testData.length - c.data.length]? = some v)
    (hi : i.toNat = 8 + n) :
    ∃ d', storePoint i.toUInt64 v d = some d' ∧ d'.Received c (n + 1) := by
  have hn := (List.getElem?_eq_some_iff.mp hv).1
  have hfit := h.fits
  have hcv := hfit.cvSize
  have hts := hfit.testSize
  have hpt := hfit.points
  have hss := hfit.stateSize
  have hsub := toNat_sub_data (d := d) (i := i) (by omega)
  obtain ⟨b, b', hb, hst, hnext⟩ := h.state.store hv
    (i := i.toUInt64 - 8 - d.val.cvSize - d.val.testSize - d.val.points) (by omega)
  refine ⟨d.assign (.state (i.toUInt64 - 8 - d.val.cvSize - d.val.testSize - d.val.points))
    { d.val with state := some b' }, ?_, ?_⟩
  · rw [storePoint_state (h.bounded hs) (by omega) (by omega)]
    simp only [storeState, storeElement, hb, Option.bind_eq_bind, Option.bind_some, hst]
  · have h2 : n + 1 - c.cvData.length - c.testData.length - c.data.length =
        n - c.cvData.length - c.testData.length - c.data.length + 1 := by omega
    refine ⟨hfit.same ⟨rfl, rfl, rfl, rfl, rfl, rfl, rfl, rfl⟩,
      h.cvData.full (by omega) _, h.testData.full (by omega) _, h.data.full (by omega) _, ?_⟩
    rw [h2]
    exact hnext

end ProblemDraft

end Aiqb
